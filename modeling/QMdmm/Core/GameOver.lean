import QMdmm.Core.Spending

namespace QMdmmCore

open Data Logic

namespace LogicConfiguration

/-- There is something to upgrade. -/
def Upgradable (conf : LogicConfiguration) : Prop :=
  conf.initialKnifeDamage < conf.maximumKnifeDamage ∨
    conf.initialHorseDamage < conf.maximumHorseDamage ∨ conf.initialMaxHp < conf.maximumMaxHp

instance (conf : LogicConfiguration) : Decidable conf.Upgradable :=
  inferInstanceAs (Decidable (_ ∨ _ ∨ _))

theorem Upgradable.one_le_upgradeTotal {conf : LogicConfiguration} (h : conf.Upgradable)
    (hsound : conf.Sound) : 1 ≤ conf.upgradeTotal := by
  have hknife := hsound.knifeDamage
  have hhorse := hsound.horseDamage
  have hmaxHp := hsound.maxHp
  unfold Upgradable at h
  unfold upgradeTotal
  omega

end LogicConfiguration

namespace Player

variable {conf : LogicConfiguration} {source target : Player}

/-- All three stats are at their maximum. -/
def Maxed (conf : LogicConfiguration) (p : Player) : Prop :=
  p.knifeDamage = conf.maximumKnifeDamage ∧ p.horseDamage = conf.maximumHorseDamage ∧
    p.maxHp = conf.maximumMaxHp

/-- All three stats are at their initial value, and there are no points. -/
def Initial (conf : LogicConfiguration) (p : Player) : Prop :=
  p.knifeDamage = conf.initialKnifeDamage ∧ p.horseDamage = conf.initialHorseDamage ∧
    p.maxHp = conf.initialMaxHp ∧ p.upgradePoint = 0

/-- A player that has something left to upgrade. -/
structure Unfinished (conf : LogicConfiguration) (p : Player) : Prop
    extends p.StatsInBounds conf where
  upgradesLeft : 1 ≤ p.upgradesLeft conf

theorem Unfinished.of_sameStats {p q : Player} (h : p.Unfinished conf) (hstats : SameStats p q) :
    q.Unfinished conf := by
  refine ⟨h.toStatsInBounds.of_sameStats hstats, ?_⟩
  rw [hstats.upgradesLeft]
  exact h.upgradesLeft

theorem Unfinished.not_maxed {p : Player} (h : p.Unfinished conf) : ¬ p.Maxed conf := by
  rintro ⟨hknife, hhorse, hmaxHp⟩
  have hleft := h.upgradesLeft
  rw [Player.upgradesLeft, hknife, hhorse, hmaxHp] at hleft
  omega

/-- Within bounds, a stat that cannot be upgraded is at its maximum. -/
theorem StatsInBounds.maxed_iff {p : Player} (hsound : conf.Sound) (h : p.StatsInBounds conf) :
    (!p.canUpgradeHorse conf && !p.canUpgradeKnife conf && !p.canUpgradeMaxHp conf) = true ↔
      p.Maxed conf := by
  obtain ⟨hknife, hhorse, hmaxHp⟩ := h.remainingTimes_eq hsound
  obtain ⟨hknife', hhorse', hmaxHp'⟩ := h
  simp only [canUpgradeHorse, canUpgradeKnife, canUpgradeMaxHp, hknife, hhorse, hmaxHp,
    Bool.and_eq_true, Bool.not_eq_true', decide_eq_false_iff_not, Maxed]
  omega

theorem SameStats.refl (p : Player) : SameStats p p := ⟨rfl, rfl, rfl⟩

theorem SameStats.trans {p q r : Player} (h : SameStats p q) (h' : SameStats q r) : SameStats p r :=
  ⟨h'.knifeDamage.trans h.knifeDamage, h'.horseDamage.trans h.horseDamage, h'.maxHp.trans h.maxHp⟩

theorem applyDamage_sameStats (n : Int) :
    SameStats source (applyDamage conf source target n).1 ∧
      SameStats target (applyDamage conf source target n).2 := by
  rw [applyDamage_fst, applyDamage_snd]
  constructor
  · split <;> exact ⟨rfl, rfl, rfl⟩
  · exact ⟨rfl, rfl, rfl⟩

theorem slash_sameStats : SameStats source (source.slash conf target).2.1 ∧
    SameStats target (source.slash conf target).2.2 := by
  obtain ⟨hsource, htarget⟩ := @applyDamage_sameStats conf source target source.knifeDamage
  simp only [slash]
  split
  · exact ⟨.refl source, .refl target⟩
  · split
    · obtain ⟨htarget', hsource'⟩ := @applyDamage_sameStats conf
        (applyDamage conf source target source.knifeDamage).2
        (applyDamage conf source target source.knifeDamage).1
        ((applyDamage conf source target source.knifeDamage).1.slashPunishHp conf)
      exact ⟨hsource.trans hsource', htarget.trans htarget'⟩
    · exact ⟨hsource, htarget⟩

theorem kick_sameStats : SameStats source (source.kick conf target).2.1 ∧
    SameStats target (source.kick conf target).2.2 := by
  obtain ⟨hsource, htarget⟩ := @applyDamage_sameStats conf source target source.horseDamage
  simp only [kick]
  split
  · exact ⟨.refl source, .refl target⟩
  · refine ⟨hsource, ?_⟩
    split
    · exact htarget.trans ⟨rfl, rfl, rfl⟩
    · exact htarget

end Player

namespace Room

variable {conf : LogicConfiguration}

/-- A room in which nobody has reached the maximum. -/
structure Unfinished (conf : LogicConfiguration) (room : Room) : Prop where
  logicConfiguration : room.logicConfiguration = conf
  players : ∀ p ∈ room.players.toList, p.Unfinished conf

theorem mem_winnerPlayerNames {room : Room} (hsound : room.logicConfiguration.Sound)
    (h : ∀ p ∈ room.players.toList, p.StatsInBounds room.logicConfiguration) {name : String} :
    name ∈ room.winnerPlayerNames ↔
      ∃ p ∈ room.players.toList, p.objectName = name ∧ p.Maxed room.logicConfiguration := by
  simp only [winnerPlayerNames, List.mem_map, List.mem_filter]
  constructor
  · rintro ⟨p, ⟨hp, hcan⟩, hname⟩
    exact ⟨p, hp, hname, ((h p hp).maxed_iff hsound).mp hcan⟩
  · rintro ⟨p, hp, hname, hmaxed⟩
    exact ⟨p, ⟨hp, ((h p hp).maxed_iff hsound).mpr hmaxed⟩, hname⟩

theorem winnerPlayerNames_nodup (room : Room) : room.winnerPlayerNames.Nodup :=
  room.playerNames_nodup.sublist (List.filter_sublist.map _)

theorem isGameOver_iff {room : Room} (hsound : room.logicConfiguration.Sound)
    (h : ∀ p ∈ room.players.toList, p.StatsInBounds room.logicConfiguration) :
    room.isGameOver = true ↔ ∃ p ∈ room.players.toList, p.Maxed room.logicConfiguration := by
  rw [isGameOver, decide_eq_true_eq]
  constructor
  · intro hwinners
    obtain ⟨name, hname⟩ := List.exists_mem_of_ne_nil _ hwinners
    obtain ⟨p, hp, -, hmaxed⟩ := (mem_winnerPlayerNames hsound h).mp hname
    exact ⟨p, hp, hmaxed⟩
  · rintro ⟨p, hp, hmaxed⟩
    exact List.ne_nil_of_mem ((mem_winnerPlayerNames hsound h).mpr ⟨p, hp, rfl, hmaxed⟩)

theorem Unfinished.not_isGameOver {room : Room} (hsound : conf.Sound) (h : room.Unfinished conf) :
    room.isGameOver = false := by
  obtain ⟨rfl, hplayers⟩ := h
  rw [Bool.eq_false_iff, ne_eq,
    isGameOver_iff hsound fun p hp => (hplayers p hp).toStatsInBounds]
  rintro ⟨p, hp, hmaxed⟩
  exact (hplayers p hp).not_maxed hmaxed

theorem initial_resetUpgrades (room : Room) :
    ∀ p ∈ room.resetUpgrades.players.toList, p.Initial room.logicConfiguration := by
  intro p hp
  obtain ⟨old, _, rfl⟩ := List.mem_map.mp hp
  exact ⟨rfl, rfl, rfl, rfl⟩

theorem unfinished_resetUpgrades (hsound : conf.Sound) (htotal : 1 ≤ conf.upgradeTotal) {room : Room}
    (hconf : room.logicConfiguration = conf) : room.resetUpgrades.Unfinished conf := by
  refine ⟨hconf, fun p hp => ?_⟩
  obtain ⟨old, _, rfl⟩ := List.mem_map.mp hp
  rw [hconf]
  exact ⟨Player.statsInBounds_resetUpgrades hsound old, htotal⟩

end Room

namespace Logic

open LogicP

variable {conf : LogicConfiguration} {self self' : Logic (List Signal)}

/-- Stats only change when upgrades are applied, and then whoever reaches the maximum
ends the game. -/
theorem RoomStep.unfinished {d : LogicP} {c : Call} {room : Room} (hsound : conf.Sound)
    (htotal : 1 ≤ conf.upgradeTotal) (h : d.room.Unfinished conf) (hstep : RoomStep d c room) :
    room.Unfinished conf := by
  have hconf := hstep.logicConfiguration
  cases hstep with
  | rejected | rpsReply | actionOrderReply | upgradeReply => exact h
  | addPlayer | removePlayer =>
    exact Room.unfinished_resetUpgrades hsound htotal (hconf.trans h.logicConfiguration)
  | roundStart =>
    refine ⟨h.logicConfiguration, fun p hp => ?_⟩
    obtain ⟨seat, old, _, _, hold, rfl⟩ := Room.mem_prepareForRoundStart hp
    exact (h.players old hold).of_sameStats ⟨rfl, rfl, rfl⟩
  | action _ _ _ _ hperform =>
    refine ⟨hconf.trans h.logicConfiguration, ?_⟩
    refine (performAction_cases hperform).forall_players h.players (fun p hp => ?_)
      (fun p hp => ?_) (fun p _ hp => ?_) (fun p q hp hq => ?_) (fun p q hp hq => ?_)
    · exact hp.of_sameStats ⟨rfl, rfl, rfl⟩
    · exact hp.of_sameStats ⟨rfl, rfl, rfl⟩
    · exact hp.of_sameStats ⟨rfl, rfl, rfl⟩
    · exact ⟨hp.of_sameStats Player.slash_sameStats.1, hq.of_sameStats Player.slash_sameStats.2⟩
    · exact ⟨hp.of_sameStats Player.kick_sameStats.1, hq.of_sameStats Player.kick_sameStats.2⟩
  | upgrade _ hroom hgame =>
    obtain ⟨rfl, hplayers⟩ := h
    have hbounds := performUpgrades_keeps (fun p item q hp hq => (hp.upgrade hsound hq).1)
      (fun p hp => (hplayers p hp).toStatsInBounds) hroom
    refine ⟨hconf, fun p hp => ⟨hbounds p hp, ?_⟩⟩
    rw [← hconf] at hsound hbounds ⊢
    exact upgradesLeft_of_not_isGameOver hsound hbounds hgame p hp
  | gameOver =>
    exact Room.unfinished_resetUpgrades hsound htotal (hconf.trans h.logicConfiguration)

theorem unfinished_invariant (conf : LogicConfiguration) (hsound : conf.Sound)
    (htotal : 1 ≤ conf.upgradeTotal) :
    system.Invariant fun logic => logic.d.room.logicConfiguration = conf →
      logic.d.room.Unfinished conf where
  init logic hinit := by
    obtain ⟨conf', rfl⟩ := hinit
    rintro rfl
    exact ⟨rfl, fun p hp => absurd hp List.not_mem_nil⟩
  step logic c logic' h hnext := by
    obtain ⟨ret, hcall⟩ := hnext
    have hstep := call_cases hcall
    intro hlogic
    have hunfinished := h (hstep.room.logicConfiguration.symm.trans hlogic)
    exact hstep.room.unfinished hsound htotal hunfinished

/-- Every player with all its submitted upgrades. -/
structure Applied (before : Room) (upgrades : QHash String (List UpgradeItem)) (after : Room) :
    Prop where
  logicConfiguration : after.logicConfiguration = before.logicConfiguration
  playerNames : after.playerNames = before.playerNames
  players : ∀ q ∈ before.players.toList,
    q.upgradedBy (upgrades.value q.objectName []) ∈ after.players.toList

theorem applied_of_performUpgrades {room room' : Room}
    {upgrades : QHash String (List UpgradeItem)}
    (hroom : performUpgrades room upgrades.entries = .ok room') : Applied room upgrades room' := by
  refine ⟨performUpgrades_logicConfiguration hroom, performUpgrades_playerNames hroom,
    fun q hq => ?_⟩
  exact (Room.player_eq_some.mp (player_performUpgrades upgrades.nodupKeys hroom
    (Room.player_eq_some.mpr ⟨hq, rfl⟩))).1

/-- How the upgrades end: once all of them are applied, either somebody has reached the
maximum, and the game is over, or nobody has, and they are reported. -/
inductive PhaseEnd (logic logic' : Logic (List Signal)) (room : Room) : Prop where
  | gameOver {winners : List String}
      (hmaxed : ∃ p ∈ room.players.toList, p.Maxed room.logicConfiguration)
      (hwinners : ∀ name, name ∈ winners ↔
        ∃ p ∈ room.players.toList, p.objectName = name ∧ p.Maxed room.logicConfiguration)
      (hnodup : winners.Nodup) (henv : logic'.env = logic.env ++ [.gameOver winners])
      (hnames : logic'.d.room.playerNames = room.playerNames)
      (hinitial : ∀ p ∈ logic'.d.room.players.toList, p.Initial room.logicConfiguration)
  | upgradeResult (hnobody : ¬ ∃ p ∈ room.players.toList, p.Maxed room.logicConfiguration)
      (henv : logic'.env = logic.env ++ [.upgradeResult logic'.d.upgrades])
      (hroom : logic'.d.room = room)

theorem CallStep.phaseEnd {c : Call} {ret : Bool} (hsound : self.d.room.logicConfiguration.Sound)
    (h : ∀ p ∈ self.d.room.players.toList, p.StatsInBounds self.d.room.logicConfiguration)
    (hstep : CallStep self c ret self') (hbefore : self.d.state = .Upgrade)
    (hafter : self'.d.state ≠ .Upgrade) :
    ∃ room, Applied self.d.room self'.d.upgrades room ∧ PhaseEnd self self' room := by
  have hother {state : State} (hstate : self.d.state = state) (hne : state ≠ .Upgrade) : False :=
    hne (hstate.symm.trans hbefore)
  have hends {upgrades : QHash String (List UpgradeItem)} {room : Room}
      (hroom : performUpgrades self.d.room upgrades.entries = .ok room) :
      room.logicConfiguration.Sound ∧
        ∀ p ∈ room.players.toList, p.StatsInBounds room.logicConfiguration := by
    rw [performUpgrades_logicConfiguration hroom]
    exact ⟨hsound, performUpgrades_keeps (fun p item q hp hq => (hp.upgrade hsound hq).1) h hroom⟩
  cases hstep with
  | rejected => exact absurd hbefore hafter
  | addPlayer hstate | removePlayer hstate | roundStart hstate =>
    exact (hother hstate (by decide)).elim
  | rpsForAction _ hstate | rpsForActionOrder _ hstate | pick _ hstate | lastPick _ hstate
  | action _ hstate => exact (hother hstate (by decide)).elim
  | upgrade _ _ _ _ _ hstep =>
    cases hstep with
    | waiting => exact absurd hbefore hafter
    | @gameOver room _ _ hroom hgame =>
      obtain ⟨hsound', hbounds⟩ := hends hroom
      refine ⟨room, applied_of_performUpgrades hroom, ?_⟩
      exact .gameOver ((Room.isGameOver_iff hsound' hbounds).mp hgame)
        (fun name => Room.mem_winnerPlayerNames hsound' hbounds) room.winnerPlayerNames_nodup rfl
        room.resetUpgrades_playerNames room.initial_resetUpgrades
    | @result room _ _ hroom hgame =>
      obtain ⟨hsound', hbounds⟩ := hends hroom
      refine ⟨room, applied_of_performUpgrades hroom, ?_⟩
      refine .upgradeResult ?_ rfl rfl
      rw [← Room.isGameOver_iff hsound' hbounds, hgame]
      decide

/-- In no reachable state has a player reached the maximum; every call that ends the
upgrades reports once how they have ended, which is that the game is over exactly if
somebody has; and no other call reports anything of the kind. -/
theorem game_over_reported (hreach : system.Reachable self)
    (hconf : self.d.room.logicConfiguration.Accepted)
    (hupgradable : self.d.room.logicConfiguration.Upgradable) :
    self.d.room.isGameOver = false ∧
      (∀ p ∈ self.d.room.players.toList, ¬ p.Maxed self.d.room.logicConfiguration) ∧
      ∀ c ret self', self.call post c = .ok (ret, self') →
        (self.d.state = .Upgrade → self'.d.state ≠ .Upgrade →
          ∃ room, Applied self.d.room self'.d.upgrades room ∧ PhaseEnd self self' room) ∧
        (¬ (self.d.state = .Upgrade ∧ self'.d.state ≠ .Upgrade) →
          Appends NoOutcome self.env self'.env) := by
  have hsound := hconf.sound
  have hunfinished := (unfinished_invariant _ hsound
    (hupgradable.one_le_upgradeTotal hsound)).of_reachable hreach rfl
  refine ⟨hunfinished.not_isGameOver hsound, fun p hp => (hunfinished.players p hp).not_maxed,
    fun c ret self' hcall => ?_⟩
  have hstep := call_cases hcall
  constructor
  · exact hstep.phaseEnd hsound fun p hp => (hunfinished.players p hp).toStatsInBounds
  · exact fun hgoing => hstep.noOutcome.resolve_right hgoing

/-- One upgrade is all there is. -/
def shortGame : QJsonValue :=
  sets [("maximumKnifeDamage", 2), ("maximumHorseDamage", 2), ("initialMaxHp", 1),
    ("maximumMaxHp", 1), ("punishHpModifier", 0)]

/-- A slashes B to death, takes the one upgrade, and wins. -/
theorem game_over_reported_slash :
    ∃ (self self' : Logic (List Signal)) (room : Room), self.d.room.isGameOver = false ∧
      self.call post (.upgradeReply "A" [.UpgradeKnife]) = .ok (true, self') ∧
      .gameOver ["A"] ∈ self'.env ∧ Applied self.d.room self'.d.upgrades room ∧
      PhaseEnd self self' room := by
  obtain ⟨self, hreach, hconf, hslash⟩ := exists_accepted_run shortGame slashCalls
    (fun self => decide (self.d.state = .Upgrade ∧ self.d.room.logicConfiguration.Upgradable) &&
      (self.call post (.upgradeReply "A" [.UpgradeKnife])).toOption.any
        fun result : Bool × Logic (List Signal) => result.1 &&
          decide (result.2.d.state ≠ .Upgrade ∧ .gameOver ["A"] ∈ result.2.env)) (by decide)
  obtain ⟨hready, hslash⟩ := Bool.and_eq_true_iff.mp hslash
  obtain ⟨hstate, hupgradable⟩ := of_decide_eq_true hready
  obtain ⟨⟨ret, self'⟩, hcall, hslash⟩ := Except.toOption_any.mp hslash
  obtain ⟨rfl, hover⟩ := Bool.and_eq_true_iff.mp hslash
  obtain ⟨hstate', hsignal⟩ := of_decide_eq_true hover
  obtain ⟨hgame, -, hends⟩ := game_over_reported (.of_guarded hreach) hconf hupgradable
  obtain ⟨room, happlied, hend⟩ := (hends _ _ _ hcall).1 hstate hstate'
  exact ⟨self, self', room, hgame, hcall, hsignal, happlied, hend⟩

end Logic

end QMdmmCore
