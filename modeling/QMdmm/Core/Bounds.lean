import QMdmm.Core.RoomSteps

namespace QMdmmCore

open Data Logic

namespace LogicConfiguration

/-- The points a player can spend before nothing is left to upgrade. -/
def upgradeTotal (conf : LogicConfiguration) : Int :=
  (conf.maximumKnifeDamage - conf.initialKnifeDamage) +
    (conf.maximumHorseDamage - conf.initialHorseDamage) +
    (conf.maximumMaxHp - conf.initialMaxHp)

end LogicConfiguration

namespace Player

variable {conf : LogicConfiguration}

/-- What is left to upgrade. -/
def upgradesLeft (conf : LogicConfiguration) (self : Player) : Int :=
  (conf.maximumKnifeDamage - self.knifeDamage) + (conf.maximumHorseDamage - self.horseDamage) +
    (conf.maximumMaxHp - self.maxHp)

/-- What can be upgraded is between its initial and its maximum value. -/
structure StatsInBounds (conf : LogicConfiguration) (p : Player) : Prop where
  knifeDamage : conf.initialKnifeDamage ≤ p.knifeDamage ∧ p.knifeDamage ≤ conf.maximumKnifeDamage
  horseDamage : conf.initialHorseDamage ≤ p.horseDamage ∧ p.horseDamage ≤ conf.maximumHorseDamage
  maxHp : conf.initialMaxHp ≤ p.maxHp ∧ p.maxHp ≤ conf.maximumMaxHp

/-- So is each of a player's values, and it has no debts. -/
structure InBounds (conf : LogicConfiguration) (p : Player) : Prop
    extends p.StatsInBounds conf where
  upgradePoint : 0 ≤ p.upgradePoint

/-- A player can spend all the points it has. -/
structure Affords (conf : LogicConfiguration) (p : Player) : Prop
    extends p.StatsInBounds conf where
  upgradePoint_le : p.upgradePoint ≤ p.upgradesLeft conf

theorem StatsInBounds.upgradesLeft_le {self : Player} (h : self.StatsInBounds conf) :
    self.upgradesLeft conf ≤ conf.upgradeTotal := by
  have := h.knifeDamage
  have := h.horseDamage
  have := h.maxHp
  unfold Player.upgradesLeft LogicConfiguration.upgradeTotal
  omega

/-- No overflow: the cap of a kill is what is left. -/
theorem StatsInBounds.upgradeRemainingTimes_eq {self : Player} (h : self.StatsInBounds conf)
    (htotal : conf.upgradeTotal ≤ intMax) :
    self.upgradeRemainingTimes conf = self.upgradesLeft conf := by
  have hleft := h.upgradesLeft_le
  obtain ⟨hknife, hhorse, hmaxHp⟩ := h
  unfold Player.upgradesLeft LogicConfiguration.upgradeTotal intMax at *
  rw [upgradeRemainingTimes, upgradeKnifeRemainingTimes, upgradeHorseRemainingTimes,
    upgradeMaxHpRemainingTimes, int32_eq_self (x := conf.maximumKnifeDamage - _),
    int32_eq_self (x := conf.maximumHorseDamage - _), int32_eq_self (x := conf.maximumMaxHp - _),
    int32_eq_self] <;> unfold intMax <;> omega

/-- How often each value can be upgraded, without overflow. -/
theorem StatsInBounds.remainingTimes_eq {p : Player} (hsound : conf.Sound)
    (h : p.StatsInBounds conf) :
    p.upgradeKnifeRemainingTimes conf = conf.maximumKnifeDamage - p.knifeDamage ∧
      p.upgradeHorseRemainingTimes conf = conf.maximumHorseDamage - p.horseDamage ∧
      p.upgradeMaxHpRemainingTimes conf = conf.maximumMaxHp - p.maxHp := by
  obtain ⟨hknife, hhorse, hmaxHp, _⟩ := hsound
  have hknife' := h.knifeDamage
  have hhorse' := h.horseDamage
  have hmaxHp' := h.maxHp
  unfold intMax at *
  refine ⟨int32_eq_self ?_ ?_, int32_eq_self ?_ ?_, int32_eq_self ?_ ?_⟩ <;> unfold intMax <;> omega

/-- With or without overflow, a kill credits no more than what is left. -/
theorem StatsInBounds.upgradeRemainingTimes_le {p : Player} (hsound : conf.Sound)
    (h : p.StatsInBounds conf) : p.upgradeRemainingTimes conf ≤ p.upgradesLeft conf := by
  obtain ⟨hknife, hhorse, hmaxHp⟩ := h.remainingTimes_eq hsound
  have hnonneg : 0 ≤ p.upgradesLeft conf := by
    have hknife' := h.knifeDamage
    have hhorse' := h.horseDamage
    have hmaxHp' := h.maxHp
    unfold upgradesLeft
    omega
  rw [upgradeRemainingTimes, hknife, hhorse, hmaxHp]
  exact int32_le_self hnonneg

/-- A successful upgrade leaves no value above its maximum, and the points alone. -/
theorem StatsInBounds.upgrade {p q : Player} {item : UpgradeItem} (hsound : conf.Sound)
    (h : p.StatsInBounds conf) (hupgrade : p.upgrade conf item = (true, q)) :
    q.StatsInBounds conf ∧ q.upgradePoint = p.upgradePoint := by
  obtain ⟨hknife, hhorse, hmaxHp⟩ := h.remainingTimes_eq hsound
  obtain ⟨hknife', hhorse', hmaxHp'⟩ := h
  cases item with
  | UpgradeKnife =>
    simp only [Player.upgrade, upgradeKnife, canUpgradeKnife, hknife] at hupgrade
    split at hupgrade
    · cases hupgrade
    · next hcan =>
      cases hupgrade
      simp only [Bool.not_eq_true', decide_eq_false_iff_not, not_not] at hcan
      exact ⟨⟨⟨by dsimp only; omega, by dsimp only; omega⟩, hhorse', hmaxHp'⟩, rfl⟩
  | UpgradeHorse =>
    simp only [Player.upgrade, upgradeHorse, canUpgradeHorse, hhorse] at hupgrade
    split at hupgrade
    · cases hupgrade
    · next hcan =>
      cases hupgrade
      simp only [Bool.not_eq_true', decide_eq_false_iff_not, not_not] at hcan
      exact ⟨⟨hknife', ⟨by dsimp only; omega, by dsimp only; omega⟩, hmaxHp'⟩, rfl⟩
  | UpgradeMaxHp =>
    simp only [Player.upgrade, upgradeMaxHp, canUpgradeMaxHp, hmaxHp] at hupgrade
    split at hupgrade
    · cases hupgrade
    · next hcan =>
      cases hupgrade
      simp only [Bool.not_eq_true', decide_eq_false_iff_not, not_not] at hcan
      exact ⟨⟨hknife', hhorse', ⟨by dsimp only; omega, by dsimp only; omega⟩⟩, rfl⟩

/-- The fields that only a new round and the upgrades change. -/
structure SameStats (p q : Player) : Prop where
  knifeDamage : q.knifeDamage = p.knifeDamage
  horseDamage : q.horseDamage = p.horseDamage
  maxHp : q.maxHp = p.maxHp

theorem StatsInBounds.of_sameStats {p q : Player} (h : p.StatsInBounds conf)
    (hstats : SameStats p q) : q.StatsInBounds conf := by
  refine ⟨?_, ?_, ?_⟩
  · rw [hstats.knifeDamage]
    exact h.knifeDamage
  · rw [hstats.horseDamage]
    exact h.horseDamage
  · rw [hstats.maxHp]
    exact h.maxHp

theorem SameStats.upgradesLeft {p q : Player} (hstats : SameStats p q) :
    q.upgradesLeft conf = p.upgradesLeft conf := by
  rw [Player.upgradesLeft, Player.upgradesLeft, hstats.knifeDamage, hstats.horseDamage, hstats.maxHp]

theorem statsInBounds_resetUpgrades (hsound : conf.Sound) (p : Player) :
    (p.resetUpgrades conf).StatsInBounds conf := by
  refine ⟨?_, ?_, ?_⟩
  · exact ⟨le_rfl, hsound.knifeDamage.2.1⟩
  · exact ⟨le_rfl, hsound.horseDamage.2.1⟩
  · exact ⟨le_rfl, hsound.maxHp.2.1⟩

theorem Affords.of_sameStats {p q : Player} (h : p.Affords conf) (hstats : SameStats p q)
    (hpoint : q.upgradePoint ≤ p.upgradesLeft conf) : q.Affords conf := by
  refine ⟨h.toStatsInBounds.of_sameStats hstats, ?_⟩
  rw [hstats.upgradesLeft]
  exact hpoint

theorem applyDamage_affords (hsound : conf.Sound) {source target : Player}
    (hsource : source.Affords conf) (htarget : target.Affords conf) (n : Int) :
    (applyDamage conf source target n).1.Affords conf ∧
      (applyDamage conf source target n).2.Affords conf := by
  rw [applyDamage_fst, applyDamage_snd]
  constructor
  · split
    · have hle := hsource.toStatsInBounds.upgradeRemainingTimes_le hsound
      exact hsource.of_sameStats ⟨rfl, rfl, rfl⟩ ((min_le_right _ _).trans hle)
    · exact hsource
  · exact htarget.of_sameStats ⟨rfl, rfl, rfl⟩ htarget.upgradePoint_le

theorem Affords.slash (hsound : conf.Sound) {source target : Player} (hself : source.Affords conf)
    (htarget : target.Affords conf) : (source.slash conf target).2.1.Affords conf ∧
      (source.slash conf target).2.2.Affords conf := by
  have hdamage := applyDamage_affords hsound hself htarget source.knifeDamage
  simp only [Player.slash]
  split
  · exact ⟨hself, htarget⟩
  · split
    · exact (applyDamage_affords hsound hdamage.2 hdamage.1 _).symm
    · exact hdamage

theorem Affords.kick (hsound : conf.Sound) {source target : Player} (hself : source.Affords conf)
    (htarget : target.Affords conf) : (source.kick conf target).2.1.Affords conf ∧
      (source.kick conf target).2.2.Affords conf := by
  have hdamage := applyDamage_affords hsound hself htarget source.horseDamage
  simp only [Player.kick]
  split
  · exact ⟨hself, htarget⟩
  · refine ⟨hdamage.1, ?_⟩
    split
    · exact hdamage.2.of_sameStats ⟨rfl, rfl, rfl⟩ hdamage.2.upgradePoint_le
    · exact hdamage.2

/-- A round starts without points. -/
theorem StatsInBounds.prepareForRoundStart {p : Player} (h : p.StatsInBounds conf) (seat : Int) :
    (p.prepareForRoundStart seat).Affords conf := by
  obtain ⟨hknife, hhorse, hmaxHp⟩ := h
  refine ⟨⟨hknife, hhorse, hmaxHp⟩, ?_⟩
  change (0 : Int) ≤ _
  unfold upgradesLeft Player.prepareForRoundStart
  dsimp only
  omega

/-- Nobody slashes itself. -/
theorem slash_self (self : Player) : self.slash conf self = (false, self, self) := by
  have hcan : self.canSlash conf self = false := by simp [canSlash]
  simp [slash, hcan]

theorem kick_self (self : Player) : self.kick conf self = (false, self, self) := by
  have hcan : self.canKick conf self = false := by simp [canKick]
  simp [kick, hcan]

end Player

namespace Room

/-- Writing back a player as it is changes nothing. -/
theorem setPlayer_of_mem {self : Room} {p : Player} (hp : p ∈ self.players.toList) :
    self.setPlayer p = self := by
  have hplayers : self.players.replace p = self.players := by
    apply OrderedMap.ext
    rw [OrderedMap.replace, OrderedMap.map]
    conv_rhs => rw [← List.map_id self.players.toList]
    refine List.map_congr_left fun q hq => ?_
    split
    · next hname => exact (OrderedMap.eq_of_mem hq hp hname).symm
    · rfl
  rw [setPlayer, hplayers]

theorem alivePlayersCount_of_all {room : Room}
    (hall : ∀ p ∈ room.players.toList, p.alive room.logicConfiguration = true) :
    room.alivePlayersCount = room.playerNames.length := by
  rw [alivePlayersCount, alivePlayers, List.filter_eq_self.mpr hall]
  exact (List.length_map _).symm

end Room

namespace LogicP

variable {d d' : LogicP}

/-- What holds of every player and is kept by what a player does holds of every
player after an action. -/
theorem PerformAction.forall_players {P : Player → Prop} {name toPlayer : String}
    {action : Action} {toPlace : Int} {ok : Bool} (h : ∀ p ∈ d.room.players.toList, P p)
    (hknife : ∀ p, P p → P { p with knife := true })
    (hhorse : ∀ p, P p → P { p with horse := true })
    (hplace : ∀ p place, P p → P { p with place := place })
    (hslash : ∀ p q, P p → P q → P (p.slash d.room.logicConfiguration q).2.1 ∧
      P (p.slash d.room.logicConfiguration q).2.2)
    (hkick : ∀ p q, P p → P q → P (p.kick d.room.logicConfiguration q).2.1 ∧
      P (p.kick d.room.logicConfiguration q).2.2)
    (hperform : PerformAction d name action toPlayer toPlace ok d') :
    ∀ p ∈ d'.room.players.toList, P p := by
  have hset {room : Room} {p : Player} (hroom : ∀ q ∈ room.players.toList, P q) (hp : P p) :
      ∀ q ∈ (room.setPlayer p).players.toList, P q := by
    intro q hq
    rcases OrderedMap.mem_replace.mp hq with ⟨rfl, _⟩ | ⟨hq, _⟩
    · exact hp
    · exact hroom q hq
  have hderef {name : String} {p : Player} (hp : d.deref name = .ok p) : P p :=
    h p (Room.player_eq_some.mp (deref_eq_ok.mp hp)).1
  cases hperform with
  | doNothing => exact h
  | @buyKnife source _ _ hsource =>
    apply hset h
    rw [Player.buyKnife]
    split
    · exact hderef hsource
    · exact hknife _ (hderef hsource)
  | @buyHorse source _ _ hsource =>
    apply hset h
    rw [Player.buyHorse]
    split
    · exact hderef hsource
    · exact hhorse _ (hderef hsource)
  | slash hsource htarget =>
    obtain ⟨hself, hslashed⟩ := hslash _ _ (hderef hsource) (hderef htarget)
    exact hset (hset h hself) hslashed
  | kick hsource htarget =>
    obtain ⟨hself, hkicked⟩ := hkick _ _ (hderef hsource) (hderef htarget)
    exact hset (hset h hself) hkicked
  | move hsource =>
    apply hset h
    rw [Player.move]
    split
    · exact hplace _ _ (hderef hsource)
    · exact hderef hsource
  | letMove hsource htarget =>
    apply hset h
    rw [Player.letMove]
    split
    · exact hplace _ _ (hderef htarget)
    · exact hderef htarget

/-- What every successful upgrade keeps of a player, all of them keep. -/
theorem upgradePlayer_keeps {conf : LogicConfiguration} {P : Player → Prop}
    (hkeeps : ∀ p item q, P p → p.upgrade conf item = (true, q) → P q) {p q : Player}
    {items : List UpgradeItem} (h : P p) (hupgrade : upgradePlayer conf p items = .ok q) : P q := by
  induction items generalizing p with
  | nil =>
    cases hupgrade
    exact h
  | cons item rest ih =>
    rcases hitem : p.upgrade conf item with ⟨ok, upgraded⟩
    rw [upgradePlayer, hitem] at hupgrade
    cases ok with
    | true => exact ih (hkeeps p item upgraded h hitem) hupgrade
    | false => cases hupgrade

theorem performUpgrades_keeps {P : Player → Prop} {room room' : Room}
    {entries : List (Sigma fun _ : String => List UpgradeItem)}
    (hkeeps : ∀ p item q, P p → p.upgrade room.logicConfiguration item = (true, q) → P q)
    (h : ∀ p ∈ room.players.toList, P p) (hroom : performUpgrades room entries = .ok room') :
    ∀ p ∈ room'.players.toList, P p := by
  induction entries generalizing room with
  | nil =>
    cases hroom
    exact h
  | cons entry rest ih =>
    rw [performUpgrades] at hroom
    split at hroom
    · cases hroom
    · next up hup =>
      obtain ⟨upgraded, hupgraded, hroom⟩ := Except.bind_eq_ok.mp hroom
      have hset : ∀ p ∈ (room.setPlayer upgraded).players.toList, P p := by
        intro p hp
        rcases OrderedMap.mem_replace.mp hp with ⟨rfl, _⟩ | ⟨hp, _⟩
        · exact upgradePlayer_keeps hkeeps (h up (Room.player_eq_some.mp hup).1) hupgraded
        · exact h p hp
      exact @ih (room.setPlayer upgraded) hkeeps hset hroom

theorem performUpgrades_inBounds {room room' : Room}
    {entries : List (Sigma fun _ : String => List UpgradeItem)}
    (hsound : room.logicConfiguration.Sound)
    (h : ∀ p ∈ room.players.toList, p.InBounds room.logicConfiguration)
    (hroom : performUpgrades room entries = .ok room') :
    ∀ p ∈ room'.players.toList, p.InBounds room.logicConfiguration := by
  apply performUpgrades_keeps _ h hroom
  intro p item q hp hupgrade
  obtain ⟨hstats, hpoint⟩ := hp.toStatsInBounds.upgrade hsound hupgrade
  exact ⟨hstats, hp.upgradePoint.trans_eq hpoint.symm⟩

/-- What can be upgraded is in bounds at any time, and no player of a round has
more points than it can spend. -/
structure Solvent (conf : LogicConfiguration) (d : LogicP) : Prop where
  logicConfiguration : d.room.logicConfiguration = conf
  statsInBounds : ∀ p ∈ d.room.players.toList, p.StatsInBounds conf
  affords : d.state ≠ .BeforeRoundStart → ∀ p ∈ d.room.players.toList, p.Affords conf

theorem PerformAction.affords {name toPlayer : String} {action : Action} {toPlace : Int} {ok : Bool}
    (hsound : d.room.logicConfiguration.Sound)
    (h : ∀ p ∈ d.room.players.toList, p.Affords d.room.logicConfiguration)
    (hperform : PerformAction d name action toPlayer toPlace ok d') :
    ∀ p ∈ d'.room.players.toList, p.Affords d.room.logicConfiguration := by
  refine hperform.forall_players h (fun p hp => ?_) (fun p hp => ?_) (fun p _ hp => ?_)
    (fun p q hp hq => hp.slash hsound hq) (fun p q hp hq => hp.kick hsound hq) <;>
  exact hp.of_sameStats ⟨rfl, rfl, rfl⟩ hp.upgradePoint_le

end LogicP

namespace Logic

open LogicP

variable {conf : LogicConfiguration} {self self' : Logic (List Signal)}

theorem RoomStep.statsInBounds {d : LogicP} {c : Call} {room : Room} (hsound : conf.Sound)
    (h : Solvent conf d) (hstep : RoomStep d c room) :
    ∀ p ∈ room.players.toList, p.StatsInBounds conf := by
  have hconf := hstep.logicConfiguration.trans h.logicConfiguration
  have hreset {room : Room} (hconf : room.logicConfiguration = conf) :
      ∀ p ∈ room.resetUpgrades.players.toList, p.StatsInBounds conf := by
    intro p hp
    obtain ⟨old, _, rfl⟩ := List.mem_map.mp hp
    rw [hconf]
    exact Player.statsInBounds_resetUpgrades hsound old
  cases hstep with
  | rejected | rpsReply | actionOrderReply | upgradeReply => exact h.statsInBounds
  | addPlayer | removePlayer => exact hreset hconf
  | roundStart =>
    intro p hp
    obtain ⟨seat, old, _, _, hold, rfl⟩ := Room.mem_prepareForRoundStart hp
    exact ((h.statsInBounds old hold).prepareForRoundStart seat).toStatsInBounds
  | action _ hstate _ _ hperform =>
    obtain ⟨rfl, _, haffords⟩ := h
    have hall := haffords (by rw [hstate]; decide)
    exact fun p hp => ((performAction_cases hperform).affords hsound hall p hp).toStatsInBounds
  | upgrade _ hroom =>
    obtain ⟨rfl, hstats, _⟩ := h
    exact performUpgrades_keeps (fun p item q hp hq => (hp.upgrade hsound hq).1) hstats hroom
  | gameOver => exact hreset hconf

theorem CallStep.solvent {c : Call} {ret : Bool} (hsound : conf.Sound) (h : Solvent conf self.d)
    (hstep : CallStep self c ret self') : Solvent conf self'.d := by
  refine ⟨hstep.room.logicConfiguration.trans h.logicConfiguration,
    hstep.room.statsInBounds hsound h, fun hstarted => ?_⟩
  rcases hstep.started hstarted with ⟨hround, hroom⟩ | ⟨hround, action⟩ | hroom
  · rw [hroom]
    exact h.affords hround
  · obtain ⟨_, _, _, _, _, _, hperform, hroom⟩ := action
    obtain ⟨rfl, _, haffords⟩ := h
    rw [hroom]
    exact hperform.affords hsound (haffords hround)
  · rw [hroom]
    intro p hp
    obtain ⟨seat, old, _, _, hold, rfl⟩ := Room.mem_prepareForRoundStart hp
    exact (h.statsInBounds old hold).prepareForRoundStart seat

theorem solvent_invariant (conf : LogicConfiguration) (hsound : conf.Sound) :
    system.Invariant fun logic => logic.d.room.logicConfiguration = conf → Solvent conf logic.d where
  init logic hinit := by
    obtain ⟨conf', rfl⟩ := hinit
    rintro rfl
    exact ⟨rfl, fun p hp => absurd hp List.not_mem_nil, fun hround => absurd rfl hround⟩
  step logic c logic' h hnext := by
    obtain ⟨ret, hcall⟩ := hnext
    have hstep := call_cases hcall
    intro hlogic
    have hsolvent := h (hstep.room.logicConfiguration.symm.trans hlogic)
    exact hstep.solvent hsound hsolvent

end Logic

end QMdmmCore
