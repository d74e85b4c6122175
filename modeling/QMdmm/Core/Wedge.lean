import QMdmm.Core.Asked
import QMdmm.Core.Bounds

namespace QMdmmCore

open Data Logic

namespace LogicConfiguration

/-- A player that starts a round is alive. -/
def Livable (conf : LogicConfiguration) : Prop :=
  Player.deadAtHp conf conf.initialMaxHp = false

/-- Neither a slash nor a kick hurts anybody, nor does slashing in a city. -/
def Harmless (conf : LogicConfiguration) : Prop :=
  conf.initialKnifeDamage = 0 ∧ conf.initialHorseDamage = 0 ∧
    ({ Player.new conf "" with place := 1 }).slashPunishHp conf ≤ 0

/-- Everybody starts alive, and if somebody can die, there are points to earn,
as many as an `int` holds at most. -/
def RoundsEnd (conf : LogicConfiguration) : Prop :=
  conf.Livable ∧ (conf.Harmless ∨ (1 ≤ conf.upgradeTotal ∧ conf.upgradeTotal ≤ intMax))

instance (conf : LogicConfiguration) : Decidable conf.RoundsEnd := by
  unfold RoundsEnd Livable Harmless
  exact inferInstance

end LogicConfiguration

namespace Player

variable {conf : LogicConfiguration}

theorem deadAtHp_mono {h h' : Int} (hle : h ≤ h') (halive : deadAtHp conf h = false) :
    deadAtHp conf h' = false := by
  unfold deadAtHp at halive ⊢
  split at halive <;> simp_all <;> omega

/-- A player that any kill will give a point. -/
structure Growing (conf : LogicConfiguration) (p : Player) : Prop extends p.InBounds conf where
  upgradesLeft : 1 ≤ p.upgradesLeft conf

variable {source target : Player}

theorem Growing.of_sameStats {p q : Player} (h : p.Growing conf) (hstats : SameStats p q)
    (hpoint : 0 ≤ q.upgradePoint) : q.Growing conf := by
  refine ⟨⟨h.toStatsInBounds.of_sameStats hstats, hpoint⟩, ?_⟩
  rw [hstats.upgradesLeft]
  exact h.upgradesLeft

theorem Growing.earned_pos (h : source.Growing conf) (htotal : conf.upgradeTotal ≤ intMax) :
    0 < min (source.upgradePoint + 1) (source.upgradeRemainingTimes conf) := by
  have hpoint := h.upgradePoint
  have hleft := h.upgradesLeft
  rw [h.upgradeRemainingTimes_eq htotal]
  omega

theorem applyDamage_growing (htotal : conf.upgradeTotal ≤ intMax) (hsource : source.Growing conf)
    (htarget : target.Growing conf) (n : Int) :
    (applyDamage conf source target n).1.Growing conf ∧
      (applyDamage conf source target n).2.Growing conf := by
  rw [applyDamage_fst, applyDamage_snd]
  constructor
  · split
    · exact hsource.of_sameStats ⟨rfl, rfl, rfl⟩ (hsource.earned_pos htotal).le
    · exact hsource
  · exact htarget.of_sameStats ⟨rfl, rfl, rfl⟩ htarget.upgradePoint

/-- Of two players nobody has died, or somebody has been credited with a kill. -/
def Credited (conf : LogicConfiguration) (p q : Player) : Prop :=
  (p.alive conf = true ∧ q.alive conf = true) ∨ 0 < p.upgradePoint ∨ 0 < q.upgradePoint

/-- Two players before and after one has damaged the other: whoever had points
still has some, and a death earns some. -/
structure Credits (conf : LogicConfiguration) (p q p' q' : Player) : Prop where
  source : 0 < p.upgradePoint → 0 < p'.upgradePoint
  target : 0 < q.upgradePoint → 0 < q'.upgradePoint
  kill : p.alive conf = true → q.alive conf = true → Credited conf p' q'

theorem Credits.refl (p q : Player) : Credits conf p q p q := ⟨id, id, fun hp hq => .inl ⟨hp, hq⟩⟩

theorem Credits.symm {p q p' q' : Player} (h : Credits conf p q p' q') :
    Credits conf q p q' p' := by
  refine ⟨h.target, h.source, fun hq hp => ?_⟩
  rcases h.kill hp hq with ⟨hp', hq'⟩ | hp' | hq'
  · exact .inl ⟨hq', hp'⟩
  · exact .inr (.inr hp')
  · exact .inr (.inl hq')

theorem Credits.trans {p q p' q' p'' q'' : Player} (h : Credits conf p q p' q')
    (h' : Credits conf p' q' p'' q'') : Credits conf p q p'' q'' := by
  refine ⟨h'.source ∘ h.source, h'.target ∘ h.target, fun hp hq => ?_⟩
  rcases h.kill hp hq with ⟨hp', hq'⟩ | hp' | hq'
  · exact h'.kill hp' hq'
  · exact .inr (.inl (h'.source hp'))
  · exact .inr (.inr (h'.target hq'))

theorem applyDamage_credits (htotal : conf.upgradeTotal ≤ intMax) (hsource : source.Growing conf)
    (target : Player) (n : Int) :
    Credits conf source target (applyDamage conf source target n).1
      (applyDamage conf source target n).2 := by
  rw [applyDamage_fst, applyDamage_snd]
  split
  · have hearned := hsource.earned_pos htotal
    exact ⟨fun _ => hearned, id, fun _ _ => .inr (.inl hearned)⟩
  · next hkill =>
    refine ⟨id, id, fun halive htarget => .inl ⟨halive, ?_⟩⟩
    simp only [htarget, Bool.true_and] at hkill
    simpa [alive, dead] using hkill

theorem slash_growing (htotal : conf.upgradeTotal ≤ intMax) (hself : source.Growing conf)
    (htarget : target.Growing conf) :
    (source.slash conf target).2.1.Growing conf ∧ (source.slash conf target).2.2.Growing conf := by
  have hdamage := applyDamage_growing htotal hself htarget source.knifeDamage
  simp only [slash]
  split
  · exact ⟨hself, htarget⟩
  · split
    · exact (applyDamage_growing htotal hdamage.2 hdamage.1 _).symm
    · exact hdamage

theorem kick_growing (htotal : conf.upgradeTotal ≤ intMax) (hself : source.Growing conf)
    (htarget : target.Growing conf) :
    (source.kick conf target).2.1.Growing conf ∧ (source.kick conf target).2.2.Growing conf := by
  have hdamage := applyDamage_growing htotal hself htarget source.horseDamage
  simp only [kick]
  split
  · exact ⟨hself, htarget⟩
  · refine ⟨hdamage.1, ?_⟩
    split
    · exact hdamage.2.of_sameStats ⟨rfl, rfl, rfl⟩ hdamage.2.upgradePoint
    · exact hdamage.2

theorem slash_credits (htotal : conf.upgradeTotal ≤ intMax) (hself : source.Growing conf)
    (htarget : target.Growing conf) :
    Credits conf source target (source.slash conf target).2.1 (source.slash conf target).2.2 := by
  have hgrowing := applyDamage_growing htotal hself htarget source.knifeDamage
  have hdamage := applyDamage_credits htotal hself target source.knifeDamage
  simp only [slash]
  split
  · exact .refl _ _
  · split
    · exact hdamage.trans (applyDamage_credits htotal hgrowing.2 _ _).symm
    · exact hdamage

theorem kick_credits (htotal : conf.upgradeTotal ≤ intMax) (hself : source.Growing conf) :
    Credits conf source target (source.kick conf target).2.1 (source.kick conf target).2.2 := by
  have hdamage := applyDamage_credits htotal hself target source.horseDamage
  simp only [kick]
  split
  · exact .refl _ _
  · split
    · exact ⟨hdamage.source, hdamage.target, hdamage.kill⟩
    · exact hdamage

end Player

namespace Room

variable {conf : LogicConfiguration}

/-- Nobody has died, or somebody has points to spend. -/
def Earned (self : Room) : Prop :=
  (∀ p ∈ self.players.toList, p.alive self.logicConfiguration = true) ∨
    ∃ p ∈ self.players.toList, 0 < p.upgradePoint

theorem Earned.setPlayer {self : Room} (h : self.Earned) {p q : Player}
    (hp : p ∈ self.players.toList) (hname : q.objectName = p.objectName)
    (halive : p.alive self.logicConfiguration = true → q.alive self.logicConfiguration = true)
    (hpoint : 0 < p.upgradePoint → 0 < q.upgradePoint) : (self.setPlayer q).Earned := by
  have hq : q ∈ (self.setPlayer q).players.toList :=
    OrderedMap.mem_replace.mpr (.inl ⟨rfl, hname ▸ List.mem_map_of_mem hp⟩)
  rcases h with hall | ⟨r, hr, hrpoint⟩
  · left
    intro r hr
    rcases OrderedMap.mem_replace.mp hr with ⟨rfl, _⟩ | ⟨hr, _⟩
    · exact halive (hall p hp)
    · exact hall r hr
  · right
    by_cases hsame : r.objectName = q.objectName
    · obtain rfl := OrderedMap.eq_of_mem hr hp (hsame.trans hname)
      exact ⟨q, hq, hpoint hrpoint⟩
    · exact ⟨r, OrderedMap.mem_replace.mpr (.inr ⟨hr, hsame⟩), hrpoint⟩

/-- Two different players are written back after one has damaged the other. -/
theorem Earned.setPlayers {self : Room} (h : self.Earned) {p q p' q' : Player}
    (hp : p ∈ self.players.toList) (hq : q ∈ self.players.toList)
    (hdistinct : p.objectName ≠ q.objectName) (hp' : p'.objectName = p.objectName)
    (hq' : q'.objectName = q.objectName)
    (hcredits : Player.Credits self.logicConfiguration p q p' q') :
    ((self.setPlayer p').setPlayer q').Earned := by
  have hmemp : p' ∈ ((self.setPlayer p').setPlayer q').players.toList := by
    refine OrderedMap.mem_replace.mpr (.inr ⟨?_, by rwa [hp', hq']⟩)
    exact OrderedMap.mem_replace.mpr (.inl ⟨rfl, hp' ▸ List.mem_map_of_mem hp⟩)
  have hmemq : q' ∈ ((self.setPlayer p').setPlayer q').players.toList := by
    refine OrderedMap.mem_replace.mpr (.inl ⟨rfl, ?_⟩)
    change q'.objectName ∈ (self.setPlayer p').playerNames
    rw [hq', setPlayer_playerNames]
    exact List.mem_map_of_mem hq
  have hkeep {r : Player} (hr : r ∈ self.players.toList) (hrp : r.objectName ≠ p.objectName)
      (hrq : r.objectName ≠ q.objectName) :
      r ∈ ((self.setPlayer p').setPlayer q').players.toList := by
    refine OrderedMap.mem_replace.mpr (.inr ⟨?_, by rwa [hq']⟩)
    exact OrderedMap.mem_replace.mpr (.inr ⟨hr, by rwa [hp']⟩)
  rcases h with hall | ⟨r, hr, hrpoint⟩
  · rcases hcredits.kill (hall p hp) (hall q hq) with ⟨halivep, haliveq⟩ | hpoint | hpoint
    · left
      intro r hr
      rcases OrderedMap.mem_replace.mp hr with ⟨rfl, _⟩ | ⟨hr, _⟩
      · exact haliveq
      · rcases OrderedMap.mem_replace.mp hr with ⟨rfl, _⟩ | ⟨hr, _⟩
        · exact halivep
        · exact hall r hr
    · exact .inr ⟨p', hmemp, hpoint⟩
    · exact .inr ⟨q', hmemq, hpoint⟩
  · right
    by_cases hrp : r.objectName = p.objectName
    · obtain rfl := OrderedMap.eq_of_mem hr hp hrp
      exact ⟨p', hmemp, hcredits.source hrpoint⟩
    · by_cases hrq : r.objectName = q.objectName
      · obtain rfl := OrderedMap.eq_of_mem hr hq hrq
        exact ⟨q', hmemq, hcredits.target hrpoint⟩
      · exact ⟨r, hkeep hr hrp hrq, hrpoint⟩

/-- At the end of a round that two players have started, somebody has points. -/
theorem Earned.exists_points {self : Room} (h : self.Earned) (htwo : 2 ≤ self.playerNames.length)
    (hover : self.isRoundOver = true) : ∃ p ∈ self.players.toList, 0 < p.upgradePoint := by
  rcases h with hall | hpoint
  · have hcount := alivePlayersCount_of_all hall
    simp only [isRoundOver, decide_eq_true_eq] at hover
    omega
  · exact hpoint

end Room

namespace LogicP

variable {d d' : LogicP}

theorem PerformAction.growing {name toPlayer : String} {action : Action} {toPlace : Int} {ok : Bool}
    (htotal : d.room.logicConfiguration.upgradeTotal ≤ intMax)
    (hgrowing : ∀ p ∈ d.room.players.toList, p.Growing d.room.logicConfiguration)
    (hperform : PerformAction d name action toPlayer toPlace ok d') :
    ∀ p ∈ d'.room.players.toList, p.Growing d.room.logicConfiguration := by
  refine hperform.forall_players hgrowing (fun p hp => ?_) (fun p hp => ?_) (fun p _ hp => ?_)
    (fun p q hp hq => Player.slash_growing htotal hp hq)
    (fun p q hp hq => Player.kick_growing htotal hp hq) <;>
  exact hp.of_sameStats ⟨rfl, rfl, rfl⟩ hp.upgradePoint

theorem PerformAction.earned {name toPlayer : String} {action : Action} {toPlace : Int} {ok : Bool}
    (htotal : d.room.logicConfiguration.upgradeTotal ≤ intMax)
    (hgrowing : ∀ p ∈ d.room.players.toList, p.Growing d.room.logicConfiguration)
    (hearned : d.room.Earned) (hperform : PerformAction d name action toPlayer toPlace ok d') :
    d'.room.Earned := by
  have hmem {name : String} {p : Player} (hp : d.deref name = .ok p) :
      p ∈ d.room.players.toList := (Room.player_eq_some.mp (deref_eq_ok.mp hp)).1
  cases hperform with
  | doNothing => exact hearned
  | @buyKnife source _ _ hsource =>
    refine hearned.setPlayer (hmem hsource) source.buyKnife_sameSeat.objectName ?_ ?_ <;>
      (rw [Player.buyKnife]; split <;> exact id)
  | @buyHorse source _ _ hsource =>
    refine hearned.setPlayer (hmem hsource) source.buyHorse_sameSeat.objectName ?_ ?_ <;>
      (rw [Player.buyHorse]; split <;> exact id)
  | @slash source target _ _ hsource htarget =>
    have hp := hmem hsource
    have hq := hmem htarget
    obtain ⟨hself, hslashed⟩ := source.slash_sameSeat d.room.logicConfiguration target
    by_cases hsame : source.objectName = target.objectName
    · obtain rfl := OrderedMap.eq_of_mem hp hq hsame
      rw [source.slash_self]
      simpa only [setPlayer_room, Room.setPlayer_of_mem hp] using hearned
    · exact hearned.setPlayers hp hq hsame hself.objectName hslashed.objectName
        (Player.slash_credits htotal (hgrowing _ hp) (hgrowing _ hq))
  | @kick source target _ _ hsource htarget =>
    have hp := hmem hsource
    have hq := hmem htarget
    obtain ⟨hself, hkicked⟩ := source.kick_sameSeat d.room.logicConfiguration target
    by_cases hsame : source.objectName = target.objectName
    · obtain rfl := OrderedMap.eq_of_mem hp hq hsame
      rw [source.kick_self]
      simpa only [setPlayer_room, Room.setPlayer_of_mem hp] using hearned
    · refine hearned.setPlayers hp hq hsame hself.objectName ?_
        (Player.kick_credits htotal (hgrowing _ hp))
      rcases hkicked with hkicked | hkicked
      · exact hkicked.objectName
      · exact hkicked.1
  | @move source _ _ hsource =>
    refine hearned.setPlayer (hmem hsource) ?_ ?_ ?_ <;>
      (rw [Player.move]; split)
    all_goals first | rfl | exact id
  | @letMove source target _ _ hsource htarget =>
    refine hearned.setPlayer (hmem htarget) ?_ ?_ ?_ <;>
      (rw [Player.letMove]; split)
    all_goals first | rfl | exact id

end LogicP

namespace Player

variable {conf : LogicConfiguration}

theorem growing_of_initial (hsound : conf.Sound) (htotal : 1 ≤ conf.upgradeTotal) {p : Player}
    (hknife : p.knifeDamage = conf.initialKnifeDamage)
    (hhorse : p.horseDamage = conf.initialHorseDamage) (hmaxHp : p.maxHp = conf.initialMaxHp)
    (hpoint : p.upgradePoint = 0) : p.Growing conf := by
  refine ⟨⟨⟨?_, ?_, ?_⟩, hpoint.ge⟩, ?_⟩
  · rw [hknife]
    exact ⟨le_rfl, hsound.knifeDamage.2.1⟩
  · rw [hhorse]
    exact ⟨le_rfl, hsound.horseDamage.2.1⟩
  · rw [hmaxHp]
    exact ⟨le_rfl, hsound.maxHp.2.1⟩
  · rwa [upgradesLeft, hknife, hhorse, hmaxHp]

end Player

namespace LogicP

/-- As long as nobody has won, everybody has something left to upgrade. -/
theorem upgradesLeft_of_not_isGameOver {room : Room} (hsound : room.logicConfiguration.Sound)
    (h : ∀ p ∈ room.players.toList, p.StatsInBounds room.logicConfiguration)
    (hgame : room.isGameOver = false) :
    ∀ p ∈ room.players.toList, 1 ≤ p.upgradesLeft room.logicConfiguration := by
  intro p hp
  obtain ⟨hknife, hhorse, hmaxHp⟩ := (h p hp).remainingTimes_eq hsound
  obtain ⟨hknife', hhorse', hmaxHp'⟩ := h p hp
  simp only [Room.isGameOver, Room.winnerPlayerNames, ne_eq, decide_eq_false_iff_not, not_not,
    List.map_eq_nil_iff, List.filter_eq_nil_iff] at hgame
  have hcan := hgame p hp
  simp only [Player.canUpgradeKnife, Player.canUpgradeHorse, Player.canUpgradeMaxHp, hknife, hhorse,
    hmaxHp, Bool.and_eq_true, Bool.not_eq_true', decide_eq_false_iff_not, not_and, not_lt] at hcan
  unfold Player.upgradesLeft
  omega

theorem growing_of_not_isGameOver {room : Room} (hsound : room.logicConfiguration.Sound)
    (h : ∀ p ∈ room.players.toList, p.InBounds room.logicConfiguration)
    (hgame : room.isGameOver = false) :
    ∀ p ∈ room.players.toList, p.Growing room.logicConfiguration :=
  fun p hp => ⟨h p hp, upgradesLeft_of_not_isGameOver hsound
    (fun q hq => (h q hq).toStatsInBounds) hgame p hp⟩

end LogicP

namespace Room

variable {conf : LogicConfiguration}

/-- A room whose players all have something left to upgrade. -/
structure Growing (conf : LogicConfiguration) (room : Room) : Prop where
  logicConfiguration : room.logicConfiguration = conf
  players : ∀ p ∈ room.players.toList, p.Growing conf

theorem growing_resetUpgrades (hsound : conf.Sound) (htotal : 1 ≤ conf.upgradeTotal) {room : Room}
    (hconf : room.logicConfiguration = conf) : room.resetUpgrades.Growing conf := by
  refine ⟨hconf, fun p hp => ?_⟩
  obtain ⟨old, _, rfl⟩ := List.mem_map.mp hp
  rw [hconf]
  exact Player.growing_of_initial hsound htotal rfl rfl rfl rfl

theorem Growing.prepareForRoundStart {room : Room} (h : room.Growing conf) :
    room.prepareForRoundStart.Growing conf := by
  refine ⟨h.logicConfiguration, fun p hp => ?_⟩
  obtain ⟨seat, old, _, _, hold, rfl⟩ := mem_prepareForRoundStart hp
  exact (h.players old hold).of_sameStats ⟨rfl, rfl, rfl⟩ le_rfl

/-- Whoever has at least the initial HP starts a round alive. -/
theorem prepareForRoundStart_alive (hlivable : conf.Livable) {room : Room}
    (hmaxHp : ∀ p ∈ room.players.toList, conf.initialMaxHp ≤ p.maxHp) :
    ∀ p ∈ room.prepareForRoundStart.players.toList, p.alive conf = true := by
  intro p hp
  obtain ⟨seat, old, _, _, hold, rfl⟩ := mem_prepareForRoundStart hp
  simp only [Player.alive, Player.dead, Player.prepareForRoundStart, Bool.not_eq_true']
  exact Player.deadAtHp_mono (hmaxHp old hold) hlivable

end Room

namespace Logic

open LogicP

variable {conf : LogicConfiguration} {self self' : Logic (List Signal)}

/-- Between the start of a round and its end. -/
def InRound (d : LogicP) : Prop := d.state ≠ .BeforeRoundStart ∧ d.state ≠ .Upgrade

/-- What holds wherever points can be earned: in a round that two players have
started nobody has died for nothing. -/
structure EarningInv (conf : LogicConfiguration) (d : LogicP) : Prop where
  room : d.room.Growing conf
  earned : InRound d → 2 ≤ d.room.playerNames.length ∧ d.room.Earned

theorem RoomStep.growing {d : LogicP} {c : Call} {room : Room} (hsound : conf.Sound)
    (htotal : 1 ≤ conf.upgradeTotal ∧ conf.upgradeTotal ≤ intMax) (h : d.room.Growing conf)
    (hstep : RoomStep d c room) : room.Growing conf := by
  have hconf := hstep.logicConfiguration
  cases hstep with
  | rejected | rpsReply | actionOrderReply | upgradeReply => exact h
  | addPlayer | removePlayer =>
    exact Room.growing_resetUpgrades hsound htotal.1 (hconf.trans h.logicConfiguration)
  | roundStart => exact h.prepareForRoundStart
  | action _ _ _ _ hperform =>
    obtain ⟨rfl, hplayers⟩ := h
    exact ⟨hconf, (performAction_cases hperform).growing htotal.2 hplayers⟩
  | upgrade _ hroom hgame =>
    obtain ⟨rfl, hplayers⟩ := h
    have hbounds := performUpgrades_inBounds hsound (fun p hp => (hplayers p hp).toInBounds) hroom
    refine ⟨hconf, ?_⟩
    rw [← hconf] at hsound hbounds ⊢
    exact growing_of_not_isGameOver hsound hbounds hgame
  | gameOver =>
    exact Room.growing_resetUpgrades hsound htotal.1 (hconf.trans h.logicConfiguration)

/-- A call within a round keeps the players, and what they have earned. -/
theorem RoomStep.earned {d : LogicP} {c : Call} {room : Room}
    (htotal : conf.upgradeTotal ≤ intMax) (h : d.room.Growing conf) (hround : InRound d)
    (hearned : 2 ≤ d.room.playerNames.length ∧ d.room.Earned) (hstep : RoomStep d c room) :
    2 ≤ room.playerNames.length ∧ room.Earned := by
  cases hstep with
  | rejected | rpsReply | actionOrderReply | upgradeReply => exact hearned
  | addPlayer hstate | removePlayer hstate | roundStart hstate => exact absurd hstate hround.1
  | action _ _ _ _ hperform =>
    have hperform := performAction_cases hperform
    obtain ⟨hconf, hplayers⟩ := h
    subst hconf
    rw [hperform.frame.2.1]
    exact ⟨hearned.1, hperform.earned htotal hplayers hearned.2⟩
  | upgrade hstate | gameOver hstate => exact absurd hstate hround.2

/-- A round begins with `roundStart` alone. -/
theorem CallStep.inRound {c : Call} {ret : Bool} (hstep : CallStep self c ret self')
    (hround : InRound self'.d) : InRound self.d ∨ (c = .roundStart ∧
      2 ≤ self.d.room.playerNames.length ∧ self'.d.room = self.d.room.prepareForRoundStart) := by
  have hother {state : State} (hstate : self.d.state = state)
      (hne : state ≠ .BeforeRoundStart ∧ state ≠ .Upgrade) : InRound self.d := by
    rw [InRound, hstate]
    exact hne
  cases hstep with
  | rejected => exact .inl hround
  | addPlayer hstate | removePlayer hstate => exact absurd hstate hround.1
  | roundStart _ htwo => exact .inr ⟨rfl, htwo, rfl⟩
  | rpsForAction _ hstate | rpsForActionOrder _ hstate | pick _ hstate | lastPick _ hstate
  | action _ hstate => exact .inl (hother hstate (by decide))
  | upgrade _ hstate _ _ _ hstep =>
    cases hstep with
    | waiting => exact absurd hstate hround.2
    | gameOver | result => exact absurd rfl hround.1

theorem CallStep.earning {c : Call} {ret : Bool} (hsound : conf.Sound) (hlivable : conf.Livable)
    (htotal : 1 ≤ conf.upgradeTotal ∧ conf.upgradeTotal ≤ intMax) (h : EarningInv conf self.d)
    (hstep : CallStep self c ret self') : EarningInv conf self'.d := by
  refine ⟨hstep.room.growing hsound htotal h.room, fun hround => ?_⟩
  rcases hstep.inRound hround with hself | ⟨_, htwo, hroom⟩
  · exact hstep.room.earned htotal.2 h.room hself (h.earned hself)
  · rw [hroom, Room.prepareForRoundStart_playerNames]
    refine ⟨htwo, .inl ?_⟩
    rw [Room.prepareForRoundStart_logicConfiguration, h.room.logicConfiguration]
    exact Room.prepareForRoundStart_alive hlivable fun p hp => (h.room.players p hp).maxHp.1

/-- The signals since `env` end with a round that is over, and with the requests
for its upgrades. -/
def EndsRound (env : List Signal) (logic : Logic (List Signal)) : Prop :=
  ∃ (d : LogicP) (before : List Signal), d.room.isRoundOver = true ∧
    logic = ⟨d.enterUpgrade, env ++ before ++ [.roundOver] ++
      d.upgraders.map fun p => .requestUpgrade p.objectName p.upgradePoint⟩

/-- The round goes on: no signal since `env` ends it. -/
def GoesOn (env : List Signal) (logic : Logic (List Signal)) : Prop :=
  Appends (· ≠ .roundOver) env logic.env ∧ logic.d.state ≠ .Upgrade

/-- Signals before that do not end the round make no difference. -/
theorem goesOn_or_endsRound_after {env signals : List Signal} (hquiet : ∀ s ∈ signals, s ≠ .roundOver)
    (h : GoesOn (env ++ signals) self ∨ EndsRound (env ++ signals) self) :
    GoesOn env self ∨ EndsRound env self := by
  rcases h with ⟨happends, hstate⟩ | ⟨d, before, hover, heq⟩
  · exact .inl ⟨(Appends.append hquiet).trans happends, hstate⟩
  · exact .inr ⟨d, signals ++ before, hover, by rw [heq, List.append_assoc env]⟩

theorem NextAction.goesOn (hstep : NextAction self self') : GoesOn self.env self' := by
  cases hstep with
  | turn | again => exact ⟨.append (by simp), by simp [enterRpsForAction]⟩

theorem StartAction.ends (hstep : StartAction self self') :
    GoesOn self.env self' ∨ EndsRound self.env self' := by
  cases hstep with
  | next _ hnext => exact .inl hnext.goesOn
  | roundOver hover => exact .inr ⟨self.d, [], hover, by rw [List.append_nil]⟩

theorem StartActionOrder.ends (hstep : StartActionOrder self self') :
    GoesOn self.env self' ∨ EndsRound self.env self' := by
  cases hstep with
  | settled _ _ haction => exact goesOn_or_endsRound_after (by simp) haction.ends
  | contested => exact .inl ⟨.append (by simp [actionOrderRequests]), by simp [enterActionOrder]⟩

theorem StartRpsForActionOrder.ends (hstep : StartRpsForActionOrder self self') :
    GoesOn self.env self' ∨ EndsRound self.env self' := by
  cases hstep with
  | uncontested _ hstart => exact hstart.ends
  | contested => exact .inl ⟨.append (by simp), by simp [enterRpsForActionOrder]⟩

theorem RpsForAction.ends (hstate : self.d.state ≠ .Upgrade) (hstep : RpsForAction self self') :
    GoesOn self.env self' ∨ EndsRound self.env self' := by
  cases hstep with
  | waiting => exact .inl ⟨.refl _, hstate⟩
  | tie =>
    rw [List.append_assoc]
    exact .inl ⟨.append (by simp), by simp [enterRpsForAction]⟩
  | decided _ _ _ hstart => exact goesOn_or_endsRound_after (by simp) hstart.ends

theorem RpsForActionOrder.ends (hstate : self.d.state ≠ .Upgrade)
    (hstep : RpsForActionOrder self self') : GoesOn self.env self' ∨ EndsRound self.env self' := by
  cases hstep with
  | waiting => exact .inl ⟨.refl _, hstate⟩
  | decided _ hstart => exact goesOn_or_endsRound_after (by simp) hstart.ends

/-- Within a round a call ends it or not; at any other time it does not, nor does
it ask for upgrades. -/
theorem CallStep.ends {c : Call} {ret : Bool} (hstep : CallStep self c ret self') :
    (InRound self.d ∧ EndsRound self.env self') ∨
      (Appends (· ≠ .roundOver) self.env self'.env ∧
        (self'.d.state = .Upgrade → self.d.state = .Upgrade)) := by
  have hround {state : State} (hstate : self.d.state = state)
      (hne : state ≠ .BeforeRoundStart ∧ state ≠ .Upgrade)
      (hends : GoesOn self.env self' ∨ EndsRound self.env self') :
      (InRound self.d ∧ EndsRound self.env self') ∨
        (Appends (· ≠ .roundOver) self.env self'.env ∧
          (self'.d.state = .Upgrade → self.d.state = .Upgrade)) := by
    rcases hends with hgoes | hends
    · exact .inr ⟨hgoes.1, fun hupgrade => absurd hupgrade hgoes.2⟩
    · refine .inl ⟨?_, hends⟩
      rw [InRound, hstate]
      exact hne
  cases hstep with
  | rejected | addPlayer | removePlayer => exact .inr ⟨.refl _, id⟩
  | roundStart => exact .inr ⟨.append (by simp), fun hupgrade => by cases hupgrade⟩
  | rpsForAction _ hstate _ hstep =>
    have hends := hstep.ends (by simp [hstate])
    exact hround hstate (by decide) hends
  | rpsForActionOrder _ hstate _ hstep =>
    have hends := hstep.ends (by simp [hstate])
    exact hround hstate (by decide) hends
  | pick _ hstate _ _ hrecord =>
    subst hrecord
    exact .inr ⟨.refl _, id⟩
  | lastPick _ hstate _ _ _ _ hstep => exact hround hstate (by decide) hstep.ends
  | action _ hstate _ _ _ hstep =>
    exact hround hstate (by decide) (goesOn_or_endsRound_after (by simp) hstep.ends)
  | upgrade _ hstate _ _ _ hstep =>
    refine .inr ⟨?_, fun _ => hstate⟩
    cases hstep with
    | waiting => exact .refl _
    | gameOver | result => exact .append (by simp)

/-- What the end of a round needs: the round was started by two players, and
nobody has died for nothing. -/
theorem EndsRound.requests {env signals : List Signal} (hends : EndsRound env self)
    (hearned : 2 ≤ self.d.room.playerNames.length ∧ self.d.room.Earned)
    (henv : self.env = env ++ signals) : self.d.state = .Upgrade ∧
      ∃ p ∈ self.d.room.players.toList, 0 < p.upgradePoint ∧
        .requestUpgrade p.objectName p.upgradePoint ∈ signals := by
  obtain ⟨d, before, hover, rfl⟩ := hends
  obtain ⟨p, hp, hpoint⟩ := hearned.2.exists_points hearned.1 hover
  have hupgrader : p ∈ d.upgraders := List.mem_filter.mpr ⟨hp, decide_eq_true hpoint⟩
  refine ⟨?_, p, hp, hpoint, ?_⟩
  · simp only [enterUpgrade]
    rw [if_neg (List.ne_nil_of_mem hupgrader)]
  · simp only [List.append_assoc, List.append_cancel_left_eq] at henv
    rw [← henv]
    simp only [List.mem_append]
    exact .inr (.inr (List.mem_map.mpr ⟨p, hupgrader, rfl⟩))

end Logic

namespace Player

variable {conf : LogicConfiguration}

/-- A player that has not been upgraded and has no point. -/
structure Fresh (conf : LogicConfiguration) (p : Player) : Prop where
  knifeDamage : p.knifeDamage = conf.initialKnifeDamage
  horseDamage : p.horseDamage = conf.initialHorseDamage
  maxHp : p.maxHp = conf.initialMaxHp
  upgradePoint : p.upgradePoint = 0

/-- A player that nobody has hurt since. -/
structure Unhurt (conf : LogicConfiguration) (p : Player) : Prop extends p.Fresh conf where
  hp : p.hp = conf.initialMaxHp

/-- The punishment depends on the place only by being in a city. -/
theorem Fresh.slashPunishHp_le (hharmless : conf.Harmless) {p : Player} (h : p.Fresh conf) :
    p.slashPunishHp conf ≤ 0 := by
  have hpunish := hharmless.2.2
  by_cases hplace : p.place = Village
  · rw [slashPunishHp, if_pos hplace]
  · have hcity : (1 : Int) ≠ Village := by decide
    rw [slashPunishHp, if_neg hcity] at hpunish
    rw [slashPunishHp, if_neg hplace, h.maxHp]
    exact hpunish

/-- Nobody dies of a blow that does nothing. -/
theorem Unhurt.survives_zero (hsound : conf.Sound) {target : Player} (htarget : target.Unhurt conf) :
    int32 (target.hp - 0) = target.hp ∧
      (target.alive conf && deadAtHp conf (int32 (target.hp - 0))) = false := by
  have hhp : int32 (target.hp - 0) = target.hp := by
    obtain ⟨hlo, hmid, hhi⟩ := hsound.maxHp
    rw [Int.sub_zero, htarget.hp]
    exact int32_eq_self (by unfold intMax; omega) (by omega)
  refine ⟨hhp, ?_⟩
  rw [hhp]
  simp [alive, dead]

theorem Unhurt.applyDamage_zero (hsound : conf.Sound) {target : Player} (htarget : target.Unhurt conf)
    (source : Player) : applyDamage conf source target 0 = (source, target) := by
  obtain ⟨hhp, hkill⟩ := htarget.survives_zero hsound
  refine Prod.ext ?_ ?_
  · rw [applyDamage_fst, hkill]
    rfl
  · rw [applyDamage_snd, hhp]

theorem Unhurt.slash (hsound : conf.Sound) (hharmless : conf.Harmless) {p q : Player}
    (hp : p.Unhurt conf) (hq : q.Unhurt conf) :
    (p.slash conf q).2.1.Unhurt conf ∧ (p.slash conf q).2.2.Unhurt conf := by
  have hdamage : p.knifeDamage = 0 := hp.knifeDamage.trans hharmless.1
  have hpunish := hp.slashPunishHp_le hharmless
  simp only [Player.slash, hdamage, hq.applyDamage_zero hsound]
  split
  · exact ⟨hp, hq⟩
  · rw [if_neg (not_lt.mpr hpunish)]
    exact ⟨hp, hq⟩

theorem Unhurt.kick (hsound : conf.Sound) (hharmless : conf.Harmless) {p q : Player}
    (hp : p.Unhurt conf) (hq : q.Unhurt conf) :
    (p.kick conf q).2.1.Unhurt conf ∧ (p.kick conf q).2.2.Unhurt conf := by
  have hdamage : p.horseDamage = 0 := hp.horseDamage.trans hharmless.2.1
  simp only [Player.kick, hdamage, hq.applyDamage_zero hsound]
  split
  · exact ⟨hp, hq⟩
  · refine ⟨hp, ?_⟩
    split
    · exact ⟨⟨hq.knifeDamage, hq.horseDamage, hq.maxHp, hq.upgradePoint⟩, hq.hp⟩
    · exact hq

theorem Unhurt.alive (hlivable : conf.Livable) {p : Player} (h : p.Unhurt conf) :
    p.alive conf = true := by
  rw [Player.alive, Player.dead, h.hp, hlivable]
  rfl

end Player

namespace LogicP

variable {d d' : LogicP}

theorem PerformAction.unhurt {name toPlayer : String} {action : Action} {toPlace : Int} {ok : Bool}
    (hsound : d.room.logicConfiguration.Sound)
    (hharmless : d.room.logicConfiguration.Harmless)
    (h : ∀ p ∈ d.room.players.toList, p.Unhurt d.room.logicConfiguration)
    (hperform : PerformAction d name action toPlayer toPlace ok d') :
    ∀ p ∈ d'.room.players.toList, p.Unhurt d.room.logicConfiguration := by
  refine hperform.forall_players h (fun p hp => ?_) (fun p hp => ?_) (fun p _ hp => ?_)
    (fun p q hp hq => hp.slash hsound hharmless hq) (fun p q hp hq => hp.kick hsound hharmless hq) <;>
  exact ⟨⟨hp.knifeDamage, hp.horseDamage, hp.maxHp, hp.upgradePoint⟩, hp.hp⟩

end LogicP

namespace Logic

open LogicP

variable {conf : LogicConfiguration} {self self' : Logic (List Signal)}

/-- What holds where nobody can be hurt: everybody is as fresh as on the first
day, and no round ever ends. -/
structure HarmlessInv (conf : LogicConfiguration) (d : LogicP) : Prop where
  logicConfiguration : d.room.logicConfiguration = conf
  fresh : ∀ p ∈ d.room.players.toList, p.Fresh conf
  unhurt : InRound d → 2 ≤ d.room.playerNames.length ∧ ∀ p ∈ d.room.players.toList, p.Unhurt conf
  upgrade : d.state ≠ .Upgrade

/-- No call makes anybody older, where an action hurts nobody and no upgrades are due. -/
theorem RoomStep.fresh {d : LogicP} {c : Call} {room : Room}
    (hconf : d.room.logicConfiguration = conf) (hfresh : ∀ p ∈ d.room.players.toList, p.Fresh conf)
    (hupgrade : d.state ≠ .Upgrade)
    (haction : d.state = .Action →
      conf.Sound ∧ conf.Harmless ∧ ∀ p ∈ d.room.players.toList, p.Unhurt conf)
    (hstep : RoomStep d c room) : ∀ p ∈ room.players.toList, p.Fresh conf := by
  have hroom := hstep.logicConfiguration.trans hconf
  cases hstep with
  | rejected | rpsReply | actionOrderReply | upgradeReply => exact hfresh
  | addPlayer | removePlayer =>
    intro p hp
    obtain ⟨old, _, rfl⟩ := List.mem_map.mp hp
    rw [← hroom]
    exact ⟨rfl, rfl, rfl, rfl⟩
  | roundStart =>
    intro p hp
    obtain ⟨seat, old, _, _, hold, rfl⟩ := Room.mem_prepareForRoundStart hp
    exact ⟨(hfresh old hold).knifeDamage, (hfresh old hold).horseDamage,
      (hfresh old hold).maxHp, rfl⟩
  | action _ hstate _ _ hperform =>
    obtain ⟨hsound, hharmless, hunhurt⟩ := haction hstate
    subst hconf
    exact fun p hp => ((performAction_cases hperform).unhurt hsound hharmless hunhurt p hp).toFresh
  | upgrade hstate | gameOver hstate => exact absurd hstate hupgrade

theorem HarmlessInv.fresh_of_roomStep {d : LogicP} {c : Call} {room : Room} (hsound : conf.Sound)
    (hharmless : conf.Harmless) (h : HarmlessInv conf d) (hstep : RoomStep d c room) :
    ∀ p ∈ room.players.toList, p.Fresh conf :=
  hstep.fresh h.logicConfiguration h.fresh h.upgrade fun hstate =>
    ⟨hsound, hharmless, (h.unhurt (by simp [InRound, hstate])).2⟩

theorem RoomStep.unhurt {d : LogicP} {c : Call} {room : Room} (hsound : conf.Sound)
    (hharmless : conf.Harmless) (h : HarmlessInv conf d) (hround : InRound d)
    (hstep : RoomStep d c room) :
    2 ≤ room.playerNames.length ∧ ∀ p ∈ room.players.toList, p.Unhurt conf := by
  cases hstep with
  | rejected | rpsReply | actionOrderReply | upgradeReply => exact h.unhurt hround
  | addPlayer hstate | removePlayer hstate | roundStart hstate => exact absurd hstate hround.1
  | action _ _ _ _ hperform =>
    have hperform := performAction_cases hperform
    obtain ⟨rfl, _, hunhurt, _⟩ := h
    rw [hperform.frame.2.1]
    exact ⟨(hunhurt hround).1, hperform.unhurt hsound hharmless (hunhurt hround).2⟩
  | upgrade hstate | gameOver hstate => exact absurd hstate h.upgrade

/-- Where nobody can be hurt no call ends a round. -/
theorem not_endsRound {env : List Signal} (hlivable : conf.Livable)
    (hconf : self.d.room.logicConfiguration = conf)
    (hunhurt : 2 ≤ self.d.room.playerNames.length ∧
      ∀ p ∈ self.d.room.players.toList, p.Unhurt conf) : ¬ EndsRound env self := by
  rintro ⟨d, before, hover, rfl⟩
  have hall : ∀ p ∈ d.room.players.toList, p.alive d.room.logicConfiguration = true := by
    intro p hp
    rw [show d.room.logicConfiguration = conf from hconf]
    exact (hunhurt.2 p hp).alive hlivable
  have hcount := Room.alivePlayersCount_of_all hall
  have htwo : 2 ≤ d.room.playerNames.length := hunhurt.1
  simp only [Room.isRoundOver, decide_eq_true_eq] at hover
  omega

theorem CallStep.harmless {c : Call} {ret : Bool} (hsound : conf.Sound) (hlivable : conf.Livable)
    (hharmless : conf.Harmless) (h : HarmlessInv conf self.d) (hstep : CallStep self c ret self') :
    HarmlessInv conf self'.d := by
  have hconf := hstep.room.logicConfiguration.trans h.logicConfiguration
  refine ⟨hconf, h.fresh_of_roomStep hsound hharmless hstep.room, fun hround => ?_,
    fun hstate => ?_⟩
  · rcases hstep.inRound hround with hself | ⟨_, htwo, hroom⟩
    · exact hstep.room.unhurt hsound hharmless h hself
    · rw [hroom, Room.prepareForRoundStart_playerNames]
      refine ⟨htwo, fun p hp => ?_⟩
      obtain ⟨seat, old, _, _, hold, rfl⟩ := Room.mem_prepareForRoundStart hp
      have hfresh := h.fresh old hold
      exact ⟨⟨hfresh.knifeDamage, hfresh.horseDamage, hfresh.maxHp, rfl⟩, hfresh.maxHp⟩
  · rcases hstep.ends with ⟨hround, hends⟩ | ⟨_, hupgrade⟩
    · exact not_endsRound hlivable hconf (hstep.room.unhurt hsound hharmless h hround) hends
    · exact h.upgrade (hupgrade hstate)

theorem HarmlessInv.new (conf : LogicConfiguration) : HarmlessInv conf (LogicP.new conf) :=
  ⟨rfl, fun p hp => absurd hp List.not_mem_nil, fun h => absurd rfl h.1, by simp [LogicP.new]⟩

theorem harmlessInv_invariant (conf : LogicConfiguration) (hsound : conf.Sound)
    (hlivable : conf.Livable) (hharmless : conf.Harmless) :
    system.Invariant fun logic =>
      logic.d.room.logicConfiguration = conf → HarmlessInv conf logic.d where
  init logic hinit := by
    obtain ⟨conf', rfl⟩ := hinit
    rintro rfl
    exact .new conf'
  step logic c logic' h hnext := by
    obtain ⟨ret, hcall⟩ := hnext
    have hstep := call_cases hcall
    intro hlogic
    exact hstep.harmless hsound hlivable hharmless
      (h (hstep.room.logicConfiguration.symm.trans hlogic))

/-- One of the two, whichever the configuration is made for. -/
def EndingInv (conf : LogicConfiguration) (d : LogicP) : Prop :=
  (EarningInv conf d ∧ 1 ≤ conf.upgradeTotal ∧ conf.upgradeTotal ≤ intMax) ∨
    (HarmlessInv conf d ∧ conf.Harmless)

theorem EndingInv.new (hends : conf.RoundsEnd) : EndingInv conf (LogicP.new conf) := by
  have hnone {P : Player → Prop} : ∀ p ∈ (LogicP.new conf).room.players.toList, P p :=
    fun p hp => absurd hp List.not_mem_nil
  have hround : ¬ InRound (LogicP.new conf) := fun h => h.1 rfl
  rcases hends.2 with hharmless | htotal
  · exact .inr ⟨.new conf, hharmless⟩
  · exact .inl ⟨⟨⟨rfl, hnone⟩, fun h => absurd h hround⟩, htotal⟩

/-- One slot call, and what the round has come to after one that belongs to it. -/
theorem EndingInv.call {c : Call} {ret : Bool} (hsound : conf.Sound) (hlivable : conf.Livable)
    (h : EndingInv conf self.d) (hstep : CallStep self c ret self') : EndingInv conf self'.d ∧
      (InRound self.d → 2 ≤ self'.d.room.playerNames.length ∧ self'.d.room.Earned) := by
  rcases h with ⟨h, htotal⟩ | ⟨h, hharmless⟩
  · refine ⟨.inl ⟨hstep.earning hsound hlivable htotal h, htotal⟩, fun hround => ?_⟩
    exact hstep.room.earned htotal.2 h.room hround (h.earned hround)
  · have hnext := hstep.harmless hsound hlivable hharmless h
    refine ⟨.inr ⟨hnext, hharmless⟩, fun hround => ?_⟩
    obtain ⟨htwo, hunhurt⟩ := hstep.room.unhurt hsound hharmless h hround
    refine ⟨htwo, .inl fun p hp => ?_⟩
    rw [hnext.logicConfiguration]
    exact (hunhurt p hp).alive hlivable

theorem endingInv_invariant (conf : LogicConfiguration) (hsound : conf.Sound)
    (hends : conf.RoundsEnd) :
    system.Invariant fun logic => logic.d.room.logicConfiguration = conf → EndingInv conf logic.d where
  init logic hinit := by
    obtain ⟨conf', rfl⟩ := hinit
    rintro rfl
    exact .new hends
  step logic c logic' h hnext := by
    obtain ⟨ret, hcall⟩ := hnext
    have hstep := call_cases hcall
    intro hlogic
    exact ((h (hstep.room.logicConfiguration.symm.trans hlogic)).call hsound hends.1 hstep).1

/-- A round that starts finds everybody alive. -/
theorem EndingInv.alive (h : EndingInv conf self.d) (hlivable : conf.Livable)
    (hstep : CallStep self .roundStart true self') : 2 ≤ self'.d.room.alivePlayersCount := by
  obtain ⟨hconf, hmaxHp⟩ : self.d.room.logicConfiguration = conf ∧
      ∀ p ∈ self.d.room.players.toList, conf.initialMaxHp ≤ p.maxHp := by
    rcases h with ⟨h, _⟩ | ⟨h, _⟩
    · exact ⟨h.room.logicConfiguration, fun p hp => (h.room.players p hp).maxHp.1⟩
    · exact ⟨h.logicConfiguration, fun p hp => (h.fresh p hp).maxHp.ge⟩
  cases hstep with
  | roundStart _ htwo =>
    have hall := Room.prepareForRoundStart_alive hlivable hmaxHp
    change 2 ≤ self.d.room.prepareForRoundStart.alivePlayersCount
    rwa [Room.alivePlayersCount_of_all (by
        rwa [Room.prepareForRoundStart_logicConfiguration, hconf]),
      Room.prepareForRoundStart_playerNames]

/-- With an accepted configuration that meets the condition, a round starts with
two living players at least, and at its end somebody is asked for upgrades. -/
theorem rounds_end (hreach : system.Reachable self)
    (hconf : self.d.room.logicConfiguration.Accepted)
    (hends : self.d.room.logicConfiguration.RoundsEnd) {c : Call} {ret : Bool}
    (hcall : self.call post c = .ok (ret, self')) :
    (c = .roundStart → ret = true → 2 ≤ self'.d.room.alivePlayersCount) ∧
      ∀ signals, self'.env = self.env ++ signals → .roundOver ∈ signals →
        self'.d.state = .Upgrade ∧ ∃ p ∈ self'.d.room.players.toList, 0 < p.upgradePoint ∧
          .requestUpgrade p.objectName p.upgradePoint ∈ signals := by
  have hinv := (endingInv_invariant _ hconf.sound hends).of_reachable hreach rfl
  have hstep := call_cases hcall
  constructor
  · rintro rfl rfl
    exact hinv.alive hends.1 hstep
  · intro signals henv hover
    rcases hstep.ends with ⟨hround, hends'⟩ | ⟨⟨quiet, hquiet, hnot⟩, _⟩
    · exact hends'.requests ((hinv.call hconf.sound hends.1 hstep).2 hround) henv
    · obtain rfl := List.append_cancel_left (henv.symm.trans hquiet)
      exact absurd rfl (hnot _ hover)

/-- A run of a configuration keeps it. -/
theorem runWhile_logicConfiguration {guard : Logic (List Signal) → Call → Bool} {calls : List Call}
    (hrun : runWhile guard calls self = .ok (some self')) :
    self'.d.room.logicConfiguration = self.d.room.logicConfiguration := by
  induction calls generalizing self with
  | nil =>
    cases hrun
    rfl
  | cons c rest ih =>
    rw [runWhile] at hrun
    split at hrun
    · obtain ⟨⟨ret, next⟩, hcall, hrun⟩ := Except.bind_eq_ok.mp hrun
      exact (ih hrun).trans (call_cases hcall).room.logicConfiguration
    · cases hrun

/-- Only players that were asked reply. -/
def askedOnly (logic : Logic (List Signal)) (c : Call) : Bool :=
  c.replier = none || logic.d.Asked c

/-- A run of an accepted configuration in which only requested players reply. -/
theorem exists_accepted_run (value : QJsonValue) (calls : List Call)
    (P : Logic (List Signal) → Bool)
    (hrun : (match LogicConfiguration.deserialize value with
      | some conf => match runWhile askedOnly calls (start conf) with
        | .ok (some self) => P self
        | _ => false
      | none => false) = true) :
    ∃ self, (system.guarded OnlyAsked).Reachable self ∧
      self.d.room.logicConfiguration.Accepted ∧ P self = true := by
  split at hrun
  · next conf hconf =>
    split at hrun
    · next self heq =>
      refine ⟨self, ?_, ⟨value, ?_⟩, hrun⟩
      · apply (guarded_reachable_runWhile (.init ⟨conf, rfl⟩) heq).guarded_mono
        intro logic c hguard name hname _
        rw [askedOnly, hname] at hguard
        exact .inl (by simpa using hguard)
      · rw [runWhile_logicConfiguration heq]
        exact hconf
    · cases hrun
  · cases hrun

/-- What `deserialize` makes of an object that sets some of the numbers. -/
def sets (members : List (String × Int)) : QJsonValue :=
  .object (members.map fun member => (member.1, .ofInt member.2))

/-- Nobody is alive when the first round starts. -/
def lifeless : QJsonValue := sets [("initialMaxHp", 0)]

/-- Every value starts at its maximum. -/
def pointless : QJsonValue :=
  sets [("maximumKnifeDamage", 1), ("maximumHorseDamage", 2), ("initialMaxHp", 1),
    ("maximumMaxHp", 1), ("punishHpModifier", 0)]

/-- A buys a knife, walks to B's city and slashes it. -/
def slashCalls : List Call := [
  .addPlayer "A", .addPlayer "B", .roundStart,
  .rpsReply "A" .Rock, .rpsReply "B" .Scissors, .actionReply "A" .BuyKnife "" 0,
  .rpsReply "A" .Rock, .rpsReply "B" .Scissors, .actionReply "A" .Move "" 0,
  .rpsReply "A" .Rock, .rpsReply "B" .Scissors, .actionReply "A" .Move "" 2,
  .rpsReply "A" .Rock, .rpsReply "B" .Scissors, .actionReply "A" .Slash "B" 0]

/-- A round starts with nobody alive to answer, and another one ends with
nobody to ask. -/
theorem rounds_end_fails :
    (∃ self, (system.guarded OnlyAsked).Reachable self ∧
      self.d.room.logicConfiguration.Accepted ∧ self.d.state = .RpsForAction ∧
      self.d.room.playerNames.length = 2 ∧ self.d.room.alivePlayersCount = 0) ∧
    ∃ self, (system.guarded OnlyAsked).Reachable self ∧
      self.d.room.logicConfiguration.Accepted ∧ .roundOver ∈ self.env ∧ self.d.state = .Action ∧
      (∀ p ∈ self.d.room.players.toList, p.upgradePoint = 0) ∧
      ∀ name, ¬ self.d.AskedPlayer name := by
  constructor
  · obtain ⟨self, hreach, hconf, hdead⟩ := exists_accepted_run lifeless (slashCalls.take 3)
      (fun self => decide (self.d.state = .RpsForAction ∧
        self.d.room.playerNames.length = 2 ∧ self.d.room.alivePlayersCount = 0)) (by decide)
    exact ⟨self, hreach, hconf, of_decide_eq_true hdead⟩
  · obtain ⟨self, hreach, hconf, hover⟩ := exists_accepted_run pointless slashCalls
      (fun self => decide (.roundOver ∈ self.env ∧ self.d.state = .Action ∧
        (∀ p ∈ self.d.room.players.toList, p.upgradePoint = 0) ∧
        self.d.room.isRoundOver = true)) (by decide)
    obtain ⟨hsignal, hstate, hpoints, hround⟩ := of_decide_eq_true hover
    refine ⟨self, hreach, hconf, hsignal, hstate, hpoints, fun name => ?_⟩
    simp [AskedPlayer, hstate, hround]

theorem rounds_end_slash :
    ∃ self self' : Logic (List Signal), (system.guarded OnlyAsked).Reachable self ∧
      self.call post (.actionReply "A" .Slash "B" 0) = .ok (true, self') ∧
      self'.d.state = .Upgrade ∧ ∃ p ∈ self'.d.room.players.toList, 0 < p.upgradePoint := by
  obtain ⟨self, hreach, hconf, hslash⟩ := exists_accepted_run (sets [("initialMaxHp", 1)])
    slashCalls.dropLast (fun self => decide self.d.room.logicConfiguration.RoundsEnd &&
      (self.call post (.actionReply "A" .Slash "B" 0)).toOption.any
        fun result : Bool × Logic (List Signal) =>
          result.1 && decide (.roundOver ∈ result.2.env ∧ .roundOver ∉ self.env)) (by decide)
  obtain ⟨hends, hslash⟩ := Bool.and_eq_true_iff.mp hslash
  obtain ⟨⟨ret, self'⟩, hcall, hslash⟩ := Except.toOption_any.mp hslash
  obtain ⟨rfl, hslash⟩ := Bool.and_eq_true_iff.mp hslash
  obtain ⟨hover, hnot⟩ := of_decide_eq_true hslash
  obtain ⟨signals, henv⟩ := (call_cases hcall).env
  rw [henv, List.mem_append] at hover
  obtain ⟨hstate, p, hp, hpoint, _⟩ := (rounds_end (.of_guarded hreach) hconf
    (of_decide_eq_true hends) hcall).2 signals henv (hover.resolve_left hnot)
  exact ⟨self, self', hreach, hcall, hstate, p, hp, hpoint⟩

end Logic

end QMdmmCore
