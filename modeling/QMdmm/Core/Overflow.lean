import QMdmm.Core.RoomInvariant

namespace QMdmmCore

open Data Logic

namespace LogicConfiguration

/-- With these numbers, nothing that a blow computes leaves the `int` range, on the
way to its result neither. -/
structure ComputationsFit (conf : LogicConfiguration) : Prop where
  upgradeTotal : conf.upgradeTotal < intMax
  toNearest45 : 0 < conf.punishHpModifier → conf.punishHpRoundStrategy = .RoundToNearest45 →
    conf.maximumMaxHp * 2 ≤ intMax
  roundUp : 0 < conf.punishHpModifier → conf.punishHpRoundStrategy = .RoundUp →
    conf.maximumMaxHp + conf.punishHpModifier ≤ intMax
  plusOne : 0 < conf.punishHpModifier → conf.punishHpRoundStrategy = .PlusOne →
    conf.maximumMaxHp.tdiv conf.punishHpModifier + 1 ≤ intMax

instance (conf : LogicConfiguration) : Decidable conf.ComputationsFit :=
  decidable_of_iff (conf.upgradeTotal < intMax ∧
      (0 < conf.punishHpModifier → conf.punishHpRoundStrategy = .RoundToNearest45 →
        conf.maximumMaxHp * 2 ≤ intMax) ∧
      (0 < conf.punishHpModifier → conf.punishHpRoundStrategy = .RoundUp →
        conf.maximumMaxHp + conf.punishHpModifier ≤ intMax) ∧
      (0 < conf.punishHpModifier → conf.punishHpRoundStrategy = .PlusOne →
        conf.maximumMaxHp.tdiv conf.punishHpModifier + 1 ≤ intMax))
    ⟨fun ⟨h, h', h'', h'''⟩ => ⟨h, h', h'', h'''⟩, fun ⟨h, h', h'', h'''⟩ => ⟨h, h', h'', h'''⟩⟩

theorem ComputationsFit.arithmeticFits {conf : LogicConfiguration} (h : conf.ComputationsFit) :
    conf.ArithmeticFits := by
  refine ⟨h.upgradeTotal.le, h.toNearest45, fun hpos hstrategy => ?_, h.plusOne⟩
  have hsum := h.roundUp hpos hstrategy
  omega

end LogicConfiguration

namespace Player

variable {conf : LogicConfiguration} {p source target : Player}

/-- The numbers that `applyDamage` computes, without overflow: the new HP, and at a kill
what the killer can still upgrade and its next point. -/
def applyDamageValues (conf : LogicConfiguration) (source target : Player) (damagePoint : Int) :
    List Int :=
  (target.hp - damagePoint) ::
    if target.alive conf && deadAtHp conf (int32 (target.hp - damagePoint)) then
      [conf.maximumKnifeDamage - source.knifeDamage, conf.maximumHorseDamage - source.horseDamage,
        conf.maximumMaxHp - source.maxHp,
        (conf.maximumKnifeDamage - source.knifeDamage) +
          (conf.maximumHorseDamage - source.horseDamage),
        source.upgradesLeft conf, source.upgradePoint + 1]
    else []

/-- The numbers that `slashPunishHp` computes, but for quotients. -/
def slashPunishHpValues (conf : LogicConfiguration) (self : Player) : List Int :=
  if self.place = Village then []
  else if conf.punishHpModifier ≤ 0 then []
  else
    match conf.punishHpRoundStrategy with
    | .RoundDown => []
    | .RoundToNearest45 => [self.maxHp * 2, (self.maxHp * 2).tdiv conf.punishHpModifier + 1]
    | .RoundUp =>
      [self.maxHp + conf.punishHpModifier, self.maxHp + conf.punishHpModifier - 1]
    | .PlusOne => [self.maxHp.tdiv conf.punishHpModifier + 1]

def slashValues (conf : LogicConfiguration) (self target : Player) : List Int :=
  if !self.canSlash conf target then []
  else
    let struck := (applyDamage conf self target self.knifeDamage).1
    let hurt := (applyDamage conf self target self.knifeDamage).2
    applyDamageValues conf self target self.knifeDamage ++ struck.slashPunishHpValues conf ++
      if struck.slashPunishHp conf > 0 then
        applyDamageValues conf hurt struck (struck.slashPunishHp conf)
      else []

def kickValues (conf : LogicConfiguration) (self target : Player) : List Int :=
  if !self.canKick conf target then []
  else applyDamageValues conf self target self.horseDamage

theorem Bounded.applyDamageValues_fit (hsound : conf.Sound) (hfits : conf.ComputationsFit)
    (hsource : source.Bounded conf) (htarget : target.Bounded conf)
    (halive : target.alive conf = true) {n : Int} (hn : 0 ≤ n) (hint : n ≤ intMax) :
    ∀ v ∈ applyDamageValues conf source target n, FitsInt v := by
  intro v hv
  have htotal := hfits.upgradeTotal
  have hliving := (alive_iff target).mp halive
  have hlowest : 0 ≤ conf.lowestLivingHp := by
    unfold LogicConfiguration.lowestLivingHp
    split <;> decide
  obtain ⟨hknife, hhorse, hmaxHp⟩ := hsource.toStatsInBounds
  have hleft := hsource.toStatsInBounds.upgradesLeft_le
  have hpoint := hsource.upgradePoint
  have hpointLe := hsource.upgradePoint_le
  unfold FitsInt
  unfold upgradesLeft intMax at *
  rcases List.mem_cons.mp hv with rfl | hkill
  · have hmaximum := hsound.maxHp.2.2
    have hbar := htarget.maxHp.2
    have hle := htarget.hp_le
    unfold intMax at hmaximum
    omega
  · split at hkill
    · simp only [List.mem_cons, List.not_mem_nil, or_false] at hkill
      unfold upgradesLeft at hkill
      omega
    · cases hkill

/-- The double of an `int` that is one itself is smaller than the largest. -/
theorem InBounds.slashPunishHpValues_fit (hsound : conf.Sound) (hfits : conf.ComputationsFit)
    (h : p.InBounds conf) : ∀ v ∈ p.slashPunishHpValues conf, FitsInt v := by
  intro v hv
  obtain ⟨hinitial, _, hmaximum⟩ := hsound.maxHp
  obtain ⟨hlo, hhi⟩ := h.maxHp
  have hnonneg : 0 ≤ p.maxHp := hinitial.trans hlo
  unfold slashPunishHpValues at hv
  split at hv
  · cases hv
  split at hv
  · cases hv
  next hmodifier =>
  have hpos : 0 < conf.punishHpModifier := not_le.mp hmodifier
  unfold FitsInt
  unfold intMax at *
  cases hstrategy : conf.punishHpRoundStrategy with
  | RoundDown =>
    rw [hstrategy] at hv
    cases hv
  | RoundToNearest45 =>
    have htwice := hfits.toNearest45 hpos hstrategy
    have hdiv : (p.maxHp * 2).tdiv conf.punishHpModifier ≤ p.maxHp * 2 :=
      Int.tdiv_le_self _ (by omega)
    have hdivpos : 0 ≤ (p.maxHp * 2).tdiv conf.punishHpModifier :=
      Int.tdiv_nonneg (by omega) hpos.le
    simp only [hstrategy, List.mem_cons, List.not_mem_nil, or_false] at hv
    unfold intMax at htwice
    omega
  | RoundUp =>
    have hsum := hfits.roundUp hpos hstrategy
    simp only [hstrategy, List.mem_cons, List.not_mem_nil, or_false] at hv
    unfold intMax at hsum
    omega
  | PlusOne =>
    have hone := hfits.plusOne hpos hstrategy
    have hle : p.maxHp.tdiv conf.punishHpModifier ≤
        conf.maximumMaxHp.tdiv conf.punishHpModifier := by
      rw [Int.tdiv_eq_ediv_of_nonneg hnonneg, Int.tdiv_eq_ediv_of_nonneg (by omega)]
      exact Int.ediv_le_ediv hpos hhi
    have hdivpos : 0 ≤ p.maxHp.tdiv conf.punishHpModifier := Int.tdiv_nonneg hnonneg hpos.le
    simp only [hstrategy, List.mem_cons, List.not_mem_nil, or_false] at hv
    unfold intMax at hone
    omega

/-- A punishment that is computed in range is none below zero. -/
theorem slashPunishHp_nonneg (hmaxHp : 0 ≤ p.maxHp)
    (hfits : ∀ v ∈ p.slashPunishHpValues conf, FitsInt v) : 0 ≤ p.slashPunishHp conf := by
  rw [slashPunishHp]
  rw [slashPunishHpValues] at hfits
  split
  · exact le_rfl
  next hplace =>
  split
  · exact le_rfl
  next hmodifier =>
  have hpos : 0 < conf.punishHpModifier := not_le.mp hmodifier
  rw [if_neg hplace, if_neg hmodifier] at hfits
  cases hstrategy : conf.punishHpRoundStrategy with
  | RoundDown => exact Int.tdiv_nonneg hmaxHp hpos.le
  | RoundToNearest45 =>
    rw [hstrategy] at hfits
    have htwice := hfits (p.maxHp * 2) (by simp)
    have hdivpos : 0 ≤ (p.maxHp * 2).tdiv conf.punishHpModifier :=
      Int.tdiv_nonneg (by omega) hpos.le
    dsimp only
    rw [htwice.int32_eq]
    exact Int.tdiv_nonneg (by omega) (by decide)
  | RoundUp =>
    rw [hstrategy] at hfits
    have hsum := hfits (p.maxHp + conf.punishHpModifier - 1) (by simp)
    dsimp only
    rw [hsum.int32_eq]
    exact Int.tdiv_nonneg (by omega) hpos.le
  | PlusOne =>
    rw [hstrategy] at hfits
    have hone := hfits (p.maxHp.tdiv conf.punishHpModifier + 1) (by simp)
    have hdivpos : 0 ≤ p.maxHp.tdiv conf.punishHpModifier := Int.tdiv_nonneg hmaxHp hpos.le
    dsimp only
    rw [hone.int32_eq]
    omega

theorem Bounded.slashValues_fit (hsound : conf.Sound) (hfits : conf.ComputationsFit)
    (hself : source.Bounded conf) (htarget : target.Bounded conf) :
    ∀ v ∈ source.slashValues conf target, FitsInt v := by
  intro v hv
  unfold slashValues at hv
  split at hv
  · cases hv
  next hcan =>
  obtain ⟨halive, htargetAlive⟩ := canSlash_alive (by simpa using hcan)
  have hknife := hself.knifeDamage
  have hsoundknife := hsound.knifeDamage
  have hblow : source.knifeDamage ≤ conf.largestBlow := by
    unfold LogicConfiguration.largestBlow
    omega
  obtain ⟨hstruck, hhurt⟩ := hself.applyDamage hsound hfits.arithmeticFits htarget htargetAlive
    (by omega) (by omega) hblow
  dsimp only at hv
  rcases List.mem_append.mp hv with hv | hpunish
  · rcases List.mem_append.mp hv with hdamage | hpunishHp
    · exact hself.applyDamageValues_fit hsound hfits htarget htargetAlive (by omega) (by omega) v hdamage
    · exact hstruck.toInBounds.slashPunishHpValues_fit hsound hfits v hpunishHp
  · split at hpunish
    · next hpunished =>
      have hint := (hstruck.slashPunishHp_le hsound hfits.arithmeticFits).2.1
      exact hhurt.applyDamageValues_fit hsound hfits hstruck
        ((applyDamage_fst_alive _).trans halive) hpunished.le hint v hpunish
    · cases hpunish

theorem Bounded.kickValues_fit (hsound : conf.Sound) (hfits : conf.ComputationsFit)
    (hself : source.Bounded conf) (htarget : target.Bounded conf) :
    ∀ v ∈ source.kickValues conf target, FitsInt v := by
  intro v hv
  unfold kickValues at hv
  split at hv
  · cases hv
  next hcan =>
  have halive := (canKick_alive (by simpa using hcan)).2
  have hhorse := hself.horseDamage
  have hsoundhorse := hsound.horseDamage
  exact hself.applyDamageValues_fit hsound hfits htarget halive (by omega) (by omega) v hv

/-- The values depend on the place only by being in a city. -/
theorem Fresh.slashPunishHpValues_fit
    (hnew : ∀ v ∈ ({ Player.new conf "" with place := 1 }).slashPunishHpValues conf, FitsInt v)
    (h : p.Fresh conf) : ∀ v ∈ p.slashPunishHpValues conf, FitsInt v := by
  intro v hv
  have hcity : (1 : Int) ≠ Village := by decide
  rw [slashPunishHpValues, if_neg hcity] at hnew
  rw [slashPunishHpValues] at hv
  split at hv
  · cases hv
  · rw [h.maxHp] at hv
    exact hnew v hv

theorem Unhurt.applyDamageValues_fit (hsound : conf.Sound) (htarget : target.Unhurt conf)
    (source : Player) : ∀ v ∈ applyDamageValues conf source target 0, FitsInt v := by
  intro v hv
  obtain ⟨hinitial, hle, hmaximum⟩ := hsound.maxHp
  have hhp := htarget.hp
  rw [applyDamageValues, (htarget.survives_zero hsound).2] at hv
  obtain rfl : v = target.hp - 0 := by simpa using hv
  unfold FitsInt
  unfold intMax at hmaximum
  omega

theorem Unhurt.slashValues_fit (hsound : conf.Sound) (hharmless : conf.Harmless)
    (hnew : ∀ v ∈ ({ Player.new conf "" with place := 1 }).slashPunishHpValues conf, FitsInt v)
    (hself : source.Unhurt conf) (htarget : target.Unhurt conf) :
    ∀ v ∈ source.slashValues conf target, FitsInt v := by
  intro v hv
  have hdamage : source.knifeDamage = 0 := hself.knifeDamage.trans hharmless.1
  have hpunish := hself.slashPunishHp_le hharmless
  simp only [slashValues, hdamage, htarget.applyDamage_zero hsound] at hv
  split at hv
  · cases hv
  rw [if_neg (not_lt.mpr hpunish), List.append_nil] at hv
  rcases List.mem_append.mp hv with hv | hv
  · exact htarget.applyDamageValues_fit hsound source v hv
  · exact hself.toFresh.slashPunishHpValues_fit hnew v hv

theorem Unhurt.kickValues_fit (hsound : conf.Sound) (hharmless : conf.Harmless)
    (hself : source.Unhurt conf) (htarget : target.Unhurt conf) :
    ∀ v ∈ source.kickValues conf target, FitsInt v := by
  intro v hv
  have hdamage : source.horseDamage = 0 := hself.horseDamage.trans hharmless.2.1
  simp only [kickValues, hdamage] at hv
  split at hv
  · cases hv
  · exact htarget.applyDamageValues_fit hsound source v hv

/-- The dead compute nothing. -/
theorem values_eq_nil_of_dead (hdead : source.alive conf = false) (target : Player) :
    source.slashValues conf target = [] ∧ source.kickValues conf target = [] := by
  constructor
  · rw [slashValues, if_pos]
    by_contra hcan
    have halive := (canSlash_alive (by simpa using hcan)).1
    rw [hdead] at halive
    cases halive
  · rw [kickValues, if_pos]
    by_contra hcan
    have halive := (canKick_alive (by simpa using hcan)).1
    rw [hdead] at halive
    cases halive

end Player

namespace LogicConfiguration

variable {conf : LogicConfiguration}

/-- Nobody is ever hurt: whoever starts a round is dead, or no blow does anything, and what
a slash in a city computes for a new player fits. -/
def Painless (conf : LogicConfiguration) : Prop :=
  ¬ conf.Livable ∨ (conf.Harmless ∧
    ∀ v ∈ ({ Player.new conf "" with place := 1 }).slashPunishHpValues conf, FitsInt v)

theorem initialMaxHp_of_not_livable (hsound : conf.Sound) (hdead : ¬ conf.Livable) :
    conf.initialMaxHp = 0 := by
  have hinitial := hsound.maxHp.1
  simp only [Livable, Player.deadAtHp] at hdead
  split at hdead <;> simp at hdead <;> omega

theorem Painless.new_fit (hsound : conf.Sound) (h : conf.Painless) :
    ∀ v ∈ ({ Player.new conf "" with place := 1 }).slashPunishHpValues conf, FitsInt v := by
  rcases h with hdead | ⟨-, hnew⟩
  · intro v hv
    obtain ⟨hlo, hhi⟩ := hsound.punishHpModifier
    have hmaxHp : (Player.new conf "").maxHp = 0 := initialMaxHp_of_not_livable hsound hdead
    unfold intMax at hhi
    unfold FitsInt
    unfold Player.slashPunishHpValues at hv
    split at hv
    · cases hv
    split at hv
    · cases hv
    cases hstrategy : conf.punishHpRoundStrategy <;>
      simp only [hstrategy, hmaxHp, Int.zero_mul, Int.zero_tdiv, List.mem_cons,
        List.not_mem_nil, or_false] at hv <;>
      omega
  · exact hnew

end LogicConfiguration

namespace Logic

open LogicP

variable {conf : LogicConfiguration} {self self' : Logic (List Signal)}

/-- What holds where whoever starts a round is dead: the round waits for the first
Rock-Paper-Scissors for ever. -/
structure LifelessInv (conf : LogicConfiguration) (d : LogicP) : Prop where
  logicConfiguration : d.room.logicConfiguration = conf
  fresh : ∀ p ∈ d.room.players.toList, p.Fresh conf
  waiting : d.state ≠ .BeforeRoundStart → d.state = .RpsForAction ∧
    ∀ p ∈ d.room.players.toList, p.Unhurt conf

theorem LifelessInv.alive (hdead : ¬ conf.Livable) {p : Player} (h : p.Unhurt conf) :
    p.alive conf = false := by
  rw [Player.alive, Player.dead, h.hp]
  simpa [LogicConfiguration.Livable] using hdead

theorem LifelessInv.alivePlayersCount (hdead : ¬ conf.Livable) (h : LifelessInv conf self.d)
    (hround : self.d.state ≠ .BeforeRoundStart) : self.d.room.alivePlayersCount = 0 := by
  rw [Room.alivePlayersCount, Room.alivePlayers, List.length_eq_zero_iff, List.filter_eq_nil_iff]
  intro p hp
  rw [h.logicConfiguration, alive hdead ((h.waiting hround).2 p hp)]
  exact Bool.false_ne_true

theorem CallStep.lifeless {c : Call} {ret : Bool} (hdead : ¬ conf.Livable)
    (h : LifelessInv conf self.d) (hstep : CallStep self c ret self') :
    LifelessInv conf self'.d := by
  have hidle {state : State} (hstate : self.d.state = state)
      (hne : state ≠ .BeforeRoundStart ∧ state ≠ .RpsForAction) : False :=
    hne.2 (hstate.symm.trans (h.waiting (by rw [hstate]; exact hne.1)).1)
  have hfresh := hstep.room.fresh h.logicConfiguration h.fresh
    (fun hstate => hidle hstate (by decide)) fun hstate => (hidle hstate (by decide)).elim
  refine ⟨hstep.room.logicConfiguration.trans h.logicConfiguration, hfresh, fun hround => ?_⟩
  cases hstep with
  | rejected => exact h.waiting hround
  | addPlayer hstate | removePlayer hstate => exact absurd hstate hround
  | roundStart =>
    refine ⟨rfl, fun p hp => ⟨hfresh p hp, ?_⟩⟩
    obtain ⟨seat, old, _, _, hold, rfl⟩ := Room.mem_prepareForRoundStart hp
    exact (h.fresh old hold).maxHp
  | rpsForAction _ hstate _ hstep =>
    have hnobody := h.alivePlayersCount hdead (by rw [hstate]; decide)
    cases hstep with
    | waiting => exact h.waiting (by rw [hstate]; decide)
    | tie hcount | decided hcount =>
      rw [show self.d.room.alivePlayersCount = 0 from hnobody] at hcount
      simp [QHash.count, AList.insert] at hcount
  | rpsForActionOrder _ hstate | pick _ hstate | lastPick _ hstate | action _ hstate
  | upgrade _ hstate => exact (hidle hstate (by decide)).elim

theorem lifelessInv_invariant (conf : LogicConfiguration) (hdead : ¬ conf.Livable) :
    system.Invariant fun logic =>
      logic.d.room.logicConfiguration = conf → LifelessInv conf logic.d where
  init logic hinit := by
    obtain ⟨conf', rfl⟩ := hinit
    rintro rfl
    exact ⟨rfl, fun p hp => absurd hp List.not_mem_nil, fun h => absurd rfl h⟩
  step logic c logic' h hnext := by
    obtain ⟨ret, hcall⟩ := hnext
    have hstep := call_cases hcall
    intro hlogic
    exact hstep.lifeless hdead (h (hstep.room.logicConfiguration.symm.trans hlogic))

/-- Where nobody is ever hurt, everybody is as new, and no blow computes anything that does
not fit. -/
theorem painless_of_reachable (hreach : system.Reachable self)
    (hsound : self.d.room.logicConfiguration.Sound)
    (hpainless : self.d.room.logicConfiguration.Painless) :
    ∀ p ∈ self.d.room.players.toList, p.Fresh self.d.room.logicConfiguration ∧
      (self.d.state ≠ .BeforeRoundStart → ∀ q ∈ self.d.room.players.toList,
        (∀ v ∈ p.slashValues self.d.room.logicConfiguration q, FitsInt v) ∧
          ∀ v ∈ p.kickValues self.d.room.logicConfiguration q, FitsInt v) := by
  intro p hp
  by_cases hlivable : self.d.room.logicConfiguration.Livable
  · obtain ⟨hharmless, hnew⟩ := hpainless.resolve_left (not_not.mpr hlivable)
    have hinv :=
      (harmlessInv_invariant _ hsound hlivable hharmless).of_reachable hreach rfl
    refine ⟨hinv.fresh p hp, fun hround q hq => ?_⟩
    obtain ⟨-, hunhurt⟩ := hinv.unhurt ⟨hround, hinv.upgrade⟩
    exact ⟨(hunhurt p hp).slashValues_fit hsound hharmless hnew (hunhurt q hq),
      (hunhurt p hp).kickValues_fit hsound hharmless (hunhurt q hq)⟩
  · have hinv := (lifelessInv_invariant _ hlivable).of_reachable hreach rfl
    refine ⟨hinv.fresh p hp, fun hround q _ => ?_⟩
    have hdead := LifelessInv.alive hlivable ((hinv.waiting hround).2 p hp)
    obtain ⟨hslash, hkick⟩ := Player.values_eq_nil_of_dead hdead q
    simp [hslash, hkick]

/-- In every state that a configuration of such numbers reaches, no computation of a
slash or a kick leaves the `int` range, and neither points nor punishments are negative. -/
theorem computations_fit (hreach : system.Reachable self)
    (hconf : self.d.room.logicConfiguration.Accepted)
    (hfits : self.d.room.logicConfiguration.ComputationsFit ∨
      self.d.room.logicConfiguration.Painless) :
    ∀ p ∈ self.d.room.players.toList, 0 ≤ p.upgradePoint ∧
      0 ≤ p.slashPunishHp self.d.room.logicConfiguration ∧
      (∀ v ∈ p.slashPunishHpValues self.d.room.logicConfiguration, FitsInt v) ∧
      (self.d.state ≠ .BeforeRoundStart → ∀ q ∈ self.d.room.players.toList,
        (∀ v ∈ p.slashValues self.d.room.logicConfiguration q, FitsInt v) ∧
          ∀ v ∈ p.kickValues self.d.room.logicConfiguration q, FitsInt v) := by
  intro p hp
  have hsound := hconf.sound
  rcases hfits with hfits | hpainless
  · have hinv := (roomInv_invariant _ hsound hfits.arithmeticFits).of_reachable hreach rfl
    have hinBounds := hinv.inBounds p hp
    have hvalues := hinBounds.slashPunishHpValues_fit hsound hfits
    refine ⟨hinBounds.upgradePoint,
      Player.slashPunishHp_nonneg (hsound.maxHp.1.trans hinBounds.maxHp.1) hvalues, hvalues,
      fun hround q hq => ?_⟩
    have hself := hinv.bounded hround p hp
    have htarget := hinv.bounded hround q hq
    exact ⟨hself.slashValues_fit hsound hfits htarget, hself.kickValues_fit hsound hfits htarget⟩
  · obtain ⟨hfresh, hblows⟩ := painless_of_reachable hreach hsound hpainless p hp
    have hvalues := hfresh.slashPunishHpValues_fit (hpainless.new_fit hsound)
    exact ⟨hfresh.upgradePoint.ge,
      Player.slashPunishHp_nonneg (hsound.maxHp.1.trans hfresh.maxHp.ge) hvalues, hvalues, hblows⟩

/-- A slashes B for the default numbers, all of which fit. -/
theorem computations_fit_slash :
    ∃ (self : Logic (List Signal)) (p q : Player), self.d.state = .Action ∧
      p.slashValues self.d.room.logicConfiguration q ≠ [] ∧
      ∀ v ∈ p.slashValues self.d.room.logicConfiguration q, FitsInt v := by
  obtain ⟨self, hreach, hconf, hslash⟩ := exists_accepted_run (sets []) slashCalls.dropLast
    (fun self => decide (self.d.room.logicConfiguration.ComputationsFit ∧ self.d.state = .Action ∧
      ∃ p ∈ self.d.room.players.toList, ∃ q ∈ self.d.room.players.toList,
        p.slashValues self.d.room.logicConfiguration q ≠ [])) (by decide)
  obtain ⟨hfits, hstate, p, hp, q, hq, hvalues⟩ := of_decide_eq_true hslash
  exact ⟨self, p, q, hstate, hvalues, ((computations_fit (.of_guarded hreach) hconf
    (.inl hfits) p hp).2.2.2 (by rw [hstate]; decide) q hq).1⟩

/-- As much to upgrade as two `int`s can say. -/
def boundless : QJsonValue :=
  sets [("maximumKnifeDamage", intMax), ("maximumHorseDamage", intMax), ("initialMaxHp", 1),
    ("maximumMaxHp", 1)]

/-- A kill adds up what A can still upgrade, and leaves A with a debt. -/
theorem computations_fit_fails :
    ∃ self self' : Logic (List Signal), system.Reachable self ∧
      self.d.room.logicConfiguration.Accepted ∧
      (∃ p ∈ self.d.room.players.toList, ∃ q ∈ self.d.room.players.toList,
        p.objectName = "A" ∧ q.objectName = "B" ∧
        ∃ v ∈ p.slashValues self.d.room.logicConfiguration q, ¬ FitsInt v) ∧
      self.call post (.actionReply "A" .Slash "B" 0) = .ok (true, self') ∧
      ∃ p ∈ self'.d.room.players.toList, p.upgradePoint < 0 := by
  obtain ⟨self, hreach, hconf, hslash⟩ := exists_accepted_run boundless slashCalls.dropLast
    (fun self => decide (∃ p ∈ self.d.room.players.toList, ∃ q ∈ self.d.room.players.toList,
        p.objectName = "A" ∧ q.objectName = "B" ∧
        ∃ v ∈ p.slashValues self.d.room.logicConfiguration q, ¬ FitsInt v) &&
      (self.call post (.actionReply "A" .Slash "B" 0)).toOption.any
        fun result : Bool × Logic (List Signal) =>
          result.1 && decide (∃ p ∈ result.2.d.room.players.toList, p.upgradePoint < 0)) (by decide)
  obtain ⟨hvalues, hslash⟩ := Bool.and_eq_true_iff.mp hslash
  obtain ⟨⟨ret, self'⟩, hcall, hslash⟩ := Except.toOption_any.mp hslash
  obtain ⟨rfl, hdebt⟩ := Bool.and_eq_true_iff.mp hslash
  exact ⟨self, self', .of_guarded hreach, hconf, of_decide_eq_true hvalues, hcall,
    of_decide_eq_true hdebt⟩

end Logic

end QMdmmCore
