import Mathlib.Order.Lattice
import QMdmm.Core.Wedge

namespace QMdmmCore

open Data Logic

namespace LogicConfiguration

/-- What is computed from these numbers fits in an `int`: the upgrades a player
has left, and the punishment of a slash. -/
structure ArithmeticFits (conf : LogicConfiguration) : Prop where
  upgradeTotal : conf.upgradeTotal ≤ intMax
  toNearest45 : 0 < conf.punishHpModifier → conf.punishHpRoundStrategy = .RoundToNearest45 →
    conf.maximumMaxHp * 2 ≤ intMax
  roundUp : 0 < conf.punishHpModifier → conf.punishHpRoundStrategy = .RoundUp →
    conf.maximumMaxHp + conf.punishHpModifier - 1 ≤ intMax
  plusOne : 0 < conf.punishHpModifier → conf.punishHpRoundStrategy = .PlusOne →
    conf.maximumMaxHp.tdiv conf.punishHpModifier + 1 ≤ intMax

instance (conf : LogicConfiguration) : Decidable conf.ArithmeticFits :=
  decidable_of_iff (conf.upgradeTotal ≤ intMax ∧
      (0 < conf.punishHpModifier → conf.punishHpRoundStrategy = .RoundToNearest45 →
        conf.maximumMaxHp * 2 ≤ intMax) ∧
      (0 < conf.punishHpModifier → conf.punishHpRoundStrategy = .RoundUp →
        conf.maximumMaxHp + conf.punishHpModifier - 1 ≤ intMax) ∧
      (0 < conf.punishHpModifier → conf.punishHpRoundStrategy = .PlusOne →
        conf.maximumMaxHp.tdiv conf.punishHpModifier + 1 ≤ intMax))
    ⟨fun ⟨h, h', h'', h'''⟩ => ⟨h, h', h'', h'''⟩, fun ⟨h, h', h'', h'''⟩ => ⟨h, h', h'', h'''⟩⟩

/-- The most HP a single blow takes. -/
def largestBlow (conf : LogicConfiguration) : Int :=
  max (max conf.maximumKnifeDamage conf.maximumHorseDamage)
    (if 0 < conf.punishHpModifier then conf.maximumMaxHp + 1 else 0)

/-- The lowest HP of a living player. -/
def lowestLivingHp (conf : LogicConfiguration) : Int := if conf.zeroHpAsDead then 1 else 0

/-- The lowest HP a round can leave anybody with: one blow below the lowest HP
of the living, or what a player starts with that is dead from the start. -/
def hpFloor (conf : LogicConfiguration) : Int :=
  min conf.initialMaxHp (conf.lowestLivingHp - conf.largestBlow)

end LogicConfiguration

namespace Player

variable {conf : LogicConfiguration} {p source target : Player}

theorem alive_iff (p : Player) : p.alive conf = true ↔ conf.lowestLivingHp ≤ p.hp := by
  unfold alive dead deadAtHp LogicConfiguration.lowestLivingHp
  split
  · simp
    omega
  · simp

/-- The punishment is at most the HP bar, rounded up. -/
theorem InBounds.slashPunishHp_le (hsound : conf.Sound) (hfits : conf.ArithmeticFits)
    (h : p.InBounds conf) :
    p.slashPunishHp conf ≤ conf.maximumMaxHp + 1 ∧ p.slashPunishHp conf ≤ intMax ∧
      (0 < p.slashPunishHp conf → 0 < conf.punishHpModifier) := by
  obtain ⟨hinitial, _, hmaximum⟩ := hsound.maxHp
  obtain ⟨hlo, hhi⟩ := h.maxHp
  have hnonneg : 0 ≤ p.maxHp := hinitial.trans hlo
  unfold slashPunishHp
  split
  · exact ⟨by omega, by unfold intMax; omega, by omega⟩
  · split
    · exact ⟨by omega, by unfold intMax; omega, by omega⟩
    · next hmodifier =>
      have hpos : 0 < conf.punishHpModifier := not_le.mp hmodifier
      have hself : p.maxHp.tdiv conf.punishHpModifier ≤ p.maxHp := Int.tdiv_le_self _ hnonneg
      cases hstrategy : conf.punishHpRoundStrategy with
      | RoundDown => exact ⟨by dsimp only; omega, by dsimp only; omega, fun _ => hpos⟩
      | RoundToNearest45 =>
        have htwice := hfits.toNearest45 hpos hstrategy
        have hint : int32 (p.maxHp * 2) = p.maxHp * 2 :=
          int32_eq_self (by unfold intMax; omega) (by omega)
        have hdiv : (p.maxHp * 2).tdiv conf.punishHpModifier ≤ p.maxHp * 2 :=
          Int.tdiv_le_self _ (by omega)
        have hdivpos : 0 ≤ (p.maxHp * 2).tdiv conf.punishHpModifier :=
          Int.tdiv_nonneg (by omega) hpos.le
        have hhalf : ((p.maxHp * 2).tdiv conf.punishHpModifier + 1).tdiv 2 ≤ p.maxHp := by
          rw [Int.tdiv_eq_ediv_of_nonneg (by omega)]
          omega
        dsimp only
        rw [hint]
        exact ⟨by omega, by omega, fun _ => hpos⟩
      | RoundUp =>
        have hsum := hfits.roundUp hpos hstrategy
        have hint : int32 (p.maxHp + conf.punishHpModifier - 1) =
            p.maxHp + conf.punishHpModifier - 1 :=
          int32_eq_self (by unfold intMax; omega) (by omega)
        have hdiv : (p.maxHp + conf.punishHpModifier - 1).tdiv conf.punishHpModifier ≤ p.maxHp := by
          rw [Int.tdiv_eq_ediv_of_nonneg (by omega)]
          apply Int.le_of_lt_add_one
          apply Int.ediv_lt_of_lt_mul hpos
          nlinarith
        dsimp only
        rw [hint]
        exact ⟨by omega, by omega, fun _ => hpos⟩
      | PlusOne =>
        have hone := hfits.plusOne hpos hstrategy
        have hle : p.maxHp.tdiv conf.punishHpModifier ≤
            conf.maximumMaxHp.tdiv conf.punishHpModifier := by
          rw [Int.tdiv_eq_ediv_of_nonneg hnonneg, Int.tdiv_eq_ediv_of_nonneg (by omega)]
          exact Int.ediv_le_ediv hpos hhi
        have hdivpos : 0 ≤ p.maxHp.tdiv conf.punishHpModifier := Int.tdiv_nonneg hnonneg hpos.le
        have hint : int32 (p.maxHp.tdiv conf.punishHpModifier + 1) =
            p.maxHp.tdiv conf.punishHpModifier + 1 :=
          int32_eq_self (by unfold intMax; omega) (by omega)
        dsimp only
        rw [hint]
        exact ⟨by omega, by omega, fun _ => hpos⟩

/-- What holds of each player during a round. -/
structure Bounded (conf : LogicConfiguration) (p : Player) : Prop extends p.InBounds conf where
  upgradePoint_le : p.upgradePoint ≤ p.upgradesLeft conf
  hp_le : p.hp ≤ p.maxHp
  hp_ge : conf.hpFloor ≤ p.hp

/-- A value that bounds do not mention may change. -/
theorem Bounded.congr {q : Player} (h : p.Bounded conf) (hstats : SameStats p q)
    (hpoint : q.upgradePoint = p.upgradePoint) (hhp : q.hp = p.hp) : q.Bounded conf := by
  refine ⟨⟨h.toStatsInBounds.of_sameStats hstats, ?_⟩, ?_, ?_, ?_⟩
  · rw [hpoint]
    exact h.upgradePoint
  · rw [hpoint, hstats.upgradesLeft]
    exact h.upgradePoint_le
  · rw [hhp, hstats.maxHp]
    exact h.hp_le
  · rw [hhp]
    exact h.hp_ge

/-- One blow against a living player. -/
theorem Bounded.applyDamage (hsound : conf.Sound) (hfits : conf.ArithmeticFits)
    (hsource : source.Bounded conf) (htarget : target.Bounded conf)
    (halive : target.alive conf = true) {n : Int} (hn : 0 ≤ n) (hint : n ≤ intMax)
    (hblow : n ≤ conf.largestBlow) :
    (applyDamage conf source target n).1.Bounded conf ∧
      (applyDamage conf source target n).2.Bounded conf := by
  rw [applyDamage_fst, applyDamage_snd]
  have hliving := (alive_iff target).mp halive
  have hlowest : 0 ≤ conf.lowestLivingHp := by
    unfold LogicConfiguration.lowestLivingHp
    split <;> decide
  have hhp : int32 (target.hp - n) = target.hp - n := by
    have hmaximum := hsound.maxHp.2.2
    have hmaxHp := htarget.maxHp.2
    have hle := htarget.hp_le
    exact int32_eq_self (by omega) (by omega)
  constructor
  · split
    · have hleft := hsource.upgradeRemainingTimes_eq hfits.upgradeTotal
      have hpos := hsource.upgradePoint
      have hpoint := hsource.upgradePoint_le
      refine ⟨⟨hsource.toStatsInBounds.of_sameStats ⟨rfl, rfl, rfl⟩, ?_⟩, ?_, hsource.hp_le,
        hsource.hp_ge⟩
      · dsimp only
        omega
      · change min _ _ ≤ source.upgradesLeft conf
        omega
    · exact hsource
  · rw [hhp]
    refine ⟨⟨htarget.toStatsInBounds.of_sameStats ⟨rfl, rfl, rfl⟩, htarget.upgradePoint⟩,
      htarget.upgradePoint_le, ?_, ?_⟩
    · have hle := htarget.hp_le
      dsimp only
      omega
    · unfold LogicConfiguration.hpFloor
      dsimp only
      omega

theorem canSlash_alive (hcan : source.canSlash conf target = true) :
    source.alive conf = true ∧ target.alive conf = true := by
  unfold canSlash at hcan
  split at hcan
  · cases hcan
  · next hdead => simpa using hdead

theorem canKick_alive (hcan : source.canKick conf target = true) :
    source.alive conf = true ∧ target.alive conf = true := by
  unfold canKick at hcan
  split at hcan
  · cases hcan
  · next hdead => simpa using hdead

theorem applyDamage_fst_alive (n : Int) :
    (Player.applyDamage conf source target n).1.alive conf = source.alive conf := by
  rw [applyDamage_fst]
  split <;> rfl

theorem Bounded.slash (hsound : conf.Sound) (hfits : conf.ArithmeticFits)
    (hself : source.Bounded conf) (htarget : target.Bounded conf) :
    (source.slash conf target).2.1.Bounded conf ∧ (source.slash conf target).2.2.Bounded conf := by
  simp only [Player.slash]
  split
  · exact ⟨hself, htarget⟩
  · next hcan =>
    obtain ⟨halive, htargetAlive⟩ := canSlash_alive (by simpa using hcan)
    have hknife := hself.knifeDamage
    have hsoundknife := hsound.knifeDamage
    have hblow : source.knifeDamage ≤ conf.largestBlow := by
      unfold LogicConfiguration.largestBlow
      omega
    obtain ⟨hstruck, hhurt⟩ := hself.applyDamage hsound hfits htarget htargetAlive
      (by omega) (by omega) hblow
    split
    · next hpunished =>
      obtain ⟨hle, hint, hon⟩ := hstruck.slashPunishHp_le hsound hfits
      have hpunish : (Player.applyDamage conf source target source.knifeDamage).1.slashPunishHp conf
          ≤ conf.largestBlow := by
        have hmodifier := hon hpunished
        unfold LogicConfiguration.largestBlow
        rw [if_pos hmodifier]
        omega
      exact (hhurt.applyDamage hsound hfits hstruck
        ((applyDamage_fst_alive _).trans halive) hpunished.le hint hpunish).symm
    · exact ⟨hstruck, hhurt⟩

theorem Bounded.kick (hsound : conf.Sound) (hfits : conf.ArithmeticFits)
    (hself : source.Bounded conf) (htarget : target.Bounded conf) :
    (source.kick conf target).2.1.Bounded conf ∧ (source.kick conf target).2.2.Bounded conf := by
  simp only [Player.kick]
  split
  · exact ⟨hself, htarget⟩
  · next hcan =>
    have halive := (canKick_alive (by simpa using hcan)).2
    have hhorse := hself.horseDamage
    have hsoundhorse := hsound.horseDamage
    have hblow : source.horseDamage ≤ conf.largestBlow := by
      unfold LogicConfiguration.largestBlow
      omega
    obtain ⟨hstruck, hhurt⟩ := hself.applyDamage hsound hfits htarget halive
      (by omega) (by omega) hblow
    refine ⟨hstruck, ?_⟩
    split
    · exact hhurt.congr ⟨rfl, rfl, rfl⟩ rfl rfl
    · exact hhurt

theorem InBounds.prepareForRoundStart (h : p.InBounds conf) (seat : Int) :
    (p.prepareForRoundStart seat).Bounded conf := by
  obtain ⟨hknife, hhorse, hmaxHp⟩ := h.toStatsInBounds
  refine ⟨⟨⟨hknife, hhorse, hmaxHp⟩, le_rfl⟩, ?_, le_rfl, ?_⟩
  · change (0 : Int) ≤ _
    unfold upgradesLeft Player.prepareForRoundStart
    dsimp only
    omega
  · change conf.hpFloor ≤ p.maxHp
    unfold LogicConfiguration.hpFloor
    omega

end Player

namespace LogicP

variable {d d' : LogicP} {conf : LogicConfiguration}

theorem PerformAction.bounded {name toPlayer : String} {action : Action} {toPlace : Int} {ok : Bool}
    (hsound : d.room.logicConfiguration.Sound) (hfits : d.room.logicConfiguration.ArithmeticFits)
    (h : ∀ p ∈ d.room.players.toList, p.Bounded d.room.logicConfiguration)
    (hperform : PerformAction d name action toPlayer toPlace ok d') :
    ∀ p ∈ d'.room.players.toList, p.Bounded d.room.logicConfiguration := by
  refine hperform.forall_players h (fun p hp => ?_) (fun p hp => ?_) (fun p _ hp => ?_)
    (fun p q hp hq => hp.slash hsound hfits hq) (fun p q hp hq => hp.kick hsound hfits hq) <;>
  exact hp.congr ⟨rfl, rfl, rfl⟩ rfl rfl

/-- The stats are in bounds at any time, and the rest is during a round. -/
structure RoomInv (conf : LogicConfiguration) (d : LogicP) : Prop where
  logicConfiguration : d.room.logicConfiguration = conf
  inBounds : ∀ p ∈ d.room.players.toList, p.InBounds conf
  bounded : d.state ≠ .BeforeRoundStart → ∀ p ∈ d.room.players.toList, p.Bounded conf

end LogicP

namespace Room

theorem inBounds_resetUpgrades {conf : LogicConfiguration} (hsound : conf.Sound) {room : Room}
    (hconf : room.logicConfiguration = conf) :
    ∀ p ∈ room.resetUpgrades.players.toList, p.InBounds conf := by
  intro p hp
  obtain ⟨old, _, rfl⟩ := List.mem_map.mp hp
  rw [hconf]
  exact ⟨Player.statsInBounds_resetUpgrades hsound old, le_rfl⟩

/-- Every player of a room has a successor of its name in the other. -/
def Evolves (R : Player → Player → Prop) (room room' : Room) : Prop :=
  ∀ p ∈ room.players.toList, ∃ q ∈ room'.players.toList, q.objectName = p.objectName ∧ R p q

variable {R : Player → Player → Prop} {room room' room'' : Room}

theorem Evolves.refl (hrefl : ∀ p, R p p) (room : Room) : Evolves R room room :=
  fun p hp => ⟨p, hp, rfl, hrefl p⟩

theorem Evolves.trans (htrans : ∀ p q r, R p q → R q r → R p r) (h : Evolves R room room')
    (h' : Evolves R room' room'') : Evolves R room room'' := by
  intro p hp
  obtain ⟨q, hq, hname, hpq⟩ := h p hp
  obtain ⟨r, hr, hname', hqr⟩ := h' q hq
  exact ⟨r, hr, hname'.trans hname, htrans p q r hpq hqr⟩

theorem Evolves.setPlayer (hrefl : ∀ p, R p p) {p q : Player} (hp : p ∈ room.players.toList)
    (hname : q.objectName = p.objectName) (hR : R p q) : Evolves R room (room.setPlayer q) := by
  intro r hr
  by_cases hsame : r.objectName = q.objectName
  · obtain rfl := OrderedMap.eq_of_mem hr hp (hsame.trans hname)
    exact ⟨q, OrderedMap.mem_replace.mpr (.inl ⟨rfl, hname ▸ List.mem_map_of_mem hp⟩), hname, hR⟩
  · exact ⟨r, OrderedMap.mem_replace.mpr (.inr ⟨hr, hsame⟩), rfl, hrefl r⟩

/-- Two different players are written back. -/
theorem Evolves.setPlayers (hrefl : ∀ p, R p p) (htrans : ∀ p q r, R p q → R q r → R p r)
    {p q p' q' : Player} (hp : p ∈ room.players.toList) (hq : q ∈ room.players.toList)
    (hdistinct : p.objectName ≠ q.objectName) (hp' : p'.objectName = p.objectName)
    (hq' : q'.objectName = q.objectName) (hRp : R p p') (hRq : R q q') :
    Evolves R room ((room.setPlayer p').setPlayer q') := by
  have hkept : q ∈ (room.setPlayer p').players.toList :=
    OrderedMap.mem_replace.mpr (.inr ⟨hq, by rw [hp']; exact Ne.symm hdistinct⟩)
  exact (Evolves.setPlayer hrefl hp hp' hRp).trans htrans (.setPlayer hrefl hkept hq' hRq)

end Room

namespace Player

variable {conf : LogicConfiguration}

/-- What a dead player keeps. -/
structure Remains (p q : Player) : Prop where
  hp : q.hp = p.hp
  place : q.place = p.place
  knife : q.knife = p.knife
  horse : q.horse = p.horse

/-- A dead player remains as it is. -/
def Rests (conf : LogicConfiguration) (p q : Player) : Prop := p.dead conf = true → Remains p q

theorem Remains.rests {p q : Player} (h : Remains p q) : Rests conf p q := fun _ => h

theorem Rests.refl (p : Player) : Rests conf p p := fun _ => ⟨rfl, rfl, rfl, rfl⟩

theorem Remains.dead {p q : Player} (h : Remains p q) : q.dead conf = p.dead conf := by
  rw [Player.dead, Player.dead, h.hp]

theorem Rests.trans {p q r : Player} (h : Rests conf p q) (h' : Rests conf q r) :
    Rests conf p r := by
  intro hdead
  have hq := h hdead
  have hr := h' (hq.dead.trans hdead)
  exact ⟨hr.hp.trans hq.hp, hr.place.trans hq.place, hr.knife.trans hq.knife,
    hr.horse.trans hq.horse⟩

/-- Whoever is alive need not rest. -/
theorem Rests.of_alive {p : Player} (halive : p.alive conf = true) (q : Player) :
    Rests conf p q := by
  intro hdead
  rw [Player.alive, hdead] at halive
  cases halive

theorem slash_rests (source target : Player) :
    Rests conf source (source.slash conf target).2.1 ∧
      Rests conf target (source.slash conf target).2.2 := by
  by_cases hcan : source.canSlash conf target = true
  · obtain ⟨hsource, htarget⟩ := canSlash_alive hcan
    exact ⟨.of_alive hsource _, .of_alive htarget _⟩
  · rw [Player.slash, if_pos (by simpa using hcan)]
    exact ⟨.refl _, .refl _⟩

theorem kick_rests (source target : Player) :
    Rests conf source (source.kick conf target).2.1 ∧
      Rests conf target (source.kick conf target).2.2 := by
  by_cases hcan : source.canKick conf target = true
  · obtain ⟨hsource, htarget⟩ := canKick_alive hcan
    exact ⟨.of_alive hsource _, .of_alive htarget _⟩
  · rw [Player.kick, if_pos (by simpa using hcan)]
    exact ⟨.refl _, .refl _⟩

theorem buyKnife_rests (p : Player) : Rests conf p (p.buyKnife conf).2 := by
  rw [buyKnife]
  split
  · exact .refl p
  · next hcan =>
    simp only [canBuyKnife, Bool.not_eq_true', Bool.not_eq_false, Bool.and_eq_true] at hcan
    exact .of_alive hcan.1.1 _

theorem buyHorse_rests (p : Player) : Rests conf p (p.buyHorse conf).2 := by
  rw [buyHorse]
  split
  · exact .refl p
  · next hcan =>
    simp only [canBuyHorse, Bool.not_eq_true', Bool.not_eq_false, Bool.and_eq_true] at hcan
    exact .of_alive hcan.1.1 _

theorem canMove_alive {p : Player} {toPlace : Int} (hcan : p.canMove conf toPlace = true) :
    p.alive conf = true := (Bool.and_eq_true_iff.mp hcan).1

theorem move_rests (p : Player) (toPlace : Int) : Rests conf p (p.move conf toPlace).2 := by
  rw [move]
  split
  · next hcan => exact .of_alive (canMove_alive hcan) _
  · exact .refl p

/-- Nobody is moved after its death, whether by itself or by another. -/
theorem canLetMove_alive {source target : Player} {toPlace : Int}
    (hsame : source.objectName = target.objectName → source = target)
    (hcan : source.canLetMove conf target toPlace = true) : target.alive conf = true := by
  unfold canLetMove at hcan
  split at hcan
  · next hname =>
    obtain rfl := hsame (by simpa using hname)
    exact canMove_alive hcan
  · split at hcan
    · cases hcan
    · split at hcan
      · cases hcan
      · next hdead =>
        simp only [Bool.or_eq_true, not_or, Bool.not_eq_true, dead_eq_false] at hdead
        exact hdead.2

end Player

namespace LogicP

variable {d d' : LogicP}

/-- No action touches the dead. -/
theorem PerformAction.rests {name toPlayer : String} {action : Action} {toPlace : Int} {ok : Bool}
    (hperform : PerformAction d name action toPlayer toPlace ok d') :
    Room.Evolves (Player.Rests d.room.logicConfiguration) d.room d'.room := by
  have hrefl := @Player.Rests.refl d.room.logicConfiguration
  have htrans (p q r : Player) (h : Player.Rests d.room.logicConfiguration p q)
      (h' : Player.Rests d.room.logicConfiguration q r) := h.trans h'
  have hmem {name : String} {p : Player} (hp : d.deref name = .ok p) :
      p ∈ d.room.players.toList := (Room.player_eq_some.mp (deref_eq_ok.mp hp)).1
  cases hperform with
  | doNothing => exact .refl hrefl _
  | @buyKnife source _ _ hsource =>
    exact .setPlayer hrefl (hmem hsource) source.buyKnife_sameSeat.objectName source.buyKnife_rests
  | @buyHorse source _ _ hsource =>
    exact .setPlayer hrefl (hmem hsource) source.buyHorse_sameSeat.objectName source.buyHorse_rests
  | @slash source target _ _ hsource htarget =>
    have hp := hmem hsource
    obtain ⟨hself, hslashed⟩ := source.slash_sameSeat d.room.logicConfiguration target
    obtain ⟨hrest, hrest'⟩ := @Player.slash_rests d.room.logicConfiguration source target
    by_cases hsame : source.objectName = target.objectName
    · obtain rfl := OrderedMap.eq_of_mem hp (hmem htarget) hsame
      rw [source.slash_self]
      simpa only [setPlayer_room, Room.setPlayer_of_mem hp] using Room.Evolves.refl hrefl d.room
    · exact .setPlayers hrefl htrans hp (hmem htarget) hsame hself.objectName hslashed.objectName
        hrest hrest'
  | @kick source target _ _ hsource htarget =>
    have hp := hmem hsource
    obtain ⟨hself, hkicked⟩ := source.kick_sameSeat d.room.logicConfiguration target
    obtain ⟨hrest, hrest'⟩ := @Player.kick_rests d.room.logicConfiguration source target
    by_cases hsame : source.objectName = target.objectName
    · obtain rfl := OrderedMap.eq_of_mem hp (hmem htarget) hsame
      rw [source.kick_self]
      simpa only [setPlayer_room, Room.setPlayer_of_mem hp] using Room.Evolves.refl hrefl d.room
    · refine .setPlayers hrefl htrans hp (hmem htarget) hsame hself.objectName ?_ hrest hrest'
      rcases hkicked with hkicked | hkicked
      · exact hkicked.objectName
      · exact hkicked.1
  | @move source _ _ hsource =>
    refine .setPlayer hrefl (hmem hsource) ?_ (source.move_rests _)
    rw [Player.move]
    split <;> rfl
  | @letMove source target _ _ hsource htarget =>
    refine .setPlayer hrefl (hmem htarget) ?_ ?_ <;> (rw [Player.letMove]; split)
    · rfl
    · rfl
    · next hcan =>
      apply Player.Rests.of_alive
      exact Player.canLetMove_alive (OrderedMap.eq_of_mem (hmem hsource) (hmem htarget)) hcan
    · exact hrefl _

theorem upgrade_remains (conf : LogicConfiguration) (p : Player) (item : UpgradeItem) :
    Player.Remains p (p.upgrade conf item).2 := by
  cases item <;>
    simp only [Player.upgrade, Player.upgradeKnife, Player.upgradeHorse, Player.upgradeMaxHp] <;>
    split <;> exact ⟨rfl, rfl, rfl, rfl⟩

theorem upgradePlayer_remains {conf : LogicConfiguration} {p q : Player} {items : List UpgradeItem}
    (hupgrade : upgradePlayer conf p items = .ok q) : Player.Remains p q := by
  induction items generalizing p with
  | nil =>
    cases hupgrade
    exact ⟨rfl, rfl, rfl, rfl⟩
  | cons item rest ih =>
    have hfirst := upgrade_remains conf p item
    rcases hitem : p.upgrade conf item with ⟨ok, upgraded⟩
    rw [upgradePlayer, hitem] at hupgrade
    rw [hitem] at hfirst
    cases ok with
    | true =>
      have hrest := ih hupgrade
      exact ⟨hrest.hp.trans hfirst.hp, hrest.place.trans hfirst.place,
        hrest.knife.trans hfirst.knife, hrest.horse.trans hfirst.horse⟩
    | false => cases hupgrade

theorem performUpgrades_rests {room room' : Room}
    {entries : List (Sigma fun _ : String => List UpgradeItem)}
    (hroom : performUpgrades room entries = .ok room') :
    Room.Evolves (Player.Rests room.logicConfiguration) room room' := by
  have hrefl := @Player.Rests.refl room.logicConfiguration
  induction entries generalizing room with
  | nil =>
    cases hroom
    exact .refl hrefl _
  | cons entry rest ih =>
    rw [performUpgrades] at hroom
    split at hroom
    · cases hroom
    · next up hup =>
      obtain ⟨upgraded, hupgraded, hroom⟩ := Except.bind_eq_ok.mp hroom
      have hfirst : Room.Evolves (Player.Rests room.logicConfiguration) room
          (room.setPlayer upgraded) :=
        .setPlayer hrefl (Room.player_eq_some.mp hup).1 (upgradePlayer_sameSeat hupgraded).objectName
          (upgradePlayer_remains hupgraded).rests
      exact hfirst.trans (fun p q r h h' => h.trans h')
        (@ih (room.setPlayer upgraded) hroom hrefl)

end LogicP

namespace Room

variable {conf : LogicConfiguration}

theorem resetUpgrades_rests (room : Room) :
    room.Evolves (Player.Rests conf) room.resetUpgrades := by
  intro p hp
  refine ⟨p.resetUpgrades room.logicConfiguration, List.mem_map_of_mem hp, rfl, ?_⟩
  exact fun _ => ⟨rfl, rfl, rfl, rfl⟩

end Room

namespace Logic

open LogicP

variable {conf : LogicConfiguration} {self self' : Logic (List Signal)}

theorem RoomStep.inBounds {d : LogicP} {c : Call} {room : Room} (hsound : conf.Sound)
    (hfits : conf.ArithmeticFits) (h : RoomInv conf d) (hstep : RoomStep d c room) :
    ∀ p ∈ room.players.toList, p.InBounds conf := by
  have hconf := hstep.logicConfiguration.trans h.logicConfiguration
  cases hstep with
  | rejected | rpsReply | actionOrderReply | upgradeReply => exact h.inBounds
  | addPlayer | removePlayer => exact Room.inBounds_resetUpgrades hsound hconf
  | roundStart =>
    intro p hp
    obtain ⟨seat, old, _, _, hold, rfl⟩ := Room.mem_prepareForRoundStart hp
    exact ((h.inBounds old hold).prepareForRoundStart seat).toInBounds
  | action _ hstate _ _ hperform =>
    obtain ⟨rfl, _, hbounded⟩ := h
    have hall := hbounded (by rw [hstate]; decide)
    exact fun p hp => ((performAction_cases hperform).bounded hsound hfits hall p hp).toInBounds
  | upgrade _ hroom =>
    obtain ⟨rfl, hbounds, _⟩ := h
    exact performUpgrades_inBounds hsound hbounds hroom
  | gameOver => exact Room.inBounds_resetUpgrades hsound hconf

theorem CallStep.roomInv {c : Call} {ret : Bool} (hsound : conf.Sound)
    (hfits : conf.ArithmeticFits) (h : RoomInv conf self.d) (hstep : CallStep self c ret self') :
    RoomInv conf self'.d := by
  refine ⟨hstep.room.logicConfiguration.trans h.logicConfiguration,
    hstep.room.inBounds hsound hfits h, fun hstarted => ?_⟩
  rcases hstep.started hstarted with ⟨hround, hroom⟩ | ⟨hround, action⟩ | hroom
  · rw [hroom]
    exact h.bounded hround
  · obtain ⟨_, _, _, _, _, _, hperform, hroom⟩ := action
    obtain ⟨rfl, _, hbounded⟩ := h
    rw [hroom]
    exact hperform.bounded hsound hfits (hbounded hround)
  · rw [hroom]
    intro p hp
    obtain ⟨seat, old, _, _, hold, rfl⟩ := Room.mem_prepareForRoundStart hp
    exact (h.inBounds old hold).prepareForRoundStart seat

theorem roomInv_invariant (conf : LogicConfiguration) (hsound : conf.Sound)
    (hfits : conf.ArithmeticFits) :
    system.Invariant fun logic => logic.d.room.logicConfiguration = conf → RoomInv conf logic.d where
  init logic hinit := by
    obtain ⟨conf', rfl⟩ := hinit
    rintro rfl
    exact ⟨rfl, fun p hp => absurd hp List.not_mem_nil, fun hround => absurd rfl hround⟩
  step logic c logic' h hnext := by
    obtain ⟨ret, hcall⟩ := hnext
    have hstep := call_cases hcall
    intro hlogic
    have hinv := h (hstep.room.logicConfiguration.symm.trans hlogic)
    exact hstep.roomInv hsound hfits hinv

/-- No round starts, and the player is not taken out of the room. -/
def Stays (name : String) (logic : Logic (List Signal)) (c : Call) : Prop :=
  logic.d.Accepts c → c ≠ .roundStart ∧ c ≠ .removePlayer name

theorem CallStep.rests {c : Call} {ret : Bool} {p : Player}
    (hp : p ∈ self.d.room.players.toList) (hstays : Stays p.objectName self c)
    (hstep : CallStep self c ret self') :
    ∃ q ∈ self'.d.room.players.toList, q.objectName = p.objectName ∧
      Player.Rests self.d.room.logicConfiguration p q := by
  have hsame {room : Room} (hroom : room = self.d.room) : ∃ q ∈ room.players.toList,
      q.objectName = p.objectName ∧ Player.Rests self.d.room.logicConfiguration p q := by
    rw [hroom]
    exact ⟨p, hp, rfl, .refl p⟩
  have htrans (p q r : Player) (h : Player.Rests self.d.room.logicConfiguration p q)
      (h' : Player.Rests self.d.room.logicConfiguration q r) := h.trans h'
  cases hstep with
  | rejected => exact hsame rfl
  | @addPlayer name _ habsent =>
    rw [Room.addPlayer_of_notMem habsent]
    exact Room.resetUpgrades_rests _ p ((OrderedMap.mem_insert habsent).mpr (.inr hp))
  | @removePlayer name hstate hmember =>
    have hother : p.objectName ≠ name := by
      rintro rfl
      exact (hstays ⟨hstate, hmember⟩).2 rfl
    rw [Room.removePlayer_of_mem hmember]
    exact Room.resetUpgrades_rests _ p (List.mem_filter.mpr ⟨hp, decide_eq_true hother⟩)
  | roundStart hstate htwo => exact absurd rfl (hstays ⟨hstate, htwo⟩).1
  | rpsForAction _ _ _ hstep => exact hsame hstep.room
  | rpsForActionOrder _ _ _ hstep => exact hsame hstep.room
  | pick _ _ _ _ hrecord =>
    subst hrecord
    exact hsame rfl
  | lastPick _ _ _ _ hrecord _ hstep =>
    subst hrecord
    exact hsame hstep.room
  | action _ _ _ _ hperform hstep =>
    rw [hstep.room]
    exact (performAction_cases hperform).rests p hp
  | upgrade _ _ _ _ _ hstep =>
    cases hstep with
    | waiting => exact hsame rfl
    | gameOver _ _ hroom =>
      exact (performUpgrades_rests hroom).trans htrans (Room.resetUpgrades_rests _) p hp
    | result _ _ hroom => exact performUpgrades_rests hroom p hp

/-- The dead remain as they are until a round starts. -/
theorem dead_remains {p : Player} {calls : List Call} (hp : p ∈ self.d.room.players.toList)
    (hdead : p.dead self.d.room.logicConfiguration = true)
    (hrun : (system.guarded (Stays p.objectName)).Run self calls self') :
    self'.d.room.logicConfiguration = self.d.room.logicConfiguration ∧
      ∃ q ∈ self'.d.room.players.toList, q.objectName = p.objectName ∧ Player.Remains p q := by
  induction hrun with
  | nil => exact ⟨rfl, p, hp, rfl, ⟨rfl, rfl, rfl, rfl⟩⟩
  | snoc _ hnext ih =>
    obtain ⟨hstays, ret, hcall⟩ := hnext
    obtain ⟨hconf, q, hq, hname, hremains⟩ := ih
    have hstep := call_cases hcall
    obtain ⟨r, hr, hname', hrests⟩ := hstep.rests hq (by rwa [hname])
    rw [hconf] at hrests
    have hlast := hrests (hremains.dead.trans hdead)
    exact ⟨hstep.room.logicConfiguration.trans hconf, r, hr, hname'.trans hname,
      hlast.hp.trans hremains.hp, hlast.place.trans hremains.place,
      hlast.knife.trans hremains.knife, hlast.horse.trans hremains.horse⟩

/-- In every state of a round each player is within bounds, and once it is dead
it remains so, where and with what it died, until the next round starts. -/
theorem room_invariant (hreach : system.Reachable self)
    (hconf : self.d.room.logicConfiguration.Accepted)
    (hfits : self.d.room.logicConfiguration.ArithmeticFits)
    (hround : self.d.state ≠ .BeforeRoundStart) {p : Player}
    (hp : p ∈ self.d.room.players.toList) :
    p.Bounded self.d.room.logicConfiguration ∧
      (p.dead self.d.room.logicConfiguration = true → ∀ calls self',
        (system.guarded (Stays p.objectName)).Run self calls self' →
        ∃ q ∈ self'.d.room.players.toList, q.objectName = p.objectName ∧ Player.Remains p q ∧
          q.dead self'.d.room.logicConfiguration = true) := by
  have hinv := (roomInv_invariant _ hconf.sound hfits).of_reachable hreach rfl
  refine ⟨hinv.bounded hround p hp, fun hdead calls self' hrun => ?_⟩
  obtain ⟨hsame, q, hq, hname, hremains⟩ := dead_remains hp hdead hrun
  refine ⟨q, hq, hname, hremains, ?_⟩
  rw [hsame, hremains.dead]
  exact hdead

/-- Nobody can be hurt, but everybody is dead from the start. -/
def bloodless : QJsonValue :=
  sets [("initialKnifeDamage", 0), ("maximumKnifeDamage", 0), ("initialHorseDamage", 0),
    ("maximumHorseDamage", 0), ("initialMaxHp", 0), ("punishHpModifier", 0)]

/-- The lowest HP of the living is more than nothing, which is what a player of
this configuration starts with. -/
theorem room_invariant_fails :
    ∃ self, system.Reachable self ∧ self.d.room.logicConfiguration.Accepted ∧
      self.d.room.logicConfiguration.ArithmeticFits ∧ self.d.state = .RpsForAction ∧
      ∃ p ∈ self.d.room.players.toList, p.hp <
        self.d.room.logicConfiguration.lowestLivingHp - self.d.room.logicConfiguration.largestBlow := by
  obtain ⟨self, hreach, hconf, hlow⟩ := exists_accepted_run bloodless (slashCalls.take 3)
    (fun self => decide (self.d.room.logicConfiguration.ArithmeticFits ∧
      self.d.state = .RpsForAction ∧ ∃ p ∈ self.d.room.players.toList, p.hp <
        self.d.room.logicConfiguration.lowestLivingHp -
          self.d.room.logicConfiguration.largestBlow)) (by decide)
  exact ⟨self, .of_guarded hreach, hconf, of_decide_eq_true hlow⟩

/-- B is slashed to death, and its own reply does not bring it back. -/
theorem room_invariant_slash :
    ∃ (self self' : Logic (List Signal)) (p q : Player), p ∈ self.d.room.players.toList ∧
      p.Bounded self.d.room.logicConfiguration ∧ p.hp = 0 ∧
      self.call post (.actionReply "B" .BuyKnife "" 0) = .ok (false, self') ∧
      q ∈ self'.d.room.players.toList ∧ Player.Remains p q := by
  obtain ⟨self, hreach, hconf, hslash⟩ := exists_accepted_run (sets [("initialMaxHp", 1)])
    slashCalls (fun self => decide (self.d.room.logicConfiguration.ArithmeticFits ∧
      self.d.state = .Upgrade ∧ ∃ p ∈ self.d.room.players.toList, p.hp = 0 ∧
        p.dead self.d.room.logicConfiguration = true)) (by decide)
  obtain ⟨hfits, hstate, p, hp, hhp, hdead⟩ := of_decide_eq_true hslash
  have hcall : self.call post (.actionReply "B" .BuyKnife "" 0) = .ok (false, self) :=
    call_of_not_accepts (by simp [Accepts, hstate])
  have hstays : Stays p.objectName self (.actionReply "B" .BuyKnife "" 0) :=
    fun haccepts => by simp [Accepts, hstate] at haccepts
  obtain ⟨hbounded, hremains⟩ :=
    room_invariant (.of_guarded hreach) hconf hfits (by rw [hstate]; decide) hp
  obtain ⟨q, hq, _, hremains, _⟩ := hremains hdead _ _ (.snoc (.nil self) ⟨hstays, false, hcall⟩)
  exact ⟨self, self, p, q, hp, hbounded, hhp, hcall, hq, hremains⟩

end Logic

end QMdmmCore
