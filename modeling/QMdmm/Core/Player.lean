import QMdmm.Core.Data
import QMdmm.Core.LogicConfiguration

namespace QMdmmCore

/-- A player and the fields of `PlayerP`. The room a player asks for its rules
is passed as the `conf` of each function; two players of one room are the same
object exactly when their names agree. -/
structure Player where
  objectName : String
  knife : Bool
  horse : Bool
  hp : Int
  place : Int
  initialPlace : Int
  knifeDamage : Int
  horseDamage : Int
  maxHp : Int
  upgradePoint : Int
  deriving DecidableEq, Repr

namespace Player

open Data

def new (conf : LogicConfiguration) (name : String) : Player where
  objectName := name
  knife := false
  horse := false
  hp := conf.initialMaxHp
  place := Village
  initialPlace := Village
  knifeDamage := conf.initialKnifeDamage
  horseDamage := conf.initialHorseDamage
  maxHp := conf.initialMaxHp
  upgradePoint := 0

def deadAtHp (conf : LogicConfiguration) (hp : Int) : Bool :=
  if conf.zeroHpAsDead then hp ≤ 0 else hp < 0

def dead (conf : LogicConfiguration) (self : Player) : Bool := deadAtHp conf self.hp

def alive (conf : LogicConfiguration) (self : Player) : Bool := !self.dead conf

/-- The second component is `*kills`. -/
def setHp (conf : LogicConfiguration) (self : Player) (h : Int) : Player × Bool :=
  if self.hp ≠ h then
    ({ self with hp := h }, !self.dead conf && deadAtHp conf h)
  else (self, false)

def upgradeKnifeRemainingTimes (conf : LogicConfiguration) (self : Player) : Int :=
  int32 (conf.maximumKnifeDamage - self.knifeDamage)

def upgradeHorseRemainingTimes (conf : LogicConfiguration) (self : Player) : Int :=
  int32 (conf.maximumHorseDamage - self.horseDamage)

def upgradeMaxHpRemainingTimes (conf : LogicConfiguration) (self : Player) : Int :=
  int32 (conf.maximumMaxHp - self.maxHp)

def canUpgradeKnife (conf : LogicConfiguration) (self : Player) : Bool :=
  self.upgradeKnifeRemainingTimes conf > 0

def canUpgradeHorse (conf : LogicConfiguration) (self : Player) : Bool :=
  self.upgradeHorseRemainingTimes conf > 0

def canUpgradeMaxHp (conf : LogicConfiguration) (self : Player) : Bool :=
  self.upgradeMaxHpRemainingTimes conf > 0

/-- The sum a kill caps the killer's upgrade points to. -/
def upgradeRemainingTimes (conf : LogicConfiguration) (self : Player) : Int :=
  int32 (self.upgradeKnifeRemainingTimes conf + self.upgradeHorseRemainingTimes conf
    + self.upgradeMaxHpRemainingTimes conf)

/-- `PlayerP::applyDamage` on two different players, the damaging one first. -/
def applyDamage (conf : LogicConfiguration) (source target : Player) (damagePoint : Int) :
    Player × Player :=
  let (target, kills) := target.setHp conf (int32 (target.hp - damagePoint))
  if kills then
    -- Points count kills of one round, of which there are fewer than players.
    ({ source with
        upgradePoint := min (source.upgradePoint + 1) (source.upgradeRemainingTimes conf) }, target)
  else (source, target)

/-- A player may buy in its own city only, or in any city. -/
def atShop (conf : LogicConfiguration) (self : Player) : Bool :=
  if conf.canBuyOnlyInInitialCity then self.place == self.initialPlace else self.place != Village

def canBuyKnife (conf : LogicConfiguration) (self : Player) : Bool :=
  self.alive conf && !self.knife && self.atShop conf

def canBuyHorse (conf : LogicConfiguration) (self : Player) : Bool :=
  self.alive conf && !self.horse && self.atShop conf

def canSlash (conf : LogicConfiguration) (self target : Player) : Bool :=
  if self.dead conf || target.dead conf then false
  else if !self.knife then false
  else if self.objectName == target.objectName then false
  else if self.place != target.place then false
  else true

def slashPunishHp (conf : LogicConfiguration) (self : Player) : Int :=
  if self.place = Village then 0
  else if conf.punishHpModifier ≤ 0 then 0
  else
    match conf.punishHpRoundStrategy with
    | .RoundDown => self.maxHp.tdiv conf.punishHpModifier
    | .RoundToNearest45 => ((int32 (self.maxHp * 2)).tdiv conf.punishHpModifier + 1).tdiv 2
    | .RoundUp => (int32 (self.maxHp + conf.punishHpModifier - 1)).tdiv conf.punishHpModifier
    | .PlusOne => int32 (self.maxHp.tdiv conf.punishHpModifier + 1)

def canKick (conf : LogicConfiguration) (self target : Player) : Bool :=
  if self.dead conf || target.dead conf then false
  else if !self.horse then false
  else if self.objectName == target.objectName then false
  else if self.place != target.place || self.place == Village then false
  else true

def canMove (conf : LogicConfiguration) (self : Player) (toPlace : Int) : Bool :=
  self.alive conf && isPlaceAdjacent self.place toPlace

def canLetMove (conf : LogicConfiguration) (self target : Player) (toPlace : Int) : Bool :=
  if self.objectName == target.objectName then self.canMove conf toPlace
  else if !conf.enableLetMove then false
  else if self.dead conf || target.dead conf then false
  else if !isPlaceAdjacent target.place toPlace then false
  -- case 1: pull a player in adjacent place to self's place
  else if isPlaceAdjacent self.place target.place && toPlace == self.place then true
  -- case 2: push a player in same place to adjacent place
  else self.place == target.place

def buyKnife (conf : LogicConfiguration) (self : Player) : Bool × Player :=
  if !self.canBuyKnife conf then (false, self) else (true, { self with knife := true })

def buyHorse (conf : LogicConfiguration) (self : Player) : Bool × Player :=
  if !self.canBuyHorse conf then (false, self) else (true, { self with horse := true })

/-- The slashing player and the slashed one, after the punishment. -/
def slash (conf : LogicConfiguration) (self target : Player) : Bool × Player × Player :=
  if !self.canSlash conf target then (false, self, target)
  else
    let (self, target) := applyDamage conf self target self.knifeDamage
    let punishedHp := self.slashPunishHp conf
    if punishedHp > 0 then
      let (target, self) := applyDamage conf target self punishedHp
      (true, self, target)
    else (true, self, target)

def kick (conf : LogicConfiguration) (self target : Player) : Bool × Player × Player :=
  if !self.canKick conf target then (false, self, target)
  else
    let (self, target) := applyDamage conf self target self.horseDamage
    (true, self, if !target.dead conf then { target with place := Village } else target)

def move (conf : LogicConfiguration) (self : Player) (toPlace : Int) : Bool × Player :=
  if self.canMove conf toPlace then (true, { self with place := toPlace }) else (false, self)

/-- Only the moved player changes. -/
def letMove (conf : LogicConfiguration) (self target : Player) (toPlace : Int) : Bool × Player :=
  if self.canLetMove conf target toPlace then (true, { target with place := toPlace }) else (false, target)

def doNothing (conf : LogicConfiguration) (self : Player) : Bool := self.alive conf

def upgradeKnife (conf : LogicConfiguration) (self : Player) : Bool × Player :=
  if !self.canUpgradeKnife conf then (false, self)
  else (true, { self with knifeDamage := self.knifeDamage + 1 })

def upgradeHorse (conf : LogicConfiguration) (self : Player) : Bool × Player :=
  if !self.canUpgradeHorse conf then (false, self)
  else (true, { self with horseDamage := self.horseDamage + 1 })

def upgradeMaxHp (conf : LogicConfiguration) (self : Player) : Bool × Player :=
  if !self.canUpgradeMaxHp conf then (false, self)
  else (true, { self with maxHp := self.maxHp + 1 })

/-- One item of an upgrade list. -/
def upgrade (conf : LogicConfiguration) (self : Player) : UpgradeItem → Bool × Player
  | .UpgradeKnife => self.upgradeKnife conf
  | .UpgradeHorse => self.upgradeHorse conf
  | .UpgradeMaxHp => self.upgradeMaxHp conf

def prepareForRoundStart (self : Player) (seat : Int) : Player :=
  { self with
    knife := false, horse := false, hp := self.maxHp, initialPlace := seat, place := seat,
    upgradePoint := 0 }

def resetUpgrades (conf : LogicConfiguration) (self : Player) : Player :=
  { self with
    maxHp := conf.initialMaxHp, knifeDamage := conf.initialKnifeDamage,
    horseDamage := conf.initialHorseDamage, upgradePoint := 0 }

variable {conf : LogicConfiguration}

@[simp] theorem alive_eq_false (self : Player) : self.alive conf = false ↔ self.dead conf = true := by
  simp [alive]

@[simp] theorem dead_eq_false (self : Player) : self.dead conf = false ↔ self.alive conf = true := by
  simp [alive]

theorem setHp_fst (conf : LogicConfiguration) (self : Player) (h : Int) :
    (self.setHp conf h).1 = { self with hp := h } := by
  unfold setHp
  split
  · rfl
  · next hsame =>
    simp only [ne_eq, not_not] at hsame
    simp [← hsame]

/-- A kill is the step from a living player to a dead one. -/
theorem setHp_snd (self : Player) (h : Int) :
    (self.setHp conf h).2 = (self.alive conf && deadAtHp conf h) := by
  unfold setHp alive
  split
  · rfl
  · next hsame =>
    simp only [ne_eq, not_not] at hsame
    simp [dead, ← hsame]

theorem applyDamage_snd (source target : Player) (n : Int) :
    (applyDamage conf source target n).2 = { target with hp := int32 (target.hp - n) } := by
  unfold applyDamage
  rw [← target.setHp_fst conf]
  split
  split <;> simp_all

theorem applyDamage_fst (source target : Player) (n : Int) :
    (applyDamage conf source target n).1 =
      if target.alive conf && deadAtHp conf (int32 (target.hp - n)) then
        { source with
          upgradePoint := min (source.upgradePoint + 1) (source.upgradeRemainingTimes conf) }
      else source := by
  unfold applyDamage
  rw [← setHp_snd]
  split
  split <;> simp_all

/-- What no damage changes. -/
structure SameSeat (p q : Player) : Prop where
  objectName : q.objectName = p.objectName
  place : q.place = p.place
  initialPlace : q.initialPlace = p.initialPlace

theorem SameSeat.refl (p : Player) : SameSeat p p := ⟨rfl, rfl, rfl⟩

theorem SameSeat.trans {p q r : Player} (h : SameSeat p q) (h' : SameSeat q r) : SameSeat p r :=
  ⟨h'.objectName.trans h.objectName, h'.place.trans h.place, h'.initialPlace.trans h.initialPlace⟩

theorem applyDamage_sameSeat (conf : LogicConfiguration) (source target : Player) (n : Int) :
    SameSeat source (applyDamage conf source target n).1 ∧
      SameSeat target (applyDamage conf source target n).2 := by
  rw [applyDamage_fst, applyDamage_snd]
  constructor
  · split <;> exact ⟨rfl, rfl, rfl⟩
  · exact ⟨rfl, rfl, rfl⟩

theorem buyKnife_sameSeat (self : Player) : SameSeat self (self.buyKnife conf).2 := by
  rw [buyKnife]
  split <;> exact ⟨rfl, rfl, rfl⟩

theorem buyHorse_sameSeat (self : Player) : SameSeat self (self.buyHorse conf).2 := by
  rw [buyHorse]
  split <;> exact ⟨rfl, rfl, rfl⟩

theorem upgrade_sameSeat (conf : LogicConfiguration) (self : Player) (item : UpgradeItem) :
    SameSeat self (self.upgrade conf item).2 := by
  cases item <;> simp only [upgrade, upgradeKnife, upgradeHorse, upgradeMaxHp] <;> split <;>
    exact ⟨rfl, rfl, rfl⟩

theorem slash_sameSeat (conf : LogicConfiguration) (self target : Player) :
    SameSeat self (self.slash conf target).2.1 ∧ SameSeat target (self.slash conf target).2.2 := by
  have hdamage := applyDamage_sameSeat conf self target self.knifeDamage
  simp only [slash]
  split
  · exact ⟨.refl self, .refl target⟩
  · split
    · have hpunish := applyDamage_sameSeat conf
        (applyDamage conf self target self.knifeDamage).2
        (applyDamage conf self target self.knifeDamage).1
      exact ⟨hdamage.1.trans (hpunish _).2, hdamage.2.trans (hpunish _).1⟩
    · exact hdamage

theorem kick_sameSeat (conf : LogicConfiguration) (self target : Player) :
    SameSeat self (self.kick conf target).2.1 ∧
      (SameSeat target (self.kick conf target).2.2 ∨
        ((self.kick conf target).2.2.objectName = target.objectName ∧
          (self.kick conf target).2.2.place = Village)) := by
  have hdamage := applyDamage_sameSeat conf self target self.horseDamage
  simp only [kick]
  split
  · exact ⟨.refl self, .inl (.refl target)⟩
  · refine ⟨hdamage.1, ?_⟩
    split
    · exact .inr ⟨hdamage.2.objectName, rfl⟩
    · exact .inl hdamage.2

end Player

end QMdmmCore
