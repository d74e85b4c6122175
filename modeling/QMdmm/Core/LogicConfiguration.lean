import QMdmm.Core.Json
import QMdmm.Support.CInt

namespace QMdmmCore

/-- The rules of a game, kept as the JSON object they travel as. -/
structure LogicConfiguration where
  object : QJsonObject

namespace LogicConfiguration

inductive PunishHpRoundStrategy where
  | RoundDown
  | RoundToNearest45
  | RoundUp
  | PlusOne
  deriving DecidableEq, Repr

/-- The cast of an `int` to the `uint8_t` of the enumeration; a value that is no enumerator
behaves as `RoundDown` wherever it is switched on. -/
def PunishHpRoundStrategy.ofInt (n : Int) : PunishHpRoundStrategy :=
  let n := n % 256
  if n = 1 then .RoundToNearest45
  else if n = 2 then .RoundUp
  else if n = 3 then .PlusOne
  else .RoundDown

/-- Version 2 of the rules. -/
def defaults : LogicConfiguration where
  object := [
    ("initialKnifeDamage", .ofInt 1),
    ("maximumKnifeDamage", .ofInt 10),
    ("initialHorseDamage", .ofInt 2),
    ("maximumHorseDamage", .ofInt 10),
    ("initialMaxHp", .ofInt 10),
    ("maximumMaxHp", .ofInt 20),
    ("punishHpModifier", .ofInt 2),
    ("punishHpRoundStrategy", .ofInt 1),
    ("zeroHpAsDead", .bool true),
    ("enableLetMove", .bool true),
    ("canBuyOnlyInInitialCity", .bool false)]

/-- Version 1 of the rules. -/
def v1 : LogicConfiguration where
  object := [
    ("initialKnifeDamage", .ofInt 1),
    ("maximumKnifeDamage", .ofInt 3),
    ("initialHorseDamage", .ofInt 3),
    ("maximumHorseDamage", .ofInt 5),
    ("initialMaxHp", .ofInt 7),
    ("maximumMaxHp", .ofInt 7),
    ("punishHpModifier", .ofInt 0),
    ("punishHpRoundStrategy", .ofInt 1),
    ("zeroHpAsDead", .bool false),
    ("enableLetMove", .bool false),
    ("canBuyOnlyInInitialCity", .bool false)]

/-- The member the getter of `key` converts: its own, else the default one. -/
def member (conf : LogicConfiguration) (key : String) : QJsonValue :=
  if conf.object.contains key then conf.object.value key else defaults.object.value key

def intMember (conf : LogicConfiguration) (key : String) : Int := (conf.member key).toInt 0

def boolMember (conf : LogicConfiguration) (key : String) : Bool := (conf.member key).toBool

def initialKnifeDamage (conf : LogicConfiguration) : Int := conf.intMember "initialKnifeDamage"
def maximumKnifeDamage (conf : LogicConfiguration) : Int := conf.intMember "maximumKnifeDamage"
def initialHorseDamage (conf : LogicConfiguration) : Int := conf.intMember "initialHorseDamage"
def maximumHorseDamage (conf : LogicConfiguration) : Int := conf.intMember "maximumHorseDamage"
def initialMaxHp (conf : LogicConfiguration) : Int := conf.intMember "initialMaxHp"
def maximumMaxHp (conf : LogicConfiguration) : Int := conf.intMember "maximumMaxHp"
def punishHpModifier (conf : LogicConfiguration) : Int := conf.intMember "punishHpModifier"

def punishHpRoundStrategy (conf : LogicConfiguration) : PunishHpRoundStrategy :=
  .ofInt (conf.intMember "punishHpRoundStrategy")

def zeroHpAsDead (conf : LogicConfiguration) : Bool := conf.boolMember "zeroHpAsDead"
def enableLetMove (conf : LogicConfiguration) : Bool := conf.boolMember "enableLetMove"

def canBuyOnlyInInitialCity (conf : LogicConfiguration) : Bool :=
  conf.boolMember "canBuyOnlyInInitialCity"

/-- A numeric member must be a non-negative whole number that fits in `int`. -/
def parseNonNegativeInt : QJsonValue → Option Int
  | .double (.finite d) =>
    if d.den ≠ 1 ∨ d < 0 ∨ d > 2147483647 then none else some d.num
  | _ => none

def intKeys : List String :=
  ["initialKnifeDamage", "maximumKnifeDamage", "initialHorseDamage", "maximumHorseDamage",
    "initialMaxHp", "maximumMaxHp", "punishHpModifier", "punishHpRoundStrategy"]

def boolKeys : List String :=
  ["zeroHpAsDead", "enableLetMove", "canBuyOnlyInInitialCity"]

/-- `CONF_INT`: an absent key is fine, a present one has to parse. -/
def confInt (ob : QJsonObject) (key : String) : Bool :=
  !ob.contains key || (parseNonNegativeInt (ob.value key)).isSome

/-- `CONF_BOOL`. -/
def confBool (ob : QJsonObject) (key : String) : Bool :=
  !ob.contains key || (ob.value key).isBool

/-- The local `CONF_INT` leaves for `key`: the parsed number, else the default. -/
def parsedInt (ob : QJsonObject) (key : String) : Int :=
  if ob.contains key then (parseNonNegativeInt (ob.value key)).getD 0 else defaults.intMember key

/-- What `deserialize` assigns on success; on failure the object keeps what it
had. Only the known keys are taken over. -/
def deserialize : QJsonValue → Option LogicConfiguration
  | .object ob =>
    if !(intKeys.all (confInt ob)) then none
    else if !(boolKeys.all (confBool ob)) then none
    else if parsedInt ob "punishHpRoundStrategy" > 3 then none
    else if parsedInt ob "initialKnifeDamage" > parsedInt ob "maximumKnifeDamage" then none
    else if parsedInt ob "initialHorseDamage" > parsedInt ob "maximumHorseDamage" then none
    else if parsedInt ob "initialMaxHp" > parsedInt ob "maximumMaxHp" then none
    else some ⟨ob.filter fun m => decide (m.1 ∈ intKeys ++ boolKeys)⟩
  | _ => none

/-- A configuration some JSON value deserializes to. -/
def Accepted (conf : LogicConfiguration) : Prop :=
  ∃ value, deserialize value = some conf

theorem parseNonNegativeInt_bounds {v : QJsonValue} {n : Int}
    (hparse : parseNonNegativeInt v = some n) : 0 ≤ n ∧ n ≤ intMax ∧ v.toInt 0 = n := by
  unfold parseNonNegativeInt at hparse
  split at hparse
  · next d =>
    split at hparse
    · cases hparse
    · next hd =>
      simp only [not_or, not_lt, ne_eq, not_not] at hd
      obtain ⟨hden, hlo, hhi⟩ := hd
      simp only [Option.some.injEq] at hparse
      subst hparse
      have hd : d = (d.num : ℚ) := ((Rat.den_eq_one_iff d).mp hden).symm
      have hnum : 0 ≤ d.num := Rat.num_nonneg.mpr hlo
      have hmax : d.num ≤ 2147483647 := by
        rw [hd] at hhi
        exact_mod_cast hhi
      refine ⟨hnum, hmax, ?_⟩
      simp only [QJsonValue.toInt]
      rw [if_pos ⟨hden, by omega, hmax⟩]
  · cases hparse

/-- The getter of a numeric key returns what `deserialize` parsed for it. -/
theorem intMember_of_deserialize {ob : QJsonObject} {key : String}
    (hkey : key ∈ intKeys) (hconf : confInt ob key = true) :
    intMember ⟨ob.filter fun m => decide (m.1 ∈ intKeys ++ boolKeys)⟩ key = parsedInt ob key := by
  have hkeep : decide (key ∈ intKeys ++ boolKeys) = true := by simp [hkey]
  unfold intMember member parsedInt
  rw [QJsonObject.contains_filter (fun k => decide (k ∈ intKeys ++ boolKeys)) hkeep,
    QJsonObject.value_filter (fun k => decide (k ∈ intKeys ++ boolKeys)) hkeep]
  by_cases hpresent : ob.contains key = true
  · simp only [confInt, hpresent, Bool.not_true, Bool.false_or, Option.isSome_iff_exists] at hconf
    obtain ⟨n, hn⟩ := hconf
    simp [hpresent, hn, (parseNonNegativeInt_bounds hn).2.2]
  · simp [hpresent, intMember, member]

/-- What the getters return. -/
structure Values where
  initialKnifeDamage : Int
  maximumKnifeDamage : Int
  initialHorseDamage : Int
  maximumHorseDamage : Int
  initialMaxHp : Int
  maximumMaxHp : Int
  punishHpModifier : Int
  punishHpRoundStrategy : PunishHpRoundStrategy
  zeroHpAsDead : Bool
  enableLetMove : Bool
  canBuyOnlyInInitialCity : Bool
  deriving DecidableEq, Repr

def values (conf : LogicConfiguration) : Values where
  initialKnifeDamage := conf.initialKnifeDamage
  maximumKnifeDamage := conf.maximumKnifeDamage
  initialHorseDamage := conf.initialHorseDamage
  maximumHorseDamage := conf.maximumHorseDamage
  initialMaxHp := conf.initialMaxHp
  maximumMaxHp := conf.maximumMaxHp
  punishHpModifier := conf.punishHpModifier
  punishHpRoundStrategy := conf.punishHpRoundStrategy
  zeroHpAsDead := conf.zeroHpAsDead
  enableLetMove := conf.enableLetMove
  canBuyOnlyInInitialCity := conf.canBuyOnlyInInitialCity

/-- Configurations no getter tells apart. -/
def SameMembers (conf conf' : LogicConfiguration) : Prop :=
  ∀ key ∈ intKeys ++ boolKeys, conf'.member key = conf.member key

/-- Only keys that no getter reads are dropped. -/
theorem sameMembers_of_deserialize {ob : QJsonObject} {conf : LogicConfiguration}
    (hconf : deserialize (.object ob) = some conf) : SameMembers ⟨ob⟩ conf := by
  intro key hkey
  have hkeep : decide (key ∈ intKeys ++ boolKeys) = true := decide_eq_true hkey
  simp only [deserialize] at hconf
  split_ifs at hconf
  cases hconf
  unfold member
  rw [QJsonObject.contains_filter (fun k => decide (k ∈ intKeys ++ boolKeys)) hkeep,
    QJsonObject.value_filter (fun k => decide (k ∈ intKeys ++ boolKeys)) hkeep]

theorem SameMembers.values_eq {conf conf' : LogicConfiguration} (h : SameMembers conf conf') :
    conf'.values = conf.values := by
  simp only [SameMembers, intKeys, boolKeys, List.cons_append, List.nil_append,
    List.forall_mem_cons, List.not_mem_nil, false_implies, implies_true, and_true] at h
  simp only [values, initialKnifeDamage, maximumKnifeDamage, initialHorseDamage,
    maximumHorseDamage, initialMaxHp, maximumMaxHp, punishHpModifier, punishHpRoundStrategy,
    zeroHpAsDead, enableLetMove, canBuyOnlyInInitialCity, intMember, boolMember, h]

theorem parseNonNegativeInt_ofInt {n : Int} (hlo : 0 ≤ n) (hhi : n ≤ intMax) :
    parseNonNegativeInt (.ofInt n) = some n := by
  have hpos : ¬ ((n : ℚ) < 0) := not_lt.mpr (by exact_mod_cast hlo)
  have hmax : ¬ ((n : ℚ) > 2147483647) := not_lt.mpr (by exact_mod_cast hhi)
  simp [parseNonNegativeInt, QJsonValue.ofInt, hpos, hmax]

/-- A number that is legal is read as it is parsed. -/
theorem parsedInt_eq {ob : QJsonObject} {key : String} (hconf : confInt ob key = true) :
    parsedInt ob key = intMember ⟨ob⟩ key := by
  unfold parsedInt intMember member
  by_cases hpresent : ob.contains key = true
  · simp only [confInt, hpresent, Bool.not_true, Bool.false_or, Option.isSome_iff_exists] at hconf
    obtain ⟨n, hn⟩ := hconf
    simp [hpresent, hn, (parseNonNegativeInt_bounds hn).2.2]
  · simp [hpresent]

theorem parsedInt_bounds {ob : QJsonObject} {key : String} (hkey : key ∈ intKeys)
    (hconf : confInt ob key = true) : 0 ≤ parsedInt ob key ∧ parsedInt ob key ≤ intMax := by
  unfold parsedInt
  by_cases hpresent : ob.contains key = true
  · simp only [confInt, hpresent, Bool.not_true, Bool.false_or, Option.isSome_iff_exists] at hconf
    obtain ⟨n, hn⟩ := hconf
    have := parseNonNegativeInt_bounds hn
    simp only [hpresent, if_true, hn, Option.getD_some]
    exact ⟨this.1, this.2.1⟩
  · rw [if_neg hpresent]
    exact (by decide : ∀ key ∈ intKeys, 0 ≤ defaults.intMember key ∧
      defaults.intMember key ≤ intMax) key hkey

/-- What an accepted configuration is worth to the rules: every number is a
non-negative `int`, and no initial value exceeds its maximum. -/
structure Sound (conf : LogicConfiguration) : Prop where
  knifeDamage : 0 ≤ conf.initialKnifeDamage ∧ conf.initialKnifeDamage ≤ conf.maximumKnifeDamage ∧
    conf.maximumKnifeDamage ≤ intMax
  horseDamage : 0 ≤ conf.initialHorseDamage ∧ conf.initialHorseDamage ≤ conf.maximumHorseDamage ∧
    conf.maximumHorseDamage ≤ intMax
  maxHp : 0 ≤ conf.initialMaxHp ∧ conf.initialMaxHp ≤ conf.maximumMaxHp ∧
    conf.maximumMaxHp ≤ intMax
  punishHpModifier : 0 ≤ conf.punishHpModifier ∧ conf.punishHpModifier ≤ intMax

theorem Accepted.sound {conf : LogicConfiguration} (hconf : conf.Accepted) : conf.Sound := by
  obtain ⟨value, hvalue⟩ := hconf
  unfold deserialize at hvalue
  split at hvalue
  · next ob =>
    split_ifs at hvalue with hints hbools hstrategy hknife hhorse hmaxHp
    simp only [Option.some.injEq] at hvalue
    subst hvalue
    have hall : ∀ key ∈ intKeys, confInt ob key = true := by
      simpa [List.all_eq_true] using hints
    have hmember (key : String) (hkey : key ∈ intKeys) :=
      intMember_of_deserialize hkey (hall key hkey)
    have hbounds (key : String) (hkey : key ∈ intKeys) := parsedInt_bounds hkey (hall key hkey)
    constructor
    · rw [initialKnifeDamage, maximumKnifeDamage, hmember _ (by simp [intKeys]),
        hmember _ (by simp [intKeys])]
      exact ⟨(hbounds _ (by simp [intKeys])).1, by omega, (hbounds _ (by simp [intKeys])).2⟩
    · rw [initialHorseDamage, maximumHorseDamage, hmember _ (by simp [intKeys]),
        hmember _ (by simp [intKeys])]
      exact ⟨(hbounds _ (by simp [intKeys])).1, by omega, (hbounds _ (by simp [intKeys])).2⟩
    · rw [initialMaxHp, maximumMaxHp, hmember _ (by simp [intKeys]),
        hmember _ (by simp [intKeys])]
      exact ⟨(hbounds _ (by simp [intKeys])).1, by omega, (hbounds _ (by simp [intKeys])).2⟩
    · rw [LogicConfiguration.punishHpModifier, hmember _ (by simp [intKeys])]
      exact hbounds _ (by simp [intKeys])
  · cases hvalue

/-- The known keys are all that decides whether an object is accepted. -/
theorem deserialize_congr {ob ob' : QJsonObject}
    (hcontains : ∀ key ∈ intKeys ++ boolKeys, ob'.contains key = ob.contains key)
    (hvalue : ∀ key ∈ intKeys ++ boolKeys, ob'.value key = ob.value key)
    (hkept : (ob'.filter fun m => decide (m.1 ∈ intKeys ++ boolKeys)) =
      ob.filter fun m => decide (m.1 ∈ intKeys ++ boolKeys)) :
    deserialize (.object ob') = deserialize (.object ob) := by
  have hints : intKeys.all (confInt ob') = intKeys.all (confInt ob) := by
    rw [Bool.eq_iff_iff, List.all_eq_true, List.all_eq_true]
    refine forall₂_congr fun key hkey => ?_
    have hknown := List.mem_append_left boolKeys hkey
    rw [confInt, confInt, hcontains key hknown, hvalue key hknown]
  have hbools : boolKeys.all (confBool ob') = boolKeys.all (confBool ob) := by
    rw [Bool.eq_iff_iff, List.all_eq_true, List.all_eq_true]
    refine forall₂_congr fun key hkey => ?_
    have hknown := List.mem_append_right intKeys hkey
    rw [confBool, confBool, hcontains key hknown, hvalue key hknown]
  have hparsed (key : String) (hkey : key ∈ intKeys) : parsedInt ob' key = parsedInt ob key := by
    have hknown := List.mem_append_left boolKeys hkey
    rw [parsedInt, parsedInt, hcontains key hknown, hvalue key hknown]
  simp only [intKeys, List.forall_mem_cons] at hparsed
  simp only [deserialize, hints, hbools, hkept, hparsed]

/-- What an accepted configuration travels as is accepted again, as it is. -/
theorem Accepted.deserialize_object {conf : LogicConfiguration} (hconf : conf.Accepted) :
    deserialize (.object conf.object) = some conf := by
  obtain ⟨value, hvalue⟩ := hconf
  cases value with
  | object ob =>
    have hsame := hvalue
    simp only [deserialize] at hvalue
    split_ifs at hvalue
    cases hvalue
    rw [← hsame]
    apply deserialize_congr
    · intro key hkey
      exact QJsonObject.contains_filter (fun k => decide (k ∈ intKeys ++ boolKeys))
        (decide_eq_true hkey) ob
    · intro key hkey
      exact QJsonObject.value_filter (fun k => decide (k ∈ intKeys ++ boolKeys))
        (decide_eq_true hkey) ob
    · rw [List.filter_filter]
      simp only [Bool.and_self]
  | _ => cases hvalue

end LogicConfiguration

end QMdmmCore
