import Mathlib.Data.Rat.Floor
import QMdmm.Support.QString

/-- A JSON number. A document only holds finite ones; a value built in the
program may be any double. -/
inductive QDouble where
  | finite (value : ℚ)
  | nan
  | infinite (negative : Bool)
  deriving DecidableEq

inductive QJsonValue where
  | undefined
  | null
  | bool (value : Bool)
  | double (value : QDouble)
  | string (value : String)
  | array (values : List QJsonValue)
  | object (members : List (String × QJsonValue))

/-- The members of an object; a key is looked up by its first entry. -/
abbrev QJsonObject := List (String × QJsonValue)

namespace QJsonObject

/-- `value(key)`: undefined where the key is absent. -/
def value : QJsonObject → String → QJsonValue
  | [], _ => .undefined
  | (name, v) :: rest, key => if name = key then v else value rest key

def contains (ob : QJsonObject) (key : String) : Bool :=
  ob.any fun member => member.1 = key

/-- `insert(key, value)`: the members are kept in the order of their keys. -/
def insert : QJsonObject → String → QJsonValue → QJsonObject
  | [], key, v => [(key, v)]
  | (name, w) :: rest, key, v =>
    if name = key then (key, v) :: rest
    else if key < name then (key, v) :: (name, w) :: rest
    else (name, w) :: insert rest key v

theorem contains_of_value_ne_undefined {ob : QJsonObject} {key : String}
    (hvalue : ob.value key ≠ .undefined) : ob.contains key = true := by
  induction ob with
  | nil => exact absurd rfl hvalue
  | cons member rest ih =>
    obtain ⟨name, v⟩ := member
    by_cases hname : name = key
    · simp [contains, hname]
    · rw [value, if_neg hname] at hvalue
      have hrest := ih hvalue
      unfold contains at hrest ⊢
      rw [List.any_cons, hrest, Bool.or_true]

@[simp] theorem value_insert (ob : QJsonObject) (key other : String) (v : QJsonValue) :
    (ob.insert key v).value other = if key = other then v else ob.value other := by
  induction ob with
  | nil => rfl
  | cons member rest ih =>
    obtain ⟨name, w⟩ := member
    rw [insert]
    split_ifs with hname hlt <;> simp only [value, ih] <;> split_ifs <;> simp_all

@[simp] theorem contains_insert (ob : QJsonObject) (key other : String) (v : QJsonValue) :
    (ob.insert key v).contains other = (decide (key = other) || ob.contains other) := by
  induction ob with
  | nil => rfl
  | cons member rest ih =>
    obtain ⟨name, w⟩ := member
    rw [insert]
    unfold contains at ih ⊢
    split_ifs with hname hlt
    · subst hname
      simp
    · rfl
    · rw [List.any_cons, ih, List.any_cons, Bool.or_left_comm]

/-- Dropping other keys does not change what a kept key looks up. -/
theorem value_filter (keep : String → Bool) {key : String} (hkeep : keep key = true)
    (ob : QJsonObject) : value (ob.filter fun member => keep member.1) key = ob.value key := by
  induction ob with
  | nil => rfl
  | cons member rest ih =>
    obtain ⟨name, v⟩ := member
    by_cases hname : name = key
    · subst hname
      simp [value, hkeep]
    · cases hmember : keep name <;> simp [value, hmember, hname, ih]

theorem contains_filter (keep : String → Bool) {key : String} (hkeep : keep key = true)
    (ob : QJsonObject) : contains (ob.filter fun member => keep member.1) key = ob.contains key := by
  induction ob with
  | nil => rfl
  | cons member rest ih =>
    obtain ⟨name, v⟩ := member
    unfold contains at ih ⊢
    by_cases hname : name = key
    · subst hname
      simp [hkeep]
    · cases hmember : keep name
      · simpa [hmember, hname] using ih
      · simp only [List.filter_cons, hmember, if_true, List.any_cons, ih]

end QJsonObject

namespace QJsonValue

/-- An integral number of the `int` range, as a JSON value. -/
def ofInt (n : Int) : QJsonValue := .double (.finite n)

def isDouble : QJsonValue → Bool
  | .double _ => true
  | _ => false

def isString : QJsonValue → Bool
  | .string _ => true
  | _ => false

def isBool : QJsonValue → Bool
  | .bool _ => true
  | _ => false

def isArray : QJsonValue → Bool
  | .array _ => true
  | _ => false

def isNull : QJsonValue → Bool
  | .null => true
  | _ => false

def toDouble : QJsonValue → QDouble
  | .double d => d
  | _ => .finite 0

/-- The default answers for every number that is not an `int` exactly. -/
def toInt (v : QJsonValue) (defaultValue : Int) : Int :=
  match v with
  | .double (.finite q) =>
    if q.den = 1 ∧ -2147483648 ≤ q.num ∧ q.num ≤ 2147483647 then q.num else defaultValue
  | _ => defaultValue

theorem ofInt_inj {m n : Int} : ofInt m = ofInt n ↔ m = n := by
  simp [ofInt]

theorem toInt_ofInt {n : Int} (hfits : FitsInt n) (defaultValue : Int) :
    (ofInt n).toInt defaultValue = n := by
  simp [ofInt, toInt, hfits.1, hfits.2]

theorem fitsInt_toInt (v : QJsonValue) : FitsInt (v.toInt 0) := by
  unfold toInt
  split
  · split
    · next h => exact h.2
    · decide
  · decide

def toBool : QJsonValue → Bool
  | .bool b => b
  | _ => false

def toQString : QJsonValue → String
  | .string s => s
  | _ => ""

/-- `toVariant().toLongLong(&ok)`: a number is rounded. -/
def toLongLong : QJsonValue → Option Int
  | .double (.finite q) => some (if 0 ≤ q then ⌊q + 1 / 2⌋ else ⌈q - 1 / 2⌉)
  | .bool b => some (if b then 1 else 0)
  | .string s => QString.toLongLong s
  | _ => none

def toArray : QJsonValue → List QJsonValue
  | .array values => values
  | _ => []

def toObject : QJsonValue → QJsonObject
  | .object members => members
  | _ => []

end QJsonValue
