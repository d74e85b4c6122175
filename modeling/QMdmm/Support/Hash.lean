import Mathlib.Algebra.Ring.Int.Defs
import Mathlib.Data.List.AList
import Mathlib.Data.List.Perm.Subperm

/-- `QHash`: at most one value a key. The entries are listed in the order an
iteration visits them, which the callers must not depend on. -/
abbrev QHash (K V : Type) := AList fun _ : K => V

namespace QHash

variable {K V : Type} [DecidableEq K]

def value (hash : QHash K V) (key : K) (defaultValue : V) : V :=
  (hash.lookup key).getD defaultValue

def contains (hash : QHash K V) (key : K) : Bool :=
  decide (key ∈ hash)

def count (hash : QHash K V) : Nat :=
  hash.entries.length

/-- The entries an iteration keeps, with the value it computes for each. -/
def filterMap {W : Type} (hash : QHash K V) (f : K → V → Option W) : QHash K W where
  entries := hash.entries.filterMap fun entry => (f entry.1 entry.2).map fun w => ⟨entry.1, w⟩
  nodupKeys := by
    have hkeys := hash.nodupKeys
    unfold List.NodupKeys List.keys at hkeys ⊢
    refine hkeys.sublist ?_
    induction hash.entries with
    | nil => simp
    | cons entry rest ih =>
      cases hf : f entry.1 entry.2 with
      | none => simpa [hf] using ih.cons entry.1
      | some w => simpa [hf] using ih.cons_cons entry.1

/-- `for (name : names) hash[name] += amount`, where a missing entry counts
from zero. -/
def addEach (hash : QHash K Int) (amount : Int) (names : List K) : QHash K Int :=
  names.foldl (fun hash name => AList.insert name (hash.value name 0 + amount) hash) hash

theorem lookup_eq_some {hash : QHash K V} {key : K} {v : V} :
    hash.lookup key = some v ↔ ⟨key, v⟩ ∈ hash.entries :=
  AList.mem_lookup_iff

theorem lookup_filterMap {W : Type} (hash : QHash K V) (f : K → V → Option W) (key : K) :
    (hash.filterMap f).lookup key = (hash.lookup key).bind (f key) := by
  refine Option.ext fun w => ?_
  rw [lookup_eq_some, Option.bind_eq_some_iff]
  simp only [filterMap, List.mem_filterMap, Option.map_eq_some_iff, lookup_eq_some]
  constructor
  · rintro ⟨⟨name, v⟩, hmem, u, hf, heq⟩
    cases heq
    exact ⟨v, hmem, hf⟩
  · rintro ⟨v, hmem, hf⟩
    exact ⟨⟨key, v⟩, hmem, w, hf, rfl⟩

theorem value_insert (hash : QHash K V) (key other : K) (v default : V) :
    value (AList.insert key v hash) other default =
      if other = key then v else hash.value other default := by
  unfold value
  split
  · next h => rw [h, AList.lookup_insert]; rfl
  · next h => rw [AList.lookup_insert_ne h]

/-- `for (name : names) hash.insert(name, f(name))`. -/
theorem value_foldl_insert (f : K → V) (names : List K) (hash : QHash K V) (key : K) (default : V) :
    value (names.foldl (fun hash name => AList.insert name (f name) hash) hash) key default =
      if key ∈ names then f key else hash.value key default := by
  induction names generalizing hash with
  | nil => simp
  | cons name rest ih =>
    rw [List.foldl_cons, ih, value_insert]
    by_cases hrest : key ∈ rest
    · simp [hrest]
    · by_cases hname : key = name
      · simp [hname]
      · simp [hrest, hname]

theorem value_erase (hash : QHash K V) (key other : K) (default : V) :
    value (hash.erase key) other default =
      if other = key then default else hash.value other default := by
  unfold value
  split
  · next h => rw [h, AList.lookup_erase]; rfl
  · next h => rw [AList.lookup_erase_ne h]

theorem value_addEach (hash : QHash K Int) (amount : Int) (names : List K) (key : K) :
    (hash.addEach amount names).value key 0 = hash.value key 0 + amount * names.count key := by
  unfold addEach
  induction names generalizing hash with
  | nil => simp
  | cons name rest ih =>
    rw [List.foldl_cons, ih, value_insert]
    by_cases hname : key = name
    · subst hname
      rw [if_pos rfl, List.count_cons_self]
      push_cast
      rw [mul_add, mul_one]
      omega
    · rw [if_neg hname, List.count_cons_of_ne (Ne.symm hname)]

/-- A missing entry reads as zero, so dropping the zeros changes no value. -/
theorem value_dropZeros (hash : QHash K Int) (key : K) :
    (hash.filterMap fun _ n => if n = 0 then none else some n).value key 0 = hash.value key 0 := by
  unfold value
  rw [lookup_filterMap]
  cases hash.lookup key with
  | none => rfl
  | some n => by_cases hzero : n = 0 <;> simp [hzero]

omit [DecidableEq K] in
/-- Keys that are all in a list are as many as the list exactly if they are the
whole list. -/
theorem count_eq_length_iff {hash : QHash K V} {keys : List K} (hnodup : keys.Nodup)
    (hsub : ∀ key ∈ hash, key ∈ keys) :
    hash.count = keys.length ↔ ∀ key ∈ keys, key ∈ hash := by
  have hkeys : hash.count = hash.keys.length := by simp [count, AList.keys, List.keys]
  have hperm : hash.keys ⊆ keys := fun key hkey => hsub key hkey
  rw [hkeys]
  constructor
  · intro hcount key hkey
    have hsubperm := List.Nodup.subperm hash.nodupKeys hperm
    exact (hsubperm.perm_of_length_le (Nat.le_of_eq hcount.symm)).mem_iff.mpr hkey
  · intro hall
    exact ((List.perm_ext_iff_of_nodup hash.nodupKeys hnodup).mpr fun key =>
      ⟨hsub key, hall key⟩).length_eq

omit [DecidableEq K] in
theorem count_eq_zero_iff {hash : QHash K V} : hash.count = 0 ↔ ∀ key, key ∉ hash := by
  simp only [count, List.length_eq_zero_iff]
  constructor
  · intro hnil key hkey
    have : key ∈ hash.keys := hkey
    simp [AList.keys, List.keys, hnil] at this
  · intro hnone
    refine List.eq_nil_iff_forall_not_mem.mpr fun entry hentry => hnone entry.1 ?_
    exact List.mem_map_of_mem hentry

/-- `for (name : names) hash.insert(name, f(name))`. -/
theorem mem_foldl_insert {f : K → V} {names : List K} {hash : QHash K V} {key : K} :
    key ∈ names.foldl (fun hash name => AList.insert name (f name) hash) hash ↔
      key ∈ names ∨ key ∈ hash := by
  induction names generalizing hash with
  | nil => simp
  | cons name rest ih =>
    rw [List.foldl_cons, ih, AList.mem_insert, List.mem_cons]
    tauto

theorem mem_addEach {hash : QHash K Int} {amount : Int} {names : List K} {key : K} :
    key ∈ hash.addEach amount names ↔ key ∈ names ∨ key ∈ hash := by
  unfold addEach
  induction names generalizing hash with
  | nil => simp
  | cons name rest ih =>
    rw [List.foldl_cons, ih, AList.mem_insert, List.mem_cons]
    tauto

end QHash

/-- `QMultiHash`: the most recently inserted value of a key comes first. -/
abbrev QMultiHash (K V : Type) := List (K × V)

namespace QMultiHash

variable {K V : Type} [DecidableEq K]

def insert (hash : QMultiHash K V) (key : K) (value : V) : QMultiHash K V :=
  (key, value) :: hash

def uniqueKeys (hash : QMultiHash K V) : List K :=
  (hash.map Prod.fst).dedup

def values (hash : QMultiHash K V) (key : K) : List V :=
  (hash.filter fun entry => entry.1 = key).map Prod.snd

def count (hash : QMultiHash K V) (key : K) : Nat :=
  (hash.values key).length

/-- The most recently inserted value. -/
def value (hash : QMultiHash K V) (key : K) (defaultValue : V) : V :=
  (hash.values key).head?.getD defaultValue

def contains (hash : QMultiHash K V) (key : K) : Bool :=
  decide (key ∈ hash.map Prod.fst)

/-- `remove(key)`: every entry of the key goes. -/
def removeKey (hash : QMultiHash K V) (key : K) : QMultiHash K V :=
  hash.filter fun entry => entry.1 ≠ key

/-- `remove(key, value)`: every entry with this key and this value goes. -/
def removeEntry [DecidableEq V] (hash : QMultiHash K V) (key : K) (value : V) : QMultiHash K V :=
  hash.filter fun entry => ¬ (entry.1 = key ∧ entry.2 = value)

theorem values_of_count_eq_one {hash : QMultiHash K V} {key : K} (hcount : hash.count key = 1)
    (default : V) : hash.values key = [hash.value key default] := by
  obtain ⟨v, hv⟩ := List.length_eq_one_iff.mp hcount
  simp [value, hv]

theorem mem_of_mem_values {hash : QMultiHash K V} {key : K} {v : V} (hv : v ∈ hash.values key) :
    (key, v) ∈ hash := by
  obtain ⟨⟨name, w⟩, hmem, rfl⟩ := List.mem_map.mp hv
  obtain ⟨hmem, hname⟩ := List.mem_filter.mp hmem
  rw [← of_decide_eq_true hname]
  exact hmem

theorem mem_values_of_mem {hash : QMultiHash K V} {key : K} {v : V} (hv : (key, v) ∈ hash) :
    v ∈ hash.values key :=
  List.mem_map_of_mem (List.mem_filter.mpr ⟨hv, decide_eq_true rfl⟩)

theorem mem_of_count_eq_one {hash : QMultiHash K V} {key : K} (hcount : hash.count key = 1)
    (default : V) : (key, hash.value key default) ∈ hash := by
  apply mem_of_mem_values
  rw [values_of_count_eq_one hcount default]
  exact List.mem_singleton_self _

theorem values_nodup {hash : QMultiHash K V} (hnodup : hash.Nodup) (key : K) :
    (hash.values key).Nodup := by
  refine List.Nodup.map_on (fun entry hentry other hother heq => ?_) (hnodup.filter _)
  have hkey := of_decide_eq_true (List.mem_filter.mp hentry).2
  have hkey' := of_decide_eq_true (List.mem_filter.mp hother).2
  exact Prod.ext (hkey.trans hkey'.symm) heq

theorem values_removeKey (hash : QMultiHash K V) (key other : K) :
    (hash.removeKey key).values other = if other = key then [] else hash.values other := by
  rw [values, removeKey, List.filter_filter]
  split
  · next hkey =>
    subst hkey
    simp
  · next hkey =>
    rw [values]
    congr 1
    refine List.filter_congr fun entry _ => ?_
    by_cases hentry : entry.1 = other <;> simp [hentry, hkey]

/-- The values of a key and those of the other keys are all the values. -/
theorem count_values_add_removeKey [DecidableEq V] (hash : QMultiHash K V) (key : K) (v : V) :
    (hash.values key).count v + ((hash.removeKey key).map Prod.snd).count v =
      (hash.map Prod.snd).count v := by
  unfold values removeKey
  induction hash with
  | nil => simp
  | cons entry rest ih =>
    by_cases hkey : entry.1 = key
    · simp only [List.filter_cons, hkey, decide_true, if_true, List.map_cons, List.count_cons,
        not_true, ne_eq, decide_false, Bool.false_eq_true, if_false] at ih ⊢
      omega
    · simp only [List.filter_cons, hkey, decide_false, Bool.false_eq_true, if_false, List.map_cons,
        List.count_cons, not_false_eq_true, ne_eq, decide_true, if_true] at ih ⊢
      omega

end QMultiHash
