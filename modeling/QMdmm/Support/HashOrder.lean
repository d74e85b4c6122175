import Mathlib.Data.List.Dedup
import Mathlib.Data.List.Sort
import QMdmm.Support.Hash

/-- The order in which each loop over a hash visits what it finds there: any
order at all, and a different one for every loop. -/
structure IterationOrder (Loop : Type) where
  order : Loop → {α : Type} → List α → List α
  perm : ∀ (loop : Loop) {α : Type} (l : List α), (order loop l).Perm l

namespace IterationOrder

variable {Loop K V : Type}

/-- The order the entries are listed in. -/
def asListed : IterationOrder Loop where
  order _ _ l := l
  perm _ _ l := .refl l

/-- The opposite order. -/
def reversed : IterationOrder Loop where
  order _ _ l := l.reverse
  perm _ _ l := l.reverse_perm

/-- A hash as a loop sees it. -/
def hash (o : IterationOrder Loop) (loop : Loop) (h : QHash K V) : QHash K V where
  entries := o.order loop h.entries
  nodupKeys := (List.perm_nodupKeys (o.perm loop h.entries)).mpr h.nodupKeys

@[simp] theorem asListed_order (loop : Loop) (l : List V) :
    (@asListed Loop).order loop l = l := rfl

@[simp] theorem asListed_hash (loop : Loop) (h : QHash K V) :
    (@asListed Loop).hash loop h = h := rfl

end IterationOrder

namespace QHash

/-- The same hash, whatever order its entries are listed in. -/
def Same {K V : Type} (h h' : QHash K V) : Prop := h.entries.Perm h'.entries

variable {K V W : Type} {h h' h'' : QHash K V}

@[refl] theorem Same.refl (h : QHash K V) : h.Same h := List.Perm.refl _

theorem Same.symm (hsame : h.Same h') : h'.Same h := List.Perm.symm hsame

theorem Same.trans (hsame : h.Same h') (hsame' : h'.Same h'') : h.Same h'' :=
  List.Perm.trans hsame hsame'

theorem Same.count (hsame : h.Same h') : h.count = h'.count := hsame.length_eq

theorem Same.mem (hsame : h.Same h') {key : K} : key ∈ h ↔ key ∈ h' := AList.mem_of_perm hsame

theorem Same.keys (hsame : h.Same h') : h.keys.Perm h'.keys := hsame.map _

theorem Same.loop {Loop : Type} (hsame : h.Same h') (o o' : IterationOrder Loop) (loop : Loop) :
    (o.hash loop h).Same (o'.hash loop h') :=
  (o.perm loop h.entries).trans (hsame.trans (o'.perm loop h'.entries).symm)

theorem Same.sortedKeys [LinearOrder K] (hsame : h.Same h') :
    h.keys.insertionSort (· ≤ ·) = h'.keys.insertionSort (· ≤ ·) := by
  have hperm := (List.perm_insertionSort (· ≤ ·) h.keys).trans
    (hsame.keys.trans (List.perm_insertionSort (· ≤ ·) h'.keys).symm)
  exact hperm.eq_of_sortedLE List.sortedLE_insertionSort List.sortedLE_insertionSort

theorem Same.filterMap (hsame : h.Same h') (f : K → V → Option W) :
    (h.filterMap f).Same (h'.filterMap f) :=
  List.Perm.filterMap _ hsame

variable [DecidableEq K]

theorem Same.lookup (hsame : h.Same h') (key : K) : h.lookup key = h'.lookup key :=
  AList.perm_lookup hsame

theorem Same.value (hsame : h.Same h') (key : K) (default : V) :
    h.value key default = h'.value key default := by
  rw [QHash.value, QHash.value, hsame.lookup]

theorem Same.contains (hsame : h.Same h') (key : K) : h.contains key = h'.contains key := by
  simp only [QHash.contains, hsame.mem]

theorem Same.insert (hsame : h.Same h') (key : K) (v : V) :
    Same (AList.insert key v h) (AList.insert key v h') :=
  AList.perm_insert hsame

theorem Same.erase (hsame : h.Same h') (key : K) : Same (h.erase key) (h'.erase key) :=
  AList.perm_erase hsame

theorem same_of_lookup (hlookup : ∀ key, h.lookup key = h'.lookup key) : h.Same h' :=
  List.lookup_ext h.nodupKeys h'.nodupKeys fun key v => by
    have heq : h.entries.dlookup key = h'.entries.dlookup key := hlookup key
    rw [heq]

/-- Two keys may be inserted in either order. -/
theorem insert_comm (h : QHash K V) {key other : K} (hne : key ≠ other) (v w : V) :
    Same (AList.insert other w (AList.insert key v h))
      (AList.insert key v (AList.insert other w h)) :=
  AList.insert_insert_of_ne h hne

theorem erase_comm (h : QHash K V) (key other : K) :
    Same ((h.erase key).erase other) ((h.erase other).erase key) := by
  rw [AList.erase_erase]

theorem lookup_eq_ite (h : QHash K V) (key : K) (default : V) :
    h.lookup key = if key ∈ h then some (h.value key default) else none := by
  split
  · next hkey =>
    obtain ⟨v, hv⟩ := Option.isSome_iff_exists.mp (AList.lookup_isSome.mpr hkey)
    simp [QHash.value, hv]
  · next hkey => exact AList.lookup_eq_none.mpr hkey

/-- Counting up and down ends in the same counts in any order. -/
theorem Same.addEach {h h' : QHash K Int} (hsame : h.Same h') (amount : Int) {names names' : List K}
    (hnames : names.Perm names') : (h.addEach amount names).Same (h'.addEach amount names') := by
  refine same_of_lookup fun key => ?_
  have hmem : key ∈ h.addEach amount names ↔ key ∈ h'.addEach amount names' := by
    rw [mem_addEach, mem_addEach, hnames.mem_iff, hsame.mem]
  have hvalue : (h.addEach amount names).value key 0 = (h'.addEach amount names').value key 0 := by
    rw [value_addEach, value_addEach, hnames.count_eq, hsame.value]
  rw [lookup_eq_ite _ key 0, lookup_eq_ite _ key 0, hvalue]
  simp only [hmem]

/-- Two names may be counted in either order. -/
theorem addEach_comm (h : QHash K Int) (amount other : Int) (names others : List K) :
    ((h.addEach amount names).addEach other others).Same
      ((h.addEach other others).addEach amount names) := by
  refine same_of_lookup fun key => ?_
  have hmem : key ∈ (h.addEach amount names).addEach other others ↔
      key ∈ (h.addEach other others).addEach amount names := by
    simp only [mem_addEach]
    tauto
  have hvalue : ((h.addEach amount names).addEach other others).value key 0 =
      ((h.addEach other others).addEach amount names).value key 0 := by
    simp only [value_addEach]
    omega
  rw [lookup_eq_ite _ key 0, lookup_eq_ite _ key 0, hvalue]
  simp only [hmem]

end QHash

namespace QMultiHash

variable {K V : Type} [DecidableEq K] {h h' : QMultiHash K V}

theorem values_perm (hperm : h.Perm h') (key : K) : (h.values key).Perm (h'.values key) :=
  (hperm.filter _).map _

theorem count_perm (hperm : h.Perm h') (key : K) : h.count key = h'.count key :=
  (values_perm hperm key).length_eq

theorem contains_perm (hperm : h.Perm h') (key : K) : h.contains key = h'.contains key := by
  simp only [contains, (hperm.map Prod.fst).mem_iff]

/-- The only value of a key. -/
theorem value_perm (hperm : h.Perm h') {key : K} (hcount : h.count key = 1) (default : V) :
    h.value key default = h'.value key default := by
  have hvalues := values_perm hperm key
  rw [values_of_count_eq_one hcount default,
    values_of_count_eq_one ((count_perm hperm key).symm.trans hcount) default] at hvalues
  exact List.singleton_perm_singleton.mp hvalues

omit [DecidableEq K] in
/-- `for (key : keys) hash.insert(key, value)`. -/
theorem foldl_insert_perm (hperm : h.Perm h') (keys : List K) (value : V) :
    (keys.foldl (fun hash key => QMultiHash.insert hash key value) h).Perm
      (keys.foldl (fun hash key => QMultiHash.insert hash key value) h') := by
  induction keys generalizing h h' with
  | nil => exact hperm
  | cons key rest ih => exact ih (hperm.cons _)

theorem mem_uniqueKeys {key : K} : key ∈ h.uniqueKeys ↔ ∃ v, (key, v) ∈ h := by
  simp [uniqueKeys]

theorem mem_uniqueKeys_of_count {key : K} (hcount : h.count key = 1) : key ∈ h.uniqueKeys := by
  obtain ⟨v, hv⟩ := List.length_eq_one_iff.mp hcount
  exact mem_uniqueKeys.mpr ⟨v, mem_of_mem_values (by rw [hv]; exact List.mem_singleton_self v)⟩

/-- `for (value : values) hash.remove(key, value)`. -/
theorem foldl_removeEntry [DecidableEq V] (h : QMultiHash K V) (key : K) (values : List V) :
    values.foldl (fun hash v => hash.removeEntry key v) h =
      h.filter fun entry => ¬ (entry.1 = key ∧ entry.2 ∈ values) := by
  induction values generalizing h with
  | nil => simp
  | cons v rest ih =>
    rw [List.foldl_cons, ih, removeEntry, List.filter_filter]
    refine List.filter_congr fun entry _ => ?_
    simp only [List.mem_cons]
    by_cases hkey : entry.1 = key <;> by_cases hv : entry.2 = v <;> simp [hkey, hv]

end QMultiHash
