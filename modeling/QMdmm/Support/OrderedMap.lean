import Mathlib.Data.List.Basic
import Mathlib.Data.List.Nodup
import Mathlib.Order.Lattice

/-- A map held as its values in strictly ascending order of the key each of
them carries. An unsorted or ambiguous map cannot be built. -/
structure OrderedMap {K V : Type*} [LinearOrder K] (key : V → K) where
  toList : List V
  sorted : toList.Pairwise fun v w => key v < key w

namespace OrderedMap

variable {K V : Type*} [LinearOrder K] {key : V → K}

@[ext] theorem ext {m n : OrderedMap key} (hlist : m.toList = n.toList) : m = n := by
  cases m
  cases n
  simp_all

def empty : OrderedMap key := ⟨[], .nil⟩

def keys (m : OrderedMap key) : List K := m.toList.map key

def find? (m : OrderedMap key) (k : K) : Option V := m.toList.find? fun v => key v = k

/-- The ordered insertion into a list that has no value of this key. -/
def insertList (key : V → K) (v : V) : List V → List V
  | [] => [v]
  | w :: rest => if key v < key w then v :: w :: rest else w :: insertList key v rest

theorem mem_insertList {v w : V} {l : List V} :
    w ∈ insertList key v l ↔ w = v ∨ w ∈ l := by
  induction l with
  | nil => simp [insertList]
  | cons u rest ih =>
    unfold insertList
    split
    · simp
    · simp only [List.mem_cons, ih]
      tauto

theorem insertList_sorted {v : V} {l : List V} (hl : l.Pairwise fun v w => key v < key w)
    (habsent : ∀ w ∈ l, key w ≠ key v) :
    (insertList key v l).Pairwise fun v w => key v < key w := by
  induction l with
  | nil => simp [insertList]
  | cons u rest ih =>
    obtain ⟨hu, hrest⟩ := List.pairwise_cons.mp hl
    unfold insertList
    split
    · next hlt =>
      refine List.pairwise_cons.mpr ⟨?_, hl⟩
      intro w hw
      cases hw with
      | head => exact hlt
      | tail _ hw => exact hlt.trans (hu w hw)
    · next hnot =>
      have hlt : key u < key v :=
        lt_of_le_of_ne (not_lt.mp hnot) (habsent u List.mem_cons_self)
      refine List.pairwise_cons.mpr ⟨?_, ih hrest fun w hw => habsent w (List.mem_cons_of_mem _ hw)⟩
      intro w hw
      rcases mem_insertList.mp hw with rfl | hw
      · exact hlt
      · exact hu w hw

/-- Inserting leaves a map alone that already has the key. -/
def insert (m : OrderedMap key) (v : V) : OrderedMap key :=
  if habsent : ∀ w ∈ m.toList, key w ≠ key v then
    ⟨insertList key v m.toList, insertList_sorted m.sorted habsent⟩
  else m

def erase (m : OrderedMap key) (k : K) : OrderedMap key :=
  ⟨m.toList.filter fun v => key v ≠ k, m.sorted.filter _⟩

/-- An update of every value that keeps the keys. -/
def map (m : OrderedMap key) (f : V → V) (hf : ∀ v, key (f v) = key v) : OrderedMap key :=
  ⟨m.toList.map f, by simpa only [List.pairwise_map, hf] using m.sorted⟩

/-- `f i` of the first value, `f (i + 1)` of the second, and so on. -/
def countingList (f : Nat → V → V) : Nat → List V → List V
  | _, [] => []
  | i, v :: rest => f i v :: countingList f (i + 1) rest

omit [LinearOrder K] in
theorem map_key_countingList {f : Nat → V → V} (hf : ∀ i v, key (f i v) = key v) (i : Nat)
    (l : List V) : (countingList f i l).map key = l.map key := by
  induction l generalizing i with
  | nil => rfl
  | cons v rest ih => simp only [countingList, List.map_cons, hf, ih]

theorem mem_countingList {f : Nat → V → V} {i : Nat} {l : List V} {w : V}
    (hw : w ∈ countingList f i l) : ∃ j v, i ≤ j ∧ j < i + l.length ∧ v ∈ l ∧ w = f j v := by
  induction l generalizing i with
  | nil => cases hw
  | cons v rest ih =>
    rcases List.mem_cons.mp hw with rfl | hw
    · exact ⟨i, v, Nat.le_refl i, by simp, List.mem_cons_self, rfl⟩
    · obtain ⟨j, u, hlo, hhi, hu, rfl⟩ := ih hw
      exact ⟨j, u, by omega, by simp only [List.length_cons]; omega, List.mem_cons_of_mem _ hu, rfl⟩

/-- An update that counts the values in key order, from `i` on. -/
def mapCounting (m : OrderedMap key) (f : Nat → V → V) (i : Nat)
    (hf : ∀ i v, key (f i v) = key v) : OrderedMap key :=
  ⟨countingList f i m.toList, by
    have hsorted : (m.toList.map key).Pairwise (· < ·) := List.pairwise_map.mpr m.sorted
    rw [← map_key_countingList hf i] at hsorted
    exact List.pairwise_map.mp hsorted⟩

/-- The value of `v`'s key becomes `v`; a map without the key is left alone. -/
def replace (m : OrderedMap key) (v : V) : OrderedMap key :=
  m.map (fun w => if key w = key v then v else w) fun w => by
    split
    · next hkey => exact hkey.symm
    · rfl

theorem nodup_keys (m : OrderedMap key) : m.keys.Nodup :=
  (List.pairwise_map.mpr m.sorted).imp fun hlt => hlt.ne

theorem eq_of_mem {m : OrderedMap key} {v w : V} (hv : v ∈ m.toList) (hw : w ∈ m.toList)
    (hkey : key v = key w) : v = w :=
  List.inj_on_of_nodup_map m.nodup_keys hv hw hkey

theorem find?_eq_some {m : OrderedMap key} {k : K} {v : V} :
    m.find? k = some v ↔ v ∈ m.toList ∧ key v = k := by
  constructor
  · intro hfind
    exact ⟨List.mem_of_find?_eq_some hfind, by simpa using List.find?_some hfind⟩
  · rintro ⟨hmem, rfl⟩
    cases hfind : m.find? (key v) with
    | none => simpa using List.find?_eq_none.mp hfind v hmem
    | some w =>
      have hw := List.mem_of_find?_eq_some hfind
      have hkey : key w = key v := by simpa using List.find?_some hfind
      rw [eq_of_mem hw hmem hkey]

theorem find?_isSome {m : OrderedMap key} {k : K} : (m.find? k).isSome ↔ k ∈ m.keys := by
  simp [find?, keys, List.find?_isSome]

theorem find?_eq_none {m : OrderedMap key} {k : K} : m.find? k = none ↔ k ∉ m.keys := by
  simp [find?, keys, List.find?_eq_none]

@[simp] theorem keys_map (m : OrderedMap key) (f : V → V) (hf : ∀ v, key (f v) = key v) :
    (m.map f hf).keys = m.keys := by
  simp [keys, map, Function.comp_def, hf]

@[simp] theorem keys_replace (m : OrderedMap key) (v : V) : (m.replace v).keys = m.keys :=
  m.keys_map _ _

@[simp] theorem keys_mapCounting (m : OrderedMap key) (f : Nat → V → V) (i : Nat)
    (hf : ∀ i v, key (f i v) = key v) : (m.mapCounting f i hf).keys = m.keys :=
  map_key_countingList hf i m.toList

theorem find?_map (m : OrderedMap key) (f : V → V) (hf : ∀ v, key (f v) = key v) (k : K) :
    (m.map f hf).find? k = (m.find? k).map f := by
  simp only [find?, map, List.find?_map, Function.comp_def, hf]

theorem mem_replace {m : OrderedMap key} {v w : V} :
    w ∈ (m.replace v).toList ↔
      (w = v ∧ key v ∈ m.keys) ∨ (w ∈ m.toList ∧ key w ≠ key v) := by
  simp only [replace, map, keys, List.mem_map]
  constructor
  · rintro ⟨u, hu, rfl⟩
    by_cases hkey : key u = key v
    · exact .inl ⟨by simp [hkey], u, hu, hkey⟩
    · simp [hkey, hu]
  · rintro (⟨rfl, u, hu, hkey⟩ | ⟨hw, hkey⟩)
    · exact ⟨u, hu, by simp [hkey]⟩
    · exact ⟨w, hw, by simp [hkey]⟩

/-- A replaced value is found under its key, and nothing else changes. -/
theorem find?_replace (m : OrderedMap key) (v : V) (k : K) :
    (m.replace v).find? k = if key v = k then (m.find? k).map fun _ => v else m.find? k := by
  rw [replace, find?_map]
  by_cases hkey : key v = k
  · rw [if_pos hkey]
    cases hfind : m.find? k with
    | none => rfl
    | some w => simp [(find?_eq_some.mp hfind).2, hkey]
  · rw [if_neg hkey]
    cases hfind : m.find? k with
    | none => rfl
    | some w => simp [(find?_eq_some.mp hfind).2, Ne.symm hkey]

/-- Of two values of one key the later stays. -/
theorem replace_replace (m : OrderedMap key) {v w : V} (heq : key v = key w) :
    (m.replace v).replace w = m.replace w := by
  apply OrderedMap.ext
  simp only [replace, map, List.map_map]
  refine List.map_congr_left fun u _ => ?_
  by_cases hu : key u = key w
  · simp [hu, heq]
  · simp [hu, heq]

/-- The values of two keys may be replaced in either order. -/
theorem replace_comm (m : OrderedMap key) {v w : V} (hne : key v ≠ key w) :
    (m.replace v).replace w = (m.replace w).replace v := by
  apply OrderedMap.ext
  simp only [replace, map, List.map_map]
  refine List.map_congr_left fun u _ => ?_
  by_cases hv : key u = key v
  · have hw : key u ≠ key w := fun heq => hne (hv.symm.trans heq)
    simp [hv, hne]
  · by_cases hw : key u = key w <;> simp [hv, hw, Ne.symm hne]

theorem mem_insert {m : OrderedMap key} {v w : V} (habsent : key v ∉ m.keys) :
    w ∈ (m.insert v).toList ↔ w = v ∨ w ∈ m.toList := by
  have hnone : ∀ w ∈ m.toList, key w ≠ key v := by
    intro w hw hkey
    exact habsent (hkey ▸ List.mem_map_of_mem hw)
  rw [insert, dif_pos hnone]
  exact mem_insertList

theorem mem_keys_insert {m : OrderedMap key} {v : V} (habsent : key v ∉ m.keys) {k : K} :
    k ∈ (m.insert v).keys ↔ k = key v ∨ k ∈ m.keys := by
  simp only [keys, List.mem_map, mem_insert habsent]
  aesop

theorem mem_keys_erase {m : OrderedMap key} {j k : K} :
    k ∈ (m.erase j).keys ↔ k ≠ j ∧ k ∈ m.keys := by
  simp only [keys, erase, List.mem_map, List.mem_filter, decide_eq_true_eq]
  aesop

theorem length_keys_insert {m : OrderedMap key} {v : V} (habsent : key v ∉ m.keys) :
    (m.insert v).keys.length = m.keys.length + 1 := by
  have hnone : ∀ w ∈ m.toList, key w ≠ key v := by
    intro w hw hkey
    exact habsent (hkey ▸ List.mem_map_of_mem hw)
  have hlength (l : List V) : (insertList key v l).length = l.length + 1 := by
    induction l with
    | nil => rfl
    | cons w rest ih =>
      rw [insertList]
      split
      · rfl
      · simp [ih]
  rw [insert, dif_pos hnone]
  simp [keys, hlength]

theorem length_keys_erase {m : OrderedMap key} {k : K} (hmember : k ∈ m.keys) :
    (m.erase k).keys.length + 1 = m.keys.length := by
  have herase : (m.erase k).keys = m.keys.erase k := by
    rw [m.nodup_keys.erase_eq_filter, keys, keys, erase, List.filter_map]
    refine congrArg _ (List.filter_congr fun v _ => ?_)
    by_cases hkey : key v = k <;> simp [hkey]
  have hpos := List.length_pos_of_mem hmember
  rw [herase, List.length_erase_of_mem hmember]
  omega

end OrderedMap
