import Mathlib.Data.List.Infix

/-! # Where a pattern first stands in a list

The list may be what has arrived of a longer one: `indexOf_take` says what is known then. -/

namespace FirstMatch

variable {α : Type*} [DecidableEq α] (pattern : List α)

def indexOf (l : List α) : Option Nat := l.tails.findIdx? fun rest => pattern <+: rest

variable {pattern} {l l' : List α} {i n : Nat}

theorem indexOf_cons (a : α) : indexOf pattern (a :: l) =
    if pattern <+: a :: l then some 0 else (indexOf pattern l).map (· + 1) := by
  rw [indexOf, List.tails_cons, List.findIdx?_cons]
  simp only [decide_eq_true_eq, indexOf]

/-- Nothing before it is the pattern. -/
theorem indexOf_eq_some : indexOf pattern l = some i ↔
    i ≤ l.length ∧ pattern <+: l.drop i ∧ ∀ j < i, ¬ pattern <+: l.drop j := by
  simp only [indexOf, List.findIdx?_eq_some_iff_getElem, List.length_tails, List.getElem_tails,
    decide_eq_true_eq, exists_prop, Nat.lt_succ_iff]

/-- The pattern has room where it stands. -/
theorem add_length_le (h : indexOf pattern l = some i) : i + pattern.length ≤ l.length := by
  obtain ⟨hle, hpattern, -⟩ := indexOf_eq_some.mp h
  have hlength := hpattern.length_le
  rw [List.length_drop] at hlength
  omega

/-- It stands in the first of two parts whenever it has room there. -/
theorem indexOf_take (hpattern : pattern ≠ []) :
    indexOf pattern (l.take n) = (indexOf pattern l).filter fun i => i + pattern.length ≤ n := by
  have hpos := List.length_pos_iff.mpr hpattern
  have hstarts (j : Nat) : pattern <+: (l.take n).drop j ↔
      pattern <+: l.drop j ∧ j + pattern.length ≤ n := by
    rw [List.drop_take, List.prefix_take_iff]
    refine and_congr_right fun _ => ?_
    omega
  ext i
  rw [Option.filter_eq_some_iff, indexOf_eq_some, indexOf_eq_some, decide_eq_true_eq, hstarts,
    List.length_take]
  constructor
  · rintro ⟨hle, ⟨hat, hroom⟩, hbefore⟩
    refine ⟨⟨by omega, hat, fun j hj hearlier => ?_⟩, hroom⟩
    exact hbefore j hj ((hstarts j).mpr ⟨hearlier, by omega⟩)
  · rintro ⟨⟨hle, hat, hbefore⟩, hroom⟩
    refine ⟨by omega, ⟨hat, hroom⟩, fun j hj hearlier => ?_⟩
    exact hbefore j hj ((hstarts j).mp hearlier).1

theorem indexOf_of_isPrefix (hpattern : pattern ≠ []) (hstarts : l <+: l')
    (h : indexOf pattern l = some i) : indexOf pattern l' = some i := by
  rw [List.prefix_iff_eq_take.mp hstarts, indexOf_take hpattern] at h
  exact (Option.filter_eq_some_iff.mp h).1

/-- What has arrived of a list has the pattern as soon as there is room. -/
theorem le_of_isPrefix (hpattern : pattern ≠ []) (hstarts : l <+: l')
    (h : indexOf pattern l' = some i) (hnone : indexOf pattern l = none) :
    l.length < i + pattern.length := by
  by_contra hroom
  rw [List.prefix_iff_eq_take.mp hstarts, indexOf_take hpattern, h,
    Option.filter_some_eq_none] at hnone
  exact hnone (decide_eq_true (Nat.not_lt.mp hroom))

/-- What the pattern does not begin with is skipped. -/
theorem indexOf_append {a : α} {rest : List α} (hfree : a ∉ l) :
    indexOf (a :: rest) (l ++ l') = (indexOf (a :: rest) l').map (· + l.length) := by
  induction l with
  | nil => simp
  | cons b l ih =>
    rw [List.mem_cons, not_or] at hfree
    rw [List.cons_append, indexOf_cons, if_neg, ih hfree.2, Option.map_map, List.length_cons]
    · rfl
    · intro hstarts
      exact hfree.1 (List.cons_prefix_cons.mp hstarts).1

end FirstMatch
