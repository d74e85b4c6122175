import Mathlib.Algebra.Order.Floor.Ring
import Mathlib.Tactic.FieldSimp
import Mathlib.Tactic.Linarith
import Mathlib.Tactic.Ring

/-! Quotients of whole numbers, rounded by whole-number divisions alone. -/

section

variable {K : Type*} [Field K] [LinearOrder K] [IsStrictOrderedRing K] [FloorRing K]

/-- What lies half-way goes up: twice as much, and then half of the next number. -/
theorem floor_add_half (x : K) : ⌊x + 1 / 2⌋ = (⌊2 * x⌋ + 1) / 2 := by
  have htwo : (0 : ℤ) ≤ 2 := by decide
  have hhalf : x + 1 / 2 = (2 * x + 1) / (2 : ℤ) := by
    push_cast
    field_simp
  rw [hhalf, Int.floor_div_cast_of_nonneg htwo, Int.floor_add_one]

theorem floor_add_half_le_ceil (x : K) : ⌊x + 1 / 2⌋ ≤ ⌈x⌉ := by
  have hceil := Int.le_ceil x
  refine Int.le_of_lt_add_one (Int.floor_lt.mpr ?_)
  push_cast
  linarith

variable (K) (n : ℤ) {m : ℤ}

theorem floor_intCast_div (hm : 0 < m) : ⌊(n : K) / m⌋ = n / m := by
  rw [Int.floor_div_cast_of_nonneg hm.le, Int.floor_intCast]

theorem floor_intCast_div_add_half (hm : 0 < m) : ⌊(n : K) / m + 1 / 2⌋ = (n * 2 / m + 1) / 2 := by
  have htwice : 2 * ((n : K) / m) = ((n * 2 : ℤ) : K) / m := by
    push_cast
    ring
  rw [floor_add_half, htwice, floor_intCast_div K _ hm]

theorem ceil_intCast_div (hm : 0 < m) : ⌈(n : K) / m⌉ = (n + m - 1) / m := by
  have hpos : (0 : K) < m := Int.cast_pos.mpr hm
  have hlo := Int.mul_ediv_self_le (x := n + m - 1) (k := m) hm.ne'
  have hhi := Int.lt_mul_ediv_self_add (x := n + m - 1) (k := m) hm
  rw [Int.ceil_eq_iff, lt_div_iff₀ hpos, div_le_iff₀ hpos]
  constructor
  · have hlt : ((n + m - 1) / m - 1) * m < n := by linarith
    exact_mod_cast hlt
  · have hle : n ≤ (n + m - 1) / m * m := by linarith
    exact_mod_cast hle

end
