import Mathlib.Data.Int.Init

/-- What a signed 32-bit computation leaves for a mathematical result. Overflow
wraps around, as on every two's complement target; the language leaves it
undefined, so results that say something about the code bound their operands. -/
def int32 (x : Int) : Int := x.bmod 4294967296

/-- The numbers of the `int` range. -/
def FitsInt (n : Int) : Prop := -2147483648 ≤ n ∧ n ≤ 2147483647

instance (n : Int) : Decidable (FitsInt n) := inferInstanceAs (Decidable (_ ∧ _))

/-- The largest `int`. -/
def intMax : Int := 2147483647

theorem FitsInt.int32_eq {x : Int} (h : FitsInt x) : int32 x = x :=
  Int.bmod_eq_of_le (by have := h.1; omega) (by have := h.2; omega)

theorem int32_eq_self {x : Int} (hlo : -intMax ≤ x) (hhi : x ≤ intMax) : int32 x = x := by
  unfold intMax at hlo hhi
  exact FitsInt.int32_eq ⟨by omega, hhi⟩

theorem int32_le_intMax (x : Int) : int32 x ≤ intMax := by
  have := Int.bmod_lt (x := x) (m := 4294967296) (by omega)
  unfold int32 intMax
  omega

/-- Wrapping around never makes a natural number larger. -/
theorem int32_le_self {x : Int} (hx : 0 ≤ x) : int32 x ≤ x := by
  unfold int32 Int.bmod
  dsimp only
  split <;> omega

/-- Counting down from a positive number does not wrap around. -/
theorem int32_sub_one {x : Int} (hpos : 0 < int32 x) : int32 (x - 1) = int32 x - 1 := by
  have hmax := int32_le_intMax x
  have hself : int32 (int32 x - 1) = int32 x - 1 :=
    int32_eq_self (by unfold intMax; omega) (by omega)
  rw [← hself, int32, int32, int32, Int.bmod_sub_bmod]
