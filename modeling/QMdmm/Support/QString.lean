import QMdmm.Support.CInt

/-! What is asked of texts in a locale of its own: numbers, and words in any case. -/

namespace QString

def isSpace (c : Char) : Bool :=
  let n := c.toNat
  (9 ≤ n && n ≤ 13) || n == 0x20 || n == 0x85 || n == 0xA0 || n == 0x1680 ||
    (0x2000 ≤ n && n ≤ 0x200A) || n == 0x2028 || n == 0x2029 || n == 0x202F || n == 0x205F ||
    n == 0x3000

def trimmed (s : String) : List Char :=
  ((s.toList.dropWhile isSpace).reverse.dropWhile isSpace).reverse

/-- The number that one or more decimal digits spell. -/
def digits (cs : List Char) : Option Nat :=
  if cs = [] || !cs.all Char.isDigit then none
  else some (cs.foldl (fun n c => 10 * n + (c.toNat - '0'.toNat)) 0)

/-- `toInt(&ok)`: nothing where a text spells no `int`. -/
def toInt (s : String) : Option Int :=
  let number : Option Int :=
    match trimmed s with
    | '-' :: cs => (digits cs).map fun n => -(n : Int)
    | '+' :: cs => (digits cs).map fun n => (n : Int)
    | cs => (digits cs).map fun n => (n : Int)
  number.filter fun n => decide (FitsInt n)

/-- `toUInt(&ok)`: no sign but a plus. -/
def toUInt (s : String) : Option Nat :=
  let number : Option Nat :=
    match trimmed s with
    | '+' :: cs => digits cs
    | cs => digits cs
  number.filter fun n => decide (n < 4294967296)

/-- `toLongLong(&ok)`. -/
def toLongLong (s : String) : Option Int :=
  let number : Option Int :=
    match trimmed s with
    | '-' :: cs => (digits cs).map fun n => -(n : Int)
    | '+' :: cs => (digits cs).map fun n => (n : Int)
    | cs => (digits cs).map fun n => (n : Int)
  number.filter fun n => decide (-9223372036854775808 ≤ n ∧ n ≤ 9223372036854775807)

/-- The only characters outside of ASCII that are letters of ASCII in another case are the
long s and the Kelvin sign. -/
def foldCase (c : Char) : Char :=
  if c.toNat = 0x17F then 's' else if c.toNat = 0x212A then 'k' else c.toLower

/-- `compare(word, Qt::CaseInsensitive) == 0`, for a word of ASCII. -/
def isWord (s word : String) : Bool := s.toList.map foldCase == word.toList.map foldCase

theorem fitsInt_of_toInt {s : String} {n : Int} (hint : toInt s = some n) : FitsInt n :=
  of_decide_eq_true (Option.filter_eq_some_iff.mp hint).2

/-! ## A number is read back from its decimal digits -/

theorem not_isSpace_of_isDigit {c : Char} (h : c.isDigit = true) : isSpace c = false := by
  obtain ⟨hlo, hhi⟩ := Char.isDigit_iff_toNat.mp h
  change 48 ≤ c.toNat at hlo
  change c.toNat ≤ 57 at hhi
  simp only [isSpace, Bool.or_eq_false_iff, Bool.and_eq_false_iff, decide_eq_false_iff_not,
    beq_eq_false_iff_ne, ne_eq]
  omega

/-- A text without spaces is trimmed already. -/
theorem trimmed_of_forall {s : String} (h : ∀ c ∈ s.toList, isSpace c = false) :
    trimmed s = s.toList := by
  have hdrop {cs : List Char} (hcs : ∀ c ∈ cs, isSpace c = false) : cs.dropWhile isSpace = cs := by
    cases cs with
    | nil => rfl
    | cons c rest => rw [List.dropWhile_cons_of_neg (by simp [hcs c List.mem_cons_self])]
  rw [trimmed, hdrop h, hdrop fun c hc => h c (List.mem_reverse.mp hc), List.reverse_reverse]

theorem isDigit_of_mem_toDigits {n : Nat} {c : Char} (h : c ∈ Nat.toDigits 10 n) :
    c.isDigit = true :=
  Nat.isDigit_of_mem_toDigits (by omega) (by omega) h

theorem digits_toDigits (n : Nat) : digits (Nat.toDigits 10 n) = some n := by
  have hall : (Nat.toDigits 10 n).all Char.isDigit = true :=
    List.all_eq_true.mpr fun c hc => isDigit_of_mem_toDigits hc
  have hnumber := Nat.ofDigitChars_ten_toDigits (n := n)
  rw [Nat.ofDigitChars_eq_foldl] at hnumber
  simp only [digits, hall, Nat.toDigits_ne_nil, Bool.not_true, decide_false, Bool.or_self,
    Bool.false_eq_true, if_false, Option.some.injEq]
  exact hnumber

theorem trimmed_repr (n : Nat) : trimmed n.repr = Nat.toDigits 10 n := by
  rw [trimmed_of_forall, Nat.toList_repr]
  intro c hc
  rw [Nat.toList_repr] at hc
  exact not_isSpace_of_isDigit (isDigit_of_mem_toDigits hc)

/-- No sign stands before the digits. -/
theorem toDigits_ne_sign {n : Nat} {c : Char} (h : c.isDigit = false) (cs : List Char) :
    Nat.toDigits 10 n ≠ c :: cs := by
  intro hcs
  have hdigit := isDigit_of_mem_toDigits (hcs ▸ List.mem_cons_self : c ∈ Nat.toDigits 10 n)
  rw [h] at hdigit
  cases hdigit

theorem toUInt_repr {n : Nat} (h : n < 4294967296) : toUInt n.repr = some n := by
  rw [toUInt, trimmed_repr]
  split
  · next cs hcs => exact absurd hcs (toDigits_ne_sign (by decide) cs)
  · rw [digits_toDigits, Option.filter_some, if_pos (decide_eq_true h)]

theorem toInt_toString {n : Int} (h : FitsInt n) : toInt (toString n) = some n := by
  rw [Int.toString_eq_repr, Int.repr_eq_if]
  split
  · next hnonneg =>
    rw [toInt, trimmed_repr]
    split
    · next cs hcs => exact absurd hcs (toDigits_ne_sign (by decide) cs)
    · next cs hcs => exact absurd hcs (toDigits_ne_sign (by decide) cs)
    · rw [digits_toDigits]
      change Option.filter _ (some (n.toNat : Int)) = some n
      rw [Int.toNat_of_nonneg hnonneg, Option.filter_some, if_pos (decide_eq_true h)]
  · next hneg =>
    have hchars : ("-" ++ (-n).toNat.repr).toList = '-' :: Nat.toDigits 10 (-n).toNat := by
      rw [String.toList_append, Nat.toList_repr]
      rfl
    have htrimmed : trimmed ("-" ++ (-n).toNat.repr) = '-' :: Nat.toDigits 10 (-n).toNat := by
      rw [trimmed_of_forall, hchars]
      intro c hc
      rw [hchars] at hc
      obtain rfl | hc := List.mem_cons.mp hc
      · decide
      · exact not_isSpace_of_isDigit (isDigit_of_mem_toDigits hc)
    have hvalue : -((-n).toNat : Int) = n := by omega
    rw [toInt, htrimmed]
    simp only [digits_toDigits]
    change Option.filter _ (some (-((-n).toNat : Int))) = some n
    rw [hvalue, Option.filter_some, if_pos (decide_eq_true h)]

end QString
