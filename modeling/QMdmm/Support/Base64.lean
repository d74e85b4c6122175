import Mathlib.Algebra.Group.Nat.Defs
import Mathlib.Data.List.Basic

/-! Bytes as the text of their Base64 digits, and texts as their UTF-8. -/

namespace Base64

/-- The digits, `A` to `Z`, `a` to `z`, `0` to `9`, `+` and `/`. -/
def digit (n : Nat) : UInt8 :=
  if n < 26 then (65 + n).toUInt8
  else if n < 52 then (71 + n).toUInt8
  else if n < 62 then (n - 4).toUInt8
  else if n = 62 then 43
  else 47

def value (c : UInt8) : Option Nat :=
  if 65 ≤ c ∧ c ≤ 90 then some (c.toNat - 65)
  else if 97 ≤ c ∧ c ≤ 122 then some (c.toNat - 71)
  else if 48 ≤ c ∧ c ≤ 57 then some (c.toNat + 4)
  else if c = 43 then some 62
  else if c = 47 then some 63
  else none

/-- `toBase64`: four digits for three bytes, the last ones padded with `=`. -/
def encode : List UInt8 → List UInt8
  | a :: b :: c :: rest =>
    digit (a.toNat / 4) :: digit (a.toNat % 4 * 16 + b.toNat / 16) ::
      digit (b.toNat % 16 * 4 + c.toNat / 64) :: digit (c.toNat % 64) :: encode rest
  | [a, b] =>
    [digit (a.toNat / 4), digit (a.toNat % 4 * 16 + b.toNat / 16), digit (b.toNat % 16 * 4), 61]
  | [a] => [digit (a.toNat / 4), digit (a.toNat % 4 * 16), 61, 61]
  | [] => []

/-- The bytes of a sequence of six bits each, after some bits that have not made up a byte. -/
def bytes (buffer bits : Nat) : List Nat → List UInt8
  | [] => []
  | n :: rest =>
    if 2 ≤ bits then
      ((buffer * 64 + n) / 2 ^ (bits - 2)).toUInt8 ::
        bytes ((buffer * 64 + n) % 2 ^ (bits - 2)) (bits - 2) rest
    else bytes (buffer * 64 + n) (bits + 6) rest

/-- `fromBase64`: what is no digit is passed over, and so are bits that make up no byte. -/
def decode (text : List UInt8) : List UInt8 := bytes 0 0 (text.filterMap value)

theorem value_digit {n : Nat} (h : n < 64) : value (digit n) = some n := by
  have hall : ∀ n : Fin 64, value (digit n.1) = some n.1 := by decide
  exact hall ⟨n, h⟩

theorem decode_digit {n : Nat} (h : n < 64) (rest : List UInt8) :
    (digit n :: rest).filterMap value = n :: rest.filterMap value :=
  List.filterMap_cons_some (value_digit h)

theorem toUInt8_eq {n : Nat} {a : UInt8} (h : n = a.toNat) : n.toUInt8 = a := by
  subst h
  exact UInt8.ofNat_toNat

/-- Two digits are a byte and four bits. -/
theorem bytes_two (a : UInt8) {n : Nat} (hn : n < 16) (rest : List Nat) :
    bytes 0 0 (a.toNat / 4 :: (a.toNat % 4 * 16 + n) :: rest) = a :: bytes n 4 rest := by
  have hbyte : (0 * 64 + a.toNat / 4) * 64 + (a.toNat % 4 * 16 + n) = a.toNat * 16 + n := by omega
  simp only [bytes, hbyte, if_false, Nat.reduceAdd, Nat.reduceLeDiff, if_true, Nat.reduceSub,
    Nat.reducePow]
  refine congrArg₂ _ (toUInt8_eq (by omega)) ?_
  congr 1
  omega

/-- With the next digit they are another byte and two bits. -/
theorem bytes_three (b : UInt8) {n : Nat} (hn : n < 4) (rest : List Nat) :
    bytes (b.toNat / 16) 4 ((b.toNat % 16 * 4 + n) :: rest) = b :: bytes n 2 rest := by
  have hb := b.toNat_lt
  have hbyte : b.toNat / 16 * 64 + (b.toNat % 16 * 4 + n) = b.toNat * 4 + n := by omega
  simp only [bytes, hbyte, Nat.reduceLeDiff, if_true, Nat.reduceSub, Nat.reducePow]
  refine congrArg₂ _ (toUInt8_eq (by omega)) ?_
  congr 1
  omega

/-- And with the fourth digit nothing is left. -/
theorem bytes_four (c : UInt8) (rest : List Nat) :
    bytes (c.toNat / 64) 2 (c.toNat % 64 :: rest) = c :: bytes 0 0 rest := by
  have hbyte : c.toNat / 64 * 64 + c.toNat % 64 = c.toNat := by omega
  simp only [bytes, hbyte, Nat.reduceLeDiff, if_true, Nat.reduceSub, Nat.pow_zero, Nat.div_one,
    Nat.mod_one]
  exact congrArg (· :: _) (toUInt8_eq rfl)

/-- What has been encoded is read back. -/
theorem decode_encode (l : List UInt8) : decode (encode l) = l := by
  have hpad : [(61 : UInt8)].filterMap value = [] := by decide
  have hpads : [(61 : UInt8), 61].filterMap value = [] := by decide
  induction l using encode.induct with
  | case1 a b c rest ih =>
    have ha := a.toNat_lt
    have hb := b.toNat_lt
    have hc := c.toNat_lt
    rw [encode, decode, decode_digit (by omega), decode_digit (by omega), decode_digit (by omega),
      decode_digit (by omega), bytes_two a (by omega), bytes_three b (by omega), bytes_four]
    exact congrArg (fun l => a :: b :: c :: l) ih
  | case2 a b =>
    have ha := a.toNat_lt
    have hb := b.toNat_lt
    have hlast := bytes_three b (show 0 < 4 by omega) []
    rw [encode, decode, decode_digit (by omega), decode_digit (by omega), decode_digit (by omega),
      hpad, bytes_two a (by omega)]
    exact congrArg (a :: ·) hlast
  | case3 a =>
    have ha := a.toNat_lt
    have hlast := bytes_two a (show 0 < 16 by omega) []
    rw [encode, decode, decode_digit (by omega), decode_digit (by omega), hpads]
    exact hlast
  | case4 => rfl

end Base64

namespace QString

def toUtf8 (s : String) : List UInt8 := s.toList.flatMap String.utf8EncodeChar

/-- A byte that begins no character stands for itself as a replacement character. The
first argument bounds the number of characters. -/
def decodeUtf8 : Nat → List UInt8 → List Char
  | 0, _ => []
  | _, [] => []
  | n + 1, b :: rest =>
    match (b :: rest).toByteArray.utf8DecodeChar? 0 with
    | some c => c :: decodeUtf8 n ((b :: rest).drop c.utf8Size)
    | none => '\uFFFD' :: decodeUtf8 n rest

/-- `fromUtf8`, which drops a byte order mark. -/
def fromUtf8 (bytes : List UInt8) : String :=
  .ofList (decodeUtf8 bytes.length (if [0xEF, 0xBB, 0xBF] <+: bytes then bytes.drop 3 else bytes))

/-- `toLatin1`: each UTF-16 unit that is none of Latin-1 is replaced. -/
def toLatin1 (s : String) : List UInt8 :=
  s.toList.flatMap fun c =>
    if c.toNat < 256 then [c.toNat.toUInt8] else if c.toNat < 65536 then [63] else [63, 63]

def fromLatin1 (bytes : List UInt8) : String := .ofList (bytes.map fun b => Char.ofNat b.toNat)

theorem toLatin1_fromLatin1 (bytes : List UInt8) : toLatin1 (fromLatin1 bytes) = bytes := by
  have hread {n : Nat} (hn : n < 256) : (Char.ofNat n).toNat = n := by
    rw [Char.ofNat, dif_pos (.inl (by omega))]
    rfl
  induction bytes with
  | nil => rfl
  | cons b rest ih =>
    have hlt := b.toNat_lt
    simp only [toLatin1, fromLatin1, String.toList_ofList, List.map_cons, List.flatMap_cons] at ih ⊢
    rw [ih, hread hlt, if_pos hlt]
    exact congrArg (· :: rest) (Base64.toUInt8_eq rfl)

theorem decodeUtf8_toUtf8 {n : Nat} {cs : List Char} (h : cs.length ≤ n) :
    decodeUtf8 n (cs.flatMap String.utf8EncodeChar) = cs := by
  induction n generalizing cs with
  | zero =>
    obtain rfl := List.length_eq_zero_iff.mp (Nat.le_zero.mp h)
    rfl
  | succ n ih =>
    cases cs with
    | nil => rfl
    | cons c rest =>
      have hsize := String.length_utf8EncodeChar c
      obtain ⟨b, tail, htail⟩ := List.exists_cons_of_ne_nil (String.utf8EncodeChar_ne_nil (c := c))
      have hread := ByteArray.utf8DecodeChar?_utf8EncodeChar_append (c := c)
        (b := (rest.flatMap String.utf8EncodeChar).toByteArray)
      rw [← List.toByteArray_append] at hread
      have hdrop : (String.utf8EncodeChar c ++ rest.flatMap String.utf8EncodeChar).drop c.utf8Size =
          rest.flatMap String.utf8EncodeChar := by
        rw [← hsize, List.drop_left]
      rw [List.flatMap_cons]
      rw [htail, List.cons_append] at hread hdrop ⊢
      simp only [decodeUtf8, hread, hdrop]
      rw [ih (Nat.le_of_succ_le_succ h)]

theorem length_le_flatMap (cs : List Char) : cs.length ≤ (cs.flatMap String.utf8EncodeChar).length := by
  induction cs with
  | nil => exact Nat.le_refl 0
  | cons c rest ih =>
    have hsize := String.length_utf8EncodeChar c
    have hpos := c.utf8Size_pos
    rw [List.flatMap_cons, List.length_cons, List.length_append]
    omega

/-- A text is read back from its UTF-8, but for a byte order mark that it begins with. -/
theorem fromUtf8_toUtf8 {s : String} (h : s.toList.head? ≠ some '\uFEFF') :
    fromUtf8 (toUtf8 s) = s := by
  have hmark : ¬ [0xEF, 0xBB, 0xBF] <+: toUtf8 s := by
    rintro ⟨tail, htail⟩
    apply h
    have hread := ByteArray.utf8DecodeChar?_utf8EncodeChar_append (c := '\uFEFF')
      (b := tail.toByteArray)
    have hencoded : String.utf8EncodeChar '\uFEFF' = [0xEF, 0xBB, 0xBF] := by decide
    rw [← List.toByteArray_append, hencoded, htail, toUtf8] at hread
    cases hchars : s.toList with
    | nil =>
      rw [toUtf8, hchars] at htail
      cases htail
    | cons c rest =>
      rw [hchars, List.flatMap_cons, List.toByteArray_append,
        ByteArray.utf8DecodeChar?_utf8EncodeChar_append] at hread
      rw [List.head?_cons, hread]
  rw [fromUtf8, if_neg hmark, toUtf8, decodeUtf8_toUtf8 (length_le_flatMap _), String.ofList_toList]

/-- And with the mark it is read back without. -/
theorem fromUtf8_toUtf8_mark (s : String) : fromUtf8 (toUtf8 ("\uFEFF" ++ s)) = s := by
  have hutf8 : toUtf8 ("\uFEFF" ++ s) = [0xEF, 0xBB, 0xBF] ++ toUtf8 s := by
    rw [toUtf8, String.toList_append, List.flatMap_append]
    rfl
  have hlength := length_le_flatMap s.toList
  rw [hutf8, fromUtf8, if_pos (List.prefix_append _ _)]
  change String.ofList (decodeUtf8 _ (toUtf8 s)) = s
  rw [toUtf8, decodeUtf8_toUtf8, String.ofList_toList]
  rw [List.length_append]
  omega

end QString
