import Mathlib.Data.Rat.Floor
import Mathlib.Tactic.Linarith
import Mathlib.Tactic.NormNum

/-!
# Numbers in C

Two functions of the language and its library that a driver leaves its numbers to, over exact
numbers: the conversion of a `double` to an unsigned integer, and `atoi`.

The conversion drops the fraction and is undefined where the rest does not fit (`toUint`). `atoi`
reads a string that goes on behind the number, and saturates at the ends of `int`.
-/

namespace RtVcom.Lib.CNumber

/-! ## The conversion -/

/-- The integral part, toward zero. -/
def trunc (q : ℚ) : ℤ := if q < 0 then ⌈q⌉ else ⌊q⌋

/-- The conversion to an unsigned integer of `w` bits. -/
def toUint (w : Nat) (q : ℚ) : Option (BitVec w) :=
  if 0 ≤ trunc q ∧ trunc q < 2 ^ w then some (BitVec.ofInt w (trunc q)) else none

theorem trunc_of_nonneg {q : ℚ} (h : 0 ≤ q) : trunc q = ⌊q⌋ := if_neg (not_lt.mpr h)

theorem trunc_nonneg {q : ℚ} (h : 0 ≤ q) : 0 ≤ trunc q := by
  rw [trunc_of_nonneg h]
  exact Int.floor_nonneg.mpr h

/-- The integral part of a number is below a bound where the number is. -/
theorem trunc_lt_iff {q : ℚ} (h : 0 ≤ q) {n : ℤ} : trunc q < n ↔ q < n := by
  rw [trunc_of_nonneg h, Int.floor_lt]

variable {w : Nat} {q : ℚ}

/-- Where it is defined, the conversion loses nothing but the fraction. -/
theorem toUint_eq_some {word : BitVec w} (h : toUint w q = some word) :
    (word.toNat : ℤ) = trunc q := by
  unfold toUint at h
  split at h
  · next hfits =>
    cases h
    rw [BitVec.toNat_ofInt, Int.emod_eq_of_lt hfits.1 (by exact_mod_cast hfits.2),
      Int.toNat_of_nonneg hfits.1]
  · cases h

/-- The conversion of a number that is not negative is defined where the number fits. -/
theorem toUint_isSome_iff (h : 0 ≤ q) : (∃ word, toUint w q = some word) ↔ q < 2 ^ w := by
  have hlt : trunc q < 2 ^ w ↔ q < 2 ^ w := by
    rw [trunc_lt_iff h]
    push_cast
    exact Iff.rfl
  unfold toUint
  split
  · next hfits => exact iff_of_true ⟨_, rfl⟩ (hlt.mp hfits.2)
  · next hfits => exact iff_of_false nofun fun hq => hfits ⟨trunc_nonneg h, hlt.mpr hq⟩

/-! ## `atoi` -/

/-- `isspace`. -/
def isSpace (c : BitVec 8) : Bool := c = 0x20 ∨ (0x09 ≤ c ∧ c ≤ 0x0D)

/-- `isdigit`. -/
def isDigit (c : BitVec 8) : Bool := 0x30 ≤ c ∧ c ≤ 0x39

/-- A digit behind a number. -/
def addDigit (v : Nat) (c : BitVec 8) : Nat := 10 * v + (c.toNat - 0x30)

/-- The nearest `int`. -/
def saturate (n : ℤ) : ℤ := max (-0x80000000) (min n 0x7FFFFFFF)

/-- The blanks in front of a number are skipped. -/
def skipSpace : List (BitVec 8) → Option (List (BitVec 8))
  | [] => none
  | c :: cs => if isSpace c then skipSpace cs else some (c :: cs)

/-- The digits are read up to the first character that is none. -/
def readDigits : List (BitVec 8) → Nat → Option Nat
  | [], _ => none
  | c :: cs, v => if isDigit c then readDigits cs (addDigit v c) else some v

/-- `atoi`, along the memory of its string. -/
def atoi (mem : List (BitVec 8)) : Option ℤ := do
  let mem ← skipSpace mem
  if mem.head? = some 0x2D then
    let v ← readDigits mem.tail 0
    some (saturate (-v))
  else if mem.head? = some 0x2B then
    let v ← readDigits mem.tail 0
    some (saturate v)
  else
    let v ← readDigits mem 0
    some (saturate v)

/-- The number in front of a text. -/
def digitsValue (t : List (BitVec 8)) : Nat := (t.takeWhile isDigit).foldl addDigit 0

/-- The number that a text stands for: blanks, a sign and digits, as far as they are there. -/
def intValue (t : List (BitVec 8)) : ℤ :=
  let t := t.dropWhile isSpace
  if t.head? = some 0x2D then saturate (-digitsValue t.tail)
  else if t.head? = some 0x2B then saturate (digitsValue t.tail)
  else saturate (digitsValue t)

theorem saturate_bounds (n : ℤ) : -0x80000000 ≤ saturate n ∧ saturate n ≤ 0x7FFFFFFF := by
  unfold saturate
  omega

/-- The number of a text is an `int`. -/
theorem intValue_bounds (t : List (BitVec 8)) :
    -0x80000000 ≤ intValue t ∧ intValue t ≤ 0x7FFFFFFF := by
  unfold intValue
  dsimp only
  split
  · exact saturate_bounds _
  split
  · exact saturate_bounds _
  · exact saturate_bounds _

section Nul

variable (rest : List (BitVec 8))

theorem skipSpace_nul (t : List (BitVec 8)) :
    skipSpace (t ++ 0 :: rest) = some (t.dropWhile isSpace ++ 0 :: rest) := by
  induction t with
  | nil => rfl
  | cons c t ih =>
    rw [List.cons_append, skipSpace, List.dropWhile_cons, ih]
    split
    · rfl
    · rfl

theorem readDigits_nul (t : List (BitVec 8)) (v : Nat) :
    readDigits (t ++ 0 :: rest) v = some ((t.takeWhile isDigit).foldl addDigit v) := by
  induction t generalizing v with
  | nil => rfl
  | cons c t ih =>
    rw [List.cons_append, readDigits, List.takeWhile_cons, ih]
    split
    · rfl
    · rfl

/-- A NUL ends every number, so `atoi` of a string is the number in front of its NUL. -/
theorem atoi_nul (t : List (BitVec 8)) : atoi (t ++ 0 :: rest) = some (intValue t) := by
  rw [atoi, skipSpace_nul, Option.bind_eq_bind, Option.bind_some, intValue]
  cases t.dropWhile isSpace with
  | nil => rfl
  | cons c t =>
    have hhead : (c :: t ++ 0 :: rest).head? = (c :: t).head? := rfl
    have htail : (c :: t ++ 0 :: rest).tail = t ++ 0 :: rest := rfl
    rw [hhead, htail, readDigits_nul, readDigits_nul, List.tail_cons]
    split
    · rfl
    split
    · rfl
    · rfl

end Nul

end RtVcom.Lib.CNumber
