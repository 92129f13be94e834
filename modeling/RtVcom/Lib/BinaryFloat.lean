import Mathlib.Data.Int.Log
import Mathlib.Data.Rat.Floor
import Mathlib.Tactic.FieldSimp
import Mathlib.Tactic.Linarith
import Mathlib.Tactic.NormNum
import Mathlib.Tactic.Ring

/-!
# Binary floating point

Numbers with a fixed count of binary digits and a lowest place, over any ordered field with a floor.
`round` goes to the nearest number of the format, to the one with an even last digit where two are
equally near. There is no highest number: what overflows is not asked here.

All that is said of rounding comes from one fact, that no number of the format is nearer
(`Format.round_nearest`): it keeps the numbers of the format, and it keeps order. The relative error
of one rounding is at most half a unit of the last digit (`Format.abs_round_sub_le`).
-/

namespace RtVcom.Lib.BinaryFloat

variable {R : Type*} [Field R] [LinearOrder R] [IsStrictOrderedRing R] [FloorRing R]

/-! ## The nearest integer -/

/-- The nearest integer, the even one in the middle of two. -/
def roundEven (x : R) : ℤ :=
  if 2 * Int.fract x < 1 ∨ 2 * Int.fract x = 1 ∧ ⌊x⌋ % 2 = 0 then ⌊x⌋ else ⌊x⌋ + 1

/-- No integer is nearer. -/
theorem roundEven_nearest (x : R) (k : ℤ) : |(roundEven x : R) - x| ≤ |(k : R) - x| := by
  have hfloor : (⌊x⌋ : R) = x - Int.fract x := (Int.self_sub_fract x).symm
  have hnonneg := Int.fract_nonneg x
  have hlt := Int.fract_lt_one x
  -- the integers below are as far as the floor, those above as far as the next one
  have hk : Int.fract x ≤ |(k : R) - x| ∧ k ≤ ⌊x⌋ ∨ 1 - Int.fract x ≤ |(k : R) - x| := by
    rcases le_or_gt k ⌊x⌋ with hle | hgt
    · have hcast : (k : R) ≤ ⌊x⌋ := Int.cast_le.mpr hle
      refine .inl ⟨?_, hle⟩
      rw [abs_of_nonpos (by linarith)]
      linarith
    · have hcast : ((⌊x⌋ + 1 : ℤ) : R) ≤ k := Int.cast_le.mpr hgt
      push_cast at hcast
      rw [abs_of_nonneg (by linarith)]
      exact .inr (by linarith)
  unfold roundEven
  split
  next hdown =>
    rw [hfloor, abs_of_nonpos (by linarith)]
    rcases hdown with hdown | ⟨hdown, -⟩ <;> rcases hk with ⟨hk, -⟩ | hk <;> linarith
  next hup =>
    push Not at hup
    push_cast
    rw [hfloor, abs_of_nonneg (by linarith)]
    rcases hk with ⟨hk, -⟩ | hk <;> linarith [hup.1]

/-- The nearest integer is half a unit away at most. -/
theorem abs_roundEven_sub_le (x : R) : |(roundEven x : R) - x| ≤ 1 / 2 := by
  have hfloor : (⌊x⌋ : R) = x - Int.fract x := (Int.self_sub_fract x).symm
  rcases le_or_gt (Int.fract x) (1 / 2) with hle | hgt
  · refine (roundEven_nearest x ⌊x⌋).trans ?_
    rw [hfloor, sub_sub_cancel_left, abs_neg, abs_of_nonneg (Int.fract_nonneg x)]
    exact hle
  · refine (roundEven_nearest x (⌊x⌋ + 1)).trans ?_
    have hlt := Int.fract_lt_one x
    push_cast
    rw [hfloor, abs_of_nonneg (by linarith)]
    linarith

/-- An integer that bounds a number bounds its rounding. -/
theorem abs_roundEven_le {x : R} {k : ℤ} (h : |x| ≤ k) : |roundEven x| ≤ k := by
  obtain ⟨hlow, hhigh⟩ := abs_le.mp h
  rw [abs_le]
  constructor
  · by_contra hlt
    have hlt : ((roundEven x : ℤ) : R) < ((-k : ℤ) : R) := Int.cast_lt.mpr (not_le.mp hlt)
    have hnear := roundEven_nearest x (-k)
    push_cast at hlt hnear
    rw [abs_of_nonpos (by linarith), abs_of_nonpos (by linarith)] at hnear
    linarith
  · by_contra hlt
    have hlt : (k : R) < roundEven x := Int.cast_lt.mpr (not_le.mp hlt)
    have hnear := roundEven_nearest x k
    rw [abs_of_nonneg (by linarith), abs_of_nonneg (by linarith)] at hnear
    linarith

/-! ## Formats -/

/-- How many binary digits a number has, and the lowest place of its last one. -/
structure Format where
  prec : Nat
  emin : ℤ
  prec_pos : 0 < prec

namespace Format

variable (F : Format)

/-- The numbers of a format. -/
def Holds (q : R) : Prop := ∃ m e : ℤ, F.emin ≤ e ∧ |m| ≤ 2 ^ F.prec ∧ q = m * 2 ^ e

/-- The place of the last digit. -/
def place (q : R) : ℤ := max F.emin (Int.log 2 |q| - (F.prec - 1))

/-- Rounding to the nearest. -/
def round (q : R) : R := roundEven (q / 2 ^ F.place q) * 2 ^ F.place q

end Format

theorem two_zpow_pos (e : ℤ) : (0 : R) < 2 ^ e := zpow_pos two_pos e

theorem two_zpow_ne (e : ℤ) : (2 : R) ^ e ≠ 0 := ne_of_gt (two_zpow_pos e)

/-- A power that is no larger than 1 is below whatever is not. -/
theorem two_zpow_le {e : ℤ} {x : R} (he : e ≤ 0) (hx : 1 ≤ x) : 2 ^ e ≤ x :=
  (zpow_le_one_of_nonpos₀ one_le_two he).trans hx

/-- A power is a multiple of every lower one. -/
theorem two_zpow_eq {e e' : ℤ} (h : e ≤ e') :
    (2 : R) ^ e' = ((2 ^ (e' - e).toNat : ℤ) : R) * 2 ^ e := by
  push_cast
  rw [← zpow_natCast, ← zpow_add₀ two_ne_zero, Int.toNat_of_nonneg (by omega), sub_add_cancel]

theorem abs_mul_two_zpow (x : R) (e : ℤ) : |x * 2 ^ e| = |x| * 2 ^ e := by
  rw [abs_mul, abs_of_pos (two_zpow_pos (R := R) e)]

/-- A number of `p` digits is at most a power of two. -/
theorem abs_le_two_zpow {m e : ℤ} {p : Nat} (hm : |m| ≤ 2 ^ p) :
    |(m : R) * 2 ^ e| ≤ 2 ^ (p + e) := by
  have hm : |(m : R)| ≤ 2 ^ p := by exact_mod_cast hm
  rw [abs_mul_two_zpow, zpow_add₀ two_ne_zero, zpow_natCast]
  exact mul_le_mul_of_nonneg_right hm (le_of_lt (two_zpow_pos e))

namespace Format

variable {F : Format} {q a : R}

/-- Distances in units of the last place. -/
theorem abs_sub_eq (k : ℤ) : |(k : R) * 2 ^ F.place q - q| =
    |(k : R) - q / 2 ^ F.place q| * 2 ^ F.place q := by
  rw [← abs_mul_two_zpow, sub_mul, div_mul_cancel₀ _ (two_zpow_ne _)]

/-- What is a multiple of the last place is not nearer than the rounding. -/
theorem round_nearest_of_eq {k : ℤ} (ha : a = k * 2 ^ F.place q) : |F.round q - q| ≤ |a - q| := by
  rw [ha, round, abs_sub_eq, abs_sub_eq]
  exact mul_le_mul_of_nonneg_right (roundEven_nearest _ k) (le_of_lt (two_zpow_pos _))

/-- The power of two below a number, with its sign, is not nearer than the rounding. -/
theorem round_nearest_power (hq : q ≠ 0) (hplace : F.place q ≤ Int.log 2 |q|) :
    |F.round q - q| ≤ |q| - 2 ^ Int.log 2 |q| := by
  have hle : (2 : R) ^ Int.log 2 |q| ≤ |q| := by
    exact_mod_cast Int.zpow_log_le_self one_lt_two (abs_pos.mpr hq)
  have heq := two_zpow_eq (R := R) hplace
  rcases lt_or_gt_of_ne hq with hneg | hpos
  · rw [abs_of_neg hneg] at hle heq hplace ⊢
    have hnear := round_nearest_of_eq (F := F) (q := q) (a := -2 ^ Int.log 2 (-q))
      (k := -2 ^ (Int.log 2 (-q) - F.place q).toNat) (by rw [heq]; push_cast; ring)
    rw [abs_of_nonneg (by linarith : 0 ≤ -2 ^ Int.log 2 (-q) - q)] at hnear
    linarith
  · rw [abs_of_pos hpos] at hle heq hplace ⊢
    have hnear := round_nearest_of_eq (F := F) (q := q) (a := 2 ^ Int.log 2 q) heq
    rw [abs_of_nonpos (by linarith : 2 ^ Int.log 2 q - q ≤ 0)] at hnear
    linarith

/-- No number of the format is nearer. -/
theorem round_nearest (ha : F.Holds a) : |F.round q - q| ≤ |a - q| := by
  obtain ⟨m, e, he, hm, rfl⟩ := ha
  rcases le_or_gt (F.place q) e with hle | hlt
  · refine round_nearest_of_eq (k := m * 2 ^ (e - F.place q).toNat) ?_
    rw [two_zpow_eq hle]
    push_cast
    ring
  · -- digits that `q` has no room for: the power of two below `q` lies between
    have hplace : F.place q = Int.log 2 |q| - (F.prec - 1) := by
      refine max_eq_right (le_of_not_gt fun hgt => ?_)
      rw [place, max_eq_left (le_of_lt hgt)] at hlt
      omega
    have hprec := F.prec_pos
    rcases eq_or_ne q 0 with rfl | hq
    · have hzero := round_nearest_of_eq (F := F) (q := (0 : R)) (a := 0) (k := 0) (by simp)
      rw [sub_self, abs_zero] at hzero
      exact hzero.trans (abs_nonneg _)
    · have hsmall : |(m : R) * 2 ^ e| ≤ 2 ^ Int.log 2 |q| :=
        (abs_le_two_zpow hm).trans (zpow_le_zpow_right₀ one_le_two (by omega))
      have hpower := round_nearest_power (F := F) hq (by omega)
      have htriangle := abs_sub_abs_le_abs_sub q ((m : R) * 2 ^ e)
      rw [abs_sub_comm] at htriangle
      linarith

/-- What is rounded is a number of the format. -/
theorem holds_round (q : R) : F.Holds (F.round q) := by
  refine ⟨_, _, le_max_left .., ?_, rfl⟩
  have hpos := two_zpow_pos (R := R) (F.place q)
  have hlog : |q| < 2 ^ (Int.log 2 |q| + 1) := by
    exact_mod_cast Int.lt_zpow_succ_log_self one_lt_two |q|
  have hplace : Int.log 2 |q| - (F.prec - 1) ≤ F.place q := le_max_right ..
  refine abs_roundEven_le (le_of_lt ?_)
  rw [abs_div, abs_of_pos hpos, div_lt_iff₀ hpos]
  push_cast
  rw [← zpow_natCast, ← zpow_add₀ two_ne_zero]
  exact hlog.trans_le (zpow_le_zpow_right₀ one_le_two (by omega))

/-- A number of the format stays. -/
theorem round_of_holds (h : F.Holds q) : F.round q = q := by
  have hnear := round_nearest (q := q) h
  rw [sub_self, abs_zero] at hnear
  exact sub_eq_zero.mp (abs_nonpos_iff.mp hnear)

/-- A number of the format bounds the roundings of what it bounds. -/
theorem le_round (ha : F.Holds a) (h : a ≤ q) : a ≤ F.round q := by
  by_contra hlt
  have hnear := round_nearest (q := q) ha
  rw [abs_of_nonpos (by linarith), abs_of_nonpos (by linarith)] at hnear
  linarith

theorem round_le (ha : F.Holds a) (h : q ≤ a) : F.round q ≤ a := by
  by_contra hlt
  have hnear := round_nearest (q := q) ha
  rw [abs_of_nonneg (by linarith), abs_of_nonneg (by linarith)] at hnear
  linarith

/-- The error of one rounding, relative to a number that has all its digits. -/
theorem abs_round_sub_le (h : 2 ^ (F.emin + F.prec - 1) ≤ |q|) :
    |F.round q - q| ≤ |q| / 2 ^ F.prec := by
  have hpos : 0 < |q| := (two_zpow_pos _).trans_le h
  have hlog : F.emin + F.prec - 1 ≤ Int.log 2 |q| :=
    (Int.zpow_le_iff_le_log one_lt_two hpos).mp (by exact_mod_cast h)
  have hle : (2 : R) ^ Int.log 2 |q| ≤ |q| := by
    exact_mod_cast Int.zpow_log_le_self one_lt_two hpos
  have hplace : F.place q = Int.log 2 |q| - (F.prec - 1) := max_eq_right (by omega)
  calc |F.round q - q|
      = |(roundEven (q / 2 ^ F.place q) : R) - q / 2 ^ F.place q| * 2 ^ F.place q :=
        abs_sub_eq _
    _ ≤ 1 / 2 * 2 ^ F.place q :=
        mul_le_mul_of_nonneg_right (abs_roundEven_sub_le _) (le_of_lt (two_zpow_pos _))
    _ = 2 ^ Int.log 2 |q| / 2 ^ F.prec := by
        rw [hplace, eq_div_iff (by positivity), ← zpow_natCast, mul_assoc,
          ← zpow_add₀ two_ne_zero, one_div, ← zpow_neg_one, ← zpow_add₀ two_ne_zero]
        congr 1
        omega
    _ ≤ |q| / 2 ^ F.prec := by gcongr

/-! ## Numbers that a format holds -/

omit [LinearOrder R] [IsStrictOrderedRing R] [FloorRing R] in
/-- An integer with no more digits than the format has is one of its numbers. -/
theorem holds_intCast (hemin : F.emin ≤ 0) {m : ℤ} (hm : |m| ≤ 2 ^ F.prec) : F.Holds (m : R) :=
  ⟨m, 0, hemin, hm, by rw [zpow_zero, mul_one]⟩

/-- A quotient by a power of two loses no digit unless the number is at the lowest places. -/
theorem holds_div_two_pow {k : Nat} (h : F.Holds q) (hq : 2 ^ (F.emin + F.prec + k) ≤ |q|) :
    F.Holds (q / 2 ^ k) := by
  obtain ⟨m, e, -, hm, rfl⟩ := h
  refine ⟨m, e - k, ?_, hm, ?_⟩
  · have hexp := (zpow_le_zpow_iff_right₀ (one_lt_two (α := R))).mp (hq.trans (abs_le_two_zpow hm))
    omega
  · rw [zpow_sub₀ two_ne_zero, zpow_natCast]
    ring

end Format

/-! ## `double` -/

/-- The format of `double`. -/
def binary64 : Format := { prec := 53, emin := -1074, prec_pos := by decide }

/-- A `double` that is a number. -/
abbrev Double := {q : ℚ // binary64.Holds q}

namespace Double

/-- The nearest one. -/
def ofRat (q : ℚ) : Double := ⟨binary64.round q, Format.holds_round q⟩

instance : Add Double := ⟨fun x y => ofRat (x.val + y.val)⟩

instance : Mul Double := ⟨fun x y => ofRat (x.val * y.val)⟩

instance : Div Double := ⟨fun x y => ofRat (x.val / y.val)⟩

theorem val_div (x y : Double) : (x / y).val = binary64.round (x.val / y.val) := rfl

/-- An integer of up to 53 digits is a `double`. -/
theorem holds_intCast {m : ℤ} (h : |m| ≤ 2 ^ 53) : binary64.Holds (m : ℚ) :=
  Format.holds_intCast (by decide) h

theorem holds_natCast {n : Nat} (h : n ≤ 2 ^ 53) : binary64.Holds (n : ℚ) :=
  holds_intCast (m := n) (by rw [Nat.abs_cast]; exact_mod_cast h)

theorem val_ofInt {m : ℤ} (h : |m| ≤ 2 ^ 53) : (ofRat m).val = m :=
  Format.round_of_holds (holds_intCast h)

end Double

end RtVcom.Lib.BinaryFloat
