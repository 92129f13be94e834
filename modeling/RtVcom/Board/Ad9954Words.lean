import RtVcom.Board.Ad9954
import RtVcom.Lib.BinaryFloat
import RtVcom.Lib.CNumber

/-!
# The words of the AD9954

The numbers that the driver computes in `double` before it sends them: the instance `doubleFloats`
of what the framing left open, with every operation rounded. A word is the integral part of a
product or a quotient, so what there is to ask is whether that fits the type it is narrowed to.
`exactFloats` leaves the words of the RAM table unrounded, for what is asked of their range.

The frequency of the RAM table is divided down from the clock of the chip to the repetition of the
table, `RAMP_SPEED_NUM`. The two functions that send it test their argument in different types
against different bounds. `rampSpeed_rounded` says that what passes the tests fits its word, that
the two functions agree on every `int`, and how good the quotient is: of its four operations only
the division by the frequency rounds. Where that one rounds up to a multiple of 1024 the table
repeats a little slower than it was asked to (`rampSpeed_carried`), by less than one part in 2^53;
no integer is such a frequency.
-/

namespace RtVcom.Board.Ad9954

open RtVcom.Lib.CNumber
open RtVcom.Lib.BinaryFloat

/-! ## The numbers -/

/-- `fs`, the clock of the chip in MHz: `fosc * PLL_MULTIPLIER`. -/
def fs : Nat := 40 * 10

/-- `fH_Num`. -/
def fHNum : ℚ := 1073741824 / 100000000

/-- `RAMP_SPEED_NUM`, before its conversion. -/
def rampSpeedNum (f : Double) : Double :=
  .ofRat fs * .ofRat 1000000 / .ofRat 4 / f / .ofRat ad9954RamSize

/-- An entry of the table, with `s` for the sine. -/
def ramFreq (f0 fp : BitVec 32) (s : ℚ) : ℚ := f0.toNat + fp.toNat * s

/-- The driver in `double`, with a table of sines. A conversion that is not defined gives any
word; what is too large for a `double` is out of range either way. -/
def doubleFloats (sine : Nat → Double) : Floats Double where
  getFtw f := (toUint 32 (Double.ofRat fHNum * f).val).getD 0
  ramFreq f0 fp i := .ofRat f0.toNat + .ofRat fp.toNat * sine i
  outOfRange f := decide (97000 < f.val ∨ f.val < 3 / 2)
  rampSpeedNum f := (toUint 16 (rampSpeedNum f).val).getD 0
  sweepWord f := (toUint 32 (Double.ofRat (107374 / 10000) * f).val).getD 0
  ofUint32 n := .ofRat n.toNat

/-- The driver in `double`, but with exact fractions for the table and its words. -/
def exactFloats (sine : Nat → ℚ) : Floats ℚ :=
  let fl := doubleFloats fun i => .ofRat (sine i)
  { getFtw := fun f => (toUint 32 (fHNum * f)).getD 0
    ramFreq := fun f0 fp i => ramFreq f0 fp (sine i)
    outOfRange := fun f => fl.outOfRange (.ofRat f)
    rampSpeedNum := fun f => fl.rampSpeedNum (.ofRat f)
    sweepWord := fun f => fl.sweepWord (.ofRat f)
    ofUint32 := fun n => (fl.ofUint32 n).val }

/-! ## The repetition of the table -/

/-- The word of `ad9954_change_speed`. -/
def speedWord (sine : Nat → Double) (inputFreq : Double) : BitVec 16 :=
  if (doubleFloats sine).outOfRange inputFreq then 0xFFFF
  else (doubleFloats sine).rampSpeedNum inputFreq

/-- The quotient of a frequency, rounded: the only operation of `RAMP_SPEED_NUM` that rounds. -/
def rampQuotient (f : Double) : ℚ := binary64.round (100000000 / f.val)

section Quotient

variable {f : Double}

/-- What bounds the exact quotient bounds the rounded one. -/
theorem le_rampQuotient {n : Nat} (hn : n ≤ 2 ^ 53) (h : n ≤ 100000000 / f.val) :
    (n : ℚ) ≤ rampQuotient f :=
  Format.le_round (Double.holds_natCast hn) h

theorem rampQuotient_le {n : Nat} (hn : n ≤ 2 ^ 53) (h : 100000000 / f.val ≤ n) :
    rampQuotient f ≤ n :=
  Format.round_le (Double.holds_natCast hn) h

/-- Neither below a unit of the table nor above 16 bits of such units. -/
theorem rampQuotient_bounds (hlow : 3 / 2 ≤ f.val) (hhigh : f.val ≤ 97000) :
    1024 ≤ rampQuotient f ∧ rampQuotient f < 1024 * 2 ^ 16 := by
  have hpos : 0 < f.val := by linarith
  have hge : (1024 : ℕ) ≤ 100000000 / f.val := by
    rw [le_div_iff₀ hpos]
    push_cast
    linarith
  have hle : 100000000 / f.val ≤ (66666667 : ℕ) := by
    rw [div_le_iff₀ hpos]
    push_cast
    linarith
  have hfloor := le_rampQuotient (by norm_num) hge
  have hceil := rampQuotient_le (by norm_num) hle
  push_cast at hfloor hceil
  exact ⟨hfloor, by linarith⟩

/-- The products are exact, and so is the division by a power of two. -/
theorem rampSpeedNum_val (hlow : 3 / 2 ≤ f.val) (hhigh : f.val ≤ 97000) :
    (rampSpeedNum f).val = rampQuotient f / 1024 := by
  have hclock : (Double.ofRat fs * .ofRat 1000000 / .ofRat 4).val = 100000000 := by
    decide +kernel
  have hsize : (Double.ofRat ad9954RamSize).val = 2 ^ 10 := by
    decide +kernel
  have hbig := (rampQuotient_bounds hlow hhigh).1
  have hholds : binary64.Holds (rampQuotient f / 2 ^ 10) := by
    refine Format.holds_div_two_pow (Format.holds_round _) ?_
    change _ ≤ |rampQuotient f|
    rw [abs_of_nonneg (by linarith)]
    exact two_zpow_le (by decide) (by linarith)
  rw [rampSpeedNum, Double.val_div, Double.val_div, hclock, hsize]
  change binary64.round (rampQuotient f / 2 ^ 10) = _
  rw [Format.round_of_holds hholds]
  norm_num

/-- The error of the division. -/
theorem rampQuotient_error (hlow : 3 / 2 ≤ f.val) (hhigh : f.val ≤ 97000) :
    |rampQuotient f - 100000000 / f.val| ≤ 100000000 / f.val / 2 ^ 53 := by
  have hpos : 0 < f.val := by linarith
  have hone : 1 ≤ 100000000 / f.val := by
    rw [le_div_iff₀ hpos]
    linarith
  have herror := Format.abs_round_sub_le (F := binary64) (q := 100000000 / f.val) (by
    rw [abs_of_nonneg (by linarith)]
    exact two_zpow_le (by decide) hone)
  rwa [abs_of_nonneg (by linarith : 0 ≤ 100000000 / f.val)] at herror

end Quotient

section Speed

variable (sine : Nat → Double) {f : Double}

/-- The word of a frequency in range is its quotient, without the fraction and without a loss. -/
theorem speedWord_of_mem (hlow : 3 / 2 ≤ f.val) (hhigh : f.val ≤ 97000) :
    toUint 16 (rampSpeedNum f).val = some (speedWord sine f) ∧
      ((speedWord sine f).toNat : ℤ) = ⌊rampQuotient f / 1024⌋ := by
  obtain ⟨hone, hlt⟩ := rampQuotient_bounds hlow hhigh
  have hval := rampSpeedNum_val hlow hhigh
  have hnonneg : 0 ≤ (rampSpeedNum f).val := by
    rw [hval]
    linarith
  obtain ⟨word, hword⟩ := (toUint_isSome_iff (w := 16) hnonneg).mpr (by rw [hval]; linarith)
  have hrange : ¬(97000 < f.val ∨ f.val < 3 / 2) := by
    rintro (h | h)
    · linarith
    · linarith
  have hspeed : speedWord sine f = word := by
    simp only [speedWord, doubleFloats, decide_eq_true_eq, if_neg hrange, hword, Option.getD_some]
  rw [hspeed]
  refine ⟨hword, ?_⟩
  rw [toUint_eq_some hword, trunc_of_nonneg hnonneg, hval]

/-- The word of a frequency out of range. -/
theorem speedWord_of_not_mem (h : 97000 < f.val ∨ f.val < 3 / 2) : speedWord sine f = 0xFFFF := by
  simp only [speedWord, doubleFloats, decide_eq_true_eq, if_pos h]

/-- No word is 0. -/
theorem speedWord_pos (f : Double) : 1 ≤ (speedWord sine f).toNat := by
  by_cases h : 97000 < f.val ∨ f.val < 3 / 2
  · rw [speedWord_of_not_mem sine h]
    decide
  · push Not at h
    obtain ⟨-, hfloor⟩ := speedWord_of_mem sine h.2 h.1
    have hone : 1 ≤ ⌊rampQuotient f / 1024⌋ := by
      rw [Int.le_floor]
      push_cast
      linarith [(rampQuotient_bounds h.2 h.1).1]
    omega

/-- Nor is the repetition divided by 0. -/
theorem speedWord_cast_pos (f : Double) : (0 : ℚ) < (speedWord sine f).toNat := by
  exact_mod_cast speedWord_pos sine f

/-- The quotient lies between the word and the next larger one, in units of the table. -/
theorem speedWord_between (hlow : 3 / 2 ≤ f.val) (hhigh : f.val ≤ 97000) :
    1024 * ((speedWord sine f).toNat : ℚ) ≤ rampQuotient f ∧
      rampQuotient f < 1024 * ((speedWord sine f).toNat + 1) := by
  obtain ⟨-, hfloor⟩ := speedWord_of_mem sine hlow hhigh
  have hcast : ((speedWord sine f).toNat : ℚ) = (⌊rampQuotient f / 1024⌋ : ℚ) := by
    exact_mod_cast congrArg (Int.cast (R := ℚ)) hfloor
  have hle := Int.floor_le (rampQuotient f / 1024)
  have hlt := Int.lt_floor_add_one (rampQuotient f / 1024)
  rw [hcast]
  constructor
  · linarith
  · linarith

/-- The repetition behind the next larger word is below what was asked for: rounding does not go
past a number of the format. -/
theorem speedWord_next (hlow : 3 / 2 ≤ f.val) (hhigh : f.val ≤ 97000) :
    9765625 / 100 / ((speedWord sine f).toNat + 1 : ℚ) < f.val := by
  have hlt := (speedWord_between sine hlow hhigh).2
  have hword := (speedWord sine f).isLt
  have hpos : 0 < f.val := by linarith
  rw [div_lt_iff₀ (by positivity)]
  by_contra hge
  have hle : ((1024 * ((speedWord sine f).toNat + 1) : ℕ) : ℚ) ≤ 100000000 / f.val := by
    rw [le_div_iff₀ hpos]
    push_cast
    linarith [not_lt.mp hge, mul_comm f.val ((speedWord sine f).toNat + 1 : ℚ)]
  have hround := le_rampQuotient (by omega) hle
  push_cast at hround
  linarith

/-- The repetition is below what was asked for only where the quotient was rounded up to a whole
number of units of the table. -/
theorem speedWord_or (hlow : 3 / 2 ≤ f.val) (hhigh : f.val ≤ 97000) :
    f.val ≤ 9765625 / 100 / (speedWord sine f).toNat ∨
      rampQuotient f = 1024 * (speedWord sine f).toNat := by
  have hle := (speedWord_between sine hlow hhigh).1
  have hword := (speedWord sine f).isLt
  have hpos : 0 < f.val := by linarith
  have hwordPos := speedWord_cast_pos sine f
  rcases le_or_gt (1024 * ((speedWord sine f).toNat : ℚ)) (100000000 / f.val) with hexact | habove
  · left
    rw [le_div_iff₀ hpos] at hexact
    rw [le_div_iff₀ hwordPos]
    linarith
  · right
    refine le_antisymm ?_ hle
    have hround := rampQuotient_le (f := f) (n := 1024 * (speedWord sine f).toNat) (by omega)
      (by push_cast; exact le_of_lt habove)
    push_cast at hround
    exact hround

/-- What was asked for exceeds the repetition by one part in 2^53 at most. -/
theorem speedWord_near (hlow : 3 / 2 ≤ f.val) (hhigh : f.val ≤ 97000) :
    f.val ≤ 9765625 / 100 / (speedWord sine f).toNat * (1 + 1 / 2 ^ 53) := by
  have hle := (speedWord_between sine hlow hhigh).1
  have herror := le_of_abs_le (rampQuotient_error hlow hhigh)
  have hpos : 0 < f.val := by linarith
  have hwordPos := speedWord_cast_pos sine f
  have hunits : 1024 * ((speedWord sine f).toNat : ℚ) ≤
      100000000 * (1 + 1 / 2 ^ 53) / f.val := by
    have hsum : 100000000 * (1 + 1 / 2 ^ 53) / f.val =
        100000000 / f.val + 100000000 / f.val / 2 ^ 53 := by
      ring
    linarith
  rw [le_div_iff₀ hpos] at hunits
  rw [div_mul_eq_mul_div, le_div_iff₀ hwordPos]
  linarith

/-- No whole number is asked for in vain: its quotient is further from the units of the table than
the rounding goes. -/
theorem speedWord_whole {n : Nat} (hn : f.val = n) (hlow : 3 / 2 ≤ f.val)
    (hhigh : f.val ≤ 97000) : f.val ≤ 9765625 / 100 / (speedWord sine f).toNat := by
  have hwordPos := speedWord_cast_pos sine f
  have hnear := speedWord_near sine hlow hhigh
  rw [div_mul_eq_mul_div, le_div_iff₀ hwordPos, hn] at hnear
  -- a product of integers that exceeds an integer does so by 1 at least
  have hproduct : n * (speedWord sine f).toNat * 100 ≤ 9765625 := by
    have hlt : ((n * (speedWord sine f).toNat * 100 : ℕ) : ℚ) < (9765625 + 1 : ℕ) := by
      push_cast
      linarith
    exact Nat.lt_succ_iff.mp (by exact_mod_cast hlt)
  have hcast : (n * (speedWord sine f).toNat * 100 : ℚ) ≤ 9765625 := by
    exact_mod_cast hproduct
  rw [le_div_iff₀ hwordPos, hn]
  linarith

/-- The two bytes of a word, the lower one first, are the whole word. -/
theorem bytes_word (word : BitVec 16) :
    (word.setWidth 8).toNat + 0x100 * ((word >>> 8).setWidth 8).toNat = word.toNat := by
  have hlt := word.isLt
  rw [BitVec.toNat_setWidth, BitVec.toNat_setWidth, BitVec.toNat_ushiftRight,
    Nat.shiftRight_eq_div_pow]
  omega

/-- An `int` is below 1.5 where it is below 2. -/
theorem cast_lt_three_halves {n : ℤ} : (n : ℚ) < 3 / 2 ↔ n < 2 := by
  constructor
  · intro h
    by_contra hge
    have hge : (2 : ℚ) ≤ n := by
      exact_mod_cast not_lt.mp hge
    linarith
  · intro h
    have hle : (n : ℚ) ≤ 1 := by
      exact_mod_cast Int.le_of_lt_add_one h
    linarith

/-- `change_ramp_speed` tests an unsigned number against other bounds, which comes to the same: a
negative one is far above, and 0 and 1 are below. -/
theorem changeRampSpeed_eq (n : BitVec 32) :
    changeRampSpeed (doubleFloats sine) (some n) =
      [.p0 false, .p0 false] ++ ad9954ChangeSpeed (doubleFloats sine) (.ofRat n.toInt) := by
  have hlt := n.isLt
  have hval : (Double.ofRat n.toInt).val = n.toInt := by
    refine Double.val_ofInt ?_
    rw [BitVec.toInt_eq_toNat_cond, abs_le]
    omega
  have hhigh : 97000 < (n.toInt : ℚ) ↔ 97000 < n.toInt := by
    exact_mod_cast Iff.rfl
  have hrange : (97000 < (n.toInt : ℚ) ∨ (n.toInt : ℚ) < 3 / 2) ↔
      (97000 < n.toNat ∨ n.toNat < 2) := by
    rw [hhigh, cast_lt_three_halves, BitVec.toInt_eq_toNat_cond]
    omega
  have hsame : ¬(97000 < n.toNat ∨ n.toNat < 2) → (n.toInt : ℚ) = n.toNat := by
    intro h
    have hint : n.toInt = n.toNat := by
      rw [BitVec.toInt_eq_toNat_cond]
      omega
    rw [hint]
    rfl
  rw [changeRampSpeed, ad9954ChangeSpeed, List.cons_append, List.cons_append, List.nil_append]
  simp only [doubleFloats, decide_eq_true_eq, hval, hrange]
  by_cases h : 97000 < n.toNat ∨ n.toNat < 2
  · rw [if_pos h, if_pos h]
  · rw [if_neg h, if_neg h, hsame h]

end Speed

/-- For every input, taken as the nearest `double`, the word that is sent is in 1..65535 and is sent
whole. In range the conversion is defined, the repetition behind the next larger word is below what
was asked for, and the one behind the word is not, up to the rounding of one division: never by more
than one part in 2^53, only where the quotient is rounded up to a multiple of 1024, and for no whole
number. The command sends the same segment for every `int`. -/
theorem rampSpeed_rounded (sine : Nat → Double) :
    (∀ x : ℚ, ∃ word : BitVec 16,
      ad9954ChangeSpeed (doubleFloats sine) (.ofRat x) = [rampSegment word] ∧
        (1 ≤ word.toNat ∧ word.toNat ≤ 65535) ∧
        (word.setWidth 8).toNat + 0x100 * ((word >>> 8).setWidth 8).toNat = word.toNat ∧
        (3 / 2 ≤ x → x ≤ 97000 →
          let f := Double.ofRat x
          toUint 16 (rampSpeedNum f).val = some word ∧
            9765625 / 100 / (word.toNat + 1 : ℚ) < f.val ∧
            f.val ≤ 9765625 / 100 / (word.toNat : ℚ) * (1 + 1 / 2 ^ 53) ∧
            (f.val ≤ 9765625 / 100 / (word.toNat : ℚ) ∨
              binary64.round (100000000 / f.val) = 1024 * word.toNat) ∧
            ∀ n : Nat, f.val = n → f.val ≤ 9765625 / 100 / (word.toNat : ℚ))) ∧
      ∀ n : BitVec 32,
        changeRampSpeed (doubleFloats sine) (some n) =
          [.p0 false, .p0 false] ++ ad9954ChangeSpeed (doubleFloats sine) (.ofRat n.toInt) := by
  refine ⟨fun x => ⟨speedWord sine (.ofRat x), rfl, ⟨speedWord_pos sine _, ?_⟩, bytes_word _, ?_⟩,
    changeRampSpeed_eq sine⟩
  · exact Nat.le_of_lt_succ (speedWord sine _).isLt
  · intro hx hx'
    have hlow : 3 / 2 ≤ (Double.ofRat x).val :=
      Format.le_round ⟨3, -1, by decide, by decide, by norm_num⟩ hx
    have hhigh : (Double.ofRat x).val ≤ 97000 :=
      Format.round_le (Double.holds_natCast (n := 97000) (by norm_num)) hx'
    exact ⟨(speedWord_of_mem sine hlow hhigh).1, speedWord_next sine hlow hhigh,
      speedWord_near sine hlow hhigh, speedWord_or sine hlow hhigh,
      fun n hn => speedWord_whole sine hn hlow hhigh⟩

/-- A frequency just above a repetition, whose quotient is rounded up: the table repeats slower than
it was asked to. -/
theorem rampSpeed_carried :
    let x : ℚ := 1491308088888889 / 2 ^ 37
    (Double.ofRat x).val = x ∧ (3 / 2 ≤ x ∧ x ≤ 97000) ∧
      ad9954ChangeSpeed (doubleFloats fun _ => .ofRat 0) (.ofRat x) = [rampSegment 9] ∧
      9765625 / 100 / 9 < x := by
  decide +kernel

end RtVcom.Board.Ad9954
