import RtVcom.Kservice.IsoDirective
import RtVcom.Kservice.Truncation

/-!
# The integer conversions against the C standard

`rt_vsnprintf` writes what the standard specifies for an integer directive, with one exception:
`divide` knows the bases 10 and 16 only, and so `%o` prints hexadecimal digits. `iso_iff` says that
this shows from the value 8 on, and nowhere else.

The sign, the padding and the digits share one counter in `print_number`; `full_digitsPiece` is what
comes of it. The field of the code is again one of `fieldIn`, with the base that `divide` works in
(`full_integerPiece`), so that the comparison is one of two bases (`fieldIn_inj`).
-/

namespace RtVcom.Kservice

open RtVcom.Lib

variable {d : IsoDirective} {v : BitVec 32}

/-! ## The conversion -/

/-- The flags of the conversion. -/
def IsoDirective.numberFlags (d : IsoDirective) : Flags :=
  { d.readFlags with sign := d.conversion.signed, large := decide (d.conversion = .X) }

/-- The piece that a directive is for its argument. -/
def IsoDirective.piece (d : IsoDirective) (v : BitVec 32) : Piece (BitVec 8) :=
  numberPiece (integerArg d.qualifier.char d.numberFlags v) d.conversion.base d.width.fieldWidth
    (-1) d.numberFlags

/-- The switch takes an integer conversion to its base and its flags. -/
theorem integerConversion_eq (d : IsoDirective) :
    integerConversion d.conversion.char d.readFlags = some (d.conversion.base, d.numberFlags) := by
  unfold IsoDirective.numberFlags
  cases d.conversion <;> rfl

theorem convertPiece_eq (d : IsoDirective) (v : BitVec 32) :
    convertPiece ⟨d.readFlags, d.width.fieldWidth, -1, d.qualifier.char⟩ d.conversion.char
      [.int v] = some (d.piece v, []) := by
  have hother : ∀ c : IsoConversion, c.char ≠ ch 'c' ∧ c.char ≠ ch 's' ∧ c.char ≠ ch 'p' ∧
      c.char ≠ ch '%' := by
    intro c
    cases c <;> decide
  obtain ⟨hc, hs, hp, hpercent⟩ := hother d.conversion
  rw [convertPiece, if_neg hc, if_neg hs, if_neg hp, if_neg hpercent, integerConversion_eq]
  rfl

/-- A format of one directive is a message of one piece. -/
theorem messageOf_directive_eq (hwidth : d.width.Fits) (v : BitVec 32) :
    messageOf (ch '%' :: d.text) (d.args v) = some [d.piece v] := by
  have hpercent : ¬ ch '%' ≠ ch '%' := not_not.mpr rfl
  rw [messageOf_directive hpercent (getSpec_eq hwidth v)]
  have hpeek : peek [d.conversion.char] = d.conversion.char := rfl
  rw [hpeek, convertPiece_eq, Option.bind_some, List.tail_cons, messageOf]
  rfl

/-! ## The sign and the value -/

/-- The flags, as `print_number` uses them. -/
def IsoDirective.printFlags (d : IsoDirective) : Flags :=
  if d.numberFlags.left then { d.numberFlags with zeropad := false } else d.numberFlags

/-- What `print_number` is told of the flags is what the directive says. -/
theorem printFlags_kept (d : IsoDirective) :
    d.printFlags.sign = d.conversion.signed ∧ d.printFlags.plus = decide (.plus ∈ d.flags) ∧
    d.printFlags.space = decide (.space ∈ d.flags) ∧ d.printFlags.left = d.leftJustified ∧
    d.printFlags.large = decide (d.conversion = .X) := by
  unfold IsoDirective.printFlags
  split <;> exact ⟨rfl, rfl, rfl, rfl, rfl⟩

/-- The number that is printed. -/
def IsoDirective.number (d : IsoDirective) (v : BitVec 32) : BitVec 32 :=
  integerArg d.qualifier.char d.numberFlags v

/-- A signed conversion prints the value of its argument, as wide as the qualifier has it. -/
theorem number_signed (h : d.conversion.signed) : (d.number v).toInt = d.signedValue v := by
  have hsign : d.numberFlags.sign = true := h
  unfold IsoDirective.number IsoDirective.signedValue integerArg
  cases d.qualifier with
  | absent => rfl
  | l => rfl
  | h =>
    have hnarrow : ((v.setWidth 16).setWidth 32).setWidth 16 = v.setWidth 16 := by
      rw [BitVec.setWidth_setWidth_of_le _ (by omega), BitVec.setWidth_eq]
    have hh : IsoQualifier.h.char = ch 'h' := rfl
    dsimp only
    rw [if_pos hh, if_pos hsign, hnarrow, BitVec.toInt_signExtend_of_le (by omega)]

theorem number_unsigned (h : d.conversion.signed = false) :
    (d.number v).toNat = d.unsignedValue v := by
  have hsign : ¬ d.numberFlags.sign = true := by
    show ¬ d.conversion.signed = true
    rw [h]
    exact Bool.false_ne_true
  unfold IsoDirective.number IsoDirective.unsignedValue integerArg
  cases d.qualifier with
  | absent => rfl
  | l => rfl
  | h =>
    have hh : IsoQualifier.h.char = ch 'h' := rfl
    dsimp only
    rw [if_pos hh, if_neg hsign, BitVec.toNat_setWidth_of_le (by omega)]

/-- The magnitude of a number that is not negative. -/
theorem toNat_of_nonneg {x : BitVec 32} (h : ¬ x.toInt < 0) : x.toNat = x.toInt.natAbs := by
  have hlt := x.isLt
  rw [BitVec.toInt_eq_toNat_cond] at h ⊢
  split at h <;> split <;> omega

/-- The magnitude of a negative number. -/
theorem toNat_neg_of_neg {x : BitVec 32} (h : x.toInt < 0) : (-x).toNat = x.toInt.natAbs := by
  have hlt := x.isLt
  rw [BitVec.toNat_neg]
  rw [BitVec.toInt_eq_toNat_cond] at h ⊢
  split at h <;> split <;> omega

/-- The sign and the magnitude that `print_number` goes on with. -/
theorem getSign_eq (d : IsoDirective) (v : BitVec 32) :
    (getSign d.printFlags (d.number v)).1.toList = d.signText v ∧
    (getSign d.printFlags (d.number v)).2.toNat = d.magnitude v := by
  obtain ⟨hsign, hplus, hspace, -, -⟩ := printFlags_kept d
  rw [getSign, hsign, hplus, hspace, IsoDirective.signText, IsoDirective.magnitude]
  cases hsigned : d.conversion.signed with
  | false => exact ⟨rfl, number_unsigned hsigned⟩
  | true =>
    have hvalue := number_signed (v := v) hsigned
    rw [if_pos rfl, if_pos rfl, if_pos rfl, hvalue]
    by_cases hneg : d.signedValue v < 0
    · have habs := toNat_neg_of_neg (hvalue.symm ▸ hneg)
      rw [if_pos hneg, if_pos hneg, ← hvalue]
      exact ⟨rfl, habs⟩
    · have habs := toNat_of_nonneg (hvalue.symm ▸ hneg)
      rw [if_neg hneg, if_neg hneg, ← hvalue]
      by_cases hp : IsoFlag.plus ∈ d.flags
      · rw [if_pos hp, if_pos (decide_eq_true hp)]
        exact ⟨rfl, habs⟩
      rw [if_neg hp, if_neg (by rw [decide_eq_true_eq]; exact hp)]
      by_cases hs : IsoFlag.space ∈ d.flags
      · rw [if_pos hs, if_pos (decide_eq_true hs)]
        exact ⟨rfl, habs⟩
      · rw [if_neg hs, if_neg (by rw [decide_eq_true_eq]; exact hs)]
        exact ⟨rfl, habs⟩

/-! ## The digits -/

/-- The base that `divide` works in. -/
def divideBase (base : Nat) : Nat := if base = 10 then 10 else 16

/-- `divide` splits off the last digit, in one of its two bases. -/
theorem divide_eq (n base : Nat) :
    divide n base = (n % divideBase base, n / divideBase base) := by
  unfold divide divideBase
  split <;> rfl

theorem one_lt_divideBase (base : Nat) : 1 < divideBase base := by
  unfold divideBase
  split <;> decide

theorem divideBase_le (base : Nat) : divideBase base ≤ 16 := by
  unfold divideBase
  split <;> decide

theorem digitOf_eq {type : Flags} {large : Bool} (h : type.large = large) {k : Nat} (hk : k < 16) :
    digitOf type k = isoDigit large k := by
  have hall : ∀ b : Bool, ∀ k < 16,
      (chars (if b then "0123456789ABCDEF" else "0123456789abcdef")).getD k 0 = isoDigit b k := by
    decide
  rw [digitOf, h, hall large k hk]

/-- The loop writes the digits, the last one first. -/
theorem numberLoop_eq {type : Flags} {large : Bool} (h : type.large = large) (base num : Nat) :
    numberLoop type base num = (Nat.digits (divideBase base) num).map (isoDigit large) := by
  have hbase := one_lt_divideBase base
  fun_induction numberLoop type base num with
  | case1 => rw [Nat.digits_zero, List.map_nil]
  | case2 num hne ih =>
    rw [ih, divide_eq, Nat.digits_def' hbase (Nat.pos_of_ne_zero hne), List.map_cons, digitOf_eq h]
    exact (Nat.mod_lt _ (by omega)).trans_le (divideBase_le base)

/-- With the single 0 of a zero, the digits in reverse are the digits of the standard. -/
theorem numberDigits_eq {type : Flags} {large : Bool} (h : type.large = large) (base : Nat)
    (num : BitVec 32) :
    (numberDigits type base num).reverse = isoDigits (divideBase base) large num.toNat := by
  rw [numberDigits, isoDigits]
  by_cases hzero : num = 0
  · rw [if_pos hzero, hzero]
    rfl
  · have hne : num.toNat ≠ 0 := fun h0 => hzero (BitVec.eq_of_toNat_eq h0)
    rw [if_neg hzero, if_neg hne, numberLoop_eq h]

/-- The digits fit `tmp`, which has 16 places. -/
theorem length_numberDigits (type : Flags) (base : Nat) (num : BitVec 32) :
    1 ≤ (numberDigits type base num).length ∧ (numberDigits type base num).length ≤ 10 := by
  have hbase := one_lt_divideBase base
  rw [numberDigits]
  by_cases hzero : num = 0
  · rw [if_pos hzero]
    exact ⟨by decide, by decide⟩
  · have hne : num.toNat ≠ 0 := fun h0 => hzero (BitVec.eq_of_toNat_eq h0)
    rw [if_neg hzero, numberLoop_eq rfl, List.length_map]
    constructor
    · exact List.length_pos_iff.mpr (Nat.digits_ne_nil_iff_ne_zero.mpr hne)
    · rw [Nat.digits_length_le_iff hbase]
      have hten : 10 ≤ divideBase base := by
        unfold divideBase
        split <;> decide
      calc num.toNat < 10 ^ 10 := num.isLt.trans (by decide)
        _ ≤ divideBase base ^ 10 := Nat.pow_le_pow_left hten 10

/-! ## The field -/

theorem length_toList_le {α : Type} (o : Option α) : o.toList.length ≤ 1 := by
  cases o with
  | none => exact Nat.zero_le 1
  | some a => exact Nat.le_refl 1

theorem padText_zero (c : BitVec 8) (size : Int) :
    padText 0 c size = List.replicate size.toNat c := by
  rw [padText, Int.sub_zero]

theorem padText_of_le {lo size : Int} (h : size ≤ lo) (c : BitVec 8) : padText lo c size = [] := by
  rw [padText, show (size - lo).toNat = 0 by omega, List.replicate_zero]

/-- Behind a loop that has run, the counter is negative. -/
theorem padRest_range {size : Int} (hlo : -2 ^ 31 + 1 ≤ size) :
    padRest 0 size = min 0 size - 1 := int32_of_range (by omega) (by omega)

/-- Left justified, the blanks come behind the digits. -/
theorem digitsText_left {type : Flags} (h : type.left) (tmp : List (BitVec 8)) (size : Int) :
    digitsText type tmp tmp.length size = tmp.reverse ++ List.replicate size.toNat (ch ' ') := by
  rw [digitsText, if_pos h, padText_of_le (Int.le_refl _), List.nil_append, padText_zero]

/-- Right justified, blanks or zeros come in front of them. -/
theorem digitsText_right {type : Flags} (h : ¬ type.left) (tmp : List (BitVec 8)) {size : Int}
    (hlo : -2 ^ 31 + 1 ≤ size) :
    digitsText type tmp tmp.length size =
      List.replicate size.toNat (if type.zeropad then ch '0' else ch ' ') ++ tmp.reverse := by
  have hbehind : padText 0 (ch ' ') (padRest 0 size) = [] := by
    apply padText_of_le
    rw [padRest_range hlo]
    omega
  rw [digitsText, if_neg h, padText_of_le (Int.le_refl _), padText_zero, hbehind, List.append_nil,
    List.append_nil]

/-- Nothing in front of the sign where zeros or trailing blanks fill the field. -/
theorem frontText_padded {type : Flags} (h : type.zeropad ∨ type.left)
    (sign : Option (BitVec 8)) (size : Int) : frontText type sign size = ([], size) := if_pos h

/-- What `print_number` makes of one counter: the sign, the digits, and the padding between, in
front of or behind them. -/
theorem full_digitsPiece (type : Flags) (sign : Option (BitVec 8)) (tmp : List (BitVec 8))
    {size : Int} (hlo : -2 ^ 31 + 3 ≤ size) (hhi : size < 2 ^ 31) :
    (digitsPiece type sign tmp tmp.length size).full =
      let padding := (size - sign.toList.length).toNat
      if type.left then sign.toList ++ tmp.reverse ++ List.replicate padding (ch ' ')
      else if type.zeropad then sign.toList ++ List.replicate padding (ch '0') ++ tmp.reverse
      else List.replicate padding (ch ' ') ++ sign.toList ++ tmp.reverse := by
  -- what the sign takes of the counter
  have hcount (s : Int) (hs : -2 ^ 31 + 1 ≤ s) (hs' : s < 2 ^ 31) :
      (if sign.isSome then int32 (s - 1) else s) = s - sign.toList.length := by
    cases sign with
    | none => exact (Int.sub_zero s).symm
    | some c => exact int32_of_range (by omega) (by omega)
  have hlen := length_toList_le sign
  unfold Piece.full digitsPiece
  dsimp only
  by_cases hleft : type.left
  · rw [frontText_padded (.inr hleft), hcount size (by omega) hhi, digitsText_left hleft,
      if_pos hleft, List.nil_append, List.append_assoc]
  by_cases hzero : type.zeropad
  · rw [frontText_padded (.inl hzero), hcount size (by omega) hhi,
      digitsText_right hleft tmp (by omega), if_neg hleft, if_pos hzero, if_pos hzero,
      List.nil_append, List.append_assoc]
  · have hnone : ¬ (type.zeropad ∨ type.left) := by
      rintro (h | h)
      · exact hzero h
      · exact hleft h
    obtain ⟨s, hs, hspos, hslo⟩ : ∃ s, (if sign.isSome ∧ 0 < size then size - 1 else size) = s ∧
        s.toNat = (size - sign.toList.length).toNat ∧ -2 ^ 31 + 3 ≤ s := by
      cases sign with
      | none => exact ⟨size, if_neg (by simp), by simp, hlo⟩
      | some c =>
        rw [Option.toList_some, List.length_singleton]
        by_cases hpos : 0 < size
        · exact ⟨size - 1, if_pos ⟨rfl, hpos⟩, by omega, by omega⟩
        · exact ⟨size, if_neg fun h => hpos h.2, by omega, hlo⟩
    have hfront : frontText type sign size = (padText 0 (ch ' ') s, min 0 s - 1) := by
      rw [frontText, if_neg hnone]
      dsimp only
      rw [hs, padRest_range (by omega)]
    have hgone : (min 0 s - 1 - (sign.toList.length : Int)).toNat = 0 := by omega
    rw [hfront]
    dsimp only
    rw [hcount _ (by omega) (by omega), digitsText_right hleft tmp (by omega), hgone,
      List.replicate_zero, List.nil_append, padText_zero, hspos, if_neg hleft, if_neg hzero]

/-- The width, less the digits and the sign, is what is left for padding. -/
theorem padding_eq {w : IsoWidth} (hw : w.Fits) {k j : Nat} (hk : 1 ≤ k) (hk' : k ≤ 10)
    (hj : j ≤ 1) :
    -2 ^ 31 + 3 ≤ int32 (w.fieldWidth - k) ∧ int32 (w.fieldWidth - k) < 2 ^ 31 ∧
      (int32 (w.fieldWidth - k) - j).toNat = w.minimum - (j + k) := by
  cases w with
  | absent =>
    have hsize : int32 (-1 - k) = -1 - k := int32_of_range (by omega) (by omega)
    rw [IsoWidth.fieldWidth, IsoWidth.minimum, hsize]
    omega
  | number w =>
    have hlt := hw.2
    have hsize : int32 (w - k) = w - k := int32_of_range (by omega) (by omega)
    rw [IsoWidth.fieldWidth, IsoWidth.minimum, hsize]
    omega
  | star v =>
    have hlo := BitVec.le_toInt v
    have hhi := BitVec.toInt_lt (x := v)
    rw [IsoWidth.fieldWidth, IsoWidth.minimum]
    by_cases hneg : v.toInt < 0
    · have hwrap : int32 (int32 (-v.toInt) - k) = int32 (-v.toInt - k) := Int.bmod_sub_bmod
      have hsize : int32 (-v.toInt - k) = -v.toInt - k := int32_of_range (by omega) (by omega)
      rw [if_pos hneg, hwrap, hsize]
      omega
    · have hsize : int32 (v.toInt - k) = v.toInt - k := int32_of_range (by omega) (by omega)
      rw [if_neg hneg, hsize]
      omega

/-- The piece is the field, in the base of `divide`. -/
theorem full_piece (hwidth : d.width.Fits) (v : BitVec 32) :
    (d.piece v).full = d.fieldIn v (divideBase d.conversion.base) := by
  obtain ⟨-, -, -, hleft, hlarge⟩ := printFlags_kept d
  obtain ⟨hsign, hmagnitude⟩ := getSign_eq d v
  generalize htmp : numberDigits d.printFlags d.conversion.base
    (getSign d.printFlags (d.number v)).2 = tmp
  have hdigits := numberDigits_eq hlarge d.conversion.base (getSign d.printFlags (d.number v)).2
  have hlength := length_numberDigits d.printFlags d.conversion.base
    (getSign d.printFlags (d.number v)).2
  rw [htmp] at hdigits hlength
  rw [hmagnitude] at hdigits
  have hpiece : d.piece v = digitsPiece d.printFlags (getSign d.printFlags (d.number v)).1 tmp
      tmp.length (int32 (d.width.fieldWidth - tmp.length)) :=
    numberPiece_eq rfl htmp (by omega)
  have hsignLength : (d.signText v).length ≤ 1 := by
    rw [← hsign]
    exact length_toList_le _
  obtain ⟨hlo, hhi, hpadding⟩ := padding_eq hwidth hlength.1 hlength.2 hsignLength
  have htmpLength : tmp.length = (isoDigits (divideBase d.conversion.base)
      (decide (d.conversion = .X)) (d.magnitude v)).length := by
    rw [← hdigits, List.length_reverse]
  rw [hpiece, full_digitsPiece _ _ _ hlo hhi, hsign, hpadding, hdigits, hleft, htmpLength,
    IsoDirective.fieldIn]
  cases hleft' : d.leftJustified with
  | true => rfl
  | false =>
    have hzero : d.printFlags.zeropad = decide (.zero ∈ d.flags) := by
      unfold IsoDirective.printFlags
      rw [if_neg]
      · rfl
      · show ¬ d.leftJustified = true
        rw [hleft']
        exact Bool.false_ne_true
    dsimp only
    rw [hzero, if_neg Bool.false_ne_true, if_neg Bool.false_ne_true]
    by_cases hz : IsoFlag.zero ∈ d.flags
    · rw [if_pos hz, if_pos (decide_eq_true hz)]
    · rw [if_neg hz, if_neg (by rw [decide_eq_true_eq]; exact hz)]

/-! ## Two bases -/

/-- A field is as wide as its width, or as its sign and digits if these are longer. -/
theorem length_fieldIn (d : IsoDirective) (v : BitVec 32) (base : Nat) :
    (d.fieldIn v base).length = max d.width.minimum
      ((d.signText v).length +
        (isoDigits base (decide (d.conversion = .X)) (d.magnitude v)).length) := by
  unfold IsoDirective.fieldIn
  dsimp only
  split
  · simp only [List.length_append, List.length_replicate]
    omega
  split
  · simp only [List.length_append, List.length_replicate]
    omega
  · simp only [List.length_append, List.length_replicate]
    omega

/-- In base 16 there are no more digits than in base 8. -/
theorem length_isoDigits_le (large : Bool) (value : Nat) :
    (isoDigits 16 large value).length ≤ (isoDigits 8 large value).length := by
  unfold isoDigits
  by_cases hzero : value = 0
  · rw [if_pos hzero, if_pos hzero]
  · rw [if_neg hzero, if_neg hzero, List.length_reverse, List.length_reverse, List.length_map,
      List.length_map, Nat.digits_length_le_iff (by decide)]
    calc value < 8 ^ (Nat.digits 8 value).length := Nat.lt_base_pow_length_digits (by decide)
      _ ≤ 16 ^ (Nat.digits 8 value).length := Nat.pow_le_pow_left (by decide) _

/-- Only numbers of one octal digit have the same digits in both bases. -/
theorem digits_sixteen_eq_eight {value : Nat} (h : Nat.digits 16 value = Nat.digits 8 value) :
    value < 8 := by
  by_contra hge
  have hsplit := h
  rw [Nat.digits_def' (by decide) (by omega), Nat.digits_def' (b := 8) (by decide) (by omega)]
    at hsplit
  have htail : Nat.digits 16 (value / 16) = Nat.digits 8 (value / 8) := (List.cons.inj hsplit).2
  have hle : value / 8 ≤ value / 16 := by
    calc value / 8 = Nat.ofDigits 8 (Nat.digits 8 (value / 8)) := (Nat.ofDigits_digits 8 _).symm
      _ ≤ Nat.ofDigits 16 (Nat.digits 8 (value / 8)) := Nat.ofDigits_monotone _ (by decide)
      _ = value / 16 := by rw [← htail, Nat.ofDigits_digits]
  omega

/-- Below 8 the digits of the two bases are the same. -/
theorem isoDigits_of_lt_eight (large : Bool) {value : Nat} (h : value < 8) :
    isoDigits 16 large value = isoDigits 8 large value := by
  unfold isoDigits
  by_cases hzero : value = 0
  · rw [if_pos hzero, if_pos hzero]
  · rw [if_neg hzero, if_neg hzero, Nat.digits_of_lt 16 value hzero (by omega),
      Nat.digits_of_lt 8 value hzero h]

/-- No digit is a blank, and none but 0 is the character 0. -/
theorem isoDigit_visible : ∀ large : Bool, ∀ k < 16, isoDigit large k ≠ ch ' ' ∧
    (k ≠ 0 → isoDigit large k ≠ ch '0') := by
  decide

/-- What a digit stands for. -/
theorem isoDigit_value : ∀ large : Bool, ∀ k < 16,
    (if (isoDigit large k).toNat < 0x40 then (isoDigit large k).toNat - 0x30
      else (isoDigit large k).toNat % 0x10 + 9) = k := by
  decide

theorem isoDigit_inj {large : Bool} {k j : Nat} (hk : k < 16) (hj : j < 16)
    (h : isoDigit large k = isoDigit large j) : k = j := by
  rw [← isoDigit_value large k hk, h, isoDigit_value large j hj]

theorem map_isoDigit_inj {large : Bool} {s t : List Nat} (hs : ∀ k ∈ s, k < 16)
    (ht : ∀ k ∈ t, k < 16) (h : s.map (isoDigit large) = t.map (isoDigit large)) : s = t := by
  induction s generalizing t with
  | nil =>
    cases t with
    | nil => rfl
    | cons j t => cases h
  | cons k s ih =>
    cases t with
    | nil => cases h
    | cons j t =>
      obtain ⟨hhead, htail⟩ := List.cons.inj h
      have hk := isoDigit_inj (hs k List.mem_cons_self) (ht j List.mem_cons_self) hhead
      have hrest := ih (fun x hx => hs x (List.mem_cons_of_mem k hx))
        (fun x hx => ht x (List.mem_cons_of_mem j hx)) htail
      rw [hk, hrest]

/-- What is left of a field without its blanks and its leading zeros. -/
def stripField (field : List (BitVec 8)) : List (BitVec 8) :=
  (field.filter (· ≠ ch ' ')).dropWhile (· = ch '0')

/-- The digits of a field without a sign can be read off it. -/
theorem stripField_fieldIn {base : Nat} (hbase : 1 < base) (hbase' : base ≤ 16)
    (hsign : d.signText v = []) (hpos : 0 < d.magnitude v) :
    stripField (d.fieldIn v base) =
      isoDigits base (decide (d.conversion = .X)) (d.magnitude v) := by
  obtain ⟨k, ds, -, htext, hdigits, hk⟩ :=
    isoDigits_eq hbase (decide (d.conversion = .X)) hpos
  unfold IsoDirective.fieldIn
  rw [hsign]
  dsimp only
  generalize decide (d.conversion = .X) = large at htext ⊢
  rw [htext]
  have hvisible : ∀ x ∈ (k :: ds).map (isoDigit large), decide (x ≠ ch ' ') = true := by
    intro x hx
    obtain ⟨j, hj, rfl⟩ := List.mem_map.mp hx
    have hlt := hdigits j hj
    exact decide_eq_true (isoDigit_visible large j (by omega)).1
  have hfirst : ((k :: ds).map (isoDigit large)).dropWhile (· = ch '0') =
      (k :: ds).map (isoDigit large) := by
    have hlt := hdigits k List.mem_cons_self
    have hne := (isoDigit_visible large k (by omega)).2 hk
    rw [List.map_cons, List.dropWhile_cons_of_neg]
    rw [decide_eq_true_eq]
    exact hne
  have hblanks (j : Nat) : (List.replicate j (ch ' ')).filter (· ≠ ch ' ') = [] := by
    rw [List.filter_replicate]
    exact if_neg (by decide)
  have hzeros (j : Nat) : (List.replicate j (ch '0')).filter (· ≠ ch ' ') =
      List.replicate j (ch '0') := by
    rw [List.filter_replicate]
    exact if_pos (by decide)
  have hdigits' : ((k :: ds).map (isoDigit large)).filter (· ≠ ch ' ') =
      (k :: ds).map (isoDigit large) := List.filter_eq_self.mpr hvisible
  split
  · rw [stripField, List.nil_append, List.filter_append, hblanks, hdigits', List.append_nil, hfirst]
  split
  · rw [stripField, List.nil_append, List.filter_append, hzeros, hdigits',
      List.dropWhile_append_of_pos, hfirst]
    intro x hx
    exact decide_eq_true (List.eq_of_mem_replicate hx)
  · rw [stripField, List.append_nil, List.filter_append, hblanks, hdigits', List.nil_append, hfirst]

/-- A field without a sign is the same one in both bases where its number has one octal digit. -/
theorem fieldIn_inj (hunsigned : d.conversion.signed = false) :
    d.fieldIn v 16 = d.fieldIn v 8 ↔ d.magnitude v < 8 := by
  have hsign : d.signText v = [] := by
    rw [IsoDirective.signText, hunsigned]
    rfl
  constructor
  · intro h
    by_cases hpos : 0 < d.magnitude v
    · have hstrip := congrArg stripField h
      rw [stripField_fieldIn (by decide) (by decide) hsign hpos,
        stripField_fieldIn (by decide) (by decide) hsign hpos, isoDigits, isoDigits,
        if_neg (by omega), if_neg (by omega), List.reverse_inj] at hstrip
      apply digits_sixteen_eq_eight
      apply map_isoDigit_inj _ _ hstrip
      · intro k hk
        exact Nat.digits_lt_base (by decide) hk
      · intro k hk
        exact (Nat.digits_lt_base (by decide) hk).trans (by decide)
    · omega
  · intro h
    unfold IsoDirective.fieldIn
    rw [isoDigits_of_lt_eight _ h]

/-- The code's field is never longer than the standard's. -/
theorem length_fieldIn_le (d : IsoDirective) (v : BitVec 32) :
    (d.fieldIn v (divideBase d.conversion.base)).length ≤ (d.isoField v).length := by
  rw [IsoDirective.isoField, length_fieldIn, length_fieldIn]
  have hdigits := length_isoDigits_le (decide (d.conversion = .X)) (d.magnitude v)
  cases hconv : d.conversion with
  | o =>
    rw [hconv] at hdigits
    exact max_le_max (Nat.le_refl _) (Nat.add_le_add_left hdigits _)
  | _ => exact Nat.le_refl _

/-- It is the standard's field, unless the conversion is `%o` and the bases differ. -/
theorem fieldIn_eq_isoField_iff (d : IsoDirective) (v : BitVec 32) :
    d.fieldIn v (divideBase d.conversion.base) = d.isoField v ↔
      d.conversion ≠ .o ∨ d.magnitude v < 8 := by
  rw [IsoDirective.isoField]
  by_cases hconv : d.conversion = .o
  · have hunsigned : d.conversion.signed = false := by
      rw [hconv]
      rfl
    have hbase : d.conversion.base = 8 := by
      rw [hconv]
      rfl
    have hdivide : divideBase 8 = 16 := rfl
    rw [hbase, hdivide, fieldIn_inj hunsigned]
    exact ⟨.inr, fun h => h.resolve_left fun hne => hne hconv⟩
  · have hbase : divideBase d.conversion.base = d.conversion.base := by
      cases h : d.conversion with
      | o => exact absurd h hconv
      | _ => rfl
    rw [hbase]
    exact iff_of_true rfl (.inl hconv)

/-! ## The buffer -/

theorem nulFree_isoDigits (w : Nat) : NulFree (isoDigits 10 false w) := by
  by_cases hw : 0 < w
  · obtain ⟨k, ds, -, htext, hdigits, -⟩ := isoDigits_eq (show 1 < 10 by decide) false hw
    rw [htext]
    intro x hx
    obtain ⟨j, hj, rfl⟩ := List.mem_map.mp hx
    exact (isoDigit_reads j (hdigits j hj)).2.2.1
  · rw [isoDigits, if_pos (by omega)]
    unfold NulFree
    decide

/-- The directive as a format. -/
def IsoDirective.format (d : IsoDirective) : CString where
  chars := ch '%' :: d.text
  nulFree := by
    have hflags : NulFree (d.flags.map IsoFlag.char) := by
      intro x hx
      obtain ⟨f, -, rfl⟩ := List.mem_map.mp hx
      cases f <;> decide
    have hwidth : NulFree d.width.text := by
      cases d.width with
      | absent => exact nulFree_nil
      | number w => exact nulFree_isoDigits w
      | star v =>
        have hstar : NulFree [ch '*'] := by
          unfold NulFree
          decide
        exact hstar
    have hqualifier : NulFree d.qualifier.text := by
      unfold NulFree
      cases d.qualifier <;> decide
    have hconversion : NulFree [d.conversion.char] := by
      unfold NulFree
      cases d.conversion <;> decide
    rw [nulFree_cons, IsoDirective.text, nulFree_append, nulFree_append, nulFree_append]
    exact ⟨by decide, hflags, hwidth, hqualifier, hconversion⟩

/-- A call has written a field and nothing else, and returned its length. -/
structure WritesField (buf : Nat) (field : List (BitVec 8)) (out : Out × Nat) : Prop where
  result : out.2 = field.length
  text : bytesAt out.1.mem buf (field.length + 1) = field ++ [0]

/-- What a call has written to a buffer that is large enough is what it was to write. -/
theorem Printed.writesField_iff {mem : Nat → BitVec 8} {buf n : Nat} {text field : List (BitVec 8)}
    {out : Out × Nat} (h : Printed mem buf n text out) (hfits : text.length < n) :
    WritesField buf field out ↔ text = field := by
  have hmin : min (n - 1) text.length = text.length := by omega
  have hchars := h.chars
  have hnul := h.nul
  rw [hmin] at hchars hnul
  have hbytes : bytesAt out.1.mem buf text.length = text := bytesAt_eq rfl hchars
  constructor
  · intro hwrites
    have hlen : text.length = field.length := h.result.symm.trans hwrites.result
    have hfront := congrArg (List.take field.length) hwrites.text
    rw [take_bytesAt _ _ (Nat.le_succ _), List.take_left, ← hlen, hbytes] at hfront
    exact hfront
  · rintro rfl
    refine ⟨h.result, ?_⟩
    rw [bytesAt_succ, hbytes, hnul]

/-- For an integer directive and a value, `rt_vsnprintf` writes the field that the standard
specifies if and only if the directive is not `%o`, or the value is below 8. -/
theorem iso_iff (d : IsoDirective) (hwidth : d.width.Fits) (v : BitVec 32) (mem : Nat → BitVec 8)
    {buf n : Nat} (hbuf : 0 < buf) (hn : (d.isoField v).length < n)
    (hend : buf + n ≤ 0x100000000) :
    ∃ out, rtVsnprintf mem buf n d.format (d.args v) = some out ∧
      (WritesField buf (d.isoField v) out ↔ d.conversion ≠ .o ∨ d.magnitude v < 8) := by
  have hmessage : messageOf d.format.chars (d.args v) = some [d.piece v] :=
    messageOf_directive_eq hwidth v
  have hfull : fullText [d.piece v] = d.fieldIn v (divideBase d.conversion.base) := by
    rw [fullText, List.flatMap_singleton, full_piece hwidth]
  have hle := length_fieldIn_le d v
  have htext : textOf n 0 [d.piece v] = d.fieldIn v (divideBase d.conversion.base) := by
    rw [textOf_of_fits, hfull]
    rw [hfull]
    omega
  obtain ⟨out, hout, hprinted⟩ := @vsnprintf_printed mem _ _ _ _ _ hmessage hbuf
    (show 1 ≤ n by omega) hend (by rw [htext]; omega)
  rw [htext] at hprinted
  refine ⟨out, hout, ?_⟩
  rw [hprinted.writesField_iff (by omega), fieldIn_eq_isoField_iff]

/-- `%-+8hd` of the 16-bit number -5, written to 16 bytes. -/
theorem iso_short :
    ∃ out, rtVsnprintf (fun _ => 0) 0x20000000 16
        (IsoDirective.format ⟨[.minus, .plus], .number 8, .h, .d⟩) [.int 0xFFFB] = some out ∧
      WritesField 0x20000000 (chars "-5      ") out := by
  let d : IsoDirective := ⟨[.minus, .plus], .number 8, .h, .d⟩
  have hwidth : d.width.Fits := ⟨by decide, by decide⟩
  have hfield : d.isoField 0xFFFB = chars "-5      " := by decide +kernel
  have hlength : (d.isoField 0xFFFB).length < 16 := by
    rw [hfield]
    decide
  obtain ⟨out, hout, hiff⟩ := iso_iff d hwidth 0xFFFB (fun _ => 0) (n := 16)
    (show 0 < 0x20000000 by decide) hlength (by decide)
  refine ⟨out, hout, ?_⟩
  rw [hfield] at hiff
  exact hiff.mpr (.inl (by decide))

/-- `%o` of 8 prints `8`, where the standard specifies `10`. -/
theorem octal_eight :
    IsoDirective.isoField ⟨[], .absent, .absent, .o⟩ 8 = chars "10" ∧
    ∃ out, rtVsnprintf (fun _ => 0) 0x20000000 16
        (IsoDirective.format ⟨[], .absent, .absent, .o⟩) [.int 8] = some out ∧
      out.2 = 1 ∧ bytesAt out.1.mem 0x20000000 2 = chars "8" ++ [0] ∧
      ¬ WritesField 0x20000000 (IsoDirective.isoField ⟨[], .absent, .absent, .o⟩ 8) out := by
  have hfield : IsoDirective.isoField ⟨[], .absent, .absent, .o⟩ 8 = chars "10" := by
    decide +kernel
  have hrun : (rtVsnprintf (fun _ => 0) 0x20000000 16
      (IsoDirective.format ⟨[], .absent, .absent, .o⟩) [.int 8]).map
      (fun out => (out.2, bytesAt out.1.mem 0x20000000 2)) = some (1, chars "8" ++ [0]) := by
    decide +kernel
  obtain ⟨out, hout, hr⟩ := Option.map_eq_some_iff.mp hrun
  obtain ⟨hlength, hbytes⟩ := Prod.mk.inj hr
  refine ⟨hfield, out, hout, hlength, hbytes, ?_⟩
  intro h
  have htwo := h.result
  rw [hlength, hfield] at htwo
  exact absurd htwo (by decide)

end RtVcom.Kservice
