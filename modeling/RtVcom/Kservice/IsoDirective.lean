import Mathlib.Data.Nat.Digits.Lemmas
import RtVcom.Kservice.FormatPieces

/-!
# Integer directives of the C standard

What the C standard says of the conversions `d`, `i`, `u`, `o`, `x` and `X` with the flags `-`, `0`,
`+` and a blank, a width and the qualifiers `h` and `l`, without a precision: a directive with its
text, and the field that it specifies for a value (`isoField`). `fieldIn` is that field with the
base as a parameter.

`getSpec_eq` says that `rt_vsnprintf` reads such a directive as what it is.
-/

namespace RtVcom.Kservice

open RtVcom.Lib

/-! ## The standard -/

/-- A flag. -/
inductive IsoFlag
  | minus
  | zero
  | plus
  | space
deriving Repr, DecidableEq

/-- A width: none, one in the format, or one among the arguments. -/
inductive IsoWidth
  | absent
  | number (w : Nat)
  | star (v : BitVec 32)
deriving Repr, DecidableEq

inductive IsoQualifier
  | absent
  | h
  | l
deriving Repr, DecidableEq

inductive IsoConversion
  | d
  | i
  | u
  | o
  | x
  | X
deriving Repr, DecidableEq

/-- `%`, flags in any order, a width, a qualifier and a conversion. -/
structure IsoDirective where
  flags : List IsoFlag
  width : IsoWidth
  qualifier : IsoQualifier
  conversion : IsoConversion
deriving Repr, DecidableEq

/-- A negative width is a flag and a width. -/
def IsoWidth.negative : IsoWidth → Bool
  | absent | number _ => false
  | star v => decide (v.toInt < 0)

/-- The minimum width of the field. -/
def IsoWidth.minimum : IsoWidth → Nat
  | absent => 0
  | number w => w
  | star v => v.toInt.natAbs

def IsoConversion.signed : IsoConversion → Bool
  | d | i => true
  | u | o | x | X => false

def IsoConversion.base : IsoConversion → Nat
  | d | i | u => 10
  | o => 8
  | x | X => 16

/-- A digit. -/
def isoDigit (large : Bool) (k : Nat) : BitVec 8 :=
  if k < 10 then BitVec.ofNat 8 (0x30 + k)
  else BitVec.ofNat 8 ((if large then 0x41 else 0x61) + (k - 10))

/-- The digits of a number, at least one. -/
def isoDigits (base : Nat) (large : Bool) (value : Nat) : List (BitVec 8) :=
  if value = 0 then [ch '0'] else ((Nat.digits base value).map (isoDigit large)).reverse

namespace IsoDirective

variable (d : IsoDirective) (v : BitVec 32)

/-- The argument, converted to the signed type of the qualifier. -/
def signedValue : Int :=
  match d.qualifier with
  | .h => (v.setWidth 16).toInt
  | .absent | .l => v.toInt

/-- The argument, converted to the unsigned type of the qualifier. -/
def unsignedValue : Nat :=
  match d.qualifier with
  | .h => (v.setWidth 16).toNat
  | .absent | .l => v.toNat

/-- What the digits stand for. -/
def magnitude : Nat :=
  if d.conversion.signed then (d.signedValue v).natAbs else d.unsignedValue v

/-- The sign: only a signed conversion has one. -/
def signText : List (BitVec 8) :=
  if d.conversion.signed then
    if d.signedValue v < 0 then [ch '-']
    else if .plus ∈ d.flags then [ch '+']
    else if .space ∈ d.flags then [ch ' ']
    else []
  else []

/-- The field is left-justified: by the flag, or by a negative width. -/
def leftJustified : Bool :=
  decide (.minus ∈ d.flags) || d.width.negative

/-- The field, with its digits in some base. -/
def fieldIn (base : Nat) : List (BitVec 8) :=
  let sign := d.signText v
  let digits := isoDigits base (d.conversion = .X) (d.magnitude v)
  let padding := d.width.minimum - (sign.length + digits.length)
  if d.leftJustified then sign ++ digits ++ List.replicate padding (ch ' ')
  else if .zero ∈ d.flags then sign ++ List.replicate padding (ch '0') ++ digits
  else List.replicate padding (ch ' ') ++ sign ++ digits

/-- The field that the standard specifies. -/
def isoField : List (BitVec 8) := d.fieldIn v d.conversion.base

end IsoDirective

/-! ## The directive in a format -/

def IsoFlag.char : IsoFlag → BitVec 8
  | minus => ch '-'
  | zero => ch '0'
  | plus => ch '+'
  | space => ch ' '

def IsoWidth.text : IsoWidth → List (BitVec 8)
  | absent => []
  | number w => isoDigits 10 false w
  | star _ => [ch '*']

/-- The width among the arguments. -/
def IsoWidth.args : IsoWidth → List Arg
  | absent | number _ => []
  | star v => [.int v]

def IsoQualifier.text : IsoQualifier → List (BitVec 8)
  | absent => []
  | h => [ch 'h']
  | l => [ch 'l']

def IsoConversion.char : IsoConversion → BitVec 8
  | d => ch 'd'
  | i => ch 'i'
  | u => ch 'u'
  | o => ch 'o'
  | x => ch 'x'
  | X => ch 'X'

/-- A width in the format is a number that an `int` can hold; a leading zero would be a flag. -/
def IsoWidth.Fits : IsoWidth → Prop
  | absent | star _ => True
  | number w => 0 < w ∧ w < 2 ^ 31

namespace IsoDirective

variable (d : IsoDirective)

/-- What stands behind the `%`. -/
def text : List (BitVec 8) :=
  d.flags.map IsoFlag.char ++ (d.width.text ++ (d.qualifier.text ++ [d.conversion.char]))

/-- The arguments. -/
def args (v : BitVec 32) : List Arg := d.width.args ++ [.int v]

end IsoDirective

/-! ## Reading the directive -/

variable {d : IsoDirective} {v : BitVec 32} {rest : List (BitVec 8)}

/-- A decimal digit is none of the characters that mean something else, and is read as one. -/
theorem isoDigit_reads : ∀ k < 10, CNumber.isDigit (isoDigit false k) = true ∧
    ((isoDigit false k).toNat : Int) - 0x30 = k ∧ isoDigit false k ≠ 0 ∧
    (k ≠ 0 → isoDigit false k ∉ [ch '-', ch '+', ch ' ', ch '#', ch '0']) := by
  decide

/-- The flags that were read, on top of others. -/
def addFlags (flags : Flags) (fs : List IsoFlag) : Flags :=
  { flags with
    zeropad := flags.zeropad || decide (.zero ∈ fs)
    plus := flags.plus || decide (.plus ∈ fs)
    space := flags.space || decide (.space ∈ fs)
    left := flags.left || decide (.minus ∈ fs) }

theorem addFlags_cons (flags : Flags) (f : IsoFlag) (fs : List IsoFlag) :
    addFlags (addFlags flags [f]) fs = addFlags flags (f :: fs) := by
  simp only [addFlags, List.mem_cons, List.not_mem_nil, or_false, Bool.decide_or, Bool.or_assoc]

/-- A flag character is read into its flag. -/
theorem processFlags_cons (flags : Flags) (f : IsoFlag) (fmt : List (BitVec 8)) :
    processFlags flags (f.char :: fmt) = processFlags (addFlags flags [f]) fmt := by
  cases f with
  | minus =>
    have hflags : addFlags flags [.minus] = { flags with left := true } := by simp [addFlags]
    rw [hflags]
    rfl
  | zero =>
    have hflags : addFlags flags [.zero] = { flags with zeropad := true } := by simp [addFlags]
    rw [hflags]
    rfl
  | plus =>
    have hflags : addFlags flags [.plus] = { flags with plus := true } := by simp [addFlags]
    rw [hflags]
    rfl
  | space =>
    have hflags : addFlags flags [.space] = { flags with space := true } := by simp [addFlags]
    rw [hflags]
    rfl

/-- The characters of the flags are read as these flags, up to the first that is none. -/
theorem processFlags_eq (fs : List IsoFlag) (flags : Flags) {c : BitVec 8}
    (rest : List (BitVec 8)) (hc : c ∉ [ch '-', ch '+', ch ' ', ch '#', ch '0']) :
    processFlags flags (fs.map IsoFlag.char ++ c :: rest) = (addFlags flags fs, c :: rest) := by
  induction fs generalizing flags with
  | nil =>
    simp only [List.mem_cons, List.not_mem_nil, or_false, not_or] at hc
    obtain ⟨hminus, hplus, hspace, hhash, hzero⟩ := hc
    rw [List.map_nil, List.nil_append, processFlags, if_neg hminus, if_neg hplus, if_neg hspace,
      if_neg hhash, if_neg hzero]
    simp only [addFlags, List.not_mem_nil, decide_false, Bool.or_false]
  | cons f fs ih =>
    rw [List.map_cons, List.cons_append, processFlags_cons, ih, addFlags_cons]

/-- The number that digits stand for, read from the left. -/
def readNumber (i : Nat) (ds : List Nat) : Nat := ds.foldl (fun a k => a * 10 + k) i

/-- A number only grows with its digits. -/
theorem le_readNumber (ds : List Nat) (i : Nat) : i ≤ readNumber i ds := by
  induction ds generalizing i with
  | nil => exact Nat.le_refl i
  | cons k ds ih => exact Nat.le_trans (by omega) (ih (i * 10 + k))

/-- `skip_atoi` reads the digits of a number that fits an `int`. -/
theorem skipAtoi_eq (ds : List Nat) (i : Nat) (hdigits : ∀ k ∈ ds, k < 10)
    (hfits : readNumber i ds < 2 ^ 31) (hrest : CNumber.isDigit (peek rest) = false) :
    skipAtoi i (ds.map (isoDigit false) ++ rest) = (((readNumber i ds : Nat) : Int), rest) := by
  induction ds generalizing i with
  | nil =>
    cases rest with
    | nil => rfl
    | cons c rest =>
      have hc : ¬ CNumber.isDigit c = true := by
        rw [show CNumber.isDigit c = false from hrest]
        exact Bool.false_ne_true
      exact if_neg hc
  | cons k ds ih =>
    obtain ⟨hdigit, hvalue, -, -⟩ := isoDigit_reads k (hdigits k List.mem_cons_self)
    have hle := le_readNumber ds (i * 10 + k)
    have hnext : int32 ((i : Int) * 10 + (isoDigit false k).toNat - 0x30) = (i * 10 + k : Nat) := by
      have hbound : readNumber i (k :: ds) = readNumber (i * 10 + k) ds := rfl
      rw [int32_of_range (by omega) (by omega)]
      omega
    rw [List.map_cons, List.cons_append, skipAtoi, if_pos hdigit, hnext]
    exact ih (i * 10 + k) (fun k' hk' => hdigits k' (List.mem_cons_of_mem k hk')) hfits

/-- The digits of a positive number, from the left: the first one is not 0. -/
theorem isoDigits_eq {base w : Nat} (hbase : 1 < base) (large : Bool) (hw : 0 < w) : ∃ k ds,
    (Nat.digits base w).reverse = k :: ds ∧
    isoDigits base large w = (k :: ds).map (isoDigit large) ∧ (∀ x ∈ k :: ds, x < base) ∧
    k ≠ 0 := by
  have hne : Nat.digits base w ≠ [] := Nat.digits_ne_nil_iff_ne_zero.mpr (by omega)
  have hlast := Nat.getLast_digit_ne_zero base (show w ≠ 0 by omega)
  have hsplit : (Nat.digits base w).reverse =
      (Nat.digits base w).getLast hne :: (Nat.digits base w).reverse.tail := by
    rw [← List.head_reverse (List.reverse_ne_nil_iff.mpr hne), List.cons_head_tail]
  refine ⟨_, _, hsplit, ?_, ?_, hlast⟩
  · rw [← hsplit, isoDigits, if_neg (by omega), List.map_reverse]
  · intro x hx
    rw [← hsplit, List.mem_reverse] at hx
    exact Nat.digits_lt_base hbase hx

/-- The digits of a width are read as the width. -/
theorem readNumber_digits (w : Nat) : readNumber 0 (Nat.digits 10 w).reverse = w := by
  have hfold : Nat.ofDigits 10 (Nat.digits 10 w) =
      (Nat.digits 10 w).foldr (fun k a => a * 10 + k) 0 := by
    rw [Nat.ofDigits_eq_foldr]
    congr 1
    funext k a
    rw [Nat.cast_id, Nat.mul_comm, Nat.add_comm]
  rw [readNumber, List.foldl_reverse, ← hfold, Nat.ofDigits_digits]

/-- `field_width`. -/
def IsoWidth.fieldWidth : IsoWidth → Int
  | absent => -1
  | number w => w
  | star v => if v.toInt < 0 then int32 (-v.toInt) else v.toInt

/-- `qualifier`. -/
def IsoQualifier.char : IsoQualifier → BitVec 8
  | absent => 0
  | h => ch 'h'
  | l => ch 'l'

/-- What stands behind the width is no part of it. -/
theorem peek_conversion (q : IsoQualifier) (c : IsoConversion) :
    CNumber.isDigit (peek (q.text ++ [c.char])) = false ∧
    peek (q.text ++ [c.char]) ≠ ch '*' ∧ peek (q.text ++ [c.char]) ≠ ch '.' ∧
    peek (q.text ++ [c.char]) ∉ [ch '-', ch '+', ch ' ', ch '#', ch '0'] := by
  cases q <;> cases c <;> decide

theorem getQualifier_eq (q : IsoQualifier) (c : IsoConversion) :
    getQualifier (q.text ++ [c.char]) = (q.char, [c.char]) := by
  cases q <;> cases c <;> decide

/-- The width is read from the format or from the arguments; a negative one there sets the left
flag. -/
theorem getFieldWidth_eq {w : IsoWidth} (hw : w.Fits) (flags : Flags) (args : List Arg)
    (hdigit : CNumber.isDigit (peek rest) = false) (hstar : peek rest ≠ ch '*') :
    getFieldWidth flags (w.text ++ rest) (w.args ++ args) =
      some ((w.fieldWidth, { flags with left := flags.left || w.negative }), rest, args) := by
  cases w with
  | absent =>
    have hflags : { flags with left := flags.left || IsoWidth.absent.negative } = flags := by
      rw [IsoWidth.negative, Bool.or_false]
    rw [hflags, IsoWidth.text, IsoWidth.args, List.nil_append, List.nil_append, getFieldWidth,
      hdigit, if_neg Bool.false_ne_true, if_neg hstar]
    rfl
  | number w =>
    obtain ⟨k, ds, hds, htext, hdigits, -⟩ := isoDigits_eq (show 1 < 10 by decide) false hw.1
    have hread := readNumber_digits w
    rw [hds] at hread
    have hflags : { flags with left := flags.left || (IsoWidth.number w).negative } = flags := by
      rw [IsoWidth.negative, Bool.or_false]
    have hfirst : CNumber.isDigit (peek ((k :: ds).map (isoDigit false) ++ rest)) = true :=
      (isoDigit_reads k (hdigits k List.mem_cons_self)).1
    have hskip : skipAtoi 0 ((k :: ds).map (isoDigit false) ++ rest) = ((w : Int), rest) := by
      have hfits : readNumber 0 (k :: ds) < 2 ^ 31 := hread.symm ▸ hw.2
      have hskip := skipAtoi_eq (k :: ds) 0 hdigits hfits hdigit
      rw [hread] at hskip
      exact hskip
    rw [hflags, IsoWidth.text, IsoWidth.args, List.nil_append, htext, getFieldWidth, if_pos hfirst,
      hskip]
    rfl
  | star v =>
    have hnone : ¬ CNumber.isDigit (peek (ch '*' :: rest)) = true := by
      show ¬ CNumber.isDigit (ch '*') = true
      decide
    have hread : getFieldWidth flags (ch '*' :: rest) (.int v :: args) =
        some (if v.toInt < 0 then ((int32 (-v.toInt), { flags with left := true }), rest, args)
          else ((v.toInt, flags), rest, args)) := by
      have hfirst : peek (ch '*' :: rest) = ch '*' := rfl
      rw [getFieldWidth, if_neg hnone, if_pos hfirst]
      rfl
    refine hread.trans (congrArg some ?_)
    by_cases hneg : v.toInt < 0
    · rw [if_pos hneg, IsoWidth.fieldWidth, if_pos hneg, IsoWidth.negative, decide_eq_true hneg,
        Bool.or_true]
    · rw [if_neg hneg, IsoWidth.fieldWidth, if_neg hneg, IsoWidth.negative, decide_eq_false hneg,
        Bool.or_false]

/-- The flags that the standard's flags and width are read as. -/
def IsoDirective.readFlags (d : IsoDirective) : Flags where
  zeropad := decide (.zero ∈ d.flags)
  plus := decide (.plus ∈ d.flags)
  space := decide (.space ∈ d.flags)
  left := d.leftJustified

/-- The character behind the flags is none. -/
theorem width_text_eq {w : IsoWidth} (hw : w.Fits) (q : IsoQualifier) (c : IsoConversion) :
    ∃ a t, w.text ++ (q.text ++ [c.char]) = a :: t ∧
      a ∉ [ch '-', ch '+', ch ' ', ch '#', ch '0'] := by
  cases w with
  | absent =>
    obtain ⟨-, -, -, hflag⟩ := peek_conversion q c
    cases htext : q.text ++ [c.char] with
    | nil => cases q <;> cases htext
    | cons a t =>
      rw [htext] at hflag
      exact ⟨a, t, rfl, hflag⟩
  | number w =>
    obtain ⟨k, ds, -, htext, hdigits, hk⟩ := isoDigits_eq (show 1 < 10 by decide) false hw.1
    obtain ⟨-, -, -, hflag⟩ := isoDigit_reads k (hdigits k List.mem_cons_self)
    rw [IsoWidth.text, htext]
    exact ⟨_, _, rfl, hflag hk⟩
  | star v => exact ⟨_, _, rfl, by decide⟩

/-- A directive of the standard is read as its flags, its width and its qualifier. -/
theorem getSpec_eq (hwidth : d.width.Fits) (v : BitVec 32) :
    getSpec d.text (d.args v) =
      some (⟨d.readFlags, d.width.fieldWidth, -1, d.qualifier.char⟩, [d.conversion.char],
        [.int v]) := by
  obtain ⟨hdigit, hstar, hpoint, -⟩ := peek_conversion d.qualifier d.conversion
  obtain ⟨a, t, htext, hflag⟩ := width_text_eq hwidth d.qualifier d.conversion
  have hflags := processFlags_eq d.flags {} t hflag
  rw [← htext] at hflags
  have hprecision (args : List Arg) :
      getPrecision (d.qualifier.text ++ [d.conversion.char]) args =
        some (-1, d.qualifier.text ++ [d.conversion.char], args) := if_neg hpoint
  simp only [getSpec, IsoDirective.text, IsoDirective.args, hflags, getFieldWidth_eq hwidth _ _
    hdigit hstar, hprecision, getQualifier_eq, Option.bind_eq_bind, Option.bind_some]
  rfl

end RtVcom.Kservice
