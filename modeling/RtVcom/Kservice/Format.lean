import RtVcom.Console.Switch
import RtVcom.Lib.BoundedText
import RtVcom.Lib.CMemory
import RtVcom.Lib.CNumber

/-!
# Formatted output

`rt_vsnprintf` of `src/kservice.c` with `print_number` and `skip_atoi`, and `rt_kprintf`. As it is
compiled, `RT_PRINTF_PRECISION` is defined, `RT_PRINTF_LONGLONG` and `RT_PRINTF_SPECIAL` are not:
there are precisions, no `L`, and the flag `#` is read and forgotten.

`str` and the memory it points to are a `Cursor`, and `end` is called `last`, since it is the
address of the last place of the buffer. An `int` is an integer that is brought back to 32 bits
behind every operation that may leave them (`int32`). The format and the strings are apart from the
buffer. A function without a result has asked for an argument that is not there, or is of another
kind.
-/

namespace RtVcom.Kservice

open RtVcom.Lib

/-! ## Characters, integers and arguments -/

/-- A character constant. -/
def ch (c : Char) : BitVec 8 := BitVec.ofNat 8 c.toNat

/-- A string constant. -/
def chars (s : String) : List (BitVec 8) := s.toList.map ch

/-- `*fmt`, with the NUL behind the format. -/
def peek (fmt : List (BitVec 8)) : BitVec 8 := fmt.headD 0

/-- The value of an `int`. -/
def int32 (x : Int) : Int := x.bmod (2 ^ 32)

/-- An argument: an `int`, or a pointer with the string that it points to, if it does. -/
inductive Arg
  | int (v : BitVec 32)
  | ptr (p : BitVec 32) (s : Option CString)

/-- `va_arg(args, int)`. -/
def intArg : List Arg → Option (BitVec 32 × List Arg)
  | .int v :: args => some (v, args)
  | _ => none

/-- `va_arg(args, void *)`. -/
def ptrArg : List Arg → Option (BitVec 32 × List Arg)
  | .ptr p _ :: args => some (p, args)
  | _ => none

/-- `va_arg(args, char *)`, and the string to print. -/
def strArg : List Arg → Option (List (BitVec 8) × List Arg)
  | .ptr p s :: args =>
    if p = 0 then some (chars "(NULL)", args) else s.map fun s => (s.chars, args)
  | _ => none

/-! ## The directive -/

/-- `flags`. -/
structure Flags where
  zeropad : Bool := false
  sign : Bool := false
  plus : Bool := false
  space : Bool := false
  left : Bool := false
  special : Bool := false
  large : Bool := false
deriving Repr, DecidableEq

/-- The loop over the flags, from behind the `%` on. -/
def processFlags (flags : Flags) : List (BitVec 8) → Flags × List (BitVec 8)
  | [] => (flags, [])
  | c :: fmt =>
    if c = ch '-' then processFlags { flags with left := true } fmt
    else if c = ch '+' then processFlags { flags with plus := true } fmt
    else if c = ch ' ' then processFlags { flags with space := true } fmt
    else if c = ch '#' then processFlags { flags with special := true } fmt
    else if c = ch '0' then processFlags { flags with zeropad := true } fmt
    else (flags, c :: fmt)

/-- The loop of `skip_atoi`. -/
def skipAtoi (i : Int) : List (BitVec 8) → Int × List (BitVec 8)
  | [] => (i, [])
  | c :: s =>
    if CNumber.isDigit c then skipAtoi (int32 (i * 10 + c.toNat - 0x30)) s else (i, c :: s)

/-- What stands between the `%` and the conversion. -/
structure Spec where
  flags : Flags
  fieldWidth : Int
  precision : Int
  qualifier : BitVec 8
deriving Repr, DecidableEq

/-- "get field width": the width and the flags. -/
def getFieldWidth (flags : Flags) (fmt : List (BitVec 8)) (args : List Arg) :
    Option ((Int × Flags) × List (BitVec 8) × List Arg) :=
  if CNumber.isDigit (peek fmt) then some (((skipAtoi 0 fmt).1, flags), (skipAtoi 0 fmt).2, args)
  else if peek fmt = ch '*' then
    (intArg args).map fun (v, args) =>
      if v.toInt < 0 then ((int32 (-v.toInt), { flags with left := true }), fmt.tail, args)
      else ((v.toInt, flags), fmt.tail, args)
  else some ((-1, flags), fmt, args)

/-- The precision behind the point. -/
def readPrecision (fmt : List (BitVec 8)) (args : List Arg) :
    Option (Int × List (BitVec 8) × List Arg) :=
  if CNumber.isDigit (peek fmt) then some ((skipAtoi 0 fmt).1, (skipAtoi 0 fmt).2, args)
  else if peek fmt = ch '*' then (intArg args).map fun (v, args) => (v.toInt, fmt.tail, args)
  else some (-1, fmt, args)

/-- "get the precision". -/
def getPrecision (fmt : List (BitVec 8)) (args : List Arg) :
    Option (Int × List (BitVec 8) × List Arg) :=
  if peek fmt = ch '.' then
    (readPrecision fmt.tail args).map fun (precision, rest) =>
      (if precision < 0 then 0 else precision, rest)
  else some (-1, fmt, args)

/-- "get the conversion qualifier". -/
def getQualifier (fmt : List (BitVec 8)) : BitVec 8 × List (BitVec 8) :=
  if peek fmt = ch 'h' ∨ peek fmt = ch 'l' then (peek fmt, fmt.tail) else (0, fmt)

/-- A directive up to its conversion. -/
def getSpec (fmt : List (BitVec 8)) (args : List Arg) :
    Option (Spec × List (BitVec 8) × List Arg) := do
  let (flags, fmt) := processFlags {} fmt
  let ((fieldWidth, flags), fmt, args) ← getFieldWidth flags fmt args
  let (precision, fmt, args) ← getPrecision fmt args
  let (qualifier, fmt) := getQualifier fmt
  some (⟨flags, fieldWidth, precision, qualifier⟩, fmt, args)

/-! ## Padding -/

/-- `str` and the memory. -/
abbrev Out := Cursor (BitVec 8)

/-- `while (lo < size--)` around the output of `c`: the output, and `size` behind it. Before the
last decrement `size` stays above `lo`. -/
def padWhile (last : Nat) (lo : Int) (c : BitVec 8) (str : Out) (size : Int) : Out × Int :=
  if lo < size then padWhile last lo c (str.put last c) (size - 1) else (str, int32 (size - 1))
termination_by (size - lo).toNat

/-- `while (fieldWidth > 0)` around the output of a blank, with a decrement before the next test. -/
def padBlanks (last : Nat) (str : Out) (fieldWidth : Int) : Out × Int :=
  if 0 < fieldWidth then padBlanks last (str.put last (ch ' ')) (fieldWidth - 1)
  else (str, fieldWidth)
termination_by fieldWidth.toNat

/-- `while (--field_width > 0)` around the output of a blank. -/
def padChar (last : Nat) (str : Out) (fieldWidth : Int) : Out × Int :=
  padBlanks last str (int32 (fieldWidth - 1))

/-! ## `print_number` -/

/-- `divide`: the digit, and the number behind it. -/
def divide (n : Nat) (base : Nat) : Nat × Nat :=
  if base = 10 then (n % 10, n / 10) else (n % 16, n / 16)

/-- `small_digits` and `large_digits`. -/
def digitOf (type : Flags) (d : Nat) : BitVec 8 :=
  (chars (if type.large then "0123456789ABCDEF" else "0123456789abcdef")).getD d 0

/-- `while (num != 0) tmp[i++] = digits[divide(&num, base)]`. -/
def numberLoop (type : Flags) (base num : Nat) : List (BitVec 8) :=
  if num = 0 then []
  else digitOf type (divide num base).1 :: numberLoop type base (divide num base).2
termination_by num
decreasing_by
  unfold divide
  split <;> dsimp only <;> omega

/-- `tmp`. -/
def numberDigits (type : Flags) (base : Nat) (num : BitVec 32) : List (BitVec 8) :=
  if num = 0 then [ch '0'] else numberLoop type base num.toNat

/-- "get sign": the sign, and the number behind it. -/
def getSign (type : Flags) (num : BitVec 32) : Option (BitVec 8) × BitVec 32 :=
  if type.sign then
    if num.toInt < 0 then (some (ch '-'), -num)
    else if type.plus then (some (ch '+'), num)
    else if type.space then (some (ch ' '), num)
    else (none, num)
  else (none, num)

/-- The blanks in front of the sign, and `size` behind them. -/
def padFront (last : Nat) (str : Out) (type : Flags) (sign : Option (BitVec 8)) (size : Int) :
    Out × Int :=
  if type.zeropad ∨ type.left then (str, size)
  else padWhile last 0 (ch ' ') str (if sign.isSome ∧ 0 < size then size - 1 else size)

/-- The sign. It is counted only where it is stored. -/
def putSign (last : Nat) (str : Out) (sign : Option (BitVec 8)) (size : Int) : Out × Int :=
  match sign with
  | none => (str, size)
  | some c => (str.put last c, if str.str ≤ last then int32 (size - 1) else size)

/-- "no align to the left". -/
def padInner (last : Nat) (str : Out) (type : Flags) (size : Int) : Out × Int :=
  if type.left then (str, size)
  else padWhile last 0 (if type.zeropad then ch '0' else ch ' ') str size

/-- The digits, between the padding on both sides of them. -/
def putDigits (last : Nat) (str : Out) (type : Flags) (tmp : List (BitVec 8))
    (precision size : Int) : Out :=
  let (str, size) := padInner last str type size
  let (str, _) := padWhile last tmp.length (ch '0') str precision
  let str := str.puts last tmp.reverse
  (padWhile last 0 (ch ' ') str size).1

/-- `print_number`. -/
def printNumber (last : Nat) (buf : Out) (num : BitVec 32) (base : Nat) (s precision : Int)
    (type : Flags) : Out :=
  let type := if type.left then { type with zeropad := false } else type
  let (sign, num) := getSign type num
  let tmp := numberDigits type base num
  let precision := if precision < tmp.length then (tmp.length : Int) else precision
  let size := int32 (s - precision)
  let (buf, size) := padFront last buf type sign size
  let (buf, size) := putSign last buf sign size
  putDigits last buf type tmp precision size

/-! ## `rt_vsnprintf` -/

/-- `%c`. -/
def convertChar (last : Nat) (str : Out) (spec : Spec) (c : BitVec 8) : Out :=
  let (str, fieldWidth) :=
    if spec.flags.left then (str, spec.fieldWidth) else padChar last str spec.fieldWidth
  (padChar last (str.put last c) fieldWidth).1

/-- `%s`. -/
def convertString (last : Nat) (str : Out) (spec : Spec) (s : List (BitVec 8)) : Out :=
  let len := int32 s.length
  let len := if 0 < spec.precision ∧ spec.precision < len then spec.precision else len
  let (str, fieldWidth) :=
    if spec.flags.left then (str, spec.fieldWidth)
    else padWhile last len (ch ' ') str spec.fieldWidth
  (padWhile last len (ch ' ') (str.puts last (s.take len.toNat)) fieldWidth).1

/-- `%p`. -/
def convertPointer (last : Nat) (str : Out) (spec : Spec) (p : BitVec 32) : Out :=
  if spec.fieldWidth = -1 then
    printNumber last str p 16 8 spec.precision { spec.flags with zeropad := true }
  else printNumber last str p 16 spec.fieldWidth spec.precision spec.flags

/-- `num`, from the argument. -/
def integerArg (qualifier : BitVec 8) (flags : Flags) (v : BitVec 32) : BitVec 32 :=
  if qualifier = ch 'h' then
    let num := (v.setWidth 16).setWidth 32
    if flags.sign then (num.setWidth 16).signExtend 32 else num
  else v

/-- The integer conversions, behind the switch. -/
def convertInteger (last : Nat) (str : Out) (spec : Spec) (base : Nat) (flags : Flags)
    (v : BitVec 32) : Out :=
  printNumber last str (integerArg spec.qualifier flags v) base spec.fieldWidth spec.precision flags

/-- The base and the flags of an integer conversion. -/
def integerConversion (c : BitVec 8) (flags : Flags) : Option (Nat × Flags) :=
  if c = ch 'o' then some (8, flags)
  else if c = ch 'X' then some (16, { flags with large := true })
  else if c = ch 'x' then some (16, flags)
  else if c = ch 'd' ∨ c = ch 'i' then some (10, { flags with sign := true })
  else if c = ch 'u' then some (10, flags)
  else none

/-- `switch (*fmt)`: the output, and the arguments behind it. -/
def convert (last : Nat) (str : Out) (spec : Spec) (c : BitVec 8) (args : List Arg) :
    Option (Out × List Arg) :=
  if c = ch 'c' then
    (intArg args).map fun (v, args) => (convertChar last str spec (v.setWidth 8), args)
  else if c = ch 's' then
    (strArg args).map fun (s, args) => (convertString last str spec s, args)
  else if c = ch 'p' then
    (ptrArg args).map fun (p, args) => (convertPointer last str spec p, args)
  else if c = ch '%' then some (str.put last (ch '%'), args)
  else
    match integerConversion c spec.flags with
    | some (base, flags) =>
      (intArg args).map fun (v, args) => (convertInteger last str spec base flags v, args)
    | none =>
      let str := str.put last (ch '%')
      -- at the end of the format there is no character, and the loop is over
      some (if c = 0 then str else str.put last c, args)

/-! ### The format gets shorter -/

/-- Reading the flags only shortens the format, and so does each reader below; the loop of
`rt_vsnprintf` ends for that reason. -/
theorem length_processFlags_le (fmt : List (BitVec 8)) (flags : Flags) :
    (processFlags flags fmt).2.length ≤ fmt.length := by
  induction fmt generalizing flags with
  | nil => exact Nat.le_refl _
  | cons c fmt ih =>
    unfold processFlags
    split
    · exact Nat.le_succ_of_le (ih _)
    split
    · exact Nat.le_succ_of_le (ih _)
    split
    · exact Nat.le_succ_of_le (ih _)
    split
    · exact Nat.le_succ_of_le (ih _)
    split
    · exact Nat.le_succ_of_le (ih _)
    · exact Nat.le_refl _

theorem length_skipAtoi_le (s : List (BitVec 8)) (i : Int) :
    (skipAtoi i s).2.length ≤ s.length := by
  induction s generalizing i with
  | nil => exact Nat.le_refl _
  | cons c s ih =>
    unfold skipAtoi
    split
    · exact Nat.le_succ_of_le (ih _)
    · exact Nat.le_refl _

theorem length_tail_le (fmt : List (BitVec 8)) : fmt.tail.length ≤ fmt.length := by
  rw [List.length_tail]
  omega

variable {fmt rest : List (BitVec 8)} {args args' : List Arg} {spec : Spec}

theorem length_getFieldWidth_le {flags : Flags} {r : Int × Flags}
    (h : getFieldWidth flags fmt args = some (r, rest, args')) : rest.length ≤ fmt.length := by
  unfold getFieldWidth at h
  split at h
  · cases h
    exact length_skipAtoi_le fmt 0
  split at h
  · obtain ⟨⟨v, more⟩, -, hr⟩ := Option.map_eq_some_iff.mp h
    dsimp only at hr
    split at hr <;> cases hr <;> exact length_tail_le fmt
  · cases h
    exact Nat.le_refl _

theorem length_readPrecision_le {p : Int} (h : readPrecision fmt args = some (p, rest, args')) :
    rest.length ≤ fmt.length := by
  unfold readPrecision at h
  split at h
  · cases h
    exact length_skipAtoi_le fmt 0
  split at h
  · obtain ⟨⟨v, more⟩, -, hr⟩ := Option.map_eq_some_iff.mp h
    cases hr
    exact length_tail_le fmt
  · cases h
    exact Nat.le_refl _

theorem length_getPrecision_le {p : Int} (h : getPrecision fmt args = some (p, rest, args')) :
    rest.length ≤ fmt.length := by
  unfold getPrecision at h
  split at h
  · obtain ⟨⟨q, rest', more⟩, hread, hr⟩ := Option.map_eq_some_iff.mp h
    cases hr
    exact (length_readPrecision_le hread).trans (length_tail_le fmt)
  · cases h
    exact Nat.le_refl _

theorem length_getQualifier_le (fmt : List (BitVec 8)) :
    (getQualifier fmt).2.length ≤ fmt.length := by
  unfold getQualifier
  split
  · exact length_tail_le fmt
  · exact Nat.le_refl _

theorem length_getSpec_le (h : getSpec fmt args = some (spec, rest, args')) :
    rest.length ≤ fmt.length := by
  have hflags := length_processFlags_le fmt {}
  unfold getSpec at h
  simp only [Option.bind_eq_bind, Option.bind_eq_some_iff, Prod.exists] at h
  obtain ⟨width, flags, fmt₂, args₂, hwidth, precision, fmt₃, args₃, hprecision, hend⟩ := h
  cases hend
  have h₂ := length_getFieldWidth_le hwidth
  have h₃ := length_getPrecision_le hprecision
  have h₄ := length_getQualifier_le fmt₃
  omega

/-- `for (; *fmt; ++fmt)`. -/
def formatLoop (last : Nat) (str : Out) (fmt : List (BitVec 8)) (args : List Arg) : Option Out :=
  match fmt with
  | [] => some str
  | c :: fmt =>
    if c ≠ ch '%' then formatLoop last (str.put last c) fmt args
    else
      match _h : getSpec fmt args with
      | none => none
      | some (spec, rest, args) =>
        match convert last str spec (peek rest) args with
        | none => none
        | some (str, args) => formatLoop last str rest.tail args
termination_by fmt.length
decreasing_by
  · exact Nat.lt_succ_self _
  · have hle := length_getSpec_le _h
    have htail := length_tail_le rest
    rw [List.length_cons]
    omega

/-- The NUL behind the text, or at the last place of the buffer. -/
def terminate (last : Nat) (str : Out) : Out :=
  if str.str ≤ last then str.store str.str 0 else str.store last 0

/-- `end`: the last place of the buffer, or of the memory. -/
def endOf (buf size : Nat) : Nat :=
  let last := sub32 (add32 buf size) 1
  if last < buf then 0xffffffff else last

/-- `rt_vsnprintf`: the memory behind it, and its result, as an unsigned number of 32 bits. -/
def rtVsnprintf (mem : Nat → BitVec 8) (buf size : Nat) (fmt : CString) (args : List Arg) :
    Option (Out × Nat) :=
  (formatLoop (endOf buf size) ⟨buf, mem, []⟩ fmt.chars args).map fun str =>
    (terminate (endOf buf size) str, sub32 str.str buf)

/-! ## `rt_kprintf` -/

/-- The bytes at an address. -/
def bytesAt (mem : Nat → BitVec 8) (a n : Nat) : List (BitVec 8) :=
  (List.range n).map fun i => mem (a + i)

/-- `rt_kprintf`, with `rt_log_buf` at an address: the memory behind it, and what is printed, to a
device or else, as a string, to the hardware. -/
def rtKprintf (device : Bool) (mem : Nat → BitVec 8) (rtLogBuf : Nat) (fmt : CString)
    (args : List Arg) : Option (Out × List (BitVec 8)) :=
  (rtVsnprintf mem rtLogBuf (Console.rtConsolebufSize - 1) fmt args).map fun (out, length) =>
    let length := if Console.rtConsolebufSize - 1 < length then Console.rtConsolebufSize - 1
      else length
    (out, if device then bytesAt out.mem rtLogBuf length
      else (bytesAt out.mem rtLogBuf Console.rtConsolebufSize).takeWhile (· ≠ 0))

end RtVcom.Kservice
