import RtVcom.Kservice.Format

/-!
# A format as pieces of text

What `rt_vsnprintf` writes does not depend on its buffer, except for one place: `print_number`
counts the sign of a number only where it is stored. So a format with its arguments is a list of
pieces (`messageOf`), each with the sign as its probe, and `rt_vsnprintf` writes these
(`formatLoop_eq`).

The counters of the padding loops are closed here: `padText` is what a loop writes and `padRest`
what it leaves of the counter.
-/

namespace RtVcom.Kservice

open RtVcom.Lib

/-! ## Padding -/

/-- What `while (lo < size--)` writes. -/
def padText (lo : Int) (c : BitVec 8) (size : Int) : List (BitVec 8) :=
  List.replicate (size - lo).toNat c

/-- What it leaves of `size`. -/
def padRest (lo size : Int) : Int := int32 (min lo size - 1)

/-- The loops that pad put their text and leave the size at the bound. -/
theorem padWhile_eq (last : Nat) (lo : Int) (c : BitVec 8) (str : Out) (size : Int) :
    padWhile last lo c str size = (str.puts last (padText lo c size), padRest lo size) := by
  fun_induction padWhile last lo c str size with
  | case1 str size hlt ih =>
    have htext : padText lo c size = c :: padText lo c (size - 1) := by
      have hone : (size - lo).toNat = (size - 1 - lo).toNat + 1 := by omega
      rw [padText, padText, hone, List.replicate_succ]
    have hrest : padRest lo size = padRest lo (size - 1) := by
      rw [padRest, padRest, show min lo size = min lo (size - 1) by omega]
    rw [ih, htext, hrest, Cursor.puts_cons]
  | case2 str size hge =>
    have htext : padText lo c size = [] := by
      rw [padText, show (size - lo).toNat = 0 by omega, List.replicate_zero]
    rw [htext, padRest, show min lo size = size by omega]
    rfl

/-- What `while (--width > 0)` writes. -/
def padCharText (width : Int) : List (BitVec 8) :=
  List.replicate (int32 (width - 1)).toNat (ch ' ')

/-- The blanks in front of a right-justified character or string. -/
theorem padBlanks_eq (last : Nat) (str : Out) (width : Int) :
    padBlanks last str width =
      (str.puts last (List.replicate width.toNat (ch ' ')), min 0 width) := by
  fun_induction padBlanks last str width with
  | case1 str width hlt ih =>
    have hone : width.toNat = (width - 1).toNat + 1 := by omega
    have hrest : min 0 width = min 0 (width - 1) := by omega
    rw [ih, hone, hrest, List.replicate_succ, Cursor.puts_cons]
  | case2 str width hge =>
    rw [show width.toNat = 0 by omega, show min 0 width = width by omega]
    rfl

/-- The blanks around a character, whose loop counts down first. -/
theorem padChar_eq (last : Nat) (str : Out) (width : Int) :
    padChar last str width =
      (str.puts last (padCharText width), min 0 (int32 (width - 1))) :=
  padBlanks_eq last str _

/-! ## Numbers -/

/-- What stands behind the sign, and `size` counts. -/
def digitsText (type : Flags) (tmp : List (BitVec 8)) (precision size : Int) : List (BitVec 8) :=
  if type.left then padText tmp.length (ch '0') precision ++ tmp.reverse ++ padText 0 (ch ' ') size
  else padText 0 (if type.zeropad then ch '0' else ch ' ') size ++
    padText tmp.length (ch '0') precision ++ tmp.reverse ++ padText 0 (ch ' ') (padRest 0 size)

/-- The part of `print_number` behind the sign puts the digits with their padding. -/
theorem putDigits_eq (last : Nat) (str : Out) (type : Flags) (tmp : List (BitVec 8))
    (precision size : Int) :
    putDigits last str type tmp precision size =
      str.puts last (digitsText type tmp precision size) := by
  unfold putDigits padInner digitsText
  by_cases hleft : type.left
  · simp only [if_pos hleft, padWhile_eq, Cursor.puts_append]
  · simp only [if_neg hleft, padWhile_eq, Cursor.puts_append]

/-- The blanks in front of the sign, and `size` behind them. -/
def frontText (type : Flags) (sign : Option (BitVec 8)) (size : Int) : List (BitVec 8) × Int :=
  if type.zeropad ∨ type.left then ([], size)
  else
    let size := if sign.isSome ∧ 0 < size then size - 1 else size
    (padText 0 (ch ' ') size, padRest 0 size)

/-- The blanks in front of the sign. -/
theorem padFront_eq (last : Nat) (str : Out) (type : Flags) (sign : Option (BitVec 8))
    (size : Int) :
    padFront last str type sign size =
      (str.puts last (frontText type sign size).1, (frontText type sign size).2) := by
  unfold padFront frontText
  split
  · rfl
  · rw [padWhile_eq]

/-- A number whose digits are given. -/
def digitsPiece (type : Flags) (sign : Option (BitVec 8)) (tmp : List (BitVec 8))
    (precision size : Int) : Piece (BitVec 8) where
  front := (frontText type sign size).1
  probe := sign
  inside := digitsText type tmp precision
    (if sign.isSome then int32 ((frontText type sign size).2 - 1) else (frontText type sign size).2)
  outside := digitsText type tmp precision (frontText type sign size).2

/-- `print_number`. -/
def numberPiece (num : BitVec 32) (base : Nat) (s precision : Int) (type : Flags) :
    Piece (BitVec 8) :=
  let type := if type.left then { type with zeropad := false } else type
  let (sign, num) := getSign type num
  let tmp := numberDigits type base num
  let precision := if precision < tmp.length then (tmp.length : Int) else precision
  digitsPiece type sign tmp precision (int32 (s - precision))

/-- A number with a precision that its digits reach. -/
theorem numberPiece_eq {num : BitVec 32} {base : Nat} {s precision : Int} {type type' : Flags}
    {tmp : List (BitVec 8)}
    (htype : (if type.left then { type with zeropad := false } else type) = type')
    (htmp : numberDigits type' base (getSign type' num).2 = tmp) (h : precision < tmp.length) :
    numberPiece num base s precision type =
      digitsPiece type' (getSign type' num).1 tmp tmp.length (int32 (s - tmp.length)) := by
  subst htype htmp
  unfold numberPiece
  dsimp only
  rw [if_pos h]

/-- `print_number` from its padding on, sign included. -/
theorem putSign_eq (last : Nat) (str : Out) (type : Flags) (sign : Option (BitVec 8))
    (tmp : List (BitVec 8)) (precision size : Int) :
    (let (str, size) := padFront last str type sign size
      let (str, size) := putSign last str sign size
      putDigits last str type tmp precision size) =
      str.piece last (digitsPiece type sign tmp precision size) := by
  rw [padFront_eq]
  cases sign with
  | none =>
    dsimp only [putSign]
    rw [putDigits_eq]
    rfl
  | some c =>
    dsimp only [putSign]
    rw [putDigits_eq]
    unfold Cursor.piece digitsPiece
    dsimp only
    split
    · rfl
    · rfl

/-- `print_number` puts the piece of the number. -/
theorem printNumber_eq (last : Nat) (str : Out) (num : BitVec 32) (base : Nat)
    (s precision : Int) (type : Flags) :
    printNumber last str num base s precision type =
      str.piece last (numberPiece num base s precision type) :=
  putSign_eq ..

/-! ## Directives -/

/-- `%c`. -/
def charText (spec : Spec) (c : BitVec 8) : List (BitVec 8) :=
  if spec.flags.left then c :: padCharText spec.fieldWidth
  else padCharText spec.fieldWidth ++ c :: padCharText (min 0 (int32 (spec.fieldWidth - 1)))

theorem convertChar_eq (last : Nat) (str : Out) (spec : Spec) (c : BitVec 8) :
    convertChar last str spec c = str.puts last (charText spec c) := by
  unfold convertChar charText
  by_cases hleft : spec.flags.left
  · simp only [if_pos hleft, padChar_eq, Cursor.puts_cons]
  · simp only [if_neg hleft, padChar_eq, Cursor.puts_append, Cursor.puts_cons]

/-- How much of a string is printed. -/
def stringLen (spec : Spec) (s : List (BitVec 8)) : Int :=
  let len := int32 s.length
  if 0 < spec.precision ∧ spec.precision < len then spec.precision else len

/-- `%s`. -/
def stringText (spec : Spec) (s : List (BitVec 8)) : List (BitVec 8) :=
  let len := stringLen spec s
  if spec.flags.left then s.take len.toNat ++ padText len (ch ' ') spec.fieldWidth
  else padText len (ch ' ') spec.fieldWidth ++ s.take len.toNat ++
    padText len (ch ' ') (padRest len spec.fieldWidth)

theorem convertString_eq (last : Nat) (str : Out) (spec : Spec) (s : List (BitVec 8)) :
    convertString last str spec s = str.puts last (stringText spec s) := by
  have hlen : (let len := int32 s.length
      if 0 < spec.precision ∧ spec.precision < len then spec.precision else len) =
      stringLen spec s := rfl
  unfold convertString stringText
  dsimp only at hlen ⊢
  rw [hlen]
  by_cases hleft : spec.flags.left
  · simp only [if_pos hleft, padWhile_eq, Cursor.puts_append]
  · simp only [if_neg hleft, padWhile_eq, Cursor.puts_append]

/-- `%p`. -/
def pointerPiece (spec : Spec) (p : BitVec 32) : Piece (BitVec 8) :=
  if spec.fieldWidth = -1 then
    numberPiece p 16 8 spec.precision { spec.flags with zeropad := true }
  else numberPiece p 16 spec.fieldWidth spec.precision spec.flags

/-- The integer conversions. -/
def integerPiece (spec : Spec) (base : Nat) (flags : Flags) (v : BitVec 32) : Piece (BitVec 8) :=
  numberPiece (integerArg spec.qualifier flags v) base spec.fieldWidth spec.precision flags

/-- What a directive writes, and the arguments behind it. -/
def convertPiece (spec : Spec) (c : BitVec 8) (args : List Arg) :
    Option (Piece (BitVec 8) × List Arg) :=
  if c = ch 'c' then
    (intArg args).map fun (v, args) => (.plain (charText spec (v.setWidth 8)), args)
  else if c = ch 's' then
    (strArg args).map fun (s, args) => (.plain (stringText spec s), args)
  else if c = ch 'p' then
    (ptrArg args).map fun (p, args) => (pointerPiece spec p, args)
  else if c = ch '%' then some (.plain [ch '%'], args)
  else
    match integerConversion c spec.flags with
    | some (base, flags) =>
      (intArg args).map fun (v, args) => (integerPiece spec base flags v, args)
    | none => some (.plain (if c = 0 then [ch '%'] else [ch '%', c]), args)

/-- A conversion that takes one argument writes the piece of that argument. -/
theorem map_convert_eq {α : Type} {last : Nat} {str : Out} {write : α → Out}
    (piece : α → Piece (BitVec 8)) (hwrite : ∀ a, write a = str.piece last (piece a))
    (arg : Option (α × List Arg)) :
    (arg.map fun r => (write r.1, r.2)) =
      (arg.map fun r => (piece r.1, r.2)).map fun r => (str.piece last r.1, r.2) := by
  rw [Option.map_map]
  congr 1
  funext r
  exact congrArg (·, r.2) (hwrite r.1)

/-- Every branch of the switch puts one piece, and fails where none is defined. -/
theorem convert_eq (last : Nat) (str : Out) (spec : Spec) (c : BitVec 8) (args : List Arg) :
    convert last str spec c args =
      (convertPiece spec c args).map fun r => (str.piece last r.1, r.2) := by
  unfold convert convertPiece
  split
  · exact map_convert_eq (fun v : BitVec 32 => .plain (charText spec (v.setWidth 8)))
      (fun _ => convertChar_eq ..) _
  split
  · exact map_convert_eq (fun s => .plain (stringText spec s)) (fun _ => convertString_eq ..) _
  split
  · refine map_convert_eq (pointerPiece spec) (fun p => ?_) _
    unfold convertPointer pointerPiece
    split <;> exact printNumber_eq ..
  split
  · rfl
  cases integerConversion c spec.flags with
  | none =>
    dsimp only [Option.map_some]
    split <;> rfl
  | some r => exact map_convert_eq (integerPiece spec r.1 r.2) (fun _ => printNumber_eq ..) _

/-! ## The format -/

/-- The pieces of a format with its arguments, if these match. -/
def messageOf (fmt : List (BitVec 8)) (args : List Arg) : Option (List (Piece (BitVec 8))) :=
  match fmt with
  | [] => some []
  | c :: fmt =>
    if c ≠ ch '%' then (messageOf fmt args).map (.plain [c] :: ·)
    else
      match _h : getSpec fmt args with
      | none => none
      | some (spec, rest, args) =>
        match convertPiece spec (peek rest) args with
        | none => none
        | some (p, args) => (messageOf rest.tail args).map (p :: ·)
termination_by fmt.length
decreasing_by
  · exact Nat.lt_succ_self _
  · have hle := length_getSpec_le _h
    have htail := length_tail_le rest
    rw [List.length_cons]
    omega

variable {fmt rest : List (BitVec 8)} {args args' : List Arg} {spec : Spec} {c : BitVec 8}

/-- A character that is not a percent sign stands for itself. -/
theorem messageOf_char (hc : c ≠ ch '%') :
    messageOf (c :: fmt) args = (messageOf fmt args).map (.plain [c] :: ·) := by
  rw [messageOf, if_pos hc]

/-- A directive whose arguments are missing ends the message. -/
theorem messageOf_none (hc : ¬ c ≠ ch '%') (h : getSpec fmt args = none) :
    messageOf (c :: fmt) args = none := by
  rw [messageOf, if_neg hc]
  split
  · rfl
  · next hspec =>
    rw [h] at hspec
    cases hspec

/-- A directive is one piece, and the rest of the format follows. -/
theorem messageOf_directive (hc : ¬ c ≠ ch '%') (h : getSpec fmt args = some (spec, rest, args')) :
    messageOf (c :: fmt) args =
      (convertPiece spec (peek rest) args').bind fun r =>
        (messageOf rest.tail r.2).map (r.1 :: ·) := by
  rw [messageOf, if_neg hc]
  split
  · next hspec =>
    rw [h] at hspec
    cases hspec
  · next spec' rest' more hspec =>
    rw [h] at hspec
    cases hspec
    cases convertPiece spec (peek rest) args' <;> rfl

/-- `rt_vsnprintf` writes the pieces. -/
theorem formatLoop_eq (last : Nat) (str : Out) (fmt : List (BitVec 8)) (args : List Arg) :
    formatLoop last str fmt args = (messageOf fmt args).map (str.run last) := by
  fun_induction formatLoop last str fmt args with
  | case1 str args =>
    rw [messageOf]
    rfl
  | case2 str args c fmt hc ih =>
    rw [messageOf_char hc, ih, Option.map_map]
    rfl
  | case3 str args c fmt hc hspec =>
    rw [messageOf_none hc hspec]
    rfl
  | case4 str args c fmt hc spec rest args' hspec hconvert =>
    rw [convert_eq, Option.map_eq_none_iff] at hconvert
    rw [messageOf_directive hc hspec, hconvert]
    rfl
  | case5 str args c fmt hc spec rest args' hspec str' more hconvert ih =>
    rw [convert_eq] at hconvert
    obtain ⟨⟨p, more'⟩, hpiece, hr⟩ := Option.map_eq_some_iff.mp hconvert
    cases hr
    rw [messageOf_directive hc hspec, hpiece, ih, Option.bind_some, Option.map_map]
    rfl

/-- A call has a result if and only if the arguments match the format. -/
theorem rtVsnprintf_isSome (mem : Nat → BitVec 8) (buf size : Nat) (fmt : CString)
    (args : List Arg) :
    (rtVsnprintf mem buf size fmt args).isSome = (messageOf fmt.chars args).isSome := by
  rw [rtVsnprintf, formatLoop_eq, Option.isSome_map, Option.isSome_map]

/-! ## The surplus of a number -/

theorem int32_of_range {x : Int} (hlo : -2 ^ 31 ≤ x) (hhi : x < 2 ^ 31) : int32 x = x :=
  Int.bmod_eq_of_le (by omega) (by omega)

theorem length_padText (lo : Int) (c : BitVec 8) (size : Int) :
    (padText lo c size).length = (size - lo).toNat := List.length_replicate

/-- As long as no counter wraps, the sign of a number has a surplus if it stands in front of
padding, which is then one character longer. -/
theorem surplus_digitsPiece (type : Flags) (sign : Option (BitVec 8)) (tmp : List (BitVec 8))
    (precision : Int) {size : Int} (hlo : -2 ^ 31 + 3 ≤ size) (hhi : size < 2 ^ 31) :
    (digitsPiece type sign tmp precision size).surplus =
      if sign.isSome ∧ (type.zeropad ∨ type.left) ∧ 0 < size then 1 else 0 := by
  cases sign with
  | none => rfl
  | some c =>
    unfold Piece.surplus digitsPiece frontText digitsText padRest
    dsimp only [Option.isSome_some]
    by_cases hleft : type.left
    · have hpad : type.zeropad ∨ type.left := .inr hleft
      have hone : int32 (size - 1) = size - 1 := int32_of_range (by omega) (by omega)
      simp only [if_pos hleft, if_true, true_and, List.length_append, length_padText,
        hpad, hone]
      split <;> omega
    by_cases hzero : type.zeropad
    · have hpad : type.zeropad ∨ type.left := .inl hzero
      have hone : int32 (size - 1) = size - 1 := int32_of_range (by omega) (by omega)
      have hrest : int32 (min 0 size - 1) = min 0 size - 1 := int32_of_range (by omega) (by omega)
      have hrest' : int32 (min 0 (size - 1) - 1) = min 0 (size - 1) - 1 :=
        int32_of_range (by omega) (by omega)
      simp only [if_neg hleft, if_true, true_and, List.length_append, length_padText,
        hpad, hone, hrest, hrest']
      split <;> omega
    · have hpad : ¬ (type.zeropad ∨ type.left) := by
        rintro (h | h)
        · exact hzero h
        · exact hleft h
      -- the blanks have been written, and what is left of the counter is not positive
      obtain ⟨r, hr, hrle, hrge⟩ : ∃ r,
          int32 (min 0 (if 0 < size then size - 1 else size) - 1) = r ∧ r < 0 ∧
            -2 ^ 31 + 2 ≤ r := by
        refine ⟨_, int32_of_range ?_ ?_, ?_, ?_⟩ <;> split <;> omega
      have hone : int32 (r - 1) = r - 1 := int32_of_range (by omega) (by omega)
      have hrest : int32 (min 0 r - 1) = min 0 r - 1 := int32_of_range (by omega) (by omega)
      have hrest' : int32 (min 0 (r - 1) - 1) = min 0 (r - 1) - 1 :=
        int32_of_range (by omega) (by omega)
      simp only [if_neg hleft, if_true, true_and, false_and, List.length_append,
        length_padText, hpad, hr, hone, hrest, hrest', if_false]
      omega

end RtVcom.Kservice
