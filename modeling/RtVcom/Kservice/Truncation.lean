import RtVcom.Kservice.FormatPieces

/-!
# Formatting into a buffer that is too small

`rt_vsnprintf` for one message and two sizes. It counts the sign of a number only where it stores
it, so that a number whose sign falls behind the buffer gets one more character of padding, and the
result is another one than with a larger buffer. `truncation_iff` says when the two calls agree: the
signs between the two limits make no difference to the length (their surplus is 0), and the text
does not run over the end of the address space.

`rt_kprintf` formats into all of `rt_log_buf` but one byte, and then prints one byte too many of a
text that was cut, the NUL (`logText`).
-/

namespace RtVcom.Kservice

open RtVcom.Lib

variable {mem : Nat → BitVec 8} {buf n m : Nat} {fmt : CString} {args : List Arg}
  {pieces : List (Piece (BitVec 8))}

/-! ## One call -/

/-- What a call leaves that has written `text` to a buffer of `n` bytes, and its result. -/
structure Printed (mem : Nat → BitVec 8) (buf n : Nat) (text : List (BitVec 8)) (out : Out × Nat) :
    Prop where
  stored : ∀ x ∈ out.1.stored, buf ≤ x ∧ x < buf + n
  result : out.2 = text.length
  nul : out.1.mem (buf + min (n - 1) text.length) = 0
  chars : ∀ i < min (n - 1) text.length, text[i]? = some (out.1.mem (buf + i))
  others : ∀ x, x < buf ∨ buf + n ≤ x → out.1.mem x = mem x

/-- A region that ends in the address space ends one byte in front of its limit. -/
theorem endOf_eq (hbuf : 0 < buf) (hn : 1 ≤ n) (hend : buf + n ≤ 0x100000000) :
    endOf buf n = buf + n - 1 := by
  have hlast : sub32 (add32 buf n) 1 = buf + n - 1 := by
    unfold sub32 add32
    omega
  unfold endOf
  rw [hlast]
  exact if_neg (by omega)

/-- What the pieces wrote is printed, with the NUL that ends it. -/
theorem printed_of_wrote {text : List (BitVec 8)} {k : Out} (h : Wrote buf n mem text k)
    (hn : 1 ≤ n) (hbuf : buf + text.length < 0x100000000) :
    Printed mem buf n text (terminate (buf + n - 1) k, sub32 k.str buf) := by
  have hresult : sub32 k.str buf = text.length := by
    rw [h.str, sub32_of_le (by omega) hbuf, Nat.add_sub_cancel_left]
  have hplace : terminate (buf + n - 1) k = k.store (buf + min (n - 1) text.length) 0 := by
    unfold terminate
    rw [h.str]
    split
    · next hle => rw [show min (n - 1) text.length = text.length by omega]
    · next hgt => rw [show buf + min (n - 1) text.length = buf + n - 1 by omega]
  refine ⟨?_, hresult, ?_, ?_, ?_⟩
  · rw [hplace]
    intro x hx
    rcases List.mem_cons.mp hx with rfl | hx
    · omega
    · exact h.stored x hx
  · rw [hplace]
    exact Function.update_self ..
  · intro i hi
    have hlt : i < text.length := by omega
    have hkept : (k.store (buf + min (n - 1) text.length) 0).mem (buf + i) = k.mem (buf + i) :=
      Function.update_of_ne (by omega) ..
    rw [hplace, hkept, h.mem, if_pos (by omega), Nat.add_sub_cancel_left,
      List.getElem?_eq_getElem hlt, Option.getD_some]
  · intro x hx
    rw [hplace]
    refine (Function.update_of_ne (by omega) ..).trans ?_
    rw [h.mem, if_neg (by omega)]

/-- A call whose text does not reach the end of the address space. -/
theorem vsnprintf_printed (hmessage : messageOf fmt.chars args = some pieces) (hbuf : 0 < buf)
    (hn : 1 ≤ n) (hend : buf + n ≤ 0x100000000)
    (hfit : buf + (textOf n 0 pieces).length < 0x100000000) :
    ∃ out, rtVsnprintf mem buf n fmt args = some out ∧
      Printed mem buf n (textOf n 0 pieces) out := by
  have hwrote := (Wrote.nil buf n mem).run hn pieces (by rwa [List.length_nil, Nat.add_zero])
  refine ⟨_, ?_, printed_of_wrote hwrote hn hfit⟩
  rw [rtVsnprintf, endOf_eq hbuf hn hend, formatLoop_eq, hmessage]
  rfl

/-- A call of `rt_vsnprintf` prints the text of its pieces, as long as its counter does not wrap. -/
theorem printed_of_call (hmessage : messageOf fmt.chars args = some pieces) (hbuf : 0 < buf)
    (hn : 1 ≤ n) (hend : buf + n ≤ 0x100000000) {out : Out × Nat}
    (hout : rtVsnprintf mem buf n fmt args = some out)
    (hfit : buf + (textOf n 0 pieces).length < 0x100000000) :
    Printed mem buf n (textOf n 0 pieces) out := by
  obtain ⟨out', hout', hprinted⟩ :=
    @vsnprintf_printed mem _ _ _ _ _ hmessage hbuf hn hend hfit
  rw [hout] at hout'
  cases hout'
  exact hprinted

/-- A call whose text reaches the end of the address space stores to its begin. -/
theorem vsnprintf_wraps (hmessage : messageOf fmt.chars args = some pieces) (hbuf : 0 < buf)
    (hn : 1 ≤ n) (hend : buf + n ≤ 0x100000000)
    (hover : 0x100000000 ≤ buf + (textOf n 0 pieces).length) :
    ∃ out, rtVsnprintf mem buf n fmt args = some out ∧ 0 ∈ out.1.stored := by
  have hstart : Reached buf 0 (⟨buf, mem, []⟩ : Out) := by
    right
    exact ⟨by omega, by dsimp only; omega⟩
  have hreached := hstart.run hn pieces
  refine ⟨(terminate (buf + n - 1) (Cursor.run (buf + n - 1) ⟨buf, mem, []⟩ pieces),
    sub32 (Cursor.run (buf + n - 1) ⟨buf, mem, []⟩ pieces).str buf), ?_, ?_⟩
  · rw [rtVsnprintf, endOf_eq hbuf hn hend, formatLoop_eq, hmessage]
    rfl
  · rw [Nat.zero_add] at hreached
    dsimp only
    unfold terminate
    rcases hreached with hzero | ⟨hle, hstr⟩
    · split
      · exact List.mem_cons_of_mem _ hzero
      · exact List.mem_cons_of_mem _ hzero
    · have hwrapped : (Cursor.run (buf + n - 1) ⟨buf, mem, []⟩ pieces).str = 0 := by
        rw [hstr]
        omega
      rw [hwrapped, if_pos (Nat.zero_le _)]
      exact List.mem_cons_self

/-! ## Two sizes -/

/-- What is expected of two calls with buffers of `n` and of `m` bytes at one address. -/
structure Truncates (buf n m : Nat) (outN outM : Out × Nat) : Prop where
  inside : ∀ x ∈ outN.1.stored, buf ≤ x ∧ x < buf + n
  inside' : ∀ x ∈ outM.1.stored, buf ≤ x ∧ x < buf + m
  result : outN.2 = outM.2
  nul : outN.1.mem (buf + min (n - 1) outN.2) = 0
  front : ∀ i < min (n - 1) outN.2, outN.1.mem (buf + i) = outM.1.mem (buf + i)

/-- The text stays in front of the end of the address space, with the padding that is added for
signs behind a buffer of `m` bytes. -/
def StaysBelow (buf m : Nat) (pieces : List (Piece (BitVec 8))) : Prop :=
  (buf : Int) + (fullText pieces).length + surplus (m ≤ ·) 0 pieces < 0x100000000

/-- The signs that only the larger buffer stores make no difference to the length. -/
def SignsAgree (n m : Nat) (pieces : List (Piece (BitVec 8))) : Prop :=
  surplus (fun i => n ≤ i ∧ i < m) 0 pieces = 0

/-- No counter wraps where the text of the larger size ends in the address space. -/
theorem staysBelow_iff :
    StaysBelow buf m pieces ↔ buf + (textOf m 0 pieces).length < 0x100000000 := by
  have hlen := length_textOf m pieces
  unfold StaysBelow
  omega

/-- The surplus blanks of the two sizes are equal where the two texts are equally long. -/
theorem signsAgree_iff (hnm : n ≤ m) :
    SignsAgree n m pieces ↔ (textOf n 0 pieces).length = (textOf m 0 pieces).length := by
  have hn := length_textOf n pieces
  have hm := length_textOf m pieces
  have hadd := surplus_add hnm 0 pieces
  unfold SignsAgree
  omega

/-- A call that stores to its buffer only has a text that does not reach the end of the address
space. -/
theorem staysBelow_of_inside (hmessage : messageOf fmt.chars args = some pieces) (hbuf : 0 < buf)
    (hn : 1 ≤ n) (hend : buf + n ≤ 0x100000000) {out : Out × Nat}
    (hout : rtVsnprintf mem buf n fmt args = some out)
    (hinside : ∀ x ∈ out.1.stored, buf ≤ x) : buf + (textOf n 0 pieces).length < 0x100000000 := by
  by_contra hover
  obtain ⟨out', hout', hzero⟩ :=
    @vsnprintf_wraps mem _ _ _ _ _ hmessage hbuf hn hend (Nat.not_lt.mp hover)
  rw [hout] at hout'
  cases hout'
  have hle := hinside 0 hzero
  omega

/-- The exact condition under which the smaller size gives the front of what the larger one gives,
with the same result: no piece prints a surplus blank in one of the two only, and no counter wraps.
-/
theorem truncates_iff (hmessage : messageOf fmt.chars args = some pieces) (hbuf : 0 < buf)
    (hn : 1 ≤ n) (hnm : n ≤ m) (hend : buf + m ≤ 0x100000000) {outN outM : Out × Nat}
    (hN : rtVsnprintf mem buf n fmt args = some outN)
    (hM : rtVsnprintf mem buf m fmt args = some outM) :
    Truncates buf n m outN outM ↔ SignsAgree n m pieces ∧ StaysBelow buf m pieces := by
  have hendN : buf + n ≤ 0x100000000 := by omega
  have hm : 1 ≤ m := hn.trans hnm
  rw [signsAgree_iff hnm, staysBelow_iff]
  constructor
  · intro h
    have hfitN := staysBelow_of_inside hmessage hbuf hn hendN hN fun x hx => (h.inside x hx).1
    have hfitM := staysBelow_of_inside hmessage hbuf hm hend hM fun x hx => (h.inside' x hx).1
    have hprintedN := printed_of_call hmessage hbuf hn hendN hN hfitN
    have hprintedM := printed_of_call hmessage hbuf hm hend hM hfitM
    refine ⟨?_, hfitM⟩
    rw [← hprintedN.result, ← hprintedM.result, h.result]
  · rintro ⟨hlen, hfitM⟩
    have hfitN : buf + (textOf n 0 pieces).length < 0x100000000 := hlen.symm ▸ hfitM
    have hprintedN := printed_of_call hmessage hbuf hn hendN hN hfitN
    have hprintedM := printed_of_call hmessage hbuf hm hend hM hfitM
    refine ⟨hprintedN.stored, hprintedM.stored, ?_, ?_, ?_⟩
    · rw [hprintedN.result, hprintedM.result, hlen]
    · rw [hprintedN.result]
      exact hprintedN.nul
    · intro i hi
      rw [hprintedN.result] at hi
      have hcharN := hprintedN.chars i hi
      have hcharM := hprintedM.chars i (by omega)
      rw [getElem?_textOf (by omega)] at hcharN hcharM
      rw [hcharN] at hcharM
      exact Option.some.inj hcharM

/-! ## `rt_kprintf` -/

/-- What `rt_kprintf` is to do: it stores to `rt_log_buf` only, and prints the front of the
message. -/
structure PrintsFront (rtLogBuf : Nat) (pieces : List (Piece (BitVec 8)))
    (out : Out × List (BitVec 8)) : Prop where
  inside : ∀ x ∈ out.1.stored, rtLogBuf ≤ x ∧ x < rtLogBuf + Console.rtConsolebufSize
  front : out.2 <+: fullText pieces

/-- What is printed of a text, to a device. -/
def logText (text : List (BitVec 8)) : List (BitVec 8) :=
  if text.length < Console.rtConsolebufSize - 1 then text
  else text.take (Console.rtConsolebufSize - 2) ++ [0]

/-- Bytes that are equal one by one are equal as a text. -/
theorem bytesAt_eq {text : List (BitVec 8)} {a k : Nat} (hlen : text.length = k)
    (h : ∀ i < k, text[i]? = some (mem (a + i))) : bytesAt mem a k = text := by
  apply List.ext_getElem?
  intro i
  by_cases hi : i < k
  · rw [h i hi, bytesAt, List.getElem?_map, List.getElem?_range hi, Option.map_some]
  · have hend : (bytesAt mem a k).length ≤ i := by
      rw [bytesAt, List.length_map, List.length_range]
      omega
    rw [List.getElem?_eq_none hend, List.getElem?_eq_none (by omega)]

/-- That is what `rt_kprintf` of a board writes of a text. -/
theorem logText_eq_rtLogBuf (text : List (BitVec 8)) :
    (logText text).map UInt8.ofBitVec = Console.rtLogBuf (text.map UInt8.ofBitVec) := by
  unfold logText Console.rtLogBuf
  rw [List.length_map]
  split
  · rfl
  · rw [List.map_append, List.map_take]
    rfl

/-- A cut text is printed with a NUL in the place of its last byte. -/
theorem logText_prefix_iff (t : List (BitVec 8)) :
    logText t <+: t ↔ t.length < 127 ∨ t[126]? = some 0 := by
  have hnext : t.take 127 = t.take 126 ++ t[126]?.toList := List.take_add_one
  by_cases hshort : t.length < 127
  · have hall : logText t = t := if_pos hshort
    rw [hall]
    exact iff_of_true (List.prefix_refl t) (.inl hshort)
  · have hcut : logText t = t.take 126 ++ [0] := if_neg hshort
    have hlen : (t.take 126 ++ [0]).length = 127 := by
      rw [List.length_append, List.length_take_of_le (by omega), List.length_singleton]
    rw [hcut, List.prefix_iff_eq_take, hlen, hnext, List.append_cancel_left_eq]
    constructor
    · intro h
      right
      cases hlast : t[126]? with
      | none => rw [List.getElem?_eq_none_iff] at hlast; omega
      | some c =>
        rw [hlast, Option.toList_some] at h
        rw [List.singleton_inj.mp h]
    · rintro (h | h)
      · exact absurd h hshort
      · rw [h, Option.toList_some]

theorem bytesAt_succ (mem : Nat → BitVec 8) (a k : Nat) :
    bytesAt mem a (k + 1) = bytesAt mem a k ++ [mem (a + k)] := by
  rw [bytesAt, List.range_succ, List.map_append]
  rfl

/-- The front of a region is the shorter region. -/
theorem take_bytesAt (mem : Nat → BitVec 8) (a : Nat) {j k : Nat} (h : j ≤ k) :
    (bytesAt mem a k).take j = bytesAt mem a j := by
  rw [bytesAt, ← List.map_take, List.take_range, Nat.min_eq_left h]
  rfl

variable {out : Out × Nat}

/-- The buffer holds the front of the full text. -/
theorem Printed.bytes_front (h : Printed mem buf n (textOf n 0 pieces) out) (hn : 1 ≤ n) :
    bytesAt out.1.mem buf (min (n - 1) (textOf n 0 pieces).length) =
      (fullText pieces).take (min (n - 1) (textOf n 0 pieces).length) := by
  have htake : (fullText pieces).take (min (n - 1) (textOf n 0 pieces).length) =
      (textOf n 0 pieces).take (min (n - 1) (textOf n 0 pieces).length) := by
    have hfront := congrArg (List.take (min (n - 1) (textOf n 0 pieces).length))
      (take_textOf n pieces)
    rw [List.take_take, List.take_take, Nat.min_eq_left (by omega)] at hfront
    exact hfront.symm
  rw [htake]
  apply bytesAt_eq
  · rw [List.length_take]
    omega
  · intro i hi
    rw [List.getElem?_take_of_lt hi]
    exact h.chars i hi

/-- What the console device is written: the text as `rt_kprintf` cuts it. -/
theorem Printed.device (h : Printed mem buf 127 (textOf 127 0 pieces) out) :
    bytesAt out.1.mem buf (if 127 < out.2 then 127 else out.2) =
      logText (fullText pieces) := by
  have hbytes := h.bytes_front (by decide)
  have htake := congrArg List.length (take_textOf 127 pieces)
  rw [List.length_take, List.length_take] at htake
  rw [h.result]
  by_cases hshort : (textOf 127 0 pieces).length < 127
  · have hall : logText (fullText pieces) = fullText pieces := by
      apply if_pos
      show (fullText pieces).length < 127
      omega
    rw [Nat.min_eq_right (by omega), List.take_of_length_le (by omega)] at hbytes
    rw [if_neg (by omega), hall, hbytes]
  · have hcut : logText (fullText pieces) = (fullText pieces).take 126 ++ [0] := by
      apply if_neg
      show ¬ (fullText pieces).length < 127
      omega
    have hlast : (if 127 < (textOf 127 0 pieces).length then 127
        else (textOf 127 0 pieces).length) = 126 + 1 := by
      split <;> omega
    have hmin : min (127 - 1) (textOf 127 0 pieces).length = 126 := by omega
    have hnul := h.nul
    rw [hmin] at hbytes hnul
    rw [hlast, hcut, ← hbytes, bytesAt_succ, hnul]

/-- A front that ends at the latest where an element fails the test. -/
theorem length_takeWhile_le_of_not {α : Type} {p : α → Bool} {l : List α} {j : Nat} {x : α}
    (h : l[j]? = some x) (hx : ¬ p x) : (l.takeWhile p).length ≤ j := by
  induction l generalizing j with
  | nil => cases h
  | cons a l ih =>
    cases j with
    | zero =>
      cases h
      rw [List.takeWhile_cons_of_neg hx]
      exact Nat.le_refl 0
    | succ j =>
      rw [List.takeWhile_cons]
      split
      · exact Nat.succ_le_succ (ih h)
      · exact Nat.zero_le _

/-- What `rt_hw_console_output` prints, up to the NUL, is a front of the full text. -/
theorem Printed.string (h : Printed mem buf 127 (textOf 127 0 pieces) out) :
    (bytesAt out.1.mem buf 128).takeWhile (· ≠ 0) <+: fullText pieces := by
  have hbytes := h.bytes_front (by decide)
  generalize hj : min (127 - 1) (textOf 127 0 pieces).length = j at hbytes
  have hnul : (bytesAt out.1.mem buf 128)[j]? = some 0 := by
    rw [bytesAt, List.getElem?_map, List.getElem?_range (by omega), Option.map_some]
    exact congrArg some (hj ▸ h.nul)
  have hpart : (bytesAt out.1.mem buf 128).takeWhile (· ≠ 0) <+:
      bytesAt out.1.mem buf 128 := List.takeWhile_prefix _
  have hlen : ((bytesAt out.1.mem buf 128).takeWhile (· ≠ 0)).length ≤ j :=
    length_takeWhile_le_of_not hnul (by decide)
  have hfront := List.prefix_take_iff.mpr ⟨hpart, hlen⟩
  rw [take_bytesAt _ _ (by omega), hbytes] at hfront
  exact hfront.trans (List.take_prefix _ _)

/-- The exact condition under which `rt_kprintf` prints the front of the full text that its buffer
has room for: no counter wraps, and on a console device the text is shorter than 127 characters or
has a NUL behind its 126th. -/
theorem kprintf_iff (hmessage : messageOf fmt.chars args = some pieces) {rtLogBuf : Nat}
    (hbuf : 0 < rtLogBuf) (hend : rtLogBuf + Console.rtConsolebufSize ≤ 0x100000000)
    {device : Bool} {out : Out × List (BitVec 8)}
    (hout : rtKprintf device mem rtLogBuf fmt args = some out) :
    PrintsFront rtLogBuf pieces out ↔ StaysBelow rtLogBuf 127 pieces ∧
      (device → (fullText pieces).length < 127 ∨ (fullText pieces)[126]? = some 0) := by
  have hsize : Console.rtConsolebufSize = 128 := rfl
  obtain ⟨⟨k, length⟩, hcall, hr⟩ := Option.map_eq_some_iff.mp hout
  rw [staysBelow_iff]
  have hprinted (hfit : rtLogBuf + (textOf 127 0 pieces).length < 0x100000000) :
      Printed mem rtLogBuf 127 (textOf 127 0 pieces) (k, length) :=
    printed_of_call hmessage hbuf (show 1 ≤ 127 by decide) (by omega) hcall hfit
  cases hr
  constructor
  · rintro ⟨hinside, hfront⟩
    have hfit := staysBelow_of_inside hmessage hbuf (show 1 ≤ 127 by decide) (by omega) hcall
      fun x hx => (hinside x hx).1
    refine ⟨hfit, ?_⟩
    rintro rfl
    rw [← logText_prefix_iff, ← (hprinted hfit).device]
    exact hfront
  · rintro ⟨hfit, hlast⟩
    constructor
    · intro x hx
      have hx' := (hprinted hfit).stored x hx
      omega
    cases device with
    | true =>
      have hdevice := (logText_prefix_iff _).mpr (hlast rfl)
      rw [← (hprinted hfit).device] at hdevice
      exact hdevice
    | false => exact (hprinted hfit).string

/-! ## Truncation -/

/-- `rt_vsnprintf` with two sizes agrees if and only if no sign between the two limits makes a
difference and the text stays below the end of the address space; and `rt_kprintf` prints the front
of its message if and only if the text stays below and is not cut by a NUL of the buffer. -/
theorem truncation_iff (hmessage : messageOf fmt.chars args = some pieces) (mem : Nat → BitVec 8)
    (hbuf : 0 < buf) (hn : 1 ≤ n) (hnm : n ≤ m) (hend : buf + m ≤ 0x100000000) (device : Bool)
    {rtLogBuf : Nat} (hlog : 0 < rtLogBuf)
    (hlogEnd : rtLogBuf + Console.rtConsolebufSize ≤ 0x100000000) :
    (∃ outN outM, rtVsnprintf mem buf n fmt args = some outN ∧
      rtVsnprintf mem buf m fmt args = some outM ∧
      (Truncates buf n m outN outM ↔ SignsAgree n m pieces ∧ StaysBelow buf m pieces)) ∧
    ∃ out, rtKprintf device mem rtLogBuf fmt args = some out ∧
      (PrintsFront rtLogBuf pieces out ↔ StaysBelow rtLogBuf 127 pieces ∧
        (device → (fullText pieces).length < 127 ∨ (fullText pieces)[126]? = some 0)) := by
  have hresult (b k : Nat) : ∃ out, rtVsnprintf mem b k fmt args = some out := by
    rw [← Option.isSome_iff_exists, rtVsnprintf_isSome, hmessage]
    rfl
  obtain ⟨outN, hN⟩ := hresult buf n
  obtain ⟨outM, hM⟩ := hresult buf m
  obtain ⟨out, hout⟩ := hresult rtLogBuf (Console.rtConsolebufSize - 1)
  refine ⟨⟨outN, outM, hN, hM, truncates_iff hmessage hbuf hn hnm hend hN hM⟩, ?_⟩
  have hprinted : ∃ printed, rtKprintf device mem rtLogBuf fmt args = some printed := by
    rw [rtKprintf, hout]
    exact ⟨_, rfl⟩
  obtain ⟨printed, hprinted⟩ := hprinted
  exact ⟨printed, hprinted, kprintf_iff hmessage hlog hlogEnd hprinted⟩

/-- `"%4d"`, and the pieces of it for -5. -/
def widthFour : CString where
  chars := chars "%4d"
  nulFree := by
    unfold NulFree
    decide

/-- A field of width 4 and a negative number, cut to three bytes. -/
theorem truncation_four :
    ∃ outN outM, rtVsnprintf (fun _ => 0) 0x20000000 3 widthFour [.int (-5)] = some outN ∧
      rtVsnprintf (fun _ => 0) 0x20000000 16 widthFour [.int (-5)] = some outM ∧
      Truncates 0x20000000 3 16 outN outM := by
  have hmessage : messageOf widthFour.chars [.int (-5)] =
      some [⟨chars "  ", some (ch '-'), chars "5", chars "5"⟩] := by
    decide +kernel
  obtain ⟨⟨outN, outM, hN, hM, hiff⟩, -⟩ := truncation_iff (n := 3) (m := 16) hmessage
    (fun _ => 0) (show 0 < 0x20000000 by decide) (by decide) (by decide) (by decide) true
    (show 0 < 0x20001000 by decide) (by decide)
  have hsigns : SignsAgree 3 16 [⟨chars "  ", some (ch '-'), chars "5", chars "5"⟩] := by
    unfold SignsAgree
    decide
  have hbelow : StaysBelow 0x20000000 16 [⟨chars "  ", some (ch '-'), chars "5", chars "5"⟩] := by
    unfold StaysBelow
    decide
  exact ⟨outN, outM, hN, hM, hiff.mpr ⟨hsigns, hbelow⟩⟩

/-- `"a%-3d"`. -/
def leftThree : CString where
  chars := chars "a%-3d"
  nulFree := by
    unfold NulFree
    decide

/-- The sign of -1 falls behind a buffer of one byte, and the number is padded by one more blank. -/
theorem sign_not_counted :
    ∃ outN outM, rtVsnprintf (fun _ => 0) 0x20000000 1 leftThree [.int (-1)] = some outN ∧
      rtVsnprintf (fun _ => 0) 0x20000000 8 leftThree [.int (-1)] = some outM ∧
      outN.2 = 5 ∧ outM.2 = 4 ∧ ¬ Truncates 0x20000000 1 8 outN outM := by
  have hN : (rtVsnprintf (fun _ => 0) 0x20000000 1 leftThree [.int (-1)]).map Prod.snd =
      some 5 := by
    decide +kernel
  have hM : (rtVsnprintf (fun _ => 0) 0x20000000 8 leftThree [.int (-1)]).map Prod.snd =
      some 4 := by
    decide +kernel
  obtain ⟨outN, houtN, hfive⟩ := Option.map_eq_some_iff.mp hN
  obtain ⟨outM, houtM, hfour⟩ := Option.map_eq_some_iff.mp hM
  refine ⟨outN, outM, houtN, houtM, hfive, hfour, ?_⟩
  intro h
  have hsame := h.result
  rw [hfive, hfour] at hsame
  exact absurd hsame (by decide)

end RtVcom.Kservice
