import RtVcom.Lib.TextBuffer
import RtVcom.Lib.Word32

/-!
# Log lines

How `ulog.c` writes a line to its line buffer: `ulog_formater` for a message with level, time and
tag, and `ulog_hexdump` for the bytes of a buffer. The buffer has 128 bytes and is written through
`CArray`, so that a function without a result has written outside, or has read a string at NULL.

Configured as in `rtconfig.h`: colours, the time as a tick, the level and the tag, no thread name,
no filter; the message is printed by the C library's `vsnprintf`, of which nothing is known but
that it writes at most the size it is given (`Vsnprintf`). The line is not cleared between two
logs, and what it holds at first is of no account. The locks are left out: a line is written by
one caller at a time.
-/

namespace RtVcom.Ulog

open RtVcom.Lib

/-! ## The line -/

/-- `ULOG_LINE_BUF_SIZE`. -/
def lineBufSize : Nat := 128

/-- `log_buf_th` or `log_buf_isr`. -/
abbrev LineBuf := CArray (BitVec 8) lineBufSize

/-- `log_buf` and `log_len`. -/
abbrev Line := TextBuffer (BitVec 8) lineBufSize

/-- The characters of a string literal. -/
def ascii (s : String) : List (BitVec 8) := s.toList.map fun c => BitVec.ofNat 8 c.toNat

/-- `ulog_strcpy`: the buffer, and how many characters were copied. The test lets the running
length be the size of the buffer. -/
def ulogStrcpy (buf : LineBuf) (curLen dst : Nat) : List (BitVec 8) → Option (LineBuf × Nat)
  | [] => none
  | c :: src =>
    if c = 0 then some (buf, 0)
    else if curLen ≤ lineBufSize then do
      let buf ← buf.set? dst c
      let (buf, n) ← ulogStrcpy buf (curLen + 1) (dst + 1) src
      some (buf, n + 1)
    else some (buf, 0)

/-- `log_len += ulog_strcpy(log_len, log_buf + log_len, src)`. -/
def Line.strcpy (l : Line) (src : List (BitVec 8)) : Option Line :=
  (ulogStrcpy l.buf l.len l.len (src ++ [0])).map fun (buf, n) => ⟨buf, l.len + n⟩

/-! ## Numbers -/

/-- The first loop of `ulog_ultoa`: the digits from the last one on. -/
def storeDigits (buf : LineBuf) (s : Nat) : Nat → Nat → Nat → Option (LineBuf × Nat)
  | 0, _, _ => none
  | fuel + 1, n, len => do
    let buf ← buf.set? (s + len) (BitVec.ofNat 8 (n % 10 + 0x30))
    if n / 10 ≠ 0 then storeDigits buf s fuel (n / 10) (len + 1) else some (buf, len + 1)

/-- The second loop of `ulog_ultoa`. -/
def reverseString (buf : LineBuf) (s : Nat) : Nat → Nat → Nat → Option LineBuf
  | 0, _, _ => none
  | fuel + 1, i, j =>
    if i < j then do
      let swap ← buf.get? (s + i)
      let last ← buf.get? (s + j)
      let buf ← buf.set? (s + i) last
      let buf ← buf.set? (s + j) swap
      reverseString buf s fuel (i + 1) (j - 1)
    else some buf

/-- `ulog_ultoa`. -/
def ulogUltoa (buf : LineBuf) (s n : Nat) : Option (LineBuf × Nat) := do
  let (buf, len) ← storeDigits buf s (n + 1) n 0
  let buf ← buf.set? (s + len) 0
  let buf ← reverseString buf s (len + 1) 0 (len - 1)
  some (buf, len)

/-! ## `ulog_formater` -/

/-- `CSI_START`, `CSI_END` and `ULOG_NEWLINE_SIGN`. -/
def csiStart : List (BitVec 8) := ascii "\x1b["
def csiEnd : List (BitVec 8) := ascii "\x1b[0m"
def newlineSign : List (BitVec 8) := ascii "\r\n"

/-- `level_output_info`, with NULL for the levels that there are not. -/
def levelOutputInfo : List (Option (List (BitVec 8))) :=
  [some (ascii "A/"), none, none, some (ascii "E/"), some (ascii "W/"), none, some (ascii "I/"),
    some (ascii "D/")]

/-- `color_output_info`. -/
def colorOutputInfo : List (Option (List (BitVec 8))) :=
  [some (ascii "35m"), none, none, some (ascii "31m"), some (ascii "33m"), none,
    some (ascii "32m"), none]

/-- What `vsnprintf` writes for one message, and its result: any bytes, at most as many as it is
told. -/
structure Vsnprintf where
  written : Nat → List (BitVec 8)
  result : Nat → BitVec 32
  bounded : ∀ size, (written size).length ≤ size

/-- The colour of a level, if it has one. -/
def Line.color (l : Line) : Option (List (BitVec 8)) → Option Line
  | some info => do
    let l ← l.strcpy csiStart
    l.strcpy info
  | none => some l

/-- `[`, the tick and `]`. -/
def Line.time (l : Line) (tick : Nat) : Option Line := do
  let buf ← l.buf.set? l.len 0x5B
  let (buf, tickLen) ← ulogUltoa buf (l.len + 1) tick
  let buf ← buf.set? (l.len + 1 + tickLen) 0x5D
  let buf ← buf.set? (l.len + 1 + tickLen + 1) 0
  let n ← strlen (buf.ptr l.len)
  some ⟨buf, l.len + n⟩

/-- What stands before the message. -/
def Line.header (l : Line) (color : Option (List (BitVec 8))) (info : List (BitVec 8)) (tick : Nat)
    (tag : CString) : Option Line := do
  let l ← l.color color
  let l ← l.time tick
  let l ← l.strcpy (ascii " ")
  let l ← l.strcpy info
  let l ← l.strcpy tag.chars
  l.strcpy (ascii ": ")

/-- `ULOG_LINE_BUF_SIZE - log_len`. Without a result it wraps. -/
def Line.room (l : Line) : Option Nat :=
  if l.len ≤ lineBufSize then some (lineBufSize - l.len) else none

/-- The message. -/
def Line.message (l : Line) (vsnprintf : Vsnprintf) : Option Line := do
  let size ← l.room
  let buf ← l.buf.write l.len (vsnprintf.written size)
  let fmtResult := vsnprintf.result size
  let len := add32 l.len fmtResult.toNat
  some ⟨buf, if len ≤ lineBufSize ∧ -1 < fmtResult.toInt then len else lineBufSize⟩

/-- The newline and the end of the colour, for which room is made. -/
def Line.trailer (l : Line) (color : Option (List (BitVec 8))) (newline : Bool) : Option Line := do
  let reserve := csiEnd.length + newlineSign.length
  let l : Line := { l with
    len := if lineBufSize < l.len + reserve then lineBufSize - reserve else l.len }
  let l ← if newline then l.strcpy newlineSign else some l
  if color.isSome then l.strcpy csiEnd else some l

/-- `ulog_formater`. -/
def ulogFormater (vsnprintf : Vsnprintf) (buf : LineBuf) (level tick : BitVec 32) (tag : CString)
    (newline : Bool) : Option Line := do
  let color ← colorOutputInfo[level.toNat]?
  let info ← levelOutputInfo[level.toNat]?
  let info ← info
  let l ← Line.header ⟨buf, 0⟩ color info tick.toNat tag
  let l ← l.message vsnprintf
  l.trailer color newline

/-! ## `ulog_hexdump` -/

/-- One hexadecimal digit. -/
def hexDigit (d : Nat) : BitVec 8 := BitVec.ofNat 8 (if d < 10 then 0x30 + d else 0x37 + d)

/-- `%02X` and a space. -/
def hexByte (b : BitVec 8) : List (BitVec 8) :=
  [hexDigit (b.toNat / 16), hexDigit (b.toNat % 16), 0x20]

/-- `%04X`. -/
def hexWord (n : Nat) : List (BitVec 8) :=
  let digits := (Nat.toDigits 16 n).map fun c => BitVec.ofNat 8 c.toUpper.toNat
  List.replicate (4 - digits.length) 0x30 ++ digits

/-- `%04X-%04X: `. -/
def hexRange (first last : Nat) : List (BitVec 8) :=
  hexWord first ++ ascii "-" ++ hexWord last ++ ascii ": "

/-- `%c` with `__is_print`. -/
def printable (b : BitVec 8) : List (BitVec 8) :=
  [if 0x20 ≤ b.toNat ∧ b.toNat < 0x7F then b else 0x2E]

/-- What `rt_snprintf` writes for a text. -/
def snprintf (size : Nat) (text : List (BitVec 8)) : List (BitVec 8) := text.take (size - 1) ++ [0]

/-- The arguments of `ulog_hexdump`; `data` is the memory behind `buf`. -/
structure HexDump where
  tag : CString
  width : BitVec 32
  size : BitVec 32
  data : Nat → BitVec 8

namespace HexDump

/-- The number of one byte, or blanks behind the last one. -/
def column (d : HexDump) (i j : Nat) (l : Line) : Option Line := do
  let l ← l.strcpy
    (if add32 i j < d.size.toNat then hexByte (d.data (add32 i j)) else ascii "   ")
  if (j + 1) % 8 = 0 then l.strcpy (ascii " ") else some l

/-- The character of one byte. -/
def char (d : HexDump) (i j : Nat) (l : Line) : Option Line :=
  if add32 i j < d.size.toNat then l.strcpy (printable (d.data (add32 i j))) else some l

/-- The header of the first line, and the blanks below it. -/
def header (d : HexDump) (i : Nat) (l : Line) : Option Line :=
  if i = 0 then do
    let l ← l.strcpy (ascii "D/HEX ")
    let l ← l.strcpy d.tag.chars
    l.strcpy (ascii ": ")
  else do
    let len := add32 (add32 6 d.tag.chars.length) 2
    let buf ← l.buf.write 0 (List.replicate len 0x20)
    some ⟨buf, len⟩

/-- The range of a line. -/
def range (d : HexDump) (i : Nat) (l : Line) : Option Line := do
  let text := hexRange i (add32 i d.width.toNat)
  let buf ← l.buf.write l.len (snprintf lineBufSize text)
  some ⟨buf, if text.length ≤ lineBufSize then l.len + text.length else lineBufSize⟩

/-- The newline, for which room is made. -/
def newline (l : Line) : Option Line :=
  Line.strcpy
    { l with
      len := if lineBufSize < l.len + newlineSign.length then lineBufSize - newlineSign.length
        else l.len }
    newlineSign

/-- One round of the loop, up to `do_output`. -/
def line (d : HexDump) (i : Nat) (l : Line) : Option Line := do
  let l ← d.header i l
  let l ← d.range i l
  let l : Line ← TextBuffer.loop (d.column i) 0 d.width.toNat l
  let l ← l.strcpy (ascii "  ")
  let l : Line ← TextBuffer.loop (d.char i) 0 d.width.toNat l
  newline l

/-- The loop, for a number of rounds, with the lines that are handed to `do_output`. -/
def lines (d : HexDump) : Nat → Nat → Line → Option (List Line)
  | 0, _, _ => some []
  | fuel + 1, i, l =>
    if i < d.size.toNat then do
      let l ← d.line i l
      let rest ← d.lines fuel (add32 i d.width.toNat) l
      some (l :: rest)
    else some []

end HexDump

/-- `ulog_hexdump`, up to a number of lines. -/
def ulogHexdump (d : HexDump) (buf : LineBuf) (fuel : Nat) : Option (List Line) :=
  d.lines fuel 0 ⟨buf, 0⟩

end RtVcom.Ulog
