import RtVcom.Lib.Machine
import RtVcom.Finsh.Msh

/-!
# The line editor of the shell

`finsh_thread_entry` takes one byte after the other: an escape sequence moves in the history or in
the line, a tab completes the line, Enter runs it, and any other character is put in at the cursor.
The state is the part of `struct finsh_shell` that it works on. A byte is handled in two steps, as
the loop does it: which key it is in the state of the escape sequence (`decode`), and what the key
does (`handleKey`). Accesses outside of `line` or `cmd_history` have no result.

What the editor is for is `Editor`, a text with a cursor. As long as a character never comes when
the line has 79, the shell refines it: `line` holds the text of the editor with NUL behind it, and
`line_position` and `line_curpos` are its length and its cursor (`Sound`), whatever keys are
pressed.

The character that makes a line of 80 resets both positions but leaves the line, which then has no
NUL. Every reader that looks for one passes the end of the array (`fullLine_runs_off`).
-/

namespace RtVcom.Finsh

open RtVcom.Lib

/-- `FINSH_CMD_SIZE`. -/
def finshCmdSize : Nat := 80

/-- `FINSH_HISTORY_LINES`. -/
def finshHistoryLines : Nat := 5

/-- `enum input_stat`. -/
inductive InputStat
  | waitNormal
  | waitSpecKey
  | waitFuncKey
deriving Repr, DecidableEq

/-- The buffer of one line. -/
abbrev Line := CArray (BitVec 8) finshCmdSize

/-- The fields of `struct finsh_shell` that the line editor uses; the counters of the history have
16 bits, and the positions have 8. -/
structure Shell where
  stat : InputStat
  echoMode : Bool
  currentHistory : Nat
  historyCount : Nat
  cmdHistory : CArray Line finshHistoryLines
  line : Line
  linePosition : Nat
  lineCurpos : Nat
deriving DecidableEq

/-- The state that the loop starts in: everything is zero, and the echo is on. -/
def Shell.boot : Shell where
  stat := .waitNormal
  echoMode := true
  currentHistory := 0
  historyCount := 0
  cmdHistory := .fill _ (.fill _ 0)
  line := .fill _ 0
  linePosition := 0
  lineCurpos := 0

/-- What a byte stands for; `skip` is a byte that changes nothing but `stat`. -/
inductive Key
  | skip
  | up
  | down
  | left
  | right
  | tab
  | backspace
  | enter
  | char
deriving Repr, DecidableEq

/-- The key of a byte that is not a part of an escape sequence. -/
def plainKey (ch : BitVec 8) : Key :=
  if ch = 0x00 ∨ ch = 0xFF then .skip
  else if ch = 0x09 then .tab
  else if ch = 0x7F ∨ ch = 0x08 then .backspace
  else if ch = 0x0D ∨ ch = 0x0A then .enter
  else .char

/-- The beginning of the loop: `stat` behind the byte, and the key that it makes. A byte that breaks
an escape sequence off stands for itself. -/
def decode (stat : InputStat) (ch : BitVec 8) : InputStat × Key :=
  if ch = 0x1B then (.waitSpecKey, .skip)
  else
    match stat with
    | .waitSpecKey => if ch = 0x5B then (.waitFuncKey, .skip) else (.waitNormal, plainKey ch)
    | .waitFuncKey =>
      if ch = 0x41 then (.waitNormal, .up)
      else if ch = 0x42 then (.waitNormal, .down)
      else if ch = 0x44 then (.waitNormal, .left)
      else if ch = 0x43 then (.waitNormal, .right)
      else (.waitNormal, plainKey ch)
    | .waitNormal => (.waitNormal, plainKey ch)

/-- `rt_kprintf("%s", &line[i])`. -/
def printLine (line : Line) (i : Nat) : Option Unit := do
  let _ ← strlen (line.ptr i)
  some ()

/-- The row of `current_history` becomes the line, and `shell_handle_history` prints it. -/
def showHistory (s : Shell) : Option Shell := do
  let line ← s.cmdHistory.get? s.currentHistory
  let size ← strlen (line.ptr 0)
  printLine line 0
  some { s with line := line, linePosition := size % 0x100, lineCurpos := size % 0x100 }

/-- The up key. -/
def upKey (s : Shell) : Option Shell :=
  if 0 < s.currentHistory then showHistory { s with currentHistory := s.currentHistory - 1 }
  else some { s with currentHistory := 0 }

/-- The down key; the comparison is one of `int`. -/
def downKey (s : Shell) : Option Shell :=
  if (s.currentHistory : Int) < (s.historyCount : Int) - 1 then
    showHistory { s with currentHistory := (s.currentHistory + 1) % 0x10000 }
  else if s.historyCount ≠ 0 then showHistory { s with currentHistory := s.historyCount - 1 }
  else some s

/-- The left key. -/
def leftKey (s : Shell) : Option Shell :=
  if s.lineCurpos ≠ 0 then some { s with lineCurpos := s.lineCurpos - 1 } else some s

/-- The right key, which prints the character it passes. -/
def rightKey (s : Shell) : Option Shell :=
  if s.lineCurpos < s.linePosition then do
    let _ ← s.line.get? s.lineCurpos
    some { s with lineCurpos := (s.lineCurpos + 1) % 0x100 }
  else some s

/-- Backspace and DEL. -/
def backspaceKey (s : Shell) : Option Shell :=
  if s.lineCurpos = 0 then some s
  else
    let position := (s.linePosition + 0xFF) % 0x100
    let curpos := s.lineCurpos - 1
    if curpos < position then do
      let line ← s.line.memmove curpos (curpos + 1) (position - curpos)
      let line ← line.set? position 0
      printLine line curpos
      some { s with line := line, linePosition := position, lineCurpos := curpos }
    else do
      let line ← s.line.set? position 0
      some { s with line := line, linePosition := position, lineCurpos := curpos }

/-- A row of the history that is cleared and gets the text of the line. -/
def historyRow (s : Shell) : Option Line :=
  (CArray.fill finshCmdSize 0).memcpy s.line s.linePosition

/-- The line is the last one of a history that is not full. -/
def isLast (s : Shell) : Option Bool :=
  if s.historyCount = 0 then some false
  else do
    let last ← s.cmdHistory.get? (s.historyCount - 1)
    some (last = s.line)

/-- The line is pushed to the history, unless it is empty or the last one there. -/
def pushHistory (s : Shell) : Option Shell :=
  if s.linePosition = 0 then some s
  else if finshHistoryLines ≤ s.historyCount then do
    let last ← s.cmdHistory.get? (finshHistoryLines - 1)
    if last ≠ s.line then
      let history ← s.cmdHistory.copyUp 0 1 (finshHistoryLines - 1)
      let row ← historyRow s
      let history ← history.set? (finshHistoryLines - 1) row
      some { s with cmdHistory := history, historyCount := finshHistoryLines }
    else some s
  else do
    if ← isLast s then some s
    else
      let row ← historyRow s
      let history ← s.cmdHistory.set? s.historyCount row
      some { s with cmdHistory := history, historyCount := (s.historyCount + 1) % 0x10000 }

/-- `shell_push_history`. -/
def shellPushHistory (s : Shell) : Option Shell := do
  let s ← pushHistory s
  some { s with currentHistory := s.historyCount }

/-- The end of the loop: a character is put in at the cursor. -/
def normalChar (s : Shell) (ch : BitVec 8) : Option Shell :=
  -- it's a large line, discard it
  let position := if finshCmdSize ≤ s.linePosition then 0 else s.linePosition
  let behind (line : Line) : Shell :=
    -- clear command line: the positions are reset, the line is not
    if finshCmdSize ≤ (position + 1) % 0x100 then
      { s with line := line, linePosition := 0, lineCurpos := 0 }
    else
      { s with line := line, linePosition := (position + 1) % 0x100,
               lineCurpos := (s.lineCurpos + 1) % 0x100 }
  if s.lineCurpos < position then do
    let line ← s.line.memmove (s.lineCurpos + 1) s.lineCurpos (position - s.lineCurpos)
    let line ← line.set? s.lineCurpos ch
    if s.echoMode then printLine line s.lineCurpos
    some (behind line)
  else do
    let line ← s.line.set? position ch
    some (behind line)

section Loop

variable {F : Type} (table : List (Syscall F))

/-- The tab key: `shell_auto_complete`, which prints the line behind the completion. -/
def tabKey (s : Shell) : Option Shell := do
  let (line, _) ← mshAutoComplete table s.line
  printLine line 0
  let size ← strlen (line.ptr 0)
  some { s with line := line, linePosition := size % 0x100, lineCurpos := size % 0x100 }

/-- Enter: what the command that is called does with its arguments is not a part of the line
editor, and the line is cleared behind it. -/
def enterKey (s : Shell) : Option Shell := do
  let s ← shellPushHistory s
  let _ ← mshExec table s.line s.linePosition
  some { s with line := .fill _ 0, linePosition := 0, lineCurpos := 0 }

/-- What a key does. -/
def handleKey (s : Shell) (ch : BitVec 8) : Key → Option Shell
  | .skip => some s
  | .up => upKey s
  | .down => downKey s
  | .left => leftKey s
  | .right => rightKey s
  | .tab => tabKey table s
  | .backspace => backspaceKey s
  | .enter => enterKey table s
  | .char => normalChar s ch

/-- One round of the loop of `finsh_thread_entry`. -/
def finshThreadEntry (s : Shell) (ch : BitVec 8) : Option Shell :=
  handleKey table { s with stat := (decode s.stat ch).1 } ch (decode s.stat ch).2

end Loop

/-- What happens to the shell: a byte comes in, or, between two bytes, `finsh_set_echo` is called or
`finsh_set_device` switches to another device. -/
inductive Event
  | input (ch : BitVec 8)
  | setEcho (echo : Bool)
  | setDevice
deriving Repr, DecidableEq

/-- A command table whose names are shorter than the line. -/
structure CommandTable (F : Type) where
  entries : List (Syscall F)
  namesFit : NamesFit entries finshCmdSize

/-- The shell with a command table. -/
def finsh {F : Type} (table : CommandTable F) : Machine Shell Event where
  init := .boot
  step s
    | .input ch => finshThreadEntry table.entries s ch
    | .setEcho echo => some { s with echoMode := echo }
    | .setDevice => some { s with line := .fill _ 0, linePosition := 0, lineCurpos := 0 }

/-! ## A text with a cursor -/

/-- What the line editor is for: the characters before the cursor, the nearest first, and those
behind it. -/
structure Editor (α : Type) where
  before : List α
  behind : List α

namespace Editor

variable {α : Type}

/-- The text. -/
def text (e : Editor α) : List α := e.before.reverse ++ e.behind

/-- A text with the cursor at its end. -/
def atEnd (t : List α) : Editor α := ⟨t.reverse, []⟩

def left (e : Editor α) : Editor α :=
  match e.before with
  | [] => e
  | c :: l => ⟨l, c :: e.behind⟩

def right (e : Editor α) : Editor α :=
  match e.behind with
  | [] => e
  | c :: r => ⟨c :: e.before, r⟩

def insert (e : Editor α) (c : α) : Editor α := ⟨c :: e.before, e.behind⟩

def backspace (e : Editor α) : Editor α := ⟨e.before.tail, e.behind⟩

/-- A text with the cursor behind it is that text. -/
@[simp]
theorem text_atEnd (t : List α) : (atEnd t).text = t := by
  simp only [text, atEnd, List.reverse_reverse, List.append_nil]

/-- A text is what stands before the cursor and behind it. -/
theorem length_text (e : Editor α) : e.text.length = e.before.length + e.behind.length := by
  rw [text, List.length_append, List.length_reverse]

/-- The cursor moves, the text stays. -/
theorem text_left (e : Editor α) : e.left.text = e.text := by
  obtain ⟨before, behind⟩ := e
  cases before with
  | nil => rfl
  | cons c l => simp only [left, text, List.reverse_cons, List.append_assoc, List.singleton_append]

theorem text_right (e : Editor α) : e.right.text = e.text := by
  obtain ⟨before, behind⟩ := e
  cases behind with
  | nil => rfl
  | cons c r => simp only [right, text, List.reverse_cons, List.append_assoc, List.singleton_append]

theorem text_insert (e : Editor α) (c : α) :
    (e.insert c).text = e.before.reverse ++ c :: e.behind := by
  simp only [insert, text, List.reverse_cons, List.append_assoc, List.singleton_append]

end Editor

/-! ## The shell refines it -/

/-- The shell shows a text with a cursor. -/
structure Shell.Shows (s : Shell) (e : Editor (BitVec 8)) : Prop where
  line : s.line.Holds e.text
  position : s.linePosition = e.text.length
  curpos : s.lineCurpos = e.before.length

/-- The history: every row holds a text, and the two counters stay in their order. -/
structure Shell.HistoryFits (s : Shell) : Prop where
  rows : ∀ row ∈ s.cmdHistory.items, ∃ t, row.Holds t
  count : s.historyCount ≤ finshHistoryLines
  current : s.currentHistory ≤ s.historyCount

/-- What holds between two bytes. -/
structure Shell.Sound (s : Shell) (e : Editor (BitVec 8)) : Prop where
  shows : s.Shows e
  history : s.HistoryFits

/-- The cursor is inside the line. -/
theorem Shell.Shows.curpos_le {s : Shell} {e : Editor (BitVec 8)} (h : s.Shows e) :
    s.lineCurpos ≤ s.linePosition := by
  rw [h.curpos, h.position, e.length_text]
  exact Nat.le_add_right _ _

theorem Shell.Shows.position_lt {s : Shell} {e : Editor (BitVec 8)} (h : s.Shows e) :
    s.linePosition < finshCmdSize := h.position ▸ h.line.fits

/-- A row is a line with the cursor at the end of its text. -/
theorem shows_atEnd {s : Shell} {line : Line} {t : List (BitVec 8)} (h : line.Holds t) :
    Shell.Shows { s with line := line, linePosition := t.length, lineCurpos := t.length }
      (.atEnd t) where
  line := by rwa [Editor.text_atEnd]
  position := by rw [Editor.text_atEnd]
  curpos := by rw [Editor.atEnd, List.length_reverse]

/-- A line that holds a text can be printed from any place of it. -/
theorem printLine_holds {line : Line} {t : List (BitVec 8)} (h : line.Holds t) {i : Nat}
    (hi : i ≤ t.length) : printLine line i = some () := by
  simp only [printLine, h.strlen_ptr hi, Option.bind_eq_bind, Option.bind_some]

/-- A size below that of the line is not changed by the conversion to 8 bits. -/
theorem size_mod {line : Line} {t : List (BitVec 8)} (h : line.Holds t) :
    t.length % 0x100 = t.length := by
  have hfits : t.length < 80 := h.fits
  omega

/-- The shell begins with an empty line. -/
theorem boot_sound : Shell.boot.Sound (.atEnd []) where
  shows := shows_atEnd (s := .boot) (CArray.holds_fill (by decide))
  history :=
    { rows := by
        intro row hrow
        exact ⟨[], (List.eq_of_mem_replicate hrow) ▸ CArray.holds_fill (by decide)⟩
      count := Nat.zero_le _
      current := Nat.le_refl _ }

theorem Shell.Sound.clear {s : Shell} {e : Editor (BitVec 8)} (h : s.Sound e) :
    Shell.Sound { s with line := .fill _ 0, linePosition := 0, lineCurpos := 0 } (.atEnd []) :=
  ⟨shows_atEnd (CArray.holds_fill (by decide)), ⟨h.history.rows, h.history.count,
    h.history.current⟩⟩

/-- A change of the line and the positions leaves the history. -/
theorem Shell.HistoryFits.of_line {s : Shell} (h : s.HistoryFits) (line : Line)
    (position curpos : Nat) :
    Shell.HistoryFits { s with line := line, linePosition := position, lineCurpos := curpos } :=
  ⟨h.rows, h.count, h.current⟩

section Keys

variable {s : Shell} {e : Editor (BitVec 8)}

/-- The left arrow is the editor's. -/
theorem leftKey_sound (h : s.Sound e) : ∃ t, leftKey s = some t ∧ t.Sound e.left := by
  have hcur := h.shows.curpos
  obtain ⟨before, behind⟩ := e
  cases before with
  | nil => exact ⟨s, if_neg (not_not_intro hcur), h⟩
  | cons c l =>
    have hne : s.lineCurpos ≠ 0 := by rw [hcur]; exact Nat.succ_ne_zero _
    refine ⟨_, if_pos hne, ⟨?_, ?_, ?_⟩, h.history.of_line _ _ _⟩
    · rw [Editor.text_left]
      exact h.shows.line
    · rw [Editor.text_left]
      exact h.shows.position
    · change s.lineCurpos - 1 = l.length
      rw [hcur, List.length_cons, Nat.add_sub_cancel]

theorem rightKey_sound (h : s.Sound e) : ∃ t, rightKey s = some t ∧ t.Sound e.right := by
  have hcur := h.shows.curpos
  have hpos := h.shows.position
  have hlt : s.linePosition < 80 := h.shows.position_lt
  rw [Editor.length_text] at hpos
  obtain ⟨before, behind⟩ := e
  cases behind with
  | nil =>
    have hle : ¬ s.lineCurpos < s.linePosition := by rw [hcur, hpos]; exact Nat.lt_irrefl _
    exact ⟨s, if_neg hle, h⟩
  | cons c r =>
    have hcurlt : s.lineCurpos < s.linePosition := by
      rw [hcur, hpos, List.length_cons]
      omega
    obtain ⟨v, hv⟩ := s.line.exists_get? (show s.lineCurpos < 80 by omega)
    have hmod : (s.lineCurpos + 1) % 0x100 = s.lineCurpos + 1 := by omega
    simp only [rightKey, if_pos hcurlt, hv, hmod, Option.bind_eq_bind, Option.bind_some]
    refine ⟨_, rfl, ⟨?_, ?_, ?_⟩, h.history.of_line _ _ _⟩
    · rw [Editor.text_right]
      exact h.shows.line
    · rw [Editor.text_right]
      exact h.shows.position
    · exact congrArg (· + 1) hcur

theorem backspaceKey_sound (h : s.Sound e) :
    ∃ t, backspaceKey s = some t ∧ t.Sound e.backspace := by
  have hcur := h.shows.curpos
  have hpos := h.shows.position
  have hline := h.shows.line
  have hlt : s.linePosition < 80 := h.shows.position_lt
  rw [Editor.length_text] at hpos
  obtain ⟨before, behind⟩ := e
  cases before with
  | nil => exact ⟨s, if_pos hcur, h⟩
  | cons c l =>
    simp only [Editor.text, List.reverse_cons, List.append_assoc, List.singleton_append] at hline
    simp only [List.length_cons] at hcur hpos
    have hne : s.lineCurpos ≠ 0 := by omega
    have hdown : (s.linePosition + 0xFF) % 0x100 = l.length + behind.length := by omega
    have hcurdown : s.lineCurpos - 1 = l.length := by omega
    have hlen : ∀ b : List (BitVec 8), (l.reverse ++ b).length = l.length + b.length := by
      intro b
      rw [List.length_append, List.length_reverse]
    simp only [backspaceKey, if_neg hne, hdown, hcurdown]
    by_cases hbehind : behind = []
    · -- the cursor stands at the end, and a NUL is enough
      subst hbehind
      obtain ⟨line, hset, hholds⟩ := hline.deleteLast
      rw [List.length_reverse] at hset
      simp only [List.length_nil, Nat.add_zero, Nat.lt_irrefl, if_false, hset, Option.bind_eq_bind,
        Option.bind_some]
      refine ⟨_, rfl, ⟨?_, ?_, rfl⟩, h.history.of_line _ _ _⟩
      · simpa only [Editor.text, Editor.backspace, List.tail_cons, List.append_nil] using hholds
      · simp only [Editor.text, Editor.backspace, List.tail_cons, hlen, List.length_nil,
          Nat.add_zero]
    · obtain ⟨line₁, line, hmove, hset, hholds⟩ := hline.delete
      rw [List.length_reverse] at hmove hset
      have hpos : l.length < l.length + behind.length :=
        Nat.lt_add_of_pos_right (List.length_pos_iff.mpr hbehind)
      have hprint : printLine line l.length = some () :=
        printLine_holds hholds (by rw [hlen]; omega)
      simp only [if_pos hpos, Nat.add_sub_cancel_left, hmove, hset, hprint, Option.bind_eq_bind,
        Option.bind_some]
      refine ⟨_, rfl, ⟨?_, ?_, rfl⟩, h.history.of_line _ _ _⟩
      · exact hholds
      · exact (hlen behind).symm

/-- A character that finds room. -/
theorem normalChar_sound (h : s.Sound e) {ch : BitVec 8} (hch : ch ≠ 0)
    (hroom : s.linePosition + 1 < finshCmdSize) :
    ∃ t, normalChar s ch = some t ∧ t.Sound (e.insert ch) := by
  have hcur := h.shows.curpos
  have hpos := h.shows.position
  have hline := h.shows.line
  have hroom' : s.linePosition + 1 < 80 := hroom
  have hsmall : ¬ finshCmdSize ≤ s.linePosition := by omega
  have hle := h.shows.curpos_le
  have hup : (s.linePosition + 1) % 0x100 = s.linePosition + 1 := by omega
  have hcurup : (s.lineCurpos + 1) % 0x100 = s.lineCurpos + 1 := by omega
  have hmore : ¬ finshCmdSize ≤ s.linePosition + 1 := by omega
  have hshows : ∀ line : Line, line.Holds (e.insert ch).text →
      Shell.Sound { s with line := line, linePosition := s.linePosition + 1,
                           lineCurpos := s.lineCurpos + 1 } (e.insert ch) := by
    intro line hholds
    refine ⟨⟨hholds, ?_, congrArg (· + 1) hcur⟩, h.history.of_line _ _ _⟩
    change s.linePosition + 1 = _
    rw [hpos, Editor.length_text, Editor.length_text]
    simp only [Editor.insert, List.length_cons]
    omega
  simp only [normalChar, if_neg hsmall, hup, hcurup, if_neg hmore]
  rw [Editor.length_text] at hpos
  by_cases hbehind : e.behind = []
  · have hend : s.lineCurpos = s.linePosition := by
      rw [hcur, hpos, hbehind]
      rfl
    rw [Editor.text, hbehind, List.append_nil] at hline
    obtain ⟨line, hset, hholds⟩ := hline.append hch
      (by rw [List.length_reverse]; omega)
    rw [List.length_reverse, ← hcur, hend] at hset
    simp only [hend, Nat.lt_irrefl, if_false, hset, Option.bind_eq_bind, Option.bind_some]
    refine ⟨_, rfl, ?_⟩
    have hsound := hshows line (by rw [Editor.text_insert, hbehind]; exact hholds)
    rwa [hend] at hsound
  · obtain ⟨line₁, line, hmove, hset, hholds⟩ := hline.insert hch
      (by rw [List.length_append, List.length_reverse]; omega)
    rw [List.length_reverse, ← hcur] at hmove hset
    have hcurlt : s.lineCurpos < s.linePosition := by
      have := List.length_pos_iff.mpr hbehind
      omega
    have hprint : printLine line s.lineCurpos = some () :=
      printLine_holds hholds (by rw [List.length_append, List.length_reverse]; omega)
    have hcount : s.linePosition - s.lineCurpos = e.behind.length := by omega
    simp only [if_pos hcurlt, hcount, hmove, hset, hprint, ite_self, Option.bind_eq_bind,
      Option.bind_some]
    exact ⟨_, rfl, hshows line (by rwa [Editor.text_insert])⟩

/-- A row of the history is shown. -/
theorem showHistory_sound (h : s.HistoryFits) (hcurrent : s.currentHistory < finshHistoryLines) :
    ∃ t u, showHistory s = some t ∧ t.Sound (.atEnd u) := by
  obtain ⟨row, hrow⟩ := s.cmdHistory.exists_get? hcurrent
  obtain ⟨u, hholds⟩ := h.rows row (List.mem_of_getElem? hrow)
  refine ⟨_, u, ?_, shows_atEnd hholds, h.of_line _ _ _⟩
  simp only [showHistory, hrow, hholds.strlen_ptr (Nat.zero_le _), Nat.sub_zero, size_mod hholds,
    printLine_holds hholds (Nat.zero_le _), Option.bind_eq_bind, Option.bind_some]

/-- The up arrow shows a line of the history. -/
theorem upKey_sound (h : s.Sound e) : ∃ t e', upKey s = some t ∧ t.Sound e' := by
  have hcount := h.history.count
  have hcurrent := h.history.current
  by_cases hzero : 0 < s.currentHistory
  · obtain ⟨t, u, ht, hsound⟩ := showHistory_sound
      (s := { s with currentHistory := s.currentHistory - 1 })
      ⟨h.history.rows, hcount, by dsimp only; omega⟩ (by dsimp only; omega)
    exact ⟨t, _, (if_pos hzero).trans ht, hsound⟩
  · exact ⟨_, e, if_neg hzero, ⟨h.shows.line, h.shows.position, h.shows.curpos⟩,
      ⟨h.history.rows, hcount, Nat.zero_le _⟩⟩

theorem downKey_sound (h : s.Sound e) : ∃ t e', downKey s = some t ∧ t.Sound e' := by
  have hcount : s.historyCount ≤ 5 := h.history.count
  have hcurrent := h.history.current
  unfold downKey
  split
  · next hlt =>
    obtain ⟨t, u, ht, hsound⟩ := showHistory_sound
      (s := { s with currentHistory := (s.currentHistory + 1) % 0x10000 })
      ⟨h.history.rows, hcount, by dsimp only; omega⟩
      (show (s.currentHistory + 1) % 0x10000 < 5 by omega)
    exact ⟨t, _, ht, hsound⟩
  · split
    · next hne =>
      obtain ⟨t, u, ht, hsound⟩ := showHistory_sound
        (s := { s with currentHistory := s.historyCount - 1 })
        ⟨h.history.rows, hcount, Nat.sub_le _ _⟩ (show s.historyCount - 1 < 5 by omega)
      exact ⟨t, _, ht, hsound⟩
    · exact ⟨s, e, rfl, h⟩

/-- The rows behind a write hold texts. -/
theorem rows_of_set? {history history' : CArray Line finshHistoryLines} {i : Nat} {row : Line}
    (h : ∀ r ∈ history.items, ∃ t, r.Holds t) (hrow : ∃ t, row.Holds t)
    (hset : history.set? i row = some history') : ∀ r ∈ history'.items, ∃ t, r.Holds t := by
  intro r hr
  obtain ⟨j, hj⟩ := List.getElem?_of_mem hr
  have hget := CArray.get?_of_set? hset j
  rw [CArray.get?_eq_some_iff.mpr hj] at hget
  split at hget
  · exact Option.some.inj hget ▸ hrow
  · exact h r (List.mem_of_getElem? hget.symm)

/-- The rows behind the move of the history hold texts. -/
theorem rows_of_copyUp {history : CArray Line finshHistoryLines}
    (h : ∀ r ∈ history.items, ∃ t, r.Holds t) :
    ∃ history', history.copyUp 0 1 (finshHistoryLines - 1) = some history' ∧
      ∀ r ∈ history'.items, ∃ t, r.Holds t := by
  obtain ⟨history', hcopy, hcopied⟩ := history.copyUp_copied (finshHistoryLines - 1) 0 1
    (by decide) (by decide) (.inl (by decide))
  refine ⟨history', hcopy, fun r hr => h r ?_⟩
  rw [hcopied] at hr
  obtain hr | hr := List.mem_append.mp hr
  · obtain hr | hr := List.mem_append.mp hr
    · exact List.mem_of_mem_take hr
    · exact List.mem_of_mem_drop (List.mem_of_mem_take hr)
  · exact List.mem_of_mem_drop hr

/-- The row entered next holds the text of the line. -/
theorem historyRow_holds (h : s.Shows e) : ∃ row, historyRow s = some row ∧ row.Holds e.text := by
  rw [historyRow, h.position]
  exact h.line.memcpy h.line.fits

/-- The line can be compared with the last entry. -/
theorem exists_isLast (h : s.historyCount < finshHistoryLines) : ∃ same, isLast s = some same := by
  unfold isLast
  split
  · exact ⟨_, rfl⟩
  · obtain ⟨last, hlast⟩ := s.cmdHistory.exists_get? (show s.historyCount - 1 < _ by omega)
    exact ⟨_, by rw [hlast]; rfl⟩

/-- What a push may change: the rows and their number. -/
structure Shell.Pushed (s t : Shell) : Prop where
  frame : t = { s with cmdHistory := t.cmdHistory, historyCount := t.historyCount }
  rows : ∀ row ∈ t.cmdHistory.items, ∃ u, row.Holds u
  count : t.historyCount ≤ finshHistoryLines

/-- `shell_push_history` puts the line behind the others. -/
theorem pushHistory_pushed (h : s.HistoryFits)
    (hnew : ∃ row u, historyRow s = some row ∧ row.Holds u) :
    ∃ t, pushHistory s = some t ∧ s.Pushed t := by
  have hsame : s.Pushed s := ⟨rfl, h.rows, h.count⟩
  obtain ⟨row, u, hrow, hholds⟩ := hnew
  unfold pushHistory
  split
  · exact ⟨s, rfl, hsame⟩
  split
  · -- a full history loses its first row
    obtain ⟨last, hlast⟩ := s.cmdHistory.exists_get? (show finshHistoryLines - 1 < _ by decide)
    simp only [hlast, Option.bind_eq_bind, Option.bind_some]
    split
    · obtain ⟨moved, hmove, hrows⟩ := rows_of_copyUp h.rows
      obtain ⟨history, hset, -⟩ := CArray.set?_eq_some (b := moved)
        (show finshHistoryLines - 1 < _ by decide) row
      simp only [hmove, hrow, hset, Option.bind_some]
      exact ⟨_, rfl, rfl, rows_of_set? hrows ⟨_, hholds⟩ hset, Nat.le_refl _⟩
    · exact ⟨s, rfl, hsame⟩
  · next hless =>
    have hlt : s.historyCount < finshHistoryLines := Nat.lt_of_not_le hless
    obtain ⟨same, hlast⟩ := exists_isLast hlt
    simp only [hlast, Option.bind_eq_bind, Option.bind_some]
    split
    · exact ⟨s, rfl, hsame⟩
    · obtain ⟨history, hset, -⟩ := CArray.set?_eq_some (b := s.cmdHistory) hlt row
      simp only [hrow, hset, Option.bind_some]
      exact ⟨_, rfl, rfl, rows_of_set? h.rows ⟨_, hholds⟩ hset,
        Nat.le_trans (Nat.mod_le _ _) hlt⟩

/-- `shell_push_history` stays inside the history, and leaves the line. -/
theorem shellPushHistory_sound (h : s.Sound e) :
    ∃ t, shellPushHistory s = some t ∧ t.Sound e := by
  obtain ⟨row, hrow, hholds⟩ := historyRow_holds h.shows
  obtain ⟨t, hpush, hframe, hrows, hcount⟩ := pushHistory_pushed h.history ⟨row, _, hrow, hholds⟩
  simp only [shellPushHistory, hpush, Option.bind_eq_bind, Option.bind_some]
  rw [hframe]
  exact ⟨_, rfl, ⟨h.shows.line, h.shows.position, h.shows.curpos⟩, ⟨hrows, hcount, Nat.le_refl _⟩⟩

section Table

variable {F : Type} {table : List (Syscall F)}

theorem tabKey_sound (hnames : NamesFit table finshCmdSize) (h : s.Sound e) :
    ∃ t e', tabKey table s = some t ∧ t.Sound e' := by
  obtain ⟨line, names, u, hcomplete, hholds⟩ := mshAutoComplete_holds hnames h.shows.line
  refine ⟨_, .atEnd u, ?_, shows_atEnd hholds, h.history.of_line _ _ _⟩
  simp only [tabKey, hcomplete, printLine_holds hholds (Nat.zero_le _),
    hholds.strlen_ptr (Nat.zero_le _), Nat.sub_zero, size_mod hholds, Option.bind_eq_bind,
    Option.bind_some]

theorem enterKey_sound (table : List (Syscall F)) (h : s.Sound e) :
    ∃ t, enterKey table s = some t ∧ t.Sound (.atEnd []) := by
  obtain ⟨t, hpush, hsound⟩ := shellPushHistory_sound h
  have hsmall : e.text.length < 80 := hsound.shows.line.fits
  obtain ⟨r, hexec⟩ := mshExec_inside table hsound.shows.line (by omega)
  rw [← hsound.shows.position] at hexec
  refine ⟨_, ?_, hsound.clear⟩
  simp only [enterKey, hpush, hexec, Option.bind_eq_bind, Option.bind_some]

/-- A byte that is put in is not NUL. -/
theorem decode_char {stat : InputStat} {ch : BitVec 8} (h : (decode stat ch).2 = .char) :
    ch ≠ 0 := by
  rintro rfl
  cases stat <;> cases h

/-- Every key is handled inside the buffers. -/
theorem handleKey_sound (hnames : NamesFit table finshCmdSize) (h : s.Sound e) {ch : BitVec 8}
    {key : Key} (hkey : key = .char → ch ≠ 0 ∧ s.linePosition + 1 < finshCmdSize) :
    ∃ t e', handleKey table s ch key = some t ∧ t.Sound e' := by
  cases key with
  | skip => exact ⟨s, e, rfl, h⟩
  | up => exact upKey_sound h
  | down => exact downKey_sound h
  | left => exact ⟨_, _, (leftKey_sound h).choose_spec⟩
  | right => exact ⟨_, _, (rightKey_sound h).choose_spec⟩
  | tab => exact tabKey_sound hnames h
  | backspace => exact ⟨_, _, (backspaceKey_sound h).choose_spec⟩
  | enter => exact ⟨_, _, (enterKey_sound table h).choose_spec⟩
  | char =>
    obtain ⟨hch, hroom⟩ := hkey rfl
    exact ⟨_, _, (normalChar_sound h hch hroom).choose_spec⟩

end Table

end Keys

/-! ## Every run -/

/-- The step does not put a character in at the end of a line of 79. -/
def NoOverflow (s : Shell) : Event → Prop
  | .input ch => (decode s.stat ch).2 = .char → s.linePosition + 1 < finshCmdSize
  | _ => True

instance : DecidableRel NoOverflow
  | s, .input ch =>
    inferInstanceAs (Decidable ((decode s.stat ch).2 = .char → s.linePosition + 1 < finshCmdSize))
  | _, .setEcho _ => isTrue trivial
  | _, .setDevice => isTrue trivial

variable {F : Type}

/-- The positions are those of the line, and every step that meets `ok` stays inside the line and
the history. -/
def Inside (table : CommandTable F) (ok : Shell → Event → Prop) (s : Shell) : Prop :=
  s.lineCurpos ≤ s.linePosition ∧ s.linePosition < finshCmdSize ∧
    ∀ event, ok s event → ((finsh table).step s event).isSome

/-- One step without an overflow. -/
theorem step_sound (table : CommandTable F) {s : Shell} {e : Editor (BitVec 8)} (h : s.Sound e)
    {event : Event} (hok : NoOverflow s event) :
    ∃ t e', (finsh table).step s event = some t ∧ t.Sound e' := by
  cases event with
  | input ch =>
    have hstat : Shell.Sound { s with stat := (decode s.stat ch).1 } e :=
      ⟨⟨h.shows.line, h.shows.position, h.shows.curpos⟩,
        ⟨h.history.rows, h.history.count, h.history.current⟩⟩
    exact handleKey_sound table.namesFit hstat fun hkey => ⟨decode_char hkey, hok hkey⟩
  | setEcho echo =>
    exact ⟨_, e, rfl, ⟨h.shows.line, h.shows.position, h.shows.curpos⟩,
      ⟨h.history.rows, h.history.count, h.history.current⟩⟩
  | setDevice => exact ⟨_, _, rfl, h.clear⟩

/-- In every state that is reached without an overflow, the shell shows a text with a cursor. -/
theorem sound_of_reach (table : CommandTable F) {s : Shell}
    (h : (finsh table).Reach NoOverflow s) : ∃ e, s.Sound e := by
  refine h.invariant (P := fun s => ∃ e, s.Sound e) ⟨_, boot_sound⟩ ?_
  rintro s event t ⟨e, hs⟩ hok hstep
  obtain ⟨t', e', hstep', hsound⟩ := step_sound table hs hok
  rw [hstep] at hstep'
  exact ⟨e', Option.some.inj hstep' ▸ hsound⟩

/-- As long as no character is put in at the end of a line of 79, the line editor stays inside its
buffers: for every command table and every sequence of bytes. -/
theorem lineEditor_inside (table : CommandTable F) {s : Shell}
    (h : (finsh table).Reach NoOverflow s) : Inside table NoOverflow s := by
  obtain ⟨e, hs⟩ := sound_of_reach table h
  refine ⟨hs.shows.curpos_le, hs.shows.position_lt, fun event hok => ?_⟩
  obtain ⟨t, -, hstep, -⟩ := step_sound table hs hok
  rw [hstep, Option.isSome_some]

/-- A table with the one command `help`. -/
def helpTable : CommandTable Unit where
  entries :=
    [{ name := ⟨cmdMark.chars ++ [0x68, 0x65, 0x6C, 0x70], by simp [NulFree, cmdMark]⟩, func := () }]
  namesFit := by
    intro index hindex q hq
    cases List.mem_singleton.mp hindex
    cases hq
    decide

/-- The bytes "he", a tab, the left key, a backspace, Enter and the up key: the line is then the
command "hep" of the history, with the cursor at its end. -/
theorem lineEditor_inside_after_up : ∃ s, (finsh helpTable).Reach NoOverflow s ∧
    (s.historyCount = 1 ∧ s.linePosition = 3) ∧ Inside helpTable NoOverflow s := by
  obtain ⟨s, hs, hlast⟩ := Machine.exists_reach_of_run (finsh helpTable) NoOverflow
    ([0x68, 0x65, 0x09, 0x1B, 0x5B, 0x44, 0x08, 0x0D, 0x1B, 0x5B, 0x41].map .input)
    (fun s => s.historyCount = 1 ∧ s.linePosition = 3) (by decide +kernel)
  exact ⟨s, hs, hlast, lineEditor_inside helpTable hs⟩

/-- A line of 80 characters leaves no NUL: a tab behind it reads behind the line. -/
theorem fullLine_runs_off : ¬ ∀ (table : CommandTable Unit) (s : Shell),
    (finsh table).Reach Machine.any s → Inside table Machine.any s := by
  intro h
  obtain ⟨s, hs, htab⟩ := Machine.exists_reach_of_run (finsh helpTable) Machine.any
    (List.replicate finshCmdSize (.input 0x61))
    (fun s => (finsh helpTable).step s (.input 0x09) = none) (by decide +kernel)
  have hsome := (h helpTable s hs).2.2 (.input 0x09) trivial
  rw [htab] at hsome
  cases hsome

end RtVcom.Finsh
