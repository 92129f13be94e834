import RtVcom.Finsh.LineEditor
import RtVcom.Lib.Recent
import Mathlib.Data.List.Forall2

/-!
# The history of the shell

What the rows of `cmd_history` are after any number of lines: the last five of the lines that were
entered, without the empty ones and without repetitions in a row (`remembered`), the oldest first.

`shell_push_history` has two branches, one that fills the history and one that moves it up, each
with its own comparison of the last row with the line. Both are the same step of a bounded memory
(`pushHistory_keeps`, with `Lib.push`). The rows are compared over their whole size, which decides
for the texts because a row and the line hold nothing but NUL behind them (`holds_inj`).

The lines come from `historyMachine`: any line that holds a text may be there when Enter is pressed,
whatever typed it. The bytes that the shell gets make only such steps (`history_of_finsh`).
-/

namespace RtVcom.Finsh

open RtVcom.Lib

/-! ## The lines that are entered -/

/-- A line as it is left by the keys that edit it, with the rest of what they may change. -/
structure Edited where
  line : Line
  editor : Editor (BitVec 8)
  holds : line.Holds editor.text
  stat : InputStat
  echoMode : Bool

/-- The keys of the history, and an edit of the line in between. -/
inductive HistoryKey
  | edit (edited : Edited)
  | up
  | down
  | enter

/-- The shell and the texts that it was given by Enter, the first one first. -/
structure Entering where
  shell : Shell
  entered : List (List (BitVec 8))

/-- The line behind the keys that edit it. -/
def Shell.edit (s : Shell) (edited : Edited) : Shell :=
  { s with
    stat := edited.stat
    echoMode := edited.echoMode
    line := edited.line
    linePosition := edited.editor.text.length
    lineCurpos := edited.editor.before.length }

/-- The text that Enter finds. -/
def Shell.lineText (s : Shell) : List (BitVec 8) := s.line.items.take s.linePosition

/-- The shell, as its history sees it. -/
def historyMachine {F : Type} (table : List (Syscall F)) : Machine Entering HistoryKey where
  init := ⟨.boot, []⟩
  step s
    | .edit edited => some { s with shell := s.shell.edit edited }
    | .up => (upKey s.shell).map fun shell => { s with shell := shell }
    | .down => (downKey s.shell).map fun shell => { s with shell := shell }
    | .enter => (enterKey table s.shell).map fun shell =>
        { shell := shell, entered := s.entered ++ [s.shell.lineText] }

/-- What the shell remembers of the lines it was given. -/
def remembered (entered : List (List (BitVec 8))) : List (List (BitVec 8)) :=
  recent finshHistoryLines (distinct (entered.filter (· ≠ [])))

/-! ## The rows -/

/-- The rows of the history that are in use hold the texts. -/
structure Shell.Keeps (s : Shell) (texts : List (List (BitVec 8))) : Prop where
  count : s.historyCount = texts.length
  row : ∀ i t, texts[i]? = some t → ∃ row, s.cmdHistory.get? i = some row ∧ row.Holds t

/-- Two lines that hold texts are the same if the texts are. -/
theorem holds_inj {line line' : Line} {t t' : List (BitVec 8)} (h : line.Holds t)
    (h' : line'.Holds t') : line = line' ↔ t = t' := by
  constructor
  · rintro rfl
    have hlen := (h.strlen_ptr (Nat.zero_le _)).symm.trans (h'.strlen_ptr (Nat.zero_le _))
    have hsize : t.length = t'.length := Option.some.inj hlen
    exact List.append_inj_left (h.items.symm.trans h'.items) hsize
  · rintro rfl
    obtain ⟨items, size⟩ := line
    obtain ⟨items', size'⟩ := line'
    have hitems : items = items' := h.items.trans h'.items.symm
    subst hitems
    rfl

theorem lineText_of_shows {s : Shell} {e : Editor (BitVec 8)} (h : s.Shows e) :
    s.lineText = e.text := by
  rw [Shell.lineText, h.position, h.line.items, List.take_left]

/-- The row that is compared with the line: it is the same if the last text is. -/
theorem Shell.Keeps.last {s : Shell} {texts : List (List (BitVec 8))} {e : Editor (BitVec 8)}
    (h : s.Keeps texts) (hs : s.Shows e) (hpos : texts ≠ []) :
    ∃ row, s.cmdHistory.get? (s.historyCount - 1) = some row ∧
      (row = s.line ↔ texts.getLast? = some e.text) := by
  have hlast := List.getLast?_eq_some_getLast hpos
  obtain ⟨row, hrow, hholds⟩ := h.row (s.historyCount - 1) (texts.getLast hpos) (by
    rw [h.count, ← List.getLast?_eq_getElem?, hlast])
  refine ⟨row, hrow, ?_⟩
  rw [hlast, Option.some.injEq]
  exact holds_inj hholds hs.line

/-- A history that is not full gets a row more. -/
theorem Shell.Keeps.fill {s : Shell} {texts : List (List (BitVec 8))} {t : List (BitVec 8)}
    (h : s.Keeps texts) (hroom : texts.length < finshHistoryLines) {row : Line}
    (hrow : row.Holds t) :
    ∃ history, s.cmdHistory.set? s.historyCount row = some history ∧
      Shell.Keeps { s with cmdHistory := history, historyCount := (s.historyCount + 1) % 0x10000 }
        (texts ++ [t]) := by
  have hsmall : texts.length < 5 := hroom
  have hcount := h.count
  obtain ⟨history, hset, -⟩ := CArray.set?_eq_some (b := s.cmdHistory) (hcount ▸ hroom) row
  refine ⟨history, hset, ?_, fun i u hu => ?_⟩
  · rw [List.length_append, List.length_singleton]
    show (s.historyCount + 1) % 0x10000 = _
    omega
  · have hget := CArray.get?_of_set? hset i
    by_cases hi : i < texts.length
    · rw [List.getElem?_append_left hi] at hu
      rw [if_neg (by omega)] at hget
      obtain ⟨old, hold, hholds⟩ := h.row i u hu
      exact ⟨old, hget.trans hold, hholds⟩
    · have hi' : i = texts.length := by
        have := (List.getElem?_eq_some_iff.mp hu).1
        rw [List.length_append, List.length_singleton] at this
        omega
      rw [hi', List.getElem?_concat_length, Option.some.injEq] at hu
      rw [if_pos (hcount.trans hi'.symm)] at hget
      exact ⟨row, hget, hu ▸ hrow⟩

/-- A full history loses its first row. -/
theorem Shell.Keeps.shift {s : Shell} {texts : List (List (BitVec 8))} {t : List (BitVec 8)}
    (h : s.Keeps texts) (hfull : texts.length = finshHistoryLines) {row : Line}
    (hrow : row.Holds t) :
    ∃ moved history, s.cmdHistory.copyUp 0 1 (finshHistoryLines - 1) = some moved ∧
      moved.set? (finshHistoryLines - 1) row = some history ∧
      Shell.Keeps { s with cmdHistory := history, historyCount := finshHistoryLines }
        (texts.tail ++ [t]) := by
  have hfive : texts.length = 5 := hfull
  obtain ⟨moved, hmove, hcopied⟩ := s.cmdHistory.copyUp_copied (finshHistoryLines - 1) 0 1
    (by decide) (by decide) (.inl (by decide))
  obtain ⟨history, hset, -⟩ := CArray.set?_eq_some (b := moved)
    (show finshHistoryLines - 1 < finshHistoryLines by decide) row
  refine ⟨moved, history, hmove, hset, ?_, fun i u hu => ?_⟩
  · rw [List.length_append, List.length_tail, List.length_singleton, hfive]
    rfl
  · have hget := CArray.get?_of_set? hset i
    by_cases hi : i < 4
    · rw [List.getElem?_append_left (by rw [List.length_tail]; omega), List.getElem?_tail] at hu
      have hmoved := hcopied.get? (by decide) (by decide) i
      rw [if_pos ⟨Nat.zero_le _, by simpa [finshHistoryLines] using hi⟩, Nat.sub_zero,
        Nat.add_comm] at hmoved
      rw [if_neg (show ¬finshHistoryLines - 1 = i by unfold finshHistoryLines; omega)] at hget
      obtain ⟨old, hold, hholds⟩ := h.row (i + 1) u hu
      exact ⟨old, hget.trans (hmoved.trans hold), hholds⟩
    · have hi' : i = texts.tail.length := by
        have := (List.getElem?_eq_some_iff.mp hu).1
        rw [List.length_append, List.length_tail, List.length_singleton] at this
        rw [List.length_tail]
        omega
      rw [hi', List.getElem?_concat_length, Option.some.injEq] at hu
      rw [if_pos (by rw [hi', List.length_tail, hfive]; rfl)] at hget
      exact ⟨row, hget, hu ▸ hrow⟩

/-- `shell_push_history` is one step of the memory for the last five texts. -/
theorem pushHistory_keeps {s : Shell} {texts : List (List (BitVec 8))} {e : Editor (BitVec 8)}
    (h : s.Keeps texts) (hs : s.Shows e) (hcount : s.historyCount ≤ finshHistoryLines) :
    ∃ t, pushHistory s = some t ∧
      t.Keeps (if e.text = [] then texts else push finshHistoryLines texts e.text) := by
  obtain ⟨row, hrow, hholds⟩ := historyRow_holds hs
  have hnone : s.linePosition = 0 ↔ e.text = [] := by
    rw [hs.position, List.length_eq_zero_iff]
  unfold pushHistory
  by_cases hempty : e.text = []
  · rw [if_pos hempty, if_pos (hnone.mpr hempty)]
    exact ⟨s, rfl, h⟩
  rw [if_neg hempty, if_neg (mt hnone.mp hempty), push]
  by_cases hfull : finshHistoryLines ≤ s.historyCount
  · have hlen : texts.length = finshHistoryLines := by rw [← h.count]; omega
    have hnil : texts ≠ [] := by
      rintro rfl
      cases hlen
    obtain ⟨last, hlast, hsame⟩ := h.last hs hnil
    rw [h.count, hlen] at hlast
    rw [if_pos hfull, hlast, Option.bind_eq_bind, Option.bind_some]
    by_cases heq : last = s.line
    · rw [if_neg (not_not_intro heq), if_pos (hsame.mp heq)]
      exact ⟨s, rfl, h⟩
    · obtain ⟨moved, history, hmove, hset, hkeeps⟩ := h.shift hlen hholds
      rw [if_pos heq, if_neg (mt hsame.mpr heq), if_neg (by omega)]
      simp only [hmove, hrow, hset, Option.bind_eq_bind, Option.bind_some]
      exact ⟨_, rfl, hkeeps⟩
  · have hroom : texts.length < finshHistoryLines := by rw [← h.count]; omega
    obtain ⟨history, hset, hkeeps⟩ := h.fill hroom hholds
    have hlast : isLast s = some (decide (texts.getLast? = some e.text)) := by
      unfold isLast
      by_cases hnil : texts = []
      · have hzero : s.historyCount = 0 := by rw [h.count, hnil, List.length_nil]
        rw [if_pos hzero, hnil]
        rfl
      · obtain ⟨last, hlast, hsame⟩ := h.last hs hnil
        have hpos : s.historyCount ≠ 0 := by
          rw [h.count]
          exact mt List.eq_nil_of_length_eq_zero hnil
        rw [if_neg hpos, hlast, Option.bind_eq_bind, Option.bind_some, decide_eq_decide.mpr hsame]
    rw [if_neg hfull, hlast, Option.bind_eq_bind, Option.bind_some]
    by_cases heq : texts.getLast? = some e.text
    · rw [if_pos heq, if_pos (decide_eq_true heq)]
      exact ⟨s, rfl, h⟩
    · rw [if_neg heq, if_neg (by rw [decide_eq_true_iff]; exact heq), if_pos hroom]
      simp only [hrow, hset, Option.bind_eq_bind, Option.bind_some]
      exact ⟨_, rfl, hkeeps⟩

/-! ## The keys -/

/-- The rows and their number are the same. -/
structure Shell.SameRows (s t : Shell) : Prop where
  cmdHistory : t.cmdHistory = s.cmdHistory
  historyCount : t.historyCount = s.historyCount

/-- What the history keeps depends on its rows only. -/
theorem Shell.Keeps.of_sameRows {s t : Shell} {texts : List (List (BitVec 8))} (h : s.Keeps texts)
    (hst : s.SameRows t) : t.Keeps texts := by
  refine ⟨hst.historyCount.trans h.count, ?_⟩
  rw [hst.cmdHistory]
  exact h.row

/-- Showing an entry changes no row. -/
theorem showHistory_sameRows {s t : Shell} (h : showHistory s = some t) : s.SameRows t := by
  simp only [showHistory, Option.bind_eq_bind, Option.bind_eq_some_iff, Option.some.injEq] at h
  obtain ⟨line, -, size, -, -, -, rfl⟩ := h
  exact ⟨rfl, rfl⟩

theorem upKey_sameRows {s t : Shell} (h : upKey s = some t) : s.SameRows t := by
  unfold upKey at h
  split at h
  · obtain ⟨hrows, hcount⟩ := showHistory_sameRows h
    exact ⟨hrows, hcount⟩
  · cases h
    exact ⟨rfl, rfl⟩

theorem downKey_sameRows {s t : Shell} (h : downKey s = some t) : s.SameRows t := by
  unfold downKey at h
  split at h
  · obtain ⟨hrows, hcount⟩ := showHistory_sameRows h
    exact ⟨hrows, hcount⟩
  split at h
  · obtain ⟨hrows, hcount⟩ := showHistory_sameRows h
    exact ⟨hrows, hcount⟩
  · cases h
    exact ⟨rfl, rfl⟩

/-- The up key shows the text in front of the current one. -/
theorem upKey_shows {s : Shell} {texts : List (List (BitVec 8))} {t : List (BitVec 8)} {i : Nat}
    (h : s.Keeps texts) (hcurrent : s.currentHistory = i + 1) (ht : texts[i]? = some t) :
    ∃ u, upKey s = some u ∧ u.Shows (.atEnd t) ∧ u.currentHistory = i := by
  obtain ⟨row, hrow, hholds⟩ := h.row i t ht
  refine ⟨_, ?_, shows_atEnd (s := { s with currentHistory := i }) hholds, rfl⟩
  have hindex : s.currentHistory - 1 = i := by omega
  rw [upKey, if_pos (by omega), hindex]
  simp only [showHistory, hrow, hholds.strlen_ptr (Nat.zero_le _), Nat.sub_zero, size_mod hholds,
    printLine_holds hholds (Nat.zero_le _), Option.bind_eq_bind, Option.bind_some]

/-- The up key several times. -/
def ups (s : Shell) : Nat → Option Shell
  | 0 => some s
  | j + 1 => (ups s j).bind upKey

/-- From the end of the history the up key goes back through the texts. -/
theorem ups_shows {s : Shell} {texts : List (List (BitVec 8))} (h : s.Keeps texts)
    (hcurrent : s.currentHistory = s.historyCount) (j : Nat) (hj : j < texts.length) :
    ∃ u t, ups s (j + 1) = some u ∧ texts.reverse[j]? = some t ∧ u.Shows (.atEnd t) ∧
      u.currentHistory + (j + 1) = texts.length ∧ u.Keeps texts := by
  obtain ⟨i, hi⟩ : ∃ i, i + (j + 1) = texts.length := ⟨texts.length - (j + 1), by omega⟩
  have hget : texts.reverse[j]? = texts[i]? := by
    rw [List.getElem?_reverse hj]
    exact congrArg (texts[·]?) (by omega)
  obtain ⟨t, ht⟩ : ∃ t, texts[i]? = some t := ⟨_, List.getElem?_eq_getElem (by omega)⟩
  have hback : ∃ u, ups s j = some u ∧ u.Keeps texts ∧ u.currentHistory = i + 1 := by
    cases j with
    | zero => exact ⟨s, rfl, h, by rw [hcurrent, h.count]; omega⟩
    | succ j =>
      obtain ⟨u, -, hups, -, -, hplace, hkeeps⟩ := ups_shows h hcurrent j (by omega)
      exact ⟨u, hups, hkeeps, by omega⟩
  obtain ⟨u, hups, hkeeps, hplace⟩ := hback
  obtain ⟨v, hup, hshows, hcurrent'⟩ := upKey_shows hkeeps hplace ht
  refine ⟨v, t, ?_, hget.trans ht, hshows, by omega, hkeeps.of_sameRows (upKey_sameRows hup)⟩
  rw [ups, hups, Option.bind_some, hup]

/-! ## Runs -/

variable {F : Type}

/-- What holds between two keys. -/
structure Entering.Remembers (r : Entering) : Prop where
  sound : ∃ e, r.shell.Sound e
  keeps : r.shell.Keeps (remembered r.entered)

/-- A line entered is remembered last, unless it is empty. -/
theorem remembered_concat (entered : List (List (BitVec 8))) (t : List (BitVec 8)) :
    remembered (entered ++ [t]) =
      if t = [] then remembered entered else push finshHistoryLines (remembered entered) t := by
  rw [remembered, List.filter_append]
  by_cases ht : t = []
  · rw [if_pos ht, ht]
    exact congrArg (fun l => recent _ (distinct l)) (List.append_nil _)
  · have hone : [t].filter (· ≠ []) = [t] := by simp [ht]
    rw [if_neg ht, hone, remembered, push_recent (by decide)]

/-- Enter. -/
theorem enterKey_remembers (table : List (Syscall F)) {r : Entering} (h : r.Remembers) :
    ∃ t, enterKey table r.shell = some t ∧ t.currentHistory = t.historyCount ∧
      Entering.Remembers ⟨t, r.entered ++ [r.shell.lineText]⟩ := by
  obtain ⟨⟨e, hsound⟩, hkeeps⟩ := h
  obtain ⟨t, hpush, hkeeps'⟩ := pushHistory_keeps hkeeps hsound.shows hsound.history.count
  rw [← remembered_concat, ← lineText_of_shows hsound.shows] at hkeeps'
  obtain ⟨u, henter, hclear⟩ := enterKey_sound table hsound
  have hu : u.cmdHistory = t.cmdHistory ∧ u.historyCount = t.historyCount ∧
      u.currentHistory = t.historyCount := by
    simp only [enterKey, shellPushHistory, hpush, Option.bind_eq_bind, Option.bind_some,
      Option.bind_eq_some_iff, Option.some.injEq] at henter
    obtain ⟨-, -, rfl⟩ := henter
    exact ⟨rfl, rfl, rfl⟩
  exact ⟨u, henter, hu.2.2.trans hu.2.1.symm, ⟨_, hclear⟩, hkeeps'.of_sameRows ⟨hu.1, hu.2.1⟩⟩

/-- Every key has a successor, and all of them keep what is remembered. -/
theorem remembers_step (table : List (Syscall F)) {r : Entering} (h : r.Remembers)
    (key : HistoryKey) : ∃ t, (historyMachine table).step r key = some t ∧ t.Remembers := by
  obtain ⟨⟨e, hsound⟩, hkeeps⟩ := h
  cases key with
  | edit edited =>
    refine ⟨_, rfl, ⟨edited.editor, ⟨edited.holds, rfl, rfl⟩, ?_⟩, ⟨hkeeps.count, hkeeps.row⟩⟩
    exact ⟨hsound.history.rows, hsound.history.count, hsound.history.current⟩
  | up =>
    obtain ⟨t, e', hup, hsound'⟩ := upKey_sound hsound
    exact ⟨_, congrArg (Option.map _) hup, ⟨e', hsound'⟩, hkeeps.of_sameRows (upKey_sameRows hup)⟩
  | down =>
    obtain ⟨t, e', hdown, hsound'⟩ := downKey_sound hsound
    exact ⟨_, congrArg (Option.map _) hdown, ⟨e', hsound'⟩,
      hkeeps.of_sameRows (downKey_sameRows hdown)⟩
  | enter =>
    obtain ⟨t, henter, -, hremembers⟩ := enterKey_remembers table ⟨⟨e, hsound⟩, hkeeps⟩
    exact ⟨_, congrArg (Option.map _) henter, hremembers⟩

theorem boot_remembers : Entering.Remembers ⟨.boot, []⟩ :=
  ⟨⟨_, boot_sound⟩, rfl, fun i t h => by cases h⟩

/-- The shell remembers in every state it reaches. -/
theorem remembers_of_reach (table : List (Syscall F)) {r : Entering}
    (hr : (historyMachine table).Reach Machine.any r) : r.Remembers := by
  refine hr.invariant boot_remembers fun s key t hs _ hstep => ?_
  obtain ⟨t', ht', hremembers⟩ := remembers_step table hs key
  exact Option.some.inj (ht'.symm.trans hstep) ▸ hremembers

/-- **The history of the shell**, behind every sequence of lines that were entered and of up and down
keys: the rows in use are the last five of the lines, without empty ones and without repetitions in a
row; the place in the history is one of theirs or behind them; no key runs off; and behind an Enter
the up key shows the lines from the most recent one on. -/
theorem history_remembers (table : List (Syscall F)) {r : Entering}
    (hr : (historyMachine table).Reach Machine.any r) :
    r.shell.Keeps (remembered r.entered) ∧ r.shell.currentHistory ≤ r.shell.historyCount ∧
      (∀ key, ∃ t, (historyMachine table).step r key = some t) ∧
      ∀ t, (historyMachine table).step r .enter = some t → ∀ j, 1 ≤ j → j ≤ t.shell.historyCount →
        ∃ u text, ups t.shell j = some u ∧ (remembered t.entered).reverse[j - 1]? = some text ∧
          u.Shows (.atEnd text) := by
  have h := remembers_of_reach table hr
  obtain ⟨e, hsound⟩ := h.sound
  refine ⟨h.keeps, hsound.history.current, fun key => ?_, fun t ht j hpos hj => ?_⟩
  · obtain ⟨t, ht, -⟩ := remembers_step table h key
    exact ⟨t, ht⟩
  · obtain ⟨u, henter, hcurrent, hremembers⟩ := enterKey_remembers table h
    have hstep : (historyMachine table).step r .enter =
        some ⟨u, r.entered ++ [r.shell.lineText]⟩ := congrArg (Option.map _) henter
    cases hstep.symm.trans ht
    obtain ⟨i, rfl⟩ : ∃ i, j = i + 1 := ⟨j - 1, by omega⟩
    have hcount := hremembers.keeps.count
    obtain ⟨v, text, hups, htext, hshows, -, -⟩ :=
      ups_shows hremembers.keeps hcurrent i (by dsimp only at hj hcount ⊢; omega)
    exact ⟨v, text, hups, htext, hshows⟩

/-! ## The bytes that the shell gets -/

/-- The other keys leave the history, and `stat`, which is set before. -/
theorem handleKey_sameRows {table : List (Syscall F)} {s t : Shell} {ch : BitVec 8} {key : Key}
    (hup : key ≠ .up) (hdown : key ≠ .down) (henter : key ≠ .enter)
    (h : handleKey table s ch key = some t) :
    s.SameRows t ∧ t.currentHistory = s.currentHistory ∧ t.stat = s.stat := by
  cases key with
  | skip =>
    cases h
    exact ⟨⟨rfl, rfl⟩, rfl, rfl⟩
  | up => exact absurd rfl hup
  | down => exact absurd rfl hdown
  | enter => exact absurd rfl henter
  | left =>
    simp only [handleKey, leftKey] at h
    split at h <;> cases h <;> exact ⟨⟨rfl, rfl⟩, rfl, rfl⟩
  | right =>
    simp only [handleKey, rightKey] at h
    split at h
    · obtain ⟨c, -, hright⟩ := Option.bind_eq_some_iff.mp h
      cases hright
      exact ⟨⟨rfl, rfl⟩, rfl, rfl⟩
    · cases h
      exact ⟨⟨rfl, rfl⟩, rfl, rfl⟩
  | tab =>
    simp only [handleKey, tabKey, Option.bind_eq_bind, Option.bind_eq_some_iff,
      Option.some.injEq] at h
    obtain ⟨r, -, -, -, size, -, rfl⟩ := h
    exact ⟨⟨rfl, rfl⟩, rfl, rfl⟩
  | backspace =>
    simp only [handleKey, backspaceKey] at h
    split at h
    · cases h
      exact ⟨⟨rfl, rfl⟩, rfl, rfl⟩
    split at h
    · simp only [Option.bind_eq_bind, Option.bind_eq_some_iff, Option.some.injEq] at h
      obtain ⟨moved, -, line, -, -, -, rfl⟩ := h
      exact ⟨⟨rfl, rfl⟩, rfl, rfl⟩
    · simp only [Option.bind_eq_bind, Option.bind_eq_some_iff, Option.some.injEq] at h
      obtain ⟨line, -, rfl⟩ := h
      exact ⟨⟨rfl, rfl⟩, rfl, rfl⟩
  | char =>
    have hbehind : ∃ line position curpos,
        t = { s with line := line, linePosition := position, lineCurpos := curpos } := by
      simp only [handleKey, normalChar, Option.bind_eq_bind] at h
      generalize (if finshCmdSize ≤ s.linePosition then 0 else s.linePosition) = position at h
      split at h
      · obtain ⟨moved, -, h⟩ := Option.bind_eq_some_iff.mp h
        obtain ⟨line, -, h⟩ := Option.bind_eq_some_iff.mp h
        have hline : some (if finshCmdSize ≤ (position + 1) % 0x100 then
            { s with line := line, linePosition := 0, lineCurpos := 0 }
          else
            { s with line := line, linePosition := (position + 1) % 0x100,
                     lineCurpos := (s.lineCurpos + 1) % 0x100 }) = some t := by
          split at h
          · exact (Option.bind_eq_some_iff.mp h).choose_spec.2
          · exact h
        cases hline
        split <;> exact ⟨_, _, _, rfl⟩
      · obtain ⟨line, -, h⟩ := Option.bind_eq_some_iff.mp h
        cases h
        split <;> exact ⟨_, _, _, rfl⟩
    obtain ⟨line, position, curpos, rfl⟩ := hbehind
    exact ⟨⟨rfl, rfl⟩, rfl, rfl⟩

/-- A step that leaves the history is an edit of the line. -/
theorem exists_edit {s t : Shell} {e : Editor (BitVec 8)} (hshows : t.Shows e)
    (hrows : s.SameRows t) (hcurrent : t.currentHistory = s.currentHistory) :
    ∃ edited, t = s.edit edited := by
  refine ⟨⟨t.line, e, hshows.line, t.stat, t.echoMode⟩, ?_⟩
  obtain ⟨stat, echo, current, count, history, line, position, curpos⟩ := t
  obtain ⟨rfl, rfl⟩ := hrows
  obtain rfl := hcurrent
  obtain rfl := hshows.position
  obtain rfl := hshows.curpos
  rfl

/-- A run of the shell on bytes is one of its history. -/
theorem history_of_finsh (table : CommandTable F) {s : Shell}
    (hs : (finsh table).Reach NoOverflow s) :
    ∃ entered, (historyMachine table.entries).Reach Machine.any ⟨s, entered⟩ := by
  refine hs.invariant_of_reach
    (P := fun s => ∃ entered, (historyMachine table.entries).Reach Machine.any ⟨s, entered⟩)
    ⟨[], .init⟩ ?_
  rintro s event t hreach ⟨entered, hr⟩ hok hstep
  obtain ⟨e, hsound⟩ := sound_of_reach table hreach
  obtain ⟨t', e', hstep', hsound'⟩ := step_sound table hsound hok
  cases hstep'.symm.trans hstep
  have hedit (hrows : s.SameRows t) (hcurrent : t.currentHistory = s.currentHistory) :
      ∃ entered, (historyMachine table.entries).Reach Machine.any ⟨t, entered⟩ := by
    obtain ⟨edited, hedited⟩ := exists_edit hsound'.shows hrows hcurrent
    exact ⟨entered, @Machine.Reach.step _ _ _ _ _ _ (.edit edited) hr trivial
      (congrArg (fun shell => some (Entering.mk shell entered)) hedited.symm)⟩
  cases event with
  | setEcho echo =>
    cases hstep
    exact hedit ⟨rfl, rfl⟩ rfl
  | setDevice =>
    cases hstep
    exact hedit ⟨rfl, rfl⟩ rfl
  | input ch =>
    -- the byte is decoded before its key is handled
    have hstat : ∃ edited, { s with stat := (decode s.stat ch).1 } = s.edit edited :=
      exists_edit (e := e) ⟨hsound.shows.line, hsound.shows.position, hsound.shows.curpos⟩
        ⟨rfl, rfl⟩ rfl
    obtain ⟨edited, hstat⟩ := hstat
    have hdecoded := @Machine.Reach.step _ _ _ _ _ _ (.edit edited) hr trivial rfl
    rw [← hstat] at hdecoded
    simp only [finsh, finshThreadEntry] at hstep
    cases hkey : (decode s.stat ch).2 with
    | up =>
      rw [hkey] at hstep
      exact ⟨entered, @Machine.Reach.step _ _ _ _ _ _ .up hdecoded trivial
        (congrArg (Option.map _) hstep)⟩
    | down =>
      rw [hkey] at hstep
      exact ⟨entered, @Machine.Reach.step _ _ _ _ _ _ .down hdecoded trivial
        (congrArg (Option.map _) hstep)⟩
    | enter =>
      rw [hkey] at hstep
      exact ⟨_, @Machine.Reach.step _ _ _ _ _ _ .enter hdecoded trivial
        (congrArg (Option.map _) hstep)⟩
    | _ =>
      rw [hkey] at hstep
      obtain ⟨⟨hrows, hcount⟩, hcurrent, -⟩ :=
        handleKey_sameRows (by decide) (by decide) (by decide) hstep
      exact hedit ⟨hrows, hcount⟩ hcurrent

/-- A line that is edited and entered. -/
theorem reach_enter {table : List (Syscall F)} {r : Entering}
    (hr : (historyMachine table).Reach Machine.any r) (edited : Edited) :
    ∃ s t, (historyMachine table).Reach Machine.any s ∧
      (historyMachine table).step s .enter = some t ∧
      t.entered = r.entered ++ [edited.editor.text] := by
  have hedit : (historyMachine table).Reach Machine.any ⟨r.shell.edit edited, r.entered⟩ :=
    @Machine.Reach.step _ _ _ _ _ _ (.edit edited) hr trivial rfl
  obtain ⟨t, ht, -⟩ := remembers_step table (remembers_of_reach table hedit) .enter
  refine ⟨_, t, hedit, ht, ?_⟩
  obtain ⟨shell, -, rfl⟩ := Option.map_eq_some_iff.mp ht
  have htext : (r.shell.edit edited).lineText = edited.editor.text :=
    @lineText_of_shows (r.shell.edit edited) edited.editor ⟨edited.holds, rfl, rfl⟩
  rw [htext]

/-- Every list of lines can be entered. -/
theorem exists_reach_entered (table : List (Syscall F)) (lines : List Edited) :
    ∃ r, (historyMachine table).Reach Machine.any r ∧
      r.entered = lines.map fun edited => edited.editor.text := by
  induction lines using List.reverseRecOn with
  | nil => exact ⟨_, .init, rfl⟩
  | append_singleton lines edited ih =>
    obtain ⟨r, hr, hentered⟩ := ih
    obtain ⟨s, t, hs, ht, htext⟩ := reach_enter hr edited
    refine ⟨t, .step hs trivial ht, ?_⟩
    rw [htext, hentered, List.map_append]
    rfl

/-- A letter that is typed. -/
def letter (c : BitVec 8) (hc : c ≠ 0) : Edited where
  line := ⟨c :: List.replicate 79 0, rfl⟩
  editor := .atEnd [c]
  holds := ⟨show 1 < 80 by decide, nulFree_cons.mpr ⟨hc, nulFree_nil⟩, rfl⟩
  stat := .waitNormal
  echoMode := true

/-- `a`, `a`, `b`, `c`, `d`, `e` and `f` are entered. The history is full, and the fourth up key
shows `c`. -/
theorem history_remembers_six : ∃ r : Entering, ∃ u,
    r.shell.Keeps [[0x62], [0x63], [0x64], [0x65], [0x66]] ∧ ups r.shell 4 = some u ∧
      u.Shows (.atEnd [0x63]) := by
  obtain ⟨r, hr, hentered⟩ := exists_reach_entered ([] : List (Syscall Unit))
    [letter 0x61 (by decide), letter 0x61 (by decide), letter 0x62 (by decide),
      letter 0x63 (by decide), letter 0x64 (by decide), letter 0x65 (by decide)]
  obtain ⟨s, t, hs, ht, htext⟩ := reach_enter hr (letter 0x66 (by decide))
  have hremembered : remembered t.entered = [[0x62], [0x63], [0x64], [0x65], [0x66]] := by
    rw [htext, hentered]
    decide
  obtain ⟨hkeeps, -, -, -⟩ := history_remembers _ (.step hs trivial ht)
  obtain ⟨-, -, -, hups⟩ := history_remembers _ hs
  rw [hremembered] at hkeeps
  obtain ⟨u, text, hu, hlist, hshows⟩ := hups t ht 4 (by decide) (by rw [hkeeps.count]; decide)
  rw [hremembered] at hlist
  cases hlist
  exact ⟨t, u, hkeeps, hu, hshows⟩

end RtVcom.Finsh
