import RtVcom.Finsh.Grammar
import RtVcom.Finsh.History
import RtVcom.Finsh.TabCompletion

/-!
# The shell as a terminal

What the shell does from the bytes that it gets to the commands that it calls, with nothing of its
buffers: a text with a cursor, the texts that are remembered with a place among them, the command
that a text means, and what a prefix is completed to (`Terminal`). `Terminal.next` is a function on
texts. It has no arrays, no indices and no way to fail.

The session goes along with the machine of the line editor and keeps what Enter and the tab key came
to. As long as no character is put in at the end of a line of 79, the shell is the terminal that got
the same bytes (`finsh_refines_terminal`): after every key the line and the history show its texts,
every Enter called the command that the text meant with the tokens of the text, and every tab
offered the names that begin with it.
-/

namespace RtVcom.Finsh

open RtVcom.Lib

variable {F : Type}

/-! ## The terminal -/

/-- What a line comes to: nothing, a command that is called with its arguments, or no command. -/
inductive Answer (F : Type)
  | blank
  | called (func : F) (args : List (List (BitVec 8)))
  | notFound
deriving DecidableEq

/-- What a line means. -/
def meaning (table : List (Syscall F)) (t : List (BitVec 8)) : Answer F :=
  if t.dropWhile isBlank = [] then .blank
  else
    match lookup table (firstWord t) with
    | some func => .called func ((tokens t).take finshArgMax)
    | none => .notFound

/-- What all of the names that begin with a prefix begin with, or the prefix if there is no name. -/
def completed (table : List (Syscall F)) (pre : List (BitVec 8)) : List (BitVec 8) :=
  match candidates table pre with
  | [] => pre
  | q :: names => names.foldl commonPrefix q

/-- The text that is edited, the texts that are remembered and the place among them where up and
down stand, and what every Enter and every tab came to. -/
structure Terminal (F : Type) where
  stat : InputStat
  editor : Editor (BitVec 8)
  texts : List (List (BitVec 8))
  place : Nat
  answers : List (Answer F)
  offered : List (List (List (BitVec 8)))

namespace Terminal

def boot : Terminal F where
  stat := .waitNormal
  editor := .atEnd []
  texts := []
  place := 0
  answers := []
  offered := []

/-- A text that is remembered becomes the text that is edited. -/
def retrieve (t : Terminal F) (place : Nat) : Terminal F :=
  match t.texts[place]? with
  | some text => { t with place, editor := .atEnd text }
  | none => t

/-- Retrieving a line answers nothing. -/
theorem retrieve_log (t : Terminal F) (place : Nat) :
    (t.retrieve place).answers = t.answers ∧ (t.retrieve place).offered = t.offered := by
  unfold retrieve
  split <;> exact ⟨rfl, rfl⟩

def enter (table : List (Syscall F)) (t : Terminal F) : Terminal F :=
  let text := t.editor.text
  let texts := if text = [] then t.texts else push finshHistoryLines t.texts text
  { t with
    editor := .atEnd []
    texts
    place := texts.length
    answers := t.answers ++ [meaning table text] }

def tab (table : List (Syscall F)) (t : Terminal F) : Terminal F :=
  let text := t.editor.text
  { t with
    editor := .atEnd (if text = [] then [] else completed table text)
    offered := t.offered ++ [candidates table text] }

/-- Up stops at the oldest text, down at the latest one. -/
def press (table : List (Syscall F)) (t : Terminal F) (ch : BitVec 8) : Key → Terminal F
  | .skip => t
  | .up => if t.place = 0 then t else t.retrieve (t.place - 1)
  | .down => t.retrieve (min (t.place + 1) (t.texts.length - 1))
  | .left => { t with editor := t.editor.left }
  | .right => { t with editor := t.editor.right }
  | .tab => t.tab table
  | .backspace => { t with editor := t.editor.backspace }
  | .enter => t.enter table
  | .char => { t with editor := t.editor.insert ch }

/-- A switch of the device throws the text away. -/
def next (table : List (Syscall F)) (t : Terminal F) : Event → Terminal F
  | .input ch => { t with stat := (decode t.stat ch).1 }.press table ch (decode t.stat ch).2
  | .setEcho _ => t
  | .setDevice => { t with editor := .atEnd [] }

end Terminal

/-! ## The session -/

/-- The string at a place of the line. -/
def argString (line : Line) (arg : Nat) : List (BitVec 8) := (line.ptr arg).takeWhile (· ≠ 0)

/-- What `msh_exec` came to, with the arguments as they stand in its line. -/
def Outcome.answer (line : Line) : Outcome F → Answer F
  | .blank => .blank
  | .called func argv => .called func (argv.map (argString line))
  | .notFound => .notFound

/-- What `enterKey` gets from `msh_exec`. -/
def enterAnswer (table : List (Syscall F)) (s : Shell) : List (Answer F) :=
  let executed := (shellPushHistory s).bind fun s => mshExec table s.line s.linePosition
  (executed.map fun r => r.2.answer r.1).toList

/-- What `tabKey` gets from `msh_auto_complete`. -/
def tabOffer (table : List (Syscall F)) (s : Shell) : List (List (List (BitVec 8))) :=
  ((mshAutoComplete table s.line).map fun r => r.2.map (List.takeWhile (· ≠ 0))).toList

/-- The shell, with the events that led to it and what every Enter and every tab came to. -/
structure FinshSession (F : Type) where
  shell : Shell
  events : List Event
  answers : List (Answer F)
  offered : List (List (List (BitVec 8)))

def finshSession (table : CommandTable F) : Machine (FinshSession F) Event where
  init := { shell := .boot, events := [], answers := [], offered := [] }
  step s event := ((finsh table).step s.shell event).map fun shell =>
    { shell
      events := s.events ++ [event]
      answers := match event with
        | .input ch =>
          if (decode s.shell.stat ch).2 = .enter then
            s.answers ++
              enterAnswer table.entries { s.shell with stat := (decode s.shell.stat ch).1 }
          else s.answers
        | .setEcho _ | .setDevice => s.answers
      offered := match event with
        | .input ch =>
          if (decode s.shell.stat ch).2 = .tab then s.offered ++ tabOffer table.entries s.shell
          else s.offered
        | .setEcho _ | .setDevice => s.offered }

/-- `NoOverflow` of the shell in it. -/
def FinshSession.NoOverflow (s : FinshSession F) (event : Event) : Prop :=
  Finsh.NoOverflow s.shell event

instance : DecidableRel (FinshSession.NoOverflow (F := F)) := fun s event =>
  inferInstanceAs (Decidable (Finsh.NoOverflow s.shell event))

/-- The shell shows a terminal. -/
structure Shell.Mirrors (s : Shell) (t : Terminal F) : Prop where
  stat : s.stat = t.stat
  sound : s.Sound t.editor
  keeps : s.Keeps t.texts
  place : s.currentHistory = t.place

/-- The session is that of a terminal. -/
structure FinshSession.Mirrors (s : FinshSession F) (t : Terminal F) : Prop where
  shell : s.shell.Mirrors t
  answers : s.answers = t.answers
  offered : s.offered = t.offered

/-! ## Tab -/

section Complete

variable {n : Nat}

/-- `msh_help` prints the names of the commands. -/
theorem mshHelp_eq (table : List (Syscall F)) :
    mshHelp table = some ((table.filterMap Syscall.cmdName).map (· ++ [0])) := by
  induction table with
  | nil => rfl
  | cons index table ih =>
    rw [mshHelp, ih, strncmp_mark]
    cases hname : index.cmdName with
    | none => rw [List.filterMap_cons_none hname]; rfl
    | some q =>
      rw [List.filterMap_cons_some hname, List.map_cons, ← (drop_mem_of_cmdName hname).1]
      rfl

/-- The line and the list that a completion leaves. -/
theorem mshAutoComplete_completed {table : List (Syscall F)} (hnames : NamesFit table n)
    {line : CArray (BitVec 8) n} {t : List (BitVec 8)} (h : line.Holds t) :
    ∃ line', mshAutoComplete table line = some (line', (candidates table t).map (· ++ [0])) ∧
      line'.Holds (if t = [] then [] else completed table t) := by
  have hptr := ptr_of_holds h (Nat.zero_le _)
  rw [List.drop_zero] at hptr
  by_cases hempty : t = []
  · subst hempty
    have hall : candidates table [] = table.filterMap Syscall.cmdName :=
      List.filter_eq_self.mpr fun _ _ => rfl
    have hnul : line.get? 0 = some 0 := h.get?_nul (Nat.le_refl _) h.fits
    refine ⟨line, ?_, h⟩
    rw [hall]
    simp only [mshAutoComplete, hnul, mshHelp_eq, if_true, Option.bind_eq_bind, Option.bind_some]
  rw [if_neg hempty]
  obtain ⟨c, s, rfl⟩ := List.exists_cons_of_ne_nil hempty
  have hc : line.get? 0 = some c := by
    rw [CArray.get?, h.items]
    rfl
  have hne : c ≠ 0 := (nulFree_cons.mp h.nulFree).1
  have hstart : (Completion.mk 0 none []).Of (c :: s) [] :=
    ⟨rfl, List.forall_mem_nil _, fun _ => ⟨rfl, rfl⟩, fun h => absurd rfl h⟩
  obtain ⟨a, hrun, hof⟩ := @completeFrom_of F _ (List.replicate (n - (c :: s).length - 1) 0)
    h.nulFree hempty table _ _ hstart
  rw [List.nil_append] at hof
  simp only [mshAutoComplete, hc, if_neg hne, hptr, hrun, Option.bind_eq_bind, Option.bind_some]
  unfold completed
  cases hcandidates : candidates table (c :: s) with
  | nil =>
    obtain ⟨-, hname⟩ := hof.nothing hcandidates
    refine ⟨line, ?_, h⟩
    rw [hname, hof.listed, hcandidates]
  | cons first names =>
    have hsome : candidates table (c :: s) ≠ [] := by rw [hcandidates]; exact List.cons_ne_nil _ _
    obtain ⟨q, hq, hname, hle, hlongest⟩ := hof.found hsome
    have htext : q.take a.minLength = names.foldl commonPrefix first := by
      rw [hcandidates] at hlongest hq
      exact hlongest.unique ((longestPrefix_singleton first).foldl List.mem_cons_self names) hq
    obtain ⟨index, hindex, hindexName⟩ := List.mem_filterMap.mp (List.mem_filter.mp hq).1
    obtain ⟨line', hcopy, hholds⟩ := h.strncpy (hof.begins q hq).2 [0] (hof.length_le hsome) hle
      (Nat.lt_of_le_of_lt hle (hnames index hindex q hindexName))
    rw [htext] at hholds
    refine ⟨line', ?_, hholds⟩
    rw [hname, hof.listed, hcandidates]
    dsimp only
    rw [hcopy, Option.bind_some]

end Complete

/-! ## Enter -/

/-- A token takes its characters from the text. -/
theorem mem_of_mem_tokens {t s : List (BitVec 8)} {c : BitVec 8} (hs : s ∈ tokens t)
    (hc : c ∈ s) : c ∈ t := by
  induction t using tokens.induct with
  | case1 t hblank =>
    rw [tokens_blank hblank] at hs
    cases hs
  | case2 t cs hquote ih =>
    have hsuffix := List.dropWhile_suffix (l := t) isBlank
    rw [tokens_quote hquote] at hs
    rw [hquote] at hsuffix
    rcases List.mem_cons.mp hs with rfl | hs
    · exact hsuffix.mem (List.mem_cons_of_mem _ (List.mem_of_mem_take hc))
    · exact hsuffix.mem (List.mem_cons_of_mem _ (List.mem_of_mem_drop (ih hs)))
  | case3 t d cs hword hd ih =>
    have hsuffix := List.dropWhile_suffix (l := t) isBlank
    rw [tokens_word hword hd] at hs
    rw [hword] at hsuffix
    rcases List.mem_cons.mp hs with rfl | hs
    · exact hsuffix.mem ((List.takeWhile_prefix _).mem hc)
    · exact hsuffix.mem ((List.dropWhile_suffix _).mem (ih hs))

/-- A string is read up to its NUL. -/
theorem takeWhile_nul {s : List (BitVec 8)} (hs : NulFree s) (mem : List (BitVec 8)) :
    (s ++ 0 :: mem).takeWhile (· ≠ 0) = s := by
  rw [List.takeWhile_append_of_pos fun c hc => decide_eq_true (hs c hc),
    List.takeWhile_cons_of_neg (by decide), List.append_nil]

/-- An argument is the string at its place. -/
theorem argString_eq {line : Line} {arg : Nat} {s : List (BitVec 8)} (h : StringAt line arg s)
    (hs : NulFree s) : argString line arg = s := by
  obtain ⟨mem, hmem⟩ := h
  rw [argString, hmem, takeWhile_nul hs]

theorem argStrings_eq {line : Line} {argv : List Nat} {args : List (List (BitVec 8))}
    (h : List.Forall₂ (StringAt line) argv args) (hargs : ∀ s ∈ args, NulFree s) :
    argv.map (argString line) = args := by
  induction h with
  | nil => rfl
  | cons hat _ ih =>
    obtain ⟨hfirst, hrest⟩ := List.forall_mem_cons.mp hargs
    rw [List.map_cons, argString_eq hat hfirst, ih hrest]

/-- Enter calls what the text means. -/
theorem mshExec_meaning (table : List (Syscall F)) {line : Line} {t : List (BitVec 8)}
    (h : line.Holds t) :
    ∃ r, mshExec table line t.length = some r ∧ r.2.answer r.1 = meaning table t := by
  have hsmall : t.length < 80 := h.fits
  have hptr := ptr_of_holds h (Nat.zero_le _)
  rw [List.drop_zero] at hptr
  have htrim := trimStart_eq (show t.length < 0x100000000 by omega) 0
    (List.replicate (finshCmdSize - t.length - 1) 0)
  rw [← hptr, Nat.zero_add] at htrim
  have hitems : line.ptr 0 = line.items := List.drop_zero
  rw [hitems] at htrim
  obtain ⟨⟨line', outcome⟩, hexec⟩ := mshExec_inside table h (by omega)
  refine ⟨_, hexec, ?_⟩
  simp only [mshExec, htrim, Option.bind_eq_bind, Option.bind_some] at hexec
  unfold meaning
  by_cases hblank : t.dropWhile isBlank = []
  · rw [hblank, List.length_nil, if_pos rfl] at hexec
    cases hexec
    rw [if_pos hblank]
    rfl
  rw [if_neg hblank]
  rw [if_neg fun hzero => hblank (List.eq_nil_of_length_eq_zero hzero)] at hexec
  have hsplit := List.takeWhile_append_dropWhile (p := isBlank) (l := t)
  have hcmd : t.length - (t.dropWhile isBlank).length = (t.takeWhile isBlank).length := by
    have hsum := congrArg List.length hsplit
    rw [List.length_append] at hsum
    omega
  have hplace := ptr_of_holds h (Nat.sub_le t.length (t.dropWhile isBlank).length)
  have hdrop : t.drop (t.takeWhile isBlank).length = t.dropWhile isBlank := by
    have hleft := congrArg (List.drop (t.takeWhile isBlank).length) hsplit
    rw [List.drop_left] at hleft
    exact hleft.symm
  rw [hcmd, hdrop] at hplace
  rw [hcmd] at hexec
  have hfree : NulFree (t.dropWhile isBlank) :=
    fun c hc => h.nulFree c ((List.dropWhile_suffix _).mem hc)
  have hcall := mshExecCmd_eq table hplace hfree hblank (List.dropWhile_idempotent isBlank _)
  rw [← firstWord, tokens_dropBlank] at hcall
  cases hfunc : lookup table (firstWord t) with
  | some func =>
    rw [hfunc] at hcall
    obtain ⟨line₁, argv, hcall, hargs⟩ := hcall
    rw [hcall, Option.bind_some] at hexec
    cases hexec
    have hargsFree : ∀ s ∈ (tokens t).take finshArgMax, NulFree s :=
      fun s hs c hc => h.nulFree c (mem_of_mem_tokens (List.mem_of_mem_take hs) hc)
    exact congrArg (Answer.called func) (argStrings_eq hargs hargsFree)
  | none =>
    rw [hfunc] at hcall
    rw [hcall, Option.bind_some] at hexec
    simp only [Option.bind_eq_some_iff, Option.some.injEq, Prod.mk.injEq] at hexec
    obtain ⟨size, -, line₁, -, len, -, -, rfl⟩ := hexec
    rfl

/-! ## Every key -/

section Keys

variable {s : Shell} {t : Terminal F}

/-- A text of the history is shown. -/
theorem Shell.Mirrors.retrieve (h : s.Mirrors t) {place : Nat} (hplace : place < t.texts.length) :
    ∃ s', showHistory { s with currentHistory := place } = some s' ∧
      s'.Mirrors (t.retrieve place) := by
  have hget := List.getElem?_eq_getElem hplace
  obtain ⟨row, hrow, hholds⟩ := h.keeps.row place _ hget
  have hshow : showHistory { s with currentHistory := place } =
      some { s with
        currentHistory := place
        line := row
        linePosition := t.texts[place].length
        lineCurpos := t.texts[place].length } := by
    simp only [showHistory, hrow, hholds.strlen_ptr (Nat.zero_le _), Nat.sub_zero, size_mod hholds,
      printLine_holds hholds (Nat.zero_le _), Option.bind_eq_bind, Option.bind_some]
  have hcurrent : place ≤ s.historyCount := h.keeps.count ▸ Nat.le_of_lt hplace
  have hshows := @shows_atEnd { s with currentHistory := place } row _ hholds
  refine ⟨_, hshow, ?_⟩
  unfold Terminal.retrieve
  rw [hget]
  exact ⟨h.stat, ⟨hshows, ⟨h.sound.history.rows, h.sound.history.count, hcurrent⟩⟩,
    ⟨h.keeps.count, h.keeps.row⟩, rfl⟩

/-- The keys that leave the history and the place in it. -/
theorem Shell.Mirrors.edit {table : List (Syscall F)} {ch : BitVec 8} {key : Key}
    (h : s.Mirrors t) (hup : key ≠ .up) (hdown : key ≠ .down) (henter : key ≠ .enter)
    {s' : Shell} (hkey : handleKey table s ch key = some s') {editor : Editor (BitVec 8)}
    (hsound : s'.Sound editor) (offered : List (List (List (BitVec 8)))) :
    s'.Mirrors { t with editor, offered } := by
  obtain ⟨hrows, hcurrent, hstat⟩ := handleKey_sameRows hup hdown henter hkey
  exact ⟨hstat.trans h.stat, hsound, h.keeps.of_sameRows hrows, hcurrent.trans h.place⟩

/-- The up arrow retrieves the line before. -/
theorem Shell.Mirrors.up (h : s.Mirrors t) :
    ∃ s', upKey s = some s' ∧
      s'.Mirrors (if t.place = 0 then t else t.retrieve (t.place - 1)) := by
  have hle := h.sound.history.current
  rw [h.keeps.count, h.place] at hle
  unfold upKey
  rw [h.place]
  by_cases hzero : t.place = 0
  · refine ⟨_, if_neg (by omega), ?_⟩
    rw [if_pos hzero]
    obtain ⟨hline, hposition, hcurpos⟩ := h.sound.shows
    refine ⟨h.stat, ⟨⟨hline, hposition, hcurpos⟩, ?_⟩, ⟨h.keeps.count, h.keeps.row⟩, hzero.symm⟩
    exact ⟨h.sound.history.rows, h.sound.history.count, Nat.zero_le _⟩
  · rw [if_pos (Nat.pos_of_ne_zero hzero), if_neg hzero]
    exact h.retrieve (by omega)

/-- The down arrow retrieves the line behind. -/
theorem Shell.Mirrors.down (h : s.Mirrors t) :
    ∃ s', downKey s = some s' ∧
      s'.Mirrors (t.retrieve (min (t.place + 1) (t.texts.length - 1))) := by
  have hle := h.sound.history.current
  have hfive : s.historyCount ≤ 5 := h.sound.history.count
  have hcount := h.keeps.count
  have hplace := h.place
  unfold downKey
  by_cases hless : (s.currentHistory : Int) < (s.historyCount : Int) - 1
  · have hmin : min (t.place + 1) (t.texts.length - 1) = (s.currentHistory + 1) % 0x10000 := by
      omega
    rw [if_pos hless, hmin]
    refine h.retrieve ?_
    omega
  · have hmin : min (t.place + 1) (t.texts.length - 1) = s.historyCount - 1 := by omega
    rw [if_neg hless, hmin]
    by_cases hnone : s.historyCount = 0
    · rw [if_neg (not_not_intro hnone)]
      refine ⟨s, rfl, ?_⟩
      unfold Terminal.retrieve
      rw [List.getElem?_eq_none (by omega)]
      exact h
    · rw [if_pos hnone]
      refine h.retrieve ?_
      omega

/-- Enter, with what it came to. -/
theorem Shell.Mirrors.enter (table : List (Syscall F)) (h : s.Mirrors t) :
    ∃ s', enterKey table s = some s' ∧ s'.Mirrors (t.enter table) ∧
      enterAnswer table s = [meaning table t.editor.text] := by
  have hshows := h.sound.shows
  obtain ⟨row, hrow, hholds⟩ := historyRow_holds hshows
  obtain ⟨u, hpush, hframe, hrows, hcount⟩ :=
    pushHistory_pushed h.sound.history ⟨row, _, hrow, hholds⟩
  obtain ⟨u', hpush', hkeeps⟩ := pushHistory_keeps h.keeps hshows h.sound.history.count
  obtain rfl : u = u' := Option.some.inj (hpush.symm.trans hpush')
  have hline : u.line = s.line := by rw [hframe]
  have hposition : u.linePosition = t.editor.text.length := by rw [hframe]; exact hshows.position
  have hstat : u.stat = s.stat := by rw [hframe]
  obtain ⟨r, hexec, hmeaning⟩ := mshExec_meaning table hshows.line
  rw [← hline, ← hposition] at hexec
  have hpushed : shellPushHistory s = some { u with currentHistory := u.historyCount } := by
    simp only [shellPushHistory, hpush, Option.bind_eq_bind, Option.bind_some]
  refine ⟨{ u with
    currentHistory := u.historyCount
    line := .fill _ 0
    linePosition := 0
    lineCurpos := 0 }, ?_, ?_, ?_⟩
  · simp only [enterKey, hpushed, hexec, Option.bind_eq_bind, Option.bind_some]
  · have hclear := @shows_atEnd { u with currentHistory := u.historyCount } (.fill _ 0) []
      (CArray.holds_fill (by decide))
    exact ⟨hstat.trans h.stat, ⟨hclear, ⟨hrows, hcount, Nat.le_refl _⟩⟩,
      ⟨hkeeps.count, hkeeps.row⟩, hkeeps.count⟩
  · simp only [enterAnswer, hpushed, hexec, Option.bind_some, Option.map_some, hmeaning,
      Option.toList_some]

/-- A tab, with what it offered. -/
theorem Shell.Mirrors.tab {table : List (Syscall F)} (hnames : NamesFit table finshCmdSize)
    (h : s.Mirrors t) :
    ∃ s', tabKey table s = some s' ∧ s'.Mirrors (t.tab table) ∧
      tabOffer table s = [candidates table t.editor.text] := by
  obtain ⟨line, hcomplete, hholds⟩ := mshAutoComplete_completed hnames h.sound.shows.line
  have htab : ∃ s', tabKey table s = some s' ∧ s'.Sound (.atEnd
      (if t.editor.text = [] then [] else completed table t.editor.text)) := by
    refine ⟨_, ?_, shows_atEnd hholds, h.sound.history.of_line _ _ _⟩
    simp only [tabKey, hcomplete, printLine_holds hholds (Nat.zero_le _),
      hholds.strlen_ptr (Nat.zero_le _), Nat.sub_zero, size_mod hholds, Option.bind_eq_bind,
      Option.bind_some]
  obtain ⟨s', htab, hsound⟩ := htab
  have hkey : handleKey table s 0 .tab = some s' := htab
  refine ⟨s', htab, h.edit (by decide) (by decide) (by decide) hkey hsound _, ?_⟩
  rw [tabOffer, hcomplete, Option.map_some, Option.toList_some, List.map_map]
  refine congrArg (fun names => [names]) ((List.map_congr_left fun q hq => ?_).trans
    (List.map_id _))
  obtain ⟨index, -, hname⟩ := List.mem_filterMap.mp (List.mem_filter.mp hq).1
  exact takeWhile_nul (drop_mem_of_cmdName hname).2 []

/-- Every key, with what it came to. -/
theorem Shell.Mirrors.press {table : List (Syscall F)} (hnames : NamesFit table finshCmdSize)
    (h : s.Mirrors t) {ch : BitVec 8} {key : Key}
    (hkey : key = .char → ch ≠ 0 ∧ s.linePosition + 1 < finshCmdSize) :
    ∃ s', handleKey table s ch key = some s' ∧ s'.Mirrors (t.press table ch key) ∧
      (t.press table ch key).answers =
        t.answers ++ (if key = .enter then enterAnswer table s else []) ∧
      (t.press table ch key).offered =
        t.offered ++ (if key = .tab then tabOffer table s else []) := by
  have hnothing {α : Type} (l : List α) : l = l ++ [] := (List.append_nil l).symm
  have hedit {s' : Shell} {editor : Editor (BitVec 8)}
      (hother : key ≠ .up ∧ key ≠ .down ∧ key ≠ .enter)
      (hhandle : handleKey table s ch key = some s') (hsound : s'.Sound editor) :
      s'.Mirrors { t with editor } :=
    h.edit hother.1 hother.2.1 hother.2.2 hhandle hsound t.offered
  cases key with
  | skip => exact ⟨s, rfl, h, hnothing _, hnothing _⟩
  | up =>
    obtain ⟨s', hup, hmirrors⟩ := h.up
    have hlog : (t.press table ch .up).answers = t.answers ∧
        (t.press table ch .up).offered = t.offered := by
      unfold Terminal.press
      dsimp only
      split
      · exact ⟨rfl, rfl⟩
      · exact t.retrieve_log _
    exact ⟨s', hup, hmirrors, hlog.1.trans (hnothing _), hlog.2.trans (hnothing _)⟩
  | down =>
    obtain ⟨s', hdown, hmirrors⟩ := h.down
    obtain ⟨hanswers, hoffered⟩ := t.retrieve_log (min (t.place + 1) (t.texts.length - 1))
    exact ⟨s', hdown, hmirrors, hanswers.trans (hnothing _), hoffered.trans (hnothing _)⟩
  | left =>
    obtain ⟨s', hleft, hsound⟩ := leftKey_sound h.sound
    exact ⟨s', hleft, hedit (by decide) hleft hsound, hnothing _, hnothing _⟩
  | right =>
    obtain ⟨s', hright, hsound⟩ := rightKey_sound h.sound
    exact ⟨s', hright, hedit (by decide) hright hsound, hnothing _, hnothing _⟩
  | tab =>
    obtain ⟨s', htab, hmirrors, hoffer⟩ := h.tab hnames
    exact ⟨s', htab, hmirrors, hnothing _, congrArg (t.offered ++ ·) hoffer.symm⟩
  | backspace =>
    obtain ⟨s', hback, hsound⟩ := backspaceKey_sound h.sound
    exact ⟨s', hback, hedit (by decide) hback hsound, hnothing _, hnothing _⟩
  | enter =>
    obtain ⟨s', henter, hmirrors, hanswer⟩ := h.enter table
    exact ⟨s', henter, hmirrors, congrArg (t.answers ++ ·) hanswer.symm, hnothing _⟩
  | char =>
    obtain ⟨hch, hroom⟩ := hkey rfl
    obtain ⟨s', hchar, hsound⟩ := normalChar_sound h.sound hch hroom
    exact ⟨s', hchar, hedit (by decide) hchar hsound, hnothing _, hnothing _⟩

end Keys

/-! ## Every run -/

/-- A step of the shell is a step of the terminal. -/
theorem FinshSession.Mirrors.step (table : CommandTable F) {s s' : FinshSession F}
    {t : Terminal F} (h : s.Mirrors t) {event : Event} (hok : s.NoOverflow event)
    (hstep : (finshSession table).step s event = some s') :
    s'.Mirrors (t.next table.entries event) := by
  obtain ⟨shell, hshell, rfl⟩ := Option.map_eq_some_iff.mp hstep
  obtain ⟨hstat, hsound, hkeeps, hplace⟩ := h.shell
  obtain ⟨⟨hline, hposition, hcurpos⟩, ⟨hrows, hcount, hcurrent⟩⟩ := id hsound
  cases event with
  | setEcho echo =>
    cases hshell
    exact ⟨⟨hstat, ⟨⟨hline, hposition, hcurpos⟩, ⟨hrows, hcount, hcurrent⟩⟩,
      ⟨hkeeps.count, hkeeps.row⟩, hplace⟩, h.answers, h.offered⟩
  | setDevice =>
    cases hshell
    exact ⟨⟨hstat, hsound.clear, ⟨hkeeps.count, hkeeps.row⟩, hplace⟩, h.answers, h.offered⟩
  | input ch =>
    -- the byte is decoded before its key is handled
    have hdecoded : Shell.Mirrors { s.shell with stat := (decode s.shell.stat ch).1 }
        { t with stat := (decode t.stat ch).1 } :=
      ⟨congrArg (fun stat => (decode stat ch).1) hstat,
        ⟨⟨hline, hposition, hcurpos⟩, ⟨hrows, hcount, hcurrent⟩⟩,
        ⟨hkeeps.count, hkeeps.row⟩, hplace⟩
    obtain ⟨shell', hkey, hmirrors, hanswers, hoffered⟩ :=
      hdecoded.press table.namesFit fun hchar => ⟨decode_char hchar, hok hchar⟩
    cases hkey.symm.trans hshell
    rw [← hstat] at hmirrors hanswers hoffered
    rw [Terminal.next, ← hstat]
    refine ⟨hmirrors, ?_, ?_⟩
    · rw [hanswers, ← h.answers]
      dsimp only
      split
      · rfl
      · rw [List.append_nil]
    · rw [hoffered, ← h.offered]
      dsimp only
      split
      · rfl
      · rw [List.append_nil]

/-- **The shell is a terminal**, for every command table, every sequence of bytes without an
overflow and every change of the echo or of the device between them. What it shows and remembers,
which commands it called with which arguments and which names it offered are those of the terminal
that got the same events. -/
theorem finsh_refines_terminal (table : CommandTable F) {s : FinshSession F}
    (h : (finshSession table).Reach FinshSession.NoOverflow s) :
    s.Mirrors (s.events.foldl (Terminal.next table.entries) .boot) := by
  refine h.invariant (P := fun s => s.Mirrors (s.events.foldl (Terminal.next table.entries) .boot))
    ⟨⟨rfl, boot_sound, boot_remembers.keeps, rfl⟩, rfl, rfl⟩ fun s event s' hs hok hstep => ?_
  have hevents : s'.events = s.events ++ [event] := by
    obtain ⟨shell, -, rfl⟩ := Option.map_eq_some_iff.mp hstep
    rfl
  rw [hevents, List.foldl_append]
  exact hs.step table hok hstep

/-- "he", a tab, " a", Enter, the up key twice and Enter: the command `help` is called twice with
its name and `a`. -/
theorem finsh_refines_terminal_help : ∃ s,
    (finshSession helpTable).Reach FinshSession.NoOverflow s ∧
    s.answers = List.replicate 2 (.called () [[0x68, 0x65, 0x6C, 0x70], [0x61]]) ∧
    s.Mirrors (s.events.foldl (Terminal.next helpTable.entries) .boot) := by
  obtain ⟨s, hs, hanswers⟩ := Machine.exists_reach_of_run (finshSession helpTable)
    FinshSession.NoOverflow
    ([0x68, 0x65, 0x09, 0x20, 0x61, 0x0D, 0x1B, 0x5B, 0x41, 0x1B, 0x5B, 0x41, 0x0D].map .input)
    (fun s => s.answers = List.replicate 2 (.called () [[0x68, 0x65, 0x6C, 0x70], [0x61]]))
    (by decide +kernel)
  exact ⟨s, hs, hanswers, finsh_refines_terminal helpTable hs⟩

end RtVcom.Finsh
