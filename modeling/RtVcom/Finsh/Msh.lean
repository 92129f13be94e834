import RtVcom.Lib.CMemory

/-!
# The command interpreter msh

`msh.c` gets the line of the shell as a pointer and a length. It looks the first word up in the
table of the system calls, splits the line in place into arguments, and completes a prefix from the
names of the table. The line is a `CArray` here and every access to it is checked, so a result
`some _` of a function says that the function stayed inside the line.

The length that msh gets is not checked by it: the loops test it behind the access, and some of them
only stop at a NUL or a blank. What keeps them inside is a NUL at the end of the text
(`mshExec_inside`, `mshAutoComplete_holds`).
-/

namespace RtVcom.Finsh

open RtVcom.Lib

/-- `FINSH_ARG_MAX`. -/
def finshArgMax : Nat := 10

/-- `struct finsh_syscall`: the name that is exported, and the function. -/
structure Syscall (F : Type) where
  name : CString
  func : F

/-- The string "__cmd_" that the names of the commands begin with. -/
def cmdMark : CString where
  chars := [0x5f, 0x5f, 0x63, 0x6d, 0x64, 0x5f]
  nulFree := by simp [NulFree]

/-- What `msh_exec` comes to: a blank line, a command that is called with its arguments, or no
command. An argument is the index in the line where it begins. -/
inductive Outcome (F : Type)
  | blank
  | called (func : F) (argv : List Nat)
  | notFound
deriving DecidableEq

section Interpreter

variable {F : Type} {n : Nat}

/-- A space or a tab. -/
def isBlank (c : BitVec 8) : Bool := c = 0x20 ∨ c = 0x09

/-- The loop over a word, which reads a character before it tests the length. The size of the first
command and an argument without quotes are found by it. -/
def wordSize : List (BitVec 8) → Nat → Option Nat
  | [], _ => none
  | c :: cs, length =>
    if ¬ isBlank c ∧ 0 < length then (wordSize cs (length - 1)).map (· + 1) else some 0

/-- The loop over an argument in quotes; a quote behind a backslash does not end it. -/
def skipString : List (BitVec 8) → Nat → Option Nat
  | [], _ => none
  | c :: cs, length =>
    if c = 0x22 ∨ length = 0 then some 0
    else if c = 0x5c then
      match cs with
      | [] => none
      | d :: ds =>
        if d = 0x22 then (skipString ds (length - 2)).map (· + 2)
        else (skipString (d :: ds) (length - 1)).map (· + 1)
    else (skipString cs (length - 1)).map (· + 1)

/-- The loop that strips blanks, from `ptr` on and with `length` characters left. It answers the
line, the pointer and the characters left. -/
def stripBlanks (line : CArray (BitVec 8) n) (ptr : Nat) :
    Nat → Option (CArray (BitVec 8) n × Nat × Nat)
  | 0 => do
    let _ ← line.get? ptr
    some (line, ptr, 0)
  | length + 1 => do
    let c ← line.get? ptr
    if isBlank c then
      let line ← line.set? ptr 0
      stripBlanks line (ptr + 1) length
    else some (line, ptr, length + 1)

/-- `rt_kprintf("%s ", argv[i])` for all arguments. -/
def printArgs (line : CArray (BitVec 8) n) : List Nat → Option Unit
  | [] => some ()
  | p :: ps => do
    let _ ← strlen (line.ptr p)
    printArgs line ps

/-- `msh_split`, with the characters that are left, the arguments that were found, and the number of
those that there is room for. -/
def mshSplit (line : CArray (BitVec 8) n) (ptr length : Nat) (argv : List Nat) :
    Nat → Option (CArray (BitVec 8) n × List Nat)
  | 0 =>
    if length = 0 then some (line, argv)
    else do
      let (line, _, _) ← stripBlanks line ptr length
      printArgs line argv
      some (line, argv)
  | room + 1 =>
    if length = 0 then some (line, argv)
    else do
      let (line, ptr, length) ← stripBlanks line ptr length
      if length = 0 then some (line, argv)
      else
        let c ← line.get? ptr
        if c = 0x22 then
          let size ← skipString (line.ptr (ptr + 1)) (length - 1)
          if length - 1 - size = 0 then some (line, argv ++ [ptr + 1])
          else
            let line ← line.set? (ptr + 1 + size) 0
            mshSplit line (ptr + 1 + size + 1) (length - 1 - size - 1) (argv ++ [ptr + 1]) room
        else
          let size ← wordSize (line.ptr ptr) length
          if length - size = 0 then some (line, argv ++ [ptr])
          else mshSplit line (ptr + size) (length - size) (argv ++ [ptr]) room

/-- `msh_get_cmd`. -/
def mshGetCmd (cmd : List (BitVec 8)) (size : Nat) : List (Syscall F) → Option (Option F)
  | [] => some none
  | index :: table => do
    if ← strncmp index.name.mem cmdMark.mem 6 then
      if ← strncmp (index.name.mem.drop 6) cmd size then
        let c ← index.name.mem[6 + size]?
        if c = 0 then some (some index.func) else mshGetCmd cmd size table
      else mshGetCmd cmd size table
    else mshGetCmd cmd size table

/-- `_msh_exec_cmd`: the line, and the command with its arguments if it is called. -/
def mshExecCmd (table : List (Syscall F)) (line : CArray (BitVec 8) n) (cmd length : Nat) :
    Option (CArray (BitVec 8) n × Option (F × List Nat)) := do
  let size ← wordSize (line.ptr cmd) length
  if size = 0 then some (line, none)
  else
    match ← mshGetCmd (line.ptr cmd) size table with
    | none => some (line, none)
    | some func =>
      let (line, argv) ← mshSplit line cmd length [] finshArgMax
      if argv.length = 0 then some (line, none) else some (line, some (func, argv))

/-- The loop that trims the beginning of the command. It does not test the length, which is counted
down in 32 bits. -/
def trimStart : List (BitVec 8) → Nat → Nat → Option (Nat × Nat)
  | [], _, _ => none
  | c :: cs, cmd, length =>
    if isBlank c then trimStart cs (cmd + 1) ((length + 0xFFFFFFFF) % 0x100000000)
    else some (cmd, length)

/-- The loop that looks for the first space, to truncate the command there. -/
def findSpace : List (BitVec 8) → Option Nat
  | [] => none
  | c :: cs => if c ≠ 0x20 ∧ c ≠ 0 then (findSpace cs).map (· + 1) else some 0

/-- `msh_exec`. -/
def mshExec (table : List (Syscall F)) (line : CArray (BitVec 8) n) (length : Nat) :
    Option (CArray (BitVec 8) n × Outcome F) := do
  let (cmd, length) ← trimStart line.items 0 length
  if length = 0 then some (line, .blank)
  else
    match ← mshExecCmd table line cmd length with
    | (line, some (func, argv)) => some (line, .called func argv)
    | (line, none) =>
      let size ← findSpace (line.ptr cmd)
      let line ← line.set? (cmd + size) 0
      -- `rt_kprintf("%s: command not found.\n", cmd)`
      let _ ← strlen (line.ptr cmd)
      some (line, .notFound)

/-- `str_common`. -/
def strCommon : List (BitVec 8) → List (BitVec 8) → Option Nat
  | [], _ => none
  | a :: as, bs =>
    if a = 0 then some 0
    else
      match bs with
      | [] => none
      | b :: bs => if b ≠ 0 ∧ a = b then (strCommon as bs).map (· + 1) else some 0

/-- The variables of `msh_auto_complete`, and the names that it printed. -/
structure Completion where
  minLength : Nat
  namePtr : Option (List (BitVec 8))
  listed : List (List (BitVec 8))

/-- The body of the loop of `msh_auto_complete`, for a name that begins with the prefix. -/
def Completion.add (a : Completion) (cmdName : List (BitVec 8)) : Option Completion := do
  let (namePtr, minLength) ← if a.minLength = 0 then do
      let size ← strlen cmdName
      some (cmdName, size)
    else do
      let namePtr ← a.namePtr
      some (namePtr, a.minLength)
  let length ← strCommon namePtr cmdName
  some { minLength := if length < minLength then length else minLength
         namePtr := some namePtr
         listed := a.listed ++ [cmdName] }

/-- The loop of `msh_auto_complete` over the table. -/
def completeFrom (pre : List (BitVec 8)) : List (Syscall F) → Completion → Option Completion
  | [], a => some a
  | index :: table, a => do
    if ← strncmp index.name.mem cmdMark.mem 6 then
      let cmdName := index.name.mem.drop 6
      let size ← strlen pre
      if ← strncmp pre cmdName size then
        let a ← a.add cmdName
        completeFrom pre table a
      else completeFrom pre table a
    else completeFrom pre table a

/-- The names that `msh_help` lists. -/
def mshHelp : List (Syscall F) → Option (List (List (BitVec 8)))
  | [] => some []
  | index :: table => do
    let names ← mshHelp table
    if ← strncmp index.name.mem cmdMark.mem 6 then some (index.name.mem.drop 6 :: names)
    else some names

/-- `msh_auto_complete`: the line with what was completed, and the names that were listed. -/
def mshAutoComplete (table : List (Syscall F)) (line : CArray (BitVec 8) n) :
    Option (CArray (BitVec 8) n × List (List (BitVec 8))) := do
  let c ← line.get? 0
  if c = 0 then
    let names ← mshHelp table
    some (line, names)
  else
    let a ← completeFrom (line.ptr 0) table ⟨0, none, []⟩
    match a.namePtr with
    | none => some (line, a.listed)
    | some name =>
      let line ← strncpy line 0 name a.minLength
      some (line, a.listed)

/-! ## The loops stay inside -/

/-- A word ends before the end of its memory. -/
theorem exists_wordSize {mem : List (BitVec 8)} {length : Nat} (h : length < mem.length) :
    ∃ size, wordSize mem length = some size ∧ size ≤ length := by
  induction mem generalizing length with
  | nil => exact absurd h (Nat.not_lt_zero _)
  | cons c mem ih =>
    by_cases hc : ¬ isBlank c ∧ 0 < length
    · obtain ⟨size, hsize, hle⟩ := @ih (length - 1) (by rw [List.length_cons] at h; omega)
      exact ⟨size + 1, by simp only [wordSize, if_pos hc, hsize, Option.map_some], by omega⟩
    · exact ⟨0, by simp only [wordSize, if_neg hc], Nat.zero_le _⟩

/-- The character behind a backslash is inside, for the NUL at the end is not a quote. -/
theorem exists_skipString {mem : List (BitVec 8)} {length : Nat} (h : mem[length]? = some 0) :
    ∃ size, skipString mem length = some size ∧ size ≤ length := by
  fun_induction skipString mem length with
  | case1 length => cases h
  | case2 c cs length hend => exact ⟨0, rfl, Nat.zero_le _⟩
  | case3 length hend =>
    rw [List.getElem?_cons, if_neg (not_or.mp hend).2] at h
    cases h
  | case4 length ds hend ih =>
    -- the quote is not the NUL, so the NUL lies behind it
    have hquote : length - 1 ≠ 0 := by
      intro hone
      rw [List.getElem?_cons, if_neg (not_or.mp hend).2, hone] at h
      cases h
    rw [List.getElem?_cons, if_neg (not_or.mp hend).2, List.getElem?_cons, if_neg hquote,
      Nat.sub_sub] at h
    obtain ⟨size, hsize, hle⟩ := ih h
    exact ⟨size + 2, by rw [hsize, Option.map_some], by omega⟩
  | case5 length d ds hd hend ih =>
    rw [List.getElem?_cons, if_neg (not_or.mp hend).2] at h
    obtain ⟨size, hsize, hle⟩ := ih h
    exact ⟨size + 1, by rw [hsize, Option.map_some], by have := (not_or.mp hend).2; omega⟩
  | case6 c cs length hend hc ih =>
    rw [List.getElem?_cons, if_neg (not_or.mp hend).2] at h
    obtain ⟨size, hsize, hle⟩ := ih h
    exact ⟨size + 1, by rw [hsize, Option.map_some], by have := (not_or.mp hend).2; omega⟩

theorem exists_findSpace {mem : List (BitVec 8)} {i : Nat} (h : mem[i]? = some 0) :
    ∃ size, findSpace mem = some size ∧ size ≤ i := by
  induction mem generalizing i with
  | nil => cases h
  | cons c mem ih =>
    by_cases hc : c ≠ 0x20 ∧ c ≠ 0
    · cases i with
      | zero => exact absurd (Option.some.inj h) hc.2
      | succ i =>
        obtain ⟨size, hsize, hle⟩ := ih h
        exact ⟨size + 1, by simp only [findSpace, if_pos hc, hsize, Option.map_some],
          Nat.succ_le_succ hle⟩
    · exact ⟨0, by simp only [findSpace, if_neg hc], Nat.zero_le _⟩

/-- The beginning of a text is trimmed inside the text. -/
theorem trimStart_text {t : List (BitVec 8)} (ht : t.length < 0x100000000) (cmd : Nat)
    (rest : List (BitVec 8)) : ∃ cmd' length', trimStart (t ++ 0 :: rest) cmd t.length =
      some (cmd', length') ∧ cmd' + length' = cmd + t.length := by
  induction t generalizing cmd with
  | nil => exact ⟨cmd, 0, rfl, rfl⟩
  | cons c t ih =>
    by_cases hc : isBlank c
    · rw [List.length_cons] at ht
      obtain ⟨cmd', length', htrim, hsum⟩ := ih (by omega) (cmd + 1)
      have hdown : (t.length + 1 + 0xFFFFFFFF) % 0x100000000 = t.length := by omega
      refine ⟨cmd', length', ?_, by rw [List.length_cons]; omega⟩
      simp only [List.cons_append, trimStart, if_pos hc, List.length_cons, hdown, htrim]
    · exact ⟨cmd, (c :: t).length, by simp only [List.cons_append, trimStart, if_neg hc], rfl⟩

/-- A NUL stands at index `e`, and a write of NUL leaves it there. -/
theorem get?_nul_of_set? {line line' : CArray (BitVec 8) n} {i e : Nat}
    (hset : line.set? i 0 = some line') (he : line.get? e = some 0) : line'.get? e = some 0 := by
  rw [CArray.get?_of_set? hset]
  split
  · rfl
  · exact he

theorem lt_of_get? {line : CArray (BitVec 8) n} {e : Nat} (he : line.get? e = some 0) : e < n :=
  line.size ▸ (List.getElem?_eq_some_iff.mp he).1

theorem getElem?_ptr_nul {line : CArray (BitVec 8) n} {p e : Nat} (he : line.get? e = some 0)
    (hp : p ≤ e) : (line.ptr p)[e - p]? = some 0 := by
  rw [CArray.getElem?_ptr, Nat.add_sub_cancel' hp, he]

/-- The blanks are overwritten inside the line. -/
theorem exists_stripBlanks {e : Nat} (length : Nat) : ∀ (line : CArray (BitVec 8) n) {ptr : Nat},
    line.get? e = some 0 → ptr + length = e →
    ∃ line' ptr' length', stripBlanks line ptr length = some (line', ptr', length') ∧
      line'.get? e = some 0 ∧ ptr' + length' = e := by
  induction length with
  | zero =>
    intro line ptr he hsum
    obtain rfl : ptr = e := hsum
    exact ⟨line, ptr, 0, by simp only [stripBlanks, he, Option.bind_eq_bind, Option.bind_some], he,
      rfl⟩
  | succ length ih =>
    intro line ptr he hsum
    have hn := lt_of_get? he
    obtain ⟨c, hc⟩ := line.exists_get? (show ptr < n by omega)
    by_cases hblank : isBlank c
    · obtain ⟨line₁, hset, -⟩ := CArray.set?_eq_some (b := line) (show ptr < n by omega) 0
      obtain ⟨line', ptr', length', hstrip, he', hsum'⟩ :=
        @ih line₁ (ptr + 1) (get?_nul_of_set? hset he) (by omega)
      refine ⟨line', ptr', length', ?_, he', hsum'⟩
      simp only [stripBlanks, hc, hset, hstrip, if_pos hblank, Option.bind_eq_bind,
        Option.bind_some]
    · refine ⟨line, ptr, length + 1, ?_, he, hsum⟩
      simp only [stripBlanks, hc, if_neg hblank, Option.bind_eq_bind, Option.bind_some]

theorem exists_printArgs {line : CArray (BitVec 8) n} {e : Nat} (he : line.get? e = some 0)
    {argv : List Nat} (hargv : ∀ p ∈ argv, p ≤ e) : printArgs line argv = some () := by
  induction argv with
  | nil => rfl
  | cons p argv ih =>
    obtain ⟨hp, hargv⟩ := List.forall_mem_cons.mp hargv
    obtain ⟨k, hk, -⟩ := exists_strlen (getElem?_ptr_nul he hp)
    simp only [printArgs, hk, ih hargv, Option.bind_eq_bind, Option.bind_some]

/-- The loop of `msh_split`: it never passes the NUL at the end of the text, and leaves it. -/
theorem mshSplit_inside {e : Nat} (room : Nat) : ∀ (line : CArray (BitVec 8) n)
    {ptr length : Nat} {argv : List Nat}, line.get? e = some 0 → ptr + length = e →
    (∀ p ∈ argv, p ≤ e) → ∃ line' argv', mshSplit line ptr length argv room =
      some (line', argv') ∧ line'.get? e = some 0 := by
  induction room with
  | zero =>
    intro line ptr length argv he hsum hargv
    by_cases hlength : length = 0
    · exact ⟨line, argv, by simp only [mshSplit, if_pos hlength], he⟩
    · obtain ⟨line', ptr', length', hstrip, he', -⟩ := exists_stripBlanks length line he hsum
      refine ⟨line', argv, ?_, he'⟩
      simp only [mshSplit, if_neg hlength, hstrip, exists_printArgs he' hargv, Option.bind_eq_bind,
        Option.bind_some]
  | succ room ih =>
    intro line ptr length argv he hsum hargv
    by_cases hlength : length = 0
    · exact ⟨line, argv, by simp only [mshSplit, if_pos hlength], he⟩
    obtain ⟨line₁, ptr, left, hstrip, he, hsum⟩ := exists_stripBlanks length line he hsum
    simp only [mshSplit, if_neg hlength, hstrip, Option.bind_eq_bind, Option.bind_some]
    by_cases hleft : left = 0
    · exact ⟨line₁, argv, if_pos hleft, he⟩
    have hn := lt_of_get? he
    have hargs : ∀ q ≤ e, ∀ p ∈ argv ++ [q], p ≤ e := by
      intro q hq p hp
      obtain hp | hp := List.mem_append.mp hp
      · exact hargv p hp
      · exact List.mem_singleton.mp hp ▸ hq
    obtain ⟨c, hc⟩ := line₁.exists_get? (show ptr < n by omega)
    simp only [if_neg hleft, hc, Option.bind_some]
    by_cases hquote : c = 0x22
    · obtain ⟨size, hsize, hle⟩ := exists_skipString
        (getElem?_ptr_nul he (show ptr + 1 ≤ e by omega))
      rw [show e - (ptr + 1) = left - 1 by omega] at hsize hle
      simp only [if_pos hquote, hsize, Option.bind_some]
      by_cases hend : left - 1 - size = 0
      · exact ⟨line₁, argv ++ [ptr + 1], if_pos hend, he⟩
      obtain ⟨line₂, hset, -⟩ := CArray.set?_eq_some (b := line₁)
        (show ptr + 1 + size < n by omega) 0
      simp only [if_neg hend, hset, Option.bind_some]
      exact ih line₂ (get?_nul_of_set? hset he) (by omega) (hargs _ (by omega))
    · obtain ⟨size, hsize, hle⟩ := exists_wordSize
        (show left < (line₁.ptr ptr).length by rw [CArray.length_ptr]; omega)
      simp only [if_neg hquote, hsize, Option.bind_some]
      by_cases hend : left - size = 0
      · exact ⟨line₁, argv ++ [ptr], if_pos hend, he⟩
      simp only [if_neg hend]
      exact ih line₁ he (by omega) (hargs _ (by omega))

/-! ## The table -/

/-- The name of a command behind its mark; a system call of the other shell has none. -/
def Syscall.cmdName (index : Syscall F) : Option (List (BitVec 8)) :=
  if cmdMark.chars.isPrefixOf index.name.chars then some (index.name.chars.drop 6) else none

/-- The comparison with `__cmd_` finds the commands. -/
theorem strncmp_mark (index : Syscall F) :
    strncmp index.name.mem cmdMark.mem 6 = some index.cmdName.isSome := by
  have h := strncmp_prefix cmdMark.nulFree index.name.nulFree [0]
  rw [strncmp_comm]
  refine h.trans ?_
  unfold Syscall.cmdName
  split
  · next hmark => rw [hmark, Option.isSome_some]
  · next hmark => rw [Bool.eq_false_iff.mpr hmark, Option.isSome_none]

/-- Behind the mark stands the name of the command. -/
theorem drop_mem_of_cmdName {index : Syscall F} {q : List (BitVec 8)} (h : index.cmdName = some q) :
    index.name.mem.drop 6 = q ++ [0] ∧ NulFree q := by
  unfold Syscall.cmdName at h
  split at h
  · next hmark =>
    cases h
    have hlen : 6 ≤ index.name.chars.length := (List.isPrefixOf_iff_prefix.mp hmark).length_le
    exact ⟨List.drop_append_of_le_length hlen,
      fun c hc => index.name.nulFree c (List.mem_of_mem_drop hc)⟩
  · cases h

/-- The search for a word reads no name behind its NUL. -/
theorem exists_mshGetCmd (table : List (Syscall F)) {p : List (BitVec 8)} (hp : NulFree p)
    (x : List (BitVec 8)) : ∃ r, mshGetCmd (p ++ x) p.length table = some r := by
  induction table with
  | nil => exact ⟨none, rfl⟩
  | cons index table ih =>
    cases hname : index.cmdName with
    | none =>
      obtain ⟨r, hr⟩ := ih
      refine ⟨r, ?_⟩
      simp only [mshGetCmd, strncmp_mark, hname, Option.isSome_none, Bool.false_eq_true, if_false,
        Option.bind_eq_bind, Option.bind_some, hr]
    | some q =>
      obtain ⟨hmem, hq⟩ := drop_mem_of_cmdName hname
      simp only [mshGetCmd, strncmp_mark, hname, hmem, Option.isSome_some, if_true,
        strncmp_comm (q ++ [0]), strncmp_prefix hp hq, Option.bind_eq_bind, Option.bind_some]
      split
      · next hpre =>
        have hlen : p.length < (q ++ [0]).length := by
          have := (List.isPrefixOf_iff_prefix.mp hpre).length_le
          rw [List.length_append, List.length_singleton]
          omega
        rw [← List.getElem?_drop, hmem, List.getElem?_eq_getElem hlen, Option.bind_some]
        split
        · exact ⟨_, rfl⟩
        · exact ih
      · exact ih

/-! ## The interpreter stays inside the line -/

/-- A text that is held and a place in it: what lies behind the place is the rest of the text and a
NUL. -/
theorem ptr_of_holds {line : CArray (BitVec 8) n} {t : List (BitVec 8)} (h : line.Holds t) {i : Nat}
    (hi : i ≤ t.length) :
    line.ptr i = t.drop i ++ 0 :: List.replicate (n - t.length - 1) 0 := by
  obtain ⟨z, hz⟩ : ∃ z, n - t.length = z + 1 := ⟨n - t.length - 1, by have := h.fits; omega⟩
  rw [CArray.ptr, h.items, hz, List.drop_append_of_le_length hi, List.replicate_succ,
    Nat.add_sub_cancel]

/-- `_msh_exec_cmd` never leaves the line, and keeps its NUL. -/
theorem mshExecCmd_inside (table : List (Syscall F)) {line : CArray (BitVec 8) n}
    {t : List (BitVec 8)} (h : line.Holds t) {cmd length : Nat} (hsum : cmd + length = t.length) :
    ∃ line' r, mshExecCmd table line cmd length = some (line', r) ∧
      line'.get? t.length = some 0 := by
  have hnul := h.get?_nul (Nat.le_refl _) h.fits
  have hn := h.fits
  obtain ⟨size, hsize, hle⟩ := exists_wordSize
    (show length < (line.ptr cmd).length by rw [CArray.length_ptr]; omega)
  simp only [mshExecCmd, hsize, Option.bind_eq_bind, Option.bind_some]
  by_cases hzero : size = 0
  · exact ⟨line, none, if_pos hzero, hnul⟩
  -- the first word is a part of the text, so it has no NUL
  have hword : line.ptr cmd = (t.drop cmd).take size ++
      ((t.drop cmd).drop size ++ 0 :: List.replicate (n - t.length - 1) 0) := by
    rw [ptr_of_holds h (by omega), ← List.append_assoc, List.take_append_drop]
  have hlen : ((t.drop cmd).take size).length = size :=
    List.length_take_of_le (by rw [List.length_drop]; omega)
  have hfree : NulFree ((t.drop cmd).take size) :=
    fun c hc => h.nulFree c (List.mem_of_mem_drop (List.mem_of_mem_take hc))
  obtain ⟨r, hr⟩ := exists_mshGetCmd table hfree
    ((t.drop cmd).drop size ++ 0 :: List.replicate (n - t.length - 1) 0)
  rw [hlen, ← hword] at hr
  simp only [if_neg hzero, hr, Option.bind_some]
  cases r with
  | none => exact ⟨line, none, rfl, hnul⟩
  | some func =>
    obtain ⟨line', argv, hsplit, hnul'⟩ := mshSplit_inside finshArgMax line hnul hsum
      (List.forall_mem_nil (· ≤ t.length))
    simp only [hsplit, Option.bind_some]
    split
    · exact ⟨line', none, rfl, hnul'⟩
    · exact ⟨line', some (func, argv), rfl, hnul'⟩

/-- `msh_exec` on a text that the line holds. -/
theorem mshExec_inside (table : List (Syscall F)) {line : CArray (BitVec 8) n}
    {t : List (BitVec 8)} (h : line.Holds t) (ht : t.length < 0x100000000) :
    ∃ r, mshExec table line t.length = some r := by
  have hn := h.fits
  obtain ⟨cmd, length, htrim, hsum⟩ := trimStart_text ht 0
    (List.replicate (n - t.length - 1) 0)
  have hitems := ptr_of_holds h (Nat.zero_le _)
  rw [CArray.ptr, List.drop_zero, List.drop_zero] at hitems
  rw [Nat.zero_add] at hsum
  simp only [mshExec, hitems, htrim, Option.bind_eq_bind, Option.bind_some]
  by_cases hlength : length = 0
  · exact ⟨_, if_pos hlength⟩
  obtain ⟨line₁, r, hexec, hnul⟩ := mshExecCmd_inside table h hsum
  simp only [if_neg hlength, hexec, Option.bind_some]
  cases r with
  | some call => exact ⟨_, rfl⟩
  | none =>
    obtain ⟨size, hsize, hle⟩ := exists_findSpace (getElem?_ptr_nul hnul (show cmd ≤ _ by omega))
    obtain ⟨line₂, hset, -⟩ := CArray.set?_eq_some (b := line₁) (show cmd + size < n by omega) 0
    obtain ⟨k, hk, -⟩ := exists_strlen
      (getElem?_ptr_nul (get?_nul_of_set? hset hnul) (show cmd ≤ _ by omega))
    exact ⟨(line₂, .notFound), by simp only [hsize, hset, hk, Option.bind_some]⟩

/-! ## Completion -/

/-- A common beginning lengthens what two strings share. -/
theorem strCommon_append {t : List (BitVec 8)} (ht : NulFree t) (x y : List (BitVec 8)) :
    strCommon (t ++ x) (t ++ y) = (strCommon x y).map (· + t.length) := by
  induction t with
  | nil => simp
  | cons c t ih =>
    obtain ⟨hc, ht⟩ := nulFree_cons.mp ht
    simp only [List.cons_append, strCommon, ne_eq, hc, not_false_eq_true, true_and,
      if_true, ih ht, Option.map_map, List.length_cons]
    rfl

/-- `str_common` ends inside the first string. -/
theorem exists_strCommon (q r : List (BitVec 8)) :
    ∃ m, strCommon (q ++ [0]) (r ++ [0]) = some m ∧ m ≤ q.length := by
  induction q generalizing r with
  | nil => exact ⟨0, rfl, Nat.le_refl _⟩
  | cons a q ih =>
    by_cases ha : a = 0
    · exact ⟨0, by simp only [List.cons_append, strCommon, if_pos ha], Nat.zero_le _⟩
    cases r with
    | nil => exact ⟨0, by simp [strCommon], Nat.zero_le _⟩
    | cons b r =>
      by_cases hab : b ≠ 0 ∧ a = b
      · obtain ⟨m, hm, hle⟩ := ih r
        exact ⟨m + 1, by simp only [List.cons_append, strCommon, if_neg ha, if_pos hab, hm,
          Option.map_some], Nat.succ_le_succ hle⟩
      · exact ⟨0, by simp only [List.cons_append, strCommon, if_neg ha, if_neg hab],
          Nat.zero_le _⟩

/-- What two names have in common is at least the text that both begin with. -/
theorem exists_strCommon_of_prefix {t q r : List (BitVec 8)} (ht : NulFree t) (hq : t <+: q)
    (hr : t <+: r) :
    ∃ m, strCommon (q ++ [0]) (r ++ [0]) = some m ∧ t.length ≤ m ∧ m ≤ q.length := by
  obtain ⟨q, rfl⟩ := hq
  obtain ⟨r, rfl⟩ := hr
  obtain ⟨m, hm, hle⟩ := exists_strCommon q r
  refine ⟨m + t.length, ?_, by omega, by rw [List.length_append]; omega⟩
  rw [List.append_assoc, List.append_assoc, strCommon_append ht, hm, Option.map_some]

/-- What the loop of the completion keeps, for the text `t` of a line of `n` bytes: nothing was
found, or a name that begins with the text, of which at least the text is left. -/
def Completion.Fits (t : List (BitVec 8)) (n : Nat) (a : Completion) : Prop :=
  (a.minLength = 0 ∧ a.namePtr = none) ∨
    ∃ q, a.namePtr = some (q ++ [0]) ∧ NulFree q ∧ t <+: q ∧ q.length < n ∧
      t.length ≤ a.minLength ∧ a.minLength ≤ q.length

/-- The names of the table are shorter than the line. -/
def NamesFit (table : List (Syscall F)) (n : Nat) : Prop :=
  ∀ index ∈ table, ∀ q, index.cmdName = some q → q.length < n

/-- One name that begins with the text. -/
theorem Completion.Fits.add {t q : List (BitVec 8)} {a : Completion} (h : a.Fits t n)
    (ht : NulFree t) (hpos : t ≠ []) (hq : NulFree q) (hpre : t <+: q) (hn : q.length < n) :
    ∃ a', a.add (q ++ [0]) = some a' ∧ a'.Fits t n := by
  have hlen := List.length_pos_iff.mpr hpos
  obtain ⟨hzero, -⟩ | ⟨r, hr, hfree, hprer, hnr, hle, hmin⟩ := h
  · obtain ⟨m, hm, hlem, hmq⟩ := exists_strCommon_of_prefix ht hpre hpre
    have hsize : strlen (q ++ [0]) = some q.length := strlen_append_nul hq []
    have hle := hpre.length_le
    simp only [Completion.add, if_pos hzero, hsize, hm, Option.bind_eq_bind, Option.bind_some]
    refine ⟨_, rfl, .inr ⟨q, rfl, hq, hpre, hn, ?_⟩⟩
    dsimp only
    split <;> omega
  · have hzero : a.minLength ≠ 0 := by omega
    obtain ⟨m, hm, hlem, hmq⟩ := exists_strCommon_of_prefix ht hprer hpre
    simp only [Completion.add, if_neg hzero, hr, hm, Option.bind_eq_bind, Option.bind_some]
    refine ⟨_, rfl, .inr ⟨r, rfl, hfree, hprer, hnr, ?_⟩⟩
    dsimp only
    split <;> omega

/-- The loop over the table, for a text that a line holds. -/
theorem completeFrom_fits {t x : List (BitVec 8)} (ht : NulFree t) (hpos : t ≠ [])
    {table : List (Syscall F)} (hnames : NamesFit table n) {a : Completion} (h : a.Fits t n) :
    ∃ a', completeFrom (t ++ 0 :: x) table a = some a' ∧ a'.Fits t n := by
  induction table generalizing a with
  | nil => exact ⟨a, rfl, h⟩
  | cons index table ih =>
    obtain ⟨hindex, hnames⟩ := List.forall_mem_cons.mp hnames
    cases hname : index.cmdName with
    | none =>
      simp only [completeFrom, strncmp_mark, hname, Option.isSome_none, Bool.false_eq_true,
        if_false, Option.bind_eq_bind, Option.bind_some]
      exact ih hnames h
    | some q =>
      obtain ⟨hmem, hq⟩ := drop_mem_of_cmdName hname
      simp only [completeFrom, strncmp_mark, hname, Option.isSome_some, if_true, hmem,
        strlen_append_nul ht, strncmp_prefix ht hq, Option.bind_eq_bind, Option.bind_some]
      split
      · next hpre =>
        obtain ⟨a', hadd, hfits⟩ := h.add ht hpos hq (List.isPrefixOf_iff_prefix.mp hpre)
          (hindex q hname)
        simp only [hadd, Option.bind_some]
        exact ih hnames hfits
      · exact ih hnames h

/-- `msh_help` reads the names inside their strings. -/
theorem exists_mshHelp (table : List (Syscall F)) : ∃ names, mshHelp table = some names := by
  induction table with
  | nil => exact ⟨[], rfl⟩
  | cons index table ih =>
    obtain ⟨names, hnames⟩ := ih
    simp only [mshHelp, hnames, strncmp_mark, Option.bind_eq_bind, Option.bind_some]
    split
    · exact ⟨_, rfl⟩
    · exact ⟨_, rfl⟩

/-- A completion leaves a line that holds a text. -/
theorem mshAutoComplete_holds {table : List (Syscall F)} (hnames : NamesFit table n)
    {line : CArray (BitVec 8) n} {t : List (BitVec 8)} (h : line.Holds t) :
    ∃ line' names u, mshAutoComplete table line = some (line', names) ∧ line'.Holds u := by
  have hptr := ptr_of_holds h (Nat.zero_le _)
  rw [List.drop_zero] at hptr
  by_cases hpos : t = []
  · subst hpos
    obtain ⟨names, hhelp⟩ := exists_mshHelp table
    have hnul : line.get? 0 = some 0 := h.get?_nul (Nat.le_refl _) h.fits
    refine ⟨line, names, [], ?_, h⟩
    simp only [mshAutoComplete, hnul, hhelp, if_true,
      Option.bind_eq_bind, Option.bind_some]
  obtain ⟨c, s, rfl⟩ := List.exists_cons_of_ne_nil hpos
  have hc : line.get? 0 = some c := by rw [CArray.get?, h.items]; rfl
  have hne : c ≠ 0 := (nulFree_cons.mp h.nulFree).1
  obtain ⟨a, ha, hfits⟩ := completeFrom_fits (a := ⟨0, none, []⟩)
    (x := List.replicate (n - (c :: s).length - 1) 0) h.nulFree hpos hnames (.inl ⟨rfl, rfl⟩)
  simp only [mshAutoComplete, hc, if_neg hne, hptr, ha, Option.bind_eq_bind, Option.bind_some]
  obtain ⟨-, hnone⟩ | ⟨q, hsome, hq, -, hn, hle, hmin⟩ := hfits
  · exact ⟨line, a.listed, _, by simp only [hnone], h⟩
  · obtain ⟨line', hcopy, hholds⟩ := h.strncpy hq [0] hle hmin (by omega)
    exact ⟨line', a.listed, _, by simp only [hsome, hcopy, Option.bind_some], hholds⟩

end Interpreter

end RtVcom.Finsh
