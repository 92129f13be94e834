import RtVcom.Finsh.LineEditor

/-!
# What the shell runs is what was edited

The keys of a text at the prompt, and what Enter hands to `msh_exec` behind them. The abstract
editor throws a text away that reaches the size of the line (`Editor.press`); the shell only
resets the two positions, and the characters stay behind them.

The two agree exactly when no key puts a character in at the end of a line of 79
(`executes_edited_iff`). One direction is the refinement of the line editor, key by key. For the
other, a line that was thrown away stays spoilt until Enter (`Shell.Spoilt`): its last cell is not
NUL and no key clears it, so `line` is not zero behind the text that is run.

What holds in every state, also behind an overflow, is `Shell.Filled`: the cells before
`line_position` hold characters. It is why every row that goes to the history is a text.
-/

namespace RtVcom.Finsh

open RtVcom.Lib

/-! ## Keys at the prompt -/

/-- The printable characters. -/
def Printable (c : BitVec 8) : Prop := 0x20 ≤ c ∧ c ≤ 0x7E

instance (c : BitVec 8) : Decidable (Printable c) := inferInstanceAs (Decidable (_ ∧ _))

/-- The keys that edit a line. -/
inductive EditKey
  | char (c : BitVec 8) (printable : Printable c)
  | left
  | right
  | backspace
  | delete

/-- What the keyboard sends. -/
def EditKey.bytes : EditKey → List (BitVec 8)
  | .char c _ => [c]
  | .left => [0x1B, 0x5B, 0x44]
  | .right => [0x1B, 0x5B, 0x43]
  | .backspace => [0x08]
  | .delete => [0x7F]

/-- The shell behind some keys. -/
def typed {F : Type} (table : List (Syscall F)) : Shell → List EditKey → Option Shell
  | s, [] => some s
  | s, k :: ks => (k.bytes.foldlM (finshThreadEntry table) s).bind fun s => typed table s ks

/-- The arguments of `msh_exec` in the round of a byte that is Enter. -/
def mshCall (s : Shell) (ch : BitVec 8) : Option (Line × Nat) :=
  if (decode s.stat ch).2 = .enter then
    (shellPushHistory { s with stat := (decode s.stat ch).1 }).map fun s => (s.line, s.linePosition)
  else none

/-- Either Enter behind the keys hands the text to `msh_exec`, with NUL from there on. -/
def Executes {F : Type} (table : List (Syscall F)) (s : Shell) (keys : List EditKey)
    (text : List (BitVec 8)) : Prop :=
  ∃ t, typed table s keys = some t ∧ ∀ enter ∈ [0x0D, 0x0A], ∃ line n,
    mshCall t enter = some (line, n) ∧ line.items.take n = text ∧
      ∀ i, n ≤ i → i < finshCmdSize → line.get? i = some 0

/-- A prompt: the line is cleared, and no escape sequence has begun. -/
structure Shell.AtPrompt (s : Shell) : Prop where
  stat : s.stat = .waitNormal
  line : s.line = .fill _ 0
  position : s.linePosition = 0
  curpos : s.lineCurpos = 0

namespace Editor

/-- A character put in, unless the text reaches the size of the line, which is then thrown
away. -/
def type {α : Type} (e : Editor α) (c : α) : Editor α :=
  if finshCmdSize ≤ e.text.length + 1 then ⟨[], []⟩ else e.insert c

def press (e : Editor (BitVec 8)) : EditKey → Editor (BitVec 8)
  | .char c _ => e.type c
  | .left => e.left
  | .right => e.right
  | .backspace | .delete => e.backspace

end Editor

/-- The text behind the keys. -/
def edited (keys : List EditKey) : List (BitVec 8) := (keys.foldl Editor.press ⟨[], []⟩).text

/-- No key throws the text away. -/
def KeepsText : Editor (BitVec 8) → List EditKey → Prop
  | _, [] => True
  | e, .char c _ :: ks => e.text.length + 1 < finshCmdSize ∧ KeepsText (e.insert c) ks
  | e, k :: ks => KeepsText (e.press k) ks

/-! ## One key -/

/-- What a key does to a shell that is not in an escape sequence. -/
def EditKey.handle (s : Shell) : EditKey → Option Shell
  | .char c _ => normalChar s c
  | .left => leftKey s
  | .right => rightKey s
  | .backspace | .delete => backspaceKey s

/-- A printable character is inserted. -/
theorem plainKey_printable {c : BitVec 8} (h : Printable c) : plainKey c = .char ∧ c ≠ 0x1B := by
  obtain ⟨hlow, hhigh⟩ := h
  have hlow : 0x20 ≤ c.toNat := hlow
  have hhigh : c.toNat ≤ 0x7E := hhigh
  have hne {d : BitVec 8} (hd : d.toNat < 0x20 ∨ 0x7E < d.toNat) : c ≠ d := by
    rintro rfl
    omega
  refine ⟨?_, hne (by decide)⟩
  simp only [plainKey, hne (d := 0x00) (by decide), hne (d := 0xFF) (by decide),
    hne (d := 0x09) (by decide), hne (d := 0x7F) (by decide), hne (d := 0x08) (by decide),
    hne (d := 0x0D) (by decide), hne (d := 0x0A) (by decide), or_self, if_false]

/-- The bytes of a key are handled as that key. -/
theorem bytes_handled {F : Type} (table : List (Syscall F)) {s : Shell}
    (hstat : s.stat = .waitNormal) (k : EditKey) :
    k.bytes.foldlM (finshThreadEntry table) s = k.handle s := by
  obtain ⟨stat, _⟩ := s
  cases hstat
  cases k with
  | char c hc =>
    obtain ⟨hkey, hne⟩ := plainKey_printable hc
    simp only [EditKey.bytes, List.foldlM_cons, List.foldlM_nil, finshThreadEntry, decode,
      if_neg hne, hkey, handleKey]
    exact bind_pure (normalChar _ c)
  | left => exact bind_pure (leftKey _)
  | right => exact bind_pure (rightKey _)
  | backspace => exact bind_pure (backspaceKey _)
  | delete => exact bind_pure (backspaceKey _)

/-! ## Cells that hold characters -/

/-- The cell is not NUL. -/
def Written (line : Line) (i : Nat) : Prop := ∃ v, line.get? i = some v ∧ v ≠ 0

/-- The positions are inside the line, and the cells before `line_position` hold characters. -/
structure Shell.Filled (s : Shell) : Prop where
  curpos_le : s.lineCurpos ≤ s.linePosition
  position_lt : s.linePosition < finshCmdSize
  written : ∀ i, i < s.linePosition → Written s.line i

/-- A shell that shows a text has it in the cells. -/
theorem Shell.Shows.filled {s : Shell} {e : Editor (BitVec 8)} (h : s.Shows e) : s.Filled where
  curpos_le := h.curpos_le
  position_lt := h.position_lt
  written i hi := by
    rw [h.position] at hi
    refine ⟨e.text[i], ?_, h.line.nulFree _ (List.getElem_mem hi)⟩
    rw [CArray.get?, h.line.items, List.getElem?_append_left hi, List.getElem?_eq_getElem hi]

/-- The positions behind a character that is put in. -/
def Shell.advance (s : Shell) (line : Line) : Shell :=
  if finshCmdSize ≤ s.linePosition + 1 then
    { s with line := line, linePosition := 0, lineCurpos := 0 }
  else
    { s with line := line, linePosition := s.linePosition + 1, lineCurpos := s.lineCurpos + 1 }

/-- A character that is put in, at the end of a full line as well: the cells up to
`line_position` are written, and the ones behind it stay. -/
theorem normalChar_filled {s t : Shell} (h : s.Filled) {ch : BitVec 8} (hch : ch ≠ 0)
    (ht : normalChar s ch = some t) :
    ∃ line, t = s.advance line ∧ (∀ i, i ≤ s.linePosition → Written line i) ∧
      ∀ i, s.linePosition < i → line.get? i = s.line.get? i := by
  have hlt : s.linePosition < 80 := h.position_lt
  have hle := h.curpos_le
  have hsmall : ¬ finshCmdSize ≤ s.linePosition := Nat.not_le_of_lt hlt
  have hup : (s.linePosition + 1) % 0x100 = s.linePosition + 1 := by omega
  have hcurup : (s.lineCurpos + 1) % 0x100 = s.lineCurpos + 1 := by omega
  simp only [normalChar, if_neg hsmall, hup, hcurup] at ht
  split at ht
  · next hmiddle =>
    obtain ⟨moved, hmove, hcopied⟩ := s.line.memmove_copied (s.lineCurpos + 1) s.lineCurpos
      (k := s.linePosition - s.lineCurpos) (show _ ≤ 80 by omega) (show _ ≤ 80 by omega)
    obtain ⟨line, hset, -⟩ := CArray.set?_eq_some (b := moved) (show s.lineCurpos < 80 by omega) ch
    have hget := CArray.get?_of_set? hset
    have hmoved := hcopied.get? (show _ ≤ 80 by omega) (show _ ≤ 80 by omega)
    simp only [hmove, hset, Option.bind_eq_bind, Option.bind_some] at ht
    have hframe : t = s.advance line := by
      split at ht
      · obtain ⟨_, -, ht⟩ := Option.bind_eq_some_iff.mp ht
        exact (Option.some.inj ht).symm
      · exact (Option.some.inj ht).symm
    refine ⟨line, hframe, fun i hi => ?_, fun i hi => ?_⟩
    · by_cases hat : s.lineCurpos = i
      · exact ⟨ch, by rw [hget, if_pos hat], hch⟩
      · unfold Written
        rw [hget, if_neg hat, hmoved]
        split
        · exact h.written _ (by omega)
        · exact h.written _ (by omega)
    · rw [hget, if_neg (by omega), hmoved, if_neg (by omega)]
  · next hend =>
    obtain ⟨line, hset, -⟩ := CArray.set?_eq_some (b := s.line) hlt ch
    have hget := CArray.get?_of_set? hset
    simp only [hset, Option.bind_eq_bind, Option.bind_some] at ht
    refine ⟨line, (Option.some.inj ht).symm, fun i hi => ?_, fun i hi => ?_⟩
    · by_cases hat : s.linePosition = i
      · exact ⟨ch, by rw [hget, if_pos hat], hch⟩
      · unfold Written
        rw [hget, if_neg hat]
        exact h.written i (by omega)
    · rw [hget, if_neg (by omega)]

/-- A line that grows stays written. -/
theorem Shell.Filled.advance {s : Shell} (h : s.Filled) {line : Line}
    (hline : ∀ i, i ≤ s.linePosition → Written line i) : (s.advance line).Filled := by
  have hle := h.curpos_le
  unfold Shell.advance
  split
  · exact ⟨Nat.le_refl _, show 0 < finshCmdSize by decide,
      fun i hi => absurd hi (Nat.not_lt_zero i)⟩
  · next hroom =>
    exact ⟨Nat.succ_le_succ hle, Nat.lt_of_not_le hroom, fun i hi => hline i (Nat.le_of_lt_succ hi)⟩

/-- A character taken out: the last cell of the text is cleared, and the ones behind it stay. -/
theorem backspaceKey_filled {s t : Shell} (h : s.Filled) (ht : backspaceKey s = some t) :
    ∃ line position curpos,
      t = { s with line := line, linePosition := position, lineCurpos := curpos } ∧ t.Filled ∧
        ∀ i, s.linePosition ≤ i → line.get? i = s.line.get? i := by
  have hlt : s.linePosition < 80 := h.position_lt
  have hle := h.curpos_le
  unfold backspaceKey at ht
  split at ht
  · cases ht
    exact ⟨s.line, s.linePosition, s.lineCurpos, rfl, h, fun _ _ => rfl⟩
  next hcur =>
  have hdown : (s.linePosition + 0xFF) % 0x100 = s.linePosition - 1 := by omega
  simp only [hdown] at ht
  split at ht
  · next hmiddle =>
    obtain ⟨moved, hmove, hcopied⟩ := s.line.memmove_copied (s.lineCurpos - 1)
      (s.lineCurpos - 1 + 1) (k := s.linePosition - 1 - (s.lineCurpos - 1))
      (show _ ≤ 80 by omega) (show _ ≤ 80 by omega)
    obtain ⟨line, hset, -⟩ := CArray.set?_eq_some (b := moved)
      (show s.linePosition - 1 < 80 by omega) 0
    have hget := CArray.get?_of_set? hset
    have hmoved := hcopied.get? (show _ ≤ 80 by omega) (show _ ≤ 80 by omega)
    simp only [hmove, hset, Option.bind_eq_bind, Option.bind_some] at ht
    obtain ⟨_, -, ht⟩ := Option.bind_eq_some_iff.mp ht
    cases ht
    refine ⟨line, _, _, rfl,
      ⟨by dsimp only; omega, show _ < 80 by dsimp only; omega, fun i hi => ?_⟩, fun i hi => ?_⟩
    · dsimp only at hi ⊢
      unfold Written
      rw [hget, if_neg (by omega), hmoved]
      split
      · exact h.written _ (by omega)
      · exact h.written _ (by omega)
    · rw [hget, if_neg (by omega), hmoved, if_neg (by omega)]
  · next hend =>
    obtain ⟨line, hset, -⟩ := CArray.set?_eq_some (b := s.line)
      (show s.linePosition - 1 < 80 by omega) 0
    have hget := CArray.get?_of_set? hset
    simp only [hset, Option.bind_eq_bind, Option.bind_some] at ht
    cases ht
    refine ⟨line, _, _, rfl,
      ⟨by dsimp only; omega, show _ < 80 by dsimp only; omega, fun i hi => ?_⟩, fun i hi => ?_⟩
    · dsimp only at hi ⊢
      unfold Written
      rw [hget, if_neg (by omega)]
      exact h.written _ (by omega)
    · rw [hget, if_neg (by omega)]

/-- The left and the right key move the cursor inside the text. -/
theorem leftKey_filled {s t : Shell} (h : s.Filled) (ht : leftKey s = some t) :
    ∃ curpos, t = { s with lineCurpos := curpos } ∧ t.Filled := by
  have hle := h.curpos_le
  unfold leftKey at ht
  split at ht
  · cases ht
    exact ⟨_, rfl, Nat.le_trans (Nat.sub_le _ _) hle, h.position_lt, h.written⟩
  · cases ht
    exact ⟨s.lineCurpos, rfl, h⟩

/-- The right arrow moves the cursor only. -/
theorem rightKey_filled {s t : Shell} (h : s.Filled) (ht : rightKey s = some t) :
    ∃ curpos, t = { s with lineCurpos := curpos } ∧ t.Filled := by
  unfold rightKey at ht
  split at ht
  · next hlt =>
    obtain ⟨_, -, ht⟩ := Option.bind_eq_some_iff.mp ht
    cases ht
    exact ⟨_, rfl, Nat.le_trans (Nat.mod_le _ _) hlt, h.position_lt, h.written⟩
  · cases ht
    exact ⟨s.lineCurpos, rfl, h⟩

/-- What a key of the line leaves: the positions and the line may change, with the cells behind
`line_position` as they were, but for a character that is put in there. -/
theorem handle_filled {s t : Shell} (h : s.Filled) {k : EditKey} (ht : k.handle s = some t) :
    t.Filled ∧ t.stat = s.stat ∧
      ∀ i, s.linePosition ≤ i → t.line.get? i = s.line.get? i ∨ Written t.line i := by
  cases k with
  | char c hc =>
    have hne : c ≠ 0 := by
      rintro rfl
      exact absurd hc (by decide)
    obtain ⟨line, rfl, hwritten, hbehind⟩ := normalChar_filled h hne ht
    have hadvance : (s.advance line).line = line ∧ (s.advance line).stat = s.stat := by
      unfold Shell.advance
      split <;> exact ⟨rfl, rfl⟩
    refine ⟨h.advance hwritten, hadvance.2, fun i hi => ?_⟩
    rw [hadvance.1]
    rcases Nat.lt_or_eq_of_le hi with hi | rfl
    · exact .inl (hbehind i hi)
    · exact .inr (hwritten _ (Nat.le_refl _))
  | left =>
    obtain ⟨curpos, rfl, hfilled⟩ := leftKey_filled h ht
    exact ⟨hfilled, rfl, fun _ _ => .inl rfl⟩
  | right =>
    obtain ⟨curpos, rfl, hfilled⟩ := rightKey_filled h ht
    exact ⟨hfilled, rfl, fun _ _ => .inl rfl⟩
  | backspace =>
    obtain ⟨line, position, curpos, rfl, hfilled, hbehind⟩ := backspaceKey_filled h ht
    exact ⟨hfilled, rfl, fun i hi => .inl (hbehind i hi)⟩
  | delete =>
    obtain ⟨line, position, curpos, rfl, hfilled, hbehind⟩ := backspaceKey_filled h ht
    exact ⟨hfilled, rfl, fun i hi => .inl (hbehind i hi)⟩

/-! ## A line that was thrown away -/

/-- The last cell of the line is not NUL. -/
structure Shell.Spoilt (s : Shell) : Prop where
  filled : s.Filled
  stat : s.stat = .waitNormal
  last : Written s.line (finshCmdSize - 1)

/-- No key repairs it. -/
theorem Shell.Spoilt.handle {s t : Shell} (h : s.Spoilt) {k : EditKey} (ht : k.handle s = some t) :
    t.Spoilt := by
  obtain ⟨hfilled, hstat, hbehind⟩ := handle_filled h.filled ht
  refine ⟨hfilled, hstat.trans h.stat, ?_⟩
  rcases hbehind (finshCmdSize - 1) (Nat.le_sub_one_of_lt h.filled.position_lt) with hsame | hnew
  · unfold Written
    rw [hsame]
    exact h.last
  · exact hnew

/-- A character put in at the end of a line of 79 spoils it. -/
theorem spoilt_of_full {s t : Shell} (h : s.Filled) (hstat : s.stat = .waitNormal) {c : BitVec 8}
    {hc : Printable c} (hfull : finshCmdSize ≤ s.linePosition + 1)
    (ht : (EditKey.char c hc).handle s = some t) : t.Spoilt := by
  obtain ⟨hfilled, hsame, -⟩ := handle_filled h ht
  have hne : c ≠ 0 := by
    rintro rfl
    exact absurd hc (by decide)
  obtain ⟨line, rfl, hwritten, -⟩ := normalChar_filled h hne ht
  refine ⟨hfilled, hsame.trans hstat, ?_⟩
  rw [Shell.advance, if_pos hfull]
  exact hwritten _ (Nat.sub_le_of_le_add hfull)

section Runs

variable {F : Type} (table : List (Syscall F))

theorem typed_cons {s : Shell} (hstat : s.stat = .waitNormal) (k : EditKey) (ks : List EditKey) :
    typed table s (k :: ks) = (k.handle s).bind fun s => typed table s ks := by
  rw [typed, bytes_handled table hstat k]

theorem Shell.Spoilt.typed {ks : List EditKey} {s t : Shell} (h : s.Spoilt)
    (ht : typed table s ks = some t) : t.Spoilt := by
  induction ks generalizing s with
  | nil =>
    cases ht
    exact h
  | cons k ks ih =>
    rw [typed_cons table h.stat] at ht
    obtain ⟨m, hm, ht⟩ := Option.bind_eq_some_iff.mp ht
    exact ih (h.handle hm) ht

/-! ## A text that is kept -/

/-- A key that keeps the text is the key of the abstract editor. -/
theorem handle_sound {s : Shell} {e : Editor (BitVec 8)} (h : s.Sound e) {k : EditKey}
    (hkeeps : ∀ c hc, k = .char c hc → e.text.length + 1 < finshCmdSize) :
    ∃ t, k.handle s = some t ∧ t.Sound (e.press k) := by
  cases k with
  | char c hc =>
    have hroom := hkeeps c hc rfl
    have hne : c ≠ 0 := by
      rintro rfl
      exact absurd hc (by decide)
    rw [Editor.press, Editor.type, if_neg (Nat.not_le_of_lt hroom)]
    apply normalChar_sound h hne
    rw [h.shows.position]
    exact hroom
  | left => exact leftKey_sound h
  | right => exact rightKey_sound h
  | backspace => exact backspaceKey_sound h
  | delete => exact backspaceKey_sound h

/-- The keys keep the text when the first does and the others do after it. -/
theorem keepsText_cons {e : Editor (BitVec 8)} {k : EditKey} {ks : List EditKey} :
    KeepsText e (k :: ks) ↔
      (∀ c hc, k = .char c hc → e.text.length + 1 < finshCmdSize) ∧ KeepsText (e.press k) ks := by
  cases k with
  | char c hc =>
    have hpress : e.text.length + 1 < finshCmdSize → e.press (.char c hc) = e.insert c :=
      fun hroom => if_neg (Nat.not_le_of_lt hroom)
    constructor
    · rintro ⟨hroom, hkeeps⟩
      rw [hpress hroom]
      exact ⟨fun _ _ _ => hroom, hkeeps⟩
    · rintro ⟨hroom, hkeeps⟩
      rw [hpress (hroom c hc rfl)] at hkeeps
      exact ⟨hroom c hc rfl, hkeeps⟩
  | left => exact ⟨fun h => ⟨fun _ _ hk => (by cases hk), h⟩, fun h => h.2⟩
  | right => exact ⟨fun h => ⟨fun _ _ hk => (by cases hk), h⟩, fun h => h.2⟩
  | backspace => exact ⟨fun h => ⟨fun _ _ hk => (by cases hk), h⟩, fun h => h.2⟩
  | delete => exact ⟨fun h => ⟨fun _ _ hk => (by cases hk), h⟩, fun h => h.2⟩

/-- Keys that keep the text lead to the text of the abstract editor, and any others spoil the
line. -/
theorem typed_cases (ks : List EditKey) {s : Shell} {e : Editor (BitVec 8)} (h : s.Sound e)
    (hstat : s.stat = .waitNormal) :
    (KeepsText e ks ∧ ∃ t, typed table s ks = some t ∧ t.stat = .waitNormal ∧
        t.Sound (ks.foldl Editor.press e)) ∨
      (¬ KeepsText e ks ∧ ∀ t, typed table s ks = some t → t.Spoilt) := by
  induction ks generalizing s e with
  | nil => exact .inl ⟨trivial, s, rfl, hstat, h⟩
  | cons k ks ih =>
    rw [typed_cons table hstat, keepsText_cons, List.foldl_cons]
    by_cases hroom : ∀ c hc, k = .char c hc → e.text.length + 1 < finshCmdSize
    · obtain ⟨m, hm, hsound⟩ := handle_sound h hroom
      have hmstat := (handle_filled h.shows.filled hm).2.1.trans hstat
      rw [hm, Option.bind_some]
      rcases ih hsound hmstat with ⟨hkeeps, hrun⟩ | ⟨hloses, hrun⟩
      · exact .inl ⟨⟨hroom, hkeeps⟩, hrun⟩
      · exact .inr ⟨fun hboth => hloses hboth.2, hrun⟩
    · right
      refine ⟨fun hboth => hroom hboth.1, fun t ht => ?_⟩
      simp only [Classical.not_forall] at hroom
      obtain ⟨c, hc, rfl, hfull⟩ := hroom
      obtain ⟨m, hm, ht⟩ := Option.bind_eq_some_iff.mp ht
      rw [← h.shows.position] at hfull
      exact (spoilt_of_full h.shows.filled hstat (Nat.le_of_not_lt hfull) hm).typed table ht

/-! ## Enter -/

/-- A push to the history leaves the line. -/
theorem shellPushHistory_line {s t : Shell} (h : shellPushHistory s = some t) :
    t.line = s.line ∧ t.linePosition = s.linePosition := by
  obtain ⟨u, hu, ht⟩ := Option.bind_eq_some_iff.mp h
  cases ht
  change u.line = s.line ∧ u.linePosition = s.linePosition
  unfold pushHistory at hu
  split at hu
  · cases hu
    exact ⟨rfl, rfl⟩
  split at hu
  · obtain ⟨last, -, hu⟩ := Option.bind_eq_some_iff.mp hu
    split at hu
    · obtain ⟨moved, -, hu⟩ := Option.bind_eq_some_iff.mp hu
      obtain ⟨row, -, hu⟩ := Option.bind_eq_some_iff.mp hu
      obtain ⟨history, -, hu⟩ := Option.bind_eq_some_iff.mp hu
      cases hu
      exact ⟨rfl, rfl⟩
    · cases hu
      exact ⟨rfl, rfl⟩
  · obtain ⟨same, -, hu⟩ := Option.bind_eq_some_iff.mp hu
    split at hu
    · cases hu
      exact ⟨rfl, rfl⟩
    · obtain ⟨row, -, hu⟩ := Option.bind_eq_some_iff.mp hu
      obtain ⟨history, -, hu⟩ := Option.bind_eq_some_iff.mp hu
      cases hu
      exact ⟨rfl, rfl⟩

/-- Both bytes of Enter call `msh_exec` behind `shell_push_history`. -/
theorem mshCall_enter {s : Shell} (hstat : s.stat = .waitNormal) {enter : BitVec 8}
    (henter : enter ∈ [0x0D, 0x0A]) :
    mshCall s enter = (shellPushHistory s).map fun s => (s.line, s.linePosition) := by
  obtain ⟨stat, _⟩ := s
  cases hstat
  have henter : enter = 0x0D ∨ enter = 0x0A := by
    simpa only [List.mem_cons, List.not_mem_nil, or_false] using henter
  rcases henter with rfl | rfl <;> rfl

/-- A sound shell executes the text of its editor. -/
theorem executes_of_sound {s t : Shell} {keys : List EditKey} {e : Editor (BitVec 8)}
    (ht : typed table s keys = some t) (hstat : t.stat = .waitNormal) (h : t.Sound e) :
    Executes table s keys e.text := by
  refine ⟨t, ht, fun enter henter => ?_⟩
  obtain ⟨u, hpush, hsound⟩ := shellPushHistory_sound h
  refine ⟨u.line, u.linePosition, ?_, ?_, fun i hle hi => ?_⟩
  · rw [mshCall_enter hstat henter, hpush, Option.map_some]
  · rw [hsound.shows.position, hsound.shows.line.items, List.take_left]
  · rw [hsound.shows.position] at hle
    exact hsound.shows.line.get?_nul hle hi

/-- A spoilt shell never executes the text. -/
theorem not_executes_of_spoilt {s : Shell} {keys : List EditKey} {text : List (BitVec 8)}
    (h : ∀ t, typed table s keys = some t → t.Spoilt) : ¬ Executes table s keys text := by
  rintro ⟨t, ht, hcalls⟩
  have hspoilt := h t ht
  obtain ⟨line, n, hcall, -, hzero⟩ := hcalls 0x0D List.mem_cons_self
  rw [mshCall_enter hspoilt.stat List.mem_cons_self] at hcall
  obtain ⟨u, hpush, hu⟩ := Option.map_eq_some_iff.mp hcall
  cases hu
  obtain ⟨hline, hposition⟩ := shellPushHistory_line hpush
  obtain ⟨v, hv, hne⟩ := hspoilt.last
  have hlt := hspoilt.filled.position_lt
  have hnul := hzero (finshCmdSize - 1) (by rw [hposition]; exact Nat.le_sub_one_of_lt hlt)
    (by decide)
  rw [hline, hv] at hnul
  exact hne (Option.some.inj hnul)

end Runs

/-! ## Every prompt -/

/-- What holds in every state, behind an overflow as well. -/
structure Shell.Tidy (s : Shell) : Prop where
  filled : s.Filled
  history : s.HistoryFits

theorem Shell.Sound.tidy {s : Shell} {e : Editor (BitVec 8)} (h : s.Sound e) : s.Tidy :=
  ⟨h.shows.filled, h.history⟩

/-- The row of a push is a text: the cells before `line_position`. -/
theorem historyRow_filled {s : Shell} (h : s.Filled) :
    ∃ row u, historyRow s = some row ∧ row.Holds u := by
  have hlt := h.position_lt
  obtain ⟨row, hrow, hitems⟩ := (CArray.fill finshCmdSize (0 : BitVec 8)).memcpy_eq_some s.line
    (Nat.le_of_lt hlt) (Nat.le_of_lt hlt)
  have hlen : (s.line.items.take s.linePosition).length = s.linePosition :=
    List.length_take_of_le (by rw [s.line.size]; exact Nat.le_of_lt hlt)
  refine ⟨row, s.line.items.take s.linePosition, hrow, by rw [hlen]; exact hlt, fun c hc => ?_, ?_⟩
  · obtain ⟨i, hi, rfl⟩ := List.getElem_of_mem hc
    rw [hlen] at hi
    obtain ⟨v, hv, hne⟩ := h.written i hi
    rw [List.getElem_take]
    rw [CArray.get?_eq_some_iff, List.getElem?_eq_some_iff] at hv
    obtain ⟨_, rfl⟩ := hv
    exact hne
  · rw [hitems, hlen, CArray.fill, List.drop_replicate]

theorem shellPushHistory_tidy {s t : Shell} (h : s.Tidy) (ht : shellPushHistory s = some t) :
    t.HistoryFits := by
  obtain ⟨u, hpush, hpushed⟩ := pushHistory_pushed h.history (historyRow_filled h.filled)
  simp only [shellPushHistory, hpush, Option.bind_eq_bind, Option.bind_some] at ht
  cases ht
  exact ⟨hpushed.rows, hpushed.count, Nat.le_refl _⟩

/-- `strlen` finds the first NUL. -/
theorem strlen_written {mem : List (BitVec 8)} {k : Nat} (h : strlen mem = some k) :
    k < mem.length ∧ ∀ i, i < k → ∃ v, mem[i]? = some v ∧ v ≠ 0 := by
  induction mem generalizing k with
  | nil => cases h
  | cons c mem ih =>
    unfold strlen at h
    split at h
    · cases h
      exact ⟨Nat.succ_pos _, fun i hi => absurd hi (Nat.not_lt_zero i)⟩
    · next hc =>
      obtain ⟨k', hk', rfl⟩ := Option.map_eq_some_iff.mp h
      obtain ⟨hlt, hbefore⟩ := ih hk'
      refine ⟨Nat.succ_lt_succ hlt, fun i hi => ?_⟩
      cases i with
      | zero => exact ⟨c, rfl, hc⟩
      | succ i => exact hbefore i (Nat.lt_of_succ_lt_succ hi)

theorem showHistory_tidy {s t : Shell} (ht : showHistory s = some t) (h : s.HistoryFits)
    (hcurrent : s.currentHistory < finshHistoryLines) : t.Tidy := by
  obtain ⟨u, text, hu, hsound⟩ := showHistory_sound h hcurrent
  obtain rfl : u = t := Option.some.inj (hu.symm.trans ht)
  exact hsound.tidy

/-- The up arrow keeps the shell tidy. -/
theorem upKey_tidy {s t : Shell} (h : s.Tidy) (ht : upKey s = some t) : t.Tidy := by
  have hcount : s.historyCount ≤ 5 := h.history.count
  have hcurrent := h.history.current
  unfold upKey at ht
  split at ht
  · refine showHistory_tidy ht ⟨h.history.rows, hcount, ?_⟩ ?_
    · exact Nat.le_trans (Nat.sub_le _ _) hcurrent
    · change s.currentHistory - 1 < 5
      omega
  · cases ht
    exact ⟨⟨h.filled.curpos_le, h.filled.position_lt, h.filled.written⟩,
      ⟨h.history.rows, hcount, Nat.zero_le _⟩⟩

theorem downKey_tidy {s t : Shell} (h : s.Tidy) (ht : downKey s = some t) : t.Tidy := by
  have hcount : s.historyCount ≤ 5 := h.history.count
  have hcurrent := h.history.current
  unfold downKey at ht
  split at ht
  · next hlt =>
    refine showHistory_tidy ht ⟨h.history.rows, hcount, ?_⟩ ?_
    · change (s.currentHistory + 1) % 0x10000 ≤ s.historyCount
      omega
    · change (s.currentHistory + 1) % 0x10000 < 5
      omega
  · split at ht
    · next hne =>
      refine showHistory_tidy ht ⟨h.history.rows, hcount, Nat.sub_le _ _⟩ ?_
      change s.historyCount - 1 < 5
      omega
    · cases ht
      exact h

/-- The tab key takes the positions from the first NUL of the line. -/
theorem tabKey_tidy {F : Type} {table : List (Syscall F)} {s t : Shell} (h : s.Tidy)
    (ht : tabKey table s = some t) : t.Tidy := by
  obtain ⟨⟨line, _⟩, -, ht⟩ := Option.bind_eq_some_iff.mp ht
  obtain ⟨_, -, ht⟩ := Option.bind_eq_some_iff.mp ht
  obtain ⟨size, hsize, ht⟩ := Option.bind_eq_some_iff.mp ht
  cases ht
  obtain ⟨hlt, hwritten⟩ := strlen_written hsize
  rw [CArray.length_ptr, Nat.sub_zero] at hlt
  have hsame : size % 0x100 = size := by
    have : size < 80 := hlt
    omega
  refine ⟨⟨Nat.le_refl _, ?_, fun i hi => ?_⟩, h.history.of_line _ _ _⟩
  · exact Nat.lt_of_le_of_lt (Nat.mod_le _ _) hlt
  · obtain ⟨v, hv, hne⟩ := hwritten i (hsame ▸ hi)
    rw [CArray.getElem?_ptr, Nat.zero_add] at hv
    exact ⟨v, hv, hne⟩

/-- A cleared line. -/
theorem tidy_clear {s : Shell} (h : s.HistoryFits) :
    Shell.Tidy { s with line := .fill _ 0, linePosition := 0, lineCurpos := 0 } :=
  ⟨⟨Nat.le_refl _, show 0 < finshCmdSize by decide, fun i hi => absurd hi (Nat.not_lt_zero i)⟩,
    h.of_line _ _ _⟩

theorem handleKey_tidy {F : Type} {table : List (Syscall F)} {s t : Shell} (h : s.Tidy)
    {ch : BitVec 8} {key : Key} (hch : key = .char → ch ≠ 0)
    (ht : handleKey table s ch key = some t) : t.Tidy := by
  cases key with
  | skip =>
    cases ht
    exact h
  | up => exact upKey_tidy h ht
  | down => exact downKey_tidy h ht
  | left =>
    obtain ⟨curpos, rfl, hfilled⟩ := leftKey_filled h.filled ht
    exact ⟨hfilled, h.history.of_line _ _ _⟩
  | right =>
    obtain ⟨curpos, rfl, hfilled⟩ := rightKey_filled h.filled ht
    exact ⟨hfilled, h.history.of_line _ _ _⟩
  | tab => exact tabKey_tidy h ht
  | backspace =>
    obtain ⟨line, position, curpos, rfl, hfilled, -⟩ := backspaceKey_filled h.filled ht
    exact ⟨hfilled, h.history.of_line _ _ _⟩
  | enter =>
    obtain ⟨u, hpush, ht⟩ := Option.bind_eq_some_iff.mp ht
    obtain ⟨_, -, ht⟩ := Option.bind_eq_some_iff.mp ht
    cases ht
    exact tidy_clear (shellPushHistory_tidy h hpush)
  | char =>
    obtain ⟨line, rfl, hwritten, -⟩ := normalChar_filled h.filled (hch rfl) ht
    refine ⟨h.filled.advance hwritten, ?_⟩
    unfold Shell.advance
    split
    · exact h.history.of_line _ _ _
    · exact h.history.of_line _ _ _

variable {F : Type}

/-- Every state that is reached is tidy, whatever was typed. -/
theorem tidy_of_reach (table : CommandTable F) {s : Shell}
    (h : (finsh table).Reach Machine.any s) : s.Tidy := by
  refine h.invariant boot_sound.tidy ?_
  intro s event t hs _ hstep
  cases event with
  | input ch =>
    have hstat : Shell.Tidy { s with stat := (decode s.stat ch).1 } :=
      ⟨⟨hs.filled.curpos_le, hs.filled.position_lt, hs.filled.written⟩,
        ⟨hs.history.rows, hs.history.count, hs.history.current⟩⟩
    exact handleKey_tidy hstat decode_char hstep
  | setEcho echo =>
    cases hstep
    exact ⟨⟨hs.filled.curpos_le, hs.filled.position_lt, hs.filled.written⟩,
      ⟨hs.history.rows, hs.history.count, hs.history.current⟩⟩
  | setDevice =>
    cases hstep
    exact tidy_clear hs.history

/-- At the prompt the line is empty. -/
theorem Shell.AtPrompt.sound {s : Shell} (h : s.AtPrompt) (hhistory : s.HistoryFits) :
    s.Sound (.atEnd []) where
  shows :=
    { line := by
        rw [h.line, Editor.text_atEnd]
        exact CArray.holds_fill (by decide)
      position := h.position
      curpos := h.curpos }
  history := hhistory

/-- **The shell runs what was edited**, at every prompt and for all keys, exactly when no key puts
a character in at the end of a text of 79. -/
theorem executes_edited_iff (table : CommandTable F) (s : Shell)
    (h : (finsh table).Reach Machine.any s) (hprompt : s.AtPrompt) (keys : List EditKey) :
    Executes table.entries s keys (edited keys) ↔ KeepsText ⟨[], []⟩ keys := by
  have hsound := hprompt.sound (tidy_of_reach table h).history
  rcases typed_cases table.entries keys hsound hprompt.stat with
    ⟨hkeeps, t, ht, hstat, hedited⟩ | ⟨hloses, hspoilt⟩
  · exact iff_of_true (executes_of_sound table.entries ht hstat hedited) hkeeps
  · exact iff_of_false (not_executes_of_spoilt table.entries hspoilt) hloses

theorem boot_atPrompt : Shell.boot.AtPrompt := ⟨rfl, rfl, rfl, rfl⟩

/-- The keys "ac", left, "bd", backspace at the first prompt: Enter runs "abc". -/
theorem executes_edited_inserted :
    Executes helpTable.entries .boot
      [.char 0x61 (by decide), .char 0x63 (by decide), .left, .char 0x62 (by decide),
        .char 0x64 (by decide), .backspace] [0x61, 0x62, 0x63] := by
  have htext : edited [.char 0x61 (by decide), .char 0x63 (by decide), .left,
      .char 0x62 (by decide), .char 0x64 (by decide), .backspace] = [0x61, 0x62, 0x63] := rfl
  rw [← htext]
  exact (executes_edited_iff helpTable .boot .init boot_atPrompt _).mpr
    ⟨by decide, by decide, by decide, by decide, trivial⟩

/-- A text of 80 characters is thrown away, and the character behind it is run with the 79 that
are still in the line. -/
theorem executes_thrown_away : ¬ ∀ (table : CommandTable Unit) (s : Shell),
    (finsh table).Reach Machine.any s → s.AtPrompt → ∀ keys,
      Executes table.entries s keys (edited keys) := by
  intro h
  obtain ⟨t, ht, hcalls⟩ := h helpTable .boot .init boot_atPrompt
    (List.replicate finshCmdSize (.char 0x61 (by decide)) ++ [.char 0x62 (by decide)])
  have hstale : (typed helpTable.entries .boot
      (List.replicate finshCmdSize (.char 0x61 (by decide)) ++ [.char 0x62 (by decide)])).any
      (fun t => decide (mshCall t 0x0D = some (t.line, 1) ∧ t.line.get? 1 = some 0x61)) = true := by
    decide +kernel
  rw [ht, Option.any_some, decide_eq_true_eq] at hstale
  obtain ⟨line, n, hcall, -, hzero⟩ := hcalls 0x0D List.mem_cons_self
  rw [hstale.1] at hcall
  cases hcall
  have hnul := hzero 1 (Nat.le_refl 1) (by decide)
  rw [hstale.2] at hnul
  cases hnul

end RtVcom.Finsh
