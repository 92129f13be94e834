import RtVcom.Finsh.Msh
import Mathlib.Data.List.DropRight
import Mathlib.Data.List.Forall2

/-!
# The command line of msh

What a line means, against the way `msh_exec` takes it apart. A line is tokens between blanks. A
token is a run of characters that are not blank, unless it begins with a quote: then it goes on to
the next quote that has no backslash in front of it, or to the end of the line, without the quotes
(`tokens`).

`msh_split` finds the tokens in place. It ends a token in quotes at once and a word only in its next
pass, by the blank behind it. So what a pass needs of the passes that follow is that they keep the
line below their pointer, and make NUL of a blank at it (`Kept`). `Pass` says what one pass does,
`mshSplit_tokens` what all of them do, and `mshExec_grammar` puts the search for the command in
front.
-/

namespace RtVcom.Finsh

open RtVcom.Lib

/-! ## The meaning of a line -/

/-- How long a token in quotes is: up to a quote that has no backslash in front of it. -/
def quotedSize : BitVec 8 → List (BitVec 8) → Nat
  | _, [] => 0
  | before, c :: cs => if c = 0x22 ∧ before ≠ 0x5c then 0 else quotedSize c cs + 1

/-- A quoted word ends inside its text. -/
theorem quotedSize_le (before : BitVec 8) (t : List (BitVec 8)) :
    quotedSize before t ≤ t.length := by
  induction t generalizing before with
  | nil => exact Nat.le_refl 0
  | cons c t ih =>
    rw [quotedSize]
    split
    · exact Nat.zero_le _
    · exact Nat.succ_le_succ (ih c)

/-- A word: the characters up to a blank. -/
def word (t : List (BitVec 8)) : List (BitVec 8) := t.takeWhile fun c => !isBlank c

/-- What is left behind a word. -/
def behindWord (t : List (BitVec 8)) : List (BitVec 8) := t.dropWhile fun c => !isBlank c

theorem length_dropBlank_le (t : List (BitVec 8)) : (t.dropWhile isBlank).length ≤ t.length :=
  (List.dropWhile_suffix isBlank).length_le

/-- A token in quotes takes its first quote with it. -/
theorem quoted_decreases {t cs : List (BitVec 8)} {c : BitVec 8}
    (h : t.dropWhile isBlank = c :: cs) :
    (cs.drop (quotedSize 0x22 cs + 1)).length < t.length := by
  have hle := length_dropBlank_le t
  rw [h, List.length_cons] at hle
  rw [List.length_drop]
  omega

/-- What follows the blanks is none. -/
theorem isBlank_head {t cs : List (BitVec 8)} {c : BitVec 8} (h : t.dropWhile isBlank = c :: cs) :
    isBlank c = false := by
  have hhead := List.head?_dropWhile_not isBlank t
  rw [h] at hhead
  exact hhead

/-- A word takes its first character with it. -/
theorem word_decreases {t cs : List (BitVec 8)} {c : BitVec 8}
    (h : t.dropWhile isBlank = c :: cs) : (behindWord (c :: cs)).length < t.length := by
  have hle := length_dropBlank_le t
  rw [h, List.length_cons] at hle
  have hsuffix : (behindWord (c :: cs)).length ≤ cs.length := by
    rw [behindWord, List.dropWhile_cons, isBlank_head h]
    exact (List.dropWhile_suffix _).length_le
  omega

/-- The tokens of a line. -/
def tokens (t : List (BitVec 8)) : List (List (BitVec 8)) :=
  match h : t.dropWhile isBlank with
  | [] => []
  | c :: cs =>
    if c = 0x22 then cs.take (quotedSize 0x22 cs) :: tokens (cs.drop (quotedSize 0x22 cs + 1))
    else word (c :: cs) :: tokens (behindWord (c :: cs))
termination_by t.length
decreasing_by
  · exact quoted_decreases h
  · exact word_decreases h

theorem tokens_nil : tokens [] = [] := by
  rw [tokens]
  rfl

theorem tokens_blank {t : List (BitVec 8)} (h : t.dropWhile isBlank = []) : tokens t = [] := by
  rw [tokens]
  split
  · rfl
  · next c cs hcons =>
    rw [h] at hcons
    cases hcons

/-- A quote opens a token that the next one closes. -/
theorem tokens_quote {t cs : List (BitVec 8)} (h : t.dropWhile isBlank = 0x22 :: cs) :
    tokens t = cs.take (quotedSize 0x22 cs) :: tokens (cs.drop (quotedSize 0x22 cs + 1)) := by
  rw [tokens]
  split
  · next hnil =>
    rw [h] at hnil
    cases hnil
  · next c' cs' hcons =>
    rw [h] at hcons
    cases hcons
    rw [if_pos rfl]

/-- Any other character begins a word. -/
theorem tokens_word {t cs : List (BitVec 8)} {c : BitVec 8} (h : t.dropWhile isBlank = c :: cs)
    (hc : c ≠ 0x22) : tokens t = word (c :: cs) :: tokens (behindWord (c :: cs)) := by
  rw [tokens]
  split
  · next hnil =>
    rw [h] at hnil
    cases hnil
  · next c' cs' hcons =>
    rw [h] at hcons
    cases hcons
    rw [if_neg hc]

/-- A text that is not blank has a token. -/
theorem tokens_ne_nil {t cs : List (BitVec 8)} {c : BitVec 8}
    (h : t.dropWhile isBlank = c :: cs) : tokens t ≠ [] := by
  by_cases hc : c = 0x22
  · subst hc
    rw [tokens_quote h]
    exact List.cons_ne_nil _ _
  · rw [tokens_word h hc]
    exact List.cons_ne_nil _ _

/-! ## A place in the line -/

section Line

variable {n : Nat} {line line' line₁ : CArray (BitVec 8) n} {ptr : Nat}

/-- Below a place the line is as it was. -/
def SameBelow (line line' : CArray (BitVec 8) n) (ptr : Nat) : Prop :=
  line'.items.take ptr = line.items.take ptr

theorem SameBelow.trans (h : SameBelow line line₁ ptr) (h' : SameBelow line₁ line' ptr) :
    SameBelow line line' ptr := Eq.trans h' h

theorem SameBelow.mono (h : SameBelow line line' ptr) {k : Nat} (hk : k ≤ ptr) :
    SameBelow line line' k := by
  have htake := congrArg (List.take k) h
  rwa [List.take_take, List.take_take, Nat.min_eq_left hk] at htake

theorem SameBelow.get? (h : SameBelow line line' ptr) {i : Nat} (hi : i < ptr) :
    line'.get? i = line.get? i := by
  rw [CArray.get?, CArray.get?, ← List.getElem?_take_of_lt hi, h, List.getElem?_take_of_lt hi]

/-- A place from which the line holds something: it is inside, and the next place holds the rest. -/
theorem ptr_cons {c : BitVec 8} {mem : List (BitVec 8)} (h : line.ptr ptr = c :: mem) :
    ptr < n ∧ line.get? ptr = some c ∧ line.ptr (ptr + 1) = mem := by
  have hget : line.get? ptr = some c := by
    rw [← Nat.add_zero ptr, ← CArray.getElem?_ptr, h]
    rfl
  have hlen := congrArg List.length h
  rw [CArray.length_ptr, List.length_cons] at hlen
  refine ⟨by omega, hget, ?_⟩
  rw [CArray.ptr, ← List.drop_drop]
  exact congrArg (List.drop 1) h

/-- The same behind several characters. -/
theorem ptr_append {s mem : List (BitVec 8)} (h : line.ptr ptr = s ++ mem) :
    line.ptr (ptr + s.length) = mem := by
  rw [CArray.ptr, ← List.drop_drop]
  exact (congrArg (List.drop s.length) h).trans List.drop_left

/-- A NUL is written at a place. -/
theorem set_nul {c : BitVec 8} {mem : List (BitVec 8)} (h : line.ptr ptr = c :: mem) :
    ∃ line', line.set? ptr 0 = some line' ∧ SameBelow line line' ptr ∧
      line'.get? ptr = some 0 ∧ line'.ptr (ptr + 1) = mem := by
  obtain ⟨hptr, -, hrest⟩ := ptr_cons h
  obtain ⟨line', hset, hitems⟩ := CArray.set?_eq_some (b := line) hptr 0
  refine ⟨line', hset, ?_, ?_, ?_⟩
  · rw [SameBelow, hitems, List.take_set_of_le (Nat.le_refl _)]
  · rw [CArray.get?_of_set? hset, if_pos rfl]
  · rw [CArray.ptr, hitems, List.drop_set_of_lt (Nat.lt_succ_self _)]
    exact hrest

/-- A NUL-terminated string stands at a place. -/
def StringAt (line : CArray (BitVec 8) n) (ptr : Nat) (s : List (BitVec 8)) : Prop :=
  ∃ mem, line.ptr ptr = s ++ 0 :: mem

theorem ptr_of_sameBelow {k : Nat} {s mem : List (BitVec 8)} (h : SameBelow line line' k)
    (hs : line.ptr ptr = s ++ mem) (hk : ptr + s.length ≤ k) :
    line'.ptr ptr = s ++ line'.ptr (ptr + s.length) := by
  have hbelow := h.mono hk
  have htake : (line'.ptr ptr).take s.length = s := by
    have hdrop := congrArg (List.drop ptr) hbelow
    rw [List.drop_take, List.drop_take, Nat.add_sub_cancel_left] at hdrop
    rw [CArray.ptr, hdrop]
    exact (congrArg (List.take s.length) hs).trans List.take_left
  have hrest : line'.ptr (ptr + s.length) = (line'.ptr ptr).drop s.length := by
    rw [CArray.ptr, CArray.ptr, List.drop_drop]
  rw [hrest]
  exact (List.take_append_drop s.length _).symm.trans (congrArg (· ++ _) htake)

/-- A text is ended by a NUL behind it. -/
theorem stringAt_of_nul {s mem : List (BitVec 8)} (h : SameBelow line line' (ptr + s.length))
    (hs : line.ptr ptr = s ++ mem) (hnul : line'.get? (ptr + s.length) = some 0) :
    StringAt line' ptr s := by
  obtain ⟨hlt, hzero⟩ := List.getElem?_eq_some_iff.mp hnul
  refine ⟨line'.ptr (ptr + s.length + 1), ?_⟩
  rw [ptr_of_sameBelow h hs (Nat.le_refl _)]
  exact congrArg (s ++ ·) ((List.drop_eq_getElem_cons hlt).trans (by rw [hzero]; rfl))

/-- A string below a place stays. -/
theorem StringAt.of_sameBelow {k : Nat} {s : List (BitVec 8)} (hs : StringAt line ptr s)
    (h : SameBelow line line' k) (hk : ptr + s.length < k) : StringAt line' ptr s := by
  obtain ⟨mem, hmem⟩ := hs
  have hlen : (s ++ [0]).length = s.length + 1 := by
    rw [List.length_append, List.length_singleton]
  have hat : line.ptr ptr = (s ++ [0]) ++ mem := by
    rw [hmem, List.append_assoc, List.singleton_append]
  have hptr := ptr_of_sameBelow h hat (by omega)
  rw [List.append_assoc, List.singleton_append] at hptr
  exact ⟨_, hptr⟩

/-- What the passes from a place on keep for the pass before them: the line below the place, and a
NUL at it unless a token begins there. -/
def Kept (line line' : CArray (BitVec 8) n) (ptr : Nat) (t : List (BitVec 8)) : Prop :=
  SameBelow line line' ptr ∧ ((∀ c ∈ t.head?, isBlank c) → line'.get? ptr = some 0)

/-- A line without blanks in front of its text keeps itself. -/
theorem kept_self {t x : List (BitVec 8)} (h : line.ptr ptr = t.dropWhile isBlank ++ 0 :: x) :
    Kept line line ptr (t.dropWhile isBlank) := by
  refine ⟨rfl, fun hblank => ?_⟩
  cases ht : t.dropWhile isBlank with
  | nil =>
    rw [ht] at h
    exact (ptr_cons h).2.1
  | cons c cs =>
    rw [ht] at hblank
    have hc := hblank c rfl
    rw [isBlank_head ht] at hc
    cases hc

end Line

/-! ## The loops over a text -/

section Loops

variable {n : Nat} (x : List (BitVec 8))

/-- `msh_get_cmd_size` finds the word. -/
theorem wordSize_text (t : List (BitVec 8)) :
    wordSize (t ++ 0 :: x) t.length = some (word t).length := by
  induction t with
  | nil => rfl
  | cons c t ih =>
    rw [List.cons_append, wordSize, word, List.takeWhile_cons, List.length_cons]
    cases hc : isBlank c with
    | true => rfl
    | false =>
      rw [if_pos ⟨Bool.false_ne_true, Nat.succ_pos _⟩, Nat.add_sub_cancel, ih]
      rfl

/-- The loop over an argument in quotes looks at the character behind a backslash, and the meaning
at the one in front of a quote. They agree as long as a backslash in front of the loop has no quote
behind it. -/
theorem skipString_text {t : List (BitVec 8)} {before : BitVec 8}
    (hbefore : before = 0x5c → t.head? ≠ some 0x22) :
    skipString (t ++ 0 :: x) t.length = some (quotedSize before t) := by
  induction hn : t.length using Nat.strongRecOn generalizing t before with
  | ind n ih =>
    subst hn
    cases t with
    | nil =>
      rw [List.nil_append, skipString.eq_def, List.length_nil, quotedSize]
      exact if_pos (Or.inr rfl)
    | cons c t =>
      have hlen : (c :: t).length = t.length + 1 := List.length_cons
      rw [List.cons_append, skipString.eq_def, quotedSize]
      dsimp only
      by_cases hquote : c = 0x22
      · -- the quote ends the argument, so there is no backslash in front of it
        have hescape : before ≠ 0x5c := fun h => hbefore h (congrArg some hquote)
        rw [if_pos (Or.inl hquote), if_pos ⟨hquote, hescape⟩]
      have hmore : ¬(c = 0x22 ∨ (c :: t).length = 0) := by
        rintro (h | h)
        · exact hquote h
        · cases h
      have hinside : ¬(c = 0x22 ∧ before ≠ 0x5c) := fun h => hquote h.1
      rw [if_neg hmore, if_neg hinside, hlen]
      by_cases hback : c = 0x5c
      · rw [if_pos hback]
        cases t with
        | nil =>
          have hnul := @ih 0 (Nat.succ_pos _) [] c (fun _ => (Option.some_ne_none _).symm) rfl
          have hzero : (0 : BitVec 8) ≠ 0x22 := by decide
          rw [List.nil_append] at hnul ⊢
          dsimp only
          rw [if_neg hzero, List.length_nil, Nat.zero_add, Nat.sub_self, hnul]
          rfl
        | cons d t =>
          rw [List.cons_append]
          dsimp only
          by_cases hd : d = 0x22
          · -- a quote behind a backslash is passed with it
            have hrest := @ih t.length (by simp only [List.length_cons]; omega) t d
              (fun h => by rw [hd] at h; cases h) rfl
            have hpassed : ¬(d = 0x22 ∧ c ≠ 0x5c) := fun h => h.2 hback
            have htwo : (d :: t).length + 1 - 2 = t.length := by
              rw [List.length_cons]
              omega
            rw [if_pos hd, htwo, hrest, quotedSize, if_neg hpassed]
            rfl
          · have hrest := @ih (d :: t).length (Nat.lt_succ_self _) (d :: t) c
              (fun _ h => hd (Option.some.inj h)) rfl
            rw [if_neg hd, Nat.add_sub_cancel, ← List.cons_append, hrest]
            rfl
      · have hrest := @ih t.length (Nat.lt_succ_self _) t c (fun h => absurd h hback) rfl
        rw [if_neg hback, Nat.add_sub_cancel, hrest]
        rfl

/-- The blanks in front of a text become NUL, and nothing in front of them changes. -/
theorem stripBlanks_text (t : List (BitVec 8)) :
    ∀ {line : CArray (BitVec 8) n} {ptr : Nat}, line.ptr ptr = t ++ 0 :: x →
      ∃ line' ptr', stripBlanks line ptr t.length =
          some (line', ptr', (t.dropWhile isBlank).length) ∧
        ptr' + (t.dropWhile isBlank).length = ptr + t.length ∧
        line'.ptr ptr' = t.dropWhile isBlank ++ 0 :: x ∧
        ∀ {line''}, Kept line' line'' ptr' (t.dropWhile isBlank) → Kept line line'' ptr t := by
  induction t with
  | nil =>
    intro line ptr h
    obtain ⟨-, hget, -⟩ := ptr_cons h
    refine ⟨line, ptr, ?_, rfl, h, id⟩
    simp only [stripBlanks, List.length_nil, hget, Option.bind_eq_bind, Option.bind_some,
      List.dropWhile_nil]
  | cons c t ih =>
    intro line ptr h
    obtain ⟨-, hget, -⟩ := ptr_cons h
    by_cases hc : isBlank c
    · obtain ⟨line₁, hset, hbelow, hnul, hrest⟩ := set_nul h
      obtain ⟨line', ptr', hstrip, hsum, hptr, hkept⟩ := ih hrest
      rw [List.dropWhile_cons, if_pos hc]
      refine ⟨line', ptr', ?_, ?_, hptr, fun hrun => ?_⟩
      · simp only [stripBlanks, List.length_cons, hget, if_pos hc, hset, hstrip,
          Option.bind_eq_bind, Option.bind_some]
      · rw [hsum, List.length_cons]
        omega
      · have hsame := (hkept hrun).1
        refine ⟨hbelow.trans (hsame.mono (Nat.le_succ _)), fun _ => ?_⟩
        rw [hsame.get? (Nat.lt_succ_self _)]
        exact hnul
    · rw [List.dropWhile_cons, if_neg hc]
      refine ⟨line, ptr, ?_, rfl, h, id⟩
      simp only [stripBlanks, List.length_cons, hget, if_neg hc, Option.bind_eq_bind,
        Option.bind_some]

/-! ## The arguments -/

theorem word_append_behindWord (t : List (BitVec 8)) : word t ++ behindWord t = t :=
  List.takeWhile_append_dropWhile

/-- Behind a word there is a blank, or the end of the text. -/
theorem head?_behindWord {t : List (BitVec 8)} {c : BitVec 8} (h : c ∈ (behindWord t).head?) :
    isBlank c := by
  have hhead := List.head?_dropWhile_not (fun c => !isBlank c) t
  rw [← behindWord, Option.mem_def.mp h] at hhead
  simpa using hhead

/-- Blanks before a text do not count. -/
theorem tokens_dropBlank (t : List (BitVec 8)) : tokens (t.dropWhile isBlank) = tokens t := by
  have hidem := List.dropWhile_idempotent isBlank t
  cases h : t.dropWhile isBlank with
  | nil => rw [tokens_blank h, tokens_nil]
  | cons c cs =>
    rw [h] at hidem
    by_cases hc : c = 0x22
    · subst hc
      rw [tokens_quote h, tokens_quote hidem]
    · rw [tokens_word h hc, tokens_word hidem hc]

theorem mshSplit_empty (line : CArray (BitVec 8) n) (ptr : Nat) (argv : List Nat) (room : Nat) :
    mshSplit line ptr 0 argv room = some (line, argv) := by
  cases room <;> exact if_pos rfl

/-- One pass over the text at `ptr`. It finds the first token at `p`, and what is left at `q`. The
token is a string when what comes behind it is kept. -/
structure Pass (line : CArray (BitVec 8) n) (ptr : Nat) (t : List (BitVec 8))
    (line₁ : CArray (BitVec 8) n) (p : Nat) (token : List (BitVec 8)) (q : Nat)
    (rest : List (BitVec 8)) : Prop where
  tokens_eq : tokens t = token :: tokens rest
  run : ∀ argv room, mshSplit line ptr t.length argv (room + 1) =
    mshSplit line₁ q rest.length (argv ++ [p]) room
  text : line₁.ptr q = rest ++ 0 :: x
  order : p ≤ q
  total : q + rest.length = ptr + t.length
  kept : ∀ {line'}, Kept line₁ line' q rest → Kept line line' ptr t ∧ StringAt line' p token

variable {line : CArray (BitVec 8) n} {ptr : Nat}

/-- A pass over a token in quotes. The quote at the end becomes NUL at once. -/
theorem exists_pass_quote {cs : List (BitVec 8)} (h : line.ptr ptr = 0x22 :: cs ++ 0 :: x) :
    ∃ line₁ q, Pass x line ptr (0x22 :: cs) line₁ (ptr + 1) (cs.take (quotedSize 0x22 cs)) q
      (cs.drop (quotedSize 0x22 cs + 1)) := by
  obtain ⟨-, hget, hnext⟩ := ptr_cons (h.trans List.cons_append)
  have hkeep : ∀ {line'}, SameBelow line line' (ptr + 1) → Kept line line' ptr (0x22 :: cs) :=
    fun hsame => ⟨hsame.mono (Nat.le_succ _), fun hblank => absurd (hblank 0x22 rfl) (by decide)⟩
  have hrun : ∀ argv room, mshSplit line ptr (0x22 :: cs).length argv (room + 1) =
      if cs.length - quotedSize 0x22 cs = 0 then some (line, argv ++ [ptr + 1])
      else (line.set? (ptr + 1 + quotedSize 0x22 cs) 0).bind fun line =>
        mshSplit line (ptr + 1 + quotedSize 0x22 cs + 1) (cs.length - quotedSize 0x22 cs - 1)
          (argv ++ [ptr + 1]) room := by
    intro argv room
    have hblank : ¬isBlank 0x22 := by decide
    have hskip := @skipString_text x cs 0x22 (fun h => absurd h (by decide))
    simp only [mshSplit, stripBlanks, List.length_cons, Nat.succ_ne_zero, if_false, hget,
      if_neg hblank, if_true, hnext, Nat.add_sub_cancel, hskip, Option.bind_eq_bind,
      Option.bind_some]
  have htokens := @tokens_quote (0x22 :: cs) cs rfl
  have hsize := quotedSize_le 0x22 cs
  generalize quotedSize 0x22 cs = size at hsize hrun htokens ⊢
  by_cases hend : cs.length - size = 0
  · obtain rfl : size = cs.length := by omega
    have hnil : cs.drop (cs.length + 1) = [] := List.drop_eq_nil_of_le (Nat.le_succ _)
    rw [hnil, List.take_length] at htokens ⊢
    refine ⟨line, ptr + 1 + cs.length, htokens, fun argv room => ?_, ptr_append hnext,
      Nat.le_add_right _ _, ?_, fun hrest => ?_⟩
    · rw [hrun, if_pos hend, List.length_nil, mshSplit_empty]
    · rw [List.length_cons, List.length_nil]
      omega
    · have hnul := hrest.2 (fun c hc => by cases hc)
      exact ⟨hkeep (hrest.1.mono (Nat.le_add_right _ _)), stringAt_of_nul hrest.1 hnext hnul⟩
  obtain ⟨d, hd⟩ := CArray.exists_drop_eq_cons cs (k := size) (by omega)
  have htake : (cs.take size).length = size := List.length_take_of_le hsize
  have hcs : line.ptr (ptr + 1) = cs.take size ++ d :: (cs.drop (size + 1) ++ 0 :: x) := by
    rw [hnext, ← List.cons_append, ← hd, ← List.append_assoc, List.take_append_drop]
  have hquote := ptr_append hcs
  rw [htake] at hquote
  obtain ⟨line₁, hset, hsame, hnul, hbehind⟩ := set_nul hquote
  have hleft : cs.length - size - 1 = (cs.drop (size + 1)).length := by
    rw [List.length_drop]
    omega
  have hstring : StringAt line₁ (ptr + 1) (cs.take size) :=
    stringAt_of_nul (by rw [htake]; exact hsame) hcs (by rw [htake]; exact hnul)
  refine ⟨line₁, ptr + 1 + size + 1, htokens, fun argv room => ?_, hbehind, by omega, ?_,
    fun hrest => ⟨hkeep ((hsame.mono (by omega)).trans (hrest.1.mono (by omega))), ?_⟩⟩
  · rw [hrun, if_neg hend, hset, Option.bind_some, hleft]
  · rw [← hleft, List.length_cons]
    omega
  · exact hstring.of_sameBelow hrest.1 (by rw [htake]; exact Nat.lt_succ_self _)

/-- A pass over a word. The blank behind it becomes NUL in the next pass. -/
theorem exists_pass_word {c : BitVec 8} {cs : List (BitVec 8)}
    (h : line.ptr ptr = c :: cs ++ 0 :: x) (hblank : isBlank c = false) (hquote : c ≠ 0x22) :
    ∃ q, Pass x line ptr (c :: cs) line ptr (word (c :: cs)) q (behindWord (c :: cs)) := by
  obtain ⟨-, hget, -⟩ := ptr_cons (h.trans List.cons_append)
  have hword : line.ptr ptr = word (c :: cs) ++ (behindWord (c :: cs) ++ 0 :: x) := by
    rw [h, ← List.append_assoc, word_append_behindWord]
  have hlength : (word (c :: cs)).length + (behindWord (c :: cs)).length = (c :: cs).length := by
    rw [← List.length_append, word_append_behindWord]
  have hdrop : (c :: cs).dropWhile isBlank = c :: cs := by
    rw [List.dropWhile_cons, hblank]
    rfl
  refine ⟨ptr + (word (c :: cs)).length, tokens_word hdrop hquote, fun argv room => ?_,
    ptr_append hword, Nat.le_add_right _ _, by rw [Nat.add_assoc, hlength], fun hrest => ⟨?_, ?_⟩⟩
  · have hsize := wordSize_text x (c :: cs)
    have hleft : (c :: cs).length - (word (c :: cs)).length = (behindWord (c :: cs)).length := by
      omega
    rw [← h] at hsize
    rw [List.length_cons] at hsize hleft ⊢
    simp only [mshSplit, stripBlanks, Nat.succ_ne_zero, if_false, hget, hblank,
      Bool.false_eq_true, hquote, hsize, hleft, Option.bind_eq_bind, Option.bind_some]
    by_cases hend : (behindWord (c :: cs)).length = 0
    · rw [if_pos hend, hend, mshSplit_empty]
    · rw [if_neg hend]
  · refine ⟨hrest.1.mono (Nat.le_add_right _ _), fun hhead => ?_⟩
    rw [hhead c rfl] at hblank
    cases hblank
  · exact stringAt_of_nul hrest.1 hword (hrest.2 fun b hb => head?_behindWord hb)

/-- A pass strips the blanks and takes a token. -/
theorem exists_pass {t cs : List (BitVec 8)} {c : BitVec 8} (h : line.ptr ptr = t ++ 0 :: x)
    (ht : t.dropWhile isBlank = c :: cs) :
    ∃ line₁ p token q rest, Pass x line ptr t line₁ p token q rest := by
  obtain ⟨line₁, ptr₁, hstrip, hsum, hptr, hkept⟩ := stripBlanks_text x t h
  have htokens := tokens_dropBlank t
  rw [ht] at hstrip hsum hptr hkept htokens
  have hempty : t.length ≠ 0 := fun h => by
    rw [List.eq_nil_of_length_eq_zero h] at ht
    cases ht
  -- the line without its blanks is passed in the same way
  have hrun : ∀ argv room, mshSplit line ptr t.length argv (room + 1) =
      mshSplit line₁ ptr₁ (c :: cs).length argv (room + 1) := by
    intro argv room
    obtain ⟨-, hget, -⟩ := ptr_cons (hptr.trans List.cons_append)
    have hleft : (c :: cs).length ≠ 0 := Nat.succ_ne_zero _
    have hagain : stripBlanks line₁ ptr₁ (c :: cs).length =
        some (line₁, ptr₁, (c :: cs).length) := by
      simp only [stripBlanks, List.length_cons, hget, isBlank_head ht, Option.bind_eq_bind,
        Option.bind_some, Bool.false_eq_true, if_false]
    simp only [mshSplit, if_neg hempty, hstrip, if_neg hleft, hagain, Option.bind_eq_bind,
      Option.bind_some]
  have hpass : ∃ line₂ p token q rest, Pass x line₁ ptr₁ (c :: cs) line₂ p token q rest := by
    by_cases hquote : c = 0x22
    · subst hquote
      obtain ⟨line₂, q, hpass⟩ := exists_pass_quote x hptr
      exact ⟨line₂, _, _, q, _, hpass⟩
    · obtain ⟨q, hpass⟩ := exists_pass_word x hptr (isBlank_head ht) hquote
      exact ⟨line₁, _, _, q, _, hpass⟩
  obtain ⟨line₂, p, token, q, rest, hpass⟩ := hpass
  exact ⟨line₂, p, token, q, rest, {
    tokens_eq := htokens.symm.trans hpass.tokens_eq
    run := fun argv room => (hrun argv room).trans (hpass.run argv room)
    text := hpass.text
    order := hpass.order
    total := hpass.total.trans hsum
    kept := fun hrest => ⟨hkept (hpass.kept hrest).1, (hpass.kept hrest).2⟩ }⟩

/-- What `msh_split` makes of a text: its tokens, as many as there is room for, each with a NUL
behind it. -/
theorem mshSplit_tokens (room : Nat) : ∀ {line : CArray (BitVec 8) n} {ptr : Nat}
    {t : List (BitVec 8)} {argv : List Nat}, line.ptr ptr = t ++ 0 :: x →
      (∀ p ∈ argv, p ≤ ptr + t.length) →
      ∃ line' args, mshSplit line ptr t.length argv room = some (line', argv ++ args) ∧
        Kept line line' ptr t ∧ List.Forall₂ (StringAt line') args ((tokens t).take room) := by
  induction room with
  | zero =>
    intro line ptr t argv h hargv
    rw [List.take_zero]
    by_cases hempty : t.length = 0
    · obtain rfl := List.eq_nil_of_length_eq_zero hempty
      exact ⟨line, [], by rw [List.append_nil]; rfl, @kept_self n line ptr [] x h, .nil⟩
    · -- there is no room: what is printed are strings of the line
      obtain ⟨line₁, ptr₁, hstrip, hsum, hptr, hkept⟩ := stripBlanks_text x t h
      have hnul : line₁.get? (ptr + t.length) = some 0 := by
        rw [← hsum]
        exact (ptr_cons (ptr_append hptr)).2.1
      refine ⟨line₁, [], ?_, hkept (kept_self hptr), .nil⟩
      simp only [mshSplit, if_neg hempty, hstrip, exists_printArgs hnul hargv,
        Option.bind_eq_bind, Option.bind_some, List.append_nil]
  | succ room ih =>
    intro line ptr t argv h hargv
    cases ht : t.dropWhile isBlank with
    | nil =>
      obtain ⟨line₁, ptr₁, hstrip, -, hptr, hkept⟩ := stripBlanks_text x t h
      rw [tokens_blank ht, List.take_nil]
      by_cases hempty : t.length = 0
      · obtain rfl := List.eq_nil_of_length_eq_zero hempty
        exact ⟨line, [], by rw [List.append_nil]; rfl, @kept_self n line ptr [] x h, .nil⟩
      · refine ⟨line₁, [], ?_, hkept (kept_self hptr), .nil⟩
        rw [mshSplit, if_neg hempty, hstrip, ht, List.append_nil]
        rfl
    | cons c cs =>
      obtain ⟨line₁, p, token, q, rest, hpass⟩ := exists_pass x h ht
      have hargs : ∀ i ∈ argv ++ [p], i ≤ q + rest.length := by
        intro i hi
        rw [hpass.total]
        cases List.mem_append.mp hi with
        | inl hi => exact hargv i hi
        | inr hi =>
          rw [List.mem_singleton.mp hi, ← hpass.total]
          exact Nat.le_add_right_of_le hpass.order
      obtain ⟨line', args, hsplit, hkept, htokens⟩ := ih hpass.text hargs
      obtain ⟨hkept', hstring⟩ := hpass.kept hkept
      refine ⟨line', p :: args, ?_, hkept', ?_⟩
      · rw [hpass.run, hsplit, List.append_assoc, List.singleton_append]
      · rw [hpass.tokens_eq, List.take_succ_cons]
        exact .cons hstring htokens

end Loops

/-! ## The command -/

section Command

variable {F : Type} {n : Nat}

/-- The first word of a line. -/
def firstWord (t : List (BitVec 8)) : List (BitVec 8) := word (t.dropWhile isBlank)

/-- The first command of the table with a name. -/
def lookup (table : List (Syscall F)) (name : List (BitVec 8)) : Option F :=
  (table.find? fun index => index.cmdName = some name).map Syscall.func

theorem trimStart_eq {t : List (BitVec 8)} (ht : t.length < 0x100000000) (cmd : Nat)
    (rest : List (BitVec 8)) :
    trimStart (t ++ 0 :: rest) cmd t.length =
      some (cmd + (t.length - (t.dropWhile isBlank).length), (t.dropWhile isBlank).length) := by
  induction t generalizing cmd with
  | nil => rfl
  | cons c t ih =>
    rw [List.length_cons] at ht
    rw [List.cons_append, trimStart, List.dropWhile_cons]
    by_cases hc : isBlank c
    · have hdown : ((c :: t).length + 0xFFFFFFFF) % 0x100000000 = t.length := by
        rw [List.length_cons]
        omega
      have hle := length_dropBlank_le t
      have hplace : cmd + 1 + (t.length - (t.dropWhile isBlank).length) =
          cmd + ((c :: t).length - (t.dropWhile isBlank).length) := by
        rw [List.length_cons]
        omega
      rw [if_pos hc, if_pos hc, hdown, ih (by omega), hplace]
    · rw [if_neg hc, if_neg hc, Nat.sub_self, Nat.add_zero]

/-- The search finds the first command whose name is the whole word. -/
theorem mshGetCmd_eq (table : List (Syscall F)) {name : List (BitVec 8)} (hfree : NulFree name)
    (x : List (BitVec 8)) : mshGetCmd (name ++ x) name.length table = some (lookup table name) := by
  induction table with
  | nil => rfl
  | cons index table ih =>
    unfold lookup at ih ⊢
    rw [List.find?_cons]
    cases hname : index.cmdName with
    | none =>
      simp only [mshGetCmd, strncmp_mark, hname, Option.isSome_none, Bool.false_eq_true, if_false,
        Option.bind_eq_bind, Option.bind_some, ih, reduceCtorEq, decide_false]
    | some q =>
      obtain ⟨hmem, hq⟩ := drop_mem_of_cmdName hname
      simp only [mshGetCmd, strncmp_mark, hname, hmem, Option.isSome_some, if_true,
        strncmp_comm (q ++ [0]), strncmp_prefix hfree hq, Option.bind_eq_bind, Option.bind_some,
        Option.some.injEq]
      by_cases hpre : name.isPrefixOf q
      · obtain ⟨rest, rfl⟩ := List.isPrefixOf_iff_prefix.mp hpre
        -- what is left of the name behind the word decides
        have hget : index.name.mem[6 + name.length]? = (rest ++ [0])[0]? := by
          rw [← List.getElem?_drop, hmem, List.append_assoc,
            List.getElem?_append_right (Nat.le_refl _), Nat.sub_self]
        rw [if_pos hpre, hget]
        cases rest with
        | nil => simp
        | cons r rest =>
          have hr : r ≠ 0 := hq r (List.mem_append_right _ List.mem_cons_self)
          have hne : name ++ r :: rest ≠ name := by simp
          rw [List.cons_append, List.getElem?_cons_zero, Option.bind_some, if_neg hr, ih,
            decide_eq_false hne]
      · have hne : q ≠ name := by
          rintro rfl
          exact hpre (List.isPrefixOf_iff_prefix.mpr (List.prefix_refl _))
        rw [if_neg hpre, ih, decide_eq_false hne]

/-- `_msh_exec_cmd` on a text that does not begin with a blank. -/
theorem mshExecCmd_eq (table : List (Syscall F)) {line : CArray (BitVec 8) n} {cmd : Nat}
    {t x : List (BitVec 8)} (h : line.ptr cmd = t ++ 0 :: x) (hfree : NulFree t) (hne : t ≠ [])
    (hhead : t.dropWhile isBlank = t) :
    match lookup table (word t) with
    | some func => ∃ line' argv,
        mshExecCmd table line cmd t.length = some (line', some (func, argv)) ∧
          List.Forall₂ (StringAt line') argv ((tokens t).take finshArgMax)
    | none => mshExecCmd table line cmd t.length = some (line, none) := by
  have hsize := wordSize_text x t
  obtain ⟨c, cs, rfl⟩ := List.exists_cons_of_ne_nil hne
  have htokens : (tokens (c :: cs)).take finshArgMax ≠ [] := by
    rw [ne_eq, List.take_eq_nil_iff]
    rintro (h | h)
    · cases h
    · exact tokens_ne_nil hhead h
  have hpos : (word (c :: cs)).length ≠ 0 := by
    rw [word, List.takeWhile_cons, isBlank_head hhead]
    exact nofun
  have hword : line.ptr cmd = word (c :: cs) ++ (behindWord (c :: cs) ++ 0 :: x) := by
    rw [h, ← List.append_assoc, word_append_behindWord]
  have hwordFree : NulFree (word (c :: cs)) :=
    fun d hd => hfree d ((List.takeWhile_prefix _).mem hd)
  have hlookup := mshGetCmd_eq table hwordFree (behindWord (c :: cs) ++ 0 :: x)
  rw [← hword] at hlookup
  rw [← h] at hsize
  cases hfunc : lookup table (word (c :: cs)) with
  | none =>
    simp only [mshExecCmd, hsize, if_neg hpos, hlookup, hfunc, Option.bind_eq_bind,
      Option.bind_some]
  | some func =>
    obtain ⟨line', argv, hsplit, -, hargs⟩ := @mshSplit_tokens n x finshArgMax line cmd _ [] h
      (List.forall_mem_nil _)
    have hlen : argv.length ≠ 0 := by
      rw [hargs.length_eq]
      exact fun h => htokens (List.eq_nil_of_length_eq_zero h)
    refine ⟨line', argv, ?_, hargs⟩
    rw [List.nil_append] at hsplit
    simp only [mshExecCmd, hsize, if_neg hpos, hlookup, hfunc, hsplit, if_neg hlen,
      Option.bind_eq_bind, Option.bind_some]

/-- The grammar of the command line. A blank line does nothing. Otherwise the first word decides:
the first command of its name is called with the tokens of the line, as many as there is room for,
each of them a string of the line; and if there is none, no command is called. The array is as long
as the text with the NUL behind it, so nothing else is accessed. -/
theorem mshExec_grammar (table : List (Syscall F)) (t : CString)
    (ht : t.chars.length < 0x100000000) :
    if t.chars.dropWhile isBlank = [] then
      mshExec table t.array t.chars.length = some (t.array, .blank)
    else
      match lookup table (firstWord t.chars) with
      | some func => ∃ line' argv,
          mshExec table t.array t.chars.length = some (line', .called func argv) ∧
            argv.length = min (tokens t.chars).length finshArgMax ∧
            List.Forall₂ (StringAt line') argv ((tokens t.chars).take finshArgMax)
      | none => ∃ line',
          mshExec table t.array t.chars.length = some (line', .notFound) := by
  have htrim := trimStart_eq ht 0 []
  have hle := length_dropBlank_le t.chars
  have hitems : t.array.items = t.chars ++ 0 :: [] := rfl
  rw [Nat.zero_add] at htrim
  simp only [mshExec, hitems, htrim, Option.bind_eq_bind, Option.bind_some]
  by_cases hblank : t.chars.dropWhile isBlank = []
  · rw [if_pos hblank, hblank, List.length_nil, if_pos rfl]
  have hlength : (t.chars.dropWhile isBlank).length ≠ 0 :=
    fun h => hblank (List.eq_nil_of_length_eq_zero h)
  rw [if_neg hblank, if_neg hlength]
  -- the text behind the blanks at the begin of the line
  have hsplit : t.chars.takeWhile isBlank ++ t.chars.dropWhile isBlank = t.chars :=
    List.takeWhile_append_dropWhile
  have hcmd : t.chars.length - (t.chars.dropWhile isBlank).length =
      (t.chars.takeWhile isBlank).length := by
    have hsum := congrArg List.length hsplit
    rw [List.length_append] at hsum
    omega
  have hptr : t.array.ptr (t.chars.length - (t.chars.dropWhile isBlank).length) =
      t.chars.dropWhile isBlank ++ 0 :: [] := by
    have hplaces : t.array.items =
        t.chars.takeWhile isBlank ++ (t.chars.dropWhile isBlank ++ 0 :: []) := by
      rw [hitems, ← List.append_assoc, hsplit]
    rw [hcmd, CArray.ptr, hplaces]
    exact List.drop_left
  have hfree : NulFree (t.chars.dropWhile isBlank) :=
    fun c hc => t.nulFree c ((List.dropWhile_suffix _).mem hc)
  have hexec := mshExecCmd_eq table hptr hfree hblank (List.dropWhile_idempotent isBlank _)
  rw [← firstWord, tokens_dropBlank] at hexec
  have hinside := Nat.sub_le t.chars.length (t.chars.dropWhile isBlank).length
  generalize t.chars.length - (t.chars.dropWhile isBlank).length = cmd at hptr hexec hinside
  cases hfunc : lookup table (firstWord t.chars) with
  | some func =>
    rw [hfunc] at hexec
    obtain ⟨line', argv, hcall, hargs⟩ := hexec
    refine ⟨line', argv, ?_, ?_, hargs⟩
    · rw [hcall, Option.bind_some]
    · rw [hargs.length_eq, List.length_take, Nat.min_comm]
  | none =>
    rw [hfunc] at hexec
    have hnul : t.array.get? t.chars.length = some 0 := by
      rw [CArray.get?, hitems, List.getElem?_append_right (Nat.le_refl _), Nat.sub_self]
      rfl
    obtain ⟨size, hsize, hsmall⟩ := exists_findSpace (getElem?_ptr_nul hnul hinside)
    obtain ⟨line', hset, -⟩ :=
      CArray.set?_eq_some (b := t.array) (show cmd + size < t.chars.length + 1 by omega) 0
    obtain ⟨k, hk, -⟩ := exists_strlen (getElem?_ptr_nul (get?_nul_of_set? hset hnul) hinside)
    refine ⟨line', ?_⟩
    rw [hexec, Option.bind_some]
    simp only [hsize, hset, hk, Option.bind_some]

end Command

/-- `say "a b"`. -/
def sayLine : CString where
  chars := [0x73, 0x61, 0x79, 0x20, 0x22, 0x61, 0x20, 0x62, 0x22]
  nulFree := by simp [NulFree]

/-- `__cmd_say`. -/
def sayName : CString where
  chars := [0x5f, 0x5f, 0x63, 0x6d, 0x64, 0x5f, 0x73, 0x61, 0x79]
  nulFree := by simp [NulFree]

/-- The tokens of a line with a quoted argument. -/
theorem tokens_sayLine : tokens sayLine.chars = [[0x73, 0x61, 0x79], [0x61, 0x20, 0x62]] := by
  have hword := @tokens_word sayLine.chars _ _ rfl (by decide)
  have hquote := @tokens_quote [0x20, 0x22, 0x61, 0x20, 0x62, 0x22] _ rfl
  exact hword.trans (congrArg _ (hquote.trans (congrArg _ tokens_nil)))

/-- The command is called with its name and the text in quotes. -/
theorem mshExec_grammar_say :
    ∃ line' argv, mshExec [⟨sayName, 7⟩] sayLine.array 9 = some (line', .called 7 argv) ∧
      argv.length = 2 ∧
      List.Forall₂ (StringAt line') argv [[0x73, 0x61, 0x79], [0x61, 0x20, 0x62]] := by
  have hexec := mshExec_grammar [⟨sayName, 7⟩] sayLine (by decide)
  rw [if_neg (by decide), tokens_sayLine] at hexec
  exact hexec

end RtVcom.Finsh
