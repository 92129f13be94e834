import RtVcom.Lib.CMemory

/-!
# Text in a buffer

A buffer that is filled from its begin, with a running length. A function that fills it further
either appends a text to what is there or has no result, because it would write outside:
`Appends f s` says that `f` is such a function and `s` its text. One function after another
appends one text after the other (`Appends.bind`, `Appends.loop`), so that whether a chain of
them stays inside is a sum of lengths, and what it leaves is a concatenation.
-/

namespace RtVcom.Lib

/-- A buffer and how many of its elements are filled. -/
structure TextBuffer (α : Type) (n : Nat) where
  buf : CArray α n
  len : Nat

namespace CArray

variable {α : Type} {n : Nat}

/-- Elements written one behind the other. -/
def write (b : CArray α n) (dst : Nat) : List α → Option (CArray α n)
  | [] => some b
  | c :: cs => do
    let b ← b.set? dst c
    write b (dst + 1) cs

/-- A text that fits is written whole. -/
theorem write_eq_some {cs : List α} {b : CArray α n} {dst : Nat} (h : dst + cs.length ≤ n) :
    ∃ t, b.write dst cs = some t ∧
      t.items = b.items.take dst ++ cs ++ b.items.drop (dst + cs.length) := by
  induction cs generalizing b dst with
  | nil =>
    refine ⟨b, rfl, ?_⟩
    rw [List.append_nil, List.length_nil, Nat.add_zero, List.take_append_drop]
  | cons c cs ih =>
    rw [List.length_cons] at h
    obtain ⟨m, hm, hitems⟩ := b.set?_eq_some (show dst < n by omega) c
    obtain ⟨t, ht, hwritten⟩ := @ih m (dst + 1) (by omega)
    refine ⟨t, ?_, ?_⟩
    · rw [write, hm]
      exact ht
    · have hlen : dst < b.items.length := by
        rw [b.size]
        omega
      have hbehind : dst + (cs.length + 1) = dst + 1 + cs.length := by omega
      rw [hwritten, hitems, List.length_cons, hbehind, List.drop_set_of_lt (by omega),
        List.take_add_one, List.take_set_of_le (Nat.le_refl dst), List.getElem?_set_self hlen]
      simp only [Option.toList_some, List.append_assoc, List.singleton_append]

/-- A text that does not fit is written past the end. -/
theorem write_eq_none {cs : List α} {b : CArray α n} {dst : Nat} (hle : dst ≤ n)
    (h : n < dst + cs.length) : b.write dst cs = none := by
  induction cs generalizing b dst with
  | nil =>
    rw [List.length_nil] at h
    omega
  | cons c cs ih =>
    rw [List.length_cons] at h
    rw [write]
    by_cases hdst : dst < n
    · obtain ⟨m, hm, -⟩ := b.set?_eq_some hdst c
      rw [hm]
      exact ih (by omega) (by omega)
    · rw [set?, if_neg hdst]
      rfl

end CArray

namespace TextBuffer

variable {α : Type} {n : Nat} {f g : TextBuffer α n → Option (TextBuffer α n)} {s t : List α}

/-- What the buffer holds. -/
def text (l : TextBuffer α n) : List α := l.buf.items.take l.len

theorem length_text {l : TextBuffer α n} (h : l.len ≤ n) : l.text.length = l.len := by
  rw [text, List.length_take, l.buf.size, Nat.min_eq_left h]

/-- `f` appends `s`, and has no result where `s` does not fit. -/
structure Appends (f : TextBuffer α n → Option (TextBuffer α n)) (s : List α) : Prop where
  fits : ∀ l, l.len + s.length ≤ n →
    ∃ m, f l = some m ∧ m.len = l.len + s.length ∧ m.text = l.text ++ s
  full : ∀ l, l.len ≤ n → n < l.len + s.length → f l = none

theorem Appends.nil : Appends (some : TextBuffer α n → _) [] := by
  constructor
  · intro l _
    exact ⟨l, rfl, rfl, (List.append_nil _).symm⟩
  · intro l hle hlt
    rw [List.length_nil] at hlt
    omega

/-- One after the other. -/
theorem Appends.bind (hf : Appends f s) (hg : Appends g t) :
    Appends (fun l => (f l).bind g) (s ++ t) := by
  constructor
  · intro l hl
    rw [List.length_append] at hl ⊢
    obtain ⟨m, hm, hlen, htext⟩ := hf.fits l (by omega)
    obtain ⟨k, hk, hlen', htext'⟩ := hg.fits m (by omega)
    refine ⟨k, ?_, ?_, ?_⟩
    · rw [hm]
      exact hk
    · rw [hlen', hlen, Nat.add_assoc]
    · rw [htext', htext, List.append_assoc]
  · intro l hle hlt
    rw [List.length_append] at hlt
    by_cases hs : l.len + s.length ≤ n
    · obtain ⟨m, hm, hlen, -⟩ := hf.fits l hs
      rw [hm]
      exact hg.full m (by omega) (by omega)
    · rw [hf.full l hle (by omega)]
      rfl

/-- Functions that agree on lines that fit append the same. -/
theorem Appends.congr (hf : Appends f s) (h : ∀ l, l.len ≤ n → g l = f l) : Appends g s := by
  constructor
  · intro l hl
    rw [h l (by omega)]
    exact hf.fits l hl
  · intro l hle hlt
    rw [h l hle]
    exact hf.full l hle hlt

/-- Writing at the end. -/
theorem Appends.write (s : List α) :
    Appends (fun l : TextBuffer α n => (l.buf.write l.len s).map fun b => ⟨b, l.len + s.length⟩)
      s := by
  constructor
  · intro l hl
    obtain ⟨b, hb, hitems⟩ := CArray.write_eq_some (b := l.buf) hl
    refine ⟨⟨b, l.len + s.length⟩, ?_, rfl, ?_⟩
    · rw [hb]
      rfl
    · have hlen : (l.buf.items.take l.len ++ s).length = l.len + s.length := by
        rw [List.length_append, List.length_take, l.buf.size, Nat.min_eq_left (by omega)]
      rw [text, hitems, List.take_left' hlen]
      rfl
  · intro l hle hlt
    rw [CArray.write_eq_none hle hlt]
    rfl

/-- A body that is run for `j`, `j + 1` and so on. -/
def loop (body : Nat → TextBuffer α n → Option (TextBuffer α n)) (j : Nat) :
    Nat → TextBuffer α n → Option (TextBuffer α n)
  | 0, l => some l
  | k + 1, l => (body j l).bind (loop body (j + 1) k)

/-- The texts of a loop. -/
def loopText (body : Nat → List α) (j : Nat) : Nat → List α
  | 0 => []
  | k + 1 => body j ++ loopText body (j + 1) k

/-- A loop appends what its turns append. -/
theorem Appends.loop {body : Nat → TextBuffer α n → Option (TextBuffer α n)} {texts : Nat → List α}
    (h : ∀ j, Appends (body j) (texts j)) (j k : Nat) :
    Appends (TextBuffer.loop body j k) (loopText texts j k) := by
  induction k generalizing j with
  | zero => exact .nil
  | succ k ih => exact (h j).bind (ih (j + 1))

end TextBuffer

end RtVcom.Lib
