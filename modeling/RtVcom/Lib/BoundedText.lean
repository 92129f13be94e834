import Mathlib.Logic.Function.Basic
import RtVcom.Lib.Word32

/-!
# Text through a bounded pointer

A text that is written through a pointer, character by character, where each character is stored
only if the pointer has not passed the last place of the buffer, and the pointer goes on in any
case. `Cursor` is the pointer, the memory, and the addresses that were stored to.

The text may depend on the buffer: a `Piece` has a character, its probe, behind which it goes on
one way if the probe was stored and another way if not. `textOf limit` is what comes out for a
buffer of `limit` places, and `fullText` if there is no limit. `surplus` is how much longer the text
becomes by the probes that are not stored, and the lengths of the texts for two limits differ by the
surplus of the probes that one of the buffers stores and the other one does not
(`length_textOf`, `surplus_add`); up to the smaller limit the texts agree (`take_textOf`).

Addresses have 32 bits. As long as the pointer does not wrap, the buffer holds the text as far as it
fits, and nothing else was stored to (`Wrote.run`). If it wraps, address 0 is stored to
(`Reached.run`).
-/

namespace RtVcom.Lib

variable {α : Type}

/-! ## Pieces -/

/-- A text that goes on in one of two ways behind its probe. -/
structure Piece (α : Type) where
  front : List α
  probe : Option α
  inside : List α
  outside : List α
deriving Repr, DecidableEq

namespace Piece

/-- A text without a probe. -/
def plain (t : List α) : Piece α := ⟨t, none, [], []⟩

/-- The text, at a position, in a buffer with so many places. -/
def text (limit pos : Nat) (p : Piece α) : List α :=
  p.front ++
    match p.probe with
    | none => p.inside
    | some c => c :: if pos + p.front.length < limit then p.inside else p.outside

/-- The text without a limit. -/
def full (p : Piece α) : List α := p.front ++ p.probe.toList ++ p.inside

/-- How much longer the text is if the probe is not stored. -/
def surplus (p : Piece α) : Int :=
  match p.probe with
  | none => 0
  | some _ => p.outside.length - p.inside.length

end Piece

/-- The text of pieces, from a position on, in a buffer with so many places. -/
def textOf (limit : Nat) : Nat → List (Piece α) → List α
  | _, [] => []
  | pos, p :: ps => p.text limit pos ++ textOf limit (pos + (p.text limit pos).length) ps

/-- The text of pieces without a limit. -/
def fullText (ps : List (Piece α)) : List α := ps.flatMap Piece.full

/-- The surplus of the probes whose places in the full text, from a position on, are so. -/
def surplus (P : Nat → Prop) [DecidablePred P] : Nat → List (Piece α) → Int
  | _, [] => 0
  | pos, p :: ps =>
    (if P (pos + p.front.length) then p.surplus else 0) + surplus P (pos + p.full.length) ps

/-! ## What a limit does to a text -/

variable {limit pos pos' b : Nat}

/-- Before the limit there is none. -/
theorem Piece.text_of_lt (p : Piece α) (h : pos + p.front.length < limit) :
    p.text limit pos = p.full := by
  obtain ⟨front, probe, inside, outside⟩ := p
  cases probe with
  | none => simp only [text, full, Option.toList_none, List.append_nil]
  | some c =>
    simp only [text, full, if_pos h, Option.toList_some, List.append_assoc, List.singleton_append]

/-- Behind it the surplus is added. -/
theorem Piece.length_text_of_le (p : Piece α) (h : limit ≤ pos + p.front.length) :
    ((p.text limit pos).length : Int) = p.full.length + p.surplus := by
  obtain ⟨front, probe, inside, outside⟩ := p
  have hout : ¬ pos + front.length < limit := Nat.not_lt.mpr h
  cases probe with
  | none =>
    simp only [text, full, surplus, Option.toList_none, List.append_nil, List.length_append,
      Int.add_zero]
  | some c =>
    simp only [text, full, surplus, if_neg hout, Option.toList_some, List.length_append,
      List.length_cons, List.length_nil]
    omega

theorem Piece.front_prefix_text (limit pos : Nat) (p : Piece α) :
    p.front <+: p.text limit pos :=
  List.prefix_append ..

theorem Piece.front_prefix_full (p : Piece α) : p.front <+: p.full := by
  rw [full, List.append_assoc]
  exact List.prefix_append ..

/-- The text is as long as the full one, with the surplus of the probes behind the limit. The
positions in the two texts are the same one until both are behind the limit. -/
theorem length_textOf_from (ps : List (Piece α)) (h : pos = pos' ∨ limit ≤ pos ∧ limit ≤ pos') :
    ((textOf limit pos ps).length : Int) =
      (fullText ps).length + surplus (limit ≤ ·) pos' ps := by
  induction ps generalizing pos pos' with
  | nil => rfl
  | cons p ps ih =>
    have hfull : fullText (p :: ps) = p.full ++ fullText ps := List.flatMap_cons
    have hfront := (p.front_prefix_text limit pos).length_le
    have hfront' := p.front_prefix_full.length_le
    rw [textOf, surplus, hfull, List.length_append, List.length_append]
    by_cases hprobe : pos + p.front.length < limit
    · have heq : pos = pos' := by omega
      subst heq
      have hrest := @ih (pos + p.full.length) _ (.inl rfl)
      rw [p.text_of_lt hprobe, if_neg (Nat.not_le.mpr hprobe)]
      omega
    · have hlen := p.length_text_of_le (Nat.not_lt.mp hprobe)
      have hrest := @ih (pos + (p.text limit pos).length) (pos' + p.full.length)
        (.inr (by omega))
      rw [if_pos (by omega)]
      omega

/-- The text of a limit is longer than the full text by the surplus of its pieces. -/
theorem length_textOf (limit : Nat) (ps : List (Piece α)) :
    ((textOf limit 0 ps).length : Int) = (fullText ps).length + surplus (limit ≤ ·) 0 ps :=
  length_textOf_from ps (.inl rfl)

/-- The probes behind a limit are those up to another one and those behind that. -/
theorem surplus_add {n m : Nat} (hle : n ≤ m) (pos : Nat) (ps : List (Piece α)) :
    surplus (n ≤ ·) pos ps =
      surplus (fun i => n ≤ i ∧ i < m) pos ps + surplus (m ≤ ·) pos ps := by
  induction ps generalizing pos with
  | nil => rfl
  | cons p ps ih =>
    rw [surplus, surplus, surplus, ih]
    by_cases hn : n ≤ pos + p.front.length
    · by_cases hm : m ≤ pos + p.front.length
      · rw [if_pos hn, if_neg (by omega), if_pos hm]
        omega
      · rw [if_pos hn, if_pos (by omega), if_neg hm]
        omega
    · rw [if_neg hn, if_neg (by omega), if_neg (by omega)]
      omega

/-- Up to the limit there is none. -/
theorem take_textOf_from (limit : Nat) (ps : List (Piece α)) (pos : Nat) :
    (textOf limit pos ps).take (limit - pos) = (fullText ps).take (limit - pos) := by
  induction ps generalizing pos with
  | nil => rfl
  | cons p ps ih =>
    have hfull : fullText (p :: ps) = p.full ++ fullText ps := List.flatMap_cons
    rw [textOf, hfull]
    by_cases hprobe : pos + p.front.length < limit
    · rw [p.text_of_lt hprobe, List.take_append, List.take_append, Nat.sub_sub, ih]
    · have hshort : limit - pos ≤ p.front.length := by omega
      obtain ⟨t, ht⟩ := p.front_prefix_text limit pos
      obtain ⟨t', ht'⟩ := p.front_prefix_full
      rw [← ht, ← ht', List.append_assoc, List.append_assoc, List.take_append_of_le_length hshort,
        List.take_append_of_le_length hshort]

theorem take_textOf (limit : Nat) (ps : List (Piece α)) :
    (textOf limit 0 ps).take limit = (fullText ps).take limit :=
  take_textOf_from limit ps 0

/-- A text that fits is the full one. -/
theorem textOf_of_fits {ps : List (Piece α)} (h : (fullText ps).length < limit) :
    textOf limit 0 ps = fullText ps := by
  have htake := take_textOf limit ps
  have hlen := congrArg List.length htake
  rw [List.length_take, List.length_take] at hlen
  rwa [List.take_of_length_le (by omega), List.take_of_length_le (by omega)] at htake

theorem getElem?_textOf {i : Nat} (h : i < limit) (ps : List (Piece α)) :
    (textOf limit 0 ps)[i]? = (fullText ps)[i]? := by
  rw [← List.getElem?_take_of_lt h, take_textOf, List.getElem?_take_of_lt h]

/-! ## The pointer -/

/-- A pointer that text is written through, with the memory and the addresses stored to so far. -/
structure Cursor (α : Type) where
  str : Nat
  mem : Nat → α
  stored : List Nat

namespace Cursor

/-- A store to an address. -/
def store (k : Cursor α) (a : Nat) (c : α) : Cursor α :=
  { k with mem := Function.update k.mem a c, stored := a :: k.stored }

/-- The pointer goes on. -/
def advance (k : Cursor α) : Cursor α := { k with str := add32 k.str 1 }

/-- `if (str <= last) *str = c; ++str;` -/
def put (last : Nat) (k : Cursor α) (c : α) : Cursor α :=
  (if k.str ≤ last then k.store k.str c else k).advance

/-- One character after the other. -/
def puts (last : Nat) (k : Cursor α) (t : List α) : Cursor α := t.foldl (put last) k

/-- A piece. -/
def piece (last : Nat) (k : Cursor α) (p : Piece α) : Cursor α :=
  let k := k.puts last p.front
  match p.probe with
  | none => k.puts last p.inside
  | some c => (k.put last c).puts last (if k.str ≤ last then p.inside else p.outside)

/-- One piece after the other. -/
def run (last : Nat) (k : Cursor α) (ps : List (Piece α)) : Cursor α := ps.foldl (piece last) k

theorem puts_append (last : Nat) (k : Cursor α) (s t : List α) :
    k.puts last (s ++ t) = (k.puts last s).puts last t := List.foldl_append

theorem puts_cons (last : Nat) (k : Cursor α) (c : α) (t : List α) :
    k.puts last (c :: t) = (k.put last c).puts last t := rfl

theorem run_cons (last : Nat) (k : Cursor α) (p : Piece α) (ps : List (Piece α)) :
    k.run last (p :: ps) = (k.piece last p).run last ps := rfl

end Cursor

/-! ## A pointer that does not wrap -/

variable {k : Cursor α} {m₀ : Nat → α} {s t : List α}

/-- The text `t` was written to the `limit` places from `b` on, as far as it fits, and the memory
was `m₀` before. -/
structure Wrote (b limit : Nat) (m₀ : Nat → α) (t : List α) (k : Cursor α) : Prop where
  str : k.str = b + t.length
  mem : ∀ x, k.mem x =
    if b ≤ x ∧ x < b + limit then (t[x - b]?).getD (m₀ x) else m₀ x
  stored : ∀ x ∈ k.stored, b ≤ x ∧ x < b + limit

/-- At the start nothing is written. -/
theorem Wrote.nil (b limit : Nat) (m₀ : Nat → α) : Wrote b limit m₀ [] ⟨b, m₀, []⟩ where
  str := rfl
  mem x := by
    rw [List.getElem?_nil, Option.getD_none, ite_self]
  stored := List.forall_mem_nil _

/-- The test of the pointer is one of the position. -/
theorem Wrote.test (h : Wrote b limit m₀ t k) (hlimit : 0 < limit) :
    k.str ≤ b + limit - 1 ↔ t.length < limit := by
  rw [h.str]
  omega

theorem getElem?_concat_of_ne (t : List α) (c : α) {i : Nat} (h : i ≠ t.length) :
    (t ++ [c])[i]? = t[i]? := by
  by_cases hlt : i < t.length
  · exact List.getElem?_append_left hlt
  · have hend : (t ++ [c]).length ≤ i := by
      rw [List.length_append, List.length_singleton]
      omega
    rw [List.getElem?_eq_none hend, List.getElem?_eq_none (Nat.not_lt.mp hlt)]

/-- A character more is written where it is below the limit, and counted anyway. -/
theorem Wrote.put (h : Wrote b limit m₀ t k) (hlimit : 0 < limit)
    (hfit : b + t.length + 1 < 0x100000000) (c : α) :
    Wrote b limit m₀ (t ++ [c]) (k.put (b + limit - 1) c) := by
  have hnext : add32 k.str 1 = b + (t ++ [c]).length := by
    rw [h.str, List.length_append, List.length_singleton, add32_of_lt (by omega), Nat.add_assoc]
  by_cases htest : t.length < limit
  · rw [Cursor.put, if_pos ((h.test hlimit).mpr htest)]
    refine ⟨hnext, ?_, ?_⟩
    · intro x
      have hstored : ((k.store k.str c).advance).mem x = Function.update k.mem k.str c x := rfl
      rw [hstored]
      by_cases hx : x = k.str
      · have hend : x - b = t.length := by
          rw [hx, h.str]
          omega
        have hinside : b ≤ x ∧ x < b + limit := by
          rw [hx, h.str]
          omega
        rw [if_pos hinside, hend, List.getElem?_concat_length, hx, Function.update_self,
          Option.getD_some]
      · rw [Function.update_of_ne hx, h.mem]
        by_cases hinside : b ≤ x ∧ x < b + limit
        · have hne : x - b ≠ t.length := by
            rw [h.str] at hx
            omega
          rw [if_pos hinside, if_pos hinside, getElem?_concat_of_ne t c hne]
        · rw [if_neg hinside, if_neg hinside]
    · intro x hx
      rcases List.mem_cons.mp hx with rfl | hx
      · rw [h.str]
        omega
      · exact h.stored x hx
  · rw [Cursor.put, if_neg (mt (h.test hlimit).mp htest)]
    refine ⟨hnext, ?_, h.stored⟩
    intro x
    have hkept : k.advance.mem x = k.mem x := rfl
    rw [hkept, h.mem]
    by_cases hinside : b ≤ x ∧ x < b + limit
    · rw [if_pos hinside, if_pos hinside, getElem?_concat_of_ne t c (by omega)]
    · rw [if_neg hinside, if_neg hinside]

theorem Wrote.puts (h : Wrote b limit m₀ t k) (hlimit : 0 < limit) (s : List α)
    (hfit : b + t.length + s.length < 0x100000000) :
    Wrote b limit m₀ (t ++ s) (k.puts (b + limit - 1) s) := by
  induction s generalizing t k with
  | nil => rwa [List.append_nil]
  | cons c s ih =>
    rw [List.length_cons] at hfit
    have hnext := h.put hlimit (by omega) c
    rw [Cursor.puts_cons, List.append_cons]
    apply ih hnext
    rw [List.length_append, List.length_singleton]
    omega

/-- A piece is written the same way, where its text may depend on the position. -/
theorem Wrote.piece (h : Wrote b limit m₀ t k) (hlimit : 0 < limit) (p : Piece α)
    (hfit : b + t.length + (p.text limit t.length).length < 0x100000000) :
    Wrote b limit m₀ (t ++ p.text limit t.length) (k.piece (b + limit - 1) p) := by
  obtain ⟨front, probe, inside, outside⟩ := p
  cases probe with
  | none =>
    simp only [Piece.text, List.length_append] at hfit ⊢
    have hfront := h.puts hlimit front (by omega)
    rw [← List.append_assoc]
    apply hfront.puts hlimit
    rw [List.length_append]
    omega
  | some c =>
    simp only [Piece.text, List.length_append, List.length_cons] at hfit ⊢
    have hfront := h.puts hlimit front (by omega)
    have htest : (k.puts (b + limit - 1) front).str ≤ b + limit - 1 ↔
        t.length + front.length < limit := by
      rw [hfront.test hlimit, List.length_append]
    have hprobe := hfront.put hlimit (by rw [List.length_append]; omega) c
    simp only [Cursor.piece, htest]
    rw [← List.append_assoc, List.append_cons]
    apply hprobe.puts hlimit
    rw [List.length_append, List.length_append, List.length_singleton]
    omega

/-- The buffer holds the text of the pieces as far as it fits. -/
theorem Wrote.run (h : Wrote b limit m₀ t k) (hlimit : 0 < limit) (ps : List (Piece α))
    (hfit : b + t.length + (textOf limit t.length ps).length < 0x100000000) :
    Wrote b limit m₀ (t ++ textOf limit t.length ps) (k.run (b + limit - 1) ps) := by
  induction ps generalizing t k with
  | nil => rwa [textOf, List.append_nil]
  | cons p ps ih =>
    rw [textOf, List.length_append] at hfit
    have hnext := h.piece hlimit p (by omega)
    have hlen : (t ++ p.text limit t.length).length = t.length + (p.text limit t.length).length :=
      List.length_append
    have hrest := ih hnext (by rw [hlen]; omega)
    rw [hlen] at hrest
    rw [textOf, Cursor.run_cons, ← List.append_assoc]
    exact hrest

/-! ## A pointer that may wrap -/

/-- The pointer has come this far, and address 0 was stored to if it was passed. -/
def Reached (b pos : Nat) (k : Cursor α) : Prop :=
  0 ∈ k.stored ∨ b + pos ≤ 0x100000000 ∧ k.str = (b + pos) % 0x100000000

/-- A place that was stored to stays one. -/
theorem Cursor.stored_put {x last : Nat} (h : x ∈ k.stored) (c : α) :
    x ∈ (k.put last c).stored := by
  unfold put
  split
  · exact List.mem_cons_of_mem _ h
  · exact h

theorem Cursor.stored_puts {x last : Nat} (h : x ∈ k.stored) (t : List α) :
    x ∈ (k.puts last t).stored := by
  induction t generalizing k with
  | nil => exact h
  | cons c t ih => exact ih (stored_put h c)

/-- A character behind the end of the address space is stored at its begin. -/
theorem Reached.lt_of_put {last : Nat} (h : Reached b pos k) {c : α}
    (hzero : 0 ∉ (k.put last c).stored) : b + pos < 0x100000000 ∧ k.str = b + pos := by
  rcases h with hstored | ⟨hle, hstr⟩
  · exact absurd (Cursor.stored_put hstored c) hzero
  by_cases hwrapped : b + pos = 0x100000000
  · have hstart : k.str = 0 := by rw [hstr, hwrapped]
    rw [Cursor.put, hstart, if_pos (Nat.zero_le _)] at hzero
    exact absurd List.mem_cons_self hzero
  · exact ⟨by omega, by omega⟩

/-- The cursor moves on with every character, stored or not. -/
theorem Reached.put (h : Reached b pos k) (last : Nat) (c : α) :
    Reached b (pos + 1) (k.put last c) := by
  by_cases hzero : 0 ∈ (k.put last c).stored
  · exact .inl hzero
  · obtain ⟨hlt, hstr⟩ := h.lt_of_put hzero
    have hadvance : (k.put last c).str = add32 k.str 1 := by
      unfold Cursor.put
      split <;> rfl
    right
    rw [hadvance, hstr, add32]
    omega

theorem Reached.puts (h : Reached b pos k) (last : Nat) (t : List α) :
    Reached b (pos + t.length) (k.puts last t) := by
  induction t generalizing pos k with
  | nil => exact h
  | cons c t ih =>
    have hnext := ih (h.put last c)
    rw [List.length_cons, Nat.add_comm t.length 1, ← Nat.add_assoc]
    exact hnext

theorem Reached.piece (h : Reached b pos k) (hlimit : 0 < limit) (p : Piece α) :
    Reached b (pos + (p.text limit pos).length) (k.piece (b + limit - 1) p) := by
  obtain ⟨front, probe, inside, outside⟩ := p
  have hfront := h.puts (b + limit - 1) front
  cases probe with
  | none =>
    simp only [Piece.text, List.length_append]
    rw [← Nat.add_assoc]
    exact hfront.puts _ inside
  | some c =>
    by_cases hzero : 0 ∈ ((k.puts (b + limit - 1) front).put (b + limit - 1) c).stored
    · exact .inl (Cursor.stored_puts hzero _)
    -- the probe has not wrapped, so that the test of it is one of the position
    obtain ⟨hlt, hstr⟩ := hfront.lt_of_put hzero
    have htest : (k.puts (b + limit - 1) front).str ≤ b + limit - 1 ↔
        pos + front.length < limit := by
      rw [hstr]
      omega
    have hrest := (hfront.put (b + limit - 1) c).puts (b + limit - 1)
      (if pos + front.length < limit then inside else outside)
    simp only [Cursor.piece, htest, Piece.text, List.length_append, List.length_cons]
    rw [Nat.add_comm _ 1, ← Nat.add_assoc, ← Nat.add_assoc]
    exact hrest

theorem Reached.run (h : Reached b pos k) (hlimit : 0 < limit) (ps : List (Piece α)) :
    Reached b (pos + (textOf limit pos ps).length) (k.run (b + limit - 1) ps) := by
  induction ps generalizing pos k with
  | nil => exact h
  | cons p ps ih =>
    rw [textOf, List.length_append, ← Nat.add_assoc]
    exact ih (h.piece hlimit p)

end RtVcom.Lib
