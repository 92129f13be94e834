/-!
# Circular storage — reading and writing a list of cells around its end

A ring buffer and a receive FIFO store a queue in a fixed list of cells, from a
start index on and around the end. `window cells start count` is that queue. The
index arithmetic is the one the drivers use, a comparison and a subtraction
(`slot`), never a division: under the bounds of a valid index the two agree, and
linear arithmetic decides every side condition.

The rules say what the drivers' updates do to the window: writing the next free
cell appends (`window_push`), advancing the start drops from the front
(`window_drop`), and a block copy that may be split at the end of the cells
appends the block (`Written.window_append`). `blit` is a block copy that fits.
`keepLast` is what a queue that discards its oldest elements keeps.
-/

namespace RtVcom.Lib

variable {α : Type}

/-! ## Slots -/

/-- The cell `offset` places after `start`, among `n` cells. -/
def slot (n start offset : Nat) : Nat :=
  if start + offset < n then start + offset else start + offset - n

theorem slot_lt {n start offset : Nat} (hs : start < n) (ho : offset ≤ n) :
    slot n start offset < n := by
  unfold slot
  split <;> omega

/-- Slots are counted on from one another. -/
theorem slot_slot {n start a b : Nat} (hs : start < n) (hab : a + b ≤ n) :
    slot n (slot n start a) b = slot n start (a + b) := by
  unfold slot
  split <;> split <;> split <;> omega

/-! ## Windows -/

/-- The `count` cells from `start` on, around the end. -/
def window (cells : List α) (start count : Nat) : List α :=
  (cells.drop start ++ cells.take start).take count

/-- A window of a ring has the length asked for. -/
theorem length_window {cells : List α} {start count : Nat} (hs : start ≤ cells.length)
    (hc : count ≤ cells.length) : (window cells start count).length = count := by
  simp only [window, List.length_take, List.length_append, List.length_drop]
  omega

theorem window_zero (cells : List α) (start : Nat) : window cells start 0 = [] := by
  simp only [window, List.take_zero]

theorem getElem?_window {cells : List α} {start count i : Nat} (hs : start < cells.length)
    (hc : count ≤ cells.length) :
    (window cells start count)[i]? =
      if i < count then cells[slot cells.length start i]? else none := by
  unfold window slot
  rw [List.getElem?_take]
  split
  · rw [List.getElem?_append]
    simp only [List.length_drop, List.getElem?_drop, List.getElem?_take]
    split
    · next h => rw [if_pos (by omega)]
    · next h =>
      rw [if_pos (by omega), if_neg (by omega)]
      congr 1
      omega
  · rfl

/-- Advancing the start drops from the front. -/
theorem window_drop (cells : List α) (start count k : Nat) (hs : start < cells.length)
    (hc : count ≤ cells.length) (hk : k ≤ count) (hn : slot cells.length start k < cells.length) :
    (window cells start count).drop k =
      window cells (slot cells.length start k) (count - k) := by
  apply List.ext_getElem?
  intro i
  rw [List.getElem?_drop, getElem?_window hs hc, getElem?_window hn (by omega)]
  by_cases hi : k + i < count
  · rw [if_pos hi, if_pos (by omega), slot_slot hs (by omega)]
  · rw [if_neg hi, if_neg (by omega)]

/-- The front of a window that is not empty, and the rest. -/
theorem window_succ {cells : List α} {start count : Nat} (hs : start < cells.length)
    (hc : count + 1 ≤ cells.length) :
    window cells start (count + 1) =
      cells[start] :: window cells (slot cells.length start 1) count := by
  have hdrop := window_drop cells start (count + 1) 1 hs hc (by omega) (slot_lt hs (by omega))
  have hhead : (window cells start (count + 1))[0]? = some cells[start] := by
    rw [getElem?_window hs hc, if_pos (by omega), slot, if_pos (by omega)]
    simp only [Nat.add_zero, List.getElem?_eq_getElem hs]
  cases hw : window cells start (count + 1) with
  | nil => rw [hw] at hhead; simp at hhead
  | cons x rest =>
    rw [hw] at hhead hdrop
    simp only [List.getElem?_cons_zero, Option.some.injEq] at hhead
    simp only [List.drop_succ_cons, List.drop_zero, Nat.add_sub_cancel] at hdrop
    rw [hhead, hdrop]

/-! ## Writes -/

/-- `cells'` is `cells` with the block `src` written from cell `start` on, around the
end, and nothing else changed. -/
structure Written (cells cells' : List α) (start : Nat) (src : List α) : Prop where
  length : cells'.length = cells.length
  inside : ∀ i, i < src.length → cells'[slot cells.length start i]? = src[i]?
  outside : ∀ i, src.length ≤ i → i < cells.length →
    cells'[slot cells.length start i]? = cells[slot cells.length start i]?

/-- One cell written is a block of one. -/
theorem written_set (cells : List α) (start : Nat) (hs : start < cells.length) (x : α) :
    Written cells (cells.set start x) start [x] := by
  refine ⟨List.length_set, fun i hi => ?_, fun i h1 h2 => ?_⟩
  · simp only [List.length_singleton, Nat.lt_one_iff] at hi
    subst hi
    simp only [slot, Nat.add_zero, hs, if_true, List.getElem?_cons_zero]
    exact List.getElem?_set_self hs
  · rw [List.getElem?_set_ne]
    simp only [List.length_singleton] at h1
    unfold slot
    split <;> omega

/-- Appending: a block written right behind a window extends it. -/
theorem Written.window_append {cells cells' src : List α} {w : Nat}
    (h : Written cells cells' w src) (start count : Nat) (hs : start < cells.length)
    (hw : w = slot cells.length start count) (hc : count + src.length ≤ cells.length) :
    window cells' start (count + src.length) = window cells start count ++ src := by
  subst hw
  apply List.ext_getElem?
  intro i
  have hl := h.length
  rw [getElem?_window (by omega) (by omega), List.getElem?_append,
    length_window (by omega) (by omega), hl]
  by_cases hi : i < count
  · -- a cell of the old window lies `i + n - count` places behind the write position
    rw [if_pos (by omega), if_pos hi, getElem?_window hs (by omega), if_pos hi]
    have hout := h.outside (cells.length + i - count) (by omega) (by omega)
    have hsame : slot cells.length (slot cells.length start count) (cells.length + i - count)
        = slot cells.length start i := by
      unfold slot
      split <;> split <;> split <;> omega
    rwa [hsame] at hout
  · rw [if_neg hi]
    by_cases hb : i < count + src.length
    · rw [if_pos hb]
      have hin := h.inside (i - count) (by omega)
      rwa [slot_slot hs (by omega), Nat.add_sub_cancel' (by omega)] at hin
    · rw [if_neg hb]
      exact (List.getElem?_eq_none (by omega)).symm

/-- Writing the next free cell appends to the window. -/
theorem window_push (cells : List α) (start count : Nat) (hs : start < cells.length)
    (hc : count < cells.length) (x : α) :
    window (cells.set (slot cells.length start count) x) start (count + 1) =
      window cells start count ++ [x] :=
  (written_set cells _ (slot_lt hs (by omega)) x).window_append start count hs rfl hc

/-- A block copy that fits between `start` and the end of the cells. -/
def blit (cells : List α) (start : Nat) (src : List α) : List α :=
  cells.take start ++ src ++ cells.drop (start + src.length)

/-- A block written keeps the length. -/
theorem length_blit {cells src : List α} {start : Nat} (h : start + src.length ≤ cells.length) :
    (blit cells start src).length = cells.length := by
  simp only [blit, List.length_append, List.length_take, List.length_drop]
  omega

theorem getElem?_blit {cells src : List α} {start : Nat}
    (h : start + src.length ≤ cells.length) (j : Nat) :
    (blit cells start src)[j]? =
      if start ≤ j ∧ j < start + src.length then src[j - start]? else cells[j]? := by
  unfold blit
  rw [List.getElem?_append, List.getElem?_append]
  simp only [List.length_append, List.length_take, List.getElem?_take, List.getElem?_drop]
  have hmin : min start cells.length = start := by omega
  rw [hmin]
  by_cases h1 : j < start
  · rw [if_pos (by omega), if_pos h1, if_pos h1, if_neg (by omega)]
  · by_cases h2 : j < start + src.length
    · rw [if_pos h2, if_neg h1, if_pos ⟨by omega, h2⟩]
    · rw [if_neg h2, if_neg (by omega)]
      congr 1
      omega

/-- Two copies, the second right behind the first. -/
theorem blit_append {cells src rest : List α} {start : Nat}
    (h : start + src.length + rest.length ≤ cells.length) :
    blit (blit cells start src) (start + src.length) rest = blit cells start (src ++ rest) := by
  have hfirst : start + src.length ≤ cells.length := by omega
  have hsecond : start + src.length + rest.length ≤ (blit cells start src).length := by
    rw [length_blit hfirst]
    exact h
  have hboth : start + (src ++ rest).length ≤ cells.length := by
    rw [List.length_append]
    omega
  ext1 j
  rw [getElem?_blit hsecond, getElem?_blit hfirst, getElem?_blit hboth, List.length_append,
    List.getElem?_append]
  split
  · rw [if_pos (by omega), if_neg (by omega), Nat.sub_add_eq]
  · split
    · rw [if_pos (by omega), if_pos (by omega)]
    · rw [if_neg (by omega)]

/-- A block copied in one piece. -/
theorem written_blit {cells src : List α} {start : Nat}
    (h : start + src.length ≤ cells.length) :
    Written cells (blit cells start src) start src := by
  refine ⟨length_blit h, fun i hi => ?_, fun i h1 h2 => ?_⟩
  · rw [getElem?_blit h]
    have hslot : slot cells.length start i = start + i := by
      unfold slot
      split <;> omega
    rw [hslot, if_pos ⟨by omega, by omega⟩, Nat.add_sub_cancel_left]
  · rw [getElem?_blit h, if_neg]
    unfold slot
    split <;> omega

/-- A block copied in two pieces: up to the end of the cells, then from their
beginning. -/
theorem written_blit_wrap {cells src : List α} {start : Nat} (hs : start < cells.length)
    (hw : cells.length - start ≤ src.length) (hl : src.length ≤ cells.length) :
    Written cells
      (blit (blit cells start (src.take (cells.length - start))) 0
        (src.drop (cells.length - start))) start src := by
  have htake : (src.take (cells.length - start)).length = cells.length - start := by
    simp only [List.length_take]; omega
  have hfirst : start + (src.take (cells.length - start)).length ≤ cells.length := by omega
  have hlen := length_blit hfirst
  have hsecond : 0 + (src.drop (cells.length - start)).length
      ≤ (blit cells start (src.take (cells.length - start))).length := by
    simp only [List.length_drop]; omega
  refine ⟨(length_blit hsecond).trans hlen, fun i hi => ?_, fun i h1 h2 => ?_⟩
  · rw [getElem?_blit hsecond, getElem?_blit hfirst]
    simp only [List.length_drop, htake, List.getElem?_drop, List.getElem?_take]
    unfold slot
    split
    · rw [if_neg (by omega), if_pos ⟨by omega, by omega⟩, if_pos (by omega)]
      congr 1
      omega
    · rw [if_pos ⟨by omega, by omega⟩]
      congr 1
      omega
  · rw [getElem?_blit hsecond, getElem?_blit hfirst]
    simp only [List.length_drop, htake]
    unfold slot
    split
    · omega
    · rw [if_neg (by omega), if_neg (by omega)]

/-! ## Discarding the oldest -/

/-- The last `n` elements, all of them when there are fewer. -/
def keepLast (n : Nat) (l : List α) : List α := l.drop (l.length - n)

theorem keepLast_of_length_le {n : Nat} {l : List α} (h : l.length ≤ n) : keepLast n l = l := by
  have : l.length - n = 0 := by omega
  simp only [keepLast, this, List.drop_zero]

theorem length_keepLast (n : Nat) (l : List α) : (keepLast n l).length = min n l.length := by
  simp only [keepLast, List.length_drop]
  omega

/-- Feeding a queue of bounded size one element at a time keeps what feeding it all
at once keeps. -/
theorem keepLast_append_keepLast (n : Nat) (l m : List α) :
    keepLast n (keepLast n l ++ m) = keepLast n (l ++ m) := by
  apply List.ext_getElem?
  intro i
  simp only [keepLast, List.getElem?_drop, List.length_append, List.length_drop,
    List.getElem?_append]
  by_cases h : l.length - n + (l.length - (l.length - n) + m.length - n + i) < l.length
  · rw [if_pos (by omega), if_pos (by omega)]
    congr 1
    omega
  · rw [if_neg (by omega), if_neg (by omega)]
    congr 1
    omega

/-- Overrunning: a block written right behind a window that has no room for it leaves the cells
full, with the newest elements. -/
theorem Written.window_overrun {cells cells' src : List α} {w : Nat}
    (h : Written cells cells' w src) (start count : Nat) (hs : start < cells.length)
    (hw : w = slot cells.length start count) (hc : count ≤ cells.length)
    (hsrc : src.length ≤ cells.length) (hover : cells.length ≤ count + src.length) :
    window cells' (slot cells.length w src.length) cells.length =
      keepLast cells.length (window cells start count ++ src) := by
  have hwlt : w < cells.length := hw ▸ slot_lt hs hc
  -- the cells behind the block are the newest of the old window
  have hstart : slot cells.length start (count + src.length - cells.length) =
      slot cells.length w src.length := by
    subst hw
    unfold slot
    split <;> split <;> split <;> omega
  have hdrop := window_drop cells start count (count + src.length - cells.length) hs hc (by omega)
    (slot_lt hs (by omega))
  have hrest : count - (count + src.length - cells.length) = cells.length - src.length := by omega
  rw [hstart, hrest] at hdrop
  have happend := h.window_append (slot cells.length w src.length)
    (cells.length - src.length) (slot_lt hwlt hsrc)
    (by
      rw [slot_slot hwlt (by omega)]
      unfold slot
      split <;> omega) (by omega)
  rw [Nat.sub_add_cancel hsrc, ← hdrop] at happend
  have hlen := length_window (Nat.le_of_lt hs) hc
  rw [happend, keepLast, List.length_append, hlen,
    List.drop_append_of_le_length (by rw [hlen]; omega)]

/-- What a block too long for the queue loses first is its own begin. -/
theorem keepLast_append_right (n : Nat) (l m : List α) :
    keepLast n (l ++ keepLast n m) = keepLast n (l ++ m) := by
  rcases Nat.le_total m.length n with h | h
  · rw [keepLast_of_length_le h]
  · have hlen : (keepLast n m).length = n := by
      rw [length_keepLast, Nat.min_eq_left h]
    have hleft : (l ++ keepLast n m).length - n = l.length := by
      rw [List.length_append, hlen, Nat.add_sub_cancel]
    have hright : (l ++ m).length - n = l.length + (m.length - n) := by
      rw [List.length_append]
      omega
    rw [keepLast, hleft, List.drop_left, keepLast, keepLast, hright, List.drop_append,
      Nat.add_sub_cancel_left, List.drop_eq_nil_of_le (Nat.le_add_right ..), List.nil_append]

end RtVcom.Lib
