import RtVcom.Kernel.MemLayout

/-!
# The allocator's functions on blocks

One theorem for each function of the allocator, over a heap that is `Sound` for a list of blocks:
the function returns, the heap it leaves is sound for another list, and what became of the used
blocks and of `lfree` is said. `rt_malloc` adds a used block (`rtMalloc_spec`), `rt_free` takes
one away (`rtFree_spec`), and the part of `rt_realloc` that gives the end of a block back makes
one smaller (`shrinkBlock_spec`).

Soundness asks of `lfree` only that a free block begins there. That it is the lowest one is kept
by `rt_malloc` and `rt_free`; `shrinkBlock` keeps it under a condition.
-/

namespace RtVcom.Kernel

open RtVcom.Lib

/-- What holds of the heap between two calls, over the list of its blocks. -/
structure Sound (h : Heap) (blocks : List Block) : Prop where
  placed : h.Placed
  tiles : Tiles h blocks
  apart : Apart blocks
  freeAt : FreeAt blocks h.lfree
  holds : ∀ x ∈ starts true 0 blocks, 12 < x.2

section Loops

variable {h : Heap} {xs ys pre post blocks : List Block} {b : Block} {size fuel : Nat}

/-! ## The two loops -/

/-- Every block takes 12 bytes at least. -/
theorem length_le_span (bs : List Block) : 12 * bs.length ≤ span bs := by
  induction bs with
  | nil => exact Nat.le_refl 0
  | cons b bs ih =>
    have := b.large
    rw [List.length_cons, span_cons]
    omega

/-- The fuel is enough for a walk over all blocks. -/
theorem Tiles.length_lt_fuel (ht : Tiles h (xs ++ ys)) (hplaced : h.Placed) :
    ys.length < h.fuel := by
  have hlength := length_le_span ys
  have hfull := ht.full
  have hend := hplaced.heapEnd
  rw [span_append] at hfull
  unfold Heap.fuel
  omega

/-- One step along `next`, from a block to what lies behind it. -/
theorem Tiles.next (ht : Tiles h (xs ++ b :: ys)) : (h.hdr (span xs)).next = span (xs ++ [b]) := by
  rw [ht.hdr, span_append, span_cons, span_nil, Nat.add_zero]

theorem Tiles.shift (ht : Tiles h (xs ++ b :: ys)) : Tiles h ((xs ++ [b]) ++ ys) := by
  rw [List.append_assoc]
  exact ht

/-- A walk from one of the blocks on finds the next free one, or the end. -/
theorem nextFree_spec (ht : Tiles h (xs ++ ys)) (hfuel : ys.length < fuel) :
    nextFree h fuel (span xs) = some (span xs + lowestFree ys) := by
  induction ys generalizing xs fuel with
  | nil =>
    obtain ⟨fuel, rfl⟩ := Nat.exists_eq_add_one.mpr hfuel
    have hfull := ht.full
    rw [List.append_nil] at hfull
    rw [nextFree, if_neg (fun hne => hne.2 hfull), lowestFree, Nat.add_zero]
  | cons b ys ih =>
    obtain ⟨fuel, rfl⟩ := Nat.exists_eq_add_one.mpr (Nat.zero_lt_of_lt hfuel)
    have hlarge := b.large
    have hle := ht.le_end
    have hused : (h.hdr (span xs)).used = b.used.toNat := by rw [ht.hdr]
    rw [nextFree, lowestFree, hused]
    cases hb : b.used with
    | false => rw [if_neg (fun hne => hne.1 rfl)]; rfl
    | true =>
      rw [if_pos ⟨Nat.one_ne_zero, by omega⟩, ht.next,
        ih ht.shift (Nat.lt_of_succ_lt_succ hfuel), span_append, span_cons, span_nil, Nat.add_zero,
        if_pos rfl, Nat.add_assoc]

/-- A walk from one of the blocks on finds a free block that is large enough, if there is one that
begins before the last `size` bytes, and nothing otherwise. -/
theorem mallocSearch_spec (ht : Tiles h (xs ++ ys)) (hplaced : h.Placed)
    (hsize : size ≤ h.memSizeAligned) (hfuel : ys.length < fuel) :
    (mallocSearch h size fuel (span xs) = some none ∧
        ∀ zs b post, ys = zs ++ b :: post → b.used = false → size + 12 ≤ b.size →
          h.memSizeAligned ≤ span (xs ++ zs) + size) ∨
      ∃ zs b post, ys = zs ++ b :: post ∧ b.used = false ∧ size + 12 ≤ b.size ∧
        span (xs ++ zs) + size < h.memSizeAligned ∧
        mallocSearch h size fuel (span xs) = some (some (span (xs ++ zs))) := by
  have hend := hplaced.heapEnd
  have hfits := hplaced.fits
  have hstop := sub32_of_le hsize (show h.memSizeAligned < 0x100000000 by omega)
  induction ys generalizing xs fuel with
  | nil =>
    obtain ⟨fuel, rfl⟩ := Nat.exists_eq_add_one.mpr hfuel
    have hfull := ht.full
    rw [List.append_nil] at hfull
    rw [mallocSearch, hstop, if_neg (by omega)]
    exact .inl ⟨rfl, fun zs b post h => absurd h.symm (List.append_ne_nil_of_right_ne_nil zs
      (List.cons_ne_nil b post))⟩
  | cons b ys ih =>
    obtain ⟨fuel, rfl⟩ := Nat.exists_eq_add_one.mpr (Nat.zero_lt_of_lt hfuel)
    have hlarge := b.large
    have hle := ht.le_end
    rw [mallocSearch, hstop]
    split
    · next hlt =>
      have hdata : sub32 (span (xs ++ [b])) (add32 (span xs) sizeofStructMem) = b.size - 12 := by
        rw [span_append, span_cons, span_nil]
        exact sub32_data (by omega) hlarge
      simp only [ht.next, hdata]
      have hused : (h.hdr (span xs)).used = b.used.toNat := by rw [ht.hdr]
      split
      · next hfound =>
        right
        refine ⟨[], b, ys, rfl, ?_, by omega, ?_, ?_⟩
        · cases hb : b.used with
          | false => rfl
          | true =>
            rw [hused, hb] at hfound
            exact absurd hfound.1 Nat.one_ne_zero
        · rw [List.append_nil]
          omega
        · rw [List.append_nil]
      · next hpassed =>
        rcases ih ht.shift (Nat.lt_of_succ_lt_succ hfuel) with ⟨hnone, hall⟩ | hfound
        · refine .inl ⟨hnone, fun zs c post heq hc hholds => ?_⟩
          cases zs with
          | nil =>
            obtain ⟨rfl, rfl⟩ := List.cons.inj heq
            refine absurd ⟨?_, by omega⟩ hpassed
            rw [hused, hc]
            rfl
          | cons d zs =>
            obtain ⟨rfl, hrest⟩ := List.cons.inj heq
            have hbehind := hall zs c post hrest hc hholds
            rwa [List.append_assoc, List.singleton_append] at hbehind
        · obtain ⟨zs, c, post, rfl, hc, hroom, hpos, hsearch⟩ := hfound
          rw [List.append_assoc] at hpos hsearch
          exact .inr ⟨b :: zs, c, post, rfl, hc, hroom, hpos, hsearch⟩
    · next hstop =>
      refine .inl ⟨rfl, fun zs c post _ _ _ => ?_⟩
      rw [span_append]
      omega

/-! ## Taking a block -/

/-- A free block `b` becomes `front`, which is in use and holds `size` bytes, and `rest`, one
free block or none. -/
structure Carves (size : Nat) (b front : Block) (rest : List Block) : Prop where
  used : front.used = true
  holds : size + 12 ≤ front.size
  total : front.size + span rest = b.size
  free : ∀ c ∈ rest, c.used = false
  single : rest.length ≤ 1

/-- The same heap with other statistics. -/
theorem Tiles.account {g : Heap} (ht : Tiles g blocks) (n : Nat) : Tiles (g.account n) blocks :=
  ht.of_memory rfl rfl

theorem frame_account (h : Heap) (n : Nat) : h.Frame (h.account n) := ⟨rfl, rfl, rfl⟩

@[simp]
theorem account_usedMem (h : Heap) (n : Nat) : (h.account n).usedMem = add32 h.usedMem n := rfl

/-- The most that was ever in use grows with what is. -/
@[simp]
theorem account_maxMem (h : Heap) (n : Nat) :
    (h.account n).maxMem = max h.maxMem (h.account n).usedMem := by
  change (if h.maxMem < add32 h.usedMem n then _ else _) = max h.maxMem (add32 h.usedMem n)
  split <;> omega

@[simp]
theorem account_hdr (h : Heap) (n p : Nat) : (h.account n).hdr p = h.hdr p := rfl

@[simp]
theorem account_memory (h : Heap) (n : Nat) : (h.account n).memory = h.memory := rfl

@[simp]
theorem account_lfree (h : Heap) (n : Nat) : (h.account n).lfree = h.lfree := rfl

/-- The functions that write headers leave the variables of the allocator. -/
theorem frame_setUsed (h : Heap) (p v : Nat) : h.Frame (h.setUsed p v) := ⟨rfl, rfl, rfl⟩

theorem frame_setMagic (h : Heap) (p v : Nat) : h.Frame (h.setMagic p v) := ⟨rfl, rfl, rfl⟩

theorem frame_lfree (h : Heap) (p : Nat) : h.Frame { h with lfree := p } := ⟨rfl, rfl, rfl⟩

theorem frame_usedMem (h : Heap) (n : Nat) : h.Frame { h with usedMem := n } := ⟨rfl, rfl, rfl⟩

theorem frame_setNext (h : Heap) (p v : Nat) : h.Frame (h.setNext p v) := ⟨rfl, rfl, rfl⟩

theorem frame_setPrev (h : Heap) (p v : Nat) : h.Frame (h.setPrev p v) := ⟨rfl, rfl, rfl⟩

theorem frame_setHdr (h : Heap) (p : Nat) (x : HeapMem) : h.Frame (h.setHdr p x) :=
  (frame_setMagic h p x.magic).trans ((frame_setUsed _ p x.used).trans
    ((frame_setNext _ p x.next).trans (frame_setPrev _ p x.prev)))

theorem frame_splitBlock (h : Heap) (ptr size : Nat) : h.Frame (splitBlock h ptr size) :=
  (frame_setHdr h _ _).trans (frame_setNext _ ptr _)

theorem frame_linkBehind (h : Heap) (ptr2 : Nat) : h.Frame (linkBehind h ptr2) := by
  unfold linkBehind
  dsimp only
  split <;> exact ⟨rfl, rfl, rfl⟩

/-- The statistics are the same. -/
structure Heap.SameStats (h h' : Heap) : Prop where
  usedMem : h'.usedMem = h.usedMem
  maxMem : h'.maxMem = h.maxMem

theorem Heap.SameStats.trans {h₁ h₂ h₃ : Heap} (h₁₂ : h₁.SameStats h₂) (h₂₃ : h₂.SameStats h₃) :
    h₁.SameStats h₃ :=
  ⟨h₂₃.usedMem.trans h₁₂.usedMem, h₂₃.maxMem.trans h₁₂.maxMem⟩

theorem stats_setUsed (h : Heap) (p v : Nat) : h.SameStats (h.setUsed p v) := ⟨rfl, rfl⟩

theorem stats_setMagic (h : Heap) (p v : Nat) : h.SameStats (h.setMagic p v) := ⟨rfl, rfl⟩

theorem stats_setNext (h : Heap) (p v : Nat) : h.SameStats (h.setNext p v) := ⟨rfl, rfl⟩

theorem stats_setPrev (h : Heap) (p v : Nat) : h.SameStats (h.setPrev p v) := ⟨rfl, rfl⟩

theorem stats_setHdr (h : Heap) (p : Nat) (x : HeapMem) : h.SameStats (h.setHdr p x) :=
  (stats_setMagic h p x.magic).trans ((stats_setUsed _ p x.used).trans
    ((stats_setNext _ p x.next).trans (stats_setPrev _ p x.prev)))

theorem stats_splitBlock (h : Heap) (ptr size : Nat) : h.SameStats (splitBlock h ptr size) :=
  (stats_setHdr h _ _).trans (stats_setNext _ ptr _)

theorem stats_linkBehind (h : Heap) (ptr2 : Nat) : h.SameStats (linkBehind h ptr2) := by
  unfold linkBehind
  dsimp only
  split <;> exact ⟨rfl, rfl⟩

theorem stats_combine (h : Heap) (first second : Nat) : h.SameStats (combine h first second) := by
  unfold combine
  dsimp only
  split <;> exact ⟨rfl, rfl⟩

theorem stats_plugHoles (h : Heap) (mem : Nat) : h.SameStats (plugHoles h mem) := by
  have hforward : h.SameStats (plugForward h mem) := by
    unfold plugForward
    dsimp only
    split
    · exact stats_combine h mem _
    · exact ⟨rfl, rfl⟩
  refine hforward.trans ?_
  unfold plugHoles plugBackward
  dsimp only
  split
  · exact stats_combine _ _ mem
  · exact ⟨rfl, rfl⟩

@[simp]
theorem setUsed_lfree (h : Heap) (p v : Nat) : (h.setUsed p v).lfree = h.lfree := rfl

@[simp]
theorem setMagic_lfree (h : Heap) (p v : Nat) : (h.setMagic p v).lfree = h.lfree := rfl

@[simp]
theorem setNext_lfree (h : Heap) (p v : Nat) : (h.setNext p v).lfree = h.lfree := rfl

@[simp]
theorem setPrev_lfree (h : Heap) (p v : Nat) : (h.setPrev p v).lfree = h.lfree := rfl

@[simp]
theorem setHdr_lfree (h : Heap) (p : Nat) (x : HeapMem) : (h.setHdr p x).lfree = h.lfree := by
  rw [Heap.setHdr, setPrev_lfree, setNext_lfree, setUsed_lfree, setMagic_lfree]

@[simp]
theorem splitBlock_lfree (h : Heap) (ptr size : Nat) : (splitBlock h ptr size).lfree = h.lfree := by
  rw [splitBlock, setNext_lfree, setHdr_lfree]

@[simp]
theorem linkBehind_lfree (h : Heap) (ptr2 : Nat) : (linkBehind h ptr2).lfree = h.lfree := by
  unfold linkBehind
  dsimp only
  split <;> rfl

/-- A block that is split and in use: both halves, and the link back to the second. -/
theorem tiles_splitBlock {g : Heap} (ht : Tiles h (pre ++ b :: post)) (hplaced : h.Placed)
    (haligned : size % 4 = 0) (hsize : size + 24 ≤ b.size) (hframe : h.Frame g)
    (hhdr : g.hdr (span pre) = ⟨heapMagic, 1, span pre + (size + 12), lastStart 0 0 pre⟩)
    (hsame : ∀ p, p + 12 ≤ span pre ∨ span pre + 12 ≤ p →
      g.hdr p = (splitBlock h (span pre) size).hdr p) :
    ∃ front back, front.used = true ∧ front.size = size + 12 ∧ back.used = false ∧
      front.size + back.size = b.size ∧
      Tiles (linkBehind g (span pre + (size + 12))) (pre ++ front :: back :: post) := by
  have hbaligned := b.aligned
  have hlarge := b.large
  obtain ⟨-, hback, hother⟩ := hdr_splitBlock ht hplaced hsize
  let front : Block := ⟨size + 12, true, Nat.le_add_left 12 size, by omega⟩
  let back : Block := ⟨b.size - (size + 12), false, by omega, by omega⟩
  have htotal : front.size + back.size = b.size := by
    change size + 12 + (b.size - (size + 12)) = b.size
    omega
  have hfront : g.hdr (span pre) =
      ⟨heapMagic, front.used.toNat, span pre + front.size, lastStart 0 0 pre⟩ := hhdr
  refine ⟨front, back, rfl, rfl, rfl, htotal, ?_⟩
  change Tiles (linkBehind g (span pre + front.size)) _
  refine tiles_linkBehind ht hplaced hframe.heapEnd hframe.memSizeAligned htotal hfront ?_
    fun p hp => ?_
  · change g.hdr (span pre + (size + 12)) = _
    rw [hsame _ (by omega)]
    exact hback
  · rw [hsame p (by omega)]
    exact hother p hp

/-- `takeBlock` on one of the blocks. -/
theorem takeBlock_eq (ht : Tiles h (pre ++ b :: post)) (hplaced : h.Placed)
    (hsize : size + 12 ≤ b.size) :
    takeBlock h (span pre) size =
      if size + 24 ≤ b.size - 12 then
        (linkBehind ((splitBlock h (span pre) size).setUsed (span pre) 1)
          (span pre + (size + 12))).account (size + 12)
      else (h.setUsed (span pre) 1).account b.size := by
  have hfits := hplaced.fits
  have hle := ht.le_end
  have htaken : add32 size sizeofStructMem = size + 12 :=
    add32_of_lt (show size + sizeofStructMem < 0x100000000 by unfold sizeofStructMem; omega)
  have hlarge : add32 (size + 12) minSizeAligned = size + 24 := by
    have hmin : minSizeAligned = 12 := by decide
    rw [hmin, add32_of_lt (by omega)]
  have hdata := sub32_data (show span pre + b.size < 0x100000000 by omega) b.large
  have hptr2 := add32_behind (show span pre + size + 12 < 0x100000000 by omega)
  have hwhole : sub32 (span pre + b.size) (span pre) = b.size := by
    rw [sub32_of_le (by omega) (by omega), Nat.add_sub_cancel_left]
  unfold takeBlock
  simp only [ht.hdr, htaken, hlarge, hdata, hptr2, hwhole]

/-- `takeBlock` carves the size off its block, keeps the tiling and leaves `lfree` alone. -/
theorem takeBlock_spec (ht : Tiles h (pre ++ b :: post)) (hplaced : h.Placed)
    (haligned : size % 4 = 0) (hmin : 12 ≤ size) (hsize : size + 12 ≤ b.size) :
    ∃ front rest, Carves size b front rest ∧
      Tiles (takeBlock h (span pre) size) (pre ++ front :: (rest ++ post)) ∧
      h.Frame (takeBlock h (span pre) size) ∧ (takeBlock h (span pre) size).lfree = h.lfree := by
  rw [takeBlock_eq ht hplaced hsize]
  split
  · next hsplit =>
    have hsize : size + 24 ≤ b.size := by omega
    obtain ⟨hhdr, -, -⟩ := hdr_splitBlock ht hplaced hsize
    have hused : ((splitBlock h (span pre) size).setUsed (span pre) 1).hdr (span pre) =
        ⟨heapMagic, 1, span pre + (size + 12), lastStart 0 0 pre⟩ := by
      rw [Heap.hdr_setUsed (by decide), hhdr]
    have hframe : h.Frame ((splitBlock h (span pre) size).setUsed (span pre) 1) :=
      (frame_splitBlock h _ _).trans (frame_setUsed _ _ _)
    obtain ⟨front, back, hfront, hfsize, hback, htotal, htiles⟩ :=
      tiles_splitBlock (g := (splitBlock h (span pre) size).setUsed (span pre) 1) ht hplaced
        haligned hsize hframe hused fun p hp => Heap.hdr_setUsed_other (by omega)
    refine ⟨front, [back], ⟨hfront, by omega, htotal, fun c hc => ?_, Nat.le_refl 1⟩,
      htiles.account _, ?_, ?_⟩
    · rw [List.mem_singleton.mp hc]
      exact hback
    · exact (hframe.trans (frame_linkBehind _ _)).trans (frame_account _ _)
    · rw [account_lfree, linkBehind_lfree, setUsed_lfree, splitBlock_lfree]
  · have hmark : Tiles (h.setUsed (span pre) 1) (pre ++ b.mark true :: post) := tiles_mark ht true
    refine ⟨b.mark true, [], ⟨rfl, hsize, Nat.add_zero _, fun c hc => (by cases hc), Nat.zero_le 1⟩,
      hmark.account _, (frame_setUsed _ _ _).trans (frame_account _ _), ?_⟩
    rw [account_lfree, setUsed_lfree]

/-- What becomes of the used blocks around a carved one. -/
theorem Carves.starts_used {front : Block} {rest : List Block} (hc : Carves size b front rest)
    (hb : b.used = false) (x : Nat × Nat) :
    x ∈ starts true 0 (pre ++ front :: (rest ++ post)) ↔
      x ∈ starts true 0 (pre ++ b :: post) ∨ x = (span pre, front.size) := by
  have hrest (pos : Nat) : starts true pos rest = [] := by
    obtain ⟨-, -, -, hfree, hsingle⟩ := hc
    match rest, hsingle with
    | [], _ => rfl
    | [c], _ => rw [starts, hfree c List.mem_cons_self]; rfl
  have hpos : 0 + span pre + front.size + span rest = 0 + span pre + b.size := by
    rw [← hc.total, Nat.add_assoc]
  rw [starts_append, starts_append, starts, starts, hc.used, hb, if_pos rfl,
    if_neg Bool.false_ne_true, starts_append, hrest, hpos, Nat.zero_add, List.nil_append,
    List.mem_append, List.mem_cons, List.mem_append]
  tauto

/-- The free blocks around a carved one stay. -/
theorem Carves.starts_free {front : Block} {rest : List Block} (hc : Carves size b front rest)
    {p : Nat} (hp : p ∈ (starts false 0 (pre ++ b :: post)).map Prod.fst) (hne : p ≠ span pre) :
    p ∈ (starts false 0 (pre ++ front :: (rest ++ post))).map Prod.fst := by
  have hpos : 0 + span pre + front.size + span rest = 0 + span pre + b.size := by
    rw [← hc.total, Nat.add_assoc]
  obtain ⟨⟨q, n⟩, hq, rfl⟩ := List.mem_map.mp hp
  refine List.mem_map.mpr ⟨(q, n), ?_, rfl⟩
  rw [starts_append, List.mem_append] at hq
  rw [starts_append, List.mem_append, starts, hc.used, if_neg Bool.false_ne_true.symm,
    starts_append, hpos, List.mem_append]
  rcases hq with hq | hq
  · exact .inl hq
  · rw [starts] at hq
    split at hq
    · rcases List.mem_cons.mp hq with heq | hq
      · cases heq
        exact absurd (Nat.zero_add _) hne
      · exact .inr (.inr hq)
    · exact .inr (.inr hq)

/-- Carving a block changes no span. -/
theorem Carves.span_eq {front : Block} {rest : List Block} (hc : Carves size b front rest) :
    span (pre ++ front :: (rest ++ post)) = span (pre ++ b :: post) := by
  have htotal := hc.total
  simp only [span_append, span_cons]
  omega

/-- A carved block still stands apart. -/
theorem Carves.apart {front : Block} {rest : List Block} (hc : Carves size b front rest)
    (hb : b.used = false) (hapart : Apart (pre ++ b :: post)) :
    Apart (pre ++ front :: (rest ++ post)) := by
  obtain ⟨hpre, hpost, -, hbehind⟩ := apart_mid.mp hapart
  refine apart_mid.mpr ⟨hpre, ?_, fun a _ => .inr hc.used, fun c _ => .inl hc.used⟩
  obtain ⟨-, -, -, -, hsingle⟩ := hc
  match rest, hsingle with
  | [], _ => exact hpost
  | [c], _ =>
    refine apart_mid.mpr ⟨List.isChain_nil, hpost, fun a ha => (by cases ha), fun d hd => .inr ?_⟩
    exact (hbehind d hd).resolve_left (by rw [hb]; exact Bool.false_ne_true)

/-- A position that is free is one of the starts of the blocks, or their end. -/
theorem FreeAt.split {p : Nat} (hfree : FreeAt blocks p) :
    ∃ xs ys, blocks = xs ++ ys ∧ p = span xs ∧ ∀ c ∈ ys.head?, c.used = false := by
  rcases hfree with hmem | hend
  · obtain ⟨⟨q, n⟩, hq, rfl⟩ := List.mem_map.mp hmem
    obtain ⟨pre, b, post, rfl, hb, hpos, -⟩ := exists_of_starts hq
    refine ⟨pre, b :: post, rfl, hpos.trans (Nat.zero_add _), fun c hc => ?_⟩
    cases hc
    exact hb
  · exact ⟨blocks, [], (List.append_nil _).symm, hend, fun c hc => (by cases hc)⟩

end Loops

/-! ## Allocation -/

/-- The block sizes that `rt_malloc` looks for. -/
def mallocSize (n : Nat) : Nat :=
  if rtAlign n < minSizeAligned then minSizeAligned else rtAlign n

/-- The headers that a walk along `next` meets before the end. -/
def Heap.walk (h : Heap) : Nat → Nat → List Nat
  | 0, _ => []
  | fuel + 1, p => if p = h.heapEnd then [] else p :: h.walk fuel (h.hdr p).next

/-- A free block of `size` bytes that begins at `lfree` or behind it, and before the last `size`
bytes of the heap. -/
def Heap.Room (h : Heap) (size : Nat) : Prop :=
  ∃ p ∈ h.walk h.fuel h.lfree, (h.hdr p).used = 0 ∧ p + size < h.memSizeAligned ∧
    p + sizeofStructMem + size ≤ (h.hdr p).next

instance (h : Heap) (size : Nat) : Decidable (h.Room size) :=
  inferInstanceAs (Decidable (∃ p ∈ _, _))

/-- `rt_malloc` has what it is asked for. -/
def Heap.Grants (h : Heap) (n : Nat) : Prop :=
  n ≠ 0 ∧ rtAlign n ≤ h.memSizeAligned ∧ h.Room (mallocSize n)

instance (h : Heap) (n : Nat) : Decidable (h.Grants n) :=
  inferInstanceAs (Decidable (_ ∧ _ ∧ _))

/-- A block of at least `size` bytes was free and is in use, at `ptr`. -/
structure Allocates (h h' : Heap) (blocks blocks' : List Block) (ptr size : Nat) : Prop where
  sound : Sound h' blocks'
  frame : h.Frame h'
  region : ∃ n, size + 12 ≤ n ∧
    ∀ x, x ∈ starts true 0 blocks' ↔ x ∈ starts true 0 blocks ∨ x = (ptr, n)
  fresh : ∀ n, (ptr, n) ∉ starts true 0 blocks
  lowest : h.lfree = lowestFree blocks → h'.lfree = lowestFree blocks'

section Allocation

variable {h : Heap} {xs ys pre post blocks : List Block} {b : Block} {size : Nat}

/-- A walk meets all blocks from where it begins. -/
theorem mem_walk {zs : List Block} {fuel : Nat} (ht : Tiles h (xs ++ (zs ++ b :: post)))
    (hfuel : zs.length < fuel) : span (xs ++ zs) ∈ h.walk fuel (span xs) := by
  induction zs generalizing xs fuel with
  | nil =>
    obtain ⟨fuel, rfl⟩ := Nat.exists_eq_add_one.mpr hfuel
    have hlarge := b.large
    have hle := ht.le_end
    rw [List.append_nil, Heap.walk, if_neg (by omega)]
    exact List.mem_cons_self
  | cons c zs ih =>
    obtain ⟨fuel, rfl⟩ := Nat.exists_eq_add_one.mpr (Nat.zero_lt_of_lt hfuel)
    have hlarge := c.large
    have hle := ht.le_end
    rw [Heap.walk, if_neg (by omega), ht.next]
    have hmem := ih ht.shift (Nat.lt_of_succ_lt_succ hfuel)
    rw [List.append_assoc] at hmem
    exact List.mem_cons_of_mem _ hmem

/-- It meets headers of blocks only. -/
theorem exists_of_walk {fuel q : Nat} (ht : Tiles h (xs ++ ys)) (hq : q ∈ h.walk fuel (span xs)) :
    ∃ zs c post, ys = zs ++ c :: post ∧ q = span (xs ++ zs) := by
  induction ys generalizing xs fuel with
  | nil =>
    have hfull := ht.full
    rw [List.append_nil] at hfull
    cases fuel with
    | zero => cases hq
    | succ fuel =>
      rw [Heap.walk, if_pos hfull] at hq
      cases hq
  | cons c ys ih =>
    cases fuel with
    | zero => cases hq
    | succ fuel =>
      have hlarge := c.large
      have hle := ht.le_end
      rw [Heap.walk, if_neg (by omega), ht.next] at hq
      rcases List.mem_cons.mp hq with rfl | hq
      · exact ⟨[], c, ys, rfl, by rw [List.append_nil]⟩
      · obtain ⟨zs, d, post, rfl, hpos⟩ := ih ht.shift hq
        rw [List.append_assoc] at hpos
        exact ⟨c :: zs, d, post, rfl, hpos⟩

/-- The same with the free blocks that hold `size` bytes. -/
theorem exists_walk_iff (ht : Tiles h (xs ++ ys)) (hplaced : h.Placed) {P : Nat → Prop} :
    (∃ p ∈ h.walk h.fuel (span xs), (h.hdr p).used = 0 ∧ P p ∧
        p + sizeofStructMem + size ≤ (h.hdr p).next) ↔
      ∃ zs b post, ys = zs ++ b :: post ∧ b.used = false ∧ size + 12 ≤ b.size ∧
        P (span (xs ++ zs)) := by
  have hlength := ht.length_lt_fuel hplaced
  constructor
  · rintro ⟨p, hp, hused, hP, hholds⟩
    obtain ⟨zs, b, post, rfl, rfl⟩ := exists_of_walk ht hp
    rw [← List.append_assoc] at ht
    rw [ht.hdr] at hused hholds
    refine ⟨zs, b, post, rfl, ?_, ?_, hP⟩
    · cases hb : b.used with
      | false => rfl
      | true =>
        rw [hb] at hused
        exact absurd hused Nat.one_ne_zero
    · have hfits : span (xs ++ zs) + sizeofStructMem + size ≤ span (xs ++ zs) + b.size := hholds
      unfold sizeofStructMem at hfits
      omega
  · rintro ⟨zs, b, post, rfl, hb, hholds, hP⟩
    rw [List.length_append] at hlength
    refine ⟨span (xs ++ zs), mem_walk ht (by omega), ?_, hP, ?_⟩
    · rw [← List.append_assoc] at ht
      rw [ht.hdr, hb]
      rfl
    · rw [← List.append_assoc] at ht
      rw [ht.hdr]
      change _ ≤ span (xs ++ zs) + b.size
      unfold sizeofStructMem
      omega

/-- Two different blocks of one list. -/
theorem starts_disjoint {p n m : Nat} (hb : (p, n) ∈ starts false 0 blocks) :
    (p, m) ∉ starts true 0 blocks := by
  obtain ⟨pre, b, post, rfl, hused, hp, -⟩ := exists_of_starts hb
  rw [Nat.zero_add] at hp
  intro hmem
  have hlarge := b.large
  rw [starts_append, List.mem_append, starts, hused, if_neg Bool.false_ne_true] at hmem
  rcases hmem with hmem | hmem
  · have := starts_bounds hmem
    omega
  · have := starts_bounds hmem
    omega

/-- `lfree` after a block was carved: if it stood there, the walk takes it to the next one. -/
theorem lfree_carve {h' : Heap} {front : Block} {rest : List Block}
    (hc : Carves size b front rest) (hb : b.used = false) (hplaced : h'.Placed)
    (ht : Tiles h' (pre ++ front :: (rest ++ post))) (hlfree : h'.lfree = h.lfree)
    (hfree : FreeAt (pre ++ b :: post) h.lfree) :
    ∃ lfree, (if span pre = h'.lfree then nextFree h' h'.fuel h'.lfree else some h'.lfree) =
        some lfree ∧ FreeAt (pre ++ front :: (rest ++ post)) lfree ∧
      (h.lfree = lowestFree (pre ++ b :: post) →
        lfree = lowestFree (pre ++ front :: (rest ++ post))) := by
  have hlowb : lowestFree (b :: post) = 0 := by
    rw [lowestFree, hb]
    rfl
  split
  · next hat =>
    refine ⟨span pre + lowestFree (front :: (rest ++ post)), ?_, ?_, fun hlowest => ?_⟩
    · rw [← hat]
      exact nextFree_spec ht (ht.length_lt_fuel hplaced)
    · exact freeAt_lowestFree pre (front :: (rest ++ post))
    · rw [hlfree.symm, ← hat, lowestFree_append, hlowb] at hlowest
      rw [lowestFree_append]
      split at hlowest
      · next hall => rw [if_pos hall]
      · next hall => exact absurd hlowest.symm (Nat.ne_of_lt (lowestFree_lt hall))
  · next hne =>
    refine ⟨h'.lfree, rfl, ?_, fun hlowest => ?_⟩
    · rcases hfree with hmem | hend
      · left
        rw [hlfree]
        exact hc.starts_free hmem (by omega)
      · right
        rw [hlfree, hend, hc.span_eq]
    · rw [lowestFree_append, hlowb] at hlowest
      rw [lowestFree_append]
      split at hlowest
      · omega
      · next hall => rw [if_neg hall, hlfree, hlowest]

/-- A block has one size. -/
theorem starts_unique {used : Bool} {p n m : Nat} (hn : (p, n) ∈ starts used 0 blocks)
    (hm : (p, m) ∈ starts used 0 blocks) : m = n := by
  obtain ⟨pre, b, post, rfl, hb, hp, rfl⟩ := exists_of_starts hn
  rw [Nat.zero_add] at hp
  have hlarge := b.large
  rw [starts_append, List.mem_append, starts, hb, if_pos rfl, List.mem_cons] at hm
  rcases hm with hm | heq | hm
  · have := starts_bounds hm
    omega
  · cases heq
    rfl
  · have := starts_bounds hm
    omega

theorem rtAlign_aligned (n : Nat) : rtAlign n % 4 = 0 := Nat.mul_mod_left _ 4

/-- A request is a multiple of four. -/
theorem mallocSize_aligned (n : Nat) : mallocSize n % 4 = 0 := by
  unfold mallocSize minSizeAligned
  split
  · rfl
  · exact rtAlign_aligned n

theorem le_mallocSize (n : Nat) : 12 ≤ mallocSize n := by
  have hmin : minSizeAligned = 12 := by decide
  unfold mallocSize
  rw [hmin]
  split <;> omega

theorem mallocSize_le {n : Nat} (hmin : 12 ≤ h.memSizeAligned)
    (hn : rtAlign n ≤ h.memSizeAligned) : mallocSize n ≤ h.memSizeAligned := by
  unfold mallocSize
  split
  · exact hmin
  · exact hn

/-- The block that the search found is handed out. -/
theorem handOut_spec (hs : Sound h (pre ++ b :: post)) (haligned : size % 4 = 0)
    (hmin : 12 ≤ size) (hb : b.used = false) (hsize : size + 12 ≤ b.size) :
    ∃ h' blocks', handOut h (span pre) size =
        some (h', some (h.heapPtr + span pre + sizeofStructMem)) ∧
      Allocates h h' (pre ++ b :: post) blocks' (span pre) size := by
  obtain ⟨hplaced, htiles, hapart, hfree, hdata⟩ := hs
  obtain ⟨front, rest, hc, htake, hframe, hkeep⟩ :=
    takeBlock_spec htiles hplaced haligned hmin hsize
  unfold handOut
  generalize takeBlock h (span pre) size = g at htake hframe hkeep ⊢
  have hmagic := tiles_setMagic htake
  have hgframe : h.Frame (g.setMagic (span pre) heapMagic) := hframe.trans (frame_setMagic _ _ _)
  rw [← setMagic_lfree g (span pre) heapMagic] at hkeep
  generalize g.setMagic (span pre) heapMagic = g at hmagic hgframe hkeep ⊢
  obtain ⟨lfree, hnext, hat, hlowest⟩ :=
    lfree_carve hc hb (hplaced.frame hgframe) hmagic hkeep hfree
  refine ⟨{ g with lfree := lfree }, pre ++ front :: (rest ++ post), ?_, ?_⟩
  · simp only [hnext, Option.map_some, hgframe.heapPtr]
  · have hgframe := hgframe.trans (frame_lfree g lfree)
    have hused (x : Nat × Nat) : x ∈ starts true 0 (pre ++ front :: (rest ++ post)) ↔
        x ∈ starts true 0 (pre ++ b :: post) ∨ x = (span pre, front.size) :=
      hc.starts_used hb x
    refine ⟨⟨hplaced.frame hgframe, hmagic.of_memory rfl rfl, hc.apart hb hapart, hat, ?_⟩,
      hgframe, ⟨front.size, hc.holds, hused⟩, fun n => starts_disjoint (mem_starts hb), hlowest⟩
    intro x hx
    rcases (hused x).mp hx with hx | rfl
    · exact hdata x hx
    · have := hc.holds
      change 12 < front.size
      omega

/-- `rt_malloc` finds nothing, or a free block that it hands out. -/
theorem rtMalloc_found (hs : Sound h blocks) (hmin : 12 ≤ h.memSizeAligned) (n : Nat) :
    (rtMalloc h n = some (h, none) ∧ ¬h.Grants n) ∨
      ∃ pre b post, blocks = pre ++ b :: post ∧ b.used = false ∧ mallocSize n + 12 ≤ b.size ∧
        h.Grants n ∧ rtMalloc h n = handOut h (span pre) (mallocSize n) := by
  unfold rtMalloc
  split
  · next hzero => exact .inl ⟨rfl, fun hgrants => hgrants.1 hzero⟩
  next hn =>
  split
  · next hlarge => exact .inl ⟨rfl, fun hgrants => absurd hgrants.2.1 (Nat.not_le.mpr hlarge)⟩
  next hle =>
  have hle := Nat.le_of_not_lt hle
  obtain ⟨xs, ys, rfl, hlfree, -⟩ := hs.freeAt.split
  have hlength := hs.tiles.length_lt_fuel hs.placed
  have hroom : h.Room (mallocSize n) ↔ ∃ zs b post, ys = zs ++ b :: post ∧ b.used = false ∧
      mallocSize n + 12 ≤ b.size ∧ span (xs ++ zs) + mallocSize n < h.memSizeAligned := by
    rw [Heap.Room, hlfree]
    exact exists_walk_iff hs.tiles hs.placed
  have hsearch := mallocSearch_spec hs.tiles hs.placed (mallocSize_le hmin hle) hlength
  rw [← hlfree] at hsearch
  change mallocSearch h (mallocSize n) h.fuel h.lfree = some none ∧ _ ∨ _ at hsearch
  rcases hsearch with ⟨hnone, hall⟩ | ⟨zs, b, post, rfl, hb, hholds, hpos, hfound⟩
  · left
    refine ⟨?_, fun hgrants => ?_⟩
    · unfold mallocSize at hnone
      simp only [hnone, Option.bind_some]
    · obtain ⟨zs, b, post, heq, hb, hholds, hpos⟩ := hroom.mp hgrants.2.2
      exact absurd hpos (Nat.not_lt.mpr (hall zs b post heq hb hholds))
  · right
    have hgrants : h.Grants n := ⟨hn, hle, hroom.mpr ⟨zs, b, post, rfl, hb, hholds, hpos⟩⟩
    refine ⟨xs ++ zs, b, post, (List.append_assoc _ _ _).symm, hb, hholds, hgrants, ?_⟩
    unfold mallocSize at hfound
    simp only [hfound, Option.bind_some]
    rfl

/-- `rt_malloc` returns. Where the heap has room, it hands out a block that was free and holds what
was asked for; otherwise it leaves the heap and answers NULL. -/
theorem rtMalloc_spec (hs : Sound h blocks) (hmin : 12 ≤ h.memSizeAligned) (n : Nat) :
    (rtMalloc h n = some (h, none) ∧ ¬h.Grants n) ∨
      ∃ h' ptr blocks', rtMalloc h n = some (h', some (h.heapPtr + ptr + sizeofStructMem)) ∧
        h.Grants n ∧ Allocates h h' blocks blocks' ptr (mallocSize n) := by
  rcases rtMalloc_found hs hmin n with hnone | ⟨pre, b, post, rfl, hb, hholds, hgrants, hfound⟩
  · exact .inl hnone
  · right
    obtain ⟨h', blocks', hout, hallocates⟩ :=
      handOut_spec hs (mallocSize_aligned n) (le_mallocSize n) hb hholds
    exact ⟨h', span pre, blocks', hfound.trans hout, hgrants, hallocates⟩

end Allocation

/-! ## Release -/

/-- The used block at `ptr` is free. -/
structure Frees (h h' : Heap) (blocks blocks' : List Block) (ptr : Nat) : Prop where
  sound : Sound h' blocks'
  frame : h.Frame h'
  used : ∀ x, x ∈ starts true 0 blocks' ↔ x ∈ starts true 0 blocks ∧ x.1 ≠ ptr
  lowest : h.lfree = lowestFree blocks → h'.lfree = lowestFree blocks'

section Release

variable {h : Heap} {pre post blocks : List Block} {b : Block} {ptr n size : Nat}

/-- What becomes of the used blocks where one is marked free. -/
theorem starts_mark (hb : b.used = true) (x : Nat × Nat) :
    x ∈ starts true 0 (pre ++ b.mark false :: post) ↔
      x ∈ starts true 0 (pre ++ b :: post) ∧ x.1 ≠ span pre := by
  obtain ⟨p, m⟩ := x
  have hlarge := b.large
  have hsize : (b.mark false).size = b.size := rfl
  have hfree : (b.mark false).used = false := rfl
  rw [starts_append, starts_append, starts, starts, hfree, hb, if_neg Bool.false_ne_true,
    if_pos rfl, hsize, List.mem_append, List.mem_append, List.mem_cons, Nat.zero_add]
  constructor
  · rintro (hmem | hmem)
    · have := starts_bounds hmem
      exact ⟨.inl hmem, by dsimp only; omega⟩
    · have := starts_bounds hmem
      exact ⟨.inr (.inr hmem), by dsimp only; omega⟩
  · rintro ⟨hmem | heq | hmem, hne⟩
    · exact .inl hmem
    · cases heq
      exact absurd rfl hne
    · exact .inr hmem

/-- The free blocks stay free where another block is marked free. -/
theorem FreeAt.mark {p : Nat} (hfree : FreeAt (pre ++ b :: post) p) :
    FreeAt (pre ++ b.mark false :: post) p := by
  have hsize : (b.mark false).size = b.size := rfl
  have hmark : (b.mark false).used = false := rfl
  rcases hfree with hmem | hend
  · left
    rw [starts_append, List.map_append, List.mem_append] at hmem
    rw [starts_append, List.map_append, List.mem_append, starts, hmark, if_pos rfl, hsize]
    rcases hmem with hmem | hmem
    · exact .inl hmem
    · right
      rw [starts] at hmem
      split at hmem
      · exact hmem
      · exact List.mem_cons_of_mem _ hmem
  · right
    rw [hend, span_append, span_append, span_cons, span_cons, hsize]

/-- `lfree` goes down to a block that becomes free before it. -/
theorem lowestFree_mark (hb : b.used = true) {p : Nat} (hlow : p = lowestFree (pre ++ b :: post)) :
    (if span pre < p then span pre else p) = lowestFree (pre ++ b.mark false :: post) := by
  have hlarge := b.large
  have hmark : lowestFree (b.mark false :: post) = 0 := rfl
  rw [hlow, lowestFree_append, lowestFree_append, lowestFree, hb, hmark, if_pos rfl]
  split
  · rw [if_pos (by omega), Nat.add_zero]
  · have := lowestFree_le pre
    rw [if_neg (by omega)]

/-- The last step of `rt_free`, on a heap in which the block is marked free. -/
theorem frees_plugHoles {g : Heap} (hs : Sound h (pre ++ b :: post)) (hb : b.used = true)
    (ht : Tiles g (pre ++ b.mark false :: post)) (hframe : h.Frame g)
    (hlfree : g.lfree = if span pre < h.lfree then span pre else h.lfree) :
    ∃ blocks', Frees h (plugHoles g (span pre)) (pre ++ b :: post) blocks' (span pre) := by
  obtain ⟨hplaced, -, hapart, hfree, hholds⟩ := hs
  obtain ⟨hpre, hpost, -, -⟩ := apart_mid.mp hapart
  obtain ⟨blocks', hmerges, hapart'⟩ := merges_plugHoles ht (hplaced.frame hframe) rfl hpre hpost
  have hframe' := hframe.trans hmerges.frame
  refine ⟨blocks', ⟨hplaced.frame hframe', hmerges.tiles, hapart', hmerges.freeAt ?_, ?_⟩, hframe',
    ?_, fun hlow => hmerges.lowest (hlfree.trans (lowestFree_mark hb hlow))⟩
  · rw [hlfree]
    split
    · exact .inl (List.mem_map.mpr ⟨_, mem_starts rfl, rfl⟩)
    · exact hfree.mark
  · intro x hx
    rw [hmerges.used] at hx
    exact hholds x ((starts_mark hb x).mp hx).1
  · intro x
    rw [hmerges.used]
    exact starts_mark hb x

/-- `rt_free` marks the block free, moves `lfree` down to it and takes it off `used_mem`, and joins
it with its neighbours. -/
theorem rtFree_plugs (hs : Sound h (pre ++ b :: post)) (hb : b.used = true) :
    ∃ g, rtFree h (some (h.heapPtr + span pre + sizeofStructMem)) = plugHoles g (span pre) ∧
      g.memory = ((h.setUsed (span pre) 0).setMagic (span pre) heapMagic).memory ∧ h.Frame g ∧
      g.lfree = (if span pre < h.lfree then span pre else h.lfree) ∧
      g.usedMem = sub32 h.usedMem b.size ∧ g.maxMem = h.maxMem := by
  have hle := hs.tiles.le_end
  have hdata : 12 < b.size := hs.holds _ (mem_starts hb)
  have hfits := hs.placed.fits
  have hmem : h.heapPtr + span pre + sizeofStructMem - sizeofStructMem - h.heapPtr = span pre := by
    omega
  have hnext (lfree : Nat) :
      (Heap.hdr { (h.setUsed (span pre) 0).setMagic (span pre) heapMagic with lfree := lfree }
        (span pre)).next = span pre + b.size := by
    change (((h.setUsed (span pre) 0).setMagic (span pre) heapMagic).hdr (span pre)).next = _
    rw [Heap.hdr_setMagic (by decide), Heap.hdr_setUsed (by decide), hs.tiles.hdr]
  have hsize : sub32 (span pre + b.size) (span pre) = b.size := by
    rw [sub32_of_le (by omega) (by omega), Nat.add_sub_cancel_left]
  refine ⟨{ (h.setUsed (span pre) 0).setMagic (span pre) heapMagic with
    lfree := if span pre < h.lfree then span pre else h.lfree
    usedMem := sub32 h.usedMem b.size }, ?_, rfl, ⟨rfl, rfl, rfl⟩, rfl, rfl, rfl⟩
  unfold rtFree
  simp only [hmem]
  rw [if_neg (by unfold sizeofStructMem; omega)]
  by_cases hlow : span pre < h.lfree
  · have hlow' : span pre < ((h.setUsed (span pre) 0).setMagic (span pre) heapMagic).lfree := hlow
    rw [if_pos hlow', if_pos hlow, hnext, hsize]
    rfl
  · have hlow' : ¬span pre < ((h.setUsed (span pre) 0).setMagic (span pre) heapMagic).lfree := hlow
    have hnext' := hnext h.lfree
    rw [if_neg hlow', if_neg hlow]
    change plugHoles { (h.setUsed (span pre) 0).setMagic (span pre) heapMagic with
      usedMem := sub32 h.usedMem (sub32 (Heap.hdr { (h.setUsed (span pre) 0).setMagic (span pre)
        heapMagic with lfree := h.lfree } (span pre)).next (span pre)) } (span pre) = _
    rw [hnext', hsize]
    rfl

/-- `rt_free` of a used block frees it, and merges it with its free neighbours. -/
theorem rtFree_spec (hs : Sound h blocks) (hused : (ptr, n) ∈ starts true 0 blocks) :
    ∃ blocks',
      Frees h (rtFree h (some (h.heapPtr + ptr + sizeofStructMem))) blocks blocks' ptr := by
  obtain ⟨pre, b, post, rfl, hb, hptr, rfl⟩ := exists_of_starts hused
  rw [Nat.zero_add] at hptr
  subst hptr
  obtain ⟨g, hfree, hmemory, hframe, hlfree, -⟩ := rtFree_plugs hs hb
  have hmark : Tiles (h.setUsed (span pre) 0) (pre ++ b.mark false :: post) :=
    tiles_mark hs.tiles false
  rw [hfree]
  exact frees_plugHoles hs hb ((tiles_setMagic hmark).of_memory hmemory hframe.heapEnd) hframe
    hlfree

end Release

/-! ## Giving the end of a block back -/

/-- The used block at `ptr` has `size` bytes, and `lowest` says when `lfree` is kept right. -/
structure Shrinks (h h' : Heap) (blocks blocks' : List Block) (ptr size : Nat) (lowest : Prop) :
    Prop where
  sound : Sound h' blocks'
  frame : h.Frame h'
  used : ∀ x, x ∈ starts true 0 blocks' ↔
    x ∈ starts true 0 blocks ∧ x.1 ≠ ptr ∨ x = (ptr, size + 12)
  lowest : lowest → h'.lfree = lowestFree blocks'

section Shrinking

variable {h : Heap} {pre post blocks : List Block} {b front back : Block} {ptr n size : Nat}

/-- What becomes of the used blocks where one is split. -/
theorem starts_split (hb : b.used = true) (hfront : front.used = true) (hback : back.used = false)
    (htotal : front.size + back.size = b.size) (x : Nat × Nat) :
    x ∈ starts true 0 (pre ++ front :: back :: post) ↔
      x ∈ starts true 0 (pre ++ b :: post) ∧ x.1 ≠ span pre ∨ x = (span pre, front.size) := by
  obtain ⟨p, m⟩ := x
  have hlarge := b.large
  rw [starts_append, starts_append, starts, starts, starts, hfront, hback, hb, if_pos rfl,
    if_neg Bool.false_ne_true, if_pos rfl, Nat.add_assoc _ front.size, htotal, List.mem_append,
    List.mem_append, List.mem_cons, List.mem_cons, Nat.zero_add]
  constructor
  · rintro (hmem | heq | hmem)
    · have := starts_bounds hmem
      exact .inl ⟨.inl hmem, by dsimp only; omega⟩
    · exact .inr heq
    · have := starts_bounds hmem
      exact .inl ⟨.inr (.inr hmem), by dsimp only; omega⟩
  · rintro (⟨hmem | heq | hmem, hne⟩ | heq)
    · exact .inl hmem
    · cases heq
      exact absurd rfl hne
    · exact .inr (.inr hmem)
    · exact .inr (.inl heq)

/-- The free blocks stay free where a used one is split. -/
theorem FreeAt.split_used (hb : b.used = true) (hfront : front.used = true)
    (htotal : front.size + back.size = b.size) {p : Nat} (hfree : FreeAt (pre ++ b :: post) p) :
    FreeAt (pre ++ front :: back :: post) p := by
  rcases hfree with hmem | hend
  · left
    rw [starts_append, List.map_append, List.mem_append, starts, hb,
      if_neg Bool.false_ne_true.symm] at hmem
    rw [starts_append, List.map_append, List.mem_append, starts, hfront,
      if_neg Bool.false_ne_true.symm, starts, Nat.add_assoc _ front.size, htotal]
    rcases hmem with hmem | hmem
    · exact .inl hmem
    · right
      split
      · exact List.mem_cons_of_mem _ hmem
      · exact hmem
  · right
    simp only [hend, span_append, span_cons]
    omega

/-- The last step of the shrinking, on a heap in which the block is split. -/
theorem shrinks_plugHoles {g : Heap} (hs : Sound h (pre ++ b :: post)) (hb : b.used = true)
    (hfront : front.used = true) (hback : back.used = false)
    (htotal : front.size + back.size = b.size) (hdata : 12 < front.size)
    (ht : Tiles g (pre ++ front :: back :: post)) (hframe : h.Frame g)
    (hfree : FreeAt (pre ++ front :: back :: post) g.lfree) :
    ∃ blocks', Shrinks h (plugHoles g (span pre + front.size)) (pre ++ b :: post) blocks'
      (span pre) (front.size - 12) (g.lfree = lowestFree (pre ++ front :: back :: post)) := by
  obtain ⟨hplaced, -, hapart, -, hholds⟩ := hs
  obtain ⟨hpre, hpost, -, -⟩ := apart_mid.mp hapart
  have hpre' : Apart (pre ++ [front]) :=
    apart_mid.mpr ⟨hpre, List.isChain_nil, fun a _ => .inr hfront, fun c hc => (by cases hc)⟩
  have hspan : span (pre ++ [front]) = span pre + front.size := by
    rw [span_append, span_cons, span_nil, Nat.add_zero]
  have hlist : pre ++ front :: back :: post = (pre ++ [front]) ++ back :: post := by
    rw [List.append_assoc, List.singleton_append]
  rw [hlist] at ht hfree ⊢
  obtain ⟨blocks', hmerges, hapart'⟩ :=
    merges_plugHoles ht (hplaced.frame hframe) hback hpre' hpost
  rw [hspan] at hmerges
  have hframe' := hframe.trans hmerges.frame
  have hused (x : Nat × Nat) : x ∈ starts true 0 blocks' ↔
      x ∈ starts true 0 (pre ++ b :: post) ∧ x.1 ≠ span pre ∨ x = (span pre, front.size) := by
    rw [hmerges.used, ← hlist]
    exact starts_split hb hfront hback htotal x
  refine ⟨blocks', ⟨hplaced.frame hframe', hmerges.tiles, hapart', hmerges.freeAt hfree, ?_⟩,
    hframe', ?_, hmerges.lowest⟩
  · intro x hx
    rcases (hused x).mp hx with hx | rfl
    · exact hholds x hx.1
    · exact hdata
  · intro x
    rw [hused, Nat.sub_add_cancel (Nat.le_of_lt hdata)]

/-- A shrinking keeps `lfree` right where a block before it is free, or where `lfree` stands at the
next block, which the new free block takes in. -/
def Heap.ShrinkSeen (h : Heap) (ptr size : Nat) : Prop :=
  h.lfree < ptr + sizeofStructMem + size ∨
    h.lfree = (h.hdr ptr).next ∧ (h.hdr ptr).next ≠ h.heapEnd

instance (h : Heap) (ptr size : Nat) : Decidable (h.ShrinkSeen ptr size) :=
  inferInstanceAs (Decidable (_ ∨ _))

/-- `lfree` is right for the split block if it was right and another block before is free. -/
theorem lowestFree_split (hb : b.used = true) (htotal : front.size + back.size = b.size)
    (hbefore : lowestFree (pre ++ b :: post) < span pre + front.size) :
    lowestFree (pre ++ front :: back :: post) = lowestFree (pre ++ b :: post) := by
  rw [lowestFree_append, lowestFree, hb, if_pos rfl] at hbefore
  rw [lowestFree_append, lowestFree_append]
  split at hbefore
  · omega
  · next hall => rw [if_neg hall, if_neg hall]

/-- The block at `lfree` is the next one, if `lfree` stands there and not at the end. -/
theorem next_free (ht : Tiles h (pre ++ b :: post))
    (hfree : FreeAt (pre ++ b :: post) (span pre + b.size)) (hend : span pre + b.size ≠ h.heapEnd) :
    ∃ c cs, post = c :: cs ∧ c.used = false := by
  have hlist : pre ++ b :: post = (pre ++ [b]) ++ post := by
    rw [List.append_assoc, List.singleton_append]
  have hspan : span (pre ++ [b]) = span pre + b.size := by
    rw [span_append, span_cons, span_nil, Nat.add_zero]
  cases post with
  | nil =>
    rw [hlist, List.append_nil] at ht
    exact absurd (hspan.symm.trans ht.full) hend
  | cons c cs =>
    refine ⟨c, cs, rfl, ?_⟩
    rcases hfree with hmem | heq
    · cases hc : c.used with
      | false => rfl
      | true =>
        obtain ⟨⟨q, m⟩, hq, heq⟩ := List.mem_map.mp hmem
        have hmem := @mem_starts true (pre ++ [b]) cs c hc
        rw [List.append_assoc, List.singleton_append, hspan, ← heq] at hmem
        exact absurd hmem (starts_disjoint hq)
    · have := c.large
      simp only [span_append, span_cons] at heq
      omega

/-- The variables that a shrinking passes on to `plug_holes`. -/
theorem frame_shrink (h : Heap) (used ptr size ptr2 : Nat) :
    h.Frame (linkBehind (splitBlock { h with usedMem := used } ptr size) ptr2) :=
  ((frame_usedMem h used).trans (frame_splitBlock _ _ _)).trans (frame_linkBehind _ _)

/-- `shrinkBlock` cuts a used block down; `lfree` stays the lowest free block where the cut is seen.
-/
theorem shrinkBlock_spec (hs : Sound h blocks) (hused : (ptr, n) ∈ starts true 0 blocks)
    (haligned : size % 4 = 0) (hpos : 0 < size) (hsize : size + 36 < n) :
    ∃ blocks', Shrinks h (shrinkBlock h ptr size) blocks blocks' ptr size
      (h.lfree = lowestFree blocks ∧ h.ShrinkSeen ptr size) := by
  obtain ⟨pre, b, post, rfl, hb, hptr, rfl⟩ := exists_of_starts hused
  rw [Nat.zero_add] at hptr
  subst hptr
  have hle := hs.tiles.le_end
  have hfits := hs.placed.fits
  have hptr2 := add32_behind (show span pre + size + 12 < 0x100000000 by omega)
  unfold shrinkBlock
  simp only [hptr2]
  generalize sub32 h.usedMem _ = used
  have hplaced : Heap.Placed { h with usedMem := used } := hs.placed.frame ⟨rfl, rfl, rfl⟩
  have htiles : Tiles { h with usedMem := used } (pre ++ b :: post) := hs.tiles.of_memory rfl rfl
  have hframe := frame_shrink h used (span pre) size (span pre + (size + 12))
  have hlfree : (linkBehind (splitBlock { h with usedMem := used } (span pre) size)
      (span pre + (size + 12))).lfree = h.lfree := by
    rw [linkBehind_lfree, splitBlock_lfree]
  obtain ⟨hhdr, -, -⟩ := hdr_splitBlock htiles hplaced (show size + 24 ≤ b.size by omega)
  rw [hb] at hhdr
  obtain ⟨front, back, hfront, hfsize, hback, htotal, ht⟩ :=
    tiles_splitBlock htiles hplaced haligned (by omega) (frame_splitBlock _ _ _) hhdr
      fun p _ => rfl
  generalize linkBehind (splitBlock { h with usedMem := used } (span pre) size)
    (span pre + (size + 12)) = g at hframe hlfree ht ⊢
  have hfree : FreeAt (pre ++ front :: back :: post) g.lfree := by
    rw [hlfree]
    exact hs.freeAt.split_used hb hfront htotal
  have hdata : 12 < front.size := by omega
  have hspan : span pre + (size + 12) = span pre + front.size := by rw [hfsize]
  have hnext : (h.hdr (span pre)).next = span pre + b.size := by rw [hs.tiles.hdr]
  have hsize' : front.size - 12 = size := by omega
  by_cases hat : h.lfree = span pre + b.size ∧ span pre + b.size ≠ h.heapEnd
  · -- the new block takes in the next one, where `lfree` stands
    obtain ⟨c, cs, rfl, hc⟩ := next_free hs.tiles (hat.1 ▸ hs.freeAt) hat.2
    have hlist : pre ++ front :: back :: c :: cs = (pre ++ [front]) ++ back :: c :: cs := by
      rw [List.append_assoc, List.singleton_append]
    have hspan' : span (pre ++ [front]) = span pre + front.size := by
      rw [span_append, span_cons, span_nil, Nat.add_zero]
    have hswallow : plugHoles g (span pre + (size + 12)) =
        plugHoles { g with lfree := span pre + front.size } (span pre + front.size) := by
      rw [hspan]
      unfold plugHoles
      rw [hlist] at ht
      rw [← hspan', plugForward_lfree ht hc (by omega)]
    rw [hswallow]
    obtain ⟨blocks', hshrinks⟩ := shrinks_plugHoles (g := { g with lfree := span pre + front.size })
      hs hb hfront hback htotal hdata (ht.of_memory rfl rfl) (hframe.trans (frame_lfree _ _)) (by
        left
        rw [hlist, ← hspan']
        exact List.mem_map.mpr ⟨_, mem_starts hback, rfl⟩)
    rw [hsize'] at hshrinks
    refine ⟨blocks', { hshrinks with lowest := fun hlow => hshrinks.lowest ?_ }⟩
    obtain ⟨hlow, -⟩ := hlow
    rw [hat.1, lowestFree_append] at hlow
    split at hlow
    · next hall =>
      rw [lowestFree_append, if_pos hall, lowestFree, lowestFree, hfront, hback, if_pos rfl,
        if_neg Bool.false_ne_true, Nat.add_zero]
    · next hall =>
      have := lowestFree_lt hall
      omega
  · obtain ⟨blocks', hshrinks⟩ := shrinks_plugHoles hs hb hfront hback htotal hdata ht hframe hfree
    rw [hspan]
    rw [hsize'] at hshrinks
    refine ⟨blocks', { hshrinks with lowest := fun hlow => hshrinks.lowest ?_ }⟩
    obtain ⟨hlow, hseen | hseen⟩ := hlow
    · rw [lowestFree_split hb htotal, hlfree, hlow]
      unfold sizeofStructMem at hseen
      omega
    · rw [hnext] at hseen
      exact absurd hseen hat

end Shrinking

end RtVcom.Kernel
