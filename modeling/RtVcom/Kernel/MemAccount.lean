import Mathlib.Algebra.BigOperators.Group.List.Basic
import Mathlib.Algebra.GroupWithZero.Nat
import RtVcom.Kernel.MemLaws

/-!
# The statistics of the heap

`used_mem` and `max_mem`, which `rt_malloc`, `rt_free` and the shrinking part of `rt_realloc` adjust
in four places, each with an expression of its own. They are compared with what the headers say:
the bytes from the header of each used block to the next one (`Heap.usedTotal`).

A run is taken together with the values that `used_mem` has had (`MemHistory`). A `rt_realloc` that
moves a block gives it two: the new block is there before the old one is freed, and `max_mem` has
seen it. **The law** (`heap_accounted`): `used_mem` is the total of the used blocks, `max_mem` is
the greatest value it has had, and it is 0 where nothing is handed out.
-/

namespace RtVcom.Kernel

open RtVcom.Lib

/-! ## The values of `used_mem` -/

/-- The bytes of the used blocks, from header to header. -/
def Heap.usedTotal (h : Heap) : Nat :=
  (((h.walk h.fuel 0).filter fun p => (h.hdr p).used ≠ 0).map fun p => (h.hdr p).next - p).sum

/-- A heap in use, and the values that `used_mem` has had. -/
structure MemHistory where
  sys : MemSystem
  values : List Nat

/-- The value in the middle of a call: a `rt_realloc` that moves a block has called `rt_malloc`. -/
def MemSystem.usedWithin (s : MemSystem) : MemEvent → List Nat
  | .realloc (some rmem) newsize =>
    match rtRealloc s.heap (some rmem) newsize.toNat with
    | some (_, some nmem) =>
      if nmem = rmem then []
      else ((rtMalloc s.heap (rtAlign newsize.toNat)).map fun r => r.1.usedMem).toList
    | _ => []
  | _ => []

/-- `memMachine`, with the value of `used_mem` in the middle and at the end of every call. -/
def historyMachine (heap : Heap) : Machine MemHistory MemEvent where
  init := ⟨⟨heap, []⟩, [heap.usedMem]⟩
  step r e := ((memMachine heap).step r.sys e).map fun t =>
    ⟨t, r.values ++ r.sys.usedWithin e ++ [t.heap.usedMem]⟩

/-- The statistics are right. -/
structure Accounted (r : MemHistory) : Prop where
  used : r.sys.heap.usedMem = r.sys.heap.usedTotal
  had : r.sys.heap.maxMem ∈ r.values
  greatest : ∀ v ∈ r.values, v ≤ r.sys.heap.maxMem
  empty : r.sys.live = [] → r.sys.heap.usedMem = 0

/-! ## The total over the blocks -/

/-- The bytes of the used ones of some blocks. -/
def usedSpan (blocks : List Block) : Nat := ((starts true 0 blocks).map Prod.snd).sum

section Totals

variable {h : Heap} {xs ys blocks blocks' : List Block} {ptr n m size : Nat}

/-- No two blocks begin at the same offset. -/
theorem nodup_starts (used : Bool) (pos : Nat) (bs : List Block) :
    (starts used pos bs).Nodup := by
  induction bs generalizing pos with
  | nil => exact List.nodup_nil
  | cons b bs ih =>
    have hlarge := b.large
    unfold starts
    split
    · refine List.nodup_cons.mpr ⟨fun hmem => ?_, ih _⟩
      have := starts_bounds hmem
      omega
    · exact ih _

/-- The used blocks take no more than all of them. -/
theorem sum_starts_le (pos : Nat) (bs : List Block) :
    ((starts true pos bs).map Prod.snd).sum ≤ span bs := by
  induction bs generalizing pos with
  | nil => exact Nat.le_refl 0
  | cons b bs ih =>
    have hrest := ih (pos + b.size)
    unfold starts
    rw [span_cons]
    split
    · rw [List.map_cons, List.sum_cons]
      exact Nat.add_le_add_left hrest b.size
    · exact hrest.trans (Nat.le_add_left _ _)

/-- The headers say what the blocks are. -/
theorem sum_walk {fuel : Nat} (ht : Tiles h (xs ++ ys)) (hfuel : ys.length < fuel) :
    (((h.walk fuel (span xs)).filter fun p => (h.hdr p).used ≠ 0).map
      fun p => (h.hdr p).next - p).sum = ((starts true (span xs) ys).map Prod.snd).sum := by
  induction ys generalizing xs fuel with
  | nil =>
    obtain ⟨fuel, rfl⟩ := Nat.exists_eq_add_one.mpr hfuel
    have hfull := ht.full
    rw [List.append_nil] at hfull
    rw [Heap.walk, if_pos hfull]
    rfl
  | cons b ys ih =>
    obtain ⟨fuel, rfl⟩ := Nat.exists_eq_add_one.mpr (Nat.zero_lt_of_lt hfuel)
    have hlarge := b.large
    have hle := ht.le_end
    have hrest := ih ht.shift (Nat.lt_of_succ_lt_succ hfuel)
    have hspan : span (xs ++ [b]) = span xs + b.size := by
      rw [span_append, span_cons, span_nil, Nat.add_zero]
    rw [hspan] at hrest
    rw [Heap.walk, if_neg (by omega), ht.next, hspan, starts]
    cases hb : b.used with
    | true =>
      have hused : decide ((h.hdr (span xs)).used ≠ 0) = true := by
        rw [ht.hdr, hb]
        rfl
      have hsize : (h.hdr (span xs)).next - span xs = b.size := by
        rw [ht.hdr]
        exact Nat.add_sub_cancel_left _ _
      rw [List.filter_cons, if_pos hused, List.map_cons, List.sum_cons, hrest, hsize, if_pos rfl,
        List.map_cons, List.sum_cons]
    | false =>
      have hfree : ¬decide ((h.hdr (span xs)).used ≠ 0) = true := by
        rw [ht.hdr, hb]
        exact Bool.false_ne_true
      rw [List.filter_cons, if_neg hfree, hrest, if_neg Bool.false_ne_true]

/-- The sizes in use, read from the headers, are those of the used blocks. -/
theorem Tiles.usedTotal (ht : Tiles h blocks) (hplaced : h.Placed) :
    h.usedTotal = usedSpan blocks := by
  have ht : Tiles h ([] ++ blocks) := ht
  exact sum_walk ht (ht.length_lt_fuel hplaced)

theorem Tiles.usedSpan_lt (ht : Tiles h blocks) (hplaced : h.Placed) :
    usedSpan blocks < 0x100000000 := by
  have hle := sum_starts_le 0 blocks
  have hfull := ht.full
  have hfits := hplaced.fits
  unfold usedSpan
  omega

/-- One used block more. -/
theorem usedSpan_add (hnew : ∀ k, (ptr, k) ∉ starts true 0 blocks)
    (hused : ∀ x, x ∈ starts true 0 blocks' ↔ x ∈ starts true 0 blocks ∨ x = (ptr, n)) :
    usedSpan blocks' = n + usedSpan blocks := by
  have hperm : (starts true 0 blocks').Perm ((ptr, n) :: starts true 0 blocks) := by
    refine (List.perm_ext_iff_of_nodup (nodup_starts true 0 blocks') ?_).mpr fun x => ?_
    · exact List.nodup_cons.mpr ⟨hnew n, nodup_starts true 0 blocks⟩
    · rw [hused, List.mem_cons, or_comm]
  unfold usedSpan
  rw [(hperm.map Prod.snd).sum_eq, List.map_cons, List.sum_cons]

/-- A used block and the others. -/
theorem perm_others (hat : (ptr, n) ∈ starts true 0 blocks) :
    (starts true 0 blocks).Perm ((ptr, n) :: (starts true 0 blocks).filter fun x => x.1 ≠ ptr) := by
  have hnodup := nodup_starts true 0 blocks
  refine (List.perm_ext_iff_of_nodup hnodup ?_).mpr fun x => ?_
  · refine List.nodup_cons.mpr ⟨fun hmem => ?_, hnodup.filter _⟩
    exact absurd rfl (of_decide_eq_true (List.mem_filter.mp hmem).2)
  · obtain ⟨p, k⟩ := x
    rw [List.mem_cons, List.mem_filter, decide_eq_true_iff]
    constructor
    · intro hx
      by_cases hp : p = ptr
      · subst hp
        exact .inl (by rw [starts_unique hat hx])
      · exact .inr ⟨hx, hp⟩
    · rintro (heq | hx)
      · rw [heq]
        exact hat
      · exact hx.1

/-- One used block less. -/
theorem usedSpan_drop (hat : (ptr, n) ∈ starts true 0 blocks)
    (hused : ∀ x, x ∈ starts true 0 blocks' ↔ x ∈ starts true 0 blocks ∧ x.1 ≠ ptr) :
    usedSpan blocks = n + usedSpan blocks' := by
  have hperm : (starts true 0 blocks').Perm
      ((starts true 0 blocks).filter fun x => x.1 ≠ ptr) := by
    refine (List.perm_ext_iff_of_nodup (nodup_starts true 0 blocks')
      ((nodup_starts true 0 blocks).filter _)).mpr fun x => ?_
    rw [hused, List.mem_filter, decide_eq_true_iff]
  unfold usedSpan
  rw [((perm_others hat).map Prod.snd).sum_eq, (hperm.map Prod.snd).sum_eq, List.map_cons,
    List.sum_cons]

/-- A used block that became smaller. -/
theorem usedSpan_shrink (hat : (ptr, n) ∈ starts true 0 blocks)
    (hused : ∀ x, x ∈ starts true 0 blocks' ↔
      x ∈ starts true 0 blocks ∧ x.1 ≠ ptr ∨ x = (ptr, size)) :
    usedSpan blocks + size = usedSpan blocks' + n := by
  have hperm : (starts true 0 blocks').Perm
      ((ptr, size) :: (starts true 0 blocks).filter fun x => x.1 ≠ ptr) := by
    refine (List.perm_ext_iff_of_nodup (nodup_starts true 0 blocks') ?_).mpr fun x => ?_
    · refine List.nodup_cons.mpr ⟨fun hmem => ?_, (nodup_starts true 0 blocks).filter _⟩
      exact absurd rfl (of_decide_eq_true (List.mem_filter.mp hmem).2)
    · rw [hused, List.mem_cons, List.mem_filter, decide_eq_true_iff, or_comm]
  unfold usedSpan
  rw [((perm_others hat).map Prod.snd).sum_eq, (hperm.map Prod.snd).sum_eq, List.map_cons,
    List.map_cons, List.sum_cons, List.sum_cons]
  omega

end Totals

/-! ## What the functions do to the statistics -/

/-- The statistics of a heap between two calls. -/
structure Heap.Counted (h : Heap) : Prop where
  used : h.usedMem = h.usedTotal
  seen : h.usedMem ≤ h.maxMem

/-- The statistics are right again, and `max_mem` has seen the new value. -/
structure Heap.Counts (h h' : Heap) : Prop where
  used : h'.usedMem = h'.usedTotal
  maxMem : h'.maxMem = max h.maxMem h'.usedMem

theorem Heap.Counts.counted {h h' : Heap} (hc : h.Counts h') : h'.Counted :=
  ⟨hc.used, by rw [hc.maxMem]; exact Nat.le_max_right _ _⟩

theorem Heap.Counted.refl {h : Heap} (hc : h.Counted) : h.Counts h :=
  ⟨hc.used, (Nat.max_eq_left hc.seen).symm⟩

/-- A write to the bytes of a block. -/
theorem counts_write {h h' : Heap} {blocks : List Block} (hc : h.Counted) (ht : Tiles h blocks)
    (hplaced : h.Placed) (ht' : Tiles h' blocks) (hplaced' : h'.Placed)
    (hstats : h.SameStats h') : h.Counts h' := by
  refine ⟨?_, ?_⟩
  · rw [hstats.usedMem, hc.used, ht.usedTotal hplaced, ht'.usedTotal hplaced']
  · rw [hstats.maxMem, hstats.usedMem, Nat.max_eq_left hc.seen]

section Counting

variable {h h' : Heap} {pre post blocks blocks' : List Block} {b : Block} {ptr n size : Nat}

/-- Where a block ends. -/
theorem next_of_starts {used : Bool} (ht : Tiles h blocks)
    (hat : (ptr, n) ∈ starts used 0 blocks) : (h.hdr ptr).next = ptr + n := by
  obtain ⟨pre, b, post, rfl, -, hptr, rfl⟩ := exists_of_starts hat
  rw [Nat.zero_add] at hptr
  rw [hptr, ht.hdr]

/-- `rt_malloc` counts the block that it takes, from its header to the next one. -/
theorem takeBlock_counts (ht : Tiles h (pre ++ b :: post)) (hplaced : h.Placed)
    (hsize : size + 12 ≤ b.size) :
    ∃ n, ((takeBlock h (span pre) size).hdr (span pre)).next = span pre + n ∧
      (takeBlock h (span pre) size).usedMem = add32 h.usedMem n ∧
      (takeBlock h (span pre) size).maxMem =
        max h.maxMem (takeBlock h (span pre) size).usedMem := by
  rw [takeBlock_eq ht hplaced hsize]
  split
  · next hlarge =>
    obtain ⟨hfront, hback, -⟩ := hdr_splitBlock ht hplaced (show size + 24 ≤ b.size by omega)
    have hused : h.SameStats ((splitBlock h (span pre) size).setUsed (span pre) 1) :=
      (stats_splitBlock h (span pre) size).trans (stats_setUsed _ _ _)
    have hfront' : ((splitBlock h (span pre) size).setUsed (span pre) 1).hdr (span pre) =
        ⟨heapMagic, 1, span pre + (size + 12), lastStart 0 0 pre⟩ := by
      rw [Heap.hdr_setUsed (by decide), hfront]
    have hback' : ((splitBlock h (span pre) size).setUsed (span pre) 1).hdr
        (span pre + (size + 12)) = ⟨heapMagic, 0, span pre + b.size, span pre⟩ := by
      rw [Heap.hdr_setUsed_other (by omega), hback]
    generalize (splitBlock h (span pre) size).setUsed (span pre) 1 = g at hused hfront' hback' ⊢
    have hstats := hused.trans (stats_linkBehind g (span pre + (size + 12)))
    refine ⟨size + 12, ?_, ?_, ?_⟩
    · rw [account_hdr]
      unfold linkBehind
      dsimp only
      rw [hback']
      split
      · rw [Heap.hdr_setPrev_other (by dsimp only; omega), hfront']
      · rw [hfront']
    · rw [account_usedMem, hstats.usedMem]
    · rw [account_maxMem, hstats.maxMem]
  · refine ⟨b.size, ?_, rfl, account_maxMem _ _⟩
    rw [account_hdr, Heap.hdr_setUsed (by decide), ht.hdr]

/-- `rt_malloc` counts what it hands out. -/
theorem counts_rtMalloc {p : Option Nat} (hs : Sound h blocks) (hmin : 12 ≤ h.memSizeAligned)
    (hc : h.Counted) (hmalloc : rtMalloc h n = some (h', p)) : h.Counts h' := by
  rcases rtMalloc_found hs hmin n with ⟨hnone, -⟩ | ⟨pre, b, post, rfl, hb, hholds, -, hfound⟩
  · rw [hnone] at hmalloc
    cases hmalloc
    exact hc.refl
  obtain ⟨h₁, blocks', hout, halloc⟩ :=
    handOut_spec hs (mallocSize_aligned n) (le_mallocSize n) hb hholds
  have hsome := hmalloc.symm.trans (hfound.trans hout)
  cases hsome
  obtain ⟨m, hnext, hused, hmax⟩ := takeBlock_counts hs.tiles hs.placed hholds
  unfold handOut at hout
  dsimp only at hout
  generalize takeBlock h (span pre) (mallocSize n) = g at hnext hused hmax hout
  obtain ⟨lfree, -, heq⟩ := Option.map_eq_some_iff.mp hout
  have heap_eq := congrArg Prod.fst heq
  dsimp only at heap_eq
  have hused' : h'.usedMem = add32 h.usedMem m := by
    rw [← heap_eq]
    exact hused
  have hmax' : h'.maxMem = max h.maxMem h'.usedMem := by
    rw [← heap_eq]
    exact hmax
  have hnext' : (h'.hdr (span pre)).next = span pre + m := by
    rw [← heap_eq]
    change ((g.setMagic (span pre) heapMagic).hdr (span pre)).next = _
    rw [Heap.hdr_setMagic (by decide)]
    exact hnext
  refine ⟨?_, hmax'⟩
  -- the block that was taken is the new one
  obtain ⟨k, -, hregion⟩ := halloc.region
  have hnew := (hregion _).mpr (.inr rfl)
  have hk : k = m := by
    have := next_of_starts halloc.sound.tiles hnew
    omega
  have htotal := usedSpan_add halloc.fresh hregion
  have hlt := halloc.sound.tiles.usedSpan_lt halloc.sound.placed
  rw [halloc.sound.tiles.usedTotal halloc.sound.placed, hused', hc.used,
    hs.tiles.usedTotal hs.placed, htotal, hk]
  rw [htotal, hk] at hlt
  rw [add32_of_lt (by omega), Nat.add_comm]

/-- `rt_free` takes the block off. -/
theorem counts_rtFree (hs : Sound h blocks) (hc : h.Counted)
    (hat : (ptr, n) ∈ starts true 0 blocks) :
    h.Counts (rtFree h (some (h.heapPtr + ptr + sizeofStructMem))) := by
  obtain ⟨blocks', hfrees⟩ := rtFree_spec hs hat
  have htotal := usedSpan_drop hat hfrees.used
  have hlt := hs.tiles.usedSpan_lt hs.placed
  have hplaced := hfrees.sound.placed
  have hafter := hfrees.sound.tiles.usedTotal hplaced
  obtain ⟨pre, b, post, rfl, hb, hptr, rfl⟩ := exists_of_starts hat
  rw [Nat.zero_add] at hptr
  subst hptr
  obtain ⟨g, hfree, -, -, -, hused, hmax⟩ := rtFree_plugs hs hb
  have hstats := stats_plugHoles g (span pre)
  have hused' : (rtFree h (some (h.heapPtr + span pre + sizeofStructMem))).usedMem =
      usedSpan blocks' := by
    have hbefore := hc.used
    rw [hs.tiles.usedTotal hs.placed] at hbefore
    rw [hfree, hstats.usedMem, hused, hbefore, htotal, sub32_of_le (by omega) (by omega)]
    omega
  refine ⟨hused'.trans hafter.symm, ?_⟩
  have hseen := hc.seen
  rw [hc.used, hs.tiles.usedTotal hs.placed, htotal] at hseen
  rw [hused', hfree, hstats.maxMem, hmax]
  omega

/-- Giving the end of a block back takes it off. -/
theorem counts_shrinkBlock (hs : Sound h blocks) (hc : h.Counted)
    (hat : (ptr, n) ∈ starts true 0 blocks) (haligned : size % 4 = 0) (hpos : 0 < size)
    (hsize : size + 36 < n) : h.Counts (shrinkBlock h ptr size) := by
  obtain ⟨blocks', hshrinks⟩ := shrinkBlock_spec hs hat haligned hpos hsize
  have htotal := usedSpan_shrink hat hshrinks.used
  have hlt := hs.tiles.usedSpan_lt hs.placed
  have hafter := hshrinks.sound.tiles.usedTotal hshrinks.sound.placed
  have hnext := next_of_starts hs.tiles hat
  have hbounds := starts_bounds hat
  have hfull := hs.tiles.full
  have hfits := hs.placed.fits
  have hgiven :
      sub32 (sub32 (sub32 (h.hdr ptr).next ptr) sizeofStructMem) size = n - 12 - size := by
    unfold sizeofStructMem
    rw [hnext, sub32_of_le (a := ptr + n) (by omega) (by omega),
      sub32_of_le (a := ptr + n - ptr) (by omega) (by omega), sub32_of_le (by omega) (by omega)]
    omega
  have hstats (g : Heap) : g.SameStats (plugHoles (linkBehind (splitBlock g ptr size)
      (add32 (add32 ptr sizeofStructMem) size)) (add32 (add32 ptr sizeofStructMem) size)) :=
    (stats_splitBlock g ptr size).trans ((stats_linkBehind _ _).trans (stats_plugHoles _ _))
  have hbefore := hc.used
  rw [hs.tiles.usedTotal hs.placed] at hbefore
  have hused : (shrinkBlock h ptr size).usedMem = usedSpan blocks' := by
    unfold shrinkBlock
    dsimp only
    rw [(hstats _).usedMem]
    dsimp only
    rw [hgiven, hbefore, sub32_of_le (by omega) (by omega)]
    omega
  refine ⟨hused.trans hafter.symm, ?_⟩
  have hseen := hc.seen
  rw [hbefore] at hseen
  have hmax : (shrinkBlock h ptr size).maxMem = h.maxMem := by
    unfold shrinkBlock
    exact (hstats _).maxMem
  rw [hused, hmax]
  omega

end Counting

/-! ## The calls -/

section Calls

variable {s t : MemSystem} {heap₀ : Heap} {blocks : List Block} {ptr n : Nat}

/-- What a call does to the statistics: they are right at its end, and `max_mem` has seen every
value in the middle and the last one. -/
structure Logs (s : MemSystem) (e : MemEvent) (t : MemSystem) : Prop where
  used : t.heap.usedMem = t.heap.usedTotal
  maxMem : t.heap.maxMem = (s.usedWithin e ++ [t.heap.usedMem]).foldl max s.heap.maxMem

/-- A call without a value in the middle. -/
theorem Heap.Counts.logs {e : MemEvent} (h : s.heap.Counts t.heap) (he : s.usedWithin e = []) :
    Logs s e t := by
  refine ⟨h.used, ?_⟩
  rw [he]
  exact h.maxMem

/-- `rt_malloc` counts what it hands out. -/
theorem logs_malloc {size : BitVec 32} (hs : Held s blocks) (hmin : 12 ≤ s.heap.memSizeAligned)
    (hc : s.heap.Counted) (hstep : (memMachine heap₀).step s (.malloc size) = some t) :
    Logs s (.malloc size) t := by
  simp only [memMachine] at hstep
  obtain ⟨⟨heap, p⟩, hmalloc, rfl⟩ := Option.map_eq_some_iff.mp hstep
  exact Heap.Counts.logs (counts_rtMalloc hs.sound hmin hc hmalloc) rfl

/-- `rt_calloc` is accounted for, where it overwrites no header. -/
theorem logs_calloc {count size : BitVec 32} (hs : Held s blocks)
    (hmin : 12 ≤ s.heap.memSizeAligned) (hc : s.heap.Counted)
    (hok : KeepsHeaders s (.calloc count size))
    (hstep : (memMachine heap₀).step s (.calloc count size) = some t) :
    Logs s (.calloc count size) t := by
  have hlt : count.toNat * size.toNat % 0x100000000 < 0x100000000 := Nat.mod_lt _ (by decide)
  refine Heap.Counts.logs ?_ rfl
  obtain ⟨heap, p, blocks', hmalloc, hmoves, -, -⟩ :=
    moves_rtMalloc hs hmin (count.toNat * size.toNat % 0x100000000) 0
  have hcounts := counts_rtMalloc hs.sound hmin hc hmalloc
  simp only [memMachine, rtCalloc, hmalloc] at hstep
  cases p with
  | none =>
    cases hstep
    exact hcounts
  | some q =>
    cases hstep
    obtain ⟨blocks'', hgot, hwrite⟩ := moves_clear hs hmin hlt hok hmalloc 0
    have hsound := hgot.held.sound
    have hsound' := hwrite.held.sound
    have hcleared := counts_write hcounts.counted hsound.tiles hsound.placed hsound'.tiles
      hsound'.placed ⟨rfl, rfl⟩
    refine ⟨hcleared.used, ?_⟩
    exact hcounts.maxMem

theorem logs_free {rmem : Option Nat} (hs : Held s blocks) (hc : s.heap.Counted)
    (hstep : (memMachine heap₀).step s (.free rmem) = some t) : Logs s (.free rmem) t := by
  simp only [memMachine, Option.ite_none_right_eq_some, Option.some.injEq] at hstep
  obtain ⟨howned, rfl⟩ := hstep
  refine Heap.Counts.logs ?_ rfl
  cases rmem with
  | none => exact hc.refl
  | some p =>
    obtain ⟨ptr, n, hat, rfl⟩ := hs.block (howned p rfl)
    exact counts_rtFree hs.sound hc hat

theorem logs_store {p offset : Nat} {value : BitVec 8} (hs : Held s blocks)
    (hc : s.heap.Counted)
    (hstep : (memMachine heap₀).step s (.store p offset value) = some t) :
    Logs s (.store p offset value) t := by
  have hmoves := moves_store hs hstep
  simp only [memMachine, Option.ite_none_right_eq_some, Option.some.injEq] at hstep
  obtain ⟨-, rfl⟩ := hstep
  have hsound := hmoves.held.sound
  exact Heap.Counts.logs (counts_write hc hs.sound.tiles hs.sound.placed hsound.tiles hsound.placed
    ⟨rfl, rfl⟩) rfl

/-- `rt_realloc` without a pointer counts as `rt_malloc` does. -/
theorem logs_realloc_null {newsize : BitVec 32} (hs : Held s blocks)
    (hmin : 12 ≤ s.heap.memSizeAligned) (hc : s.heap.Counted)
    (hstep : (memMachine heap₀).step s (.realloc none newsize) = some t) :
    Logs s (.realloc none newsize) t := by
  refine Heap.Counts.logs ?_ rfl
  have howned : s.Owned none := fun p hp => (by cases hp)
  simp only [memMachine, if_pos howned] at hstep
  obtain ⟨⟨heap, p⟩, hrealloc, rfl⟩ := Option.map_eq_some_iff.mp hstep
  dsimp only
  by_cases hn : s.heap.memSizeAligned < rtAlign newsize.toNat ∨ rtAlign newsize.toNat = 0
  · have hsame : rtFree s.heap none = s.heap := rfl
    rw [rtRealloc_none hn, hsame, ite_self] at hrealloc
    cases hrealloc
    exact hc.refl
  · have hle : ¬s.heap.memSizeAligned < rtAlign newsize.toNat := fun h => hn (.inl h)
    have hne : ¬rtAlign newsize.toNat = 0 := fun h => hn (.inr h)
    simp only [rtRealloc, if_neg hle, if_neg hne] at hrealloc
    exact counts_rtMalloc hs.sound hmin hc hrealloc

/-- A block that is copied into a new one and freed: both are there in the middle. -/
theorem counts_expand {heap : Heap} {k q count : Nat} (hs : Held s blocks)
    (hmin : 12 ≤ s.heap.memSizeAligned) (hc : s.heap.Counted)
    (hat : (ptr, n) ∈ starts true 0 blocks) (hmalloc : rtMalloc s.heap k = some (heap, some q))
    (hfits : count ≤ mallocSize k) (src : Nat) :
    s.heap.Counts heap ∧
      heap.Counts (rtFree (heap.withMemory (heap.memory.copy (q - heap.heapPtr) src count))
        (some (s.heap.heapPtr + ptr + sizeofStructMem))) := by
  have hcounts := counts_rtMalloc hs.sound hmin hc hmalloc
  refine ⟨hcounts, ?_⟩
  rcases rtMalloc_spec hs.sound hmin k with ⟨hnone, -⟩ | ⟨h₁, ptr', blocks₁, hsome, -, halloc⟩
  · rw [hnone] at hmalloc
    cases hmalloc
  cases hsome.symm.trans hmalloc
  obtain ⟨m', hm', hused⟩ := halloc.region
  have hptr := halloc.frame.heapPtr
  have hwrite := moves_write
    (m := heap.memory.copy (s.heap.heapPtr + ptr' + sizeofStructMem - heap.heapPtr) src count)
    (halloc.moves hs k).held ((hused _).mpr (.inr rfl)) fun x hx => by
      refine ByteMemory.copy_outside ?_
      unfold sizeofStructMem at hx ⊢
      omega
  generalize heap.memory.copy (s.heap.heapPtr + ptr' + sizeofStructMem - heap.heapPtr) src count
    = copied at hwrite ⊢
  have hptr₂ : (heap.withMemory copied).heapPtr = s.heap.heapPtr := hptr
  have hsound := hwrite.held.sound
  have hwritten := counts_write hcounts.counted halloc.sound.tiles halloc.sound.placed hsound.tiles
    hsound.placed ⟨rfl, rfl⟩
  have hfreed := counts_rtFree hsound hwritten.counted ((hused _).mpr (.inl hat))
  dsimp only at hfreed
  rw [hptr₂] at hfreed
  exact ⟨hfreed.used, hfreed.maxMem⟩

/-- `rt_realloc` of a live pointer counts the difference. -/
theorem logs_realloc_held {p : Nat} {newsize : BitVec 32} (hs : Held s blocks)
    (hmin : 12 ≤ s.heap.memSizeAligned) (hc : s.heap.Counted)
    (hstep : (memMachine heap₀).step s (.realloc (some p) newsize) = some t) :
    Logs s (.realloc (some p) newsize) t := by
  simp only [memMachine, Option.ite_none_right_eq_some] at hstep
  obtain ⟨howned, hstep⟩ := hstep
  obtain ⟨⟨heap, nmem⟩, hrealloc, rfl⟩ := Option.map_eq_some_iff.mp hstep
  obtain ⟨ptr, n, hat, rfl⟩ := hs.block (howned p rfl)
  -- a block that stays, or NULL
  have hstays (hcounts : s.heap.Counts heap) (hnmem : ∀ q ∈ nmem, q = s.heap.heapPtr + ptr +
      sizeofStructMem) : Logs s (.realloc (some (s.heap.heapPtr + ptr + sizeofStructMem)) newsize)
      ⟨heap, MemSystem.move s.live (some (s.heap.heapPtr + ptr + sizeofStructMem)) newsize.toNat
        nmem⟩ := by
    refine Heap.Counts.logs hcounts ?_
    unfold MemSystem.usedWithin
    dsimp only
    rw [hrealloc]
    cases nmem with
    | none => rfl
    | some q => exact if_pos (hnmem q rfl)
  have hnone : ∀ q ∈ (none : Option Nat), q = s.heap.heapPtr + ptr + sizeofStructMem :=
    fun q hq => (by cases hq)
  have hsame : ∀ q ∈ some (s.heap.heapPtr + ptr + sizeofStructMem),
      q = s.heap.heapPtr + ptr + sizeofStructMem := by
    intro q hq
    cases hq
    rfl
  by_cases hn : s.heap.memSizeAligned < rtAlign newsize.toNat ∨ rtAlign newsize.toNat = 0
  · have hresult := hrealloc
    rw [rtRealloc_none hn] at hresult
    cases hresult
    refine hstays ?_ hnone
    split
    · exact counts_rtFree hs.sound hc hat
    · exact hc.refl
  have hle : ¬s.heap.memSizeAligned < rtAlign newsize.toNat := fun h => hn (.inl h)
  have hne : ¬rtAlign newsize.toNat = 0 := fun h => hn (.inr h)
  have hresult := hrealloc
  rw [rtRealloc_held hs hat hle hne] at hresult
  split at hresult
  · cases hresult
    exact hstays hc.refl hsame
  split at hresult
  · next hsmall =>
    have hshrinks := counts_shrinkBlock hs.sound hc hat (rtAlign_aligned newsize.toNat)
      (Nat.pos_of_ne_zero hne) (by omega)
    generalize shrinkBlock s.heap ptr (rtAlign newsize.toNat) = small at hshrinks hresult
    cases hresult
    exact hstays hshrinks hsame
  obtain ⟨h₁, q, blocks', hmalloc, -, hkeep, hregion⟩ :=
    moves_rtMalloc hs hmin (rtAlign newsize.toNat) newsize.toNat
  rw [hmalloc] at hresult
  cases q with
  | none =>
    cases hresult
    rw [hkeep rfl] at hrealloc hstays ⊢
    exact hstays hc.refl hnone
  | some q =>
    obtain ⟨-, -, -, -, -, -, hfresh⟩ := hregion q rfl
    have hmoved : q ≠ s.heap.heapPtr + ptr + sizeofStructMem :=
      fun heq => hfresh (heq ▸ howned _ rfl)
    have hgot : rtAlign newsize.toNat ≤ mallocSize (rtAlign newsize.toNat) := by
      refine le_mallocSize_of ?_
      unfold rtAlign add32 alignMax
      omega
    obtain ⟨htaken, hfreed⟩ := counts_expand (k := rtAlign newsize.toNat) hs hmin hc hat hmalloc
      (show (if n - 12 < rtAlign newsize.toNat then n - 12 else rtAlign newsize.toNat) ≤ _ by
        split <;> omega) (s.heap.heapPtr + ptr + sizeofStructMem - h₁.heapPtr)
    have hwithin : s.usedWithin
        (.realloc (some (s.heap.heapPtr + ptr + sizeofStructMem)) newsize) = [h₁.usedMem] := by
      unfold MemSystem.usedWithin
      dsimp only
      rw [hrealloc]
      cases hresult
      dsimp only
      rw [if_neg hmoved, hmalloc]
      rfl
    cases hresult
    refine ⟨hfreed.used, ?_⟩
    rw [hwithin]
    refine hfreed.maxMem.trans ?_
    rw [htaken.maxMem]
    rfl

/-- What every call does to the statistics. -/
theorem logs_of_step {e : MemEvent} (hs : Held s blocks) (hmin : 12 ≤ s.heap.memSizeAligned)
    (hc : s.heap.Counted) (hok : KeepsHeaders s e)
    (hstep : (memMachine heap₀).step s e = some t) : Logs s e t := by
  match e with
  | .malloc size => exact logs_malloc hs hmin hc hstep
  | .calloc count size => exact logs_calloc hs hmin hc hok hstep
  | .realloc none newsize => exact logs_realloc_null hs hmin hc hstep
  | .realloc (some p) newsize => exact logs_realloc_held hs hmin hc hstep
  | .free rmem => exact logs_free hs hc hstep
  | .store p offset value => exact logs_store hs hc hstep

end Calls

/-! ## Runs -/

/-- The greatest of some values stays so when others come, if it is raised to them. -/
theorem greatest_foldl (more : List Nat) {values : List Nat} {m : Nat} (hmem : m ∈ values)
    (hle : ∀ v ∈ values, v ≤ m) :
    more.foldl max m ∈ values ++ more ∧ ∀ v ∈ values ++ more, v ≤ more.foldl max m := by
  induction more generalizing values m with
  | nil =>
    rw [List.append_nil]
    exact ⟨hmem, hle⟩
  | cons a more ih =>
    rw [List.foldl_cons, List.append_cons]
    refine ih ?_ fun v hv => ?_
    · rcases Nat.le_total m a with ha | ha
      · rw [Nat.max_eq_right ha]
        exact List.mem_append_right _ (List.mem_singleton_self a)
      · rw [Nat.max_eq_left ha]
        exact List.mem_append_left _ hmem
    · rcases List.mem_append.mp hv with hv | hv
      · exact Nat.le_trans (hle v hv) (Nat.le_max_left m a)
      · rw [List.mem_singleton.mp hv]
        exact Nat.le_max_right m a

/-- The steps of a run with its history. -/
theorem historyMachine_step {heap : Heap} {r t : MemHistory} {e : MemEvent}
    (hstep : (historyMachine heap).step r e = some t) :
    (memMachine heap).step r.sys e = some t.sys ∧
      t.values = r.values ++ (r.sys.usedWithin e ++ [t.sys.heap.usedMem]) := by
  obtain ⟨s, hs, rfl⟩ := Option.map_eq_some_iff.mp hstep
  exact ⟨hs, List.append_assoc _ _ _⟩

/-- Without its history a run is one of `memMachine`. -/
theorem reach_sys {heap : Heap} {r : MemHistory}
    (hr : (historyMachine heap).Reach (fun r e => KeepsHeaders r.sys e) r) :
    (memMachine heap).Reach KeepsHeaders r.sys := by
  refine hr.invariant (P := fun r => (memMachine heap).Reach KeepsHeaders r.sys) .init ?_
  intro r e t hreach hok hstep
  exact .step hreach hok (historyMachine_step hstep).1

/-- Nothing is in use where nothing is handed out. -/
theorem Held.usedTotal_of_empty {s : MemSystem} {blocks : List Block} (hs : Held s blocks)
    (hempty : s.live = []) : s.heap.usedTotal = 0 := by
  rw [hs.sound.tiles.usedTotal hs.sound.placed]
  have hnone : starts true 0 blocks = [] := by
    refine List.eq_nil_iff_forall_not_mem.mpr fun x hx => ?_
    have hmem := (hs.live _).mpr ⟨x, hx, rfl⟩
    rw [hempty] at hmem
    exact absurd hmem List.not_mem_nil
  unfold usedSpan
  rw [hnone]
  rfl

/-- The statistics over the blocks, and the values they have had. -/
structure Recorded (heap : Heap) (r : MemHistory) : Prop where
  held : ∃ blocks, Held r.sys blocks
  frame : heap.Frame r.sys.heap
  used : r.sys.heap.usedMem = r.sys.heap.usedTotal
  current : r.sys.heap.usedMem ∈ r.values
  had : r.sys.heap.maxMem ∈ r.values
  greatest : ∀ v ∈ r.values, v ≤ r.sys.heap.maxMem

/-- Every step that keeps the headers keeps the record. -/
theorem Recorded.step {heap : Heap} {r t : MemHistory} {e : MemEvent} (h : Recorded heap r)
    (hmin : 12 ≤ heap.memSizeAligned) (hok : KeepsHeaders r.sys e)
    (hstep : (historyMachine heap).step r e = some t) : Recorded heap t := by
  obtain ⟨blocks, hs⟩ := h.held
  obtain ⟨hsys, hvalues⟩ := historyMachine_step hstep
  have hmin' : 12 ≤ r.sys.heap.memSizeAligned := by
    rw [h.frame.memSizeAligned]
    exact hmin
  have hlogs := logs_of_step hs hmin' ⟨h.used, h.greatest _ h.current⟩ hok hsys
  obtain ⟨blocks', hmoves⟩ := moves_of_step hs hmin' hok hsys
  obtain ⟨hhad, hgreatest⟩ :=
    greatest_foldl (r.sys.usedWithin e ++ [t.sys.heap.usedMem]) h.had h.greatest
  rw [← hlogs.maxMem, ← hvalues] at hhad hgreatest
  refine ⟨⟨blocks', hmoves.held⟩, h.frame.trans hmoves.frame, hlogs.used, ?_, hhad, hgreatest⟩
  rw [hvalues]
  exact List.mem_append_right _ (List.mem_append_right _ (List.mem_singleton_self _))

/-- A heap that is smaller than the least block has nothing to count. -/
theorem Recorded.step_tiny {heap : Heap} {b : Block} {r t : MemHistory} {e : MemEvent}
    (hf : Fresh heap b) (htiny : heap.memSizeAligned < 12) (hsys : r.sys = ⟨heap, []⟩)
    (h : Recorded heap r) (hstep : (historyMachine heap).step r e = some t) :
    Recorded heap t ∧ t.sys = ⟨heap, []⟩ := by
  obtain ⟨hmem, hvalues⟩ := historyMachine_step hstep
  rw [hsys] at hmem hvalues
  have hsame := Kernel.step_tiny hf htiny hmem
  have hwithin : MemSystem.usedWithin ⟨heap, []⟩ e = [] := by
    match e with
    | .realloc (some p) newsize =>
      simp only [memMachine, Option.ite_none_right_eq_some] at hmem
      exact absurd (hmem.1 p rfl) List.not_mem_nil
    | .realloc none _ | .malloc _ | .calloc _ _ | .free _ | .store _ _ _ => rfl
  obtain ⟨hheld, hframe, hused, hcurrent, hhad, hgreatest⟩ := h
  rw [hsys] at hheld hframe hused hcurrent hhad hgreatest
  rw [hwithin, hsame, List.nil_append] at hvalues
  refine ⟨⟨?_, ?_, ?_, ?_, ?_, ?_⟩, hsame⟩ <;> rw [hsame]
  · exact hheld
  · exact hframe
  · exact hused
  · rw [hvalues]
    exact List.mem_append_left _ hcurrent
  · rw [hvalues]
    exact List.mem_append_left _ hhad
  · intro v hv
    rw [hvalues] at hv
    rcases List.mem_append.mp hv with hv | hv
    · exact hgreatest v hv
    · rw [List.mem_singleton.mp hv]
      exact hgreatest _ hcurrent

/-- **The statistics are right**, in every state of any heap, if no call of `rt_calloc` clears more
than it got: `used_mem` is the total of the used blocks, `max_mem` the greatest value that it has
had, and it is 0 where nothing is handed out. -/
theorem heap_accounted {heap : Heap} {r : MemHistory} {memory : ByteMemory}
    {beginAddr endAddr : BitVec 32}
    (hinit : rtSystemHeapInit memory beginAddr.toNat endAddr.toNat = some heap)
    (hr : (historyMachine heap).Reach (fun r e => KeepsHeaders r.sys e) r) : Accounted r := by
  obtain ⟨b, hfresh⟩ := rtSystemHeapInit_spec hinit
  have hzero : heap.usedMem = 0 ∧ heap.maxMem = 0 := by
    unfold rtSystemHeapInit at hinit
    simp only [Option.ite_none_right_eq_some, Option.some.injEq] at hinit
    obtain ⟨-, rfl⟩ := hinit
    exact ⟨rfl, rfl⟩
  have hfirst : Recorded heap (historyMachine heap).init := by
    refine ⟨⟨[b], hfresh.held⟩, .refl heap, ?_, List.mem_singleton_self _, ?_, ?_⟩
    · exact hzero.1.trans (hfresh.held.usedTotal_of_empty rfl).symm
    · exact List.mem_singleton.mpr (hzero.2.trans hzero.1.symm)
    · intro v hv
      rw [List.mem_singleton.mp hv]
      exact Nat.le_of_eq (hzero.1.trans hzero.2.symm)
  have hrecorded : Recorded heap r := by
    rcases Nat.lt_or_ge heap.memSizeAligned 12 with htiny | hmin
    · exact (hr.invariant (P := fun r => Recorded heap r ∧ r.sys = ⟨heap, []⟩) ⟨hfirst, rfl⟩
        fun r e t h _ hstep => h.1.step_tiny hfresh htiny h.2 hstep).1
    · exact hr.invariant (P := Recorded heap) hfirst fun r e t h hok hstep => h.step hmin hok hstep
  obtain ⟨⟨blocks, hs⟩, -, hused, -, hhad, hgreatest⟩ := hrecorded
  exact ⟨hused, hhad, hgreatest, fun hempty => hused.trans (hs.usedTotal_of_empty hempty)⟩

/-- Three blocks of 24, 24 and 32 bytes; the second is moved to a block of 64 bytes, and all is
freed. -/
theorem heap_accounted_moved : ∃ r : MemHistory, r.sys.live = [] ∧
    r.values = [0, 24, 48, 80, 144, 120, 96, 32, 0] ∧ r.sys.heap.maxMem = 144 ∧ Accounted r := by
  obtain ⟨r, hr, hlive, hvalues, hmax⟩ := (historyMachine smallHeap).exists_reach_of_run
    (fun r e => KeepsHeaders r.sys e)
    [.malloc 12, .malloc 9, .calloc 4 5, .realloc (some 0x1024) 52, .free (some 0x100C),
      .realloc (some 0x105C) 0, .free (some 0x103C)]
    (fun r => r.sys.live = [] ∧ r.values = [0, 24, 48, 80, 144, 120, 96, 32, 0] ∧
      r.sys.heap.maxMem = 144) (by decide +kernel)
  exact ⟨r, hlive, hvalues, hmax, heap_accounted smallHeap_init hr⟩

/-- A call of `rt_calloc` for one object of 0xFFFFFFFE bytes clears the header of a block in use,
and `rt_free` takes the difference of two headers off that is none: nothing is handed out, and 48
bytes are counted. -/
theorem heap_accounted_cleared :
    rtSystemHeapInit (fun _ => 0) (0x1000 : BitVec 32).toNat (0x10E0 : BitVec 32).toNat =
      some smallHeap ∧
      ∃ r, (historyMachine smallHeap).Reach Machine.any r ∧ r.sys.live = [] ∧
        r.sys.heap.usedMem = 48 ∧ ¬Accounted r := by
  obtain ⟨r, hr, hlive, hused⟩ := (historyMachine smallHeap).exists_reach_of_run Machine.any
    [.malloc 12, .malloc 12, .free (some 0x100C), .calloc 1 0xFFFFFFFE, .free (some 0x1024),
      .free (some 0x100C)]
    (fun r => r.sys.live = [] ∧ r.sys.heap.usedMem = 48) (by decide +kernel)
  refine ⟨smallHeap_init, r, hr, hlive, hused, fun haccounted => ?_⟩
  have hnone := haccounted.empty hlive
  rw [hused] at hnone
  cases hnone

end RtVcom.Kernel
