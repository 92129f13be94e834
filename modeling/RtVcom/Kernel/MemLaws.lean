import RtVcom.Kernel.MemRun

/-!
# The laws of the heap

What holds in every state of a heap in use. The headers tile it (`heap_tiles`), the regions that
were handed out lie apart from them and from each other (`heap_isolates`), and `lfree` is the
lowest free block (`heap_lowest`).

Each law is for the runs without the calls that break it, and such a call stands behind it. The
first two fall to sizes near the top of the 32-bit range: `RT_ALIGN` wraps them to 0 before they
are compared with the size of the heap, and `rt_calloc` multiplies before anything is compared.
The third falls to a `rt_realloc` that gives the end of a block back, and does not look at `lfree`.

A large enough free block is not always found (`heap_complete_iff`): the search stops at the last
position that a block of the size could begin at, and with an `lfree` that is not the lowest free
block it begins behind it.

The two loops of `rt_malloc` end (`heap_mallocEnds_iff`) where the heap has room for the least
block. In a smaller one the size is raised behind the test that would refuse it, and the bound of
the search wraps.
-/

namespace RtVcom.Kernel

open RtVcom.Lib

variable {heap : Heap} {s : MemSystem}

/-- A heap of 200 bytes from address 0x1000 on. -/
def smallHeap : Heap :=
  Heap.setHdr (Heap.setHdr ⟨0x1000, 212, 0, 200, 0, 0, fun _ => 0⟩ 0 ⟨heapMagic, 0, 212, 0⟩) 212
    ⟨heapMagic, 1, 212, 212⟩

/-- The small heap is what `rt_system_heap_init` makes of 224 bytes. -/
theorem smallHeap_init :
    rtSystemHeapInit (fun _ => 0) (0x1000 : BitVec 32).toNat (0x10E0 : BitVec 32).toNat =
      some smallHeap :=
  rfl

/-! ## Tiling -/

/-- The headers tile the heap, no two free blocks stand side by side, and where nothing is handed
out the heap is one free block. -/
structure WellTiled (s : MemSystem) : Prop where
  placed : s.heap.Placed
  tiles : ∃ blocks, Tiles s.heap blocks ∧ Apart blocks
  single : s.live = [] →
    ∃ b, Tiles s.heap [b] ∧ b.used = false ∧ b.data = s.heap.memSizeAligned

/-- Free blocks that stand apart are one block at most. -/
theorem single_of_free {blocks : List Block} (hapart : Apart blocks)
    (hfree : ∀ c ∈ blocks, c.used = false) (hspan : 0 < span blocks) : ∃ b, blocks = [b] := by
  match blocks with
  | [] => exact absurd hspan (Nat.lt_irrefl 0)
  | [b] => exact ⟨b, rfl⟩
  | a :: c :: rest =>
    have hused := (List.isChain_cons_cons.mp hapart).1
    rw [hfree a List.mem_cons_self, hfree c (List.mem_cons_of_mem _ List.mem_cons_self)] at hused
    exact absurd (hused.elim id id) Bool.false_ne_true

/-- The invariant says that the heap is tiled. -/
theorem Held.wellTiled {blocks : List Block} (hs : Held s blocks) : WellTiled s := by
  refine ⟨hs.sound.placed, ⟨blocks, hs.sound.tiles, hs.sound.apart⟩, fun hlive => ?_⟩
  have hend := hs.sound.placed.heapEnd
  have hfull := hs.sound.tiles.full
  have hfree : ∀ c ∈ blocks, c.used = false := by
    intro c hc
    obtain ⟨pre, post, rfl⟩ := List.append_of_mem hc
    cases hused : c.used with
    | false => rfl
    | true =>
      have hmem := (hs.live _).mpr ⟨_, mem_starts hused, rfl⟩
      rw [hlive] at hmem
      exact absurd hmem List.not_mem_nil
  obtain ⟨b, rfl⟩ := single_of_free hs.sound.apart hfree (by omega)
  refine ⟨b, hs.sound.tiles, hfree b List.mem_cons_self, ?_⟩
  rw [span_cons, span_nil] at hfull
  unfold Block.data
  omega

/-- Every state of a heap that has room for the least block, if no call of `rt_calloc` clears more
than it got. -/
theorem heap_tiles {memory : ByteMemory} {beginAddr endAddr : BitVec 32}
    (hinit : rtSystemHeapInit memory beginAddr.toNat endAddr.toNat = some heap)
    (hmin : minSizeAligned ≤ heap.memSizeAligned) (hr : (memMachine heap).Reach KeepsHeaders s) :
    heap.Frame s.heap ∧ WellTiled s := by
  obtain ⟨b, hfresh⟩ := rtSystemHeapInit_spec hinit
  have hrun : ∃ blocks, Moves ⟨heap, []⟩ s [b] blocks False False :=
    moves_of_run hfresh hmin (fun _ _ => id) False.elim False.elim hr
  obtain ⟨blocks, hmoves⟩ := hrun
  exact ⟨hmoves.frame, hmoves.held.wellTiled⟩

/-- Two blocks are handed out, one of them grows, and all is freed. -/
theorem heap_tiles_freed :
    ∃ s : MemSystem, s.live = [] ∧ smallHeap.Frame s.heap ∧ WellTiled s := by
  obtain ⟨s, hr, hlive⟩ := (memMachine smallHeap).exists_reach_of_run KeepsHeaders
    [.malloc 20, .calloc 2 5, .realloc (some 0x100C) 30, .free (some 0x102C), .free (some 0x1044)]
    (fun s => s.live = []) (by decide +kernel)
  exact ⟨s, hlive, heap_tiles smallHeap_init (by decide) hr⟩

/-- A call of `rt_calloc` for one object of 0xFFFFFFFE bytes gets the least block and clears all
memory behind it, the end of the heap with it. -/
theorem heap_tiles_cleared :
    rtSystemHeapInit (fun _ => 0) (0x1000 : BitVec 32).toNat (0x10E0 : BitVec 32).toNat =
      some smallHeap ∧ minSizeAligned ≤ smallHeap.memSizeAligned ∧
      ∃ s, (memMachine smallHeap).Reach Machine.any s ∧ ¬WellTiled s := by
  obtain ⟨s, hr, hmagic⟩ := (memMachine smallHeap).exists_reach_of_run Machine.any
    [.calloc 1 0xFFFFFFFE] (fun s => (s.heap.hdr s.heap.heapEnd).magic = 0) (by decide +kernel)
  refine ⟨smallHeap_init, by decide, s, hr, fun hwell => ?_⟩
  obtain ⟨blocks, htiles, -⟩ := hwell.tiles
  obtain ⟨prev, hend⟩ := htiles.endHdr
  rw [hend] at hmagic
  exact absurd (show heapMagic = 0 from hmagic) (by decide)

/-! ## Isolation -/

/-- The headers of the heap, the end included. -/
def Heap.headers (h : Heap) : List Nat := h.walk h.fuel 0 ++ [h.heapEnd]

/-- Every region that was handed out is aligned, lies inside the heap, and overlaps no header and
no other region. -/
structure Isolated (s : MemSystem) : Prop where
  aligned : ∀ r ∈ s.live, r.1 % 4 = 0
  inside : ∀ r ∈ s.live,
    s.heap.heapPtr ≤ r.1 ∧ r.1 + r.2 ≤ s.heap.heapPtr + s.heap.heapEnd
  headers : ∀ r ∈ s.live, ∀ q ∈ s.heap.headers,
    s.heap.heapPtr + q + sizeofStructMem ≤ r.1 ∨ r.1 + r.2 ≤ s.heap.heapPtr + q
  apart : s.live.Pairwise fun r r' => r.1 + r.2 ≤ r'.1 ∨ r'.1 + r'.2 ≤ r.1

/-- A used block and a block of any kind are the same one or do not overlap. -/
theorem starts_apart {pre post : List Block} {c : Block} {p n : Nat}
    (hp : (p, n) ∈ starts true 0 (pre ++ c :: post)) :
    p = span pre ∨ p + n ≤ span pre ∨ span pre + c.size ≤ p := by
  rw [starts_append, List.mem_append, starts, Nat.zero_add] at hp
  rcases hp with hp | hp
  · have := starts_bounds hp
    omega
  · split at hp
    · rcases List.mem_cons.mp hp with heq | hp
      · cases heq
        exact .inl rfl
      · have := starts_bounds hp
        omega
    · have := starts_bounds hp
      omega

/-- In a heap with room the live regions are apart. -/
theorem Held.isolated {blocks : List Block} (hs : Held s blocks) (hroomy : Roomy s blocks) :
    Isolated s := by
  have hplaced := hs.sound.placed
  have hptr := hplaced.aligned
  have hfull := hs.sound.tiles.full
  have hbounds {x : Nat × Nat} (hx : x ∈ starts true 0 blocks) : x.1 + x.2 ≤ s.heap.heapEnd := by
    have := starts_bounds hx
    omega
  have hother {x : Nat × Nat} (hx : x ∈ starts true 0 blocks) {pre post : List Block} {c : Block}
      (heq : blocks = pre ++ c :: post) :
      x.1 = span pre ∨ x.1 + x.2 ≤ span pre ∨ span pre + c.size ≤ x.1 := by
    subst heq
    exact starts_apart hx
  unfold Roomy sizeofStructMem at hroomy
  constructor
  · intro r hr
    obtain ⟨x, hx, hat, -⟩ := hroomy r hr
    obtain ⟨pre, c, post, -, -, hpos, -⟩ := exists_of_starts hx
    have := span_aligned pre
    omega
  · intro r hr
    obtain ⟨x, hx, hat, hroom⟩ := hroomy r hr
    have := hbounds hx
    omega
  · intro r hr q hq
    obtain ⟨x, hx, hat, hroom⟩ := hroomy r hr
    have := hbounds hx
    unfold sizeofStructMem
    rcases List.mem_append.mp hq with hq | hq
    · obtain ⟨pre, c, post, heq, rfl⟩ :=
        @exists_of_walk s.heap [] blocks _ q hs.sound.tiles hq
      rw [List.nil_append]
      have hlarge := c.large
      have := hother hx heq
      omega
    · rw [List.mem_singleton.mp hq]
      omega
  · refine (List.pairwise_map.mp hs.nodup).imp_of_mem fun hr hr' hne => ?_
    obtain ⟨x, hx, hat, hroom⟩ := hroomy _ hr
    obtain ⟨y, hy, hat', hroom'⟩ := hroomy _ hr'
    obtain ⟨pre, c, post, heq, hc, hpos, hsize⟩ := exists_of_starts hy
    have := hother hx heq
    omega

/-- Every state of any heap, if no request that wraps is served. -/
theorem heap_isolates {memory : ByteMemory} {beginAddr endAddr : BitVec 32}
    (hinit : rtSystemHeapInit memory beginAddr.toNat endAddr.toNat = some heap)
    (hr : (memMachine heap).Reach AsksFairly s) : Isolated s := by
  obtain ⟨b, hfresh⟩ := rtSystemHeapInit_spec hinit
  rcases Nat.lt_or_ge heap.memSizeAligned 12 with htiny | hmin
  · rw [eq_of_run_tiny hfresh htiny hr]
    exact hfresh.held.isolated fun r hr => absurd hr List.not_mem_nil
  · have hrun : ∃ blocks, Moves ⟨heap, []⟩ s [b] blocks False True :=
      moves_of_run hfresh hmin (fun _ _ => AsksFairly.keepsHeaders) False.elim
        (fun _ _ _ => id) hr
    obtain ⟨blocks, hmoves⟩ := hrun
    exact hmoves.held.isolated (hmoves.roomy trivial fun r hr => absurd hr List.not_mem_nil)

/-- Two blocks that lie apart. -/
theorem heap_isolates_two : ∃ s, s.live = [(0x1030, 10), (0x100C, 21)] ∧ Isolated s := by
  obtain ⟨s, hr, hlive⟩ := (memMachine smallHeap).exists_reach_of_run AsksFairly
    [.malloc 21, .calloc 2 5] (fun s => s.live = [(0x1030, 10), (0x100C, 21)]) (by decide +kernel)
  exact ⟨s, hlive, heap_isolates smallHeap_init hr⟩

/-- A call of `rt_malloc` for 0xFFFFFFFE bytes hands out a block of twelve. -/
theorem heap_isolates_wrapped :
    rtSystemHeapInit (fun _ => 0) (0x1000 : BitVec 32).toNat (0x10E0 : BitVec 32).toNat =
      some smallHeap ∧ ∃ s, (memMachine smallHeap).Reach Machine.any s ∧ ¬Isolated s := by
  obtain ⟨s, hr, hlive, hptr, hend⟩ := (memMachine smallHeap).exists_reach_of_run Machine.any
    [.malloc 0xFFFFFFFE] (fun s => s.live = [(0x100C, 0xFFFFFFFE)] ∧ s.heap.heapPtr = 0x1000 ∧
      s.heap.heapEnd = 212) (by decide +kernel)
  refine ⟨smallHeap_init, s, hr, fun hisolated => ?_⟩
  have hinside := hisolated.inside (0x100C, 0xFFFFFFFE) (by rw [hlive]; exact List.mem_cons_self)
  rw [hptr, hend] at hinside
  exact absurd hinside.2 (by decide)

/-! ## The lowest free block -/

/-- `lfree` is a free block and no free block is lower, or none is free and it is the end. -/
structure LowestFree (h : Heap) (blocks : List Block) : Prop where
  free : h.lfree ∈ (starts false 0 blocks).map Prod.fst ∨
    starts false 0 blocks = [] ∧ h.lfree = h.heapEnd
  lowest : ∀ x ∈ starts false 0 blocks, h.lfree ≤ x.1

/-- Where `lfree` is the first free block of the tiling, it is the lowest one. -/
theorem lowestFree_of_eq {h : Heap} {blocks : List Block} (ht : Tiles h blocks)
    (hlow : h.lfree = lowestFree blocks) : LowestFree h blocks := by
  have hmin : ∀ x ∈ starts false 0 blocks, h.lfree ≤ x.1 := by
    intro x hx
    obtain ⟨pre, c, post, rfl, hc, hpos, -⟩ := exists_of_starts hx
    have := lowestFree_le pre
    rw [hlow, lowestFree_append, lowestFree, hc, if_neg Bool.false_ne_true]
    split <;> omega
  refine ⟨?_, hmin⟩
  rcases lowestFree_start blocks 0 with hmem | hend
  · left
    rwa [hlow, ← Nat.zero_add (lowestFree blocks)]
  · right
    rw [hlow, hend, ht.full]
    refine ⟨List.eq_nil_iff_forall_not_mem.mpr fun x hx => ?_, rfl⟩
    have hle := hmin x hx
    have := starts_bounds hx
    omega

/-- Every state of any heap, if moreover no block is shrunk where `lfree` does not see it. -/
theorem heap_lowest {memory : ByteMemory} {beginAddr endAddr : BitVec 32}
    (hinit : rtSystemHeapInit memory beginAddr.toNat endAddr.toNat = some heap)
    (hr : (memMachine heap).Reach KeepsLowest s) :
    ∃ blocks, Tiles s.heap blocks ∧ LowestFree s.heap blocks := by
  obtain ⟨b, hfresh⟩ := rtSystemHeapInit_spec hinit
  have hlow : heap.lfree = lowestFree [b] := by
    rw [hfresh.lfree, lowestFree, hfresh.free]
    rfl
  rcases Nat.lt_or_ge heap.memSizeAligned 12 with htiny | hmin
  · rw [eq_of_run_tiny hfresh htiny hr]
    exact ⟨[b], hfresh.sound.tiles, lowestFree_of_eq hfresh.sound.tiles hlow⟩
  · have hrun : ∃ blocks, Moves ⟨heap, []⟩ s [b] blocks True False :=
      moves_of_run hfresh hmin (fun _ _ => And.left) (fun _ _ _ => And.right) False.elim hr
    obtain ⟨blocks, hmoves⟩ := hrun
    have htiles := hmoves.held.sound.tiles
    exact ⟨blocks, htiles, lowestFree_of_eq htiles (hmoves.lowest trivial hlow)⟩

/-- A block is shrunk where the next one is free and the lowest. -/
theorem heap_lowest_shrunk :
    ∃ s : MemSystem, s.heap.lfree = 16 ∧
      ∃ blocks, Tiles s.heap blocks ∧ LowestFree s.heap blocks := by
  obtain ⟨s, hr, hlfree⟩ := (memMachine smallHeap).exists_reach_of_run KeepsLowest
    [.malloc 100, .realloc (some 0x100C) 4] (fun s => s.heap.lfree = 16) (by decide +kernel)
  exact ⟨s, hlfree, heap_lowest smallHeap_init hr⟩

/-- A block is shrunk where another one is handed out behind it: `lfree` stays at 136, and the
block at 16 is free. -/
theorem heap_lowest_passed :
    rtSystemHeapInit (fun _ => 0) (0x1000 : BitVec 32).toNat (0x10E0 : BitVec 32).toNat =
      some smallHeap ∧ ∃ s, (memMachine smallHeap).Reach Machine.any s ∧
        ¬∃ blocks, Tiles s.heap blocks ∧ LowestFree s.heap blocks := by
  obtain ⟨s, hr, hlfree, hend, hnext, hused⟩ :=
    (memMachine smallHeap).exists_reach_of_run Machine.any
      [.malloc 100, .malloc 12, .realloc (some 0x100C) 4]
      (fun s => s.heap.lfree = 136 ∧ s.heap.heapEnd = 212 ∧ (s.heap.hdr 0).next = 16 ∧
        (s.heap.hdr 16).used = 0) (by decide +kernel)
  refine ⟨smallHeap_init, s, hr, ?_⟩
  rintro ⟨blocks, htiles, hlow⟩
  -- the headers at 0 and at 16 are those of the first two blocks
  have hfull := htiles.full
  match blocks, htiles with
  | [], _ => exact absurd (hfull.trans hend) (by decide)
  | [a], htiles =>
    rw [htiles.chain.1] at hnext
    rw [span_cons, span_nil] at hfull
    dsimp only at hnext
    omega
  | a :: c :: rest, htiles =>
    obtain ⟨ha, hc, -⟩ := htiles.chain
    rw [ha] at hnext
    dsimp only at hnext
    rw [hnext] at hc
    rw [hc] at hused
    have hfree : c.used = false := by
      cases hu : c.used with
      | false => rfl
      | true =>
        rw [hu] at hused
        exact absurd (show 1 = 0 from hused) (by decide)
    have hmem := @mem_starts false [a] rest c hfree
    have hle := hlow.lowest _ hmem
    rw [span_cons, span_nil] at hle
    dsimp only at hle
    omega

/-! ## Completeness -/

/-- A free block of `size` bytes, anywhere in the heap. -/
def Heap.HasFree (h : Heap) (size : Nat) : Prop :=
  ∃ p ∈ h.walk h.fuel 0, (h.hdr p).used = 0 ∧ p + sizeofStructMem + size ≤ (h.hdr p).next

instance (h : Heap) (size : Nat) : Decidable (h.HasFree size) :=
  inferInstanceAs (Decidable (∃ p ∈ _, _))

/-- `rt_malloc` answers NULL only if no free block is large enough. -/
def Heap.Complete (h : Heap) (n : Nat) : Prop :=
  h.HasFree (mallocSize n) → ∃ h' p, rtMalloc h n = some (h', some p)

/-- A size up to that of the heap is aligned without leaving the heap. -/
theorem rtAlign_le {h : Heap} {blocks : List Block} (hs : Sound h blocks) {n : Nat}
    (hn : n ≤ h.memSizeAligned) : rtAlign n ≤ h.memSizeAligned := by
  have hend := hs.placed.heapEnd
  have hfits := hs.placed.fits
  have hfull := hs.tiles.full
  have haligned := span_aligned blocks
  rw [rtAlign, add32_of_lt (by omega)]
  omega

/-- Where the heap has room for the least block, `rt_malloc` is complete for a size exactly if the
search does not miss the free blocks that are large enough. -/
theorem complete_iff {h : Heap} {blocks : List Block} (hs : Sound h blocks)
    (hmin : 12 ≤ h.memSizeAligned) {n : Nat} (hpos : 1 ≤ n) (hn : n ≤ h.memSizeAligned) :
    h.Complete n ↔ (h.HasFree (mallocSize n) → h.Room (mallocSize n)) := by
  have halign := rtAlign_le hs hn
  refine imp_congr_right fun _ => ?_
  rcases rtMalloc_spec hs hmin n with ⟨hnull, hno⟩ | ⟨h', ptr, blocks', hsome, hgrants, -⟩
  · refine iff_of_false ?_ fun hroom => hno ⟨by omega, halign, hroom⟩
    rintro ⟨h', p, hsome⟩
    rw [hnull] at hsome
    cases hsome
  · exact iff_of_true ⟨h', _, hsome⟩ hgrants.2.2

/-- A heap that is smaller than the least block has no block for any size. -/
theorem not_hasFree_tiny {h : Heap} {b : Block} (hf : Fresh h b) (htiny : h.memSizeAligned < 12)
    (n : Nat) : ¬h.HasFree (mallocSize n) := by
  rintro ⟨p, hp, -, hholds⟩
  have htiles := hf.sound.tiles
  have hend := hf.sound.placed.heapEnd
  have hsize := le_mallocSize n
  obtain ⟨zs, c, post, heq, rfl⟩ := @exists_of_walk h [] [b] _ p htiles hp
  rw [heq] at htiles
  have hle := htiles.le_end
  rw [List.nil_append, htiles.hdr] at hholds
  have hholds : span zs + sizeofStructMem + mallocSize n ≤ span zs + c.size := hholds
  unfold sizeofStructMem at hholds
  omega

/-- In every state of any heap, if no call of `rt_calloc` clears more than it got: `rt_malloc` is
complete for a size exactly if, where some free block is large enough, one begins at `lfree` or
behind it and before the last bytes of that size. -/
theorem heap_complete_iff {memory : ByteMemory} {beginAddr endAddr : BitVec 32}
    (hinit : rtSystemHeapInit memory beginAddr.toNat endAddr.toNat = some heap)
    (hr : (memMachine heap).Reach KeepsHeaders s) {n : Nat} (hpos : 1 ≤ n)
    (hn : n ≤ s.heap.memSizeAligned) :
    s.heap.Complete n ↔ (s.heap.HasFree (mallocSize n) → s.heap.Room (mallocSize n)) := by
  obtain ⟨b, hfresh⟩ := rtSystemHeapInit_spec hinit
  rcases Nat.lt_or_ge heap.memSizeAligned 12 with htiny | hmin
  · rw [eq_of_run_tiny hfresh htiny hr]
    have hnone := not_hasFree_tiny hfresh htiny n
    exact iff_of_true (fun hfree => absurd hfree hnone) fun hfree => absurd hfree hnone
  · have hrun : ∃ blocks, Moves ⟨heap, []⟩ s [b] blocks False False :=
      moves_of_run hfresh hmin (fun _ _ => id) False.elim False.elim hr
    obtain ⟨blocks, hmoves⟩ := hrun
    exact complete_iff hmoves.held.sound (by rw [hmoves.frame.memSizeAligned]; exact hmin) hpos hn

/-- The free block at 16 has 84 bytes, and `lfree` stands behind it at 136: 80 bytes are refused,
where the 64 bytes behind `lfree` would not be. -/
theorem heap_complete_iff_stale : ∃ s, (memMachine smallHeap).Reach KeepsHeaders s ∧
    ¬s.heap.Complete 80 ∧ s.heap.Complete 20 := by
  obtain ⟨s, hr, hfree, hroom, hroom', hsize⟩ :=
    (memMachine smallHeap).exists_reach_of_run KeepsHeaders
      [.malloc 100, .malloc 12, .realloc (some 0x100C) 4]
      (fun s => s.heap.HasFree (mallocSize 80) ∧ ¬s.heap.Room (mallocSize 80) ∧
        s.heap.Room (mallocSize 20) ∧ s.heap.memSizeAligned = 200) (by decide +kernel)
  refine ⟨s, hr, fun hcomplete => ?_, ?_⟩
  · exact hroom ((heap_complete_iff smallHeap_init hr (by decide) (by omega)).mp hcomplete hfree)
  · exact (heap_complete_iff smallHeap_init hr (by decide) (by omega)).mpr fun _ => hroom'

/-- A fresh heap of 200 bytes refuses a request for all of them. -/
theorem heap_complete_exactFit :
    rtSystemHeapInit (fun _ => 0) (0x1000 : BitVec 32).toNat (0x10E0 : BitVec 32).toNat =
      some smallHeap ∧ (memMachine smallHeap).Reach Machine.any ⟨smallHeap, []⟩ ∧
      smallHeap.memSizeAligned = 200 ∧ smallHeap.HasFree (mallocSize 200) ∧
      rtMalloc smallHeap 200 = some (smallHeap, none) ∧ ¬smallHeap.Complete 200 := by
  have hfree : smallHeap.HasFree (mallocSize 200) := by decide +kernel
  have hnull : rtMalloc smallHeap 200 = some (smallHeap, none) := by
    obtain ⟨b, hfresh⟩ := rtSystemHeapInit_spec smallHeap_init
    rcases rtMalloc_spec hfresh.sound (by decide) 200 with ⟨hnull, -⟩ | ⟨-, -, -, -, hgrants, -⟩
    · exact hnull
    · exact absurd hgrants.2.2 (by decide +kernel)
  refine ⟨smallHeap_init, .init, rfl, hfree, hnull, fun hcomplete => ?_⟩
  obtain ⟨h', p, hsome⟩ := hcomplete hfree
  rw [hnull] at hsome
  cases hsome

/-! ## Termination -/

/-- `handOut` and `rt_malloc` with `fuel` passes for each of the two loops. -/
def handOutWithin (fuel : Nat) (h : Heap) (ptr size : Nat) : Option (Heap × Option Nat) :=
  let h := (takeBlock h ptr size).setMagic ptr heapMagic
  let lfree := if ptr = h.lfree then nextFree h fuel h.lfree else some h.lfree
  lfree.map fun lfree => ({ h with lfree := lfree }, some (h.heapPtr + ptr + sizeofStructMem))

def rtMallocWithin (fuel : Nat) (h : Heap) (size : Nat) : Option (Heap × Option Nat) :=
  if size = 0 then some (h, none)
  else if h.memSizeAligned < rtAlign size then some (h, none)
  else
    (mallocSearch h (mallocSize size) fuel h.lfree).bind fun
      | none => some (h, none)
      | some ptr => handOutWithin fuel h ptr (mallocSize size)

/-- Both loops of `rt_malloc` come to an end. -/
def Heap.MallocEnds (h : Heap) (n : Nat) : Prop := ∃ fuel r, rtMallocWithin fuel h n = some r

/-- Taking a block leaves the size of the heap, in any heap. -/
theorem frame_takeBlock (h : Heap) (ptr size : Nat) : h.Frame (takeBlock h ptr size) := by
  unfold takeBlock
  dsimp only
  split
  · exact (((frame_splitBlock h _ _).trans (frame_setUsed _ _ _)).trans
      (frame_linkBehind _ _)).trans (frame_account _ _)
  · exact (frame_setUsed _ _ _).trans (frame_account _ _)

/-- `rt_malloc` is its loop with enough fuel. -/
theorem rtMalloc_eq_within (h : Heap) (n : Nat) : rtMalloc h n = rtMallocWithin h.fuel h n := by
  have hfuel (ptr size : Nat) :
      ((takeBlock h ptr size).setMagic ptr heapMagic).fuel = h.fuel := by
    have hframe := (frame_takeBlock h ptr size).trans (frame_setMagic _ ptr heapMagic)
    unfold Heap.fuel
    rw [hframe.memSizeAligned]
  have hhand (ptr size : Nat) : handOut h ptr size = handOutWithin h.fuel h ptr size := by
    unfold handOut handOutWithin
    dsimp only
    rw [hfuel]
  unfold rtMalloc rtMallocWithin
  simp only [hhand]
  rfl

/-- In a heap that is smaller than the least block the search comes to the end, which links to
itself, and stays there. -/
theorem mallocSearch_tiny {h : Heap} {b : Block} (hf : Fresh h b) (htiny : h.memSizeAligned < 12)
    (fuel : Nat) : mallocSearch h minSizeAligned fuel 0 = none := by
  obtain ⟨⟨hplaced, htiles, -, -, -⟩, hfree, hsize, -⟩ := hf
  have hmin : minSizeAligned = 12 := by decide
  have hend := hplaced.heapEnd
  have hfirst := htiles.chain.1
  rw [hfree, hsize, Nat.zero_add] at hfirst
  obtain ⟨prev, hlast⟩ := htiles.endHdr
  -- the bound of the search wraps
  have hbound : h.heapEnd < sub32 h.memSizeAligned 12 := by
    unfold sub32
    omega
  have hstays (fuel : Nat) : mallocSearch h 12 fuel h.heapEnd = none := by
    induction fuel with
    | zero => rfl
    | succ fuel ih =>
      rw [mallocSearch, if_pos hbound]
      simp only [hlast]
      rw [if_neg (fun hboth => absurd hboth.1 Nat.one_ne_zero), ih]
  rw [hmin]
  cases fuel with
  | zero => rfl
  | succ fuel =>
    have hdata : sub32 (h.memSizeAligned + 12) (add32 0 sizeofStructMem) = h.memSizeAligned := by
      unfold sub32 add32 sizeofStructMem
      omega
    rw [mallocSearch, if_pos (Nat.zero_lt_of_lt (Nat.lt_of_le_of_lt (Nat.zero_le _) hbound))]
    simp only [hfirst, hdata]
    rw [if_neg (fun hboth => absurd hboth.2 (by omega)), ← hend, hstays]

/-- **When `rt_malloc` ends**, in every state of any heap, if no call of `rt_calloc` clears more
than it got: unless the heap is smaller than the least block and the request is one that it passes
on to the search. -/
theorem heap_mallocEnds_iff {memory : ByteMemory} {beginAddr endAddr : BitVec 32}
    (hinit : rtSystemHeapInit memory beginAddr.toNat endAddr.toNat = some heap)
    (hr : (memMachine heap).Reach KeepsHeaders s) (size : BitVec 32) :
    s.heap.MallocEnds size.toNat ↔
      size.toNat = 0 ∨ heap.memSizeAligned < rtAlign size.toNat ∨
        minSizeAligned ≤ heap.memSizeAligned := by
  have hleast : minSizeAligned = 12 := by decide
  obtain ⟨b, hfresh⟩ := rtSystemHeapInit_spec hinit
  rw [hleast]
  rcases Nat.lt_or_ge heap.memSizeAligned 12 with htiny | hmin
  · rw [eq_of_run_tiny hfresh htiny hr]
    constructor
    · rintro ⟨fuel, r, hends⟩
      by_cases hzero : size.toNat = 0
      · exact .inl hzero
      by_cases hlarge : heap.memSizeAligned < rtAlign size.toNat
      · exact .inr (.inl hlarge)
      -- the request is raised to the least block behind the test
      have hraised : mallocSize size.toNat = minSizeAligned := if_pos (by omega)
      rw [rtMallocWithin, if_neg hzero, if_neg hlarge, hraised, hfresh.lfree,
        mallocSearch_tiny hfresh htiny fuel] at hends
      cases hends
    · rintro (hzero | hlarge | hmin)
      · exact ⟨0, _, if_pos hzero⟩
      · by_cases hzero : size.toNat = 0
        · exact ⟨0, _, if_pos hzero⟩
        · exact ⟨0, _, (if_neg hzero).trans (if_pos hlarge)⟩
      · omega
  · refine iff_of_true ?_ (.inr (.inr hmin))
    have hrun : ∃ blocks, Moves ⟨heap, []⟩ s [b] blocks False False :=
      moves_of_run hfresh hmin (fun _ _ => id) False.elim False.elim hr
    obtain ⟨blocks, hmoves⟩ := hrun
    have hmin' : 12 ≤ s.heap.memSizeAligned := by
      rw [hmoves.frame.memSizeAligned]
      exact hmin
    unfold Heap.MallocEnds
    refine ⟨s.heap.fuel, ?_⟩
    rw [← rtMalloc_eq_within]
    rcases rtMalloc_spec hmoves.held.sound hmin' size.toNat with
      ⟨hnull, -⟩ | ⟨h', ptr, blocks', hsome, -⟩
    · exact ⟨_, hnull⟩
    · exact ⟨_, hsome⟩

/-- A heap in use, and a size that wraps. -/
theorem heap_mallocEnds_iff_used : ∃ s, (memMachine smallHeap).Reach KeepsHeaders s ∧
    s.live ≠ [] ∧ s.heap.MallocEnds (0xFFFFFFFF : BitVec 32).toNat := by
  obtain ⟨s, hr, hlive⟩ := (memMachine smallHeap).exists_reach_of_run KeepsHeaders
    [.malloc 20, .malloc 12, .free (some 0x100C)] (fun s => s.live ≠ []) (by decide +kernel)
  exact ⟨s, hr, hlive, (heap_mallocEnds_iff smallHeap_init hr 0xFFFFFFFF).mpr
    (.inr (.inr (by decide)))⟩

/-- A heap of 8 bytes from address 0x1000 on. -/
def tinyHeap : Heap :=
  Heap.setHdr (Heap.setHdr ⟨0x1000, 20, 0, 8, 0, 0, fun _ => 0⟩ 0 ⟨heapMagic, 0, 20, 0⟩) 20
    ⟨heapMagic, 1, 20, 20⟩

/-- It is accepted, and a request for one byte does not come back. -/
theorem heap_malloc_endless :
    rtSystemHeapInit (fun _ => 0) (0x1000 : BitVec 32).toNat (0x1020 : BitVec 32).toNat =
      some tinyHeap ∧ (memMachine tinyHeap).Reach Machine.any ⟨tinyHeap, []⟩ ∧
      ¬tinyHeap.MallocEnds 1 := by
  have hinit : rtSystemHeapInit (fun _ => 0) (0x1000 : BitVec 32).toNat
      (0x1020 : BitVec 32).toNat = some tinyHeap := rfl
  obtain ⟨b, hfresh⟩ := rtSystemHeapInit_spec hinit
  refine ⟨hinit, .init, ?_⟩
  rintro ⟨fuel, r, hends⟩
  have hraised : mallocSize 1 = minSizeAligned := by decide
  rw [rtMallocWithin, if_neg Nat.one_ne_zero, if_neg (by decide), hraised, hfresh.lfree,
    mallocSearch_tiny hfresh (by decide) fuel] at hends
  cases hends

end RtVcom.Kernel
