import RtVcom.Kernel.MemOps

/-!
# Runs of the heap

The heap from `rt_system_heap_init` on, with any number of callers: every call of the four
functions with any 32-bit size, on NULL or on pointers that were handed out and not freed since,
and every byte that a caller writes into a block it holds. Beside the heap stands the list of
these pointers, each with the bytes that were asked for.

One step lemma (`moves_of_step`) says what a call does to the blocks, and a run lemma
(`moves_of_run`) what is left of it at the end. Three things are followed: that the used blocks
are those that were handed out, that they hold what was asked for, and that `lfree` is the lowest
free block. Each has calls that break it, and a side condition on the steps that rules them out.

A heap smaller than the least block hands nothing out (`eq_of_run_tiny`).
-/

namespace RtVcom.Kernel

open RtVcom.Lib

/-! ## The system -/

/-- The heap, and the pointers that were handed out with the bytes asked for. -/
structure MemSystem where
  heap : Heap
  live : List (Nat × Nat)

/-- A call of one of the functions, or a byte written to a block. -/
inductive MemEvent
  | malloc (size : BitVec 32)
  | calloc (count size : BitVec 32)
  | realloc (rmem : Option Nat) (newsize : BitVec 32)
  | free (rmem : Option Nat)
  | store (rmem offset : Nat) (value : BitVec 8)
deriving Repr, DecidableEq

namespace MemSystem

/-- NULL, or a pointer that was handed out and not freed. -/
def Owned (s : MemSystem) (rmem : Option Nat) : Prop := ∀ p ∈ rmem, p ∈ s.live.map Prod.fst

instance (s : MemSystem) (rmem : Option Nat) : Decidable (s.Owned rmem) :=
  inferInstanceAs (Decidable (∀ p ∈ rmem, _))

/-- What a call that was asked for `n` bytes hands out. -/
def hold (live : List (Nat × Nat)) (n : Nat) : Option Nat → List (Nat × Nat)
  | none => live
  | some p => (p, n) :: live

/-- The pointers that are left when one is freed. -/
def drop (live : List (Nat × Nat)) : Option Nat → List (Nat × Nat)
  | none => live
  | some p => live.filter fun r => r.1 ≠ p

/-- The pointers after `rt_realloc`: without a new one, the old one was freed for a size that is
aligned to 0 and is kept otherwise. -/
def move (live : List (Nat × Nat)) (rmem : Option Nat) (newsize : Nat) (nmem : Option Nat) :
    List (Nat × Nat) :=
  if nmem = none ∧ rtAlign newsize ≠ 0 then live else hold (drop live rmem) newsize nmem

/-- The bytes behind a pointer, up to the next header. -/
def capacity (s : MemSystem) (rmem : Nat) : Nat :=
  (s.heap.hdr (rmem - s.heap.heapPtr - sizeofStructMem)).next - (rmem - s.heap.heapPtr)

end MemSystem

open MemSystem in
/-- A heap in use. A call that does not return is no step. -/
def memMachine (heap : Heap) : Machine MemSystem MemEvent where
  init := ⟨heap, []⟩
  step s
    | .malloc size =>
      (rtMalloc s.heap size.toNat).map fun (heap, p) => ⟨heap, hold s.live size.toNat p⟩
    | .calloc count size =>
      (rtCalloc s.heap count.toNat size.toNat).map fun (heap, p) =>
        ⟨heap, hold s.live (count.toNat * size.toNat) p⟩
    | .realloc rmem newsize =>
      if s.Owned rmem then
        (rtRealloc s.heap rmem newsize.toNat).map fun (heap, p) =>
          ⟨heap, move s.live rmem newsize.toNat p⟩
      else none
    | .free rmem =>
      if s.Owned rmem then some ⟨rtFree s.heap rmem, drop s.live rmem⟩ else none
    | .store rmem offset value =>
      if rmem ∈ s.live.map Prod.fst ∧ offset < s.capacity rmem then
        some { s with heap := { s.heap with
          memory := s.heap.memory.fill (rmem - s.heap.heapPtr + offset) 1 value } }
      else none

/-! ## Side conditions -/

/-- The last size that `RT_ALIGN` does not wrap. -/
def alignMax : Nat := 0xFFFFFFFC

/-- No `rt_calloc` clears more than it got: its product, in 32 bits, is not one that `RT_ALIGN`
wraps to 0, or there is no block of the least size for it. -/
def KeepsHeaders (s : MemSystem) : MemEvent → Prop
  | .calloc count size =>
    count.toNat * size.toNat % 0x100000000 ≤ alignMax ∨ ¬s.heap.Room minSizeAligned
  | _ => True

instance : DecidableRel KeepsHeaders := fun s e => by
  cases e <;> unfold KeepsHeaders <;> infer_instance

/-- No request wraps and is served: the size of `rt_malloc` in `RT_ALIGN`, the product of
`rt_calloc` in itself or in `RT_ALIGN`. -/
def AsksFairly (s : MemSystem) : MemEvent → Prop
  | .malloc size => size.toNat ≤ alignMax ∨ ¬s.heap.Room minSizeAligned
  | .calloc count size =>
    count.toNat * size.toNat ≤ alignMax ∨
      ¬s.heap.Grants (count.toNat * size.toNat % 0x100000000)
  | _ => True

instance : DecidableRel AsksFairly := fun s e => by
  cases e <;> unfold AsksFairly <;> infer_instance

/-- No `rt_realloc` gives the end of a block back where `lfree` does not see it. -/
def ShrinksSeen (s : MemSystem) : MemEvent → Prop
  | .realloc (some rmem) newsize =>
    let newsize := rtAlign newsize.toNat
    newsize ≠ 0 → newsize + sizeofStructMem + minSize < s.capacity rmem →
      s.heap.ShrinkSeen (rmem - s.heap.heapPtr - sizeofStructMem) newsize
  | _ => True

instance : DecidableRel ShrinksSeen := fun s e => by
  unfold ShrinksSeen
  split <;> infer_instance

/-- The calls that keep `lfree` the lowest free block. -/
def KeepsLowest (s : MemSystem) (e : MemEvent) : Prop := KeepsHeaders s e ∧ ShrinksSeen s e

instance : DecidableRel KeepsLowest := fun s e =>
  inferInstanceAs (Decidable (KeepsHeaders s e ∧ ShrinksSeen s e))

/-! ## What a call does to the blocks -/

/-- The heap is sound, and its used blocks are those that were handed out. -/
structure Held (s : MemSystem) (blocks : List Block) : Prop where
  sound : Sound s.heap blocks
  live : ∀ p, p ∈ s.live.map Prod.fst ↔
    ∃ x ∈ starts true 0 blocks, p = s.heap.heapPtr + x.1 + sizeofStructMem
  nodup : (s.live.map Prod.fst).Nodup

/-- Every block that was handed out holds the bytes that were asked for. -/
def Roomy (s : MemSystem) (blocks : List Block) : Prop :=
  ∀ r ∈ s.live, ∃ x ∈ starts true 0 blocks,
    r.1 = s.heap.heapPtr + x.1 + sizeofStructMem ∧ r.2 + sizeofStructMem ≤ x.2

/-- What a call keeps: that the used blocks are those handed out, in any case, that `lfree` is the
lowest free block, if `low`, and that the blocks hold what was asked for, if `fair`. -/
structure Moves (s t : MemSystem) (blocks blocks' : List Block) (low fair : Prop) : Prop where
  frame : s.heap.Frame t.heap
  held : Held t blocks'
  lowest : low → s.heap.lfree = lowestFree blocks → t.heap.lfree = lowestFree blocks'
  roomy : fair → Roomy s blocks → Roomy t blocks'

section Moving

variable {s t : MemSystem} {heap : Heap} {blocks blocks' : List Block} {ptr n size : Nat}

theorem Moves.refl (hs : Held s blocks) (low fair : Prop) : Moves s s blocks blocks low fair :=
  ⟨.refl s.heap, hs, fun _ => id, fun _ => id⟩

theorem Moves.trans {u : MemSystem} {blocks'' : List Block} {low fair low' fair' : Prop}
    (hst : Moves s t blocks blocks' low fair) (htu : Moves t u blocks' blocks'' low' fair') :
    Moves s u blocks blocks'' (low ∧ low') (fair ∧ fair') :=
  ⟨hst.frame.trans htu.frame, htu.held, fun hl hs => htu.lowest hl.2 (hst.lowest hl.1 hs),
    fun hf hs => htu.roomy hf.2 (hst.roomy hf.1 hs)⟩

theorem Moves.weaken {low fair low' fair' : Prop} (h : Moves s t blocks blocks' low fair)
    (hlow : low' → low) (hfair : fair' → fair) : Moves s t blocks blocks' low' fair' :=
  ⟨h.frame, h.held, fun hl => h.lowest (hlow hl), fun hf => h.roomy (hfair hf)⟩

/-- A block is handed out. -/
theorem Allocates.moves (ha : Allocates s.heap heap blocks blocks' ptr size) (hs : Held s blocks)
    (n : Nat) :
    Moves s ⟨heap, (s.heap.heapPtr + ptr + sizeofStructMem, n) :: s.live⟩ blocks blocks' True
      (n ≤ size) := by
  obtain ⟨hsound, hframe, ⟨m, hm, hused⟩, hfresh, hlowest⟩ := ha
  have hptr := hframe.heapPtr
  refine ⟨hframe, ⟨hsound, fun p => ?_, ?_⟩, fun _ => hlowest, fun hfair hroomy r hr => ?_⟩
  · rw [List.map_cons, List.mem_cons, hs.live, hptr]
    constructor
    · rintro (rfl | ⟨x, hx, rfl⟩)
      · exact ⟨(ptr, m), (hused _).mpr (.inr rfl), rfl⟩
      · exact ⟨x, (hused _).mpr (.inl hx), rfl⟩
    · rintro ⟨x, hx, rfl⟩
      rcases (hused x).mp hx with hx | rfl
      · exact .inr ⟨x, hx, rfl⟩
      · exact .inl rfl
  · rw [List.map_cons, List.nodup_cons]
    refine ⟨fun hmem => ?_, hs.nodup⟩
    obtain ⟨⟨q, k⟩, hx, heq⟩ := (hs.live _).mp hmem
    have hq : q = ptr := by
      dsimp only at heq
      omega
    exact hfresh k (hq ▸ hx)
  · rcases List.mem_cons.mp hr with rfl | hr
    · refine ⟨(ptr, m), (hused _).mpr (.inr rfl), by rw [hptr], ?_⟩
      unfold sizeofStructMem
      dsimp only
      omega
    · obtain ⟨x, hx, hat, hroom⟩ := hroomy r hr
      exact ⟨x, (hused _).mpr (.inl hx), by rw [hptr]; exact hat, hroom⟩

/-- The pointers that are left. -/
theorem mem_drop {live : List (Nat × Nat)} {p : Nat} {r : Nat × Nat} :
    r ∈ MemSystem.drop live (some p) ↔ r ∈ live ∧ r.1 ≠ p := by
  unfold MemSystem.drop
  rw [List.mem_filter, decide_eq_true_iff]

/-- A pointer that is freed is the only one to go. -/
theorem mem_map_drop {live : List (Nat × Nat)} {p q : Nat} :
    q ∈ (MemSystem.drop live (some p)).map Prod.fst ↔ q ∈ live.map Prod.fst ∧ q ≠ p := by
  constructor
  · intro hq
    obtain ⟨r, hr, rfl⟩ := List.mem_map.mp hq
    obtain ⟨hr, hne⟩ := mem_drop.mp hr
    exact ⟨List.mem_map_of_mem hr, hne⟩
  · rintro ⟨hq, hne⟩
    obtain ⟨r, hr, rfl⟩ := List.mem_map.mp hq
    exact List.mem_map_of_mem (mem_drop.mpr ⟨hr, hne⟩)

theorem nodup_drop {live : List (Nat × Nat)} {p : Nat} (h : (live.map Prod.fst).Nodup) :
    ((MemSystem.drop live (some p)).map Prod.fst).Nodup :=
  h.sublist (List.filter_sublist.map Prod.fst)

/-- A block is freed. -/
theorem Frees.moves (hf : Frees s.heap heap blocks blocks' ptr) (hs : Held s blocks) :
    Moves s ⟨heap, MemSystem.drop s.live (some (s.heap.heapPtr + ptr + sizeofStructMem))⟩
      blocks blocks' True True := by
  obtain ⟨hsound, hframe, hused, hlowest⟩ := hf
  have hptr := hframe.heapPtr
  refine ⟨hframe, ⟨hsound, fun p => ?_, nodup_drop hs.nodup⟩, fun _ => hlowest,
    fun _ hroomy r hr => ?_⟩
  · rw [mem_map_drop, hs.live, hptr]
    constructor
    · rintro ⟨⟨x, hx, rfl⟩, hne⟩
      exact ⟨x, (hused x).mpr ⟨hx, fun heq => hne (by rw [heq])⟩, rfl⟩
    · rintro ⟨x, hx, rfl⟩
      obtain ⟨hx, hne⟩ := (hused x).mp hx
      exact ⟨⟨x, hx, rfl⟩, fun heq => hne (by omega)⟩
  · obtain ⟨hr, hne⟩ := mem_drop.mp hr
    obtain ⟨x, hx, hat, hroom⟩ := hroomy r hr
    refine ⟨x, (hused x).mpr ⟨hx, fun heq => hne ?_⟩, by rw [hptr]; exact hat, hroom⟩
    rw [hat, heq]

/-- The end of a block is given back. -/
theorem Shrinks.moves {low : Prop} (hk : Shrinks s.heap heap blocks blocks' ptr size low)
    (hs : Held s blocks) (k : Nat) :
    Moves s
      ⟨heap, (s.heap.heapPtr + ptr + sizeofStructMem, k) ::
        MemSystem.drop s.live (some (s.heap.heapPtr + ptr + sizeofStructMem))⟩
      blocks blocks' (s.heap.lfree = lowestFree blocks → low) (k ≤ size) := by
  obtain ⟨hsound, hframe, hused, hlowest⟩ := hk
  have hptr := hframe.heapPtr
  refine ⟨hframe, ⟨hsound, fun p => ?_, ?_⟩, fun hl hlow => hlowest (hl hlow),
    fun hfair hroomy r hr => ?_⟩
  · rw [List.map_cons, List.mem_cons, mem_map_drop, hs.live, hptr]
    constructor
    · rintro (rfl | ⟨⟨x, hx, rfl⟩, hne⟩)
      · exact ⟨(ptr, size + 12), (hused _).mpr (.inr rfl), rfl⟩
      · exact ⟨x, (hused x).mpr (.inl ⟨hx, fun heq => hne (by rw [heq])⟩), rfl⟩
    · rintro ⟨x, hx, rfl⟩
      rcases (hused x).mp hx with ⟨hx, hne⟩ | rfl
      · exact .inr ⟨⟨x, hx, rfl⟩, fun heq => hne (by omega)⟩
      · exact .inl rfl
  · rw [List.map_cons, List.nodup_cons]
    refine ⟨fun hmem => ?_, nodup_drop hs.nodup⟩
    exact (mem_map_drop.mp hmem).2 rfl
  · rcases List.mem_cons.mp hr with rfl | hr
    · refine ⟨(ptr, size + 12), (hused _).mpr (.inr rfl), by rw [hptr], ?_⟩
      unfold sizeofStructMem
      dsimp only
      omega
    · obtain ⟨hr, hne⟩ := mem_drop.mp hr
      obtain ⟨x, hx, hat, hroom⟩ := hroomy r hr
      refine ⟨x, (hused x).mpr (.inl ⟨hx, fun heq => hne ?_⟩), by rw [hptr]; exact hat, hroom⟩
      rw [hat, heq]

/-- The heap with another memory. -/
def Heap.withMemory (h : Heap) (m : ByteMemory) : Heap := { h with memory := m }

theorem frame_withMemory (h : Heap) (m : ByteMemory) : h.Frame (h.withMemory m) := ⟨rfl, rfl, rfl⟩

/-- The bytes of a used block are written. -/
theorem moves_write {m : ByteMemory} (hs : Held s blocks)
    (hat : (ptr, n) ∈ starts true 0 blocks)
    (hm : ∀ x, x < ptr + sizeofStructMem ∨ ptr + n ≤ x → m x = s.heap.memory x) :
    Moves s ⟨s.heap.withMemory m, s.live⟩ blocks blocks True True := by
  obtain ⟨⟨hplaced, htiles, hapart, hfree, hholds⟩, hlive, hnodup⟩ := hs
  have hframe := frame_withMemory s.heap m
  refine ⟨hframe, ⟨⟨hplaced.frame hframe, ?_, hapart, hfree, hholds⟩, hlive, hnodup⟩, fun _ => id,
    fun _ => id⟩
  obtain ⟨pre, b, post, rfl, hb, hptr, rfl⟩ := exists_of_starts hat
  rw [Nat.zero_add] at hptr
  subst hptr
  have hlarge := b.large
  unfold sizeofStructMem at hm
  refine htiles.edit_inside [b] [b] rfl rfl rfl ⟨?_, trivial⟩ fun p hp => ?_
  · rw [Heap.hdr_congr (h := s.heap) fun x hlow hhigh => hm x (.inl (by omega)), htiles.hdr]
  · rw [span_cons, span_nil] at hp
    exact Heap.hdr_congr (h := s.heap) fun x hlow hhigh => hm x (by omega)

/-- A pointer that was handed out is that of a used block. -/
theorem Held.block (hs : Held s blocks) {p : Nat} (hp : p ∈ s.live.map Prod.fst) :
    ∃ ptr n, (ptr, n) ∈ starts true 0 blocks ∧ p = s.heap.heapPtr + ptr + sizeofStructMem := by
  obtain ⟨⟨ptr, n⟩, hx, hp⟩ := (hs.live p).mp hp
  exact ⟨ptr, n, hx, hp⟩

/-- The bytes behind the pointer of a block. -/
theorem capacity_of_tiles (ht : Tiles s.heap blocks) (hat : (ptr, n) ∈ starts true 0 blocks) :
    s.capacity (s.heap.heapPtr + ptr + sizeofStructMem) = n - sizeofStructMem := by
  obtain ⟨pre, b, post, rfl, hb, hptr, rfl⟩ := exists_of_starts hat
  rw [Nat.zero_add] at hptr
  subst hptr
  have hhdr := ht.hdr
  have hsub : s.heap.heapPtr + span pre + sizeofStructMem - s.heap.heapPtr - sizeofStructMem =
      span pre := by
    omega
  unfold MemSystem.capacity
  rw [hsub, hhdr]
  dsimp only
  omega

/-- The capacity of a live pointer is its block without the header. -/
theorem Held.capacity (hs : Held s blocks) (hat : (ptr, n) ∈ starts true 0 blocks) :
    s.capacity (s.heap.heapPtr + ptr + sizeofStructMem) = n - sizeofStructMem :=
  capacity_of_tiles hs.sound.tiles hat

end Moving

/-! ## The calls -/

section Calls

variable {s : MemSystem} {blocks : List Block}

/-- A request is not smaller than what was asked for. -/
theorem le_mallocSize_of {n : Nat} (hn : n ≤ alignMax) : n ≤ mallocSize n := by
  unfold alignMax at hn
  unfold mallocSize minSizeAligned minSize rtAlign add32
  split <;> omega

/-- The sizes that `RT_ALIGN` wraps are served as the least one. -/
theorem mallocSize_wraps {n : Nat} (hn : alignMax < n) (hlt : n < 0x100000000) :
    rtAlign n = 0 ∧ mallocSize n = minSizeAligned := by
  have halign : rtAlign n = 0 := by
    unfold alignMax at hn
    unfold rtAlign add32
    omega
  refine ⟨halign, ?_⟩
  unfold mallocSize
  rw [halign]
  rfl

/-- A request that wraps is only served where there is room for the least one. -/
theorem room_of_wraps {h : Heap} {n : Nat} (hgrants : h.Grants n) (hn : alignMax < n)
    (hlt : n < 0x100000000) : h.Room minSizeAligned := by
  have hroom := hgrants.2.2
  rwa [(mallocSize_wraps hn hlt).2] at hroom

/-- `rt_malloc`, for a request of `k` bytes that is passed on as `n` of them. -/
theorem moves_rtMalloc (hs : Held s blocks) (hmin : 12 ≤ s.heap.memSizeAligned) (n k : Nat) :
    ∃ heap p blocks', rtMalloc s.heap n = some (heap, p) ∧
      Moves s ⟨heap, MemSystem.hold s.live k p⟩ blocks blocks' True
        (s.heap.Grants n → k ≤ mallocSize n) ∧
      (p = none → heap = s.heap) ∧
      ∀ q ∈ p, s.heap.Grants n ∧ ∃ ptr m, (ptr, m) ∈ starts true 0 blocks' ∧
        q = s.heap.heapPtr + ptr + sizeofStructMem ∧ mallocSize n + sizeofStructMem ≤ m ∧
        q ∉ s.live.map Prod.fst := by
  rcases rtMalloc_spec hs.sound hmin n with
    ⟨hnone, -⟩ | ⟨heap, ptr, blocks', hsome, hgrants, halloc⟩
  · exact ⟨s.heap, none, blocks, hnone, .refl hs _ _, fun _ => rfl, fun q hq => (by cases hq)⟩
  · refine ⟨heap, _, blocks', hsome, (halloc.moves hs k).weaken id (fun h => h hgrants),
      fun h => (by cases h), fun q hq => ?_⟩
    cases hq
    obtain ⟨m, hm, hused⟩ := halloc.region
    refine ⟨hgrants, ptr, m, (hused _).mpr (.inr rfl), rfl, hm, fun hmem => ?_⟩
    obtain ⟨⟨q, k⟩, hx, heq⟩ := (hs.live _).mp hmem
    have hq : q = ptr := by
      dsimp only at heq
      omega
    exact halloc.fresh k (hq ▸ hx)

theorem moves_malloc {t : MemSystem} {size : BitVec 32} {heap₀ : Heap} (hs : Held s blocks)
    (hmin : 12 ≤ s.heap.memSizeAligned)
    (hstep : (memMachine heap₀).step s (.malloc size) = some t) :
    ∃ blocks', Moves s t blocks blocks' True (AsksFairly s (.malloc size)) := by
  obtain ⟨heap, p, blocks', hmalloc, hmoves, -, -⟩ :=
    moves_rtMalloc hs hmin size.toNat size.toNat
  simp only [memMachine, hmalloc, Option.map_some, Option.some.injEq] at hstep
  subst hstep
  refine ⟨blocks', hmoves.weaken id fun hfair hgrants => ?_⟩
  by_cases hle : size.toNat ≤ alignMax
  · exact le_mallocSize_of hle
  · have hroom := room_of_wraps hgrants (Nat.lt_of_not_le hle) size.isLt
    exact absurd hroom (hfair.resolve_left hle)

/-- `rt_calloc` clears what it got from `rt_malloc`, and no more. -/
theorem moves_clear {bytes q : Nat} {heap : Heap} (hs : Held s blocks)
    (hmin : 12 ≤ s.heap.memSizeAligned) (hlt : bytes < 0x100000000)
    (hok : bytes ≤ alignMax ∨ ¬s.heap.Room minSizeAligned)
    (hmalloc : rtMalloc s.heap bytes = some (heap, some q)) (k : Nat) :
    ∃ blocks',
      Moves s ⟨heap, (q, k) :: s.live⟩ blocks blocks' True
        (s.heap.Grants bytes → k ≤ mallocSize bytes) ∧
      Moves ⟨heap, (q, k) :: s.live⟩
        ⟨heap.withMemory (heap.memory.fill (q - heap.heapPtr) bytes 0), (q, k) :: s.live⟩
        blocks' blocks' True True := by
  obtain ⟨heap', p, blocks', hsome, hmoves, -, hregion⟩ := moves_rtMalloc hs hmin bytes k
  cases hmalloc.symm.trans hsome
  obtain ⟨hgrants, ptr, m, hat, rfl, hm, -⟩ := hregion q rfl
  have hbytes : bytes ≤ mallocSize bytes := by
    rcases hok with hle | hnone
    · exact le_mallocSize_of hle
    · exact le_mallocSize_of
        (Nat.le_of_not_lt fun hgt => hnone (room_of_wraps hgrants hgt hlt))
  have hptr := hmoves.frame.heapPtr
  dsimp only at hptr
  refine ⟨blocks', hmoves, moves_write hmoves.held hat fun x hx => ByteMemory.fill_outside ?_⟩
  omega

/-- The step of `rt_calloc`, whose product may wrap. -/
theorem moves_calloc {t : MemSystem} {count size : BitVec 32} {heap₀ : Heap} (hs : Held s blocks)
    (hmin : 12 ≤ s.heap.memSizeAligned) (hok : KeepsHeaders s (.calloc count size))
    (hstep : (memMachine heap₀).step s (.calloc count size) = some t) :
    ∃ blocks', Moves s t blocks blocks' True (AsksFairly s (.calloc count size)) := by
  have hlt : count.toNat * size.toNat % 0x100000000 < 0x100000000 := Nat.mod_lt _ (by decide)
  obtain ⟨heap, p, blocks', hmalloc, hmoves, -, -⟩ :=
    moves_rtMalloc hs hmin (count.toNat * size.toNat % 0x100000000) (count.toNat * size.toNat)
  have hfair (hfair : AsksFairly s (.calloc count size))
      (hgrants : s.heap.Grants (count.toNat * size.toNat % 0x100000000)) :
      count.toNat * size.toNat ≤ mallocSize (count.toNat * size.toNat % 0x100000000) := by
    have hle : count.toNat * size.toNat ≤ alignMax :=
      hfair.resolve_right fun hnot => hnot hgrants
    rw [Nat.mod_eq_of_lt (Nat.lt_of_le_of_lt hle (by decide))]
    exact le_mallocSize_of hle
  simp only [memMachine, rtCalloc, hmalloc] at hstep
  cases p with
  | none =>
    cases hstep
    exact ⟨blocks', hmoves.weaken id hfair⟩
  | some q =>
    cases hstep
    obtain ⟨blocks'', hgot, hwrite⟩ := moves_clear hs hmin hlt hok hmalloc
      (count.toNat * size.toNat)
    exact ⟨blocks'', (hgot.trans hwrite).weaken (fun h => ⟨h, trivial⟩)
      fun h => ⟨hfair h, trivial⟩⟩

/-- `rt_free` on a pointer that was handed out. -/
theorem moves_rtFree {p : Nat} (hs : Held s blocks) (hp : p ∈ s.live.map Prod.fst) :
    ∃ blocks', Moves s ⟨rtFree s.heap (some p), MemSystem.drop s.live (some p)⟩ blocks blocks'
      True True := by
  obtain ⟨ptr, n, hat, rfl⟩ := hs.block hp
  obtain ⟨blocks', hfrees⟩ := rtFree_spec hs.sound hat
  exact ⟨blocks', hfrees.moves hs⟩

/-- A store inside a live region moves no block. -/
theorem moves_store {t : MemSystem} {p offset : Nat} {value : BitVec 8} {heap₀ : Heap}
    (hs : Held s blocks) (hstep : (memMachine heap₀).step s (.store p offset value) = some t) :
    Moves s t blocks blocks True True := by
  simp only [memMachine, Option.ite_none_right_eq_some, Option.some.injEq] at hstep
  obtain ⟨⟨hp, hoffset⟩, rfl⟩ := hstep
  obtain ⟨ptr, n, hat, rfl⟩ := hs.block hp
  rw [hs.capacity hat] at hoffset
  refine moves_write hs hat fun x hx => ByteMemory.fill_outside ?_
  omega

/-- Rounding up does not shrink, unless it wraps to 0. -/
theorem le_rtAlign {n : Nat} (hlt : n < 0x100000000) (hne : rtAlign n ≠ 0) : n ≤ rtAlign n := by
  unfold rtAlign add32 at *
  omega

theorem le_mallocSize_rtAlign {n : Nat} (hlt : n < 0x100000000) (hne : rtAlign n ≠ 0) :
    n ≤ mallocSize (rtAlign n) := by
  have hle : rtAlign n ≤ alignMax := by
    unfold rtAlign add32 alignMax
    omega
  exact Nat.le_trans (le_rtAlign hlt hne) (le_mallocSize_of hle)

/-- `rt_realloc` with a size that the heap cannot hold, or that is none. -/
theorem rtRealloc_none {h : Heap} {n : Nat} (hn : h.memSizeAligned < rtAlign n ∨ rtAlign n = 0)
    (rmem : Option Nat) :
    rtRealloc h rmem n = some (if rtAlign n = 0 then rtFree h rmem else h, none) := by
  unfold rtRealloc
  by_cases hzero : rtAlign n = 0
  · simp only [hzero, Nat.not_lt_zero, if_false, if_true]
  · simp only [if_pos (hn.resolve_right hzero), if_neg hzero]

/-- The step of `rt_realloc` without a pointer. -/
theorem moves_realloc_null {t : MemSystem} {newsize : BitVec 32} {heap₀ : Heap} (hs : Held s blocks)
    (hmin : 12 ≤ s.heap.memSizeAligned)
    (hstep : (memMachine heap₀).step s (.realloc none newsize) = some t) :
    ∃ blocks', Moves s t blocks blocks' True True := by
  have howned : s.Owned none := fun p hp => (by cases hp)
  simp only [memMachine, if_pos howned] at hstep
  by_cases hn : s.heap.memSizeAligned < rtAlign newsize.toNat ∨ rtAlign newsize.toNat = 0
  · have hsame : rtFree s.heap none = s.heap := rfl
    rw [rtRealloc_none hn, hsame, ite_self, Option.map_some] at hstep
    cases hstep
    refine ⟨blocks, ?_⟩
    have hlive : MemSystem.move s.live none newsize.toNat none = s.live := by
      unfold MemSystem.move
      split <;> rfl
    rw [hlive]
    exact .refl hs _ _
  · have hle : ¬s.heap.memSizeAligned < rtAlign newsize.toNat := fun h => hn (.inl h)
    have hne : ¬rtAlign newsize.toNat = 0 := fun h => hn (.inr h)
    obtain ⟨heap, p, blocks', hmalloc, hmoves, -, -⟩ :=
      moves_rtMalloc hs hmin (rtAlign newsize.toNat) newsize.toNat
    have hfair := le_mallocSize_rtAlign newsize.isLt hne
    simp only [rtRealloc, if_neg hle, if_neg hne, hmalloc, Option.map_some] at hstep
    cases hstep
    refine ⟨blocks', ?_⟩
    have hlive : MemSystem.move s.live none newsize.toNat p =
        MemSystem.hold s.live newsize.toNat p := by
      unfold MemSystem.move
      cases p with
      | none => split <;> rfl
      | some q => rfl
    rw [hlive]
    exact hmoves.weaken id fun _ _ => hfair

/-- The old block of `rt_realloc` is in the heap, and its size is read from the header. -/
theorem rtRealloc_held {ptr n newsize : Nat} (hs : Held s blocks)
    (hat : (ptr, n) ∈ starts true 0 blocks) (hle : ¬s.heap.memSizeAligned < rtAlign newsize)
    (hne : ¬rtAlign newsize = 0) :
    rtRealloc s.heap (some (s.heap.heapPtr + ptr + sizeofStructMem)) newsize =
      if n - 12 = rtAlign newsize then
        some (s.heap, some (s.heap.heapPtr + ptr + sizeofStructMem))
      else if rtAlign newsize + 24 < n - 12 then
        some (shrinkBlock s.heap ptr (rtAlign newsize),
          some (s.heap.heapPtr + ptr + sizeofStructMem))
      else
        match rtMalloc s.heap (rtAlign newsize) with
        | none => none
        | some (h, none) => some (h, none)
        | some (h, some nmem) =>
          let count := if n - 12 < rtAlign newsize then n - 12 else rtAlign newsize
          let rmem := s.heap.heapPtr + ptr + sizeofStructMem
          let h := h.withMemory (h.memory.copy (nmem - h.heapPtr) (rmem - h.heapPtr) count)
          some (rtFree h (some rmem), some nmem) := by
  have hdata : 12 < n := hs.sound.holds _ hat
  have hfits := hs.sound.placed.fits
  have hend := hs.sound.placed.heapEnd
  obtain ⟨pre, b, post, rfl, hb, hptr, rfl⟩ := exists_of_starts hat
  rw [Nat.zero_add] at hptr
  subst hptr
  have hend' := hs.sound.tiles.le_end
  have hhdr := hs.sound.tiles.hdr
  have hmem : s.heap.heapPtr + span pre + sizeofStructMem - sizeofStructMem - s.heap.heapPtr =
      span pre := by
    omega
  have hsize : sub32 (sub32 (span pre + b.size) (span pre)) sizeofStructMem = b.size - 12 := by
    unfold sizeofStructMem
    rw [sub32_of_le (a := span pre + b.size) (by omega) (by omega),
      sub32_of_le (by omega) (by omega)]
    omega
  have hsplit : add32 (add32 (rtAlign newsize) sizeofStructMem) minSize = rtAlign newsize + 24 := by
    unfold add32 sizeofStructMem minSize
    omega
  unfold rtRealloc
  simp only [if_neg hle, if_neg hne, hmem, hhdr, hsize, hsplit]
  rw [if_neg (by unfold sizeofStructMem; omega)]
  rfl

/-- The list of pointers where a block stays where it is. -/
theorem move_some (live : List (Nat × Nat)) (p n q : Nat) :
    MemSystem.move live (some p) n (some q) = (q, n) :: MemSystem.drop live (some p) := by
  unfold MemSystem.move
  rw [if_neg (fun h => by cases h.1)]
  rfl

/-- A block that has the size asked for already. -/
theorem moves_same {ptr n : Nat} (hs : Held s blocks) (hat : (ptr, n) ∈ starts true 0 blocks)
    (k : Nat) :
    Moves s ⟨s.heap, (s.heap.heapPtr + ptr + sizeofStructMem, k) ::
        MemSystem.drop s.live (some (s.heap.heapPtr + ptr + sizeofStructMem))⟩ blocks blocks True
      (k ≤ n - 12) := by
  have hdata : 12 < n := hs.sound.holds _ hat
  have hshrinks : Shrinks s.heap s.heap blocks blocks ptr (n - 12)
      (s.heap.lfree = lowestFree blocks) := by
    refine ⟨hs.sound, .refl _, fun x => ?_, id⟩
    rw [Nat.sub_add_cancel (Nat.le_of_lt hdata)]
    obtain ⟨p, m⟩ := x
    constructor
    · intro hx
      by_cases hp : p = ptr
      · right
        subst hp
        rw [starts_unique hat hx]
      · exact .inl ⟨hx, hp⟩
    · rintro (⟨hx, -⟩ | heq)
      · exact hx
      · rw [heq]
        exact hat
  exact (hshrinks.moves hs k).weaken (fun _ => id) id

/-- A block that is copied into a new one and freed. -/
theorem moves_expand {p q n k m ptr count : Nat} {heap : Heap} {blocks' : List Block}
    {low fair : Prop} (hp : p ∈ s.live.map Prod.fst) (hq : q ∉ s.live.map Prod.fst)
    (hmoves : Moves s ⟨heap, (q, k) :: s.live⟩ blocks blocks' low fair)
    (hat : (ptr, m) ∈ starts true 0 blocks') (hqptr : q = s.heap.heapPtr + ptr + sizeofStructMem)
    (hn : n + sizeofStructMem ≤ m) (hcount : count ≤ n) :
    ∃ blocks'', Moves s
      ⟨rtFree (heap.withMemory (heap.memory.copy (q - heap.heapPtr) (p - heap.heapPtr) count))
        (some p), (q, k) :: MemSystem.drop s.live (some p)⟩ blocks blocks'' low fair := by
  have hptr := hmoves.frame.heapPtr
  dsimp only at hptr
  have hwrite := moves_write
    (m := heap.memory.copy (q - heap.heapPtr) (p - heap.heapPtr) count) hmoves.held hat
    (fun x hx => by
      refine ByteMemory.copy_outside ?_
      omega)
  have hall := hmoves.trans hwrite
  have hp' : p ∈ ((q, k) :: s.live).map Prod.fst := List.mem_cons_of_mem _ hp
  obtain ⟨blocks'', hfree⟩ := moves_rtFree hall.held hp'
  have hdrop : MemSystem.drop ((q, k) :: s.live) (some p) =
      (q, k) :: MemSystem.drop s.live (some p) := by
    have hne : q ≠ p := fun heq => hq (heq ▸ hp)
    change List.filter (fun r : Nat × Nat => decide (r.1 ≠ p)) ((q, k) :: s.live) = _
    rw [List.filter_cons, if_pos (decide_eq_true hne)]
    rfl
  rw [hdrop] at hfree
  exact ⟨blocks'', (hall.trans hfree).weaken (fun h => ⟨⟨h, trivial⟩, trivial⟩)
    fun h => ⟨⟨h, trivial⟩, trivial⟩⟩

/-- The step of `rt_realloc` of a live pointer: in place, by a cut, or by a move. -/
theorem moves_realloc_held {t : MemSystem} {p : Nat} {newsize : BitVec 32} {heap₀ : Heap}
    (hs : Held s blocks) (hmin : 12 ≤ s.heap.memSizeAligned)
    (hstep : (memMachine heap₀).step s (.realloc (some p) newsize) = some t) :
    ∃ blocks', Moves s t blocks blocks' (ShrinksSeen s (.realloc (some p) newsize)) True := by
  simp only [memMachine, Option.ite_none_right_eq_some] at hstep
  obtain ⟨howned, hstep⟩ := hstep
  have hp : p ∈ s.live.map Prod.fst := howned p rfl
  by_cases hn : s.heap.memSizeAligned < rtAlign newsize.toNat ∨ rtAlign newsize.toNat = 0
  · rw [rtRealloc_none hn, Option.map_some] at hstep
    cases hstep
    unfold MemSystem.move
    by_cases hzero : rtAlign newsize.toNat = 0
    · rw [if_pos hzero, if_neg (fun h => h.2 hzero)]
      obtain ⟨blocks', hmoves⟩ := moves_rtFree hs hp
      exact ⟨blocks', hmoves.weaken (fun _ => trivial) id⟩
    · rw [if_neg hzero, if_pos ⟨rfl, hzero⟩]
      exact ⟨blocks, .refl hs _ _⟩
  · have hle : ¬s.heap.memSizeAligned < rtAlign newsize.toNat := fun h => hn (.inl h)
    have hne : ¬rtAlign newsize.toNat = 0 := fun h => hn (.inr h)
    have hround := le_rtAlign newsize.isLt hne
    obtain ⟨ptr, n, hat, rfl⟩ := hs.block hp
    have hcapacity := hs.capacity hat
    rw [rtRealloc_held hs hat hle hne] at hstep
    split at hstep
    · next hsame =>
      cases hstep
      dsimp only
      rw [move_some]
      exact ⟨blocks, (moves_same hs hat newsize.toNat).weaken (fun _ => trivial)
        fun _ => by omega⟩
    · split at hstep
      · next hsmall =>
        cases hstep
        dsimp only
        rw [move_some]
        have halign : rtAlign newsize.toNat % 4 = 0 := rtAlign_aligned _
        obtain ⟨blocks', hshrinks⟩ := shrinkBlock_spec hs.sound hat halign
          (Nat.pos_of_ne_zero hne) (by omega)
        refine ⟨blocks', (hshrinks.moves hs newsize.toNat).weaken (fun hseen hlow => ⟨hlow, ?_⟩)
          fun _ => hround⟩
        have hsub : s.heap.heapPtr + ptr + sizeofStructMem - s.heap.heapPtr - sizeofStructMem =
            ptr := by
          omega
        have hseen := hseen hne (by
          rw [hcapacity]
          unfold sizeofStructMem minSize
          omega)
        rwa [hsub] at hseen
      · obtain ⟨heap, q, blocks', hmalloc, hmoves, hkeep, hregion⟩ :=
          moves_rtMalloc hs hmin (rtAlign newsize.toNat) newsize.toNat
        have hfair := le_mallocSize_rtAlign newsize.isLt hne
        rw [hmalloc] at hstep
        cases q with
        | none =>
          cases hstep
          rw [hkeep rfl]
          have hlive : MemSystem.move s.live (some (s.heap.heapPtr + ptr + sizeofStructMem))
              newsize.toNat none = s.live := if_pos ⟨rfl, hne⟩
          dsimp only
          rw [hlive]
          exact ⟨blocks, .refl hs _ _⟩
        | some q =>
          cases hstep
          dsimp only
          rw [move_some]
          obtain ⟨-, ptr', m, hat', hq, hm, hfresh⟩ := hregion q rfl
          have hgot : rtAlign newsize.toNat ≤ mallocSize (rtAlign newsize.toNat) := by
            refine le_mallocSize_of ?_
            unfold rtAlign add32 alignMax
            omega
          obtain ⟨blocks'', hexpand⟩ := moves_expand hp hfresh hmoves hat' hq hm
            (show (if n - 12 < rtAlign newsize.toNat then n - 12 else rtAlign newsize.toNat) ≤ _ by
              split <;> omega)
          exact ⟨blocks'', hexpand.weaken (fun _ => trivial) fun _ _ => hfair⟩

/-- What every call does to the blocks. -/
theorem moves_of_step {t : MemSystem} {e : MemEvent} {heap₀ : Heap} (hs : Held s blocks)
    (hmin : 12 ≤ s.heap.memSizeAligned) (hok : KeepsHeaders s e)
    (hstep : (memMachine heap₀).step s e = some t) :
    ∃ blocks', Moves s t blocks blocks' (ShrinksSeen s e) (AsksFairly s e) := by
  match e with
  | .malloc size => exact moves_malloc hs hmin hstep
  | .calloc count size => exact moves_calloc hs hmin hok hstep
  | .realloc none newsize => exact moves_realloc_null hs hmin hstep
  | .realloc (some p) newsize => exact moves_realloc_held hs hmin hstep
  | .store p offset value => exact ⟨blocks, moves_store hs hstep⟩
  | .free none =>
    simp only [memMachine, Option.ite_none_right_eq_some, Option.some.injEq] at hstep
    obtain ⟨-, rfl⟩ := hstep
    exact ⟨blocks, .refl hs _ _⟩
  | .free (some p) =>
    simp only [memMachine, Option.ite_none_right_eq_some, Option.some.injEq] at hstep
    obtain ⟨howned, rfl⟩ := hstep
    exact moves_rtFree hs (howned p rfl)

/-- A request that does not wrap leaves the headers alone. -/
theorem AsksFairly.keepsHeaders {e : MemEvent} (h : AsksFairly s e) : KeepsHeaders s e := by
  match e with
  | .calloc count size =>
    have hlt : count.toNat * size.toNat % 0x100000000 < 0x100000000 := Nat.mod_lt _ (by decide)
    rcases h with hle | hnot
    · left
      rwa [Nat.mod_eq_of_lt (Nat.lt_of_le_of_lt hle (by decide))]
    · unfold KeepsHeaders
      by_cases hwrap : count.toNat * size.toNat % 0x100000000 ≤ alignMax
      · exact .inl hwrap
      · obtain ⟨hzero, hsize⟩ := mallocSize_wraps (Nat.lt_of_not_le hwrap) hlt
        refine .inr fun hroom => hnot ⟨fun hnull => hwrap ?_, ?_, ?_⟩
        · rw [hnull]
          exact Nat.zero_le _
        · rw [hzero]
          exact Nat.zero_le _
        · rwa [hsize]
  | .malloc _ | .realloc _ _ | .free _ | .store _ _ _ => trivial

end Calls

/-! ## The first block -/

section Init

variable {memory : ByteMemory} {beginAddr endAddr : BitVec 32} {heap : Heap}

/-- The heap after `rt_system_heap_init`: one free block. -/
structure Fresh (h : Heap) (b : Block) : Prop where
  sound : Sound h [b]
  free : b.used = false
  size : b.size = h.memSizeAligned + 12
  lfree : h.lfree = 0

/-- A fresh heap is one free block. -/
theorem rtSystemHeapInit_spec
    (hinit : rtSystemHeapInit memory beginAddr.toNat endAddr.toNat = some heap) :
    ∃ b, Fresh heap b := by
  have hbegin := beginAddr.isLt
  have hend := endAddr.isLt
  have halign : rtAlign beginAddr.toNat % 4 = 0 := rtAlign_aligned _
  have hdown : rtAlignDown endAddr.toNat % 4 = 0 := Nat.mul_mod_left _ 4
  have hle : rtAlignDown endAddr.toNat ≤ endAddr.toNat := Nat.div_mul_le_self _ 4
  unfold rtSystemHeapInit at hinit
  simp only [Option.ite_none_right_eq_some, Option.some.injEq] at hinit
  obtain ⟨⟨hroom, hfits⟩, rfl⟩ := hinit
  generalize rtAlign beginAddr.toNat = low at *
  generalize rtAlignDown endAddr.toNat = high at *
  unfold sizeofStructMem at *
  have hsize : high - low - 2 * 12 + 12 + 12 + low = high := by omega
  generalize hn : high - low - 2 * 12 = n at hsize ⊢
  let b : Block := ⟨n + 12, false, Nat.le_add_left 12 n, by omega⟩
  have hfirst : (HeapMem.mk heapMagic 0 (n + 12) 0).Fits :=
    HeapMem.fits_mk (by decide) (by omega) (by decide)
  have hlast : (HeapMem.mk heapMagic 1 (n + 12) (n + 12)).Fits :=
    HeapMem.fits_mk (by decide) (by omega) (by omega)
  refine ⟨b, ⟨⟨rfl, halign, ?_⟩, ⟨?_, Nat.add_zero _, ?_⟩, List.isChain_singleton b, .inl ?_, ?_⟩,
    rfl, rfl, rfl⟩
  · change low + (n + 12) + 12 < 0x100000000
    omega
  · refine ⟨?_, trivial⟩
    rw [Heap.hdr_setHdr_other (.inr (by omega)), Heap.hdr_setHdr hfirst, Nat.zero_add]
    rfl
  · exact ⟨n + 12, Heap.hdr_setHdr hlast⟩
  · exact List.mem_cons_self
  · intro x hx
    cases hx

/-- Nothing is handed out by a heap that is smaller than the least block. The search runs forever
there, or the size is refused before. -/
theorem rtMalloc_tiny {b : Block} (hf : Fresh heap b) (htiny : heap.memSizeAligned < 12) (n : Nat) :
    rtMalloc heap n = none ∨ rtMalloc heap n = some (heap, none) := by
  obtain ⟨⟨hplaced, htiles, -, -, -⟩, hfree, hsize, hlfree⟩ := hf
  have hend := hplaced.heapEnd
  have hfits := hplaced.fits
  have hhdr := htiles.chain.1
  rw [hfree, hsize, Nat.zero_add] at hhdr
  obtain ⟨prev, hendHdr⟩ := htiles.endHdr
  have hsearch (fuel p : Nat) (hp : p = 0 ∨ p = heap.heapEnd) :
      mallocSearch heap (mallocSize n) fuel p = none ∨
        mallocSearch heap (mallocSize n) fuel p = some none := by
    have hmin := le_mallocSize n
    induction fuel generalizing p with
    | zero => exact .inl rfl
    | succ fuel ih =>
      rw [mallocSearch]
      split
      · rcases hp with rfl | rfl
        · have hdata : sub32 (heap.memSizeAligned + 12) (add32 0 sizeofStructMem) =
              heap.memSizeAligned := by
            unfold sub32 add32 sizeofStructMem
            omega
          simp only [hhdr, hdata]
          rw [if_neg (by omega)]
          exact ih _ (.inr (by omega))
        · simp only [hendHdr]
          rw [if_neg (fun h => absurd h.1 Nat.one_ne_zero)]
          exact ih _ (.inr rfl)
      · exact .inr rfl
  unfold rtMalloc
  split
  · exact .inr rfl
  split
  · exact .inr rfl
  unfold mallocSize at hsearch
  rw [hlfree]
  rcases hsearch heap.fuel 0 (.inl rfl) with hnone | hnone
  · left
    simp only [hnone, Option.bind_none]
  · right
    simp only [hnone, Option.bind_some]

/-- Such a heap stays as it is. -/
theorem step_tiny {b : Block} {heap₀ : Heap} {e : MemEvent} {t : MemSystem} (hf : Fresh heap b)
    (htiny : heap.memSizeAligned < 12) (hstep : (memMachine heap₀).step ⟨heap, []⟩ e = some t) :
    t = ⟨heap, []⟩ := by
  have hnull (rmem : Option Nat) (h : MemSystem.Owned ⟨heap, []⟩ rmem) : rmem = none := by
    cases rmem with
    | none => rfl
    | some p => exact absurd (h p rfl) List.not_mem_nil
  have hmove (n : Nat) : MemSystem.move [] none n none = [] := by
    unfold MemSystem.move
    split <;> rfl
  match e with
  | .malloc size =>
    rcases rtMalloc_tiny hf htiny size.toNat with hm | hm <;>
      simp only [memMachine, hm, Option.map_none, Option.map_some] at hstep <;> cases hstep
    rfl
  | .calloc count size =>
    rcases rtMalloc_tiny hf htiny (count.toNat * size.toNat % 0x100000000) with hm | hm <;>
      simp only [memMachine, rtCalloc, hm, Option.map_none, Option.map_some] at hstep <;>
      cases hstep
    rfl
  | .realloc rmem newsize =>
    simp only [memMachine, Option.ite_none_right_eq_some] at hstep
    obtain ⟨howned, hstep⟩ := hstep
    rw [hnull rmem howned] at hstep
    by_cases hn : heap.memSizeAligned < rtAlign newsize.toNat ∨ rtAlign newsize.toNat = 0
    · have hsame : rtFree heap none = heap := rfl
      rw [rtRealloc_none hn, hsame, ite_self] at hstep
      cases hstep
      dsimp only
      rw [hmove]
    · have hle : ¬heap.memSizeAligned < rtAlign newsize.toNat := fun h => hn (.inl h)
      have hne : ¬rtAlign newsize.toNat = 0 := fun h => hn (.inr h)
      rcases rtMalloc_tiny hf htiny (rtAlign newsize.toNat) with hm | hm <;>
        simp only [rtRealloc, if_neg hle, if_neg hne, hm, Option.map_none, Option.map_some]
          at hstep <;>
        cases hstep
      rw [hmove]
  | .free rmem =>
    simp only [memMachine, Option.ite_none_right_eq_some, Option.some.injEq] at hstep
    obtain ⟨howned, rfl⟩ := hstep
    rw [hnull rmem howned]
    rfl
  | .store p offset value =>
    simp only [memMachine, Option.ite_none_right_eq_some] at hstep
    exact absurd hstep.1.1 List.not_mem_nil

end Init

/-! ## Runs -/

section Runs

variable {heap : Heap} {b : Block} {ok : MemSystem → MemEvent → Prop} {s : MemSystem}

theorem Fresh.held (hf : Fresh heap b) : Held ⟨heap, []⟩ [b] := by
  refine ⟨hf.sound, fun p => ⟨fun hp => absurd hp List.not_mem_nil, ?_⟩, List.nodup_nil⟩
  rintro ⟨x, hx, -⟩
  rw [starts, hf.free] at hx
  cases hx

/-- What a run keeps, if each of its steps does. -/
theorem moves_of_run {low fair : Prop} (hf : Fresh heap b) (hmin : 12 ≤ heap.memSizeAligned)
    (hkeeps : ∀ s e, ok s e → KeepsHeaders s e) (hlow : low → ∀ s e, ok s e → ShrinksSeen s e)
    (hfair : fair → ∀ s e, ok s e → AsksFairly s e) (hr : (memMachine heap).Reach ok s) :
    ∃ blocks, Moves ⟨heap, []⟩ s [b] blocks low fair := by
  refine hr.invariant (P := fun s => ∃ blocks, Moves ⟨heap, []⟩ s [b] blocks low fair)
    ⟨[b], .refl hf.held _ _⟩ ?_
  intro s e t hs hok hstep
  obtain ⟨blocks, hmoves⟩ := hs
  have hsize : 12 ≤ s.heap.memSizeAligned := by
    rw [hmoves.frame.memSizeAligned]
    exact hmin
  obtain ⟨blocks', hnext⟩ := moves_of_step hmoves.held hsize (hkeeps s e hok) hstep
  exact ⟨blocks', (hmoves.trans hnext).weaken (fun h => ⟨h, hlow h s e hok⟩)
    fun h => ⟨h, hfair h s e hok⟩⟩

/-- A heap that is smaller than the least block is the same in every state. -/
theorem eq_of_run_tiny (hf : Fresh heap b) (htiny : heap.memSizeAligned < 12)
    (hr : (memMachine heap).Reach ok s) : s = ⟨heap, []⟩ := by
  refine hr.invariant (P := fun s => s = ⟨heap, []⟩) rfl ?_
  intro s e t hs _ hstep
  subst hs
  exact step_tiny hf htiny hstep

end Runs

end RtVcom.Kernel
