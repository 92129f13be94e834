import Mathlib.Data.List.Chain
import RtVcom.Kernel.Mem

/-!
# The blocks of the heap

What the allocator's functions do to the heap, seen as a list of blocks. A `Block` is a size,
the header included, and whether it is in use; `Chain` says that the headers in the memory are
those of a list of blocks, one behind the other, and `Tiles` that the list fills the heap up to
`heap_end`.

Every function is then an edit of the list (`Tiles.edit`): a block is marked (`tiles_mark`), two
neighbours are joined (`tiles_join`), a block is split (`tiles_linkBehind`). Two free blocks never
stand side by side (`Apart`), because `plug_holes` joins a block that becomes free with its
neighbours (`merges_plugHoles`).
-/

namespace RtVcom.Kernel

open RtVcom.Lib

/-! ## Offsets -/

/-- Where a header stands behind `size` bytes of the block at `p`. -/
theorem add32_behind {p size : Nat} (h : p + size + 12 < 0x100000000) :
    add32 (add32 p sizeofStructMem) size = p + (size + 12) := by
  unfold sizeofStructMem
  rw [add32_of_lt (a := p) (by omega), add32_of_lt (by omega)]
  omega

/-- The bytes behind the header of a block of `n` bytes at `p`. -/
theorem sub32_data {p n : Nat} (h : p + n < 0x100000000) (hn : 12 ≤ n) :
    sub32 (p + n) (add32 p sizeofStructMem) = n - 12 := by
  unfold sizeofStructMem
  rw [add32_of_lt (by omega), sub32_of_le (by omega) h]
  omega

/-! ## Headers in memory -/

/-- The fields of a header that are in range. -/
structure HeapMem.Fits (x : HeapMem) : Prop where
  magic : x.magic < 0x10000
  used : x.used < 0x10000
  next : x.next < 0x100000000
  prev : x.prev < 0x100000000

theorem HeapMem.fits_mk {used next prev : Nat} (hused : used < 0x10000)
    (hnext : next < 0x100000000) (hprev : prev < 0x100000000) :
    (HeapMem.mk heapMagic used next prev).Fits :=
  ⟨(by decide : heapMagic < 0x10000), hused, hnext, hprev⟩

namespace Heap

variable {h : Heap} {p q v : Nat}

/-- What lies outside a header does not matter to it. -/
theorem hdr_congr {h' : Heap} (hmem : ∀ x, p ≤ x → x < p + 12 → h'.memory x = h.memory x) :
    h'.hdr p = h.hdr p := by
  have hload {a k : Nat} (hlow : p ≤ a) (hhigh : a + k ≤ p + 12) :
      h'.memory.load a k = h.memory.load a k :=
    ByteMemory.load_congr fun x hx hlt => hmem x (by omega) (by omega)
  unfold hdr
  rw [hload (a := p) (k := 2), hload (a := p + 2) (k := 2), hload (a := p + 4) (k := 4),
    hload (a := p + 8) (k := 4)] <;> omega

/-- A write inside one header does not matter to another one. -/
theorem hdr_store_other {a k : Nat} (hp : p ≤ a) (ha : a + k ≤ p + 12)
    (hpq : p + 12 ≤ q ∨ q + 12 ≤ p) :
    Heap.hdr { h with memory := h.memory.store a v k } q = h.hdr q :=
  hdr_congr fun x hx hlt => ByteMemory.store_outside (by omega)

theorem hdr_setMagic_other (hpq : p + 12 ≤ q ∨ q + 12 ≤ p) :
    (h.setMagic p v).hdr q = h.hdr q :=
  hdr_store_other (Nat.le_refl p) (by omega) hpq

theorem hdr_setUsed_other (hpq : p + 12 ≤ q ∨ q + 12 ≤ p) : (h.setUsed p v).hdr q = h.hdr q :=
  hdr_store_other (Nat.le_add_right p 2) (by omega) hpq

theorem hdr_setNext_other (hpq : p + 12 ≤ q ∨ q + 12 ≤ p) : (h.setNext p v).hdr q = h.hdr q :=
  hdr_store_other (Nat.le_add_right p 4) (by omega) hpq

theorem hdr_setPrev_other (hpq : p + 12 ≤ q ∨ q + 12 ≤ p) : (h.setPrev p v).hdr q = h.hdr q :=
  hdr_store_other (Nat.le_add_right p 8) (by omega) hpq

/-- The field that is written, and no other of the header. -/
theorem hdr_setMagic (hv : v < 0x10000) :
    (h.setMagic p v).hdr p = { h.hdr p with magic := v } := by
  unfold hdr setMagic
  simp only [ByteMemory.load_store_of_lt (k := 2) hv]
  rw [ByteMemory.load_store_other (by omega), ByteMemory.load_store_other (by omega),
    ByteMemory.load_store_other (by omega)]

theorem hdr_setUsed (hv : v < 0x10000) : (h.setUsed p v).hdr p = { h.hdr p with used := v } := by
  unfold hdr setUsed
  simp only [ByteMemory.load_store_of_lt (k := 2) hv]
  rw [ByteMemory.load_store_other (by omega), ByteMemory.load_store_other (by omega),
    ByteMemory.load_store_other (by omega)]

theorem hdr_setNext (hv : v < 0x100000000) :
    (h.setNext p v).hdr p = { h.hdr p with next := v } := by
  unfold hdr setNext
  simp only [ByteMemory.load_store_of_lt (k := 4) hv]
  rw [ByteMemory.load_store_other (by omega), ByteMemory.load_store_other (by omega),
    ByteMemory.load_store_other (by omega)]

theorem hdr_setPrev (hv : v < 0x100000000) :
    (h.setPrev p v).hdr p = { h.hdr p with prev := v } := by
  unfold hdr setPrev
  simp only [ByteMemory.load_store_of_lt (k := 4) hv]
  rw [ByteMemory.load_store_other (by omega), ByteMemory.load_store_other (by omega),
    ByteMemory.load_store_other (by omega)]

theorem hdr_setHdr {x : HeapMem} (hx : x.Fits) : (h.setHdr p x).hdr p = x := by
  rw [setHdr, hdr_setPrev hx.prev, hdr_setNext hx.next, hdr_setUsed hx.used, hdr_setMagic hx.magic]

theorem hdr_setHdr_other {x : HeapMem} (hpq : p + 12 ≤ q ∨ q + 12 ≤ p) :
    (h.setHdr p x).hdr q = h.hdr q := by
  rw [setHdr, hdr_setPrev_other hpq, hdr_setNext_other hpq, hdr_setUsed_other hpq,
    hdr_setMagic_other hpq]

end Heap

/-! ## Blocks -/

/-- A block of the heap: its size with the header, and whether it is in use. -/
@[ext]
structure Block where
  size : Nat
  used : Bool
  large : 12 ≤ size
  aligned : size % 4 = 0

/-- The bytes behind the header. -/
def Block.data (b : Block) : Nat := b.size - 12

/-- Two neighbours as one block; the first one's header is kept. -/
def Block.join (a b : Block) : Block where
  size := a.size + b.size
  used := a.used
  large := Nat.le_trans a.large (Nat.le_add_right _ _)
  aligned := by rw [Nat.add_mod, a.aligned, b.aligned]

/-- The same bytes, in use or not. -/
def Block.mark (b : Block) (used : Bool) : Block := { b with used := used }

/-- The bytes of a list of blocks. -/
def span : List Block → Nat
  | [] => 0
  | b :: bs => b.size + span bs

@[simp] theorem span_nil : span [] = 0 := rfl
@[simp] theorem span_cons (b : Block) (bs : List Block) : span (b :: bs) = b.size + span bs := rfl

/-- The bytes of two rows of blocks add up. -/
@[simp]
theorem span_append (xs ys : List Block) : span (xs ++ ys) = span xs + span ys := by
  induction xs with
  | nil => rw [List.nil_append, span_nil, Nat.zero_add]
  | cons b bs ih => rw [List.cons_append, span_cons, span_cons, ih, Nat.add_assoc]

theorem span_aligned (bs : List Block) : span bs % 4 = 0 := by
  induction bs with
  | nil => rfl
  | cons b bs ih => rw [span_cons, Nat.add_mod, b.aligned, ih]

/-- The headers of a list of blocks that begins at `pos`, behind a block at `prev`. -/
def Chain (h : Heap) : Nat → Nat → List Block → Prop
  | _, _, [] => True
  | prev, pos, b :: bs =>
    h.hdr pos = ⟨heapMagic, b.used.toNat, pos + b.size, prev⟩ ∧ Chain h pos (pos + b.size) bs

/-- Where the last of some blocks begins, or what stands before them. -/
def lastStart : Nat → Nat → List Block → Nat
  | prev, _, [] => prev
  | _, pos, b :: bs => lastStart pos (pos + b.size) bs

/-- The last block begins behind the others. -/
theorem lastStart_concat (prev pos : Nat) (bs : List Block) (b : Block) :
    lastStart prev pos (bs ++ [b]) = pos + span bs := by
  induction bs generalizing prev pos with
  | nil => rfl
  | cons c bs ih => rw [List.cons_append, lastStart, ih, span_cons, Nat.add_assoc]

section Chains

variable {h h' : Heap} {prev pos : Nat} {xs ys : List Block}

/-- The links of two rows, the second one linked back to the last block of the first. -/
theorem chain_append :
    Chain h prev pos (xs ++ ys) ↔
      Chain h prev pos xs ∧ Chain h (lastStart prev pos xs) (pos + span xs) ys := by
  induction xs generalizing prev pos with
  | nil => exact ⟨fun hys => ⟨trivial, hys⟩, fun hboth => hboth.2⟩
  | cons b bs ih =>
    rw [List.cons_append, Chain, Chain, ih, lastStart, span_cons, Nat.add_assoc, and_assoc]

/-- A chain depends on its own headers alone. -/
theorem Chain.congr (hc : Chain h prev pos xs)
    (hsame : ∀ p, pos ≤ p → p + 12 ≤ pos + span xs → h'.hdr p = h.hdr p) :
    Chain h' prev pos xs := by
  induction xs generalizing prev pos with
  | nil => trivial
  | cons b bs ih =>
    have hlarge := b.large
    rw [span_cons] at hsame
    refine ⟨?_, ih hc.2 fun p hlow hhigh => hsame p (by omega) (by omega)⟩
    rw [hsame pos (Nat.le_refl _) (by omega)]
    exact hc.1

end Chains

/-! ## The whole heap -/

/-- Where the heap lies. -/
structure Heap.Placed (h : Heap) : Prop where
  heapEnd : h.heapEnd = h.memSizeAligned + 12
  aligned : h.heapPtr % 4 = 0
  fits : h.heapPtr + h.heapEnd + 12 < 0x100000000

/-- The blocks fill the heap up to its end, which has a header in use that points to itself. -/
structure Tiles (h : Heap) (blocks : List Block) : Prop where
  chain : Chain h 0 0 blocks
  full : span blocks = h.heapEnd
  endHdr : ∃ prev, h.hdr h.heapEnd = ⟨heapMagic, 1, h.heapEnd, prev⟩

/-- Two functions of the heap that agree on the memory agree on what it holds. -/
theorem Tiles.of_memory {h h' : Heap} {blocks : List Block} (ht : Tiles h blocks)
    (hmem : h'.memory = h.memory) (hend : h'.heapEnd = h.heapEnd) : Tiles h' blocks := by
  have hhdr (p : Nat) : h'.hdr p = h.hdr p := Heap.hdr_congr fun x _ _ => congrFun hmem x
  refine ⟨ht.chain.congr fun p _ _ => hhdr p, ht.full.trans hend.symm, ?_⟩
  rw [hend, hhdr]
  exact ht.endHdr

section Edits

variable {h : Heap} {pre post : List Block} {b : Block}

/-- The header of one of the blocks. -/
theorem Tiles.hdr (ht : Tiles h (pre ++ b :: post)) :
    h.hdr (span pre) = ⟨heapMagic, b.used.toNat, span pre + b.size, lastStart 0 0 pre⟩ := by
  have hc := (chain_append.mp ht.chain).2.1
  rwa [Nat.zero_add] at hc

theorem Tiles.le_end (ht : Tiles h (pre ++ b :: post)) : span pre + b.size ≤ h.heapEnd := by
  have hspan := ht.full
  rw [span_append, span_cons] at hspan
  omega

/-- The header behind some of the blocks: the next one or the end. -/
theorem Tiles.hdr_behind {xs ys : List Block} (ht : Tiles h (xs ++ ys)) :
    (h.hdr (span xs)).used = (ys.head?.map fun c => c.used.toNat).getD 1 := by
  cases ys with
  | nil =>
    obtain ⟨prev, hend⟩ := ht.endHdr
    rw [List.append_nil] at ht
    rw [ht.full, hend]
    rfl
  | cons c ys =>
    rw [ht.hdr]
    rfl

/-- An edit: some neighbours are replaced by others of the same size, the block behind them is
told its new predecessor, and all other headers stay. -/
theorem Tiles.edit {h' : Heap} (mid mid' : List Block) (ht : Tiles h (pre ++ (mid ++ post)))
    (hend : h'.heapEnd = h.heapEnd) (hsize : span mid' = span mid)
    (hpre : ∀ p, p + 12 ≤ span pre → h'.hdr p = h.hdr p)
    (hmid : Chain h' (lastStart 0 0 pre) (span pre) mid')
    (hpost : ∀ p, span pre + span mid + 12 ≤ p → h'.hdr p = h.hdr p)
    (hlink : ∃ x, h'.hdr (span pre + span mid) = { h.hdr (span pre + span mid) with prev := x } ∧
      (post ≠ [] → x = lastStart (lastStart 0 0 pre) (span pre) mid')) :
    Tiles h' (pre ++ (mid' ++ post)) := by
  obtain ⟨x, hbehind, hx⟩ := hlink
  have hchain := ht.chain
  rw [chain_append, chain_append, Nat.zero_add] at hchain
  obtain ⟨hcpre, hcmid, hcpost⟩ := hchain
  have hfull := ht.full
  rw [span_append, span_append] at hfull
  constructor
  · rw [chain_append, chain_append, Nat.zero_add]
    refine ⟨hcpre.congr fun p _ hp => hpre p (by omega), hmid, ?_⟩
    rw [hsize]
    cases post with
    | nil => trivial
    | cons c cs =>
      refine ⟨?_, hcpost.2.congr fun p hp _ => hpost p ?_⟩
      · rw [hbehind, hcpost.1, hx (List.cons_ne_nil c cs)]
      · have := c.large
        omega
  · rw [span_append, span_append, hsize, hend]
    exact hfull
  · obtain ⟨prev, hendHdr⟩ := ht.endHdr
    rw [hend]
    cases post with
    | nil =>
      rw [span_nil, Nat.add_zero] at hfull
      rw [← hfull, hbehind, hfull, hendHdr]
      exact ⟨x, rfl⟩
    | cons c cs =>
      rw [span_cons] at hfull
      have := c.large
      rw [hpost _ (by omega)]
      exact ⟨prev, hendHdr⟩

/-- An edit that leaves the block behind it alone, because its predecessor begins where it did. -/
theorem Tiles.edit_inside {h' : Heap} (mid mid' : List Block)
    (ht : Tiles h (pre ++ (mid ++ post))) (hend : h'.heapEnd = h.heapEnd)
    (hsize : span mid' = span mid)
    (hlast : lastStart (lastStart 0 0 pre) (span pre) mid' =
      lastStart (lastStart 0 0 pre) (span pre) mid)
    (hmid : Chain h' (lastStart 0 0 pre) (span pre) mid')
    (hother : ∀ p, p + 12 ≤ span pre ∨ span pre + span mid ≤ p → h'.hdr p = h.hdr p) :
    Tiles h' (pre ++ (mid' ++ post)) := by
  refine ht.edit mid mid' hend hsize (fun p hp => hother p (.inl hp)) hmid
    (fun p hp => hother p (.inr (by omega)))
    ⟨(h.hdr (span pre + span mid)).prev, hother _ (.inr (Nat.le_refl _)), fun hne => ?_⟩
  cases post with
  | nil => exact absurd rfl hne
  | cons c cs =>
    have hc := (chain_append.mp (chain_append.mp ht.chain).2).2.1
    rw [Nat.zero_add] at hc
    rw [hc, hlast]

/-- A block is marked in use or not. -/
theorem tiles_mark (ht : Tiles h (pre ++ b :: post)) (used : Bool) :
    Tiles (h.setUsed (span pre) used.toNat) (pre ++ b.mark used :: post) := by
  have hlarge := b.large
  refine ht.edit_inside [b] [b.mark used] rfl rfl rfl ?_ fun p hp => ?_
  · refine ⟨?_, trivial⟩
    rw [Heap.hdr_setUsed (by cases used <;> decide), ht.hdr]
    rfl
  · rw [span_cons, span_nil] at hp
    exact Heap.hdr_setUsed_other (by omega)

/-- Writing the magic number again changes nothing. -/
theorem tiles_setMagic (ht : Tiles h (pre ++ b :: post)) :
    Tiles (h.setMagic (span pre) heapMagic) (pre ++ b :: post) := by
  have hlarge := b.large
  refine ht.edit_inside [b] [b] rfl rfl rfl ?_ fun p hp => ?_
  · refine ⟨?_, trivial⟩
    rw [Heap.hdr_setMagic (by decide), ht.hdr]
  · rw [span_cons, span_nil] at hp
    exact Heap.hdr_setMagic_other (by omega)

/-- Two neighbours become one block: the first one's `next` passes over the second, and the
block behind them, or the end, gets the first as its predecessor. -/
theorem tiles_join {a : Block} (ht : Tiles h (pre ++ a :: b :: post))
    (hfits : h.heapEnd < 0x100000000) :
    Tiles ((h.setNext (span pre) (span pre + a.size + b.size)).setPrev
      (span pre + a.size + b.size) (span pre)) (pre ++ a.join b :: post) := by
  have halarge := a.large
  have hblarge := b.large
  have hend : span pre + a.size + b.size ≤ h.heapEnd := by
    have hfull := ht.full
    rw [span_append, span_cons, span_cons] at hfull
    omega
  have hsum : span pre + span [a, b] = span pre + a.size + b.size := by
    rw [span_cons, span_cons, span_nil]
    omega
  refine ht.edit [a, b] [a.join b] rfl ?_ ?_ ?_ ?_ ?_
  · exact Nat.add_assoc _ _ _
  · intro p hp
    rw [Heap.hdr_setPrev_other (by omega), Heap.hdr_setNext_other (by omega)]
  · refine ⟨?_, trivial⟩
    rw [Heap.hdr_setPrev_other (by omega), Heap.hdr_setNext (by omega), ht.hdr]
    change HeapMem.mk heapMagic a.used.toNat (span pre + a.size + b.size) _ =
      HeapMem.mk heapMagic a.used.toNat (span pre + (a.size + b.size)) _
    rw [Nat.add_assoc]
  · intro p hp
    rw [hsum] at hp
    rw [Heap.hdr_setPrev_other (by omega), Heap.hdr_setNext_other (by omega)]
  · rw [hsum]
    refine ⟨span pre, ?_, fun _ => rfl⟩
    rw [Heap.hdr_setPrev (by omega), Heap.hdr_setNext_other (by omega)]

/-- A block is split: its header and the new one are written, and the block behind is linked. -/
theorem tiles_linkBehind {g : Heap} {front back : Block} (ht : Tiles h (pre ++ b :: post))
    (hplaced : h.Placed) (hend : g.heapEnd = h.heapEnd)
    (hmem : g.memSizeAligned = h.memSizeAligned) (hsize : front.size + back.size = b.size)
    (hfront : g.hdr (span pre) =
      ⟨heapMagic, front.used.toNat, span pre + front.size, lastStart 0 0 pre⟩)
    (hback : g.hdr (span pre + front.size) =
      ⟨heapMagic, back.used.toNat, span pre + b.size, span pre⟩)
    (hother : ∀ p, p + 12 ≤ span pre ∨ span pre + b.size ≤ p → g.hdr p = h.hdr p) :
    Tiles (linkBehind g (span pre + front.size)) (pre ++ front :: back :: post) := by
  have hflarge := front.large
  have hblarge := back.large
  have hfits := hplaced.fits
  have hle := ht.le_end
  have hstop : add32 g.memSizeAligned sizeofStructMem = h.heapEnd := by
    have hsame := hplaced.heapEnd
    unfold sizeofStructMem
    rw [hmem, add32_of_lt (by omega)]
    exact hsame.symm
  have hsum : span pre + span [b] = span pre + b.size := rfl
  have hsizes : span [front, back] = span [b] := by
    simp only [span_cons, span_nil]
    omega
  unfold linkBehind
  simp only [hback, hstop]
  -- the end of the heap is not linked back
  split
  · next hne =>
    refine ht.edit [b] [front, back] hend hsizes ?_ ?_ ?_ ?_
    · intro p hp
      rw [Heap.hdr_setPrev_other (by omega)]
      exact hother p (.inl hp)
    · refine ⟨?_, ?_, trivial⟩
      · rw [Heap.hdr_setPrev_other (by omega)]
        exact hfront
      · rw [Heap.hdr_setPrev_other (by omega), hback]
        rw [Nat.add_assoc, hsize]
    · intro p hp
      rw [hsum] at hp
      rw [Heap.hdr_setPrev_other (by omega)]
      exact hother p (.inr (by omega))
    · rw [hsum]
      refine ⟨span pre + front.size, ?_, fun _ => rfl⟩
      rw [Heap.hdr_setPrev (by omega), hother _ (.inr (Nat.le_refl _))]
  · next heq =>
    have heq : span pre + b.size = h.heapEnd := Decidable.of_not_not heq
    have hnil : post = [] := by
      cases post with
      | nil => rfl
      | cons c cs =>
        have hlarge := c.large
        have hfull := ht.full
        rw [span_append, span_cons, span_cons] at hfull
        omega
    refine ht.edit [b] [front, back] hend hsizes ?_ ?_ ?_ ?_
    · intro p hp
      exact hother p (.inl hp)
    · refine ⟨hfront, ?_, trivial⟩
      rw [hback]
      rw [Nat.add_assoc, hsize]
    · intro p hp
      rw [hsum] at hp
      exact hother p (.inr (by omega))
    · rw [hsum]
      refine ⟨_, (hother _ (.inr (Nat.le_refl _))).trans rfl, fun hne => absurd hnil hne⟩

/-- The two headers that `splitBlock` writes. -/
theorem hdr_splitBlock {size : Nat} (ht : Tiles h (pre ++ b :: post)) (hplaced : h.Placed)
    (hsize : size + 24 ≤ b.size) :
    (splitBlock h (span pre) size).hdr (span pre) =
        ⟨heapMagic, b.used.toNat, span pre + (size + 12), lastStart 0 0 pre⟩ ∧
      (splitBlock h (span pre) size).hdr (span pre + (size + 12)) =
        ⟨heapMagic, 0, span pre + b.size, span pre⟩ ∧
      ∀ p, p + 12 ≤ span pre ∨ span pre + b.size ≤ p →
        (splitBlock h (span pre) size).hdr p = h.hdr p := by
  have hfits := hplaced.fits
  have hle := ht.le_end
  have hptr := add32_behind (show span pre + size + 12 < 0x100000000 by omega)
  have hx : (HeapMem.mk heapMagic 0 (span pre + b.size) (span pre)).Fits :=
    HeapMem.fits_mk (by decide) (by omega) (by omega)
  unfold splitBlock
  simp only [hptr, ht.hdr]
  refine ⟨?_, ?_, fun p hp => ?_⟩
  · rw [Heap.hdr_setNext (by omega), Heap.hdr_setHdr_other (by omega), ht.hdr]
  · rw [Heap.hdr_setNext_other (by omega), Heap.hdr_setHdr hx]
  · rw [Heap.hdr_setNext_other (by omega), Heap.hdr_setHdr_other (by omega)]

end Edits

/-! ## Free and used blocks -/

/-- Two free blocks do not stand side by side. -/
def Apart (blocks : List Block) : Prop :=
  blocks.IsChain fun a b => a.used = true ∨ b.used = true

/-- Where the blocks with a given flag begin, and their sizes. -/
def starts (used : Bool) : Nat → List Block → List (Nat × Nat)
  | _, [] => []
  | pos, b :: bs =>
    if b.used = used then (pos, b.size) :: starts used (pos + b.size) bs
    else starts used (pos + b.size) bs

/-- Where the first free block begins, or the end of the blocks. -/
def lowestFree : List Block → Nat
  | [] => 0
  | b :: bs => if b.used then b.size + lowestFree bs else 0

/-- A free block begins here, or the blocks end here. -/
def FreeAt (blocks : List Block) (p : Nat) : Prop :=
  p ∈ (starts false 0 blocks).map Prod.fst ∨ p = span blocks

/-- The second row begins where the first one ends. -/
theorem starts_append (used : Bool) (pos : Nat) (xs ys : List Block) :
    starts used pos (xs ++ ys) = starts used pos xs ++ starts used (pos + span xs) ys := by
  induction xs generalizing pos with
  | nil => rfl
  | cons b bs ih =>
    rw [List.cons_append, starts, starts, ih, span_cons, Nat.add_assoc]
    split <;> rfl

/-- A block begins inside the blocks. -/
theorem starts_bounds {used : Bool} {pos p size : Nat} {bs : List Block}
    (h : (p, size) ∈ starts used pos bs) : pos ≤ p ∧ p + size ≤ pos + span bs ∧ 12 ≤ size := by
  induction bs generalizing pos with
  | nil => cases h
  | cons b bs ih =>
    have hlarge := b.large
    rw [span_cons]
    unfold starts at h
    split at h
    · rcases List.mem_cons.mp h with heq | h
      · cases heq
        omega
      · have := ih h
        omega
    · have := ih h
      omega

/-- A start is the start of one of the blocks. -/
theorem exists_of_starts {used : Bool} {pos p size : Nat} {bs : List Block}
    (h : (p, size) ∈ starts used pos bs) :
    ∃ pre b post, bs = pre ++ b :: post ∧ b.used = used ∧ p = pos + span pre ∧ size = b.size := by
  induction bs generalizing pos with
  | nil => cases h
  | cons b bs ih =>
    have hlater (h : (p, size) ∈ starts used (pos + b.size) bs) :
        ∃ pre c post, b :: bs = pre ++ c :: post ∧ c.used = used ∧ p = pos + span pre ∧
          size = c.size := by
      obtain ⟨pre, c, post, rfl, hc, hp, hsize⟩ := ih h
      exact ⟨b :: pre, c, post, rfl, hc, by rw [span_cons, hp, Nat.add_assoc], hsize⟩
    unfold starts at h
    split at h
    · next hb =>
      rcases List.mem_cons.mp h with heq | h
      · cases heq
        exact ⟨[], b, bs, rfl, hb, rfl, rfl⟩
      · exact hlater h
    · exact hlater h

/-- A block in the middle begins behind those in front of it. -/
theorem mem_starts {used : Bool} {pre post : List Block} {b : Block} (hb : b.used = used) :
    (span pre, b.size) ∈ starts used 0 (pre ++ b :: post) := by
  rw [starts_append, Nat.zero_add, starts, if_pos hb]
  exact List.mem_append_right _ List.mem_cons_self

/-- The lowest free block is in the first row, if that has one. -/
theorem lowestFree_append (xs ys : List Block) :
    lowestFree (xs ++ ys) =
      if xs.all Block.used then span xs + lowestFree ys else lowestFree xs := by
  induction xs with
  | nil => exact (Nat.zero_add _).symm
  | cons b bs ih =>
    rw [List.cons_append, lowestFree, lowestFree, ih, List.all_cons, span_cons]
    cases b.used with
    | false => rfl
    | true =>
      simp only [if_true, Bool.true_and]
      split <;> omega

theorem lowestFree_le (bs : List Block) : lowestFree bs ≤ span bs := by
  induction bs with
  | nil => exact Nat.le_refl 0
  | cons b bs ih =>
    rw [lowestFree, span_cons]
    split <;> omega

theorem lowestFree_lt {bs : List Block} (h : ¬bs.all Block.used) : lowestFree bs < span bs := by
  induction bs with
  | nil => exact absurd rfl h
  | cons b bs ih =>
    have hlarge := b.large
    rw [lowestFree, span_cons]
    cases hb : b.used with
    | false =>
      rw [if_neg Bool.false_ne_true]
      omega
    | true =>
      rw [List.all_cons, hb, Bool.true_and] at h
      rw [if_pos rfl]
      exact Nat.add_lt_add_left (ih h) _

/-- The first free block is one of the free blocks, or there is none. -/
theorem lowestFree_start (bs : List Block) (pos : Nat) :
    pos + lowestFree bs ∈ (starts false pos bs).map Prod.fst ∨ lowestFree bs = span bs := by
  induction bs generalizing pos with
  | nil => exact .inr rfl
  | cons b bs ih =>
    rw [lowestFree, starts, span_cons]
    cases b.used with
    | false => exact .inl List.mem_cons_self
    | true =>
      simp only [if_true, Bool.true_eq_false, if_false]
      rcases ih (pos + b.size) with hmem | hend
      · exact .inl (by rwa [← Nat.add_assoc])
      · exact .inr (by rw [hend])

/-- The first free block behind some others is free. -/
theorem freeAt_lowestFree (xs ys : List Block) : FreeAt (xs ++ ys) (span xs + lowestFree ys) := by
  rcases lowestFree_start ys (span xs) with hmem | hend
  · left
    rw [starts_append, List.map_append, Nat.zero_add]
    exact List.mem_append_right _ hmem
  · right
    rw [span_append, hend]

/-- What stands around a block that is not in use is in use. -/
theorem apart_mid {pre post : List Block} {b : Block} :
    Apart (pre ++ b :: post) ↔ Apart pre ∧ Apart post ∧
      (∀ a ∈ pre.getLast?, a.used = true ∨ b.used = true) ∧
        ∀ c ∈ post.head?, b.used = true ∨ c.used = true := by
  unfold Apart
  rw [List.isChain_append, List.isChain_cons]
  constructor
  · rintro ⟨hpre, ⟨hbehind, hpost⟩, hbefore⟩
    exact ⟨hpre, hpost, fun a ha => hbefore a ha b rfl, hbehind⟩
  · rintro ⟨hpre, hpost, hbefore, hbehind⟩
    refine ⟨hpre, ⟨hbehind, hpost⟩, fun a ha c hc => ?_⟩
    cases hc
    exact hbefore a ha

/-! ## Joining -/

/-- The variables that say where the heap lies are the same. -/
structure Heap.Frame (h h' : Heap) : Prop where
  heapPtr : h'.heapPtr = h.heapPtr
  heapEnd : h'.heapEnd = h.heapEnd
  memSizeAligned : h'.memSizeAligned = h.memSizeAligned

theorem Heap.Frame.refl (h : Heap) : h.Frame h := ⟨rfl, rfl, rfl⟩

/-- Two steps that keep the place of the heap. -/
theorem Heap.Frame.trans {h₁ h₂ h₃ : Heap} (h₁₂ : h₁.Frame h₂) (h₂₃ : h₂.Frame h₃) :
    h₁.Frame h₃ :=
  ⟨h₂₃.heapPtr.trans h₁₂.heapPtr, h₂₃.heapEnd.trans h₁₂.heapEnd,
    h₂₃.memSizeAligned.trans h₁₂.memSizeAligned⟩

theorem Heap.Placed.frame {h h' : Heap} (hp : h.Placed) (hf : h.Frame h') : h'.Placed := by
  obtain ⟨hptr, hend, hsize⟩ := hf
  refine ⟨?_, ?_, ?_⟩
  · rw [hend, hsize]
    exact hp.heapEnd
  · rw [hptr]
    exact hp.aligned
  · rw [hptr, hend]
    exact hp.fits

/-- Free blocks were joined: the used ones stay, and `lfree` follows the free ones. -/
structure Merges (h h' : Heap) (blocks blocks' : List Block) : Prop where
  tiles : Tiles h' blocks'
  frame : h.Frame h'
  used : starts true 0 blocks' = starts true 0 blocks
  freeAt : FreeAt blocks h.lfree → FreeAt blocks' h'.lfree
  lowest : h.lfree = lowestFree blocks → h'.lfree = lowestFree blocks'

theorem Merges.refl {h : Heap} {blocks : List Block} (ht : Tiles h blocks) :
    Merges h h blocks blocks :=
  ⟨ht, .refl h, rfl, id, id⟩

theorem Merges.trans {h₁ h₂ h₃ : Heap} {bs₁ bs₂ bs₃ : List Block} (h₁₂ : Merges h₁ h₂ bs₁ bs₂)
    (h₂₃ : Merges h₂ h₃ bs₂ bs₃) : Merges h₁ h₃ bs₁ bs₃ :=
  ⟨h₂₃.tiles, h₁₂.frame.trans h₂₃.frame, h₂₃.used.trans h₁₂.used,
    fun hfree => h₂₃.freeAt (h₁₂.freeAt hfree), fun hlow => h₂₃.lowest (h₁₂.lowest hlow)⟩

section Joining

variable {h : Heap} {pre post : List Block} {a b : Block}

/-- What `combine` writes, for two free neighbours. -/
theorem combine_eq (ht : Tiles h (pre ++ a :: b :: post)) :
    combine h (span pre) (span pre + a.size) =
      { (h.setNext (span pre) (span pre + a.size + b.size)).setPrev
          (span pre + a.size + b.size) (span pre) with
        lfree := if h.lfree = span pre + a.size then span pre else h.lfree } := by
  have hlarge := a.large
  have ht' : Tiles h ((pre ++ [a]) ++ b :: post) := by
    rw [List.append_assoc]
    exact ht
  have hb := ht'.hdr
  rw [span_append, span_cons, span_nil, Nat.add_zero] at hb
  unfold combine
  by_cases hl : h.lfree = span pre + a.size
  · simp only [if_pos hl]
    have hsecond : Heap.hdr { h with lfree := span pre } (span pre + a.size) =
        h.hdr (span pre + a.size) := rfl
    rw [Heap.hdr_setNext_other (by omega), hsecond, hb]
    rfl
  · simp only [if_neg hl]
    rw [Heap.hdr_setNext_other (by omega), hb]
    rfl

/-- Two free neighbours that are joined. -/
theorem merges_combine (ht : Tiles h (pre ++ a :: b :: post)) (hplaced : h.Placed)
    (ha : a.used = false) (hb : b.used = false) :
    Merges h (combine h (span pre) (span pre + a.size)) (pre ++ a :: b :: post)
      (pre ++ a.join b :: post) := by
  have hfits := hplaced.fits
  have hlarge := a.large
  have hjoin : (a.join b).used = false := ha
  have hsize : (a.join b).size = a.size + b.size := rfl
  rw [combine_eq ht]
  constructor
  · exact (tiles_join ht (by omega)).of_memory rfl rfl
  · exact ⟨rfl, rfl, rfl⟩
  · rw [starts_append, starts_append, starts, starts, starts, hjoin, ha, hb]
    simp only [Bool.false_eq_true, if_false, hsize, Nat.add_assoc]
  · -- only the start of the second block is gone
    unfold FreeAt
    rw [starts_append, starts_append, starts, starts, starts, hjoin, ha, hb, hsize]
    simp only [if_true, List.map_append, List.map_cons, List.mem_append, List.mem_cons,
      span_append, span_cons, hsize, Nat.add_assoc, Nat.zero_add]
    rintro ((hpre | hfirst | hsecond | hpost) | hend)
    · rw [if_neg ?_]
      · exact .inl (.inl hpre)
      · obtain ⟨⟨p, size⟩, hp, heq⟩ := List.mem_map.mp hpre
        have := starts_bounds hp
        change p = h.lfree at heq
        omega
    · exact .inl (.inr (.inl (by rw [if_neg (by omega)]; exact hfirst)))
    · exact .inl (.inr (.inl (by rw [if_pos hsecond])))
    · rw [if_neg ?_]
      · exact .inl (.inr (.inr hpost))
      · obtain ⟨⟨p, size⟩, hp, heq⟩ := List.mem_map.mp hpost
        have := starts_bounds hp
        have := b.large
        change p = h.lfree at heq
        omega
    · right
      have := b.large
      rw [if_neg (by omega)]
      exact hend
  · intro hlow
    have hlow' : lowestFree (pre ++ a.join b :: post) = lowestFree (pre ++ a :: b :: post) := by
      rw [lowestFree_append, lowestFree_append, lowestFree, lowestFree, hjoin, ha]
      rfl
    have hle : lowestFree (pre ++ a :: b :: post) ≤ span pre := by
      rw [lowestFree_append, lowestFree, ha]
      have := lowestFree_le pre
      split
      · exact Nat.le_refl _
      · exact this
    rw [hlow']
    change (if h.lfree = span pre + a.size then span pre else h.lfree) = _
    rw [if_neg (by omega)]
    exact hlow

/-- Joining a free block with the one behind it: none is free behind it afterwards. -/
theorem merges_plugForward (ht : Tiles h (pre ++ b :: post)) (hplaced : h.Placed)
    (hb : b.used = false) (hpost : Apart post) :
    ∃ b' post', Merges h (plugForward h (span pre)) (pre ++ b :: post) (pre ++ b' :: post') ∧
      b'.used = false ∧ Apart post' ∧ ∀ c ∈ post'.head?, c.used = true := by
  have hlarge := b.large
  have hbehind : (h.hdr (span pre + b.size)).used =
      (post.head?.map fun c => c.used.toNat).getD 1 := by
    have ht' : Tiles h ((pre ++ [b]) ++ post) := by
      rw [List.append_assoc]
      exact ht
    have hused := ht'.hdr_behind
    rwa [span_append, span_cons, span_nil, Nat.add_zero] at hused
  unfold plugForward
  simp only [ht.hdr, hbehind]
  cases post with
  | nil =>
    rw [if_neg (by simp)]
    exact ⟨b, [], .refl ht, hb, hpost, fun c hc => (by cases hc)⟩
  | cons c cs =>
    cases hc : c.used with
    | true =>
      rw [if_neg (by simp [hc])]
      refine ⟨b, c :: cs, .refl ht, hb, hpost, fun d hd => ?_⟩
      cases hd
      exact hc
    | false =>
      have hclarge := c.large
      have hend : span pre + b.size ≠ h.heapEnd := by
        have hfull := ht.full
        rw [span_append, span_cons, span_cons] at hfull
        omega
      rw [if_pos ⟨by omega, by rw [List.head?_cons, Option.map_some, hc]; rfl, hend⟩]
      unfold Apart at hpost
      rw [List.isChain_cons] at hpost
      refine ⟨b.join c, cs, merges_combine ht hplaced hb hc, hb, hpost.2, fun d hd => ?_⟩
      exact (hpost.1 d hd).resolve_left (by rw [hc]; exact Bool.false_ne_true)

/-- Where the block behind is free and `lfree` stands there, it might as well stand at the block
itself already. -/
theorem plugForward_lfree (ht : Tiles h (pre ++ a :: b :: post)) (hb : b.used = false)
    (hlfree : h.lfree = span pre + a.size) :
    plugForward h (span pre) = plugForward { h with lfree := span pre } (span pre) := by
  have hlarge := a.large
  have hblarge := b.large
  have hend : span pre + a.size ≠ h.heapEnd := by
    have hfull := ht.full
    rw [span_append, span_cons, span_cons] at hfull
    omega
  have hbhdr : Tiles h ((pre ++ [a]) ++ b :: post) := by
    rw [List.append_assoc]
    exact ht
  have hbehind := hbhdr.hdr
  rw [span_append, span_cons, span_nil, Nat.add_zero, hb] at hbehind
  have hsame (p : Nat) : Heap.hdr { h with lfree := span pre } p = h.hdr p := rfl
  unfold plugForward
  simp only [hsame, ht.hdr, hbehind]
  have hcond : span pre ≠ span pre + a.size ∧ false.toNat = 0 ∧ span pre + a.size ≠ h.heapEnd :=
    ⟨by omega, rfl, hend⟩
  rw [if_pos hcond, if_pos hcond]
  unfold combine
  rw [if_pos hlfree, if_neg (by dsimp only; omega)]

/-- Joining a free block with the one before it: no two free blocks stand side by side
afterwards. -/
theorem merges_plugBackward (ht : Tiles h (pre ++ b :: post)) (hplaced : h.Placed)
    (hb : b.used = false) (hpre : Apart pre) (hpost : Apart post)
    (hbehind : ∀ c ∈ post.head?, c.used = true) :
    ∃ blocks', Merges h (plugBackward h (span pre)) (pre ++ b :: post) blocks' ∧
      Apart blocks' := by
  have hafter : ∀ c ∈ post.head?, b.used = true ∨ c.used = true :=
    fun c hc => .inr (hbehind c hc)
  unfold plugBackward
  simp only [ht.hdr]
  cases pre using List.reverseRecOn with
  | nil =>
    rw [if_neg (fun hne => hne.1 rfl)]
    exact ⟨_, .refl ht, apart_mid.mpr ⟨hpre, hpost, fun a ha => (by cases ha), hafter⟩⟩
  | append_singleton init a =>
    have halarge := a.large
    have ht' : Tiles h (init ++ a :: b :: post) := by
      rwa [List.append_assoc] at ht
    rw [lastStart_concat, Nat.zero_add, ht'.hdr, span_append, span_cons, span_nil, Nat.add_zero,
      List.append_assoc]
    cases ha : a.used with
    | true =>
      rw [if_neg (by simp)]
      refine ⟨_, .refl ht', ?_⟩
      rw [List.singleton_append, ← List.singleton_append, ← List.append_assoc]
      refine apart_mid.mpr ⟨hpre, hpost, fun c hc => .inl ?_, hafter⟩
      rw [List.getLast?_concat] at hc
      cases hc
      exact ha
    | false =>
      rw [if_pos ⟨by omega, rfl⟩]
      refine ⟨_, merges_combine ht' hplaced ha hb, apart_mid.mpr ?_⟩
      obtain ⟨hinit, -, hbefore, -⟩ := apart_mid.mp hpre
      refine ⟨hinit, hpost, fun c hc => ?_, fun c hc => .inr (hbehind c hc)⟩
      exact .inl ((hbefore c hc).resolve_right (by rw [ha]; exact Bool.false_ne_true))

/-- `plug_holes` on a block that became free, between blocks that stand apart. -/
theorem merges_plugHoles (ht : Tiles h (pre ++ b :: post)) (hplaced : h.Placed)
    (hb : b.used = false) (hpre : Apart pre) (hpost : Apart post) :
    ∃ blocks', Merges h (plugHoles h (span pre)) (pre ++ b :: post) blocks' ∧
      Apart blocks' := by
  obtain ⟨b', post', hforward, hb', hpost', hbehind⟩ := merges_plugForward ht hplaced hb hpost
  obtain ⟨blocks', hbackward, hapart⟩ :=
    merges_plugBackward hforward.tiles (hplaced.frame hforward.frame) hb' hpre hpost' hbehind
  exact ⟨blocks', hforward.trans hbackward, hapart⟩

end Joining

end RtVcom.Kernel
