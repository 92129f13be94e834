import RtVcom.Lib.Machine
import RtVcom.Kernel.MemHeapCalls

/-!
# Runs of a memory heap

A heap from `rt_memheap_init` on, with any number of callers: every call of the three functions
with any 32-bit size, on NULL or on pointers that were handed out and not freed since, and every
byte that a caller writes into an item it holds. Each call is one step.

One step lemma (`Kept.step`) and the run lemma (`kept_of_reach`) say that the heap stays sound as
long as no item grows over the end of its pool (`GrowsInPool`), and `memheap_structure` what that
is for the headers in memory. Sizes below 2^31 never make an item do that.
-/

namespace RtVcom.Kernel

open RtVcom.Lib

/-! ## The system -/

/-- The heap, and the pointers that were handed out and not freed since. -/
structure MemheapSystem where
  heap : MemHeap
  live : List Nat

/-- A call of one of the functions, or a byte written to an item. -/
inductive MemheapEvent
  | alloc (size : BitVec 32)
  | realloc (ptr : Option Nat) (newsize : BitVec 32)
  | free (ptr : Option Nat)
  | store (ptr offset : Nat) (value : BitVec 8)
deriving Repr, DecidableEq

namespace MemheapSystem

/-- NULL, or a pointer that was handed out and not freed. -/
def Owned (s : MemheapSystem) (ptr : Option Nat) : Prop := ∀ p ∈ ptr, p ∈ s.live

instance (s : MemheapSystem) (ptr : Option Nat) : Decidable (s.Owned ptr) :=
  inferInstanceAs (Decidable (∀ p ∈ ptr, _))

/-- The size of the item behind a pointer. -/
def sizeAt (s : MemheapSystem) (ptr : Nat) : Nat := memitemSize s.heap.memory (ptr - rtMemheapSize)

/-- The pointers after `rt_memheap_alloc`. -/
def hold (live : List Nat) : Option Nat → List Nat
  | none => live
  | some p => p :: live

/-- The pointers after `rt_memheap_free`. -/
def drop (live : List Nat) : Option Nat → List Nat
  | none => live
  | some p => live.erase p

/-- The pointers after `rt_memheap_realloc`: without a new one, the old one was freed for the size
0 and is kept otherwise. -/
def move (live : List Nat) (ptr : Option Nat) (newsize : Nat) : Option Nat → List Nat
  | none => if newsize = 0 then drop live ptr else live
  | some p => p :: drop live ptr

/-- The calls on pointers that were handed out, and the bytes of their items. -/
def Allowed (s : MemheapSystem) : MemheapEvent → Prop
  | .alloc _ => True
  | .realloc ptr _ => s.Owned ptr
  | .free ptr => s.Owned ptr
  | .store ptr offset _ => ptr ∈ s.live ∧ offset < s.sizeAt ptr

end MemheapSystem

open MemheapSystem in
/-- A heap in use. A call that does not return is no step. -/
def memheapMachine (P : Pool) (m : ByteMemory) : Machine MemheapSystem MemheapEvent where
  init := ⟨rtMemheapInit P m, []⟩
  step s
    | .alloc size =>
      (rtMemheapAlloc s.heap size.toNat).map fun (heap, p) => ⟨heap, hold s.live p⟩
    | .realloc ptr newsize =>
      if s.Owned ptr then
        (rtMemheapRealloc s.heap ptr newsize.toNat).map fun (heap, p) =>
          ⟨heap, move s.live ptr newsize.toNat p⟩
      else none
    | .free ptr =>
      if s.Owned ptr then (rtMemheapFree s.heap ptr).map fun heap => ⟨heap, drop s.live ptr⟩
      else none
    | .store ptr offset value =>
      if ptr ∈ s.live ∧ offset < s.sizeAt ptr then
        some ⟨s.heap.onMemory fun m => m.fill (ptr + offset) 1 value, s.live⟩
      else none

/-! ## Side conditions -/

/-- The sizes are below 2^31. -/
def AsksBelow (_ : MemheapSystem) : MemheapEvent → Prop
  | .alloc size => size.toNat < 0x80000000
  | .realloc _ newsize => newsize.toNat < 0x80000000
  | _ => True

instance : DecidableRel AsksBelow := fun s e => by
  cases e <;> unfold AsksBelow <;> infer_instance

/-- An item that grows in place grows to a size for which the sum in the test of the item behind
does not wrap. -/
def GrowsInPool (s : MemheapSystem) : MemheapEvent → Prop
  | .realloc (some ptr) newsize =>
    let size := memheapRequest newsize.toNat
    s.sizeAt ptr < size → s.heap.expands (ptr - rtMemheapSize) (s.sizeAt ptr) size = true →
      size + rtMemheapMinialloc < 0x100000000
  | _ => True

instance : DecidableRel GrowsInPool := fun s e => by
  unfold GrowsInPool
  split <;> infer_instance

/-- A request below the limit grows inside the pool. -/
theorem AsksBelow.growsInPool {s : MemheapSystem} {e : MemheapEvent} (h : AsksBelow s e) :
    GrowsInPool s e := by
  cases e with
  | alloc size => trivial
  | free ptr => trivial
  | store ptr offset value => trivial
  | realloc ptr newsize =>
    cases ptr with
    | none => trivial
    | some ptr =>
      intro _ _
      have hlt : newsize.toNat < 0x80000000 := h
      unfold memheapRequest rtAlign rtMemheapMinialloc
      rw [add32_of_lt (by omega)]
      split <;> omega

/-! ## What holds of every state -/

/-- The heap is sound, and its regions are those that were handed out. -/
structure MemheapSystem.Kept (P : Pool) (s : MemheapSystem) (items : List MemItem)
    (frees : List Nat) : Prop where
  sound : s.heap.Sound items frees
  pool : s.heap.pool = P
  live : s.live.Perm ((regions P.startAddr items).map Prod.fst)

section Steps

variable {P : Pool} {m : ByteMemory} {s t : MemheapSystem} {items items' : List MemItem}
  {frees frees' : List Nat} {e : MemheapEvent} {heap : MemHeap} {p : Nat} {x : Nat × Nat}

namespace MemheapSystem

/-- A pointer that was handed out is that of a region. -/
theorem Kept.region (hk : s.Kept P items frees) (hp : p ∈ s.live) :
    (p, s.sizeAt p) ∈ regions P.startAddr items := by
  obtain ⟨x, hx, rfl⟩ := List.mem_map.mp (hk.live.mem_iff.mp hp)
  obtain ⟨pre, c, post, rfl, hc, rfl⟩ := regions_split hx
  have hlaid := hk.sound.laid
  rw [hk.pool] at hlaid
  have hsize : s.sizeAt (P.startAddr + itemSpan pre + 24) = c.size := by
    unfold sizeAt rtMemheapSize
    rw [Nat.add_sub_cancel, memitemSize_eq hlaid]
  rw [hsize]
  exact hx

theorem Kept.pool_mem (hk : s.Kept P items frees) (hp : p ∈ s.live) :
    (p, s.sizeAt p) ∈ regions s.heap.pool.startAddr items := hk.pool.symm ▸ hk.region hp

/-- A region more, and a pointer more. -/
theorem live_cons {live : List Nat} (hlive : live.Perm ((regions P.startAddr items).map Prod.fst))
    (hperm : (regions P.startAddr items').Perm (x :: regions P.startAddr items)) :
    (x.1 :: live).Perm ((regions P.startAddr items').map Prod.fst) :=
  (hlive.cons x.1).trans (hperm.map Prod.fst).symm

/-- A region less, and a pointer less. -/
theorem live_erase {live : List Nat} {rest : List (Nat × Nat)}
    (hlive : live.Perm ((regions P.startAddr items).map Prod.fst))
    (hperm : (regions P.startAddr items).Perm (x :: rest)) :
    (live.erase x.1).Perm (rest.map Prod.fst) := by
  have herase := (hlive.trans (hperm.map Prod.fst)).erase x.1
  rwa [List.map_cons, List.erase_cons_head] at herase

theorem Kept.init : (memheapMachine P m).init.Kept P [P.whole] [P.startAddr] where
  sound := rtMemheapInit_sound P m
  pool := rtMemheapInit_pool P m
  live := by
    have hnone : regions P.startAddr [P.whole] = [] := regions_free rfl
    rw [hnone]
    exact .refl []

/-- `rt_memheap_alloc` returns, and keeps the invariant. -/
theorem Kept.alloc (hk : s.Kept P items frees) (n : Nat) :
    ∃ heap r items' frees', rtMemheapAlloc s.heap n = some (heap, r) ∧
      Kept P ⟨heap, hold s.live r⟩ items' frees' := by
  obtain ⟨heap, r, items', frees', halloc, hsound, hpool, hanswers⟩ :=
    rtMemheapAlloc_spec hk.sound n
  refine ⟨heap, r, items', frees', halloc, hsound, hpool.trans hk.pool, ?_⟩
  cases r with
  | none =>
    have hsame := hanswers.1
    rw [hk.pool] at hsame
    rw [hsame]
    exact hk.live
  | some p =>
    obtain ⟨-, k, -, hperm⟩ := hanswers
    rw [hk.pool] at hperm
    exact live_cons hk.live hperm

theorem Kept.free (hk : s.Kept P items frees) (hp : p ∈ s.live) :
    ∃ heap items' frees', rtMemheapFree s.heap (some p) = some heap ∧
      Kept P ⟨heap, s.live.erase p⟩ items' frees' := by
  obtain ⟨heap, items', frees', hfree, hsound, hpool, hperm⟩ :=
    rtMemheapFree_spec hk.sound (hk.pool_mem hp)
  rw [hk.pool] at hperm
  exact ⟨heap, items', frees', hfree, hsound, hpool.trans hk.pool, live_erase hk.live hperm⟩

/-- The invariant survives `rt_memheap_realloc` of a live pointer, where the item it wants to grow
by fits. -/
theorem Kept.realloc {n : Nat} (hk : s.Kept P items frees) (hp : p ∈ s.live) (hn : n ≠ 0)
    (hok : s.sizeAt p < memheapRequest n →
      s.heap.expands (p - 24) (s.sizeAt p) (memheapRequest n) = true →
        memheapRequest n + 12 < 0x100000000) :
    ∃ heap r items' frees', rtMemheapRealloc s.heap (some p) n = some (heap, r) ∧
      Kept P ⟨heap, move s.live (some p) n r⟩ items' frees' := by
  obtain ⟨heap, r, items', frees', hrealloc, hsound, hpool, hanswers⟩ :=
    rtMemheapRealloc_spec hk.sound (hk.pool_mem hp) hn hok
  refine ⟨heap, r, items', frees', hrealloc, hsound, hpool.trans hk.pool, ?_⟩
  cases r with
  | none =>
    have hsame := hanswers.2.2.1
    rw [hk.pool] at hsame
    rw [move, if_neg hn, hsame]
    exact hk.live
  | some q =>
    obtain ⟨-, k, rest, -, hold, hnew⟩ := hanswers
    rw [hk.pool] at hold hnew
    exact ((live_erase hk.live hold).cons q).trans (hnew.map Prod.fst).symm

theorem Kept.store {offset : Nat} (value : BitVec 8) (hk : s.Kept P items frees) (hp : p ∈ s.live)
    (hlt : offset < s.sizeAt p) :
    Kept P ⟨s.heap.onMemory fun m => m.fill (p + offset) 1 value, s.live⟩ items frees := by
  obtain ⟨pre, c, post, rfl, hc, heq⟩ := regions_split (hk.pool_mem hp)
  obtain ⟨hat, hsize⟩ := Prod.mk.inj heq
  refine ⟨hk.sound.write fun a ha => ByteMemory.fill_outside ?_, hk.pool, hk.live⟩
  omega

/-- Every call returns, and leaves the heap sound. -/
theorem Kept.step (hk : s.Kept P items frees) (hallowed : s.Allowed e) (hok : GrowsInPool s e) :
    ∃ t items' frees', (memheapMachine P m).step s e = some t ∧ t.Kept P items' frees' := by
  cases e with
  | alloc size =>
    obtain ⟨heap, r, items', frees', halloc, hkept⟩ := hk.alloc size.toNat
    exact ⟨_, items', frees', congrArg (Option.map _) halloc, hkept⟩
  | realloc ptr newsize =>
    have howned : s.Owned ptr := hallowed
    change ∃ t items' frees', (if s.Owned ptr then _ else _) = some t ∧ _
    rw [if_pos howned]
    by_cases hn : newsize.toNat = 0
    · rw [rtMemheapRealloc, if_pos hn, hn]
      cases ptr with
      | none => exact ⟨_, items, frees, rfl, hk⟩
      | some p =>
        obtain ⟨heap, items', frees', hfree, hkept⟩ := hk.free (howned p rfl)
        rw [hfree]
        exact ⟨_, items', frees', rfl, hkept⟩
    · cases ptr with
      | none =>
        obtain ⟨heap, r, items', frees', halloc, hkept⟩ := hk.alloc (memheapRequest newsize.toNat)
        rw [rtMemheapRealloc, if_neg hn]
        dsimp only
        rw [halloc]
        refine ⟨_, items', frees', rfl, ?_⟩
        cases r with
        | none =>
          dsimp only
          rw [move, if_neg hn]
          exact hkept
        | some q => exact hkept
      | some p =>
        obtain ⟨heap, r, items', frees', hrealloc, hkept⟩ := hk.realloc (howned p rfl) hn hok
        rw [hrealloc]
        exact ⟨_, items', frees', rfl, hkept⟩
  | free ptr =>
    have howned : s.Owned ptr := hallowed
    change ∃ t items' frees', (if s.Owned ptr then _ else _) = some t ∧ _
    rw [if_pos howned]
    cases ptr with
    | none => exact ⟨_, items, frees, rfl, hk⟩
    | some p =>
      obtain ⟨heap, items', frees', hfree, hkept⟩ := hk.free (howned p rfl)
      rw [hfree]
      exact ⟨_, items', frees', rfl, hkept⟩
  | store ptr offset value =>
    exact ⟨_, items, frees, if_pos hallowed, hk.store value hallowed.1 hallowed.2⟩

/-- Only such calls are steps. -/
theorem allowed_of_step (h : (memheapMachine P m).step s e = some t) : s.Allowed e := by
  have hguard {q : Prop} [Decidable q] {o : Option MemheapSystem}
      (h : (if q then o else none) = some t) : q := by
    by_cases hq : q
    · exact hq
    · rw [if_neg hq] at h
      cases h
  cases e with
  | alloc size => trivial
  | realloc ptr newsize => exact hguard (q := s.Owned ptr) h
  | free ptr => exact hguard (q := s.Owned ptr) h
  | store ptr offset value => exact hguard (q := ptr ∈ s.live ∧ offset < s.sizeAt ptr) h

end MemheapSystem

end Steps

/-! ## Runs -/

section Runs

variable {P : Pool} {m : ByteMemory} {s : MemheapSystem}

/-- The heap of every state is sound, where no item grows over the end of the pool. -/
theorem kept_of_reach (h : (memheapMachine P m).Reach GrowsInPool s) :
    ∃ items frees, s.Kept P items frees := by
  refine h.invariant (P := fun s => ∃ items frees, s.Kept P items frees) ⟨_, _, .init⟩ ?_
  rintro s e t ⟨items, frees, hk⟩ hok hstep
  obtain ⟨t', items', frees', hstep', hkept⟩ :=
    hk.step (m := m) (MemheapSystem.allowed_of_step hstep) hok
  obtain rfl := Option.some.inj (hstep.symm.trans hstep')
  exact ⟨items', frees', hkept⟩

/-- What the headers and the variables of a heap say: `items` are those that `next` leads through
from `block_list` on, `frees` those in the free list. -/
structure MemheapSystem.Structured (P : Pool) (s : MemheapSystem) (items : List MemItem)
    (frees : List Nat) : Prop where
  /-- The items, one behind the other, fill the pool up to the tail. -/
  tiles : itemSpan items + 24 = P.poolSize
  /-- `next` leads from the tail to the first item, through all of them and to the tail again, and
  `prev` back. -/
  ring : Segment ⟨getField s.heap.memory .next, getField s.heap.memory .prev⟩ P.tail
    (itemStarts P.startAddr items) P.tail
  headers : ∀ x ∈ placed P.startAddr items, memitemSize s.heap.memory x.1 = x.2.size ∧
    rtMemheapIsUsed s.heap.memory x.1 = x.2.used
  tailUsed : rtMemheapIsUsed s.heap.memory P.tail = true
  freeRing : Segment ⟨getField s.heap.memory .nextFree, getField s.heap.memory .prevFree⟩
    P.freeList frees P.freeList
  freeOnce : frees.Nodup
  freeExact : ∀ p, p ∈ frees ↔
    p ∈ itemStarts P.startAddr items ∧ rtMemheapIsUsed s.heap.memory p = false
  scattered : Scattered items
  available : s.heap.availableSize = freeBytes items
  /-- `max_used_size` is the greatest of what was in use so far. -/
  maxUsed : s.heap.usedRecord.max? = some s.heap.maxUsedSize

/-- The invariant says that the pool is structured. -/
theorem MemheapSystem.Kept.structured {items : List MemItem} {frees : List Nat}
    (hk : s.Kept P items frees) : s.Structured P items frees := by
  have hs := hk.sound
  obtain rfl := hk.pool
  have hheaders : ∀ x ∈ placed s.heap.pool.startAddr items,
      memitemSize s.heap.memory x.1 = x.2.size ∧
        rtMemheapIsUsed s.heap.memory x.1 = x.2.used := by
    intro x hx
    obtain ⟨pre, post, rfl, hat⟩ := placed_split hx
    rw [hat]
    exact ⟨memitemSize_eq hs.laid, rtMemheapIsUsed_eq hs.laid⟩
  refine ⟨hs.laid.full, hs.laid.itemRing, hheaders, rtMemheapIsUsed_tail hs.laid, hs.laid.freeRing,
    (List.nodup_cons.mp hs.laid.freeNodup).2, fun p => ?_, hs.scattered, hs.available, hs.greatest⟩
  rw [hs.freePerm.mem_iff, mem_freeStarts]
  constructor
  · rintro ⟨x, hx, rfl, hfree⟩
    exact ⟨List.mem_map_of_mem hx, (hheaders x hx).2.trans hfree⟩
  · rintro ⟨hmem, hfree⟩
    obtain ⟨x, hx, rfl⟩ := List.mem_map.mp hmem
    exact ⟨x, hx, rfl, (hheaders x hx).2.symm.trans hfree⟩

/-- After any calls on pointers that were handed out, with sizes below 2^31, the items tile the
pool, the free list is that of the free ones, of which no two lie side by side, and the two counts
are right; and the next call returns. -/
theorem memheap_structure (h : (memheapMachine P m).Reach AsksBelow s) :
    (∃ items frees, s.Structured P items frees) ∧
      ∀ e, s.Allowed e → AsksBelow s e → ∃ t, (memheapMachine P m).step s e = some t := by
  obtain ⟨items, frees, hk⟩ := kept_of_reach (h.mono fun _ _ hok => hok.growsInPool)
  refine ⟨⟨items, frees, hk.structured⟩, fun e hallowed hok => ?_⟩
  obtain ⟨t, _, _, hstep, _⟩ := hk.step (m := m) hallowed hok.growsInPool
  exact ⟨t, hstep⟩

end Runs

/-- A pool of 200 bytes from address 0x1000 on. -/
def shortPool : Pool where
  self := 0x80
  freeList := 0xc0
  startAddr := 0x1000
  size := 200
  self_lt := by decide
  freeList_fits := by decide
  fits := by decide
  outside := by decide
  large := by decide

/-- Two items are taken, and the first one is moved behind the second. -/
theorem memheap_structure_moved : ∃ (s : MemheapSystem) (items : List MemItem) (frees : List Nat),
    s.live = [0x1068, 0x1040] ∧
    s.heap.availableSize = 16 ∧ s.heap.maxUsedSize = 200 ∧ s.Structured shortPool items frees := by
  obtain ⟨s, hs, hlive, havailable, hmax⟩ := Machine.exists_reach_of_run
    (memheapMachine shortPool fun _ => 0) AsksBelow
    [.alloc 16, .alloc 16, .realloc (some 0x1018) 40]
    (fun s => s.live = [0x1068, 0x1040] ∧ s.heap.availableSize = 16 ∧ s.heap.maxUsedSize = 200)
    (by decide +kernel)
  obtain ⟨⟨items, frees, hstructured⟩, -⟩ := memheap_structure hs
  exact ⟨s, items, frees, hlive, havailable, hmax, hstructured⟩

end RtVcom.Kernel
