import RtVcom.Kernel.Mem

/-!
# Memory heaps

`src/memheap.c`: a pool of memory that is a row of items, each a `struct rt_memheap_item` of 24
bytes with its data behind it, up to a tail item without data that is always in use. The items are
linked in two ways: `next` and `prev` run through all of them in the order of their addresses and
around from the tail to the first one, `next_free` and `prev_free` through those that are free and
a header that lies in the `struct rt_memheap`.

The headers lie byte by byte in the memory they manage, at their addresses, and every field that a
function reads or writes is read from there or written there. Pointers and sizes have 32 bits.
The semaphore makes each critical section one step for the others; what is in use is recorded
where it is released (`rtSemRelease`). The assertions are compiled to nothing (`RT_DEBUG` is not
set).
-/

namespace RtVcom.Kernel

open RtVcom.Lib

/-! ## Items -/

/-- `RT_MEMHEAP_MAGIC` and `RT_MEMHEAP_USED`. -/
def rtMemheapMagic : Nat := 0x1ea01ea0
def rtMemheapUsed : Nat := 0x01

/-- `RT_MEMHEAP_SIZE` and `RT_MEMHEAP_MINIALLOC`. -/
def rtMemheapSize : Nat := 24
def rtMemheapMinialloc : Nat := 12

/-- The fields of `struct rt_memheap_item`, in the order they lie in. -/
inductive ItemField
  | magic
  | poolPtr
  | next
  | prev
  | nextFree
  | prevFree
deriving Repr, DecidableEq

/-- Where a field lies. -/
def ItemField.offset : ItemField → Nat
  | .magic => 0
  | .poolPtr => 4
  | .next => 8
  | .prev => 12
  | .nextFree => 16
  | .prevFree => 20

/-- A field of the item at `p`. -/
def getField (m : ByteMemory) (f : ItemField) (p : Nat) : Nat := m.load (p + f.offset) 4

/-- It is written. -/
def setField (m : ByteMemory) (f : ItemField) (p v : Nat) : ByteMemory :=
  m.store (p + f.offset) v 4

/-- `RT_MEMHEAP_IS_USED`. -/
def rtMemheapIsUsed (m : ByteMemory) (p : Nat) : Bool :=
  decide (getField m .magic p &&& rtMemheapUsed ≠ 0)

/-- `MEMITEM_SIZE`. -/
def memitemSize (m : ByteMemory) (p : Nat) : Nat :=
  sub32 (sub32 (getField m .next p) p) rtMemheapSize

/-! ## The links -/

/-- An item is taken out of the free list; its own links stay. -/
def unlinkFree (m : ByteMemory) (p : Nat) : ByteMemory :=
  let m := setField m .prevFree (getField m .nextFree p) (getField m .prevFree p)
  setField m .nextFree (getField m .prevFree p) (getField m .nextFree p)

/-- `next_free` and `prev_free` are set to NULL. -/
def clearFree (m : ByteMemory) (p : Nat) : ByteMemory :=
  setField (setField m .nextFree p 0) .prevFree p 0

/-- An item is put at the front of the free list. -/
def pushFree (freeList : Nat) (m : ByteMemory) (p : Nat) : ByteMemory :=
  let m := setField m .nextFree p (getField m .nextFree freeList)
  let m := setField m .prevFree p freeList
  let m := setField m .prevFree (getField m .nextFree freeList) p
  setField m .nextFree freeList p

/-- A new item, not in use and in no free list, is made at `q` and linked behind `p`. -/
def linkItem (self : Nat) (m : ByteMemory) (p q : Nat) : ByteMemory :=
  let m := setField m .magic q rtMemheapMagic
  let m := setField m .poolPtr q self
  let m := setField m .prev q p
  let m := setField m .next q (getField m .next p)
  let m := setField m .prev (getField m .next p) q
  setField m .next p q

/-- An item is taken out of the row; its own links stay. `rt_memheap_realloc` sets `prev` of the
item behind it first. -/
def unlinkItem (m : ByteMemory) (p : Nat) : ByteMemory :=
  let m := setField m .prev (getField m .next p) (getField m .prev p)
  setField m .next (getField m .prev p) (getField m .next p)

/-- `rt_memheap_free` sets `next` of the item in front of it first. -/
def unlinkItemNext (m : ByteMemory) (p : Nat) : ByteMemory :=
  let m := setField m .next (getField m .prev p) (getField m .next p)
  setField m .prev (getField m .next p) (getField m .prev p)

/-- The item behind `p` is passed over: `free_ptr->next->prev = p` and `p->next = free_ptr->next`,
where `free_ptr` is `p->next`. -/
def absorbNext (m : ByteMemory) (p : Nat) : ByteMemory :=
  let freePtr := getField m .next p
  let m := setField m .prev (getField m .next freePtr) p
  setField m .next p (getField m .next freePtr)

/-! ## The heap -/

/-- Where a heap lies: `self` and `freeList` are the addresses of the `struct rt_memheap` and of
its `free_header`, which is not in the pool. -/
structure Pool where
  self : Nat
  freeList : Nat
  startAddr : Nat
  size : Nat
  self_lt : self < 0x100000000
  freeList_fits : freeList + 24 ≤ 0x100000000
  fits : startAddr + size ≤ 0x100000000
  outside : freeList + 24 ≤ startAddr ∨ startAddr + size ≤ freeList
  large : 2 * 24 + 12 ≤ size

/-- `pool_size`. -/
def Pool.poolSize (P : Pool) : Nat := Kernel.rtAlignDown P.size

/-- The variables of a heap and the memory. `start_addr`, `pool_size`, `block_list` and `free_list`
stay what `rt_memheap_init` made them and are those of the pool. `usedRecord` is not in the source:
what was in use whenever the semaphore was released. -/
structure MemHeap where
  pool : Pool
  availableSize : Nat
  maxUsedSize : Nat
  memory : ByteMemory
  usedRecord : List Nat

namespace MemHeap

variable (h : MemHeap)

/-- `pool_size - available_size`. -/
def used : Nat := sub32 h.pool.poolSize h.availableSize

/-- The new `available_size`, and `max_used_size` by it. -/
def account (availableSize : Nat) : MemHeap :=
  let h := { h with availableSize := availableSize }
  if h.maxUsedSize < h.used then { h with maxUsedSize := h.used } else h

/-- `rt_sem_release(&(heap->lock))`. -/
def rtSemRelease : MemHeap := { h with usedRecord := h.used :: h.usedRecord }

/-- Stores to the memory. -/
def onMemory (f : ByteMemory → ByteMemory) : MemHeap := { h with memory := f h.memory }

end MemHeap

/-- All fields of an item are written. -/
def initItem (m : ByteMemory) (p magic poolPtr next prev nextFree prevFree : Nat) : ByteMemory :=
  let m := setField m .magic p magic
  let m := setField m .poolPtr p poolPtr
  let m := setField m .next p next
  let m := setField m .prev p prev
  let m := setField m .nextFree p nextFree
  setField m .prevFree p prevFree

/-- `rt_memheap_init`, on a memory with any content. -/
def rtMemheapInit (P : Pool) (m : ByteMemory) : MemHeap :=
  let availableSize := sub32 P.poolSize (2 * rtMemheapSize)
  -- the free list header
  let m := initItem m P.freeList rtMemheapMagic P.self 0 0 P.freeList P.freeList
  -- the first big memory block
  let item := P.startAddr
  let m := initItem m item rtMemheapMagic P.self 0 0 item item
  let m := setField m .next item (add32 (add32 item availableSize) rtMemheapSize)
  let m := setField m .prev item (getField m .next item)
  let m := pushFree P.freeList m item
  -- the tailer block
  let item := getField m .next item
  let m := initItem m item (rtMemheapMagic ||| rtMemheapUsed) P.self P.startAddr P.startAddr 0 0
  { pool := P
    availableSize := availableSize
    maxUsedSize := sub32 P.poolSize availableSize
    memory := m
    usedRecord := [sub32 P.poolSize availableSize] }

/-! ## Allocation -/

/-- `RT_ALIGN(size, RT_ALIGN_SIZE)`, and at least `RT_MEMHEAP_MINIALLOC`. -/
def memheapRequest (size : Nat) : Nat :=
  if rtAlign size < rtMemheapMinialloc then rtMemheapMinialloc else rtAlign size

/-- The loop of `rt_memheap_alloc`, from `header_ptr` and `free_size` on. -/
def memheapSearch (freeList : Nat) (m : ByteMemory) (size : Nat) :
    Nat → Nat → Nat → Option (Nat × Nat)
  | 0, _, _ => none
  | fuel + 1, headerPtr, freeSize =>
    if headerPtr ≠ freeList ∧ freeSize < size then
      let freeSize := memitemSize m headerPtr
      memheapSearch freeList m size fuel
        (if freeSize < size then getField m .nextFree headerPtr else headerPtr) freeSize
    else some (headerPtr, freeSize)

namespace MemHeap

variable (h : MemHeap)

/-- The item at `headerPtr` is taken: a large one is split, and its end put in the free list. -/
def takeItem (headerPtr freeSize size : Nat) : MemHeap :=
  let h :=
    if add32 (add32 size rtMemheapSize) rtMemheapMinialloc ≤ freeSize then
      let newPtr := add32 (add32 headerPtr size) rtMemheapSize
      let h := h.onMemory fun m =>
        let m := linkItem h.pool.self m headerPtr newPtr
        pushFree h.pool.freeList (clearFree (unlinkFree m headerPtr) headerPtr) newPtr
      h.account (sub32 (sub32 h.availableSize size) rtMemheapSize)
    else
      (h.account (sub32 h.availableSize freeSize)).onMemory fun m =>
        clearFree (unlinkFree m headerPtr) headerPtr
  h.onMemory fun m =>
    setField m .magic headerPtr (getField m .magic headerPtr ||| rtMemheapUsed)

end MemHeap

/-- `rt_memheap_alloc`. -/
def rtMemheapAlloc (h : MemHeap) (size : Nat) : Option (MemHeap × Option Nat) :=
  let size := memheapRequest size
  if size < h.availableSize then do
    let (headerPtr, freeSize) ← memheapSearch h.pool.freeList h.memory size h.pool.poolSize
      (getField h.memory .nextFree h.pool.freeList) 0
    if size ≤ freeSize then
      some ((h.takeItem headerPtr freeSize size).rtSemRelease,
        some (add32 headerPtr rtMemheapSize))
    else some (h.rtSemRelease, none)
  else some (h, none)

/-! ## Freeing -/

namespace MemHeap

variable (h : MemHeap)

/-- The item is marked as available. -/
def markFree (headerPtr : Nat) : MemHeap :=
  let h := h.onMemory fun m =>
    setField m .magic headerPtr (getField m .magic headerPtr &&& 0xfffffffe)
  { h with availableSize := add32 h.availableSize (memitemSize h.memory headerPtr) }

/-- The freed item is joined with a free one in front of it: the item it is then, and whether it is
still to be put in the free list. -/
def mergePrev (headerPtr : Nat) : MemHeap × Nat × Bool :=
  let prev := getField h.memory .prev headerPtr
  if rtMemheapIsUsed h.memory prev then (h, headerPtr, true)
  else
    let h := { h with availableSize := add32 h.availableSize rtMemheapSize }
    let h := h.onMemory fun m => unlinkItemNext m headerPtr
    (h, getField h.memory .prev headerPtr, false)

/-- It is joined with a free one behind it. -/
def mergeNext (headerPtr : Nat) : MemHeap :=
  let newPtr := getField h.memory .next headerPtr
  if rtMemheapIsUsed h.memory newPtr then h
  else
    let h := { h with availableSize := add32 h.availableSize rtMemheapSize }
    h.onMemory fun m => unlinkFree (absorbNext m headerPtr) newPtr

/-- Both, and an item that was not joined with the one in front of it is put in the free list. -/
def coalesce (headerPtr : Nat) : MemHeap :=
  let (h, headerPtr, insertHeader) := h.mergePrev headerPtr
  let h := h.mergeNext headerPtr
  if insertHeader then h.onMemory fun m => pushFree h.pool.freeList m headerPtr else h

end MemHeap

/-- `rt_memheap_free`. Without a result the item belongs to another heap. -/
def rtMemheapFree (h : MemHeap) : Option Nat → Option MemHeap
  | none => some h
  | some ptr =>
    let headerPtr := sub32 ptr rtMemheapSize
    if getField h.memory .poolPtr headerPtr ≠ h.pool.self then none
    else some ((h.markFree headerPtr).coalesce headerPtr).rtSemRelease

/-! ## Reallocation -/

namespace MemHeap

variable (h : MemHeap)

/-- Whether the free item behind `headerPtr` is enough to expand into. The sums are unsigned. -/
def expands (headerPtr oldsize newsize : Nat) : Bool :=
  let nextPtr := getField h.memory .next headerPtr
  !rtMemheapIsUsed h.memory nextPtr &&
    decide (add32 newsize rtMemheapMinialloc < add32 (memitemSize h.memory nextPtr) oldsize)

/-- It is expanded: the free item is made anew where the data now ends. -/
def expand (headerPtr oldsize newsize : Nat) : MemHeap :=
  let nextPtr := getField h.memory .next headerPtr
  let h := h.account (sub32 h.availableSize (sub32 newsize oldsize))
  let newPtr := add32 (add32 headerPtr rtMemheapSize) newsize
  h.onMemory fun m =>
    let m := unlinkItem (unlinkFree m nextPtr) nextPtr
    pushFree h.pool.freeList (linkItem h.pool.self m headerPtr newPtr) newPtr

/-- An item that is in no list is joined with a free one behind it. -/
def absorbFree (newPtr : Nat) : MemHeap :=
  let freePtr := getField h.memory .next newPtr
  if rtMemheapIsUsed h.memory freePtr then h
  else
    let h := { h with availableSize := sub32 h.availableSize (memitemSize h.memory freePtr) }
    h.onMemory fun m => unlinkFree (absorbNext m newPtr) freePtr

/-- The end of an item is split off, joined with a free item behind it and put in the free list. -/
def shrink (headerPtr newsize : Nat) : MemHeap :=
  let newPtr := add32 (add32 headerPtr newsize) rtMemheapSize
  let h := (h.onMemory fun m => linkItem h.pool.self m headerPtr newPtr).absorbFree newPtr
  let h := h.onMemory fun m => pushFree h.pool.freeList m newPtr
  { h with availableSize := add32 h.availableSize (memitemSize h.memory newPtr) }

end MemHeap

/-- `rt_memheap_realloc`. -/
def rtMemheapRealloc (h : MemHeap) (ptr : Option Nat) (newsize : Nat) :
    Option (MemHeap × Option Nat) :=
  if newsize = 0 then (rtMemheapFree h ptr).map fun h => (h, none)
  else
    let newsize := memheapRequest newsize
    match ptr with
    | none => rtMemheapAlloc h newsize
    | some ptr =>
      let headerPtr := sub32 ptr rtMemheapSize
      let oldsize := memitemSize h.memory headerPtr
      if oldsize < newsize then
        if h.expands headerPtr oldsize newsize then
          some ((h.expand headerPtr oldsize newsize).rtSemRelease, some ptr)
        else do
          -- re-allocate a memory block
          let (h, newPtr) ← rtMemheapAlloc h.rtSemRelease newsize
          match newPtr with
          | none => some (h, none)
          | some newPtr =>
            let count := if oldsize < newsize then oldsize else newsize
            let h ← rtMemheapFree (h.onMemory fun m => m.copy newPtr ptr count) (some ptr)
            some (h, some newPtr)
      -- don't split when there is less than one node space left
      else if oldsize ≤ add32 (add32 newsize rtMemheapSize) rtMemheapMinialloc then
        some (h, some ptr)
      else some ((h.shrink headerPtr newsize).rtSemRelease, some ptr)

end RtVcom.Kernel
