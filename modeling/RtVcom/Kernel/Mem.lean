import RtVcom.Lib.ByteMemory
import RtVcom.Lib.Machine
import RtVcom.Lib.Word32

/-!
# The system heap

`src/mem.c`, the small memory allocator: blocks that follow one another from `heap_ptr` on, each
with a `struct heap_mem` before its bytes, up to `heap_end`, a header that is never free. The
headers lie in the memory they manage, byte by byte, and every field that a function reads or
writes is read from there or written there. A pointer into the heap is its distance from
`heap_ptr`; what the callers get and give are addresses, and NULL is `none`.

Sizes and offsets are computed in 32 bits, as the source computes them. The two loops that follow
`next` have a fuel, and a function whose loop does not end within it has no result.

`heap_sem` makes each function one step for the others, and is not a part of the state. The
assertions are compiled to nothing (`RT_DEBUG` is not set).
-/

namespace RtVcom.Kernel

open RtVcom.Lib

/-! ## Alignment -/

/-- `RT_ALIGN(size, RT_ALIGN_SIZE)`. -/
def rtAlign (size : Nat) : Nat := add32 size 3 / 4 * 4

/-- `RT_ALIGN_DOWN(size, RT_ALIGN_SIZE)`. -/
def rtAlignDown (size : Nat) : Nat := size / 4 * 4

/-! ## The heap -/

/-- `HEAP_MAGIC`. -/
def heapMagic : Nat := 0x1ea0

/-- `SIZEOF_STRUCT_MEM`. -/
def sizeofStructMem : Nat := 12

/-- `MIN_SIZE` and `MIN_SIZE_ALIGNED`. -/
def minSize : Nat := 12
def minSizeAligned : Nat := rtAlign minSize

/-- `struct heap_mem`. -/
structure HeapMem where
  magic : Nat
  used : Nat
  next : Nat
  prev : Nat
deriving Repr, DecidableEq

/-- The variables of the allocator and the memory behind `heap_ptr`. -/
structure Heap where
  heapPtr : Nat
  heapEnd : Nat
  lfree : Nat
  memSizeAligned : Nat
  usedMem : Nat
  maxMem : Nat
  memory : ByteMemory

namespace Heap

/-- The header at `&heap_ptr[p]`. -/
def hdr (h : Heap) (p : Nat) : HeapMem where
  magic := h.memory.load p 2
  used := h.memory.load (p + 2) 2
  next := h.memory.load (p + 4) 4
  prev := h.memory.load (p + 8) 4

def setMagic (h : Heap) (p v : Nat) : Heap := { h with memory := h.memory.store p v 2 }
def setUsed (h : Heap) (p v : Nat) : Heap := { h with memory := h.memory.store (p + 2) v 2 }
def setNext (h : Heap) (p v : Nat) : Heap := { h with memory := h.memory.store (p + 4) v 4 }
def setPrev (h : Heap) (p v : Nat) : Heap := { h with memory := h.memory.store (p + 8) v 4 }

/-- All fields of a header, in the order of the source. -/
def setHdr (h : Heap) (p : Nat) (x : HeapMem) : Heap :=
  (((h.setMagic p x.magic).setUsed p x.used).setNext p x.next).setPrev p x.prev

/-- More than the number of blocks. -/
def fuel (h : Heap) : Nat := h.memSizeAligned + 2

end Heap

/-- `rt_system_heap_init`, on a memory with any content. Without a result the addresses leave no
room for two headers, and nothing is initialised. -/
def rtSystemHeapInit (memory : ByteMemory) (beginAddr endAddr : Nat) : Option Heap :=
  let beginAlign := rtAlign beginAddr
  let endAlign := rtAlignDown endAddr
  if 2 * sizeofStructMem < endAlign ∧ beginAlign ≤ endAlign - 2 * sizeofStructMem then
    let size := endAlign - beginAlign - 2 * sizeofStructMem
    let heapEnd := size + sizeofStructMem
    let heap : Heap :=
      { heapPtr := beginAlign
        heapEnd := heapEnd
        lfree := 0
        memSizeAligned := size
        usedMem := 0
        maxMem := 0
        memory := memory }
    let heap := heap.setHdr 0 ⟨heapMagic, 0, heapEnd, 0⟩
    some (heap.setHdr heapEnd ⟨heapMagic, 1, heapEnd, heapEnd⟩)
  else none

/-! ## Joining free blocks -/

/-- Two free neighbours become one: `lfree` does not stay at the second, whose successor is the
first one's from here on. -/
def combine (h : Heap) (first second : Nat) : Heap :=
  let h := if h.lfree = second then { h with lfree := first } else h
  let h := h.setNext first (h.hdr second).next
  h.setPrev (h.hdr second).next first

/-- `plug_holes`, forward: `mem->next` is unused and not the end. -/
def plugForward (h : Heap) (mem : Nat) : Heap :=
  let nmem := (h.hdr mem).next
  if mem ≠ nmem ∧ (h.hdr nmem).used = 0 ∧ nmem ≠ h.heapEnd then combine h mem nmem else h

/-- `plug_holes`, backward: `mem->prev` is unused. -/
def plugBackward (h : Heap) (mem : Nat) : Heap :=
  let pmem := (h.hdr mem).prev
  if pmem ≠ mem ∧ (h.hdr pmem).used = 0 then combine h pmem mem else h

/-- `plug_holes`. -/
def plugHoles (h : Heap) (mem : Nat) : Heap := plugBackward (plugForward h mem) mem

/-! ## Allocation -/

/-- The loop of `rt_malloc` that looks for a block from `ptr` on: `some none` is the end of the
loop. -/
def mallocSearch (h : Heap) (size : Nat) : Nat → Nat → Option (Option Nat)
  | 0, _ => none
  | fuel + 1, ptr =>
    if ptr < sub32 h.memSizeAligned size then
      let mem := h.hdr ptr
      if mem.used = 0 ∧ size ≤ sub32 mem.next (add32 ptr sizeofStructMem) then some (some ptr)
      else mallocSearch h size fuel mem.next
    else some none

/-- The loop of `rt_malloc` that moves `lfree` on. -/
def nextFree (h : Heap) : Nat → Nat → Option Nat
  | 0, _ => none
  | fuel + 1, p =>
    if (h.hdr p).used ≠ 0 ∧ p ≠ h.heapEnd then nextFree h fuel (h.hdr p).next else some p

/-- `used_mem += n` with `max_mem`. -/
def Heap.account (h : Heap) (n : Nat) : Heap :=
  let used := add32 h.usedMem n
  { h with usedMem := used, maxMem := if h.maxMem < used then used else h.maxMem }

/-- A second header behind `size` bytes of the block at `ptr`. -/
def splitBlock (h : Heap) (ptr size : Nat) : Heap :=
  let ptr2 := add32 (add32 ptr sizeofStructMem) size
  let next := (h.hdr ptr).next
  let h := h.setHdr ptr2 ⟨heapMagic, 0, next, ptr⟩
  h.setNext ptr ptr2

/-- The block behind a new header is told its predecessor, unless it is the end. -/
def linkBehind (h : Heap) (ptr2 : Nat) : Heap :=
  let next := (h.hdr ptr2).next
  if next ≠ add32 h.memSizeAligned sizeofStructMem then h.setPrev next ptr2 else h

/-- The block at `ptr` is taken: a large one is split. -/
def takeBlock (h : Heap) (ptr size : Nat) : Heap :=
  let mem := h.hdr ptr
  if add32 (add32 size sizeofStructMem) minSizeAligned ≤
      sub32 mem.next (add32 ptr sizeofStructMem) then
    let ptr2 := add32 (add32 ptr sizeofStructMem) size
    (linkBehind ((splitBlock h ptr size).setUsed ptr 1) ptr2).account (add32 size sizeofStructMem)
  else (h.setUsed ptr 1).account (sub32 mem.next ptr)

/-- The block at `ptr` is handed out; `lfree` moves on if it stood there. -/
def handOut (h : Heap) (ptr size : Nat) : Option (Heap × Option Nat) :=
  let h := (takeBlock h ptr size).setMagic ptr heapMagic
  let lfree := if ptr = h.lfree then nextFree h h.fuel h.lfree else some h.lfree
  lfree.map fun lfree => ({ h with lfree := lfree }, some (h.heapPtr + ptr + sizeofStructMem))

/-- `rt_malloc`. -/
def rtMalloc (h : Heap) (size : Nat) : Option (Heap × Option Nat) :=
  if size = 0 then some (h, none)
  else if h.memSizeAligned < rtAlign size then some (h, none)
  else
    -- every data block must be at least MIN_SIZE_ALIGNED long
    let size := if rtAlign size < minSizeAligned then minSizeAligned else rtAlign size
    (mallocSearch h size h.fuel h.lfree).bind fun
      | none => some (h, none)
      | some ptr => handOut h ptr size

/-- `rt_free`. -/
def rtFree (h : Heap) : Option Nat → Heap
  | none => h
  | some rmem =>
    if rmem < h.heapPtr ∨ h.heapPtr + h.heapEnd ≤ rmem then h
    else
      let mem := rmem - sizeofStructMem - h.heapPtr
      let h := (h.setUsed mem 0).setMagic mem heapMagic
      let h := if mem < h.lfree then { h with lfree := mem } else h
      let h := { h with usedMem := sub32 h.usedMem (sub32 (h.hdr mem).next mem) }
      plugHoles h mem

/-- The part of `rt_realloc` that gives the end of the block at `ptr` back. -/
def shrinkBlock (h : Heap) (ptr newsize : Nat) : Heap :=
  let size := sub32 (sub32 (h.hdr ptr).next ptr) sizeofStructMem
  let h := { h with usedMem := sub32 h.usedMem (sub32 size newsize) }
  let ptr2 := add32 (add32 ptr sizeofStructMem) newsize
  plugHoles (linkBehind (splitBlock h ptr newsize) ptr2) ptr2

/-- `rt_realloc`. -/
def rtRealloc (h : Heap) (rmem : Option Nat) (newsize : Nat) : Option (Heap × Option Nat) :=
  let newsize := rtAlign newsize
  if h.memSizeAligned < newsize then some (h, none)
  else if newsize = 0 then some (rtFree h rmem, none)
  else
    match rmem with
    | none => rtMalloc h newsize
    | some rmem =>
      if rmem < h.heapPtr ∨ h.heapPtr + h.heapEnd ≤ rmem then some (h, some rmem)
      else
        let ptr := rmem - sizeofStructMem - h.heapPtr
        let size := sub32 (sub32 (h.hdr ptr).next ptr) sizeofStructMem
        if size = newsize then some (h, some rmem)
        else if add32 (add32 newsize sizeofStructMem) minSize < size then
          some (shrinkBlock h ptr newsize, some rmem)
        else
          -- expand memory
          match rtMalloc h newsize with
          | none => none
          | some (h, none) => some (h, none)
          | some (h, some nmem) =>
            let count := if size < newsize then size else newsize
            let h :=
              { h with memory := h.memory.copy (nmem - h.heapPtr) (rmem - h.heapPtr) count }
            some (rtFree h (some rmem), some nmem)

/-- `rt_calloc`. -/
def rtCalloc (h : Heap) (count size : Nat) : Option (Heap × Option Nat) :=
  let bytes := count * size % 0x100000000
  match rtMalloc h bytes with
  | none => none
  | some (h, none) => some (h, none)
  | some (h, some p) =>
    some ({ h with memory := h.memory.fill (p - h.heapPtr) bytes 0 }, some p)

end RtVcom.Kernel
