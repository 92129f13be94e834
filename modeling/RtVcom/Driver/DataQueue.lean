import RtVcom.Kernel.Ipc
import RtVcom.Lib.BoundedQueue
import RtVcom.Lib.Object

/-!
# The data queue of the device drivers

`dataqueue.c`: a queue of blocks that are passed by reference. `put_index` and `get_index` count
the items that went in and out, in 16 bits, and are reduced modulo the size where a cell is
addressed; the queue is full when their difference, computed as `int`, is the size.

Each function is one turn of the loop of its source, from the point where interrupts are disabled:
it returns, or its caller is suspended and takes another turn once it is resumed. With a waiting
time of 0 every turn returns.

As long as `put_index` has not wrapped around while items from before the wrap are stored, the
queue is the bounded FIFO that it should be. Behind the wrap the difference is negative, so that no
full queue is recognised, and the cells of the items no longer follow each other unless the size
divides 65536. `PushFits` says what a push needs there.
-/

namespace RtVcom.Driver

open RtVcom.Lib RtVcom.Kernel

/-! ## The model -/

def rtEempty : Int := 4

/-- `struct rt_data_item`. -/
structure RtDataItem where
  dataPtr : Nat
  dataSize : Nat
deriving Repr, DecidableEq

/-- `RT_DATAQUEUE_EVENT_POP`, `RT_DATAQUEUE_EVENT_PUSH` and `RT_DATAQUEUE_EVENT_LWM`. -/
inductive DataQueueEvent
  | pop
  | push
  | lwm
deriving Repr, DecidableEq

/-- `struct rt_data_queue`; the indices are 16 bits wide, and `evtNotify` says whether there is a
function to notify. -/
structure RtDataQueue where
  size : Nat
  lwm : Nat
  getIndex : Nat
  putIndex : Nat
  queue : List RtDataItem
  suspendedPushList : List RtThread
  suspendedPopList : List RtThread
  evtNotify : Bool
deriving Repr, DecidableEq

/-- `rt_data_queue_init` over the cells it allocates. -/
def rtDataQueueInit (size lwm : Nat) (evtNotify : Bool) (queue : List RtDataItem) : RtDataQueue :=
  { size, lwm, getIndex := 0, putIndex := 0, queue, suspendedPushList := [], suspendedPopList := []
    evtNotify }

/-- How a turn ends: with a result and an item that was read, a thread that was resumed and an event
that was notified, or with the caller suspended. -/
inductive DataQueueTurn
  | returns (result : Int) (item : Option RtDataItem) (resumed : Option RtThread)
      (event : Option DataQueueEvent)
  | suspends
deriving Repr, DecidableEq

namespace RtDataQueue

/-- The event that `evt_notify` gets, if there is one. -/
def notify (queue : RtDataQueue) (event : DataQueueEvent) : Option DataQueueEvent :=
  if queue.evtNotify then some event else none

/-- `put_index - get_index`, in the type `int` that both are promoted to. -/
def difference (queue : RtDataQueue) : Int := (queue.putIndex : Int) - queue.getIndex

end RtDataQueue

/-- `rt_data_queue_push`. -/
def rtDataQueuePush (queue : RtDataQueue) (thread : RtThread) (item : RtDataItem) (timeout : Int) :
    RtDataQueue × DataQueueTurn :=
  if queue.difference = queue.size then
    -- queue is full
    if timeout = 0 then (queue, .returns (-rtEtimeout) none none none)
    else ({ queue with suspendedPushList := queue.suspendedPushList ++ [thread] }, .suspends)
  else
    let queue := { queue with
      queue := queue.queue.set (queue.putIndex % queue.size) item
      putIndex := (queue.putIndex + 1) % 0x10000 }
    match queue.suspendedPopList with
    | waiter :: rest =>
      ({ queue with suspendedPopList := rest }, .returns rtEok none (some waiter) none)
    | [] => (queue, .returns rtEok none none (queue.notify .push))

/-- `rt_data_queue_pop`. -/
def rtDataQueuePop (queue : RtDataQueue) (thread : RtThread) (timeout : Int) :
    RtDataQueue × DataQueueTurn :=
  if queue.getIndex = queue.putIndex then
    -- queue is empty
    if timeout = 0 then (queue, .returns (-rtEtimeout) none none none)
    else ({ queue with suspendedPopList := queue.suspendedPopList ++ [thread] }, .suspends)
  else
    let item := queue.queue[queue.getIndex % queue.size]?
    let queue := { queue with getIndex := (queue.getIndex + 1) % 0x10000 }
    if queue.difference ≤ queue.lwm then
      match queue.suspendedPushList with
      | waiter :: rest =>
        ({ queue with suspendedPushList := rest },
          .returns rtEok item (some waiter) (queue.notify .lwm))
      | [] => (queue, .returns rtEok item none (queue.notify .lwm))
    else (queue, .returns rtEok item none (queue.notify .pop))

/-- `rt_data_queue_peak`. -/
def rtDataQueuePeak (queue : RtDataQueue) : Int × Option RtDataItem :=
  if queue.getIndex = queue.putIndex then (-rtEempty, none)
  else (rtEok, queue.queue[queue.getIndex % queue.size]?)

/-! ## The calls with a waiting time of 0 -/

/-- The calls, with the thread that makes them. -/
inductive DataQueueCall
  | push (thread : RtThread) (item : RtDataItem)
  | pop (thread : RtThread)
  | peak
deriving Repr, DecidableEq

/-- The result and the item that was read. -/
def DataQueueTurn.answer : DataQueueTurn → Option (Int × Option RtDataItem)
  | .returns result item _ _ => some (result, item)
  | .suspends => none

/-- A call of the code. -/
def dataQueueCall (queue : RtDataQueue) :
    DataQueueCall → RtDataQueue × Option (Int × Option RtDataItem)
  | .push thread item =>
    ((rtDataQueuePush queue thread item 0).1, (rtDataQueuePush queue thread item 0).2.answer)
  | .pop thread => ((rtDataQueuePop queue thread 0).1, (rtDataQueuePop queue thread 0).2.answer)
  | .peak => (queue, some (rtDataQueuePeak queue))

/-- The same call of a bounded queue of items. -/
def itemQueueCall {size : Nat} (q : BoundedQueue RtDataItem size) :
    DataQueueCall → BoundedQueue RtDataItem size × Option (Int × Option RtDataItem)
  | .push _ item =>
    (q.offer item, some (if q.items.length < size then rtEok else -rtEtimeout, none))
  | .pop _ =>
    (q.dropFront 1, some (if q.items = [] then -rtEtimeout else rtEok, q.items.head?))
  | .peak => (q, some (if q.items = [] then -rtEempty else rtEok, q.items.head?))

/-- The data queue from `rt_data_queue_init` on. -/
def dataQueueObject (size lwm : Nat) (evtNotify : Bool) (cells : List RtDataItem) :
    Object RtDataQueue DataQueueCall (Option (Int × Option RtDataItem)) where
  init := rtDataQueueInit size lwm evtNotify cells
  call := dataQueueCall

/-- The empty queue of at most `size` items. -/
def itemQueueObject (size : Nat) :
    Object (BoundedQueue RtDataItem size) DataQueueCall (Option (Int × Option RtDataItem)) where
  init := .empty
  call := itemQueueCall

/-! ## The items in the cells -/

namespace RtDataQueue

/-- The cell of the item that is `offset` places behind the oldest one. -/
def cell (queue : RtDataQueue) (offset : Nat) : Nat :=
  (queue.getIndex + offset) % 0x10000 % queue.size

/-- How many items went in and not out, as the 16-bit counters tell it. -/
def stored (queue : RtDataQueue) : Nat := (queue.putIndex + 0x10000 - queue.getIndex) % 0x10000

/-- What a push needs: `put_index` is not behind the wrap while `get_index` is before it, or else
there is room and no item from before the wrap is in the cell that is written. -/
def PushFits (queue : RtDataQueue) : Prop :=
  queue.getIndex ≤ queue.putIndex ∨
    queue.stored < queue.size ∧
      ∀ index < 0x10000, queue.getIndex ≤ index → index % queue.size ≠ queue.putIndex % queue.size

instance (queue : RtDataQueue) : Decidable queue.PushFits :=
  inferInstanceAs (Decidable (_ ∨ _ ∧ ∀ _ < 0x10000, _ → _))

/-- The queue stands for a bounded queue of items: they are in its cells, and nobody waits. -/
structure Stands {size : Nat} (queue : RtDataQueue) (q : BoundedQueue RtDataItem size) : Prop where
  size_eq : queue.size = size
  pos : 0 < size
  lt : size < 0x10000
  length : queue.queue.length = size
  get_lt : queue.getIndex < 0x10000
  put_eq : queue.putIndex = (queue.getIndex + q.items.length) % 0x10000
  nobody_pushes : queue.suspendedPushList = []
  nobody_pops : queue.suspendedPopList = []
  items : ∀ offset, offset < q.items.length → queue.queue[queue.cell offset]? = q.items[offset]?

end RtDataQueue

/-- What the calls of a run need: only a push needs anything. -/
def DataQueueCall.Fits (queue : RtDataQueue) : DataQueueCall → Prop
  | .push _ _ => queue.PushFits
  | .pop _ => True
  | .peak => True

instance : DecidableRel fun (queue : RtDataQueue) (call : DataQueueCall) => call.Fits queue :=
  fun queue call =>
    match call with
    | .push _ _ => inferInstanceAs (Decidable queue.PushFits)
    | .pop _ => isTrue trivial
    | .peak => isTrue trivial

namespace RtDataQueue

variable {queue : RtDataQueue} {size : Nat} {q : BoundedQueue RtDataItem size}

/-- Two numbers that are less than `n` apart have different remainders. -/
theorem mod_ne_of_lt {a b n : Nat} (hlt : a < b) (hnear : b - a < n) : a % n ≠ b % n := by
  intro heq
  have hzero := Nat.sub_mod_eq_zero_of_mod_eq heq.symm
  rw [Nat.mod_eq_of_lt hnear] at hzero
  omega

/-- The items stored are those of the queue it stands for. -/
theorem Stands.stored_eq (h : queue.Stands q) : queue.stored = q.items.length := by
  have hput := h.put_eq
  have hget := h.get_lt
  have hlt := h.lt
  have hbounded := q.bounded
  unfold stored
  omega

/-- The queue is seen to be full when it is full and `put_index` is not behind the wrap. -/
theorem Stands.full_iff (h : queue.Stands q) :
    queue.difference = queue.size ↔
      queue.getIndex ≤ queue.putIndex ∧ q.items.length = size := by
  have hput := h.put_eq
  have hget := h.get_lt
  have hlt := h.lt
  have hpos := h.pos
  have hbounded := q.bounded
  rw [difference, h.size_eq]
  omega

/-- The indices agree exactly on an empty queue. -/
theorem Stands.empty_iff (h : queue.Stands q) :
    queue.getIndex = queue.putIndex ↔ q.items = [] := by
  have hput := h.put_eq
  have hget := h.get_lt
  have hlt := h.lt
  have hbounded := q.bounded
  rw [← List.length_eq_zero_iff]
  omega

/-- A cell is looked up inside the array. -/
theorem Stands.cell_lt (h : queue.Stands q) (offset : Nat) : queue.cell offset < size := by
  have hpos := h.pos
  unfold cell
  rw [h.size_eq]
  exact Nat.mod_lt _ hpos

/-- The cell that a push writes is the one behind the items. -/
theorem Stands.put_cell (h : queue.Stands q) :
    queue.putIndex % queue.size = queue.cell q.items.length := by
  rw [cell, h.put_eq]

/-- The items from the wrap on are near enough to the cell that is written not to be in it. -/
theorem Stands.cell_ne_of_near (h : queue.Stands q) (hroom : q.items.length < size) {offset : Nat}
    (hoffset : offset < q.items.length)
    (hsame : queue.getIndex ≤ queue.putIndex ∨ 0x10000 ≤ queue.getIndex + offset) :
    queue.cell offset ≠ queue.putIndex % queue.size := by
  have hput := h.put_eq
  have hget := h.get_lt
  have hlt := h.lt
  unfold cell
  rw [h.size_eq]
  apply mod_ne_of_lt
  · omega
  · omega

/-- Where there is room, a push needs exactly that it writes no cell of a stored item. -/
theorem Stands.fits_iff (h : queue.Stands q) :
    queue.PushFits ↔
      (queue.difference = queue.size ∨ q.items.length < size) ∧
        (q.items.length < size →
          ∀ offset < q.items.length, queue.cell offset ≠ queue.putIndex % queue.size) := by
  have hput := h.put_eq
  have hget := h.get_lt
  have hlt := h.lt
  have hbounded := q.bounded
  rw [PushFits, h.full_iff, h.stored_eq]
  constructor
  · rintro (hsame | ⟨hroom, hclear⟩)
    · refine ⟨by omega, ?_⟩
      intro hroom offset hoffset
      exact h.cell_ne_of_near hroom hoffset (.inl hsame)
    · rw [h.size_eq] at hroom
      refine ⟨.inr hroom, ?_⟩
      intro _ offset hoffset
      by_cases hbefore : queue.getIndex + offset < 0x10000
      · have hcell := hclear (queue.getIndex + offset) hbefore (Nat.le_add_right ..)
        rwa [cell, Nat.mod_eq_of_lt hbefore]
      · exact h.cell_ne_of_near hroom hoffset (.inr (by omega))
  · rintro ⟨hseen, hclear⟩
    by_cases hsame : queue.getIndex ≤ queue.putIndex
    · exact .inl hsame
    · right
      have hroom : q.items.length < size := by omega
      refine ⟨by rwa [h.size_eq], ?_⟩
      intro index hindex hle
      -- an index before the wrap is the one of a stored item
      have hcell := hclear hroom (index - queue.getIndex) (by omega)
      rw [cell, Nat.add_sub_cancel' hle, Nat.mod_eq_of_lt hindex] at hcell
      exact hcell

/-! ## The laws of the calls -/

/-- The push that stores: `put_index` counts the item in the next cell. -/
theorem push_stores (hfull : queue.difference ≠ queue.size) (hnobody : queue.suspendedPopList = [])
    (thread : RtThread) (item : RtDataItem) :
    rtDataQueuePush queue thread item 0 =
      ({ queue with
          queue := queue.queue.set (queue.putIndex % queue.size) item
          putIndex := (queue.putIndex + 1) % 0x10000 },
        .returns rtEok none none (queue.notify .push)) := by
  simp only [rtDataQueuePush, hfull, if_false, hnobody]
  rfl

/-- A push that may not wait is refused by a full queue. -/
theorem push_refuses (hfull : queue.difference = queue.size) (thread : RtThread)
    (item : RtDataItem) :
    rtDataQueuePush queue thread item 0 = (queue, .returns (-rtEtimeout) none none none) := by
  simp only [rtDataQueuePush, hfull, if_true]

/-- The pop that reads: `get_index` counts the item out. -/
theorem pop_reads (hsome : queue.getIndex ≠ queue.putIndex) (hnobody : queue.suspendedPushList = [])
    (thread : RtThread) :
    ∃ event, rtDataQueuePop queue thread 0 =
      ({ queue with getIndex := (queue.getIndex + 1) % 0x10000 },
        .returns rtEok queue.queue[queue.getIndex % queue.size]? none event) := by
  simp only [rtDataQueuePop, hsome, if_false]
  split
  · split
    · next hwaiter =>
      rw [hnobody] at hwaiter
      cases hwaiter
    · exact ⟨_, rfl⟩
  · exact ⟨_, rfl⟩

/-- An item that is stored where no other one is comes behind the others. -/
theorem Stands.store (h : queue.Stands q) (hroom : q.items.length < size)
    (hclear : ∀ offset < q.items.length, queue.cell offset ≠ queue.putIndex % queue.size)
    (item : RtDataItem) :
    { queue with
      queue := queue.queue.set (queue.putIndex % queue.size) item
      putIndex := (queue.putIndex + 1) % 0x10000 : RtDataQueue }.Stands (q.offer item) where
  size_eq := h.size_eq
  pos := h.pos
  lt := h.lt
  length := List.length_set.trans h.length
  get_lt := h.get_lt
  put_eq := by
    have hput := h.put_eq
    simp only [BoundedQueue.items_offer, hroom, if_true, List.length_append, List.length_singleton]
    omega
  nobody_pushes := h.nobody_pushes
  nobody_pops := h.nobody_pops
  items offset hoffset := by
    rw [BoundedQueue.items_offer, if_pos hroom] at hoffset ⊢
    rw [List.length_append, List.length_singleton] at hoffset
    change (queue.queue.set (queue.putIndex % queue.size) item)[queue.cell offset]? = _
    by_cases hold : offset < q.items.length
    · rw [List.getElem?_set_ne (hclear offset hold).symm, h.items offset hold,
        List.getElem?_append_left hold]
    · obtain rfl : offset = q.items.length := by omega
      have hcell := h.cell_lt q.items.length
      rw [h.put_cell, List.getElem?_set_self (by rw [h.length]; exact hcell),
        List.getElem?_concat_length]

/-- `rt_data_queue_push` under `PushFits`. -/
theorem Stands.push (h : queue.Stands q) (hfits : queue.PushFits) (thread : RtThread)
    (item : RtDataItem) :
    (dataQueueCall queue (.push thread item)).2 = (itemQueueCall q (.push thread item)).2 ∧
      (dataQueueCall queue (.push thread item)).1.Stands
        (itemQueueCall q (.push thread item)).1 := by
  obtain ⟨hseen, hclear⟩ := h.fits_iff.mp hfits
  have hfull := h.full_iff
  by_cases hroom : q.items.length < size
  · have hnot : queue.difference ≠ queue.size := by
      intro hd
      exact Nat.ne_of_lt hroom (hfull.mp hd).2
    simp only [dataQueueCall, itemQueueCall, push_stores hnot h.nobody_pops, hroom, if_true]
    exact ⟨rfl, h.store hroom (hclear hroom) item⟩
  · have hd : queue.difference = queue.size := hseen.resolve_right hroom
    have hoffer : q.offer item = q := by
      ext1
      rw [BoundedQueue.items_offer, if_neg hroom]
    simp only [dataQueueCall, itemQueueCall, push_refuses hd, hroom, if_false, hoffer]
    exact ⟨rfl, h⟩

/-- The oldest item, as both functions read it. -/
theorem Stands.head (h : queue.Stands q) (hsome : q.items ≠ []) :
    queue.queue[queue.getIndex % queue.size]? = q.items.head? := by
  have hget := h.get_lt
  have hfirst := h.items 0 (List.length_pos_iff.mpr hsome)
  rw [cell, Nat.add_zero, Nat.mod_eq_of_lt hget] at hfirst
  rw [hfirst, List.head?_eq_getElem?]

/-- The queue behind an item that went out. -/
theorem Stands.take (h : queue.Stands q) (hsome : q.items ≠ []) :
    { queue with getIndex := (queue.getIndex + 1) % 0x10000 : RtDataQueue }.Stands
      (q.dropFront 1) where
  size_eq := h.size_eq
  pos := h.pos
  lt := h.lt
  length := h.length
  get_lt := Nat.mod_lt _ (by decide)
  put_eq := by
    have hput := h.put_eq
    have hlen := List.length_pos_iff.mpr hsome
    simp only [BoundedQueue.items_dropFront, List.length_drop]
    omega
  nobody_pushes := h.nobody_pushes
  nobody_pops := h.nobody_pops
  items offset hoffset := by
    rw [BoundedQueue.items_dropFront, List.length_drop] at hoffset
    have hnext := h.items (offset + 1) (by omega)
    rw [BoundedQueue.items_dropFront, List.getElem?_drop, Nat.add_comm 1 offset, ← hnext]
    have hcell : ((queue.getIndex + 1) % 0x10000 + offset) % 0x10000 =
        (queue.getIndex + (offset + 1)) % 0x10000 := by omega
    simp only [cell, hcell]

/-- `rt_data_queue_pop`. -/
theorem Stands.pop (h : queue.Stands q) (thread : RtThread) :
    (dataQueueCall queue (.pop thread)).2 = (itemQueueCall q (.pop thread)).2 ∧
      (dataQueueCall queue (.pop thread)).1.Stands (itemQueueCall q (.pop thread)).1 := by
  by_cases hempty : q.items = []
  · have hdrop : q.dropFront 1 = q := by
      ext1
      rw [BoundedQueue.items_dropFront, hempty, List.drop_nil]
    simp only [dataQueueCall, itemQueueCall, rtDataQueuePop, h.empty_iff.mpr hempty, if_true,
      hempty, List.head?_nil, hdrop]
    exact ⟨rfl, h⟩
  · have hindex : queue.getIndex ≠ queue.putIndex := fun he => hempty (h.empty_iff.mp he)
    obtain ⟨event, hpop⟩ := pop_reads hindex h.nobody_pushes thread
    simp only [dataQueueCall, itemQueueCall, hpop, if_false, hempty, h.head hempty]
    exact ⟨rfl, h.take hempty⟩

/-- `rt_data_queue_peak`. -/
theorem Stands.peak (h : queue.Stands q) :
    (dataQueueCall queue .peak).2 = (itemQueueCall q .peak).2 := by
  by_cases hempty : q.items = []
  · simp only [dataQueueCall, itemQueueCall, rtDataQueuePeak, h.empty_iff.mpr hempty, if_true,
      hempty, List.head?_nil]
  · have hindex : queue.getIndex ≠ queue.putIndex := fun he => hempty (h.empty_iff.mp he)
    simp only [dataQueueCall, itemQueueCall, rtDataQueuePeak, hindex, if_false, hempty,
      h.head hempty]

/-- A call does what the bounded queue does, and the relation stays. -/
theorem Stands.call (h : queue.Stands q) (call : DataQueueCall) (hfits : call.Fits queue) :
    (dataQueueCall queue call).2 = (itemQueueCall q call).2 ∧
      (dataQueueCall queue call).1.Stands (itemQueueCall q call).1 := by
  cases call with
  | push thread item => exact h.push hfits thread item
  | pop thread => exact h.pop thread
  | peak => exact ⟨h.peak, h⟩

/-- A new queue stands for the empty one. -/
theorem stands_init {lwm : Nat} {evtNotify : Bool} {cells : List RtDataItem} (hpos : 0 < size)
    (hlt : size < 0x10000) (hcells : cells.length = size) :
    (rtDataQueueInit size lwm evtNotify cells).Stands (.empty : BoundedQueue RtDataItem size) where
  size_eq := rfl
  pos := hpos
  lt := hlt
  length := hcells
  get_lt := by
    change 0 < 0x10000
    decide
  put_eq := rfl
  nobody_pushes := rfl
  nobody_pops := rfl
  items offset hoffset := absurd hoffset (Nat.not_lt_zero offset)

/-- What is right for a push on top of `count` items: it succeeds where there is room, and then the
cell it writes is none of theirs. -/
def PushRight (queue : RtDataQueue) (count : Nat) (thread : RtThread) (item : RtDataItem) : Prop :=
  ((dataQueueCall queue (.push thread item)).2 = some (rtEok, none) ↔ count < queue.size) ∧
    (count < queue.size → ∀ offset < count, queue.cell offset ≠ queue.putIndex % queue.size)

/-- `PushFits` is exactly what a push needs. -/
theorem Stands.pushRight_iff (h : queue.Stands q) (thread : RtThread) (item : RtDataItem) :
    queue.PushRight q.items.length thread item ↔ queue.PushFits := by
  have hfull := h.full_iff
  have hbounded := q.bounded
  rw [h.fits_iff, PushRight, h.size_eq, and_congr_left_iff]
  intro _
  by_cases hd : queue.difference = queue.size
  · rw [h.size_eq] at hd hfull
    simp only [dataQueueCall, push_refuses (h.size_eq ▸ hd), hd, true_or, iff_true]
    refine iff_of_false ?_ (Nat.not_lt.mpr (Nat.le_of_eq (hfull.mp hd).2.symm))
    decide
  · simp only [dataQueueCall, push_stores hd h.nobody_pops, DataQueueTurn.answer, true_iff]
    rw [h.size_eq] at hd
    simp only [hd, false_or]

end RtDataQueue

/-! ## Runs -/

/-- A run whose pushes all meet `PushFits` is the run of a bounded queue, with its items in the
cells from `get_index` on, and the next push is right exactly if it meets `PushFits` too. -/
theorem dataQueue_refines_fifo {size lwm : Nat} {evtNotify : Bool} {cells : List RtDataItem}
    (hpos : 1 ≤ size) (hlt : size < 0x10000) (hcells : cells.length = size)
    {calls : List DataQueueCall}
    (hfits : (dataQueueObject size lwm evtNotify cells).Meets (fun queue call => call.Fits queue)
      (dataQueueObject size lwm evtNotify cells).init calls) :
    let code := (dataQueueObject size lwm evtNotify cells).run
      (dataQueueObject size lwm evtNotify cells).init calls
    let fifo := (itemQueueObject size).run (itemQueueObject size).init calls
    code.2 = fifo.2 ∧
      (∀ offset < fifo.1.items.length,
        code.1.queue[code.1.cell offset]? = fifo.1.items[offset]?) ∧
      ∀ thread item, code.1.PushRight fifo.1.items.length thread item ↔ code.1.PushFits := by
  have hinit : (dataQueueObject size lwm evtNotify cells).init.Stands (itemQueueObject size).init :=
    RtDataQueue.stands_init hpos hlt hcells
  obtain ⟨hanswers, hstands⟩ := Object.run_refines (O := dataQueueObject size lwm evtNotify cells)
    (A := itemQueueObject size) (R := RtDataQueue.Stands)
    (fun _ _ call h hok => h.call call hok) hinit hfits
  exact ⟨hanswers, hstands.items, hstands.pushRight_iff⟩

/-- A thread and two items. -/
def someThread : RtThread := ⟨0, 10⟩
def oneItem : RtDataItem := ⟨0x20000000, 4⟩
def otherItem : RtDataItem := ⟨0x20000004, 4⟩

/-- A queue of three items through pushes, pops and peeks. -/
theorem dataQueue_refines_fifo_three :
    let cells := List.replicate 3 oneItem
    let calls : List DataQueueCall := [.push someThread otherItem, .push someThread oneItem,
      .pop someThread, .push someThread oneItem, .peak]
    let code := (dataQueueObject 3 1 true cells).run (dataQueueObject 3 1 true cells).init calls
    let fifo := (itemQueueObject 3).run (itemQueueObject 3).init calls
    code.2 = fifo.2 ∧
      (∀ offset < fifo.1.items.length,
        code.1.queue[code.1.cell offset]? = fifo.1.items[offset]?) ∧
      ∀ thread item, code.1.PushRight fifo.1.items.length thread item ↔ code.1.PushFits :=
  @dataQueue_refines_fifo 3 1 true (List.replicate 3 oneItem) (by decide) (by decide) rfl _
    (by decide)

/-! ## Behind the wrap -/

/-- One item after the other through a queue of size 1. -/
def oneByOne (count : Nat) : List DataQueueCall :=
  (List.replicate count [.push someThread oneItem, .pop someThread]).flatten

/-- The queue of size 1 behind as many items, all of them out again. -/
def passed (index : Nat) : RtDataQueue :=
  { rtDataQueueInit 1 0 false [oneItem] with getIndex := index, putIndex := index }

/-- A push behind `index` items that have passed. -/
theorem call_push_passed (index : Nat) :
    dataQueueCall (passed index) (.push someThread oneItem) =
      ({ passed index with putIndex := (index + 1) % 0x10000 }, some (rtEok, none)) := by
  have hfull : (passed index).difference ≠ (passed index).size := by
    change (index : Int) - index ≠ 1
    omega
  have hcells : (passed index).queue.set ((passed index).putIndex % (passed index).size) oneItem =
      [oneItem] := by
    change [oneItem].set (index % 1) oneItem = [oneItem]
    rw [Nat.mod_one, List.set_cons_zero]
  rw [dataQueueCall, RtDataQueue.push_stores hfull rfl, hcells]
  rfl

theorem call_pop_passed {index : Nat} (hlt : index + 1 < 0x10000) :
    dataQueueCall { passed index with putIndex := (index + 1) % 0x10000 } (.pop someThread) =
      (passed (index + 1), some (rtEok, some oneItem)) := by
  have hindex : (index + 1) % 0x10000 = index + 1 := Nat.mod_eq_of_lt hlt
  rw [hindex]
  obtain ⟨event, hpop⟩ := @RtDataQueue.pop_reads { passed index with putIndex := index + 1 }
    (Nat.ne_of_lt (Nat.lt_succ_self index)) rfl someThread
  rw [dataQueueCall, hpop]
  simp only [hindex, passed, DataQueueTurn.answer, rtDataQueueInit, Nat.mod_one,
    List.getElem?_cons_zero]

/-- The code behind as many items as there are numbers before the wrap. -/
theorem run_oneByOne (count index : Nat) (hlt : index + count < 0x10000) :
    ((dataQueueObject 1 0 false [oneItem]).run (passed index) (oneByOne count)).1 =
      passed (index + count) := by
  induction count generalizing index with
  | zero => rfl
  | succ count ih =>
    have hsplit : oneByOne (count + 1) =
        .push someThread oneItem :: .pop someThread :: oneByOne count := by
      rw [oneByOne, List.replicate_succ, List.flatten_cons]
      rfl
    rw [hsplit]
    simp only [Object.run]
    change ((dataQueueObject 1 0 false [oneItem]).run (dataQueueCall (dataQueueCall (passed index)
      (.push someThread oneItem)).1 (.pop someThread)).1 (oneByOne count)).1 = _
    rw [call_push_passed, call_pop_passed (by omega), ih (index + 1) (by omega), Nat.add_assoc,
      Nat.add_comm 1 count]

/-- The queue is empty after items that pass one by one. -/
theorem run_oneByOne_fifo (count : Nat) :
    ((itemQueueObject 1).run .empty (oneByOne count)).1 = .empty := by
  induction count with
  | zero => rfl
  | succ count ih =>
    have hsplit : oneByOne (count + 1) =
        .push someThread oneItem :: .pop someThread :: oneByOne count := by
      rw [oneByOne, List.replicate_succ, List.flatten_cons]
      rfl
    rw [hsplit]
    exact ih

/-- The 65536th item fills a queue of size 1, and the one behind it is put on top of it. -/
theorem dataQueue_overwrites :
    let calls := oneByOne 0xFFFF ++ [.push someThread oneItem, .push someThread otherItem, .peak]
    let code := (dataQueueObject 1 0 false [oneItem]).run
      (dataQueueObject 1 0 false [oneItem]).init calls
    let fifo := (itemQueueObject 1).run (itemQueueObject 1).init calls
    code.2.drop (oneByOne 0xFFFF).length =
        [some (rtEok, none), some (rtEok, none), some (rtEok, some otherItem)] ∧
      fifo.2.drop (oneByOne 0xFFFF).length =
        [some (rtEok, none), some (-rtEtimeout, none), some (rtEok, some oneItem)] := by
  have hcode : ((dataQueueObject 1 0 false [oneItem]).run
      (dataQueueObject 1 0 false [oneItem]).init (oneByOne 0xFFFF)).1 = passed 0xFFFF :=
    run_oneByOne 0xFFFF 0 (by decide)
  have hfifo : ((itemQueueObject 1).run (itemQueueObject 1).init (oneByOne 0xFFFF)).1 = .empty :=
    run_oneByOne_fifo 0xFFFF
  intro calls code fifo
  constructor
  · rw [Object.drop_run_append, hcode]
    decide
  · rw [Object.drop_run_append, hfifo]
    decide

end RtVcom.Driver
