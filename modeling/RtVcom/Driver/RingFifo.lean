import RtVcom.Driver.RingBuffer
import RtVcom.Lib.BoundedQueue
import RtVcom.Lib.Object

/-!
# The ring buffer as a bounded queue

The calls of `ringbuffer.c` as an object with answers, beside the queue of at most `buffer_size`
bytes that it stands for. `refines_call` is the law of one call, and the runs of the two objects
answer the same whatever the order and the lengths.

`rt_ringbuffer_put_force` is not among these calls. It drops the oldest bytes like
`rt_ringbuffer_putchar_force`, byte by byte, except where it writes around the end of the pool while
the reader is on the same side of the mirror and has bytes left: there it flips the mirror of the
reader too, and the full buffer is taken for an empty one.
-/

namespace RtVcom.Driver

open RtVcom.Lib

/-! ## The remaining operations -/

/-- `rt_ringbuffer_putchar`: one byte where there is room. Answers how much was put. -/
def rtRingbufferPutchar (rb : RtRingbuffer) (ch : UInt8) : RtRingbuffer × Nat :=
  if rtRingbufferSpaceLen rb = 0 then (rb, 0)
  else
    let rb := { rb with buffer := rb.buffer.set rb.writeIndex ch }
    if rb.writeIndex = rb.bufferSize - 1 then
      ({ rb with writeMirror := !rb.writeMirror, writeIndex := 0 }, 1)
    else ({ rb with writeIndex := rb.writeIndex + 1 }, 1)

/-- `rt_ringbuffer_reset`. -/
def rtRingbufferReset (rb : RtRingbuffer) : RtRingbuffer :=
  { rb with readMirror := false, readIndex := 0, writeMirror := false, writeIndex := 0 }

variable {rb : RtRingbuffer}

/-- A byte for which there is room is put as by force. -/
theorem putchar_eq (h : rb.Valid) (ch : UInt8) :
    rtRingbufferPutchar rb ch =
      if rb.queue.length < rb.bufferSize then (rtRingbufferPutcharForce rb ch, 1) else (rb, 0) := by
  have hspace := spaceLen_eq h
  unfold rtRingbufferPutchar
  by_cases hroom : rb.queue.length < rb.bufferSize
  · have hfull : rtRingbufferStatus rb ≠ .full := by
      intro hfull
      have := (status_eq_full h).mp hfull
      omega
    rw [if_neg (by omega), if_pos hroom]
    unfold rtRingbufferPutcharForce
    simp only [hfull, if_false]
    split <;> rfl
  · rw [if_pos (by omega), if_neg hroom]

/-- `rt_ringbuffer_reset` keeps a buffer well formed. -/
theorem reset_valid (h : rb.Valid) : (rtRingbufferReset rb).Valid :=
  ⟨h.pos, h.length, h.pos, h.pos, fun _ => Nat.le_refl 0, fun hne => absurd rfl hne⟩

theorem queue_reset (rb : RtRingbuffer) : (rtRingbufferReset rb).queue = [] := by
  rw [RtRingbuffer.queue, rtRingbufferDataLen, rtRingbufferStatus, rtRingbufferReset, if_pos rfl,
    if_pos rfl, window_zero]

/-! ## The calls -/

/-- The calls of the ring buffer; a block stands with its length. -/
inductive RingCall
  | put (ptr : List UInt8)
  | putchar (ch : UInt8)
  | putcharForce (ch : UInt8)
  | get (length : Nat)
  | getchar
  | reset
deriving Repr, DecidableEq

/-- What they answer: how much was put, or the bytes that were got. -/
inductive RingAnswer
  | put (count : Nat)
  | got (bytes : List UInt8)
  | none
deriving Repr, DecidableEq

/-- A call of the code. -/
def ringCall (rb : RtRingbuffer) : RingCall → RtRingbuffer × RingAnswer
  | .put ptr => ((rtRingbufferPut rb ptr).1, .put (rtRingbufferPut rb ptr).2)
  | .putchar ch => ((rtRingbufferPutchar rb ch).1, .put (rtRingbufferPutchar rb ch).2)
  | .putcharForce ch => (rtRingbufferPutcharForce rb ch, .put 1)
  | .get length => ((rtRingbufferGet rb length).2, .got (rtRingbufferGet rb length).1)
  | .getchar =>
    match rtRingbufferGetchar rb with
    | some (ch, rb) => (rb, .got [ch])
    | .none => (rb, .got [])
  | .reset => (rtRingbufferReset rb, .none)

/-- The same call of a bounded queue of bytes. -/
def fifoCall {capacity : Nat} (q : BoundedQueue UInt8 capacity) :
    RingCall → BoundedQueue UInt8 capacity × RingAnswer
  | .put ptr => (q.offerAll ptr, .put (min ptr.length q.room))
  | .putchar ch => (q.offer ch, .put (if q.items.length < capacity then 1 else 0))
  | .putcharForce ch => (q.force ch, .put 1)
  | .get length => (q.dropFront length, .got (q.items.take length))
  | .getchar => (q.dropFront 1, .got (q.items.take 1))
  | .reset => (.empty, .none)

/-- The ring buffer over a pool, from `rt_ringbuffer_init` on. -/
def ringObject (pool : List UInt8) (size : Nat) : Object RtRingbuffer RingCall RingAnswer where
  init := rtRingbufferInit pool size
  call := ringCall

/-- The empty queue of at most `capacity` bytes. -/
def fifoObject (capacity : Nat) : Object (BoundedQueue UInt8 capacity) RingCall RingAnswer where
  init := .empty
  call := fifoCall

/-- A valid ring buffer stands for a bounded queue. -/
structure RtRingbuffer.Stands {capacity : Nat} (rb : RtRingbuffer)
    (q : BoundedQueue UInt8 capacity) : Prop where
  valid : rb.Valid
  size : rb.bufferSize = capacity
  queue : rb.queue = q.items

variable {capacity : Nat} {q : BoundedQueue UInt8 capacity}

/-- `rt_ringbuffer_put` returns how many bytes it stored. -/
theorem put_snd (rb : RtRingbuffer) (ptr : List UInt8) :
    (rtRingbufferPut rb ptr).2 = min ptr.length (rtRingbufferSpaceLen rb) := by
  unfold rtRingbufferPut
  dsimp only
  split
  · next hzero => rw [hzero, Nat.min_zero]
  · split
    · next hcut => rw [List.length_take, Nat.min_comm]
    · next hfit => exact (Nat.min_eq_left (Nat.le_of_not_lt hfit)).symm

theorem bufferSize_put (h : rb.Valid) (ptr : List UInt8) :
    (rtRingbufferPut rb ptr).1.bufferSize = rb.bufferSize := by
  rw [put_eq_storeBlock h, (storeBlock_fields _ _).2.2]

theorem bufferSize_advanceRead (rb : RtRingbuffer) (k : Nat) :
    (advanceRead rb k).bufferSize = rb.bufferSize := by
  unfold advanceRead
  split <;> rfl

/-- The read index moved over data drops from the front of the queue. -/
theorem RtRingbuffer.Stands.advanceRead (h : rb.Stands q) {k : Nat} (hk : k ≤ rb.queue.length) :
    (advanceRead rb k).Stands (q.dropFront k) := by
  rw [length_queue h.valid] at hk
  obtain ⟨hvalid, hqueue⟩ := advanceRead_spec h.valid hk
  refine ⟨hvalid, (bufferSize_advanceRead rb k).trans h.size, ?_⟩
  rw [hqueue, h.queue, BoundedQueue.items_dropFront]

/-- A forced character drops the oldest one of a full queue. -/
theorem RtRingbuffer.Stands.putcharForce (h : rb.Stands q) (ch : UInt8) :
    (rtRingbufferPutcharForce rb ch).Stands (q.force ch) := by
  refine ⟨putcharForce_valid h.valid ch, (bufferSize_putcharForce rb ch).trans h.size, ?_⟩
  rw [queue_putcharForce h.valid, h.size, h.queue, BoundedQueue.items_force]

/-- One call: the ring buffer answers as the queue does and stands for it again. -/
theorem refines_call (h : rb.Stands q) (call : RingCall) :
    (ringCall rb call).2 = (fifoCall q call).2 ∧
      (ringCall rb call).1.Stands (fifoCall q call).1 := by
  have hlen : rb.queue.length = q.items.length := by rw [h.queue]
  have hroom : rtRingbufferSpaceLen rb = q.room := by
    rw [spaceLen_eq h.valid, h.size, hlen, BoundedQueue.room]
  cases call with
  | put ptr =>
    constructor
    · simp only [ringCall, fifoCall, put_snd, hroom]
    · refine ⟨put_valid h.valid ptr, (bufferSize_put h.valid ptr).trans h.size, ?_⟩
      simp only [ringCall, fifoCall, queue_put h.valid, hroom, h.queue, BoundedQueue.items_offerAll]
  | putchar ch =>
    simp only [ringCall, fifoCall, putchar_eq h.valid, h.size, hlen]
    by_cases hfits : q.items.length < capacity
    · have hoffer : q.offer ch = q.force ch := by
        ext1
        rw [BoundedQueue.items_offer, if_pos hfits, BoundedQueue.items_force, keepLast_of_length_le]
        rw [List.length_append, List.length_singleton]
        omega
      simp only [hfits, if_true, hoffer]
      exact ⟨trivial, h.putcharForce ch⟩
    · have hoffer : q.offer ch = q := by
        ext1
        rw [BoundedQueue.items_offer, if_neg hfits]
      simp only [hfits, if_false, hoffer]
      exact ⟨trivial, h⟩
  | putcharForce ch => exact ⟨rfl, h.putcharForce ch⟩
  | get length =>
    have hcount : rtRingbufferDataLen rb = q.items.length := by rw [← length_queue h.valid, hlen]
    simp only [ringCall, fifoCall, get_eq h.valid, h.queue, hcount]
    refine ⟨trivial, ?_⟩
    have hdrop : q.dropFront (min length q.items.length) = q.dropFront length := by
      ext1
      rw [BoundedQueue.items_dropFront, BoundedQueue.items_dropFront]
      rcases Nat.le_total length q.items.length with hle | hle
      · rw [Nat.min_eq_left hle]
      · rw [Nat.min_eq_right hle, List.drop_length, List.drop_eq_nil_of_le hle]
    rw [← hdrop]
    exact h.advanceRead (by omega)
  | getchar =>
    simp only [ringCall, fifoCall, getchar_eq h.valid, h.queue]
    cases hitems : q.items with
    | nil =>
      have hdrop : q.dropFront 1 = q := by
        ext1
        rw [BoundedQueue.items_dropFront, hitems, List.drop_nil]
      rw [hdrop]
      exact ⟨rfl, h⟩
    | cons ch rest =>
      refine ⟨rfl, h.advanceRead ?_⟩
      rw [hlen, hitems, List.length_cons]
      omega
  | reset => exact ⟨rfl, reset_valid h.valid, h.size, queue_reset rb⟩

/-- A new buffer stands for the empty queue. -/
theorem stands_init {pool : List UInt8} {size : Nat} (hpos : 0 < size) (halign : size % 4 = 0)
    (hpool : pool.length = size) :
    (rtRingbufferInit pool size).Stands (.empty : BoundedQueue UInt8 size) := by
  have hsize : rtAlignDown size = size := by
    unfold rtAlignDown
    omega
  exact ⟨init_valid (by omega) (by omega), hsize, queue_init pool size⟩

/-- A run from the initial buffer stands for the same run of the queue. -/
theorem ringbuffer_refines_fifo {pool : List UInt8} {size : Nat} (hpos : 0 < size)
    (halign : size % 4 = 0) (hpool : pool.length = size) (calls : List RingCall) :
    let ring := (ringObject pool size).run (ringObject pool size).init calls
    let fifo := (fifoObject size).run (fifoObject size).init calls
    ring.2 = fifo.2 ∧ ring.1.queue = fifo.1.items ∧
      rtRingbufferDataLen ring.1 = fifo.1.items.length ∧
      rtRingbufferSpaceLen ring.1 = size - fifo.1.items.length ∧
      ring.1.bufferSize = size ∧ ring.1.readIndex < size ∧ ring.1.writeIndex < size := by
  have hinit : (ringObject pool size).init.Stands (fifoObject size).init :=
    stands_init hpos halign hpool
  obtain ⟨hanswers, hstands⟩ := Object.run_refines (O := ringObject pool size)
    (A := fifoObject size) (R := RtRingbuffer.Stands) (fun _ _ call h _ => refines_call h call)
    hinit (Object.meets_anyCall _ _ calls)
  have hread := hstands.valid.read_lt
  have hwrite := hstands.valid.write_lt
  rw [hstands.size] at hread hwrite
  refine ⟨hanswers, hstands.queue, ?_, ?_, hstands.size, hread, hwrite⟩
  · rw [← hstands.queue, length_queue hstands.valid]
  · rw [spaceLen_eq hstands.valid, hstands.size, hstands.queue]

/-- A ring of four bytes through puts, forced characters, gets and a reset. -/
theorem ringbuffer_refines_fifo_four :
    let calls : List RingCall := [.put [1, 2, 3, 4, 5], .putcharForce 6, .get 1, .putchar 7,
      .getchar, .reset, .getchar]
    let ring := (ringObject [0, 0, 0, 0] 4).run (ringObject [0, 0, 0, 0] 4).init calls
    let fifo := (fifoObject 4).run (fifoObject 4).init calls
    ring.2 = fifo.2 ∧ ring.1.queue = fifo.1.items ∧
      rtRingbufferDataLen ring.1 = fifo.1.items.length ∧
      rtRingbufferSpaceLen ring.1 = 4 - fifo.1.items.length ∧
      ring.1.bufferSize = 4 ∧ ring.1.readIndex < 4 ∧ ring.1.writeIndex < 4 :=
  ringbuffer_refines_fifo (by decide) (by decide) rfl _

/-! ## The forced block -/

/-- A forced put copies the newest bytes of its block. -/
theorem forceBlock_eq (rb : RtRingbuffer) (ptr : List UInt8) :
    forceBlock rb ptr = keepLast rb.bufferSize ptr := by
  unfold forceBlock
  split
  · rfl
  · exact (keepLast_of_length_le (by omega)).symm

/-- The write index behind a stored block. -/
theorem writeIndex_storeBlock (h : rb.Valid) (ptr : List UInt8) :
    (storeBlock rb ptr).writeIndex = slot rb.bufferSize rb.writeIndex ptr.length := by
  have hwrite := h.write_lt
  unfold storeBlock slot
  split <;> split <;> simp only <;> omega

/-- A forced block that fits loses nothing but what is too long for the pool. -/
theorem queue_putForce_fits (h : rb.Valid) {ptr : List UInt8}
    (hfits : (forceBlock rb ptr).length ≤ rtRingbufferSpaceLen rb) :
    (rtRingbufferPutForce rb ptr).1.queue = keepLast rb.bufferSize (rb.queue ++ ptr) := by
  have hput : (rtRingbufferPutForce rb ptr).1 = storeBlock rb (forceBlock rb ptr) := by
    simp only [rtRingbufferPutForce, Nat.not_lt.mpr hfits, if_false]
    split <;> rfl
  have hdata := dataLen_le h
  have hbound : (rb.queue ++ forceBlock rb ptr).length ≤ rb.bufferSize := by
    rw [rtRingbufferSpaceLen] at hfits
    rw [List.length_append, length_queue h]
    omega
  rw [hput, queue_storeBlock h hfits, ← keepLast_of_length_le hbound, forceBlock_eq,
    keepLast_append_right]

/-- A forced block that overruns a reader on the other side of the mirror leaves the buffer full,
with the newest bytes. -/
theorem queue_putForce_other (h : rb.Valid) {ptr : List UInt8}
    (hover : rtRingbufferSpaceLen rb < (forceBlock rb ptr).length)
    (hmirror : rb.readMirror ≠ rb.writeMirror) :
    (rtRingbufferPutForce rb ptr).1.queue = keepLast rb.bufferSize (rb.queue ++ ptr) := by
  have hlen := h.length
  have hread := h.read_lt
  have hdata := dataLen_le h
  have hle := length_forceBlock rb ptr
  have hidx := writeIndex_storeBlock h (forceBlock rb ptr)
  have hbehind := writeIndex_eq_slot h
  have hput : (rtRingbufferPutForce rb ptr).1 = { storeBlock rb (forceBlock rb ptr) with
      readMirror := !(storeBlock rb (forceBlock rb ptr)).writeMirror
      readIndex := (storeBlock rb (forceBlock rb ptr)).writeIndex } := by
    have hopp : rb.readMirror = !rb.writeMirror := by
      cases hr : rb.readMirror <;> cases hw : rb.writeMirror <;> simp_all
    simp only [rtRingbufferPutForce, hover, if_true, storeBlock]
    split
    · simp only [hopp]
    · simp only [hopp]
  have hvalid := putForce_valid h ptr
  have hfull : rtRingbufferDataLen (rtRingbufferPutForce rb ptr).1 = rb.bufferSize := by
    have hflip (b : Bool) : ¬ (!b) = b := by cases b <;> decide
    rw [dataLen_eq hvalid, hput]
    simp only [hflip, if_false, Nat.sub_self, Nat.sub_zero]
    exact (storeBlock_fields _ _).2.2
  rw [rtRingbufferSpaceLen] at hover
  have hover' := (written_storeBlock h hle).window_overrun rb.readIndex (rtRingbufferDataLen rb)
    (by omega) (by rw [hlen]; exact hbehind) (by omega) (by omega) (by omega)
  rw [hlen, ← hidx] at hover'
  rw [RtRingbuffer.queue, hfull, hput]
  rw [forceBlock_eq, keepLast_append_right] at hover'
  rw [forceBlock_eq]
  exact hover'

/-- A forced block that overruns a reader on the same side of the mirror leaves nothing. -/
theorem queue_putForce_same (h : rb.Valid) {ptr : List UInt8}
    (hover : rtRingbufferSpaceLen rb < (forceBlock rb ptr).length)
    (hmirror : rb.readMirror = rb.writeMirror) :
    (rtRingbufferPutForce rb ptr).1.queue = [] := by
  have hwrite := h.write_lt
  have hord := h.same hmirror
  have hwrap : ¬ (forceBlock rb ptr).length < rb.bufferSize - rb.writeIndex := by
    rw [rtRingbufferSpaceLen, dataLen_eq h, if_pos hmirror] at hover
    omega
  have hempty : rtRingbufferDataLen (rtRingbufferPutForce rb ptr).1 = 0 := by
    simp only [rtRingbufferPutForce, hover, if_true, hwrap, if_false, rtRingbufferDataLen,
      rtRingbufferStatus, storeBlock, hmirror]
  rw [RtRingbuffer.queue, hempty, window_zero]

/-- Bytes forced one by one are what the forced queue keeps. -/
theorem foldl_putcharForce (h : rb.Valid) (ptr : List UInt8) :
    (ptr.foldl rtRingbufferPutcharForce rb).queue = keepLast rb.bufferSize (rb.queue ++ ptr) := by
  have hle := dataLen_le h
  rw [← length_queue h] at hle
  have hstands : rb.Stands (⟨rb.queue, hle⟩ : BoundedQueue UInt8 rb.bufferSize) := ⟨h, rfl, rfl⟩
  have hfold {capacity : Nat} {q : BoundedQueue UInt8 capacity} {rb : RtRingbuffer}
      (hq : rb.Stands q) :
      (ptr.foldl rtRingbufferPutcharForce rb).Stands (ptr.foldl BoundedQueue.force q) := by
    induction ptr generalizing rb q with
    | nil => exact hq
    | cons ch ptr ih => exact ih (hq.putcharForce ch)
  rw [(hfold hstands).queue, BoundedQueue.foldl_force, BoundedQueue.items_forceAll]

/-- `rt_ringbuffer_put_force` keeps the newest bytes, like the bytes forced one by one, exactly when
the buffer was empty, or the reader was on the other side of the mirror, or everything fits. -/
theorem putForce_keeps_newest_iff (h : rb.Valid) (ptr : List UInt8) :
    ((rtRingbufferPutForce rb ptr).1.queue = keepLast rb.bufferSize (rb.queue ++ ptr) ∧
      (rtRingbufferPutForce rb ptr).1.queue = (ptr.foldl rtRingbufferPutcharForce rb).queue) ↔
    rb.queue = [] ∨ rb.readMirror ≠ rb.writeMirror ∨
      rb.queue.length + ptr.length ≤ rb.bufferSize := by
  have hblock : (forceBlock rb ptr).length = min rb.bufferSize ptr.length := by
    rw [forceBlock_eq, length_keepLast]
  have hspace := spaceLen_eq h
  have hpos := h.pos
  have hdata := dataLen_le h
  rw [← length_queue h] at hdata
  rw [foldl_putcharForce h, and_self]
  by_cases hfits : (forceBlock rb ptr).length ≤ rtRingbufferSpaceLen rb
  · refine iff_of_true (queue_putForce_fits h hfits) ?_
    by_cases hempty : rb.queue = []
    · exact .inl hempty
    · have hqueue := List.length_pos_iff.mpr hempty
      exact .inr (.inr (by omega))
  · have hover := Nat.lt_of_not_le hfits
    by_cases hmirror : rb.readMirror = rb.writeMirror
    · refine iff_of_false ?_ ?_
      · rw [queue_putForce_same h hover hmirror]
        intro hnil
        have hcount := congrArg List.length hnil
        rw [length_keepLast, List.length_append, List.length_nil] at hcount
        omega
      · rintro (hempty | hne | hall)
        · rw [hempty, List.length_nil] at hspace
          omega
        · exact hne hmirror
        · omega
    · exact iff_of_true (queue_putForce_other h hover hmirror) (.inr (.inl hmirror))

/-- Two bytes of four are stored. -/
def twoOfFour : RtRingbuffer := (rtRingbufferPut (rtRingbufferInit [0, 0, 0, 0] 4) [1, 2]).1

/-- A buffer of four bytes with two of them in use is well formed. -/
theorem twoOfFour_valid : twoOfFour.Valid :=
  put_valid (init_valid (by decide) rfl) [1, 2]

/-- Two bytes forced into the buffer that holds two. -/
theorem putForce_keeps_newest_iff_two :
    ((rtRingbufferPutForce twoOfFour [3, 4]).1.queue = keepLast 4 (twoOfFour.queue ++ [3, 4]) ∧
      (rtRingbufferPutForce twoOfFour [3, 4]).1.queue =
        ([3, 4].foldl rtRingbufferPutcharForce twoOfFour).queue) ↔
    twoOfFour.queue = [] ∨ twoOfFour.readMirror ≠ twoOfFour.writeMirror ∨
      twoOfFour.queue.length + [3, 4].length ≤ 4 :=
  putForce_keeps_newest_iff twoOfFour_valid [3, 4]

/-- Three bytes forced into a buffer of four that holds two leave nothing of the five. -/
theorem putForce_loses_all :
    twoOfFour.Valid ∧ twoOfFour.queue = [1, 2] ∧
      (rtRingbufferPutForce twoOfFour [3, 4, 5]).1.queue = [] ∧
      keepLast twoOfFour.bufferSize (twoOfFour.queue ++ [3, 4, 5]) = [2, 3, 4, 5] ∧
      ([3, 4, 5].foldl rtRingbufferPutcharForce twoOfFour).queue = [2, 3, 4, 5] :=
  ⟨twoOfFour_valid, rfl, rfl, rfl, rfl⟩

end RtVcom.Driver
