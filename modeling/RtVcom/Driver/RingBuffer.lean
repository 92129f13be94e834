import RtVcom.Lib.Circular

/-!
# The ring buffer of the device drivers

`components/drivers/src/ringbuffer.c`. Both indices carry a mirror bit that flips when the
index passes the end of the pool, so that equal indices mean an empty buffer under equal
mirrors and a full one under different mirrors; no cell is lost to tell the two apart.

A block is passed with its length, which is 16 bits wide in the source; here the block is the
list itself. `rt_ringbuffer_put` stores what fits, the forced variants discard old data.

The abstract reading is `RtRingbuffer.queue`. The laws say what each operation does to it:
`queue_put` appends what fits, `queue_putForce` appends a block that fits,
`queue_putcharForce` is the queue that discards its oldest byte, and `get_fst`, `queue_get`
take from the front. `RtRingbuffer.Valid` is what every operation keeps, the forced block put
with an overflow included. `RingQueue` is the buffer with this validity.
-/

namespace RtVcom.Driver

open RtVcom.Lib

/-! ## The data and its operations -/

/-- `struct rt_ringbuffer`. -/
structure RtRingbuffer where
  buffer : List UInt8
  readMirror : Bool
  readIndex : Nat
  writeMirror : Bool
  writeIndex : Nat
  bufferSize : Nat
deriving Repr, DecidableEq

/-- `enum rt_ringbuffer_state`. -/
inductive RtRingbufferState
  | empty
  | full
  | halffull
deriving Repr, DecidableEq

/-- `rt_ringbuffer_status`. -/
def rtRingbufferStatus (rb : RtRingbuffer) : RtRingbufferState :=
  if rb.readIndex = rb.writeIndex then
    if rb.readMirror = rb.writeMirror then .empty else .full
  else .halffull

/-- `rt_ringbuffer_data_len`. -/
def rtRingbufferDataLen (rb : RtRingbuffer) : Nat :=
  match rtRingbufferStatus rb with
  | .empty => 0
  | .full => rb.bufferSize
  | .halffull =>
    if rb.readIndex < rb.writeIndex then rb.writeIndex - rb.readIndex
    else rb.bufferSize - (rb.readIndex - rb.writeIndex)

/-- `rt_ringbuffer_space_len`. -/
def rtRingbufferSpaceLen (rb : RtRingbuffer) : Nat := rb.bufferSize - rtRingbufferDataLen rb

/-- `RT_ALIGN_DOWN(size, RT_ALIGN_SIZE)`. -/
def rtAlignDown (size : Nat) : Nat := size / 4 * 4

/-- `rt_ringbuffer_init`. -/
def rtRingbufferInit (pool : List UInt8) (size : Nat) : RtRingbuffer :=
  { buffer := pool, readMirror := false, readIndex := 0, writeMirror := false, writeIndex := 0
    bufferSize := rtAlignDown size }

/-- The copy of a block behind the write index, and the index moved behind it: in one piece,
or around the end of the pool and into the other side of the mirror. -/
def storeBlock (rb : RtRingbuffer) (ptr : List UInt8) : RtRingbuffer :=
  if ptr.length < rb.bufferSize - rb.writeIndex then
    { rb with
      buffer := blit rb.buffer rb.writeIndex ptr
      writeIndex := rb.writeIndex + ptr.length }
  else
    { rb with
      buffer := blit (blit rb.buffer rb.writeIndex (ptr.take (rb.bufferSize - rb.writeIndex))) 0
        (ptr.drop (rb.bufferSize - rb.writeIndex))
      writeMirror := !rb.writeMirror
      writeIndex := ptr.length - (rb.bufferSize - rb.writeIndex) }

/-- `rt_ringbuffer_put`: what does not fit is dropped. Answers how much was put. -/
def rtRingbufferPut (rb : RtRingbuffer) (ptr : List UInt8) : RtRingbuffer × Nat :=
  let size := rtRingbufferSpaceLen rb
  if size = 0 then (rb, 0)
  else
    let ptr := if size < ptr.length then ptr.take size else ptr
    (storeBlock rb ptr, ptr.length)

/-- The end of a block that is longer than the pool. -/
def forceBlock (rb : RtRingbuffer) (ptr : List UInt8) : List UInt8 :=
  if rb.bufferSize < ptr.length then ptr.drop (ptr.length - rb.bufferSize) else ptr

/-- `rt_ringbuffer_put_force`: old data is discarded to make room. -/
def rtRingbufferPutForce (rb : RtRingbuffer) (ptr : List UInt8) : RtRingbuffer × Nat :=
  let spaceLength := rtRingbufferSpaceLen rb
  let ptr := forceBlock rb ptr
  let stored := storeBlock rb ptr
  if ptr.length < rb.bufferSize - rb.writeIndex then
    (if spaceLength < ptr.length then { stored with readIndex := stored.writeIndex } else stored,
      ptr.length)
  else
    (if spaceLength < ptr.length then
        { stored with readMirror := !rb.readMirror, readIndex := stored.writeIndex }
      else stored,
      ptr.length)

/-- `rt_ringbuffer_get`: at most `length` bytes from the front. -/
def rtRingbufferGet (rb : RtRingbuffer) (length : Nat) : List UInt8 × RtRingbuffer :=
  let size := rtRingbufferDataLen rb
  if size = 0 then ([], rb)
  else
    let length := if size < length then size else length
    if length < rb.bufferSize - rb.readIndex then
      ((rb.buffer.drop rb.readIndex).take length, { rb with readIndex := rb.readIndex + length })
    else
      ((rb.buffer.drop rb.readIndex).take (rb.bufferSize - rb.readIndex) ++
          rb.buffer.take (length - (rb.bufferSize - rb.readIndex)),
        { rb with
          readMirror := !rb.readMirror
          readIndex := length - (rb.bufferSize - rb.readIndex) })

/-- `rt_ringbuffer_putchar_force`: one byte, discarding one when the buffer is full. -/
def rtRingbufferPutcharForce (rb : RtRingbuffer) (ch : UInt8) : RtRingbuffer :=
  let oldState := rtRingbufferStatus rb
  let rb := { rb with buffer := rb.buffer.set rb.writeIndex ch }
  if rb.writeIndex = rb.bufferSize - 1 then
    let rb := { rb with writeMirror := !rb.writeMirror, writeIndex := 0 }
    if oldState = .full then { rb with readMirror := !rb.readMirror, readIndex := rb.writeIndex }
    else rb
  else
    let rb := { rb with writeIndex := rb.writeIndex + 1 }
    if oldState = .full then { rb with readIndex := rb.writeIndex } else rb

/-- `rt_ringbuffer_getchar`: the front byte, if there is one. -/
def rtRingbufferGetchar (rb : RtRingbuffer) : Option (UInt8 × RtRingbuffer) :=
  if rtRingbufferDataLen rb = 0 then none
  else
    let ch := rb.buffer.getD rb.readIndex 0
    if rb.readIndex = rb.bufferSize - 1 then
      some (ch, { rb with readMirror := !rb.readMirror, readIndex := 0 })
    else some (ch, { rb with readIndex := rb.readIndex + 1 })

/-! ## Validity -/

/-- What the operations keep: the indices are in the pool, and the write index is ahead of the
read index on the same side of the mirror and behind it on the other side. -/
structure RtRingbuffer.Valid (rb : RtRingbuffer) : Prop where
  pos : 0 < rb.bufferSize
  length : rb.buffer.length = rb.bufferSize
  read_lt : rb.readIndex < rb.bufferSize
  write_lt : rb.writeIndex < rb.bufferSize
  same : rb.readMirror = rb.writeMirror → rb.readIndex ≤ rb.writeIndex
  other : rb.readMirror ≠ rb.writeMirror → rb.writeIndex ≤ rb.readIndex

/-- The bytes in the buffer, oldest first. -/
def RtRingbuffer.queue (rb : RtRingbuffer) : List UInt8 :=
  window rb.buffer rb.readIndex (rtRingbufferDataLen rb)

variable {rb : RtRingbuffer}

/-- The length of the data in terms of the mirrors. -/
theorem dataLen_eq (h : rb.Valid) :
    rtRingbufferDataLen rb =
      if rb.readMirror = rb.writeMirror then rb.writeIndex - rb.readIndex
      else rb.bufferSize - (rb.readIndex - rb.writeIndex) := by
  have hread := h.read_lt
  have hwrite := h.write_lt
  have hsame := h.same
  have hother := h.other
  unfold rtRingbufferDataLen rtRingbufferStatus
  by_cases hm : rb.readMirror = rb.writeMirror
  · have hle := hsame hm
    simp only [hm, if_true]
    by_cases he : rb.readIndex = rb.writeIndex
    · simp only [he, if_true, Nat.sub_self]
    · have hlt : rb.readIndex < rb.writeIndex := by omega
      simp only [he, if_false, hlt, if_true]
  · have hle := hother hm
    simp only [hm, if_false]
    by_cases he : rb.readIndex = rb.writeIndex
    · simp only [he, if_true, Nat.sub_self, Nat.sub_zero]
    · have hlt : ¬ rb.readIndex < rb.writeIndex := by omega
      simp only [he, if_false, hlt]

/-- The data never exceed the buffer. -/
theorem dataLen_le (h : rb.Valid) : rtRingbufferDataLen rb ≤ rb.bufferSize := by
  have hwrite := h.write_lt
  rw [dataLen_eq h]
  split <;> omega

/-- The bytes stored are as many as `rt_ringbuffer_data_len` says. -/
theorem length_queue (h : rb.Valid) : rb.queue.length = rtRingbufferDataLen rb := by
  have hlen := h.length
  have hread := h.read_lt
  have hle := dataLen_le h
  exact length_window (by omega) (by omega)

theorem spaceLen_eq (h : rb.Valid) : rtRingbufferSpaceLen rb = rb.bufferSize - rb.queue.length := by
  rw [length_queue h, rtRingbufferSpaceLen]

/-- The write index stands right behind the data. -/
theorem writeIndex_eq_slot (h : rb.Valid) :
    rb.writeIndex = slot rb.bufferSize rb.readIndex (rtRingbufferDataLen rb) := by
  have hread := h.read_lt
  have hwrite := h.write_lt
  have hsame := h.same
  have hother := h.other
  rw [dataLen_eq h]
  by_cases hm : rb.readMirror = rb.writeMirror
  · have hle := hsame hm
    rw [if_pos hm, slot]
    split <;> omega
  · have hle := hother hm
    rw [if_neg hm, slot]
    split <;> omega

theorem init_valid {pool : List UInt8} {size : Nat} (hpos : 0 < rtAlignDown size)
    (hpool : pool.length = rtAlignDown size) : (rtRingbufferInit pool size).Valid :=
  ⟨hpos, hpool, hpos, hpos, fun _ => Nat.le_refl 0, fun h => absurd rfl h⟩

theorem queue_init (pool : List UInt8) (size : Nat) : (rtRingbufferInit pool size).queue = [] := by
  rw [RtRingbuffer.queue, rtRingbufferDataLen, rtRingbufferStatus, rtRingbufferInit, if_pos rfl,
    if_pos rfl, window_zero]

/-! ## Putting blocks -/

/-- The copy of a block that is no longer than the pool. -/
theorem written_storeBlock (h : rb.Valid) {ptr : List UInt8} (hle : ptr.length ≤ rb.bufferSize) :
    Written rb.buffer (storeBlock rb ptr).buffer rb.writeIndex ptr := by
  have hlen := h.length
  have hwrite := h.write_lt
  unfold storeBlock
  split
  · exact written_blit (by omega)
  · rw [← hlen]
    exact written_blit_wrap (by omega) (by omega) (by omega)

/-- The write index of a stored block stays in the pool. -/
theorem writeIndex_storeBlock_lt (h : rb.Valid) {ptr : List UInt8}
    (hle : ptr.length ≤ rb.bufferSize) : (storeBlock rb ptr).writeIndex < rb.bufferSize := by
  have hwrite := h.write_lt
  unfold storeBlock
  split
  · simp only
    omega
  · simp only
    omega

/-- The copy leaves the read side and the size alone. -/
theorem storeBlock_fields (rb : RtRingbuffer) (ptr : List UInt8) :
    (storeBlock rb ptr).readIndex = rb.readIndex ∧ (storeBlock rb ptr).readMirror = rb.readMirror ∧
      (storeBlock rb ptr).bufferSize = rb.bufferSize := by
  unfold storeBlock
  split <;> exact ⟨rfl, rfl, rfl⟩

/-- A block that fits keeps the order of the indices. -/
theorem storeBlock_valid (h : rb.Valid) {ptr : List UInt8}
    (hfit : ptr.length ≤ rtRingbufferSpaceLen rb) : (storeBlock rb ptr).Valid := by
  have hread := h.read_lt
  have hwrite := h.write_lt
  have hle : ptr.length ≤ rb.bufferSize := Nat.le_trans hfit (Nat.sub_le _ _)
  have hbuf := (written_storeBlock h hle).length
  rw [h.length] at hbuf
  rw [rtRingbufferSpaceLen, dataLen_eq h] at hfit
  unfold storeBlock at hbuf ⊢
  by_cases hm : rb.readMirror = rb.writeMirror
  · have hord := h.same hm
    rw [if_pos hm] at hfit
    split
    · next hin =>
      rw [if_pos hin] at hbuf
      exact ⟨h.pos, hbuf, hread, by simp only; omega, fun _ => by simp only; omega,
        fun hne => absurd hm hne⟩
    · next hwrap =>
      rw [if_neg hwrap] at hbuf
      refine ⟨h.pos, hbuf, hread, by simp only; omega, fun he => ?_, fun _ => by simp only; omega⟩
      simp only [hm] at he
      exact absurd he (by cases rb.writeMirror <;> decide)
  · have hord := h.other hm
    rw [if_neg hm] at hfit
    split
    · next hin =>
      rw [if_pos hin] at hbuf
      exact ⟨h.pos, hbuf, hread, by simp only; omega, fun he => absurd he hm,
        fun _ => by simp only; omega⟩
    · next hwrap => omega

/-- A block that fits is counted. -/
theorem dataLen_storeBlock (h : rb.Valid) {ptr : List UInt8}
    (hfit : ptr.length ≤ rtRingbufferSpaceLen rb) :
    rtRingbufferDataLen (storeBlock rb ptr) = rtRingbufferDataLen rb + ptr.length := by
  have hread := h.read_lt
  have hwrite := h.write_lt
  rw [dataLen_eq (storeBlock_valid h hfit), dataLen_eq h]
  rw [rtRingbufferSpaceLen, dataLen_eq h] at hfit
  unfold storeBlock
  by_cases hm : rb.readMirror = rb.writeMirror
  · have hord := h.same hm
    simp only [hm, if_true] at hfit ⊢
    split
    · simp only [if_true]
      omega
    · have hflip : ¬ rb.writeMirror = !rb.writeMirror := by cases rb.writeMirror <;> decide
      simp only [hflip, if_false]
      omega
  · have hord := h.other hm
    simp only [hm, if_false] at hfit ⊢
    split
    · simp only
      omega
    · omega

/-- A block that fits is appended. -/
theorem queue_storeBlock (h : rb.Valid) {ptr : List UInt8}
    (hfit : ptr.length ≤ rtRingbufferSpaceLen rb) :
    (storeBlock rb ptr).queue = rb.queue ++ ptr := by
  have hlen := h.length
  have hread := h.read_lt
  have hdata := dataLen_le h
  have hle : ptr.length ≤ rb.bufferSize := Nat.le_trans hfit (Nat.sub_le _ _)
  rw [rtRingbufferSpaceLen] at hfit
  rw [RtRingbuffer.queue, dataLen_storeBlock h (by rw [rtRingbufferSpaceLen]; exact hfit),
    (storeBlock_fields rb ptr).1, RtRingbuffer.queue]
  exact (written_storeBlock h hle).window_append _ _ (by omega)
    (by rw [hlen]; exact writeIndex_eq_slot h) (by omega)

/-- What `rt_ringbuffer_put` stores. -/
theorem put_eq_storeBlock (h : rb.Valid) (ptr : List UInt8) :
    (rtRingbufferPut rb ptr).1 = storeBlock rb (ptr.take (rtRingbufferSpaceLen rb)) := by
  have hwrite := h.write_lt
  unfold rtRingbufferPut
  simp only
  split
  · next hzero =>
    have hin : (ptr.take 0).length < rb.bufferSize - rb.writeIndex := by
      rw [List.take_zero, List.length_nil]
      omega
    rw [hzero, storeBlock, if_pos hin]
    simp only [List.take_zero, blit, List.length_nil, Nat.add_zero, List.append_nil,
      List.take_append_drop]
  · split
    · rfl
    · next hfit => rw [List.take_of_length_le (by omega)]

/-- `rt_ringbuffer_put` keeps a buffer well formed. -/
theorem put_valid (h : rb.Valid) (ptr : List UInt8) : (rtRingbufferPut rb ptr).1.Valid := by
  rw [put_eq_storeBlock h]
  exact storeBlock_valid h (by rw [List.length_take]; omega)

/-- `rt_ringbuffer_put` appends what fits. -/
theorem queue_put (h : rb.Valid) (ptr : List UInt8) :
    (rtRingbufferPut rb ptr).1.queue = rb.queue ++ ptr.take (rtRingbufferSpaceLen rb) := by
  rw [put_eq_storeBlock h]
  exact queue_storeBlock h (by rw [List.length_take]; omega)

/-- What a forced put copies fits the buffer. -/
theorem length_forceBlock (rb : RtRingbuffer) (ptr : List UInt8) :
    (forceBlock rb ptr).length ≤ rb.bufferSize := by
  unfold forceBlock
  split
  · rw [List.length_drop]
    omega
  · omega

/-- A block that fits is stored; behind an overflow the read index follows the write index. -/
theorem putForce_cases (rb : RtRingbuffer) (ptr : List UInt8) :
    (forceBlock rb ptr).length ≤ rtRingbufferSpaceLen rb ∧
        (rtRingbufferPutForce rb ptr).1 = storeBlock rb (forceBlock rb ptr) ∨
      ∃ mirror, (rtRingbufferPutForce rb ptr).1 = { storeBlock rb (forceBlock rb ptr) with
        readMirror := mirror, readIndex := (storeBlock rb (forceBlock rb ptr)).writeIndex } := by
  by_cases hfit : (forceBlock rb ptr).length ≤ rtRingbufferSpaceLen rb
  · left
    refine ⟨hfit, ?_⟩
    simp only [rtRingbufferPutForce, Nat.not_lt.mpr hfit, if_false]
    split <;> rfl
  · right
    simp only [rtRingbufferPutForce, Nat.not_le.mp hfit, if_true]
    split
    · exact ⟨(storeBlock rb (forceBlock rb ptr)).readMirror, rfl⟩
    · exact ⟨!rb.readMirror, rfl⟩

/-- A forced put of a block that fits is an ordinary copy. -/
theorem putForce_eq_storeBlock {ptr : List UInt8} (hfit : ptr.length ≤ rtRingbufferSpaceLen rb) :
    (rtRingbufferPutForce rb ptr).1 = storeBlock rb ptr := by
  have hspace : rtRingbufferSpaceLen rb ≤ rb.bufferSize := Nat.sub_le _ _
  have hblock : forceBlock rb ptr = ptr := by rw [forceBlock, if_neg (by omega)]
  simp only [rtRingbufferPutForce, hblock, Nat.not_lt.mpr hfit, if_false]
  split <;> rfl

/-- A block is put by force without loss when it fits. -/
theorem queue_putForce (h : rb.Valid) {ptr : List UInt8}
    (hfit : ptr.length ≤ rtRingbufferSpaceLen rb) :
    (rtRingbufferPutForce rb ptr).1.queue = rb.queue ++ ptr := by
  rw [putForce_eq_storeBlock hfit]
  exact queue_storeBlock h hfit

/-- What `rt_ringbuffer_put_force` answers. -/
theorem putForce_snd (rb : RtRingbuffer) (ptr : List UInt8) :
    (rtRingbufferPutForce rb ptr).2 = (forceBlock rb ptr).length := by
  unfold rtRingbufferPutForce
  simp only
  split <;> rfl

/-- Putting nothing changes nothing. -/
theorem putForce_nil (h : rb.Valid) : (rtRingbufferPutForce rb []).1 = rb := by
  have hin : ([] : List UInt8).length < rb.bufferSize - rb.writeIndex := by
    have hwrite := h.write_lt
    rw [List.length_nil]
    omega
  rw [putForce_eq_storeBlock (Nat.zero_le _), storeBlock, if_pos hin]
  simp only [blit, List.length_nil, Nat.add_zero, List.append_nil, List.take_append_drop]

/-- Every block put by force keeps the validity, with or without an overflow. -/
theorem putForce_valid (h : rb.Valid) (ptr : List UInt8) :
    (rtRingbufferPutForce rb ptr).1.Valid := by
  have hle := length_forceBlock rb ptr
  rcases putForce_cases rb ptr with ⟨hfit, hput⟩ | ⟨mirror, hput⟩
  · rw [hput]
    exact storeBlock_valid h hfit
  · have hbuf := (written_storeBlock h hle).length
    have hwrite := writeIndex_storeBlock_lt h hle
    have hsize := (storeBlock_fields rb (forceBlock rb ptr)).2.2
    rw [h.length, ← hsize] at hbuf
    rw [← hsize] at hwrite
    rw [hput]
    exact ⟨Nat.zero_lt_of_lt hwrite, hbuf, hwrite, hwrite, fun _ => Nat.le_refl _,
      fun _ => Nat.le_refl _⟩

theorem bufferSize_putForce (rb : RtRingbuffer) (ptr : List UInt8) :
    (rtRingbufferPutForce rb ptr).1.bufferSize = rb.bufferSize := by
  have hsize := (storeBlock_fields rb (forceBlock rb ptr)).2.2
  rcases putForce_cases rb ptr with ⟨-, hput⟩ | ⟨mirror, hput⟩
  · rw [hput, hsize]
  · rw [hput]
    exact hsize

/-! ## Putting characters -/

/-- The status is full exactly when the bytes fill the buffer. -/
theorem status_eq_full (h : rb.Valid) :
    rtRingbufferStatus rb = .full ↔ rb.queue.length = rb.bufferSize := by
  have hread := h.read_lt
  have hwrite := h.write_lt
  rw [length_queue h, dataLen_eq h, rtRingbufferStatus]
  by_cases hm : rb.readMirror = rb.writeMirror
  · have hord := h.same hm
    simp only [hm, if_true]
    split
    · simp only [reduceCtorEq, false_iff]
      omega
    · simp only [reduceCtorEq, false_iff]
      omega
  · have hord := h.other hm
    simp only [hm, if_false]
    split
    · simp only [true_iff]
      omega
    · simp only [reduceCtorEq, false_iff]
      omega

/-- A byte into a buffer that is not full is a block of one. -/
theorem putcharForce_eq_storeBlock (h : rb.Valid) (ch : UInt8)
    (hfull : rtRingbufferStatus rb ≠ .full) :
    rtRingbufferPutcharForce rb ch = storeBlock rb [ch] := by
  have hlen := h.length
  have hwrite := h.write_lt
  have hset : ∀ j, j < rb.buffer.length → rb.buffer.set j ch = blit rb.buffer j [ch] := by
    intro j hj
    rw [List.set_eq_take_append_cons_drop, if_pos hj, blit, List.append_assoc,
      List.singleton_append, List.length_singleton]
  unfold rtRingbufferPutcharForce storeBlock
  simp only [hfull, if_false, List.length_singleton]
  by_cases hlast : rb.writeIndex = rb.bufferSize - 1
  · have hone : rb.bufferSize - rb.writeIndex = 1 := by omega
    simp only [hlast, if_true]
    rw [← hlast, hone, if_neg (Nat.lt_irrefl 1)]
    simp only [List.take_succ_cons, List.take_zero, List.drop_succ_cons, List.drop_zero,
      Nat.sub_self, ← hset _ (hlen ▸ hwrite)]
    simp only [blit, List.length_nil, List.take_zero, List.nil_append, List.drop_zero,
      Nat.add_zero]
  · have hin : 1 < rb.bufferSize - rb.writeIndex := by omega
    simp only [hlast, if_false, hin, if_true, ← hset _ (hlen ▸ hwrite)]

/-- A byte into a full buffer replaces the oldest one. -/
theorem putcharForce_full (h : rb.Valid) (ch : UInt8) (hfull : rtRingbufferStatus rb = .full) :
    (rtRingbufferPutcharForce rb ch).Valid ∧
      (rtRingbufferPutcharForce rb ch).queue = keepLast rb.bufferSize (rb.queue ++ [ch]) := by
  have hlen := h.length
  have hpos := h.pos
  have hread := h.read_lt
  have hwrite := h.write_lt
  have hdata : rtRingbufferDataLen rb = rb.bufferSize := by
    rw [← length_queue h]
    exact (status_eq_full h).mp hfull
  have hidx : rb.readIndex = rb.writeIndex ∧ rb.readMirror ≠ rb.writeMirror := by
    unfold rtRingbufferStatus at hfull
    split at hfull
    · next he =>
      split at hfull
      · cases hfull
      · next hne => exact ⟨he, hne⟩
    · cases hfull
  -- both indices move one place on, and stay on different sides of the mirror
  have hput : ∃ wm, (rtRingbufferPutcharForce rb ch) =
      { buffer := rb.buffer.set rb.readIndex ch, readMirror := !wm, writeMirror := wm
        readIndex := slot rb.bufferSize rb.readIndex 1
        writeIndex := slot rb.bufferSize rb.readIndex 1, bufferSize := rb.bufferSize } := by
    have hopp : rb.readMirror = !rb.writeMirror := by
      cases hr : rb.readMirror <;> cases hw : rb.writeMirror <;> simp_all
    unfold rtRingbufferPutcharForce
    simp only [hfull, if_true, hopp, hidx.1]
    split
    · next hlast =>
      have hslot : slot rb.bufferSize rb.writeIndex 1 = 0 := by
        unfold slot
        split <;> omega
      exact ⟨!rb.writeMirror, by rw [hslot]⟩
    · next hlast =>
      have hslot : slot rb.bufferSize rb.writeIndex 1 = rb.writeIndex + 1 := by
        unfold slot
        split <;> omega
      exact ⟨rb.writeMirror, by rw [hslot]⟩
  obtain ⟨wm, hput⟩ := hput
  have hslot : slot rb.bufferSize rb.readIndex 1 < rb.bufferSize := slot_lt hread (by omega)
  have hvalid : (rtRingbufferPutcharForce rb ch).Valid := by
    rw [hput]
    exact ⟨hpos, (List.length_set).trans hlen, hslot, hslot, fun _ => Nat.le_refl _,
      fun _ => Nat.le_refl _⟩
  refine ⟨hvalid, ?_⟩
  have hcount : rtRingbufferDataLen (rtRingbufferPutcharForce rb ch) = rb.bufferSize := by
    have hflip : ¬ (!wm) = wm := by cases wm <;> decide
    rw [dataLen_eq hvalid, hput]
    simp only [hflip, if_false, Nat.sub_self, Nat.sub_zero]
  have hwrap : rb.readIndex = slot rb.buffer.length rb.readIndex rb.bufferSize := by
    rw [hlen, slot]
    split <;> omega
  have hover := (written_set rb.buffer rb.readIndex (by omega) ch).window_overrun rb.readIndex
    rb.bufferSize (by omega) hwrap (by omega) (by rw [List.length_singleton]; omega) (by omega)
  rw [List.length_singleton, hlen] at hover
  rw [RtRingbuffer.queue, hcount, hput, RtRingbuffer.queue, hdata]
  exact hover

/-- The forced byte is the queue that discards its oldest. -/
theorem queue_putcharForce (h : rb.Valid) (ch : UInt8) :
    (rtRingbufferPutcharForce rb ch).queue = keepLast rb.bufferSize (rb.queue ++ [ch]) := by
  have hle := dataLen_le h
  have hlen := length_queue h
  by_cases hfull : rtRingbufferStatus rb = .full
  · exact (putcharForce_full h ch hfull).2
  · have hroom : rb.queue.length ≠ rb.bufferSize := fun he => hfull ((status_eq_full h).mpr he)
    rw [putcharForce_eq_storeBlock h ch hfull,
      queue_storeBlock h (by rw [spaceLen_eq h, List.length_singleton]; omega),
      keepLast_of_length_le]
    rw [List.length_append, List.length_singleton]
    omega

/-- `rt_ringbuffer_putchar_force` keeps a buffer well formed. -/
theorem putcharForce_valid (h : rb.Valid) (ch : UInt8) :
    (rtRingbufferPutcharForce rb ch).Valid := by
  have hle := dataLen_le h
  have hlen := length_queue h
  by_cases hfull : rtRingbufferStatus rb = .full
  · exact (putcharForce_full h ch hfull).1
  · have hroom : rb.queue.length ≠ rb.bufferSize := fun he => hfull ((status_eq_full h).mpr he)
    rw [putcharForce_eq_storeBlock h ch hfull]
    exact storeBlock_valid h (by rw [spaceLen_eq h, List.length_singleton]; omega)

theorem bufferSize_putcharForce (rb : RtRingbuffer) (ch : UInt8) :
    (rtRingbufferPutcharForce rb ch).bufferSize = rb.bufferSize := by
  unfold rtRingbufferPutcharForce
  simp only
  split <;> split <;> rfl

/-! ## Getting -/

/-- The read index moved over `k` bytes of data, around the end of the pool and into the other
side of the mirror where it gets there. -/
def advanceRead (rb : RtRingbuffer) (k : Nat) : RtRingbuffer :=
  if k < rb.bufferSize - rb.readIndex then { rb with readIndex := rb.readIndex + k }
  else { rb with readMirror := !rb.readMirror, readIndex := k - (rb.bufferSize - rb.readIndex) }

/-- Moving over data keeps the order of the indices and drops from the front. -/
theorem advanceRead_spec (h : rb.Valid) {k : Nat} (hk : k ≤ rtRingbufferDataLen rb) :
    (advanceRead rb k).Valid ∧ (advanceRead rb k).queue = rb.queue.drop k := by
  have hlen := h.length
  have hread := h.read_lt
  have hwrite := h.write_lt
  have hdata := dataLen_le h
  have heq := dataLen_eq h
  have hidx : (advanceRead rb k).readIndex = slot rb.bufferSize rb.readIndex k := by
    unfold advanceRead slot
    split <;> split <;> simp only <;> omega
  have hbuf : (advanceRead rb k).buffer = rb.buffer := by
    unfold advanceRead
    split <;> rfl
  have hvalid : (advanceRead rb k).Valid := by
    unfold advanceRead
    by_cases hm : rb.readMirror = rb.writeMirror
    · have hord := h.same hm
      rw [if_pos hm] at heq
      rw [if_pos (by omega)]
      exact ⟨h.pos, hlen, by simp only; omega, hwrite, fun _ => by simp only; omega,
        fun hne => absurd hm hne⟩
    · have hord := h.other hm
      rw [if_neg hm] at heq
      split
      · exact ⟨h.pos, hlen, by simp only; omega, hwrite, fun he => absurd he hm,
          fun _ => by simp only; omega⟩
      · have hflip : (!rb.readMirror) = rb.writeMirror := by
          cases hr : rb.readMirror <;> cases hw : rb.writeMirror <;> simp_all
        exact ⟨h.pos, hlen, by simp only; omega, hwrite, fun _ => by simp only; omega,
          fun hne => absurd hflip hne⟩
  have hcount : rtRingbufferDataLen (advanceRead rb k) = rtRingbufferDataLen rb - k := by
    rw [dataLen_eq hvalid, heq]
    rw [heq] at hk
    by_cases hm : rb.readMirror = rb.writeMirror
    · have hord := h.same hm
      rw [if_pos hm] at hk
      have hin : k < rb.bufferSize - rb.readIndex := by omega
      simp only [advanceRead, hin, hm, if_true]
      omega
    · have hord := h.other hm
      rw [if_neg hm] at hk
      by_cases hin : k < rb.bufferSize - rb.readIndex
      · simp only [advanceRead, hin, hm, if_true, if_false]
        omega
      · have hflip : (!rb.readMirror) = rb.writeMirror := by
          cases hr : rb.readMirror <;> cases hw : rb.writeMirror <;> simp_all
        simp only [advanceRead, hin, hm, hflip, if_true, if_false]
        omega
  refine ⟨hvalid, ?_⟩
  rw [RtRingbuffer.queue, hcount, hidx, hbuf, RtRingbuffer.queue,
    window_drop _ _ _ _ (by omega) (by omega) hk (by rw [hlen]; exact slot_lt hread (by omega)),
    hlen]

/-- `rt_ringbuffer_get` is the front of the data, and the read index behind it. -/
theorem get_eq (h : rb.Valid) (length : Nat) :
    rtRingbufferGet rb length =
      (rb.queue.take length, advanceRead rb (min length (rtRingbufferDataLen rb))) := by
  have hlen := h.length
  have hread := h.read_lt
  have hdata := dataLen_le h
  unfold rtRingbufferGet
  simp only
  split
  · next hzero =>
    have hmin : min length (rtRingbufferDataLen rb) = 0 := by omega
    rw [hmin, RtRingbuffer.queue, hzero, window_zero, List.take_nil, advanceRead,
      if_pos (by omega)]
    rfl
  · have hcut : (if rtRingbufferDataLen rb < length then rtRingbufferDataLen rb else length) =
        min length (rtRingbufferDataLen rb) := by
      split <;> omega
    rw [hcut]
    have hfront : rb.queue.take length =
        window rb.buffer rb.readIndex (min length (rtRingbufferDataLen rb)) := by
      rw [RtRingbuffer.queue, window, List.take_take, window]
    rw [hfront, advanceRead, window]
    split
    · next hin =>
      rw [List.take_append_of_le_length (by rw [List.length_drop]; omega)]
    · next hwrap =>
      have hbound : (rb.buffer.drop rb.readIndex).length = rb.bufferSize - rb.readIndex := by
        rw [List.length_drop, hlen]
      have hrest : min length (rtRingbufferDataLen rb) - (rb.bufferSize - rb.readIndex) ≤
          rb.readIndex := by omega
      have hall : (rb.buffer.drop rb.readIndex).take (min length (rtRingbufferDataLen rb)) =
          rb.buffer.drop rb.readIndex := List.take_of_length_le (by rw [hbound]; omega)
      have hend : (rb.buffer.drop rb.readIndex).take (rb.bufferSize - rb.readIndex) =
          rb.buffer.drop rb.readIndex := List.take_of_length_le (Nat.le_of_eq hbound)
      rw [List.take_append, hbound, List.take_take, Nat.min_eq_left hrest, hall, hend]

/-- `rt_ringbuffer_getchar` is the front byte, and the read index behind it. -/
theorem getchar_eq (h : rb.Valid) :
    rtRingbufferGetchar rb = rb.queue.head?.map fun ch => (ch, advanceRead rb 1) := by
  have hlen := h.length
  have hread := h.read_lt
  have hdata := dataLen_le h
  unfold rtRingbufferGetchar
  split
  · next hzero => rw [RtRingbuffer.queue, hzero, window_zero]; rfl
  · next hpos =>
    have hcount : rtRingbufferDataLen rb = rtRingbufferDataLen rb - 1 + 1 := by omega
    have hcell : rb.buffer.getD rb.readIndex 0 = rb.buffer[rb.readIndex] := by
      rw [List.getD_eq_getElem?_getD, List.getElem?_eq_getElem (by omega), Option.getD_some]
    rw [RtRingbuffer.queue, hcount, window_succ (by omega) (by omega), List.head?_cons,
      Option.map_some, hcell]
    by_cases hlast : rb.readIndex = rb.bufferSize - 1
    · have hone : 1 - (rb.bufferSize - rb.readIndex) = 0 := by omega
      rw [if_pos hlast, advanceRead, if_neg (by omega), hone]
    · rw [if_neg hlast, advanceRead, if_pos (by omega)]

/-! ## The buffer with its validity -/

/-- A valid ring buffer of `size` bytes. -/
def RingQueue (size : Nat) : Type := { rb : RtRingbuffer // rb.Valid ∧ rb.bufferSize = size }

namespace RingQueue

variable {size : Nat}

instance : DecidableEq (RingQueue size) := inferInstanceAs (DecidableEq (Subtype _))

/-- The buffer of an aligned size, empty. -/
def empty (size : Nat) (hpos : 0 < size) (halign : rtAlignDown size = size) : RingQueue size :=
  ⟨rtRingbufferInit (List.replicate size 0) size,
    init_valid (by omega) (by rw [List.length_replicate, halign]), halign⟩

/-- The bytes in the buffer, oldest first. -/
def queue (q : RingQueue size) : List UInt8 := q.val.queue

/-- `rt_ringbuffer_put`. -/
def put (q : RingQueue size) (ptr : List UInt8) : RingQueue size :=
  ⟨(rtRingbufferPut q.val ptr).1, put_valid q.property.1 ptr, by
    rw [put_eq_storeBlock q.property.1, (storeBlock_fields _ _).2.2, q.property.2]⟩

/-- `rt_ringbuffer_put_force`. -/
def putForce (q : RingQueue size) (ptr : List UInt8) : RingQueue size :=
  ⟨(rtRingbufferPutForce q.val ptr).1, putForce_valid q.property.1 ptr, by
    rw [bufferSize_putForce, q.property.2]⟩

/-- `rt_ringbuffer_putchar_force`. -/
def putcharForce (q : RingQueue size) (ch : UInt8) : RingQueue size :=
  ⟨rtRingbufferPutcharForce q.val ch, putcharForce_valid q.property.1 ch, by
    rw [bufferSize_putcharForce, q.property.2]⟩

/-- `rt_ringbuffer_get`, the bytes. -/
def getFst (q : RingQueue size) (length : Nat) : List UInt8 := (rtRingbufferGet q.val length).1

/-- `rt_ringbuffer_get`, the buffer behind it. -/
def getSnd (q : RingQueue size) (length : Nat) : RingQueue size :=
  ⟨(rtRingbufferGet q.val length).2, by
    rw [get_eq q.property.1]
    refine ⟨(advanceRead_spec q.property.1 (Nat.min_le_right _ _)).1, ?_⟩
    unfold advanceRead
    split <;> exact q.property.2⟩

/-- `rt_ringbuffer_getchar`. -/
def getchar (q : RingQueue size) : Option (UInt8 × RingQueue size) :=
  match hr : rtRingbufferGetchar q.val with
  | none => none
  | some (ch, rb) => some (ch, ⟨rb, by
      rw [getchar_eq q.property.1] at hr
      obtain ⟨c, hc, he⟩ := Option.map_eq_some_iff.mp hr
      cases he
      refine ⟨(advanceRead_spec q.property.1 ?_).1, ?_⟩
      · rw [← length_queue q.property.1]
        exact List.length_pos_iff.mpr (fun hnil => by rw [hnil] at hc; cases hc)
      · unfold advanceRead
        split <;> exact q.property.2⟩)

variable (q : RingQueue size)

@[simp] theorem queue_empty (hpos : 0 < size) (halign : rtAlignDown size = size) :
    (empty size hpos halign).queue = [] := queue_init _ _

theorem length_queue_le : q.queue.length ≤ size := by
  rw [queue, length_queue q.property.1]
  exact Nat.le_trans (dataLen_le q.property.1) (Nat.le_of_eq q.property.2)

/-- Putting appends what fits. -/
theorem queue_put (ptr : List UInt8) :
    (q.put ptr).queue = q.queue ++ ptr.take (size - q.queue.length) := by
  rw [queue, put, Driver.queue_put q.property.1, spaceLen_eq q.property.1, q.property.2]
  rfl

/-- Putting by force appends a block that fits. -/
theorem queue_putForce {ptr : List UInt8} (h : q.queue.length + ptr.length ≤ size) :
    (q.putForce ptr).queue = q.queue ++ ptr := by
  have hlen : q.val.queue.length = q.queue.length := rfl
  exact Driver.queue_putForce q.property.1 (by
    rw [spaceLen_eq q.property.1, q.property.2]
    omega)

/-- A block that is no longer than the buffer is put as a whole. -/
theorem putForce_snd {ptr : List UInt8} (h : ptr.length ≤ size) :
    (rtRingbufferPutForce q.val ptr).2 = ptr.length := by
  rw [Driver.putForce_snd, forceBlock, q.property.2, if_neg (by omega)]

theorem spaceLen_eq : rtRingbufferSpaceLen q.val = size - q.queue.length := by
  rw [Driver.spaceLen_eq q.property.1, q.property.2, queue]

@[simp] theorem putForce_nil : q.putForce [] = q :=
  Subtype.ext (Driver.putForce_nil q.property.1)

/-- A byte put by force pushes out the oldest one of a full buffer. -/
theorem queue_putcharForce (ch : UInt8) :
    (q.putcharForce ch).queue = keepLast size (q.queue ++ [ch]) := by
  rw [queue, putcharForce, Driver.queue_putcharForce q.property.1, q.property.2]
  rfl

/-- `rt_ringbuffer_get` returns the oldest bytes. -/
theorem getFst_eq (length : Nat) : q.getFst length = q.queue.take length := by
  rw [getFst, get_eq q.property.1]
  rfl

theorem queue_getSnd (length : Nat) : (q.getSnd length).queue = q.queue.drop length := by
  rw [queue, getSnd]
  simp only [get_eq q.property.1, (advanceRead_spec q.property.1 (Nat.min_le_right _ _)).2]
  rw [← length_queue q.property.1, queue]
  rcases Nat.le_total length q.val.queue.length with h | h
  · rw [Nat.min_eq_left h]
  · rw [Nat.min_eq_right h, List.drop_length, List.drop_eq_nil_of_le h]

/-- `rt_ringbuffer_getchar` fails exactly on an empty ring. -/
theorem getchar_eq_none : q.getchar = none ↔ q.queue = [] := by
  have hchar := getchar_eq q.property.1
  unfold getchar
  rw [queue]
  split
  · next hr =>
    rw [hr, eq_comm, Option.map_eq_none_iff, List.head?_eq_none_iff] at hchar
    simp only [hchar]
  · next hr =>
    rw [hr] at hchar
    simp only [reduceCtorEq, false_iff]
    intro hnil
    rw [hnil] at hchar
    cases hchar

variable {q}

theorem getchar_eq_some {ch : UInt8} {q' : RingQueue size} (h : q.getchar = some (ch, q')) :
    q.queue = ch :: q'.queue := by
  unfold getchar at h
  split at h
  · cases h
  · next hr =>
    cases h
    rw [getchar_eq q.property.1] at hr
    obtain ⟨c, hc, he⟩ := Option.map_eq_some_iff.mp hr
    cases he
    obtain ⟨rest, hrest⟩ := List.head?_eq_some_iff.mp hc
    have hpos : 1 ≤ rtRingbufferDataLen q.val := by
      rw [← length_queue q.property.1, hrest, List.length_cons]
      omega
    change q.val.queue = _ :: RtRingbuffer.queue (advanceRead q.val 1)
    rw [(advanceRead_spec q.property.1 hpos).2, hrest]
    rfl

end RingQueue

end RtVcom.Driver
