import RtVcom.Lib.Circular

/-!
# The serial receive FIFO

`struct rt_serial_rx_fifo` of `components/drivers/serial/serial.c`: a circular buffer of
`config.bufsz` bytes between the receive interrupt and the reader. Each function below is one
critical section: `isrPut` is the body of the loop of `rt_hw_serial_isr` behind `getc`, and
`serialIntRxByte` the body of the loop of `_serial_int_rx`.

The interrupt never refuses a byte. When the put index meets the get index it advances the
get index, so one cell stays unused and the oldest byte is discarded. `is_full` records that
this happened since the last read; it is not needed to tell the full FIFO from the empty one.

The abstract reading is `RxFifo.unread`, the bytes in arrival order. Over it the FIFO is the
queue of `bufsz - 1` bytes that discards its oldest (`unread_isrPut`) and that is read from
the front (`serialIntRxByte_eq_none`, `serialIntRxByte_eq_some`). `RxQueue` is the FIFO with
the bounds of its indices.
-/

namespace RtVcom.Serial

open RtVcom.Lib

/-! ## The data and its operations -/

/-- `struct rt_serial_rx_fifo`. -/
structure RxFifo where
  buffer : List UInt8
  putIndex : Nat
  getIndex : Nat
  isFull : Bool
deriving Repr, DecidableEq

/-- The FIFO as `rt_serial_open` sets it up. -/
def rxFifoInit (bufsz : Nat) : RxFifo :=
  { buffer := List.replicate bufsz 0, putIndex := 0, getIndex := 0, isFull := false }

/-- `index += 1; if (index >= bufsz) index = 0`. -/
def nextIndex (bufsz index : Nat) : Nat :=
  if bufsz ≤ index + 1 then 0 else index + 1

/-- `rt_hw_serial_isr`, one received character. -/
def isrPut (bufsz : Nat) (f : RxFifo) (ch : UInt8) : RxFifo :=
  let buffer := f.buffer.set f.putIndex ch
  let putIndex := nextIndex bufsz f.putIndex
  -- the next position is the read index: discard that character
  if putIndex = f.getIndex then
    { buffer, putIndex, getIndex := nextIndex bufsz f.getIndex, isFull := true }
  else
    { f with buffer, putIndex }

/-- `rt_hw_serial_isr`, every character that `getc` hands out. -/
def isrDrain (bufsz : Nat) (f : RxFifo) (chars : List UInt8) : RxFifo :=
  chars.foldl (isrPut bufsz) f

/-- The `rx_length` passed to `rx_indicate`. -/
def rxLength (bufsz : Nat) (f : RxFifo) : Nat :=
  if f.getIndex ≤ f.putIndex then f.putIndex - f.getIndex
  else bufsz - (f.getIndex - f.putIndex)

/-- `_serial_int_rx`, one pass of its loop: the byte and the FIFO behind it, or nothing
when there is no data. -/
def serialIntRxByte (bufsz : Nat) (f : RxFifo) : Option (UInt8 × RxFifo) :=
  if f.getIndex = f.putIndex ∧ f.isFull = false then none
  else some (f.buffer.getD f.getIndex 0,
    { f with getIndex := nextIndex bufsz f.getIndex, isFull := false })

/-- `_serial_int_rx`: the bytes read, at most `length`. -/
def serialIntRx (bufsz : Nat) : Nat → RxFifo → List UInt8 × RxFifo
  | 0, f => ([], f)
  | length + 1, f =>
    match serialIntRxByte bufsz f with
    | none => ([], f)
    | some (ch, f') => ((ch :: (serialIntRx bufsz length f').1), (serialIntRx bufsz length f').2)

/-! ## Validity -/

/-- What the code keeps of a FIFO of `bufsz` bytes. -/
structure RxFifo.Valid (bufsz : Nat) (f : RxFifo) : Prop where
  room : 2 ≤ bufsz
  length : f.buffer.length = bufsz
  put_lt : f.putIndex < bufsz
  get_lt : f.getIndex < bufsz
  full_ne : f.isFull = true → f.getIndex ≠ f.putIndex

/-- The unread bytes, oldest first. -/
def RxFifo.unread (bufsz : Nat) (f : RxFifo) : List UInt8 :=
  window f.buffer f.getIndex (rxLength bufsz f)

variable {bufsz : Nat} {f : RxFifo}

/-- The next index is the next slot of the ring. -/
theorem nextIndex_eq_slot {index : Nat} (h : index < bufsz) :
    nextIndex bufsz index = slot bufsz index 1 := by
  unfold nextIndex slot
  split <;> split <;> omega

theorem nextIndex_lt {index : Nat} (h : index < bufsz) : nextIndex bufsz index < bufsz := by
  unfold nextIndex
  split <;> omega

theorem rxFifoInit_valid (h : 2 ≤ bufsz) : (rxFifoInit bufsz).Valid bufsz where
  room := h
  length := List.length_replicate
  put_lt := by simp only [rxFifoInit]; omega
  get_lt := by simp only [rxFifoInit]; omega
  full_ne := fun hf => absurd hf (by simp only [rxFifoInit, Bool.false_eq_true, not_false_eq_true])

theorem isrPut_valid (h : f.Valid bufsz) (ch : UInt8) : (isrPut bufsz f ch).Valid bufsz := by
  have hroom := h.room
  have hget := h.get_lt
  have hnext := nextIndex_lt h.put_lt
  unfold isrPut
  simp only
  split
  · next hmeet =>
    refine ⟨h.room, (List.length_set).trans h.length, hnext, nextIndex_lt h.get_lt, fun _ => ?_⟩
    simp only [hmeet]
    unfold nextIndex
    split <;> omega
  · next hfree =>
    exact ⟨h.room, (List.length_set).trans h.length, hnext, h.get_lt, fun _ => Ne.symm hfree⟩

theorem serialIntRxByte_valid (h : f.Valid bufsz) {ch : UInt8} {f' : RxFifo}
    (hr : serialIntRxByte bufsz f = some (ch, f')) : f'.Valid bufsz := by
  unfold serialIntRxByte at hr
  split at hr
  · cases hr
  · cases hr
    exact ⟨h.room, h.length, h.put_lt, nextIndex_lt h.get_lt,
      fun hf => absurd hf Bool.false_ne_true⟩

/-! ## The queue behind the indices -/

/-- There are fewer characters unread than places. -/
theorem rxLength_lt (h : f.Valid bufsz) : rxLength bufsz f < bufsz := by
  have hput := h.put_lt
  have hget := h.get_lt
  unfold rxLength
  split <;> omega

/-- The characters unread are those between the indices. -/
theorem length_unread (h : f.Valid bufsz) : (f.unread bufsz).length = rxLength bufsz f := by
  have hlen := h.length
  have hget := h.get_lt
  have hlt := rxLength_lt h
  exact length_window (by omega) (by omega)

/-- A FIFO keeps at most `bufsz - 1` characters. -/
theorem length_unread_le (h : f.Valid bufsz) : (f.unread bufsz).length ≤ bufsz - 1 := by
  have hlt := rxLength_lt h
  rw [length_unread h]
  omega

/-- The put index stands right behind the unread bytes. -/
theorem putIndex_eq_slot (h : f.Valid bufsz) :
    f.putIndex = slot bufsz f.getIndex (rxLength bufsz f) := by
  have hput := h.put_lt
  have hget := h.get_lt
  unfold rxLength slot
  split <;> split <;> omega

/-- Nothing is unread in a new FIFO. -/
theorem unread_rxFifoInit : (rxFifoInit bufsz).unread bufsz = [] := by
  have hlen : rxLength bufsz (rxFifoInit bufsz) = 0 := by
    simp only [rxLength, rxFifoInit, Nat.le_refl, if_true, Nat.sub_self]
  rw [RxFifo.unread, hlen, window_zero]

/-- The interrupt's store, before the get index is looked at: the unread bytes with the new
one behind them. -/
theorem window_isrPut (h : f.Valid bufsz) (ch : UInt8) :
    window (f.buffer.set f.putIndex ch) f.getIndex (rxLength bufsz f + 1) =
      f.unread bufsz ++ [ch] := by
  have hlen := h.length
  have hget := h.get_lt
  have hlt := rxLength_lt h
  have hpush := window_push f.buffer f.getIndex (rxLength bufsz f)
    (by omega) (by omega) ch
  rwa [hlen, ← putIndex_eq_slot h] at hpush

/-- A character received: the queue of `bufsz - 1` bytes that discards its oldest. -/
theorem unread_isrPut (h : f.Valid bufsz) (ch : UInt8) :
    (isrPut bufsz f ch).unread bufsz = keepLast (bufsz - 1) (f.unread bufsz ++ [ch]) := by
  have hroom := h.room
  have hlen := h.length
  have hput := h.put_lt
  have hget := h.get_lt
  have hlt := rxLength_lt h
  have hunread := length_unread h
  have hwin := window_isrPut h ch
  by_cases hmeet : nextIndex bufsz f.putIndex = f.getIndex
  · -- the FIFO was full: `bufsz - 1` unread bytes, of which the oldest goes
    have hfull : rxLength bufsz f = bufsz - 1 := by
      unfold nextIndex at hmeet
      unfold rxLength
      split at hmeet <;> split <;> omega
    have hcount : rxLength bufsz (isrPut bufsz f ch) = bufsz - 1 := by
      simp only [isrPut, hmeet, if_true, rxLength]
      unfold nextIndex
      split <;> split <;> omega
    have hfields : (isrPut bufsz f ch).buffer = f.buffer.set f.putIndex ch ∧
        (isrPut bufsz f ch).getIndex = slot bufsz f.getIndex 1 := by
      simp only [isrPut, hmeet, if_true, true_and]
      exact nextIndex_eq_slot hget
    have hdrop := window_drop (f.buffer.set f.putIndex ch) f.getIndex (rxLength bufsz f + 1) 1
      (by rw [List.length_set]; omega)
      (by rw [List.length_set]; omega) (by omega)
      (by rw [List.length_set, hlen]; exact slot_lt hget (by omega))
    rw [List.length_set, hlen, hwin, Nat.add_sub_cancel, hfull] at hdrop
    rw [RxFifo.unread, hfields.1, hfields.2, hcount, ← hdrop, keepLast]
    congr 1
    simp only [List.length_append, List.length_singleton]
    omega
  · have hfree : rxLength bufsz f + 1 < bufsz := by
      unfold nextIndex at hmeet
      unfold rxLength
      split at hmeet <;> split <;> omega
    have hput' : isrPut bufsz f ch =
        { f with
          buffer := f.buffer.set f.putIndex ch
          putIndex := nextIndex bufsz f.putIndex } := by
      simp only [isrPut, hmeet, if_false]
    have hcount : rxLength bufsz (isrPut bufsz f ch) = rxLength bufsz f + 1 := by
      rw [hput']
      simp only [rxLength]
      unfold nextIndex at hmeet ⊢
      unfold rxLength at hfree
      split at hmeet <;> split at hfree <;> split <;> split <;> omega
    rw [RxFifo.unread, hcount, hput', keepLast_of_length_le]
    · exact hwin
    · simp only [List.length_append, List.length_singleton]
      omega

/-- An interrupt keeps the FIFO well formed. -/
theorem isrDrain_valid (h : f.Valid bufsz) (chars : List UInt8) :
    (isrDrain bufsz f chars).Valid bufsz := by
  induction chars generalizing f with
  | nil => exact h
  | cons ch chars ih => exact ih (isrPut_valid h ch)

/-- A whole interrupt: what the queue keeps of the unread and the received bytes. -/
theorem unread_isrDrain (h : f.Valid bufsz) (chars : List UInt8) :
    (isrDrain bufsz f chars).unread bufsz = keepLast (bufsz - 1) (f.unread bufsz ++ chars) := by
  induction chars generalizing f with
  | nil =>
    rw [List.append_nil, keepLast_of_length_le (length_unread_le h)]
    rfl
  | cons ch chars ih =>
    have hih := ih (isrPut_valid h ch)
    rw [unread_isrPut h, keepLast_append_keepLast, List.append_assoc, List.singleton_append] at hih
    exact hih

/-- The reader finds nothing exactly when nothing is unread. -/
theorem serialIntRxByte_eq_none (h : f.Valid bufsz) :
    serialIntRxByte bufsz f = none ↔ f.unread bufsz = [] := by
  have hput := h.put_lt
  have hget := h.get_lt
  rw [← List.length_eq_zero_iff, length_unread h]
  unfold serialIntRxByte
  split
  · next hempty =>
    simp only [rxLength, hempty.1, Nat.le_refl, if_true, Nat.sub_self]
  · next hdata =>
    have hne : f.getIndex ≠ f.putIndex := by
      intro he
      cases hfull : f.isFull with
      | false => exact hdata ⟨he, hfull⟩
      | true => exact h.full_ne hfull he
    simp only [reduceCtorEq, false_iff]
    unfold rxLength
    split <;> omega

/-- The reader takes the oldest byte. -/
theorem serialIntRxByte_eq_some (h : f.Valid bufsz) {ch : UInt8} {f' : RxFifo}
    (hr : serialIntRxByte bufsz f = some (ch, f')) :
    f.unread bufsz = ch :: f'.unread bufsz := by
  have hlen := h.length
  have hput := h.put_lt
  have hget := h.get_lt
  have hlt := rxLength_lt h
  have hne : rxLength bufsz f ≠ 0 := by
    intro h0
    have hnil : f.unread bufsz = [] := by rw [RxFifo.unread, h0, window_zero]
    rw [(serialIntRxByte_eq_none h).mpr hnil] at hr
    cases hr
  have hcell : f.buffer.getD f.getIndex 0 = f.buffer[f.getIndex] := by
    rw [List.getD_eq_getElem?_getD, List.getElem?_eq_getElem (by omega), Option.getD_some]
  unfold serialIntRxByte at hr
  split at hr
  · cases hr
  · cases hr
    have hcount : rxLength bufsz f =
        rxLength bufsz { f with getIndex := nextIndex bufsz f.getIndex, isFull := false } + 1 := by
      unfold rxLength at hne ⊢
      simp only [nextIndex]
      split at hne <;> split <;> split <;> split <;> omega
    rw [RxFifo.unread, hcount, window_succ (by omega) (by omega), hcell, RxFifo.unread]
    simp only [hlen, nextIndex_eq_slot hget]

/-- A read takes the oldest bytes, as many as it asks for and there are. -/
theorem serialIntRx_eq (h : f.Valid bufsz) (length : Nat) :
    (serialIntRx bufsz length f).1 = (f.unread bufsz).take length ∧
      (serialIntRx bufsz length f).2.unread bufsz = (f.unread bufsz).drop length := by
  induction length generalizing f with
  | zero => exact ⟨rfl, rfl⟩
  | succ length ih =>
    unfold serialIntRx
    cases hr : serialIntRxByte bufsz f with
    | none =>
      rw [(serialIntRxByte_eq_none h).mp hr]
      exact ⟨rfl, rfl⟩
    | some r =>
      obtain ⟨ch, f'⟩ := r
      obtain ⟨htake, hdrop⟩ := ih (serialIntRxByte_valid h hr)
      rw [serialIntRxByte_eq_some h hr]
      exact ⟨congrArg (ch :: ·) htake, hdrop⟩

/-! ## The FIFO with its bounds -/

/-- A receive FIFO of `bufsz` bytes whose indices are in range. -/
def RxQueue (bufsz : Nat) : Type := { f : RxFifo // f.Valid bufsz }

namespace RxQueue

instance : DecidableEq (RxQueue bufsz) := inferInstanceAs (DecidableEq (Subtype _))

/-- The empty FIFO. -/
def empty (bufsz : Nat) (h : 2 ≤ bufsz) : RxQueue bufsz := ⟨rxFifoInit bufsz, rxFifoInit_valid h⟩

/-- The unread bytes, oldest first. -/
def unread (q : RxQueue bufsz) : List UInt8 := q.val.unread bufsz

/-- One character received. -/
def put (q : RxQueue bufsz) (ch : UInt8) : RxQueue bufsz :=
  ⟨isrPut bufsz q.val ch, isrPut_valid q.property ch⟩

/-- One interrupt's characters received. -/
def drain (q : RxQueue bufsz) (chars : List UInt8) : RxQueue bufsz :=
  ⟨isrDrain bufsz q.val chars, isrDrain_valid q.property chars⟩

/-- One byte read. -/
def get (q : RxQueue bufsz) : Option (UInt8 × RxQueue bufsz) :=
  match hr : serialIntRxByte bufsz q.val with
  | none => none
  | some (ch, f') => some (ch, ⟨f', serialIntRxByte_valid q.property hr⟩)

variable (q : RxQueue bufsz)

@[simp] theorem unread_empty (h : 2 ≤ bufsz) : (empty bufsz h).unread = [] := unread_rxFifoInit

theorem length_unread_le : q.unread.length ≤ bufsz - 1 := Serial.length_unread_le q.property

/-- A character put is the newest, and the oldest may go for it. -/
@[simp] theorem unread_put (ch : UInt8) :
    (q.put ch).unread = keepLast (bufsz - 1) (q.unread ++ [ch]) := unread_isrPut q.property ch

@[simp] theorem unread_drain (chars : List UInt8) :
    (q.drain chars).unread = keepLast (bufsz - 1) (q.unread ++ chars) :=
  unread_isrDrain q.property chars

/-- A read fails exactly on an empty FIFO. -/
theorem get_eq_none : q.get = none ↔ q.unread = [] := by
  rw [unread, ← serialIntRxByte_eq_none q.property]
  unfold get
  split <;> simp only [*, reduceCtorEq]

variable {q}

theorem get_eq_some {ch : UInt8} {q' : RxQueue bufsz} (h : q.get = some (ch, q')) :
    q.unread = ch :: q'.unread := by
  unfold get at h
  split at h
  · cases h
  · next hr =>
    cases h
    exact serialIntRxByte_eq_some q.property hr

end RxQueue

end RtVcom.Serial
