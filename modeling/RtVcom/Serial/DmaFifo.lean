import RtVcom.Lib.BoundedQueue
import RtVcom.Lib.Object
import RtVcom.Serial.RxFifo

/-!
# The serial receive FIFO in DMA mode

The same `struct rt_serial_rx_fifo` as in interrupt mode, filled by a DMA channel that writes
around the end of the buffer on its own. The interrupt of a finished transfer is told how many
bytes came in and moves `put_index` behind them. Here `is_full` is what tells the full FIFO from
the empty one, all `bufsz` bytes are used, and an overrun moves `get_index` to the oldest byte
that is left.

`calcRecvedLen_putIndex` and `recved_putIndex` say what the two branches of
`rt_dma_recv_update_put_index` do together. Over them the FIFO is the queue of `bufsz` bytes that
discards its oldest (`dma_fifo_refines_queue`).
-/

namespace RtVcom.Serial

open RtVcom.Lib

/-! ## The functions -/

/-- `_serial_fifo_calc_recved_len`. -/
def serialFifoCalcRecvedLen (bufsz : Nat) (f : RxFifo) : Nat :=
  if f.putIndex = f.getIndex then (if f.isFull then bufsz else 0)
  else if f.getIndex < f.putIndex then f.putIndex - f.getIndex
  else bufsz - (f.getIndex - f.putIndex)

/-- `rt_dma_calc_recved_len`. -/
def rtDmaCalcRecvedLen (bufsz : Nat) (f : RxFifo) : Nat := serialFifoCalcRecvedLen bufsz f

/-- An index and a length, in the 16 bits of an index. -/
def indexAdd (index len : Nat) : Nat := (index + len) % 0x10000

/-- `if (index >= bufsz) index %= bufsz`. -/
def wrapIndex (bufsz index : Nat) : Nat := if bufsz ≤ index then index % bufsz else index

/-- `rt_dma_recv_update_get_index`. -/
def rtDmaRecvUpdateGetIndex (bufsz : Nat) (f : RxFifo) (len : Nat) : RxFifo :=
  let isFull := if f.isFull ∧ len ≠ 0 then false else f.isFull
  { f with isFull, getIndex := wrapIndex bufsz (indexAdd f.getIndex len) }

/-- `rt_dma_recv_update_put_index`. -/
def rtDmaRecvUpdatePutIndex (bufsz : Nat) (f : RxFifo) (len : Nat) : RxFifo :=
  let putIndex := indexAdd f.putIndex len
  let f :=
    if f.getIndex ≤ f.putIndex then
      -- beyond the fifo end
      if bufsz ≤ putIndex then
        let putIndex := putIndex % bufsz
        -- force overwrite get index
        if f.getIndex ≤ putIndex then { f with putIndex, isFull := true } else { f with putIndex }
      else { f with putIndex }
    else if f.getIndex ≤ putIndex then
      -- force overwrite get index
      { f with putIndex := wrapIndex bufsz putIndex, isFull := true }
    else { f with putIndex }
  let f := if f.isFull then { f with getIndex := f.putIndex } else f
  if bufsz ≤ f.getIndex then { f with getIndex := 0 } else f

/-- `_serial_dma_rx` of a FIFO: the bytes copied to `data`, and the number that it returns. The
comparison of `length` with the number of bytes received is one of unsigned numbers. -/
def serialDmaRx (bufsz : Nat) (f : RxFifo) (length : BitVec 32) : List UInt8 × Nat × RxFifo :=
  let fifoRecvedLen := rtDmaCalcRecvedLen bufsz f
  let recvLen := if length.toNat < fifoRecvedLen then length.toNat else fifoRecvedLen
  let data :=
    if f.getIndex + recvLen < bufsz then (f.buffer.drop f.getIndex).take recvLen
    else
      (f.buffer.drop f.getIndex).take (bufsz - f.getIndex) ++
        f.buffer.take (recvLen + f.getIndex - bufsz)
  (data, recvLen, rtDmaRecvUpdateGetIndex bufsz f recvLen)

/-- `RT_SERIAL_EVENT_RX_DMADONE`, with the length of the transfer above its low byte. -/
def rxDmadoneEvent (length : Nat) : Nat := 0x100 * length + 0x03

/-- `rt_hw_serial_isr` with `RT_SERIAL_EVENT_RX_DMADONE`: the FIFO, and the length that
`rx_indicate` is called with. -/
def serialIsrRxDmadone (bufsz : Nat) (f : RxFifo) (event : Nat) : RxFifo × Nat :=
  let length := event / 0x100
  let f := rtDmaRecvUpdatePutIndex bufsz f length
  (f, rtDmaCalcRecvedLen bufsz f)

/-- The DMA channel writes from `put_index` on, around the end of the buffer. -/
def dmaWrite (bufsz : Nat) (f : RxFifo) (bytes : List UInt8) : RxFifo :=
  if f.putIndex + bytes.length ≤ bufsz then
    { f with buffer := blit f.buffer f.putIndex bytes }
  else
    { f with
      buffer := blit (blit f.buffer f.putIndex (bytes.take (bufsz - f.putIndex))) 0
        (bytes.drop (bufsz - f.putIndex)) }

/-! ## Validity -/

/-- What the code keeps of a FIFO in DMA mode. -/
structure RxFifo.DmaValid (bufsz : Nat) (f : RxFifo) : Prop where
  pos : 1 ≤ bufsz
  small : bufsz ≤ 0x7FFF
  length : f.buffer.length = bufsz
  put_lt : f.putIndex < bufsz
  get_lt : f.getIndex < bufsz
  full_eq : f.isFull = true → f.getIndex = f.putIndex

/-- The bytes received and not yet read, oldest first. -/
def RxFifo.recved (bufsz : Nat) (f : RxFifo) : List UInt8 :=
  window f.buffer f.getIndex (rtDmaCalcRecvedLen bufsz f)

variable {bufsz : Nat} {f : RxFifo}

theorem rxFifoInit_dmaValid (hpos : 1 ≤ bufsz) (hsmall : bufsz ≤ 0x7FFF) :
    (rxFifoInit bufsz).DmaValid bufsz :=
  ⟨hpos, hsmall, List.length_replicate, hpos, hpos, fun _ => rfl⟩

theorem recved_rxFifoInit : (rxFifoInit bufsz).recved bufsz = [] := window_zero _ _

/-- What is received fits the buffer. -/
theorem calcRecvedLen_le (h : f.DmaValid bufsz) : rtDmaCalcRecvedLen bufsz f ≤ bufsz := by
  have hput := h.put_lt
  have hget := h.get_lt
  unfold rtDmaCalcRecvedLen serialFifoCalcRecvedLen
  split
  · split <;> omega
  · split <;> omega

/-- A full FIFO has a byte in every cell. -/
theorem RxFifo.DmaValid.recvedLen_of_full (h : f.DmaValid bufsz) (hfull : f.isFull = true) :
    rtDmaCalcRecvedLen bufsz f = bufsz := by
  rw [rtDmaCalcRecvedLen, serialFifoCalcRecvedLen, if_pos (h.full_eq hfull).symm, if_pos hfull]

/-- There are as many bytes as `rt_dma_calc_recved_len` says. -/
theorem length_recved (h : f.DmaValid bufsz) :
    (f.recved bufsz).length = rtDmaCalcRecvedLen bufsz f := by
  have hlen := h.length
  have hget := h.get_lt
  have hle := calcRecvedLen_le h
  exact length_window (by omega) (by omega)

/-- The put index stands right behind the bytes received. -/
theorem putIndex_eq_slot_recved (h : f.DmaValid bufsz) :
    f.putIndex = slot bufsz f.getIndex (rtDmaCalcRecvedLen bufsz f) := by
  have hput := h.put_lt
  have hget := h.get_lt
  unfold rtDmaCalcRecvedLen serialFifoCalcRecvedLen slot
  split
  · split <;> split <;> omega
  · split <;> split <;> omega

/-- No index leaves its 16 bits, and one that leaves the buffer comes back at its start. -/
theorem wrapIndex_indexAdd {index len : Nat} (hsmall : bufsz ≤ 0x7FFF) (hindex : index < bufsz)
    (hlen : len ≤ bufsz) : wrapIndex bufsz (indexAdd index len) = slot bufsz index len := by
  have hadd : indexAdd index len = index + len := by
    rw [indexAdd]
    omega
  rw [wrapIndex, hadd, slot]
  by_cases hin : index + len < bufsz
  · rw [if_neg (by omega), if_pos hin]
  · rw [if_pos (by omega), if_neg hin, Nat.mod_eq_sub_mod (by omega), Nat.mod_eq_of_lt (by omega)]

/-! ## A finished transfer -/

/-- Both branches together: the put index moves on, and the FIFO is full with its oldest byte there
exactly if the bytes received do not leave room for the transfer and one more. -/
theorem updatePutIndex_eq (h : f.DmaValid bufsz) {len : Nat} (hlen : len ≤ bufsz) :
    rtDmaRecvUpdatePutIndex bufsz f len =
      if bufsz ≤ rtDmaCalcRecvedLen bufsz f + len then
        { f with
          putIndex := slot bufsz f.putIndex len
          getIndex := slot bufsz f.putIndex len
          isFull := true }
      else { f with putIndex := slot bufsz f.putIndex len } := by
  obtain ⟨buffer, put, get, isFull⟩ := f
  obtain ⟨hpos, hsmall, hlength, hput, hget, hfull⟩ := h
  simp only at hput hget hfull
  have hadd : indexAdd put len = put + len := by
    rw [indexAdd]
    omega
  have hwrap : wrapIndex bufsz (put + len) = slot bufsz put len := by
    rw [← hadd]
    exact wrapIndex_indexAdd hsmall hput hlen
  have hmod (h : bufsz ≤ put + len) : (put + len) % bufsz = slot bufsz put len := by
    rw [← hwrap, wrapIndex, if_pos h]
  have hslot := slot_lt hput hlen
  simp only [rtDmaRecvUpdatePutIndex, rtDmaCalcRecvedLen, serialFifoCalcRecvedLen, hadd, hwrap]
  by_cases hend : bufsz ≤ put + len
  · have hslot' : slot bufsz put len = put + len - bufsz := if_neg (by omega)
    rw [hmod hend]
    cases isFull with
    | true =>
      have := hfull rfl
      grind
    | false => grind
  · have hslot' : slot bufsz put len = put + len := if_pos (by omega)
    cases isFull with
    | true =>
      have := hfull rfl
      grind
    | false => grind

/-- The transfer writes its bytes behind the put index. -/
theorem written_dmaWrite (h : f.DmaValid bufsz) {bytes : List UInt8} (hlen : bytes.length ≤ bufsz) :
    Written f.buffer (dmaWrite bufsz f bytes).buffer f.putIndex bytes := by
  have hlength := h.length
  have hput := h.put_lt
  unfold dmaWrite
  by_cases hfits : f.putIndex + bytes.length ≤ bufsz
  · rw [if_pos hfits]
    exact written_blit (by omega)
  · have hwrap := @written_blit_wrap _ f.buffer bytes f.putIndex
      (by omega) (by omega) (by omega)
    rw [hlength] at hwrap
    rw [if_neg hfits]
    exact hwrap

/-- The channel changes the bytes of the buffer only. -/
theorem dmaWrite_eq (bufsz : Nat) (f : RxFifo) (bytes : List UInt8) :
    dmaWrite bufsz f bytes = { f with buffer := (dmaWrite bufsz f bytes).buffer } := by
  unfold dmaWrite
  split <;> rfl

theorem dmaWrite_valid (h : f.DmaValid bufsz) {bytes : List UInt8} (hlen : bytes.length ≤ bufsz) :
    (dmaWrite bufsz f bytes).DmaValid bufsz := by
  rw [dmaWrite_eq]
  exact ⟨h.pos, h.small, (written_dmaWrite h hlen).length.trans h.length, h.put_lt, h.get_lt,
    h.full_eq⟩

theorem updatePutIndex_valid (h : f.DmaValid bufsz) {len : Nat} (hlen : len ≤ bufsz) :
    (rtDmaRecvUpdatePutIndex bufsz f len).DmaValid bufsz := by
  have hslot := slot_lt h.put_lt hlen
  have hle := calcRecvedLen_le h
  rw [updatePutIndex_eq h hlen]
  split
  · exact ⟨h.pos, h.small, h.length, hslot, hslot, fun _ => rfl⟩
  · next hroom =>
    refine ⟨h.pos, h.small, h.length, hslot, h.get_lt, fun hfull => ?_⟩
    have hcount := h.recvedLen_of_full hfull
    omega

/-- What the function counts where the FIFO is not full: how far the put index is ahead. -/
theorem calcRecvedLen_of_slot {count : Nat} (hget : f.getIndex < bufsz)
    (hput : f.putIndex = slot bufsz f.getIndex count) (hcount : count < bufsz)
    (hfull : f.isFull = false) : rtDmaCalcRecvedLen bufsz f = count := by
  rw [rtDmaCalcRecvedLen, serialFifoCalcRecvedLen, hput, hfull, slot]
  by_cases hwrap : f.getIndex + count < bufsz
  · rw [if_pos hwrap]
    by_cases hzero : count = 0
    · rw [if_pos (by omega), if_neg Bool.false_ne_true, hzero]
    · rw [if_neg (by omega), if_pos (by omega), Nat.add_sub_cancel_left]
  · rw [if_neg hwrap, if_neg (by omega), if_neg (by omega)]
    omega

/-- A FIFO with room is not full. -/
theorem RxFifo.DmaValid.not_full (h : f.DmaValid bufsz)
    (hroom : rtDmaCalcRecvedLen bufsz f < bufsz) : f.isFull = false := by
  cases hfull : f.isFull with
  | false => rfl
  | true =>
    rw [h.recvedLen_of_full hfull] at hroom
    exact absurd hroom (Nat.lt_irrefl bufsz)

/-- What the function counts behind a transfer. -/
theorem calcRecvedLen_putIndex (h : f.DmaValid bufsz) {len : Nat} (hlen : len ≤ bufsz) :
    rtDmaCalcRecvedLen bufsz (rtDmaRecvUpdatePutIndex bufsz f len) =
      min bufsz (rtDmaCalcRecvedLen bufsz f + len) := by
  rw [updatePutIndex_eq h hlen]
  split
  · next hover =>
    rw [rtDmaCalcRecvedLen, serialFifoCalcRecvedLen, if_pos rfl, if_pos rfl, Nat.min_eq_left hover]
  · next hroom =>
    have hput : slot bufsz f.putIndex len =
        slot bufsz f.getIndex (rtDmaCalcRecvedLen bufsz f + len) := by
      rw [putIndex_eq_slot_recved h, slot_slot h.get_lt (by omega)]
    rw [calcRecvedLen_of_slot (f := { f with putIndex := slot bufsz f.putIndex len }) h.get_lt hput
      (by omega) (h.not_full (by omega)), Nat.min_eq_right (by omega)]

/-- A finished transfer: the queue of `bufsz` bytes that discards its oldest. -/
theorem recved_putIndex (h : f.DmaValid bufsz) {bytes : List UInt8} (hlen : bytes.length ≤ bufsz) :
    (rtDmaRecvUpdatePutIndex bufsz (dmaWrite bufsz f bytes) bytes.length).recved bufsz =
      keepLast bufsz (f.recved bufsz ++ bytes) := by
  have hlength := h.length
  have hget := h.get_lt
  have hle := calcRecvedLen_le h
  have hput := putIndex_eq_slot_recved h
  have hwritten := written_dmaWrite h hlen
  have hcount := calcRecvedLen_putIndex (dmaWrite_valid h hlen) hlen
  have hsame : rtDmaCalcRecvedLen bufsz (dmaWrite bufsz f bytes) = rtDmaCalcRecvedLen bufsz f := by
    rw [dmaWrite_eq]
    rfl
  have hput' : (dmaWrite bufsz f bytes).putIndex = f.putIndex := by rw [dmaWrite_eq]
  have hget' : (dmaWrite bufsz f bytes).getIndex = f.getIndex := by rw [dmaWrite_eq]
  rw [hsame] at hcount
  rw [RxFifo.recved, hcount, updatePutIndex_eq (dmaWrite_valid h hlen) hlen, hsame, hput']
  by_cases hover : bufsz ≤ rtDmaCalcRecvedLen bufsz f + bytes.length
  · have hwindow := hwritten.window_overrun f.getIndex (rtDmaCalcRecvedLen bufsz f)
      (by omega) (by rw [hlength, ← hput]) (by omega) (by omega) (by omega)
    rw [hlength] at hwindow
    rw [if_pos hover, Nat.min_eq_left hover]
    exact hwindow
  · have hwindow := hwritten.window_append f.getIndex (rtDmaCalcRecvedLen bufsz f)
      (by omega) (by rw [hlength, ← hput]) (by omega)
    have hshort : (f.recved bufsz ++ bytes).length ≤ bufsz := by
      rw [List.length_append, length_recved h]
      omega
    rw [if_neg hover, Nat.min_eq_right (by omega), keepLast_of_length_le hshort]
    simp only [hget']
    exact hwindow

/-! ## A read -/

/-- The two copies are the cells from the get index on, around the end. -/
theorem copies_eq_window {buffer : List UInt8} {get count : Nat} (hlength : buffer.length = bufsz)
    (hget : get < bufsz) (hcount : count ≤ bufsz) :
    (if get + count < bufsz then (buffer.drop get).take count
      else (buffer.drop get).take (bufsz - get) ++ buffer.take (count + get - bufsz)) =
      window buffer get count := by
  have hdrop : (buffer.drop get).length = bufsz - get := by rw [List.length_drop, hlength]
  rw [window]
  by_cases hend : get + count < bufsz
  · rw [if_pos hend, List.take_append_of_le_length (by omega)]
  · have hrest : count + get - bufsz = count - (bufsz - get) := by omega
    have hwithin : count - (bufsz - get) ≤ get := by omega
    have hleft : (buffer.drop get).take (bufsz - get) = buffer.drop get :=
      List.take_of_length_le (Nat.le_of_eq hdrop)
    have hright : (buffer.drop get).take count = buffer.drop get :=
      List.take_of_length_le (by omega)
    rw [if_neg hend, hleft, hrest, List.take_append, hdrop, hright, List.take_take,
      Nat.min_eq_left hwithin]

/-- The get index moved over bytes that were received drops them. -/
theorem updateGetIndex_spec (h : f.DmaValid bufsz) {len : Nat}
    (hlen : len ≤ rtDmaCalcRecvedLen bufsz f) :
    (rtDmaRecvUpdateGetIndex bufsz f len).DmaValid bufsz ∧
      (rtDmaRecvUpdateGetIndex bufsz f len).recved bufsz = (f.recved bufsz).drop len := by
  have hlength := h.length
  have hget := h.get_lt
  have hle := calcRecvedLen_le h
  have hslot := slot_lt hget (Nat.le_trans hlen hle)
  have hindex := wrapIndex_indexAdd h.small hget (Nat.le_trans hlen hle)
  by_cases hzero : len = 0
  · subst hzero
    have hsame : rtDmaRecvUpdateGetIndex bufsz f 0 = f := by
      have hzero : slot bufsz f.getIndex 0 = f.getIndex := if_pos hget
      simp only [rtDmaRecvUpdateGetIndex, hindex, hzero, ne_eq, not_true_eq_false, and_false,
        if_false]
    rw [hsame, List.drop_zero]
    exact ⟨h, rfl⟩
  · have hnext : rtDmaRecvUpdateGetIndex bufsz f len =
        { f with getIndex := slot bufsz f.getIndex len, isFull := false } := by
      cases hfull : f.isFull <;>
        simp only [rtDmaRecvUpdateGetIndex, hindex, hfull, hzero, ne_eq, not_false_eq_true,
          and_self, Bool.false_eq_true, false_and, if_true, if_false]
    have hput : f.putIndex =
        slot bufsz (slot bufsz f.getIndex len) (rtDmaCalcRecvedLen bufsz f - len) := by
      rw [slot_slot hget (by omega), Nat.add_sub_cancel' hlen]
      exact putIndex_eq_slot_recved h
    have hcount := calcRecvedLen_of_slot
      (f := { f with getIndex := slot bufsz f.getIndex len, isFull := false }) hslot hput
      (by omega) rfl
    have hdrop := window_drop f.buffer f.getIndex (rtDmaCalcRecvedLen bufsz f) len (by omega)
      (by omega) hlen (by rw [hlength]; exact hslot)
    rw [hlength] at hdrop
    rw [hnext]
    refine ⟨⟨h.pos, h.small, h.length, h.put_lt, hslot, fun hfull => ?_⟩, ?_⟩
    · exact absurd hfull Bool.false_ne_true
    · rw [RxFifo.recved, hcount, RxFifo.recved, hdrop]

/-- A read takes the oldest bytes, as many as it asks for and there are. -/
theorem serialDmaRx_spec (h : f.DmaValid bufsz) (length : BitVec 32) :
    (serialDmaRx bufsz f length).1 = (f.recved bufsz).take length.toNat ∧
      (serialDmaRx bufsz f length).2.1 = min length.toNat (f.recved bufsz).length ∧
      (serialDmaRx bufsz f length).2.2.DmaValid bufsz ∧
      (serialDmaRx bufsz f length).2.2.recved bufsz = (f.recved bufsz).drop length.toNat := by
  have hlength := length_recved h
  have hle := calcRecvedLen_le h
  have hmin : (if length.toNat < rtDmaCalcRecvedLen bufsz f then length.toNat
      else rtDmaCalcRecvedLen bufsz f) = min length.toNat (rtDmaCalcRecvedLen bufsz f) := by
    split <;> omega
  have htake : window f.buffer f.getIndex (min length.toNat (rtDmaCalcRecvedLen bufsz f)) =
      (f.recved bufsz).take length.toNat := by
    rw [RxFifo.recved, window, window, List.take_take]
  have hdrop : (f.recved bufsz).drop (min length.toNat (rtDmaCalcRecvedLen bufsz f)) =
      (f.recved bufsz).drop length.toNat := by
    rcases Nat.le_total length.toNat (rtDmaCalcRecvedLen bufsz f) with hlt | hge
    · rw [Nat.min_eq_left hlt]
    · rw [Nat.min_eq_right hge, List.drop_eq_nil_of_le (Nat.le_of_eq hlength),
        List.drop_eq_nil_of_le (by omega)]
  obtain ⟨hvalid, hrest⟩ :=
    updateGetIndex_spec h (Nat.min_le_right length.toNat (rtDmaCalcRecvedLen bufsz f))
  simp only [serialDmaRx, hmin, hlength]
  exact ⟨(copies_eq_window h.length h.get_lt (by omega)).trans htake, trivial, hvalid,
    hrest.trans hdrop⟩

/-! ## The calls -/

/-- A transfer that the DMA channel has finished, with `rx_indicate` set or not, and a read. -/
inductive DmaCall
  | rxDmadone (bytes : List UInt8) (rxIndicate : Bool)
  | read (length : BitVec 32)
deriving Repr, DecidableEq

/-- What they answer: the length that `rx_indicate` is called with, and the bytes read with their
number. -/
inductive DmaAnswer
  | none
  | indicated (length : Nat)
  | read (data : List UInt8) (count : Nat)
deriving Repr, DecidableEq

/-- The callback, if it is set. -/
def indicatedIf (rxIndicate : Bool) (length : Nat) : DmaAnswer :=
  if rxIndicate then .indicated length else .none

/-- A call of the code. -/
def dmaCall (bufsz : Nat) (f : RxFifo) : DmaCall → RxFifo × DmaAnswer
  | .rxDmadone bytes rxIndicate =>
    let done := serialIsrRxDmadone bufsz (dmaWrite bufsz f bytes) (rxDmadoneEvent bytes.length)
    (done.1, indicatedIf rxIndicate done.2)
  | .read length =>
    let done := serialDmaRx bufsz f length
    (done.2.2, .read done.1 done.2.1)

/-- The same call of a queue that discards its oldest. -/
def dmaQueueCall {capacity : Nat} (q : BoundedQueue UInt8 capacity) :
    DmaCall → BoundedQueue UInt8 capacity × DmaAnswer
  | .rxDmadone bytes rxIndicate =>
    (q.forceAll bytes, indicatedIf rxIndicate (q.forceAll bytes).items.length)
  | .read length =>
    (q.dropFront length.toNat,
      .read (q.items.take length.toNat) (min length.toNat q.items.length))

/-- The FIFO as `rt_serial_open` sets it up. -/
def dmaFifoObject (bufsz : Nat) : Object RxFifo DmaCall DmaAnswer where
  init := rxFifoInit bufsz
  call := dmaCall bufsz

/-- The empty queue of at most `capacity` bytes. -/
def dmaQueueObject (capacity : Nat) : Object (BoundedQueue UInt8 capacity) DmaCall DmaAnswer where
  init := .empty
  call := dmaQueueCall

/-- No transfer is longer than the buffer it goes around in. -/
def DmaFits (bufsz : Nat) (_ : RxFifo) : DmaCall → Prop
  | .rxDmadone bytes _ => bytes.length ≤ bufsz
  | .read _ => True

instance (bufsz : Nat) : DecidableRel (DmaFits bufsz)
  | _, .rxDmadone bytes _ => inferInstanceAs (Decidable (bytes.length ≤ bufsz))
  | _, .read _ => isTrue trivial

/-- The FIFO stands for the queue. -/
structure DmaStands (bufsz : Nat) (f : RxFifo) (q : BoundedQueue UInt8 bufsz) : Prop where
  valid : f.DmaValid bufsz
  recved : f.recved bufsz = q.items

variable {q : BoundedQueue UInt8 bufsz}

/-- The length is that of the queue it stands for. -/
theorem DmaStands.calcRecvedLen_eq (h : DmaStands bufsz f q) :
    rtDmaCalcRecvedLen bufsz f = q.items.length := by
  rw [← h.recved, length_recved h.valid]

/-- One call: the FIFO answers as the queue does and stands for it again. -/
theorem DmaStands.call (h : DmaStands bufsz f q) {call : DmaCall} (hfits : DmaFits bufsz f call) :
    (dmaCall bufsz f call).2 = (dmaQueueCall q call).2 ∧
      DmaStands bufsz (dmaCall bufsz f call).1 (dmaQueueCall q call).1 := by
  cases call with
  | rxDmadone bytes rxIndicate =>
    have hevent : rxDmadoneEvent bytes.length / 0x100 = bytes.length := by
      rw [rxDmadoneEvent]
      omega
    have hdone : DmaStands bufsz
        (rtDmaRecvUpdatePutIndex bufsz (dmaWrite bufsz f bytes) bytes.length)
        (q.forceAll bytes) := by
      refine ⟨updatePutIndex_valid (dmaWrite_valid h.valid hfits) hfits, ?_⟩
      rw [recved_putIndex h.valid hfits, h.recved, BoundedQueue.items_forceAll]
    simp only [dmaCall, dmaQueueCall, serialIsrRxDmadone, hevent, hdone.calcRecvedLen_eq]
    exact ⟨trivial, hdone⟩
  | read length =>
    obtain ⟨hdata, hcount, hvalid, hrest⟩ := serialDmaRx_spec h.valid length
    rw [h.recved] at hdata hcount hrest
    simp only [dmaCall, dmaQueueCall, hdata, hcount]
    exact ⟨trivial, hvalid, hrest⟩

/-- Whatever the order of finished transfers and reads, the FIFO of `bufsz` bytes answers as the
queue of `bufsz` bytes that discards its oldest, holds what that queue holds, and counts it. -/
theorem dma_fifo_refines_queue (hpos : 1 ≤ bufsz) (hsmall : bufsz ≤ 0x7FFF) (calls : List DmaCall)
    (hfits : (dmaFifoObject bufsz).Meets (DmaFits bufsz) (dmaFifoObject bufsz).init calls) :
    let fifo := (dmaFifoObject bufsz).run (dmaFifoObject bufsz).init calls
    let queue := (dmaQueueObject bufsz).run (dmaQueueObject bufsz).init calls
    fifo.2 = queue.2 ∧ fifo.1.recved bufsz = queue.1.items ∧
      rtDmaCalcRecvedLen bufsz fifo.1 = queue.1.items.length ∧
      fifo.1.putIndex < bufsz ∧ fifo.1.getIndex < bufsz := by
  have hinit : DmaStands bufsz (dmaFifoObject bufsz).init (dmaQueueObject bufsz).init :=
    ⟨rxFifoInit_dmaValid hpos hsmall, recved_rxFifoInit⟩
  obtain ⟨hanswers, hstands⟩ := Object.run_refines (O := dmaFifoObject bufsz)
    (A := dmaQueueObject bufsz) (R := DmaStands bufsz) (fun _ _ _ h hfits => h.call hfits)
    hinit hfits
  exact ⟨hanswers, hstands.recved, hstands.calcRecvedLen_eq, hstands.valid.put_lt,
    hstands.valid.get_lt⟩

/-- Three bytes: an exact fill, an empty transfer into the full FIFO, an overrun and a read across
the end. -/
theorem dma_fifo_refines_queue_three :
    let calls : List DmaCall := [.rxDmadone [1, 2, 3] true, .rxDmadone [] true, .read 1,
      .rxDmadone [4, 5] false, .read 2, .rxDmadone [6] true, .read 5]
    let fifo := (dmaFifoObject 3).run (dmaFifoObject 3).init calls
    let queue := (dmaQueueObject 3).run (dmaQueueObject 3).init calls
    fifo.2 = queue.2 ∧ fifo.1.recved 3 = queue.1.items ∧
      rtDmaCalcRecvedLen 3 fifo.1 = queue.1.items.length ∧
      fifo.1.putIndex < 3 ∧ fifo.1.getIndex < 3 :=
  dma_fifo_refines_queue (by decide) (by decide) _ (by decide)

end RtVcom.Serial
