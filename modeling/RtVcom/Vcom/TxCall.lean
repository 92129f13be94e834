import RtVcom.Driver.DataQueue
import RtVcom.Vcom.Writer

/-!
# A call of `_vcom_tx`

`_vcom_tx` as the serial framework calls it, from its beginning to its return. On a connected port
it puts its buffer into `tx_ringbuffer`, which is `txCall`, and sends the event. On a port that is
not connected it reports the transfer as done: `rt_hw_serial_isr` takes an item out of the data
queue and has the next one transmitted, which is a call of `_vcom_tx` again, and so on until the
queue is empty.

**The law** (`vcomTx_appends`): a call returns; with room for two bytes each it puts what it takes
of its buffer and answers how much that is, and on a port that is not connected it puts nothing.
-/

namespace RtVcom.Vcom

open RtVcom.Lib RtVcom.Kernel RtVcom.Driver RtVcom.Serial

/-! ## The model -/

/-- The indices have 16 bits, and there is a cell for each place. -/
structure QueueFormed (queue : RtDataQueue) : Prop where
  get_lt : queue.getIndex < 0x10000
  put_lt : queue.putIndex < 0x10000
  pos : 0 < queue.size
  cells : queue.queue.length = queue.size

/-- What a call works on: `data`, `open_flag` and `serial_tx`, with what it told others: the number
of events that it sent, and the arguments of `tx_complete`, if there is such a function. -/
structure VcomPort where
  connected : Bool
  openFlag : BitVec 16
  ring : TxRing
  dataQueue : RtDataQueue
  activated : Bool
  txComplete : Bool
  events : Nat
  completed : List (Option RtDataItem)
  formed : QueueFormed dataQueue

/-- A pop keeps the shape of the queue, and moves `get_index` on if there is an item. -/
theorem rtDataQueuePop_keeps (queue : RtDataQueue) (thread : RtThread) :
    (rtDataQueuePop queue thread 0).1.getIndex =
        (if queue.getIndex = queue.putIndex then queue.getIndex
          else (queue.getIndex + 1) % 0x10000) ∧
      (rtDataQueuePop queue thread 0).1.putIndex = queue.putIndex ∧
      (rtDataQueuePop queue thread 0).1.size = queue.size ∧
      (rtDataQueuePop queue thread 0).1.queue = queue.queue := by
  unfold rtDataQueuePop
  by_cases hempty : queue.getIndex = queue.putIndex
  · simp only [hempty, if_true, and_self]
  · simp only [hempty, if_false]
    split
    · split <;> exact ⟨rfl, rfl, rfl, rfl⟩
    · exact ⟨rfl, rfl, rfl, rfl⟩

/-- A pop keeps the queue well formed. -/
theorem QueueFormed.pop {queue : RtDataQueue} (h : QueueFormed queue) (thread : RtThread) :
    QueueFormed (rtDataQueuePop queue thread 0).1 := by
  obtain ⟨hget, hput, hsize, hqueue⟩ := rtDataQueuePop_keeps queue thread
  refine ⟨?_, hput ▸ h.put_lt, hsize ▸ h.pos, by rw [hqueue, hsize, h.cells]⟩
  rw [hget]
  split
  · exact h.get_lt
  · omega

/-- The bytes of a buffer. -/
def bufferAt (memory : List UInt8) (buf size : Nat) : List UInt8 := (memory.drop buf).take size

/-- The item of a turn that returns. -/
def poppedItem : DataQueueTurn → Option RtDataItem
  | .returns _ item _ _ => item
  | .suspends => none

/-- `rt_hw_serial_isr` with `RT_SERIAL_EVENT_TX_DMADONE`, in a thread, with the function
`dma_transmit` of the driver. Without a result the item of a full cell is missing, or that function
has none. -/
def rtHwSerialIsrTxDmadone (dmaTransmit : VcomPort → RtDataItem → Option VcomPort)
    (thread : RtThread) (s : VcomPort) : Option VcomPort :=
  let popped := rtDataQueuePop s.dataQueue thread 0
  let complete (s : VcomPort) : VcomPort :=
    if s.txComplete then { s with completed := s.completed ++ [poppedItem popped.2] } else s
  let s := { s with dataQueue := popped.1, formed := s.formed.pop thread }
  if (rtDataQueuePeak s.dataQueue).1 = rtEok then
    (rtDataQueuePeak s.dataQueue).2.bind fun item =>
      (dmaTransmit { s with activated := true } item).map complete
  else some (complete { s with activated := false })

/-- `_vcom_tx`, in a thread: the port behind it and the size that it returns, if it gets by with so
many calls of itself. -/
def vcomTx (memory : List UInt8) (thread : RtThread) :
    Nat → VcomPort → Nat → Nat → Option (VcomPort × Nat)
  | 0, _, _, _ => none
  | fuel + 1, s, buf, size =>
    if s.connected then
      let sent := txCall s.openFlag s.ring (bufferAt memory buf size)
      some ({ s with
        ring := sent.1
        events := if sent.2.size ≠ 0 then s.events + 1 else s.events }, sent.2.size)
    else
      -- recover dataqueue resources
      (rtHwSerialIsrTxDmadone
        (fun s item => (vcomTx memory thread fuel s item.dataPtr item.dataSize).map Prod.fst)
        thread s).map (·, if cdcBulkinMaxsize ≤ size then cdcBulkinMaxsize else size)

/-! ## A port that is not connected -/

variable {memory : List UInt8} {thread : RtThread} {s : VcomPort}

/-- A full cell has an item. -/
theorem QueueFormed.peak {queue : RtDataQueue} (h : QueueFormed queue) :
    (queue.getIndex = queue.putIndex ∧ (rtDataQueuePeak queue).1 ≠ rtEok) ∨
      (queue.getIndex ≠ queue.putIndex ∧ (rtDataQueuePeak queue).1 = rtEok ∧
        ∃ item, (rtDataQueuePeak queue).2 = some item) := by
  unfold rtDataQueuePeak
  by_cases hempty : queue.getIndex = queue.putIndex
  · left
    rw [if_pos hempty]
    exact ⟨hempty, by decide⟩
  · right
    rw [if_neg hempty]
    have hlt : queue.getIndex % queue.size < queue.queue.length := by
      rw [h.cells]
      exact Nat.mod_lt _ h.pos
    exact ⟨hempty, rfl, _, List.getElem?_eq_getElem hlt⟩

/-- The cut to the maximum of a bulk transfer is a minimum. -/
theorem cut_eq (size : Nat) : (if cdcBulkinMaxsize ≤ size then cdcBulkinMaxsize else size) =
    min size cdcBulkinMaxsize := by
  split <;> omega

/-- The recovery ends, with the ring as it was, if the items of the queue are fewer than the calls
that may be made. By induction on these: a call takes an item out. -/
theorem vcomTx_disconnected {fuel : Nat} (hconnected : s.connected = false)
    (hfuel : s.dataQueue.stored < fuel) (buf size : Nat) :
    ∃ s', s'.ring = s.ring ∧ ∀ more, vcomTx memory thread (fuel + more) s buf size =
      some (s', min size cdcBulkinMaxsize) := by
  induction fuel generalizing s buf size with
  | zero => exact absurd hfuel (Nat.not_lt_zero _)
  | succ fuel ih =>
    obtain ⟨hget, hput, -, -⟩ := rtDataQueuePop_keeps s.dataQueue thread
    have hgetLt := s.formed.get_lt
    have hputLt := s.formed.put_lt
    rcases (s.formed.pop thread).peak with ⟨-, hpeak⟩ | ⟨hsome, hpeak, item, hitem⟩
    · refine ⟨?_, ?_, fun more => ?_⟩
      rotate_left 2
      · rw [Nat.succ_add, vcomTx, if_neg (by rw [hconnected]; exact Bool.false_ne_true)]
        simp only [rtHwSerialIsrTxDmadone, hpeak, if_false, Option.map_some, cut_eq]
        rfl
      · split <;> rfl
    · -- an item was left, so one was taken out
      have hne : s.dataQueue.getIndex ≠ s.dataQueue.putIndex := by
        intro hempty
        rw [if_pos hempty] at hget
        exact hsome (hget.trans (hempty.trans hput.symm))
      rw [if_neg hne] at hget
      have hless : (rtDataQueuePop s.dataQueue thread 0).1.stored < fuel := by
        unfold RtDataQueue.stored at hfuel ⊢
        rw [hget, hput]
        omega
      obtain ⟨s', hring, hcall⟩ := ih (s := { s with
        dataQueue := (rtDataQueuePop s.dataQueue thread 0).1
        activated := true
        formed := s.formed.pop thread }) hconnected hless item.dataPtr item.dataSize
      refine ⟨?_, ?_, fun more => ?_⟩
      rotate_left 2
      · rw [Nat.succ_add, vcomTx, if_neg (by rw [hconnected]; exact Bool.false_ne_true)]
        simp only [rtHwSerialIsrTxDmadone, hpeak, if_true, hitem, Option.bind_some, hcall,
          Option.map_some, cut_eq]
        rfl
      · split <;> exact hring

/-! ## The law -/

/-- A call returns what it takes of its buffer. On a connected port with room for two bytes each it
puts that, with every newline translated in stream mode; on another port it puts nothing. -/
theorem vcomTx_appends (memory : List UInt8) (thread : RtThread) (s : VcomPort) (buf n : Nat)
    (hbuf : buf + n ≤ memory.length)
    (hroom : s.connected = true →
      2 * min n cdcBulkinMaxsize ≤ rtRingbufferSpaceLen s.ring.val) :
    ∃ s', (∀ more, vcomTx memory thread (0x10000 + more) s buf n =
        some (s', min n cdcBulkinMaxsize)) ∧
      (s.connected = true → s'.ring.queue = s.ring.queue ++
        if hasFlag s.openFlag rtDeviceFlagStream then
          translated ((memory.drop buf).take (min n cdcBulkinMaxsize))
        else (memory.drop buf).take (min n cdcBulkinMaxsize)) ∧
      (s.connected = false → s'.ring = s.ring) := by
  cases hconnected : s.connected with
  | false =>
    have hstored : s.dataQueue.stored < 0x10000 := Nat.mod_lt _ (by decide)
    obtain ⟨s', hring, hcall⟩ := @vcomTx_disconnected memory thread s _ hconnected hstored
      buf n
    exact ⟨s', hcall, fun h => absurd h Bool.false_ne_true, fun _ => hring⟩
  | true =>
    have htake : (bufferAt memory buf n).take cdcBulkinMaxsize =
        (memory.drop buf).take (min n cdcBulkinMaxsize) := by
      rw [bufferAt, List.take_take, Nat.min_comm]
    have hlength : ((memory.drop buf).take (min n cdcBulkinMaxsize)).length =
        min n cdcBulkinMaxsize := by
      rw [List.length_take, List.length_drop]
      omega
    have hspace := hroom hconnected
    rw [RingQueue.spaceLen_eq] at hspace
    have hqueue := s.ring.length_queue_le
    obtain ⟨hputs, hcounts⟩ := txCall_spec s.openFlag (bufferAt memory buf n) s.ring (by
      rw [htake, hlength]
      omega)
    rw [htake, hlength] at hcounts
    rw [txBytes, htake] at hputs
    generalize hsent : txCall s.openFlag s.ring (bufferAt memory buf n) = sent at hputs hcounts
    refine ⟨{ s with
      ring := sent.1
      events := if sent.2.size ≠ 0 then s.events + 1 else s.events },
      fun more => ?_, fun _ => hputs, fun h => absurd h.symm Bool.false_ne_true⟩
    have hfuel : 0x10000 + more = 0xFFFF + more + 1 := by omega
    rw [hfuel, vcomTx, if_pos hconnected]
    simp only [hsent, hcounts]

/-- Two newlines in stream mode, into the empty ring. -/
theorem vcomTx_appends_two :
    ∃ s' : VcomPort, s'.ring.queue = [cr, lf, cr, lf] := by
  let s : VcomPort := {
    connected := true
    openFlag := rtDeviceFlagStream
    ring := txRingInit
    dataQueue := rtDataQueueInit 8 4 false (List.replicate 8 ⟨0, 0⟩)
    activated := true
    txComplete := false
    events := 0
    completed := []
    formed := ⟨by decide, by decide, by decide, rfl⟩ }
  obtain ⟨s', -, hputs, -⟩ := vcomTx_appends [lf, lf, 0] ⟨0, 10⟩ s 0 2 (by decide)
    (fun _ => by decide +kernel)
  refine ⟨s', (hputs rfl).trans ?_⟩
  have hstream : hasFlag s.openFlag rtDeviceFlagStream = true :=
    show hasFlag rtDeviceFlagStream rtDeviceFlagStream = true by decide
  rw [show s.ring.queue = [] from queue_txRingInit, if_pos hstream]
  decide

end RtVcom.Vcom
