import RtVcom.Driver.DataQueueRun

/-!
# The serial transmitter in DMA mode

`_serial_dma_tx` puts its block into `data_queue`, and waits where that is full. Then it looks
whether the transmitter is activated, and hands the block to `dma_transmit` if it is not. The
interrupt of a transfer that ended takes the oldest block out of the queue, and hands the next one
to `dma_transmit` if there is one.

Between a writer's push and its look, and between its look and `dma_transmit`, other writers and the
interrupt may come. A writer that finds the transmitter at rest takes it for granted that its block
is the oldest one in the queue; it need not be. Where it is (`LooksAtOldest`), the blocks are
transmitted in the order in which they were put into the queue, each of them once, and none is left
behind (`serialDmaTx_orders`).
-/

namespace RtVcom.Serial

open RtVcom.Lib RtVcom.Kernel RtVcom.Driver

/-! ## The model -/

/-- `struct rt_serial_tx_dma`, with the calls of `_serial_dma_tx` that are behind their push and
those that are in front of `dma_transmit`, and the transfer of the controller. Beside the code, the
blocks that were handed to `dma_transmit`, and for each transfer that ended the item that the
interrupt read, which it passes to `tx_complete`. -/
structure SerialTxDma where
  dataQueue : DataQueueSystem
  activated : Bool
  looking : List (RtThread × RtDataItem)
  transmitting : List (RtThread × RtDataItem)
  transfer : Option RtDataItem
  handed : List RtDataItem
  completed : List (Option RtDataItem)

/-- The interrupt, where it calls a function of the data queue. -/
def isrThread : RtThread := ⟨0, 0⟩

inductive SerialTxAction
  | write (thread : RtThread) (block : RtDataItem)
  | run (thread : RtThread)
  | look (thread : RtThread) (block : RtDataItem)
  | transmit (thread : RtThread) (block : RtDataItem)
  | txDmaDone
deriving Repr, DecidableEq

namespace SerialTxDma

variable (s : SerialTxDma)

/-- The thread is in no call of `_serial_dma_tx`. -/
def Idle (thread : RtThread) : Prop :=
  s.dataQueue.calls thread = none ∧ ∀ call ∈ s.looking ++ s.transmitting, call.1 ≠ thread

instance (thread : RtThread) : Decidable (s.Idle thread) := inferInstanceAs (Decidable (_ ∧ _))

/-- `dma_transmit`, which starts a transfer. -/
def dmaTransmit (block : RtDataItem) : SerialTxDma :=
  { s with transfer := some block, handed := s.handed ++ [block] }

/-- A turn of `rt_data_queue_push`, which waits for ever. -/
def push (thread : RtThread) (block : RtDataItem) : SerialTxDma :=
  { s with
    dataQueue := s.dataQueue.turn thread (.push block rtWaitingForever)
    looking :=
      if (rtDataQueuePush s.dataQueue.queue thread block rtWaitingForever).2.answer.map Prod.fst =
          some rtEok then s.looking ++ [(thread, block)] else s.looking }

/-- A writer that was resumed goes on. -/
def run (thread : RtThread) (block : RtDataItem) : SerialTxDma :=
  let dataQueue := { s.dataQueue with
    resumed := s.dataQueue.resumed.erase (DataQueueSide.push, thread, rtEok) }
  { s with dataQueue }.push thread block

/-- A writer looks at `activated` behind its push. -/
def look (thread : RtThread) (block : RtDataItem) : SerialTxDma :=
  let s := { s with looking := s.looking.erase (thread, block) }
  if s.activated then s
  else { s with activated := true, transmitting := s.transmitting ++ [(thread, block)] }

/-- `rt_hw_serial_isr` with `RT_SERIAL_EVENT_TX_DMADONE`, in an interrupt. Without a result the
item of a full cell is missing. -/
def txDmaDone : Option SerialTxDma :=
  let popped := rtDataQueuePop s.dataQueue.queue isrThread 0
  let s := { s with
    dataQueue := s.dataQueue.turn isrThread (.pop 0)
    transfer := none
    completed := s.completed ++ [popped.2.answer.bind Prod.snd] }
  if (rtDataQueuePeak s.dataQueue.queue).1 = rtEok then
    (rtDataQueuePeak s.dataQueue.queue).2.map fun block =>
      { s with activated := true }.dmaTransmit block
  else some { s with activated := false }

end SerialTxDma

/-- The transmitter behind `rt_serial_open` with `RT_DEVICE_FLAG_DMA_TX`. A transfer that was
started ends with its interrupt. -/
def serialTxMachine (cells : List RtDataItem) : Machine SerialTxDma SerialTxAction where
  init :=
    { dataQueue := (dataQueueMachine 8 4 false cells).init
      activated := false
      looking := []
      transmitting := []
      transfer := none
      handed := []
      completed := [] }
  step s
    | .write thread block =>
      if s.Idle thread ∧ thread ≠ isrThread then some (s.push thread block) else none
    | .run thread =>
      if s.dataQueue.resumed.contains (DataQueueSide.push, thread, rtEok) then
        (s.dataQueue.calls thread).bind fun call =>
          match call with
          | .push block _ => some (s.run thread block)
          | .pop _ => none
      else none
    | .look thread block =>
      if (thread, block) ∈ s.looking then some (s.look thread block) else none
    | .transmit thread block =>
      if (thread, block) ∈ s.transmitting then
        some ({ s with transmitting := s.transmitting.erase (thread, block) }.dmaTransmit block)
      else none
    | .txDmaDone => if s.transfer = none then none else s.txDmaDone

/-- Every push finds the counters as `PushFits` asks, and a writer that finds the transmitter at
rest finds its block the oldest one. -/
def LooksAtOldest (s : SerialTxDma) : SerialTxAction → Prop
  | .write _ _ | .run _ => s.dataQueue.queue.PushFits
  | .look _ block => s.activated = false → (rtDataQueuePeak s.dataQueue.queue).2 = some block
  | .transmit _ _ | .txDmaDone => True

instance : DecidableRel LooksAtOldest := fun s a =>
  match a with
  | .write _ _ | .run _ => inferInstanceAs (Decidable s.dataQueue.queue.PushFits)
  | .look _ _ => inferInstanceAs (Decidable (_ → _))
  | .transmit _ _ | .txDmaDone => isTrue trivial

/-! ## The data queue of the transmitter -/

namespace SerialTxDma

variable {s : SerialTxDma} {d : DataQueueSystem} {q : BoundedQueue RtDataItem 8}
  {thread : RtThread} {block : RtDataItem}

/-- The blocks that the queue holds. -/
def stored (s : SerialTxDma) : List RtDataItem :=
  s.dataQueue.accepted.drop s.dataQueue.delivered.length

/-- What the driver has stored is what the queue holds. -/
theorem stored_eq {slack : DataQueueSide → Nat} (h : s.dataQueue.Kept 4 q slack) :
    s.stored = q.items := by
  rw [stored, h.fifo, List.drop_left]

/-- A turn of a push stores its block and succeeds, or it does neither. -/
theorem push_accepts (hstands : d.queue.alone.Stands q) (hfits : d.queue.PushFits)
    (thread : RtThread) (block : RtDataItem) :
    let result := (rtDataQueuePush d.queue thread block rtWaitingForever).2.answer.map Prod.fst
    let after := d.turn thread (.push block rtWaitingForever)
    after.delivered = d.delivered ∧
      (result = some rtEok ∧ after.accepted = d.accepted ++ [block] ∨
        result ≠ some rtEok ∧ after.accepted = d.accepted) := by
  have hturn := RtDataQueue.push_turn hstands hfits thread block rtWaitingForever
  unfold DataQueueSystem.turn
  dsimp only
  generalize rtDataQueuePush d.queue thread block rtWaitingForever = result at hturn
  cases hturn with
  | refused =>
    have herror : some (-rtEtimeout) ≠ some rtEok := by decide
    exact ⟨List.append_nil _, .inr ⟨herror, List.append_nil _⟩⟩
  | asleep => exact ⟨rfl, .inr ⟨nofun, rfl⟩⟩
  | stored => exact ⟨List.append_nil _, .inl ⟨rfl, rfl⟩⟩

/-- The interrupt takes the oldest block out. -/
theorem pop_delivers (hstands : d.queue.alone.Stands q) {rest : List RtDataItem}
    (hitems : q.items = block :: rest) :
    let after := d.turn isrThread (.pop 0)
    (rtDataQueuePop d.queue isrThread 0).2.answer.bind Prod.snd = some block ∧
      after.accepted = d.accepted ∧ after.delivered = d.delivered ++ [block] ∧
        after.calls = Function.update d.calls isrThread none := by
  have hturn := RtDataQueue.pop_turn hstands isrThread 0
  unfold DataQueueSystem.turn
  dsimp only
  generalize rtDataQueuePop d.queue isrThread 0 = result at hturn
  cases hturn with
  | refused hempty | asleep hempty => exact nomatch (hempty.symm.trans hitems)
  | taken _ hsome | many _ hsome =>
    obtain ⟨rfl, -⟩ := List.cons.inj (hsome.symm.trans hitems)
    exact ⟨rfl, List.append_nil _, rfl, rfl⟩

/-- `rt_data_queue_peak` looks at the oldest block. -/
theorem peak_eq (hstands : d.queue.alone.Stands q) :
    rtDataQueuePeak d.queue = (if q.items = [] then -rtEempty else rtEok, q.items.head?) :=
  Option.some.inj hstands.peak

/-! ## The order of the blocks -/

/-- What the transmitter is at: at rest, where every block that is stored has a writer that has yet
to look; with a writer in front of `dma_transmit`; or with the oldest block under way. -/
inductive Phase : Bool → List RtDataItem → List (RtThread × RtDataItem) →
    List (RtThread × RtDataItem) → Option RtDataItem → Prop
  | atRest {stored : List RtDataItem} {looking : List (RtThread × RtDataItem)}
    (hlooking : stored.length ≤ looking.length) : Phase false stored looking [] none
  | chosen (thread : RtThread) (block : RtDataItem) (rest : List RtDataItem)
    (looking : List (RtThread × RtDataItem)) :
    Phase true (block :: rest) looking [(thread, block)] none
  | underWay (block : RtDataItem) (rest : List RtDataItem)
    (looking : List (RtThread × RtDataItem)) : Phase true (block :: rest) looking [] (some block)

/-- The calls of the data queue are the writers', and none of them is the interrupt. -/
structure Writers (calls : RtThread → Option DataQueueWait) : Prop where
  isr : calls isrThread = none
  waits : ∀ thread call, calls thread = some call → ∃ block, call = .push block rtWaitingForever

/-- The invariant. -/
structure Ordered (s : SerialTxDma) : Prop where
  dataQueue : DataQueueSystem.Holds 8 4 s.dataQueue
  writers : Writers s.dataQueue.calls
  phase : Phase s.activated s.stored s.looking s.transmitting s.transfer
  handed : s.handed = s.dataQueue.delivered ++ s.transfer.toList
  completed : s.completed = s.dataQueue.delivered.map some

/-- Without a turn that stores, the transmitter stays as it is; a block that is stored has a writer
that has yet to look. -/
theorem Phase.push {activated : Bool} {stored : List RtDataItem}
    {looking transmitting : List (RtThread × RtDataItem)} {transfer : Option RtDataItem}
    (h : Phase activated stored looking transmitting transfer) (thread : RtThread)
    (block : RtDataItem) :
    Phase activated (stored ++ [block]) (looking ++ [(thread, block)]) transmitting transfer := by
  cases h with
  | atRest hlooking =>
    refine .atRest ?_
    rw [List.length_append, List.length_append]
    exact Nat.succ_le_succ hlooking
  | chosen => exact .chosen ..
  | underWay => exact .underWay ..

/-- While the transmitter is activated, it does not matter who has yet to look. -/
theorem Phase.forget {stored : List RtDataItem}
    {looking less transmitting : List (RtThread × RtDataItem)} {transfer : Option RtDataItem}
    (h : Phase true stored looking transmitting transfer) :
    Phase true stored less transmitting transfer := by
  cases h with
  | chosen => exact .chosen ..
  | underWay => exact .underWay ..

/-- The writer that finds the transmitter at rest is the one that transmits. -/
theorem Phase.choose {stored : List RtDataItem}
    {looking less transmitting : List (RtThread × RtDataItem)} {transfer : Option RtDataItem}
    (h : Phase false stored looking transmitting transfer) (hoffers : stored.head? = some block) :
    Phase true stored less (transmitting ++ [(thread, block)]) transfer := by
  cases h with
  | atRest =>
    obtain ⟨rest, rfl⟩ := List.head?_eq_some_iff.mp hoffers
    exact .chosen ..

/-- The transfer that a writer starts is the one of the oldest block, and no other one is under
way. -/
theorem Phase.transmit {activated : Bool} {stored : List RtDataItem}
    {looking transmitting : List (RtThread × RtDataItem)} {transfer : Option RtDataItem}
    (h : Phase activated stored looking transmitting transfer)
    (hmem : (thread, block) ∈ transmitting) :
    transfer = none ∧
      Phase activated stored looking (transmitting.erase (thread, block)) (some block) := by
  cases h with
  | atRest => exact absurd hmem List.not_mem_nil
  | chosen =>
    obtain ⟨rfl, rfl⟩ := Prod.mk.inj (List.mem_singleton.mp hmem)
    rw [List.erase_cons_head]
    exact ⟨rfl, .underWay ..⟩
  | underWay => exact absurd hmem List.not_mem_nil

/-- Behind a transfer the next block is transmitted, or the transmitter is at rest. -/
theorem Phase.next (stored : List RtDataItem) (looking : List (RtThread × RtDataItem)) :
    Phase (!stored.isEmpty) stored looking [] stored.head? := by
  cases stored with
  | nil => exact .atRest (Nat.zero_le _)
  | cons block rest => exact .underWay ..

/-- A thread's call of its own keeps the others' in order. -/
theorem Writers.update {calls : RtThread → Option DataQueueWait} (h : Writers calls)
    {call : Option DataQueueWait} (hisr : thread = isrThread → call = none)
    (hwaits : ∀ c, call = some c → ∃ block, c = .push block rtWaitingForever) :
    Writers (Function.update calls thread call) where
  isr := by
    by_cases heq : isrThread = thread
    · rw [← heq, Function.update_self]
      exact hisr heq.symm
    · rw [Function.update_of_ne heq]
      exact h.isr
  waits other c hc := by
    by_cases heq : other = thread
    · rw [heq, Function.update_self] at hc
      exact hwaits c hc
    · rw [Function.update_of_ne heq] at hc
      exact h.waits other c hc

theorem Writers.push (h : Writers d.calls) (hne : thread ≠ isrThread) (block : RtDataItem) :
    Writers (d.turn thread (.push block rtWaitingForever)).calls := by
  unfold DataQueueSystem.turn
  dsimp only
  unfold DataQueueSystem.settle
  split
  · refine h.update (fun heq => absurd heq hne) ?_
    rintro c ⟨⟩
    exact ⟨block, rfl⟩
  · exact h.update (fun _ => rfl) nofun

/-- A turn of a push, by a writer that has just come or that was resumed. -/
theorem Ordered.push (h : s.Ordered) {resumed : List (DataQueueSide × RtThread × Int)}
    (hafter : DataQueueSystem.Holds 8 4
      ({ s.dataQueue with resumed : DataQueueSystem }.turn thread (.push block rtWaitingForever)))
    (hfits : s.dataQueue.queue.PushFits) (hne : thread ≠ isrThread) :
    ({ s with dataQueue := { s.dataQueue with resumed } : SerialTxDma }.push thread
      block).Ordered := by
  obtain ⟨⟨q, hkept⟩, -⟩ := h.dataQueue
  have hitems := stored_eq hkept
  have hbefore : s.dataQueue.accepted.length = s.dataQueue.delivered.length + q.items.length := by
    rw [hkept.fifo, List.length_append]
  obtain ⟨hdelivered, hstores⟩ := @push_accepts { s.dataQueue with resumed } q hkept.stands hfits
    thread block
  have hwriters := Writers.push (d := { s.dataQueue with resumed }) h.writers hne block
  refine ⟨hafter, hwriters, ?_, ?_, ?_⟩
  · have hphase := h.phase
    unfold SerialTxDma.push stored
    dsimp only at hdelivered hstores ⊢
    rw [hdelivered]
    rcases hstores with ⟨hresult, haccepted⟩ | ⟨hresult, haccepted⟩
    · rw [if_pos hresult, haccepted, List.drop_append_of_le_length (by omega)]
      exact hphase.push thread block
    · rw [if_neg hresult, haccepted]
      exact hphase
  · exact h.handed.trans (by rw [← hdelivered]; rfl)
  · exact h.completed.trans (by rw [← hdelivered]; rfl)

/-- A writer looks. -/
theorem Ordered.look (h : s.Ordered)
    (holdest : s.activated = false → (rtDataQueuePeak s.dataQueue.queue).2 = some block) :
    (s.look thread block).Ordered := by
  obtain ⟨⟨q, hkept⟩, -⟩ := h.dataQueue
  have hphase := h.phase
  rw [peak_eq hkept.stands, ← stored_eq hkept] at holdest
  unfold SerialTxDma.look
  dsimp only
  split
  · next hactivated =>
    rw [hactivated] at hphase
    exact ⟨h.dataQueue, h.writers, hactivated ▸ hphase.forget, h.handed, h.completed⟩
  · next hactivated =>
    have hrest := Bool.eq_false_iff.mpr hactivated
    rw [hrest] at hphase
    exact ⟨h.dataQueue, h.writers, hphase.choose (holdest hrest), h.handed, h.completed⟩

/-- A writer starts the transfer. -/
theorem Ordered.transmit (h : s.Ordered) (hmem : (thread, block) ∈ s.transmitting) :
    ({ s with transmitting := s.transmitting.erase (thread, block) : SerialTxDma }.dmaTransmit
      block).Ordered := by
  obtain ⟨hnone, hphase⟩ := h.phase.transmit hmem
  refine ⟨h.dataQueue, h.writers, hphase, ?_, h.completed⟩
  change s.handed ++ [block] = s.dataQueue.delivered ++ [block]
  rw [h.handed, hnone, Option.toList_none, List.append_nil]

/-- The interrupt of a transfer that ended. -/
theorem Ordered.txDmaDone {s' : SerialTxDma} (h : s.Ordered) (hbusy : s.transfer ≠ none)
    (hstep : s.txDmaDone = some s') : s'.Ordered := by
  have hafter : DataQueueSystem.Holds 8 4 (s.dataQueue.turn isrThread (.pop 0)) :=
    h.dataQueue.comes h.writers.isr nofun
  obtain ⟨⟨q, hkept⟩, -⟩ := h.dataQueue
  obtain ⟨⟨q', hkept'⟩, -⟩ := id hafter
  have hpeak := peak_eq hkept'.stands
  obtain ⟨block, rest, hstored, hunderWay, hnone⟩ : ∃ block rest, s.stored = block :: rest ∧
      s.transfer = some block ∧ s.transmitting = [] := by
    have hphase := h.phase
    generalize s.activated = activated, s.stored = stored, s.looking = looking,
      s.transmitting = transmitting, s.transfer = transfer at hphase hbusy
    cases hphase with
    | atRest | chosen => exact absurd rfl hbusy
    | underWay block rest => exact ⟨block, rest, rfl, rfl, rfl⟩
  obtain ⟨hpopped, haccepted, hdelivered, hcalls⟩ :=
    pop_delivers hkept.stands ((stored_eq hkept).symm.trans hstored)
  have hnext : q'.items = rest := by
    have hfifo := hkept'.fifo
    rw [haccepted, hdelivered, hkept.fifo, ← stored_eq hkept, hstored, List.append_assoc,
      List.singleton_append] at hfifo
    exact (List.cons.inj (List.append_cancel_left hfifo)).2.symm
  have hrest : (s.dataQueue.turn isrThread (.pop 0)).accepted.drop
      (s.dataQueue.turn isrThread (.pop 0)).delivered.length = rest := by
    rw [hkept'.fifo, List.drop_left, hnext]
  have hwriters : Writers (s.dataQueue.turn isrThread (.pop 0)).calls := by
    rw [hcalls]
    exact h.writers.update (fun _ => rfl) nofun
  have hhanded : s.handed = (s.dataQueue.turn isrThread (.pop 0)).delivered := by
    rw [h.handed, hunderWay, hdelivered, Option.toList_some]
  have hcompleted : s.completed ++ [some block] =
      (s.dataQueue.turn isrThread (.pop 0)).delivered.map some := by
    rw [h.completed, hdelivered, List.map_append, List.map_singleton]
  have hphase := Phase.next rest s.looking
  rw [hnext] at hpeak
  unfold SerialTxDma.txDmaDone at hstep
  dsimp only at hstep
  rw [hpeak, hpopped] at hstep
  cases rest with
  | nil =>
    cases hstep
    refine ⟨hafter, hwriters, ?_, ?_, hcompleted⟩
    · unfold stored
      dsimp only
      rw [hrest, hnone]
      exact hphase
    · rw [Option.toList_none, List.append_nil]
      exact hhanded
  | cons next rest =>
    cases hstep
    refine ⟨hafter, hwriters, ?_, ?_, hcompleted⟩
    · unfold stored SerialTxDma.dmaTransmit
      dsimp only
      rw [hrest, hnone]
      exact hphase
    · exact congrArg (· ++ [next]) hhanded

/-- A step that looks at the oldest block keeps the order. -/
theorem Ordered.step {cells : List RtDataItem} {action : SerialTxAction} {s' : SerialTxDma}
    (h : s.Ordered) (hok : LooksAtOldest s action)
    (hstep : (serialTxMachine cells).step s action = some s') : s'.Ordered := by
  cases action with
  | write thread block =>
    obtain ⟨⟨⟨hidle, -⟩, hne⟩, hstep⟩ := Option.ite_none_right_eq_some.mp hstep
    cases hstep
    exact h.push (h.dataQueue.comes hidle fun _ => hok) hok hne
  | run thread =>
    obtain ⟨hresumed, hstep⟩ := Option.ite_none_right_eq_some.mp hstep
    have hmem := List.contains_iff_mem.mp hresumed
    obtain ⟨call, hcall, hstep⟩ := Option.bind_eq_some_iff.mp hstep
    have hne : thread ≠ isrThread := by
      rintro rfl
      exact nomatch h.writers.isr.symm.trans hcall
    obtain ⟨block, rfl⟩ := h.writers.waits thread call hcall
    cases hstep
    refine h.push ?_ hok hne
    have hafter := h.dataQueue.run hmem hcall fun _ _ => hok
    unfold DataQueueSystem.run at hafter
    rw [if_neg (not_not_intro rfl)] at hafter
    exact hafter
  | look thread block =>
    obtain ⟨-, hstep⟩ := Option.ite_none_right_eq_some.mp hstep
    cases hstep
    exact h.look hok
  | transmit thread block =>
    obtain ⟨hmem, hstep⟩ := Option.ite_none_right_eq_some.mp hstep
    cases hstep
    exact h.transmit hmem
  | txDmaDone =>
    obtain ⟨hbusy, hstep⟩ := Option.ite_none_left_eq_some.mp hstep
    exact h.txDmaDone hbusy hstep

/-- Nothing is in flight at the beginning. -/
theorem ordered_init {cells : List RtDataItem} (hcells : cells.length = 8) :
    (serialTxMachine cells).init.Ordered where
  dataQueue := DataQueueSystem.holds_init (by decide) (by decide) hcells
  writers := ⟨rfl, nofun⟩
  phase := .atRest (Nat.le_refl _)
  handed := rfl
  completed := rfl

end SerialTxDma

/-! ## Every interleaving -/

/-- Where every writer that finds the transmitter at rest finds its block the oldest one: the blocks
that were put into the queue are those whose transfers have ended and then those that are in it, in
order; the blocks that were handed to `dma_transmit` are the former and the one under way, which is
the oldest one in the queue; `tx_complete` is called with each block behind its transfer; the
oldest block is under way unless a writer is on its way to look or to start it; and while a writer
waits for room, more than 4 blocks are in the queue or writers that were resumed come before it. -/
theorem serialDmaTx_orders {cells : List RtDataItem} (hcells : cells.length = 8) {s : SerialTxDma}
    (h : (serialTxMachine cells).Reach LooksAtOldest s) :
    ∃ stored : List RtDataItem,
      s.dataQueue.accepted = s.dataQueue.delivered ++ stored ∧
      s.handed = s.dataQueue.delivered ++ s.transfer.toList ∧
      s.completed = s.dataQueue.delivered.map some ∧
      (∀ block, s.transfer = some block → stored.head? = some block) ∧
      (s.looking = [] → s.transmitting = [] → s.transfer = stored.head?) ∧
      (s.dataQueue.queue.suspendedPushList ≠ [] → 5 ≤ stored.length + s.dataQueue.owed .push) := by
  have hordered : s.Ordered := h.invariant (SerialTxDma.ordered_init hcells)
    fun _ _ _ hs hok hstep => hs.step hok hstep
  obtain ⟨⟨q, hkept⟩, -⟩ := hordered.dataQueue
  have hitems := SerialTxDma.stored_eq hkept
  have hphase := hordered.phase
  refine ⟨q.items, hkept.fifo, hordered.handed, hordered.completed, ?_, ?_, hkept.pushes⟩
  · intro block hblock
    rw [hitems] at hphase
    generalize s.activated = activated, q.items = stored, s.looking = looking,
      s.transmitting = transmitting, s.transfer = transfer at hphase hblock
    cases hphase with
    | atRest | chosen => cases hblock
    | underWay => exact hblock
  · intro hlooking htransmitting
    rw [hitems, hlooking, htransmitting] at hphase
    generalize s.activated = activated, q.items = stored, s.transfer = transfer at hphase
    cases hphase with
    | atRest hnobody =>
      rw [List.length_eq_zero_iff.mp (Nat.le_zero.mp hnobody), List.head?_nil]
    | underWay => rfl

/-- Two writers, the second one behind the first one's look: both blocks in order. -/
theorem serialDmaTx_orders_two :
    ∃ s, (serialTxMachine (List.replicate 8 ⟨0, 0⟩)).Reach LooksAtOldest s ∧
      s.handed = [oneItem, otherItem] ∧ s.completed = [some oneItem] ∧
      s.handed = s.dataQueue.delivered ++ s.transfer.toList := by
  obtain ⟨s, hreach, hhanded, hcompleted⟩ :=
    Machine.exists_reach_of_run (serialTxMachine (List.replicate 8 ⟨0, 0⟩)) LooksAtOldest
      [.write ⟨1, 10⟩ oneItem, .write ⟨2, 10⟩ otherItem, .look ⟨1, 10⟩ oneItem,
        .look ⟨2, 10⟩ otherItem, .transmit ⟨1, 10⟩ oneItem, .txDmaDone]
      (fun s => s.handed = [oneItem, otherItem] ∧ s.completed = [some oneItem])
      (by decide +kernel)
  obtain ⟨stored, -, horder, -⟩ := serialDmaTx_orders (by decide) hreach
  exact ⟨s, hreach, hhanded, hcompleted, horder⟩

end RtVcom.Serial
