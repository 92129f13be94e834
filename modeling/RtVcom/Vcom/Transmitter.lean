import RtVcom.Lib.Machine
import RtVcom.Kernel.Ipc
import RtVcom.Usb.Endpoint
import RtVcom.Vcom.Writer

/-!
# The transmitter of the virtual COM port

The parties that move a byte from `tx_ringbuffer` to the host, as one machine: any number of
writers (`_vcom_putc`, `_vcom_tx`), the thread `vcom_tx_thread_entry`, the usbd thread with
`_data_notify` and `_ep_in_handler`, and the controller, which takes a packet from the memory it
was given and reports it with an IN-complete message. The host changes the line state
(`data->connected`), and the users of the device change its open flags, at any time.

A step is one critical section or one access to what the parties share. The thread's loop
condition `rt_ringbuffer_data_len` runs with interrupts enabled: its several reads of the ring
span an interval (`TxPc.checking`), and when the ring changes in it the result is any number.
Messages are handled in order; the request of `ep_in` and the buffer `ch` on the thread's stack
are used by all three parties.

The fields from `removed` on are not in the program. They record what the parties did:
the bytes taken out of the ring, the bytes the controller sent, whether bytes were dropped because
the port was disconnected, whether a request of the thread has not yet seen its completion, and
whether the thread issued another one over it.

The law of this module is `vcomTx_no_lost_wakeup`: a thread suspended on `tx_event` leaves no byte
in the ring without a writer that is about to send the event.
-/

namespace RtVcom.Vcom

open RtVcom.Lib RtVcom.Kernel RtVcom.Driver RtVcom.Serial RtVcom.Usb

/-! ## The parties -/

/-- `CDC_TX_HAS_DATE`. -/
def cdcTxHasDate : BitVec 32 := 0x01

/-- `VCOM_TX_TIMEOUT`. -/
def vcomTxTimeout : Int := 1000

/-- `USB_CDC_BUFSIZE`, the packet size of both bulk endpoints. -/
def usbCdcBufsize : Nat := 0x40

/-- The thread `vcom_tx_thread_entry`. -/
def vcomTid : RtThread := { id := 1, currentPriority := 16 }

/-- Where the transmit thread is. -/
inductive TxPc
  /-- At `rt_event_recv`, suspended in it, and behind it with the received flags. -/
  | recv
  | suspended
  | received (res : BitVec 32)
  /-- At the loop condition, and in it: `touched` when the ring has changed since. -/
  | check
  | checking (touched : Bool)
  /-- At `rt_ringbuffer_get`, and behind it with the number of bytes in `ch`. -/
  | get
  | got (res : Nat)
  /-- At `rt_completion_init`, the stores to the request, `rt_usbd_io_request`. -/
  | initWait (res : Nat)
  | fill (res : Nat)
  | submit (res : Nat)
  /-- At `rt_completion_wait`, suspended in it, resumed in it, and behind it. -/
  | wait
  | waiting
  | woken
  | after
deriving Repr, DecidableEq

/-- Where the usbd thread is: waiting for a message, or at the handler of `ep_in`. -/
inductive UsbdPc
  | idle
  | handling
deriving Repr, DecidableEq

/-- The state of the transmit side. -/
structure VcomTx where
  ring : TxRing
  event : RtEvent
  connected : Bool
  openFlag : BitVec 16
  writers : Nat → WriterPc
  tx : TxPc
  /-- The buffer `ch` of the thread, and `data->wait`. -/
  ch : List UInt8
  completion : RtCompletion
  epIn : Uep
  usbd : UsbdPc
  /-- The packet the controller works on, and the IN-complete messages not yet handled. -/
  inflight : Option (Option Nat × Nat)
  messages : List Nat
  removed : List UInt8
  wire : List UInt8
  dropped : Bool
  outstanding : Bool
  overlap : Bool

/-- The steps of the parties. -/
inductive VcomAction
  | call (w : Nat) (c : DriverCall)
  | write (w : Nat)
  | tx
  | checked (n : Nat)
  | expire
  | inComplete
  | notify
  | handle
  | lineState (connected : Bool)
  | openFlags (flags : BitVec 16)
deriving Repr, DecidableEq

/-! ## Steps -/

/-- `rt_event_send(&data->tx_event, CDC_TX_HAS_DATE)`. -/
def sendEvent (s : VcomTx) : VcomTx :=
  match rtEventSend s.event cdcTxHasDate with
  | (event, w :: _) => { s with event, tx := .received w.eventSet }
  | (event, []) => { s with event }

/-- The loop condition is being read while the ring changes. -/
def TxPc.touch (changed : Bool) : TxPc → TxPc
  | .checking touched => .checking (touched || changed)
  | pc => pc

/-- What a step of writer `w` does to the ring and its own place, and to the thread's reading of
the ring. -/
def writerPut (s : VcomTx) (w : Nat) : VcomTx :=
  let r := writerStep s.connected s.openFlag s.ring (s.writers w)
  { s with
    ring := r.ring
    writers := fun v => if v = w then r.pc else s.writers v
    tx := s.tx.touch (decide (r.ring ≠ s.ring)) }

/-- A step of writer `w`. -/
def stepWriter (s : VcomTx) (w : Nat) : VcomTx :=
  if (writerStep s.connected s.openFlag s.ring (s.writers w)).sends then sendEvent (writerPut s w)
  else writerPut s w

/-- The calls into the controller and the completion, in order. -/
def perform (s : VcomTx) : List UsbOp → VcomTx
  | [] => s
  | .epWrite buffer size :: ops => perform { s with inflight := some (buffer, size) } ops
  | .epReadPrepare _ _ :: ops => perform s ops
  | .completionDone :: ops =>
    let (completion, resumed) := rtCompletionDone s.completion
    perform { s with
      completion
      tx := if resumed = some vcomTid then .woken else s.tx
      outstanding := false } ops

/-- `rt_event_recv(&data->tx_event, CDC_TX_HAS_DATE, OR | CLEAR, FOREVER, &res)`. -/
def txRecv (s : VcomTx) : VcomTx :=
  match rtEventRecv s.event vcomTid cdcTxHasDate (rtEventFlagOr ||| rtEventFlagClear)
      rtWaitingForever with
  | (event, .received res) => { s with event, tx := .received res }
  | (event, .suspended) => { s with event, tx := .suspended }
  | (event, .timedOut) => { s with event, tx := .recv }

/-- `rt_ringbuffer_get(&data->tx_ringbuffer, ch, CDC_BULKIN_MAXSIZE)`. -/
def txGet (s : VcomTx) : VcomTx :=
  let bytes := s.ring.getFst cdcBulkinMaxsize
  { s with
    ring := s.ring.getSnd cdcBulkinMaxsize
    ch := bytes ++ s.ch.drop bytes.length
    removed := s.removed ++ bytes
    tx := .got bytes.length }

/-- The stores to `ep_in->request`. -/
def txFill (s : VcomTx) (res : Nat) : VcomTx :=
  { s with
    epIn := { s.epIn with request :=
      { s.epIn.request with buffer := some 0, size := res, reqType := .write } }
    tx := .submit res }

/-- `rt_usbd_io_request(func->device, data->ep_in, &data->ep_in->request)`. -/
def txSubmit (s : VcomTx) : VcomTx :=
  let (epIn, ops) := rtUsbdIoRequest s.epIn
  perform
    { s with epIn, tx := .wait, outstanding := true, overlap := s.overlap || s.outstanding } ops

/-- `rt_completion_wait(&data->wait, VCOM_TX_TIMEOUT)`. -/
def txWait (s : VcomTx) : VcomTx :=
  match rtCompletionWait s.completion vcomTid vcomTxTimeout with
  | (completion, .returns _) => { s with completion, tx := .after }
  | (completion, .suspends) => { s with completion, tx := .waiting }

/-- A step of the transmit thread. It takes none while it is suspended, and the result of the
loop condition is an action of its own. -/
def stepTx (s : VcomTx) : Option VcomTx :=
  match s.tx with
  | .recv => some (txRecv s)
  | .received res => some { s with tx := if res &&& cdcTxHasDate = 0 then .recv else .check }
  | .check => some { s with tx := .checking false }
  | .get => some (txGet s)
  -- nothing was there, or the port is disconnected and the bytes are dropped: `continue`
  | .got res => some { s with
      tx := if res = 0 ∨ s.connected = false then .check else .initWait res
      dropped := s.dropped || decide (res ≠ 0 ∧ s.connected = false) }
  | .initWait res => some { s with completion := rtCompletionInit, tx := .fill res }
  | .fill res => some (txFill s res)
  | .submit _ => some (txSubmit s)
  | .wait => some (txWait s)
  | .woken => some { s with completion := rtCompletionResume s.completion, tx := .after }
  | .after => some { s with tx := .check }
  | .suspended | .checking _ | .waiting => none

/-- `_data_notify` of the next IN-complete message. -/
def stepNotify (s : VcomTx) (size : Nat) (rest : List Nat) : VcomTx :=
  match dataNotify .configured s.epIn size 0 with
  | (epIn, ops, none) => perform { s with epIn, messages := rest } ops
  | (epIn, ops, some _) => perform { s with epIn, messages := rest, usbd := .handling } ops

/-- `_ep_in_handler`. -/
def stepHandle (s : VcomTx) : VcomTx :=
  let (epIn, ops) := epInHandler s.epIn
  perform { s with epIn, usbd := .idle } ops

/-- One step of one party. -/
def vcomStep (s : VcomTx) : VcomAction → Option VcomTx
  | .call w c =>
    if s.writers w = .idle then
      some { s with writers := fun v => if v = w then driverEntry c else s.writers v }
    else none
  | .write w => if s.writers w = .idle then none else some (stepWriter s w)
  | .tx => stepTx s
  | .checked n =>
    match s.tx with
    | .checking touched =>
      if touched ∨ n = rtRingbufferDataLen s.ring.val then
        some { s with tx := if n = 0 then .recv else .get }
      else none
    | _ => none
  | .expire =>
    if s.tx = .waiting then
      some { s with completion := rtCompletionTimeout s.completion vcomTid, tx := .woken }
    else none
  | .inComplete =>
    match s.inflight with
    | some (buffer, size) =>
      some { s with
        inflight := none
        messages := s.messages ++ [size]
        wire := s.wire ++ region s.ch buffer size }
    | none => none
  | .notify =>
    match s.usbd, s.messages with
    | .idle, size :: rest => some (stepNotify s size rest)
    | _, _ => none
  | .handle => if s.usbd = .handling then some (stepHandle s) else none
  | .lineState connected => some { s with connected }
  | .openFlags flags => some { s with openFlag := flags }

/-- What a step can be: each action with the condition under which it is taken. -/
inductive VcomStep (s : VcomTx) : VcomAction → VcomTx → Prop
  | call {w : Nat} {c : DriverCall} (hidle : s.writers w = .idle) :
    VcomStep s (.call w c)
      { s with writers := fun v => if v = w then driverEntry c else s.writers v }
  | write {w : Nat} (hbusy : s.writers w ≠ .idle) : VcomStep s (.write w) (stepWriter s w)
  | tx {t : VcomTx} (hstep : stepTx s = some t) : VcomStep s .tx t
  | checked {n : Nat} {touched : Bool} (htx : s.tx = .checking touched)
    (hn : touched = true ∨ n = rtRingbufferDataLen s.ring.val) :
    VcomStep s (.checked n) { s with tx := if n = 0 then .recv else .get }
  | expire (htx : s.tx = .waiting) :
    VcomStep s .expire
      { s with completion := rtCompletionTimeout s.completion vcomTid, tx := .woken }
  | inComplete {buffer : Option Nat} {size : Nat} (hinflight : s.inflight = some (buffer, size)) :
    VcomStep s .inComplete
      { s with
        inflight := none
        messages := s.messages ++ [size]
        wire := s.wire ++ region s.ch buffer size }
  | notify {size : Nat} {rest : List Nat} (hidle : s.usbd = .idle)
    (hmessages : s.messages = size :: rest) : VcomStep s .notify (stepNotify s size rest)
  | handle (hhandling : s.usbd = .handling) : VcomStep s .handle (stepHandle s)
  | lineState {connected : Bool} : VcomStep s (.lineState connected) { s with connected }
  | openFlags {flags : BitVec 16} : VcomStep s (.openFlags flags) { s with openFlag := flags }

/-- What a step of the system can be. -/
theorem vcomStep_cases {s t : VcomTx} {a : VcomAction} (h : vcomStep s a = some t) :
    VcomStep s a t := by
  cases a with
  | call w c =>
    simp only [vcomStep, Option.ite_none_right_eq_some, Option.some.injEq] at h
    obtain ⟨hidle, rfl⟩ := h
    exact .call hidle
  | write w =>
    simp only [vcomStep, Option.ite_none_left_eq_some, Option.some.injEq] at h
    obtain ⟨hbusy, rfl⟩ := h
    exact .write hbusy
  | tx => exact .tx h
  | checked n =>
    simp only [vcomStep] at h
    split at h
    · next htx =>
      rw [Option.ite_none_right_eq_some, Option.some.injEq] at h
      obtain ⟨hn, rfl⟩ := h
      exact .checked htx hn
    · cases h
  | expire =>
    simp only [vcomStep, Option.ite_none_right_eq_some, Option.some.injEq] at h
    obtain ⟨htx, rfl⟩ := h
    exact .expire htx
  | inComplete =>
    simp only [vcomStep] at h
    split at h
    · next hinflight =>
      cases h
      exact .inComplete hinflight
    · cases h
  | notify =>
    simp only [vcomStep] at h
    split at h
    · next hidle hmessages =>
      cases h
      exact .notify hidle hmessages
    · cases h
  | handle =>
    simp only [vcomStep, Option.ite_none_right_eq_some, Option.some.injEq] at h
    obtain ⟨hhandling, rfl⟩ := h
    exact .handle hhandling
  | lineState connected =>
    cases h
    exact .lineState
  | openFlags flags =>
    cases h
    exact .openFlags

/-- The transmit side as `rt_usb_vcom_init` leaves it, with the device configured. -/
def vcomSystem : Machine VcomTx VcomAction where
  init :=
    { ring := txRingInit
      event := rtEventInit
      connected := false
      openFlag := 0
      writers := fun _ => .idle
      tx := .recv
      ch := List.replicate cdcBulkinMaxsize 0
      completion := rtCompletionInit
      epIn :=
        { dirIn := true, maxPacket := usbCdcBufsize, stalled := false, requestList := []
          request := { reqType := .readFull, buffer := none, size := 0, remainSize := 0 } }
      usbd := .idle
      inflight := none
      messages := []
      removed := []
      wire := []
      dropped := false
      outstanding := false
      overlap := false }
  step := vcomStep

/-! ## Where the thread is suspended -/

/-- The transmit thread in the suspend list of its event. -/
def txWaiter : EventWaiter :=
  { thread := vcomTid, eventSet := cdcTxHasDate, eventInfo := rtEventFlagOr ||| rtEventFlagClear }

/-- The suspend lists of the two objects hold the thread exactly while it is suspended there,
and it does not wait for a completion that has been signalled. -/
structure VcomTx.Parked (s : VcomTx) : Prop where
  event : s.event.suspendThread = if s.tx = .suspended then [txWaiter] else []
  completion : s.completion.suspendedList = if s.tx = .waiting then [vcomTid] else []
  unsignalled : s.tx = .waiting → s.completion.flag = false

/-- What the calls into the controller leave alone. -/
theorem perform_frame (ops : List UsbOp) (s : VcomTx) :
    (perform s ops).ring = s.ring ∧ (perform s ops).event = s.event ∧
      (perform s ops).writers = s.writers ∧ (perform s ops).connected = s.connected ∧
      (perform s ops).dropped = s.dropped := by
  induction ops generalizing s with
  | nil => exact ⟨rfl, rfl, rfl, rfl, rfl⟩
  | cons op ops ih =>
    cases op with
    | epWrite buffer size => exact ih { s with inflight := some (buffer, size) }
    | epReadPrepare buffer size => exact ih s
    | completionDone => exact ih _

/-- The completion: it is signalled, and the thread is resumed if it waits. -/
def signal (s : VcomTx) : VcomTx :=
  { s with
    completion := { flag := true, suspendedList := [] }
    tx := if s.tx = .waiting then .woken else s.tx
    outstanding := false }

/-- A completion signals, before the operations behind it. -/
theorem perform_completionDone {s : VcomTx} (h : s.Parked) (ops : List UsbOp) :
    perform s (.completionDone :: ops) = perform (signal s) ops := by
  have hlist := h.completion
  have hflag := h.unsignalled
  obtain ⟨ring, event, connected, openFlag, writers, tx, ch, ⟨flag, list⟩, epIn, usbd, inflight,
    messages, removed, wire, dropped, outstanding, overlap⟩ := s
  by_cases hw : tx = .waiting
  · simp only [hw, if_true] at hlist
    simp only [hw, forall_const] at hflag
    simp only [perform, signal, rtCompletionDone, hlist, hflag, hw, Bool.false_eq_true, if_false,
      if_true]
  · simp only [hw, if_false] at hlist
    cases flag with
    | true => simp only [perform, signal, rtCompletionDone, hlist, hw, if_true, if_false,
        reduceCtorEq]
    | false => simp only [perform, signal, rtCompletionDone, hlist, hw, Bool.false_eq_true,
        if_false, reduceCtorEq]

/-- A signal keeps a parked thread parked. -/
theorem signal_parked {s : VcomTx} (h : s.Parked) : (signal s).Parked := by
  have hevent := h.event
  by_cases hw : s.tx = .waiting
  · simp only [hw, reduceCtorEq, if_false] at hevent
    refine ⟨?_, ?_, ?_⟩
    · simp only [signal, hw, if_true, reduceCtorEq, if_false, hevent]
    · simp only [signal, hw, if_true, reduceCtorEq, if_false]
    · intro hc
      simp only [signal, hw, if_true, reduceCtorEq] at hc
  · refine ⟨?_, ?_, ?_⟩
    · simp only [signal, hw, if_false]
      exact hevent
    · simp only [signal, hw, if_false]
    · intro hc
      simp only [signal, hw, if_false] at hc

/-- The calls into the controller and the completion only resume a thread that waits. -/
theorem perform_parked (ops : List UsbOp) {s : VcomTx} (h : s.Parked) :
    (perform s ops).Parked ∧
      ((perform s ops).tx = s.tx ∨ s.tx = .waiting ∧ (perform s ops).tx = .woken) := by
  induction ops generalizing s with
  | nil => exact ⟨h, .inl rfl⟩
  | cons op ops ih =>
    cases op with
    | epWrite buffer size =>
      exact @ih { s with inflight := some (buffer, size) } ⟨h.event, h.completion, h.unsignalled⟩
    | epReadPrepare buffer size => exact ih h
    | completionDone =>
      rw [perform_completionDone h]
      obtain ⟨hpark, htx⟩ := ih (signal_parked h)
      refine ⟨hpark, ?_⟩
      by_cases hw : s.tx = .waiting
      · have hs : (signal s).tx = .woken := if_pos hw
        rw [hs] at htx
        exact .inr ⟨hw, htx.resolve_right fun hx => absurd hx.1 (by simp only [reduceCtorEq,
          not_false_eq_true])⟩
      · have hs : (signal s).tx = s.tx := if_neg hw
        rw [hs] at htx
        exact .inl (htx.resolve_right fun hx => hw hx.1)

/-- The event: a suspended thread is resumed with the flag and the flag is clear again, else
the flag is set. -/
theorem sendEvent_eq {s : VcomTx} (h : s.Parked)
    (hflag : s.event.set = 0 ∨ s.event.set = cdcTxHasDate)
    (hclear : s.tx = .suspended → s.event.set = 0) :
    sendEvent s =
      if s.tx = .suspended then
        { s with event := { set := 0, suspendThread := [] }, tx := .received cdcTxHasDate }
      else { s with event := { set := cdcTxHasDate, suspendThread := [] } } := by
  have hlist := h.event
  rcases hevent : s.event with ⟨set, list⟩
  rw [hevent] at hlist hflag hclear
  by_cases hs : s.tx = .suspended
  · have hset := hclear hs
    rw [if_pos hs] at hlist ⊢
    simp only at hlist hset
    have hsend : rtEventSend ⟨0, [txWaiter]⟩ cdcTxHasDate = (⟨0, []⟩, [txWaiter]) := by decide
    rw [sendEvent, hevent, hlist, hset, hsend]
    rfl
  · rw [if_neg hs] at hlist ⊢
    simp only at hlist hflag
    have hsend : rtEventSend ⟨set, []⟩ cdcTxHasDate = (⟨cdcTxHasDate, []⟩, []) := by
      rcases hflag with rfl | rfl
      · decide
      · decide
    rw [sendEvent, hevent, hlist, hsend]

/-! ## Writers that owe an event -/

/-- The writer has put data and not yet sent the event for it. -/
def WriterPc.dirty : WriterPc → Bool
  | .sendCr _ | .sendCh => true
  | .txScan f | .txPut f | .txCrlf f | .txTail f | .txSend f => decide (f.size ≠ 0)
  | .idle | .putc _ | .putCr _ | .putCh _ | .tx _ => false

/-- Some writer has put data and not yet sent the event. -/
def VcomTx.Owed (s : VcomTx) : Prop := ∃ w, (s.writers w).dirty = true

/-- A put that changes the ring is counted. -/
theorem TxFrame.put_size_ne_zero (f : TxFrame) (ring : TxRing) (upto : Nat)
    (h : (f.put ring upto).1 ≠ ring ∨ f.size ≠ 0) : (f.put ring upto).2.size ≠ 0 := by
  change f.size + (rtRingbufferPutForce ring.val _).2 ≠ 0
  rcases h with h | h
  · have hblock : (f.buf.drop f.size).take (upto - f.size) ≠ [] := by
      intro hnil
      apply h
      change ring.putForce ((f.buf.drop f.size).take (upto - f.size)) = ring
      rw [hnil, RingQueue.putForce_nil]
    have hpos := List.length_pos_iff.mpr hblock
    rw [Driver.putForce_snd, forceBlock]
    split
    · rw [List.length_drop, ring.property.2]
      simp only [cdcTxBufsize]
      omega
    · omega
  · omega

/-- A writer that changes the ring owes an event, and one that owes an event keeps owing it
until it sends it. -/
theorem writerStep_dirty (connected : Bool) (openFlag : BitVec 16) (ring : TxRing) (pc : WriterPc) :
    ((writerStep connected openFlag ring pc).ring ≠ ring →
      (writerStep connected openFlag ring pc).pc.dirty = true) ∧
    (pc.dirty = true → (writerStep connected openFlag ring pc).pc.dirty = true ∨
      (writerStep connected openFlag ring pc).sends = true) := by
  cases pc with
  | idle => exact ⟨fun h => absurd rfl h, fun h => by cases h⟩
  | putc c => exact ⟨fun h => absurd rfl h, fun h => by cases h⟩
  | putCr c => exact ⟨fun _ => rfl, fun h => by cases h⟩
  | sendCr c => exact ⟨fun h => absurd rfl h, fun _ => .inr rfl⟩
  | putCh c => exact ⟨fun _ => rfl, fun h => by cases h⟩
  | sendCh => exact ⟨fun h => absurd rfl h, fun _ => .inr rfl⟩
  | tx buf => exact ⟨fun h => absurd rfl h, fun h => by cases h⟩
  | txScan f =>
    refine ⟨fun h => absurd rfl h, fun h => .inl ?_⟩
    simp only [writerStep]
    split
    · split
      · exact h
      · exact h
    · exact h
  | txPut f =>
    refine ⟨fun h => ?_, fun h => .inl ?_⟩
    · exact decide_eq_true (f.put_size_ne_zero ring f.ptr (.inl h))
    · exact decide_eq_true (f.put_size_ne_zero ring f.ptr (.inr (of_decide_eq_true h)))
  | txCrlf f =>
    simp only [writerStep, TxFrame.crlf]
    split
    · split
      · have hsize : decide (f.size + 1 ≠ 0) = true := decide_eq_true (Nat.succ_ne_zero _)
        exact ⟨fun _ => hsize, fun _ => .inl hsize⟩
      · exact ⟨fun h => absurd rfl h, fun h => .inl h⟩
    · exact ⟨fun h => absurd rfl h, fun h => .inl h⟩
  | txTail f =>
    simp only [writerStep]
    split
    · refine ⟨fun h => ?_, fun h => .inl ?_⟩
      · exact decide_eq_true (f.put_size_ne_zero ring f.buf.length (.inl h))
      · exact decide_eq_true (f.put_size_ne_zero ring f.buf.length (.inr (of_decide_eq_true h)))
    · exact ⟨fun h => absurd rfl h, fun h => .inl h⟩
  | txSend f => exact ⟨fun h => absurd rfl h, fun h => .inr h⟩

/-! ## The invariant -/

/-- The thread is past its event and will look at the ring again before it receives the next
one. -/
def TxPc.draining : TxPc → Bool
  | .recv | .suspended | .received _ | .checking true => false
  | _ => true

/-- Only the one flag is used, the thread is never suspended over it or resumed without it, and
where the thread will not look at the ring again before it receives an event, every byte in the
ring has its event: set, or still owed by a writer. -/
structure VcomTx.Wakeful (s : VcomTx) : Prop extends VcomTx.Parked s where
  flag : s.event.set = 0 ∨ s.event.set = cdcTxHasDate
  clear : s.tx = .suspended → s.event.set = 0
  data : ∀ res, s.tx = .received res → res = cdcTxHasDate
  served : s.tx = .recv ∨ s.tx = .suspended ∨ s.tx = .checking true →
    s.ring.queue = [] ∨ s.event.set = cdcTxHasDate ∨ s.Owed

/-- The thread can be woken at the beginning. -/
theorem wakeful_init : vcomSystem.init.Wakeful where
  event := rfl
  completion := rfl
  unsignalled := fun h => by cases h
  flag := .inl rfl
  clear := fun _ => rfl
  data := fun _ h => by cases h
  served := fun _ => .inl queue_txRingInit

/-- While the thread drains the ring nothing is owed to it. -/
theorem VcomTx.Parked.wakeful {s : VcomTx} (h : s.Parked)
    (hflag : s.event.set = 0 ∨ s.event.set = cdcTxHasDate) (hd : s.tx.draining = true) :
    s.Wakeful := by
  refine ⟨h, hflag, ?_, ?_, ?_⟩
  · intro he
    rw [he] at hd
    cases hd
  · intro res he
    rw [he] at hd
    cases hd
  · rintro (he | he | he)
    · rw [he] at hd; cases hd
    · rw [he] at hd; cases hd
    · rw [he] at hd; cases hd

/-- The invariant is about the ring, the writers, the thread and what it is suspended on. -/
theorem VcomTx.Wakeful.same {s t : VcomTx} (h : s.Wakeful) (hring : t.ring = s.ring)
    (hevent : t.event = s.event) (hcompletion : t.completion = s.completion) (htx : t.tx = s.tx)
    (hwriters : t.writers = s.writers) : t.Wakeful := by
  obtain ⟨⟨he, hc, hu⟩, hflag, hclear, hdata, hserved⟩ := h
  rw [VcomTx.Owed] at hserved
  rw [← hevent, ← htx] at he hclear hserved
  rw [← hcompletion, ← htx] at hc hu
  rw [← hevent] at hflag
  rw [← htx] at hdata
  rw [← hring, ← hwriters] at hserved
  exact ⟨⟨he, hc, hu⟩, hflag, hclear, hdata, hserved⟩

/-- Sending the event serves whatever is in the ring. -/
theorem sendEvent_wakeful {s : VcomTx} (hpark : s.Parked)
    (hflag : s.event.set = 0 ∨ s.event.set = cdcTxHasDate)
    (hclear : s.tx = .suspended → s.event.set = 0)
    (hdata : ∀ res, s.tx = .received res → res = cdcTxHasDate) : (sendEvent s).Wakeful := by
  have hlist := hpark.completion
  rw [sendEvent_eq hpark hflag hclear]
  by_cases hs : s.tx = .suspended
  · rw [if_pos hs]
    rw [if_neg (by rw [hs]; simp only [reduceCtorEq, not_false_eq_true])] at hlist
    refine ⟨⟨rfl, hlist, ?_⟩, .inl rfl, ?_, ?_, ?_⟩
    · intro he; cases he
    · intro he; cases he
    · intro res he; cases he; rfl
    · rintro (he | he | he) <;> cases he
  · rw [if_neg hs]
    refine ⟨⟨(if_neg hs).symm, hlist, hpark.unsignalled⟩, .inr rfl, ?_, hdata, ?_⟩
    · intro he
      exact absurd he hs
    · intro _
      exact .inr (.inl rfl)

/-- The reading of the loop condition notices a change of the ring, and nothing else moves. -/
theorem touch_cases (changed : Bool) (pc : TxPc) :
    pc.touch changed = pc ∨ pc = .checking false ∧ changed = true ∧
      pc.touch changed = .checking true := by
  cases pc with
  | checking touched =>
    cases touched with
    | true => exact .inl rfl
    | false =>
      cases changed with
      | true => exact .inr ⟨rfl, rfl, rfl⟩
      | false => exact .inl rfl
  | _ => exact .inl rfl

/-! ## One step of each party -/

/-- A call begins, and owes nothing yet. -/
theorem wakeful_call {s : VcomTx} (h : s.Wakeful) (w : Nat) (c : DriverCall)
    (hidle : s.writers w = .idle) :
    VcomTx.Wakeful { s with writers := fun v => if v = w then driverEntry c else s.writers v } := by
  refine ⟨⟨h.event, h.completion, h.unsignalled⟩, h.flag, h.clear, h.data, fun htx => ?_⟩
  refine (h.served htx).imp_right (Or.imp_right ?_)
  rintro ⟨v, hv⟩
  refine ⟨v, ?_⟩
  have hne : v ≠ w := by
    intro he
    rw [he, hidle] at hv
    cases hv
  simp only [hne, if_false]
  exact hv

/-- A put does not move the thread, it only may disturb its reading. -/
theorem writerPut_tx (s : VcomTx) (w : Nat) {pc : TxPc} (hpc : ∀ b, pc ≠ .checking b) :
    (writerPut s w).tx = pc ↔ s.tx = pc := by
  rcases touch_cases (decide ((writerStep s.connected s.openFlag s.ring (s.writers w)).ring ≠
    s.ring)) s.tx with hk | ⟨hc, -, hk⟩
  · rw [← hk]
    rfl
  · constructor
    · intro he
      exact absurd (he.symm.trans hk) (hpc true)
    · intro he
      exact absurd (he.symm.trans hc) (hpc false)

theorem writerPut_parked {s : VcomTx} (h : s.Parked) (w : Nat) : (writerPut s w).Parked := by
  refine ⟨?_, ?_, ?_⟩
  · simp only [writerPut_tx s w (fun _ => TxPc.noConfusion : ∀ b, TxPc.suspended ≠ .checking b)]
    exact h.event
  · simp only [writerPut_tx s w (fun _ => TxPc.noConfusion : ∀ b, TxPc.waiting ≠ .checking b)]
    exact h.completion
  · intro he
    exact h.unsignalled ((writerPut_tx s w fun _ => TxPc.noConfusion).mp he)

/-- A thread that stays suspended through a put has no event set. -/
theorem writerPut_clear {s : VcomTx} (h : s.Wakeful) (w : Nat) :
    (writerPut s w).tx = .suspended → (writerPut s w).event.set = 0 :=
  fun he => h.clear ((writerPut_tx s w fun _ => TxPc.noConfusion).mp he)

/-- A writer's step: what it puts it owes, and what it owed it still owes or sends now. -/
theorem wakeful_write {s : VcomTx} (h : s.Wakeful) (w : Nat) : (stepWriter s w).Wakeful := by
  have hpark := writerPut_parked h.toParked w
  have hclear := writerPut_clear h w
  have hdata : ∀ res, (writerPut s w).tx = .received res → res = cdcTxHasDate :=
    fun res he => h.data res ((writerPut_tx s w fun _ => TxPc.noConfusion).mp he)
  obtain ⟨hput, howe⟩ := writerStep_dirty s.connected s.openFlag s.ring (s.writers w)
  rw [stepWriter]
  by_cases hsend : (writerStep s.connected s.openFlag s.ring (s.writers w)).sends = true
  · rw [if_pos hsend]
    exact sendEvent_wakeful hpark h.flag hclear hdata
  · rw [if_neg hsend]
    refine ⟨hpark, h.flag, hclear, hdata, fun hpc => ?_⟩
    by_cases hring : (writerStep s.connected s.openFlag s.ring (s.writers w)).ring = s.ring
    · have hold : (writerPut s w).tx = s.tx := by
        rcases touch_cases (decide ((writerStep s.connected s.openFlag s.ring (s.writers w)).ring ≠
          s.ring)) s.tx with hk | ⟨-, hc, -⟩
        · exact hk
        · exact absurd hring (of_decide_eq_true hc)
      rw [hold] at hpc
      refine (h.served hpc).imp (fun hq => ?_) (Or.imp_right ?_)
      · change (writerStep s.connected s.openFlag s.ring (s.writers w)).ring.queue = []
        rw [hring]
        exact hq
      · rintro ⟨v, hv⟩
        by_cases hvw : v = w
        · subst hvw
          refine ⟨v, ?_⟩
          simp only [writerPut, if_true]
          exact (howe hv).resolve_right hsend
        · exact ⟨v, by simp only [writerPut, hvw, if_false]; exact hv⟩
    · exact .inr (.inr ⟨w, by simp only [writerPut, if_true]; exact hput hring⟩)

/-- `rt_event_recv`: the flag is taken, or the thread is suspended without it. -/
theorem wakeful_recv {s : VcomTx} (h : s.Wakeful) (htx : s.tx = .recv) : (txRecv s).Wakeful := by
  have hevent := h.event
  have hlist := h.completion
  simp only [htx, reduceCtorEq, if_false] at hevent hlist
  have hserved := h.served (.inl htx)
  rcases he : s.event with ⟨set, list⟩
  have hflag := h.flag
  rw [he] at hevent hserved hflag
  simp only at hevent hserved hflag
  rcases hflag with rfl | rfl
  · have hrecv : txRecv s =
        { s with event := { set := 0, suspendThread := [txWaiter] }, tx := .suspended } := by
      rw [txRecv, he, hevent]
      rfl
    rw [hrecv]
    refine ⟨⟨rfl, hlist, ?_⟩, .inl rfl, fun _ => rfl, ?_, fun _ => ?_⟩
    · intro hc; cases hc
    · intro res hc; cases hc
    · exact hserved.imp_right (Or.imp_left fun hc => absurd hc (by decide))
  · have hrecv : txRecv s =
        { s with event := { set := 0, suspendThread := [] }, tx := .received cdcTxHasDate } := by
      rw [txRecv, he, hevent]
      rfl
    rw [hrecv]
    refine ⟨⟨rfl, hlist, ?_⟩, .inl rfl, fun _ => rfl, ?_, ?_⟩
    · intro hc; cases hc
    · intro res hc; cases hc; rfl
    · rintro (hc | hc | hc) <;> cases hc

/-- Behind the calls into the controller the thread is where it was or has been resumed from its
wait. -/
theorem wakeful_perform {s : VcomTx} (h : s.Wakeful) (ops : List UsbOp) :
    (perform s ops).Wakeful := by
  obtain ⟨hpark, htx⟩ := perform_parked ops h.toParked
  obtain ⟨hring, hevent, hwriters, -⟩ := perform_frame ops s
  rcases htx with htx | ⟨-, htx⟩
  · refine ⟨hpark, ?_, ?_, ?_, ?_⟩
    · rw [hevent]; exact h.flag
    · rw [htx, hevent]; exact h.clear
    · rw [htx]; exact h.data
    · rw [htx, hring, hevent, VcomTx.Owed, hwriters]
      exact h.served
  · exact hpark.wakeful (by rw [hevent]; exact h.flag) (by rw [htx]; rfl)

/-- The wait for the completion: the thread goes on at once or suspends. -/
theorem wakeful_wait {s : VcomTx} (h : s.Wakeful) (htx : s.tx = .wait) : (txWait s).Wakeful := by
  have hevent := h.event
  have hlist := h.completion
  rw [htx] at hevent hlist
  simp only [reduceCtorEq, if_false] at hlist
  cases hc : s.completion.flag with
  | true =>
    have hwait : txWait s = { s with
        completion := { s.completion with flag := false }, tx := .after } := by
      simp only [txWait, rtCompletionWait, hc, if_true]
    rw [hwait]
    exact VcomTx.Parked.wakeful ⟨hevent, hlist, fun he => by cases he⟩ h.flag rfl
  | false =>
    have hwait : txWait s = { s with
        completion := { s.completion with suspendedList := [vcomTid] }, tx := .waiting } := by
      simp only [txWait, rtCompletionWait, hc, Bool.false_eq_true, if_false, hlist, List.nil_append]
      rfl
    rw [hwait]
    exact VcomTx.Parked.wakeful ⟨hevent, rfl, fun _ => hc⟩ h.flag rfl

/-- A step of the thread. -/
theorem wakeful_tx {s t : VcomTx} (h : s.Wakeful) (hstep : stepTx s = some t) : t.Wakeful := by
  have hevent := h.event
  have hlist := h.completion
  have hflag := h.flag
  unfold stepTx at hstep
  cases htx : s.tx with
  | recv =>
    rw [htx] at hstep
    cases hstep
    exact wakeful_recv h htx
  | received res =>
    rw [htx] at hstep hevent hlist
    cases hstep
    have hres := h.data res htx
    have hgo : ¬ res &&& cdcTxHasDate = 0 := by rw [hres]; decide
    simp only [hgo, if_false]
    exact VcomTx.Parked.wakeful ⟨hevent, hlist, fun hc => by cases hc⟩ hflag rfl
  | got res =>
    rw [htx] at hstep hevent hlist
    cases hstep
    by_cases hstop : res = 0 ∨ s.connected = false
    · rw [if_pos hstop]
      exact VcomTx.Parked.wakeful ⟨hevent, hlist, fun hc => by cases hc⟩ hflag rfl
    · rw [if_neg hstop]
      exact VcomTx.Parked.wakeful ⟨hevent, hlist, fun hc => by cases hc⟩ hflag rfl
  | submit res =>
    rw [htx] at hstep hevent hlist
    cases hstep
    have hbefore : VcomTx.Wakeful { s with
        epIn := (rtUsbdIoRequest s.epIn).1, tx := .wait, outstanding := true
        overlap := s.overlap || s.outstanding } :=
      VcomTx.Parked.wakeful ⟨hevent, hlist, fun hc => by cases hc⟩ hflag rfl
    exact wakeful_perform hbefore _
  | wait =>
    rw [htx] at hstep
    cases hstep
    exact wakeful_wait h htx
  | initWait res =>
    rw [htx] at hstep hevent
    cases hstep
    exact VcomTx.Parked.wakeful ⟨hevent, rfl, fun hc => by cases hc⟩ hflag rfl
  | check | get | fill | woken | after =>
    rw [htx] at hstep hevent hlist
    cases hstep
    exact VcomTx.Parked.wakeful ⟨hevent, hlist, fun hc => by cases hc⟩ hflag rfl
  | suspended | checking | waiting =>
    rw [htx] at hstep
    cases hstep

/-- The end of the loop condition: without data and undisturbed, the ring is empty. -/
theorem wakeful_checked {s : VcomTx} (h : s.Wakeful) {touched : Bool}
    (htx : s.tx = .checking touched) {n : Nat}
    (hn : touched = true ∨ n = rtRingbufferDataLen s.ring.val) :
    VcomTx.Wakeful { s with tx := if n = 0 then .recv else .get } := by
  have hevent := h.event
  have hlist := h.completion
  rw [htx] at hevent hlist
  by_cases h0 : n = 0
  · simp only [h0, if_true]
    refine ⟨⟨hevent, hlist, ?_⟩, h.flag, ?_, ?_, fun _ => ?_⟩
    · intro hc; cases hc
    · intro hc; cases hc
    · intro res hc; cases hc
    · rcases hn with rfl | hn
      · exact h.served (.inr (.inr htx))
      · left
        change s.ring.queue = []
        rw [← List.length_eq_zero_iff, RingQueue.queue, length_queue s.ring.property.1, ← hn, h0]
  · simp only [h0, if_false]
    exact VcomTx.Parked.wakeful ⟨hevent, hlist, fun hc => by cases hc⟩ h.flag rfl

/-- Every step of every party keeps the invariant. -/
theorem wakeful_step (s : VcomTx) (a : VcomAction) (t : VcomTx) (h : s.Wakeful)
    (hstep : vcomSystem.step s a = some t) : t.Wakeful := by
  cases vcomStep_cases hstep with
  | call hidle => exact wakeful_call h _ _ hidle
  | write => exact wakeful_write h _
  | tx htx => exact wakeful_tx h htx
  | checked htx hn => exact wakeful_checked h htx hn
  | expire htx =>
    have hevent := h.event
    have hlist := h.completion
    rw [htx] at hevent hlist
    simp only [if_true] at hlist
    refine VcomTx.Parked.wakeful ⟨hevent, ?_, fun hc => by cases hc⟩ h.flag rfl
    simp only [rtCompletionTimeout, hlist, List.erase_cons_head, reduceCtorEq, if_false]
  | inComplete => exact h.same rfl rfl rfl rfl rfl
  | notify =>
    unfold stepNotify
    split
    · apply wakeful_perform
      exact h.same rfl rfl rfl rfl rfl
    · apply wakeful_perform
      exact h.same rfl rfl rfl rfl rfl
  | handle =>
    simp only [stepHandle]
    apply wakeful_perform
    exact h.same rfl rfl rfl rfl rfl
  | lineState => exact h.same rfl rfl rfl rfl rfl
  | openFlags => exact h.same rfl rfl rfl rfl rfl

/-- No wake-up of the transmitter is lost: over every interleaving of the writers with the
thread, the usbd thread, the controller, the host and the users of the device, expiring waits
and disconnects included, whenever the thread is suspended on its event the ring is empty or
some writer has put data and not yet sent the event. -/
theorem vcomTx_no_lost_wakeup {s : VcomTx} (h : vcomSystem.Reach Machine.any s)
    (hs : s.tx = .suspended) :
    s.ring.queue = [] ∨ ∃ w, (s.writers w).dirty = true := by
  have hw : s.Wakeful := h.invariant wakeful_init fun s a t hi _ hst => wakeful_step s a t hi hst
  have hclear := hw.clear hs
  refine (hw.served (.inr (.inl hs))).imp_right fun hor => hor.resolve_left ?_
  rw [hclear]
  decide

/-- A writer between its put and its event, with the thread suspended. -/
theorem vcomTx_no_lost_wakeup_owed :
    ∃ s, vcomSystem.Reach Machine.any s ∧ s.tx = .suspended ∧
      (s.ring.queue = [] ∨ ∃ w, (s.writers w).dirty = true) := by
  obtain ⟨s, hreach, hs⟩ :=
    Machine.exists_reach_of_run vcomSystem Machine.any
      [.tx, .lineState true, .call 0 (.putc 0x41), .write 0, .write 0]
      (fun s => s.tx = .suspended) (by decide +kernel)
  exact ⟨s, hreach, hs, vcomTx_no_lost_wakeup hreach hs⟩

end RtVcom.Vcom
