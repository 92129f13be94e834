import RtVcom.Lib.Machine
import RtVcom.Kernel.Device
import RtVcom.Driver.RingBuffer
import RtVcom.Serial.RxFifo
import RtVcom.Usb.Endpoint

/-!
# The receiver of the virtual COM port

A bulk-OUT packet crosses two buffers on its way to a reader. The controller stores it in
`ep_out->buffer`; `_data_notify` calls `_ep_out_handler`, which puts it into `rx_ringbuffer` and
runs `rt_hw_serial_isr`; the loop there moves it byte by byte, `_vcom_getc` from the ring and a
store into the serial receive FIFO; the handler then arms the endpoint again. `rt_serial_read`
takes bytes out of the FIFO, one critical section each, at any time in between.

The machine has one step for each critical section. A packet arrives only while the endpoint is
armed. The fields from `received` on are not in the program: the bytes the host has sent, what
became of those that left the FIFO, the bytes the readers got, the packets and the requests the
endpoint was armed with.

The law `vcomRx_stream` is a conservation of bytes: what the host has sent is what left the FIFO,
what is unread in it and what is under way, in this order; what left the FIFO was read, or was
discarded as the oldest of more than 127 unread bytes.
-/

namespace RtVcom.Vcom

open RtVcom.Lib RtVcom.Kernel RtVcom.Driver RtVcom.Serial RtVcom.Usb

/-! ## The parties -/

/-- `CDC_RX_BUFSIZE`: the size of the ring, of the FIFO and of the endpoint's buffer. -/
def cdcRxBufsize : Nat := 128

/-- The maximum packet size of the bulk-OUT endpoint, `USB_CDC_BUFSIZE`. -/
def epOutMaxPacket : Nat := 0x40

/-- Where the usbd thread is with a packet: waiting for a message, at the handler with the size
of the packet, at `_vcom_getc`, at the store of a character, behind the interrupt routine. -/
inductive RxPc
  | idle
  | handler (size : Nat)
  | getc
  | store (ch : UInt8)
  | rearm
deriving Repr, DecidableEq

/-- What became of a byte that left the FIFO: it was read, or discarded with so many unread. -/
inductive Fate
  | read
  | discarded (unread : Nat)
deriving Repr, DecidableEq

/-- The state of the receive side. -/
structure VcomRx where
  flag : BitVec 16
  openFlag : BitVec 16
  epOut : Uep
  buffer : List UInt8
  ring : RingQueue cdcRxBufsize
  fifo : RxQueue cdcRxBufsize
  usbd : RxPc
  /-- The request the controller is armed with, and the OUT message not yet handled. -/
  armed : Option (Option Nat × Nat)
  message : Option Nat
  received : List UInt8
  fates : List (UInt8 × Fate)
  reads : List UInt8
  packets : Nat
  arms : List (Option Nat × Nat)

/-- The steps of the parties. -/
inductive RxAction
  | packet (bytes : List UInt8)
  | notify
  | handle
  | getc
  | store
  | rearm
  | read
deriving Repr, DecidableEq

/-! ## Steps -/

/-- A packet arrives: the controller stores it at the address it was given. -/
def rxPacket (s : VcomRx) (bytes : List UInt8) : VcomRx :=
  { s with
    buffer := blit s.buffer 0 bytes
    armed := none
    message := some bytes.length
    received := s.received ++ bytes
    packets := s.packets + 1 }

/-- `dcd_ep_read_prepare` arms the controller. -/
def prepare (s : VcomRx) : List UsbOp → VcomRx
  | [] => s
  | .epReadPrepare buffer size :: ops =>
    prepare { s with armed := some (buffer, size), arms := s.arms ++ [(buffer, size)] } ops
  | _ :: ops => prepare s ops

/-- `_data_notify` of the OUT message; `dcd_ep_read` of this controller answers 0. -/
def rxNotify (s : VcomRx) (size : Nat) : VcomRx :=
  match dataNotify .configured s.epOut size 0 with
  | (epOut, ops, none) => prepare { s with epOut, message := none } ops
  | (epOut, ops, some n) => prepare { s with epOut, message := none, usbd := .handler n } ops

/-- `_ep_out_handler` up to `rt_hw_serial_isr`, which is entered only when the device is
active and open. -/
def rxHandle (s : VcomRx) (size : Nat) : VcomRx :=
  if hasFlag s.flag rtDeviceFlagActivated && hasFlag s.openFlag rtDeviceOflagOpen then
    { s with ring := s.ring.put (s.buffer.take size), usbd := .getc }
  else { s with usbd := .rearm }

/-- `_vcom_getc` in the loop of `rt_hw_serial_isr`: the loop ends when the ring is empty. -/
def rxGetc (s : VcomRx) : VcomRx :=
  match s.ring.getchar with
  | some (ch, ring) => { s with ring, usbd := .store ch }
  | none => { s with usbd := .rearm }

/-- The store of `rt_hw_serial_isr`. The bytes it discards are the oldest ones. -/
def rxStore (s : VcomRx) (ch : UInt8) : VcomRx :=
  let unread := s.fifo.unread ++ [ch]
  { s with
    fifo := s.fifo.put ch
    usbd := .getc
    fates := s.fates ++ (unread.take (unread.length - (cdcRxBufsize - 1))).map
      fun b => (b, .discarded unread.length) }

/-- The end of `_ep_out_handler`: the request for the next packet. -/
def rxRearm (s : VcomRx) : VcomRx :=
  let (epOut, ops) := rtUsbdIoRequest { s.epOut with request :=
    { s.epOut.request with buffer := some 0, size := s.epOut.maxPacket, reqType := .readBest } }
  prepare { s with epOut, usbd := .idle } ops

/-- One pass of the loop of `rt_serial_read`: a byte, or the end of the call. -/
def rxRead (s : VcomRx) : VcomRx :=
  match s.fifo.get with
  | some (ch, fifo) => { s with
      fifo
      fates := s.fates ++ [(ch, .read)]
      reads := s.reads ++ [ch] }
  | none => s

/-- One step of one party. A packet is at most as long as the request. -/
def rxStep (s : VcomRx) : RxAction → Option VcomRx
  | .packet bytes =>
    match s.armed with
    | some (_, size) => if bytes.length ≤ size then some (rxPacket s bytes) else none
    | none => none
  | .notify =>
    match s.usbd, s.message with
    | .idle, some size => some (rxNotify s size)
    | _, _ => none
  | .handle =>
    match s.usbd with
    | .handler size => some (rxHandle s size)
    | _ => none
  | .getc => if s.usbd = .getc then some (rxGetc s) else none
  | .store =>
    match s.usbd with
    | .store ch => some (rxStore s ch)
    | _ => none
  | .rearm => if s.usbd = .rearm then some (rxRearm s) else none
  | .read => some (rxRead s)

/-- The receive side when `_function_enable` has armed the endpoint, with the device open for
`RT_DEVICE_FLAG_INT_RX`. -/
def rxSystem : Machine VcomRx RxAction where
  init :=
    { flag := rtDeviceFlagRdwr ||| rtDeviceFlagIntRx ||| rtDeviceFlagActivated
      openFlag := rtDeviceOflagOpen ||| rtDeviceFlagRdwr ||| rtDeviceFlagIntRx
      epOut :=
        { dirIn := false, maxPacket := epOutMaxPacket, stalled := false, requestList := []
          request :=
            { reqType := .readBest, buffer := some 0
              size := epOutMaxPacket, remainSize := epOutMaxPacket } }
      buffer := List.replicate cdcRxBufsize 0
      ring := .empty cdcRxBufsize (by decide) (by decide)
      fifo := .empty cdcRxBufsize (by decide)
      usbd := .idle
      armed := some (some 0, epOutMaxPacket)
      message := none
      received := []
      fates := []
      reads := []
      packets := 0
      arms := [(some 0, epOutMaxPacket)] }
  step := rxStep

/-! ## The invariant -/

/-- The bytes of the last packet that are not yet in the FIFO. -/
def VcomRx.underWay (s : VcomRx) : List UInt8 :=
  match s.usbd, s.message with
  | .idle, some size => s.buffer.take size
  | .handler size, _ => s.buffer.take size
  | .getc, _ => s.ring.queue
  | .store ch, _ => ch :: s.ring.queue
  | _, _ => []

/-- Where the endpoint and a packet are: armed with a whole packet, with a message to come, or
in the hands of the handler. -/
inductive VcomRx.Phase (s : VcomRx) : Prop
  | armed (hu : s.usbd = .idle) (hm : s.message = none)
      (ha : s.armed = some (some 0, epOutMaxPacket))
      (hr : s.epOut.request.remainSize = epOutMaxPacket) (hq : s.ring.queue = [])
      (hn : s.arms.length = s.packets + 1)
  | message (size : Nat) (hu : s.usbd = .idle) (hm : s.message = some size) (ha : s.armed = none)
      (hs : size ≤ epOutMaxPacket) (hr : s.epOut.request.remainSize = epOutMaxPacket)
      (hq : s.ring.queue = []) (hn : s.arms.length = s.packets)
  | handler (size : Nat) (hu : s.usbd = .handler size) (hm : s.message = none)
      (ha : s.armed = none) (hs : size ≤ epOutMaxPacket) (hq : s.ring.queue = [])
      (hn : s.arms.length = s.packets)
  | moving (hu : s.usbd = .getc ∨ ∃ ch, s.usbd = .store ch) (hm : s.message = none)
      (ha : s.armed = none) (hn : s.arms.length = s.packets)
  | rearm (hu : s.usbd = .rearm) (hm : s.message = none) (ha : s.armed = none)
      (hq : s.ring.queue = []) (hn : s.arms.length = s.packets)

/-- Whether a byte was read. -/
def Fate.isRead : Fate → Bool
  | .read => true
  | .discarded _ => false

/-- The device is open and the endpoint as it was set up, and every byte is accounted for. -/
structure VcomRx.Conserved (s : VcomRx) : Prop where
  active : hasFlag s.flag rtDeviceFlagActivated = true
  isOpen : hasFlag s.openFlag rtDeviceOflagOpen = true
  endpoint : s.epOut.dirIn = false ∧ s.epOut.maxPacket = epOutMaxPacket ∧
    s.epOut.stalled = false ∧ s.epOut.request.reqType = .readBest
  buffer : s.buffer.length = cdcRxBufsize
  phase : s.Phase
  arms : ∀ a ∈ s.arms, a = (some 0, epOutMaxPacket)
  bytes : s.received = s.fates.map Prod.fst ++ s.fifo.unread ++ s.underWay
  reads : s.reads = (s.fates.filter fun f => f.2.isRead).map Prod.fst
  discards : ∀ f ∈ s.fates, f.2 = .read ∨ ∃ n, f.2 = .discarded n ∧ cdcRxBufsize - 1 < n

/-- Nothing has been received at the beginning. -/
theorem conserved_init : rxSystem.init.Conserved where
  active := by decide
  isOpen := by decide
  endpoint := ⟨rfl, rfl, rfl, rfl⟩
  buffer := List.length_replicate
  phase := .armed rfl rfl rfl rfl (RingQueue.queue_empty (by decide) (by decide)) rfl
  arms := fun a ha => List.mem_singleton.mp ha
  bytes := by
    have hempty : rxSystem.init.fifo.unread = [] := RxQueue.unread_empty (by decide)
    rw [hempty]
    rfl
  reads := rfl
  discards := fun _ hf => absurd hf List.not_mem_nil

/-! ## Steps of the controller and the usbd thread -/

/-- A packet of at most the size asked for keeps the bytes. -/
theorem conserved_packet {s : VcomRx} (h : s.Conserved) {bytes : List UInt8}
    {request : Option Nat × Nat} (ha : s.armed = some request) (hle : bytes.length ≤ request.2) :
    (rxPacket s bytes).Conserved := by
  have hphase := h.phase
  have hbytes := h.bytes
  have hlen := h.buffer
  cases hphase with
  | message _ _ _ hnone => rw [hnone] at ha; cases ha
  | handler _ _ _ hnone => rw [hnone] at ha; cases ha
  | moving _ _ hnone => rw [hnone] at ha; cases ha
  | rearm _ _ hnone => rw [hnone] at ha; cases ha
  | armed hu hm harm hr hq hn =>
    rw [harm] at ha
    cases ha
    have hfit : 0 + bytes.length ≤ s.buffer.length := by
      rw [hlen]
      simp only [epOutMaxPacket, cdcRxBufsize] at hle ⊢
      omega
    refine ⟨h.active, h.isOpen, h.endpoint, (length_blit hfit).trans hlen,
      .message bytes.length hu rfl rfl hle hr hq hn, h.arms, ?_, h.reads, h.discards⟩
    have hstored : (blit s.buffer 0 bytes).take bytes.length = bytes := by
      simp only [blit, List.take_zero, List.nil_append, List.take_left]
    have hbefore : s.underWay = [] := by
      unfold VcomRx.underWay
      rw [hu, hm]
    have hafter : (rxPacket s bytes).underWay = bytes := by
      unfold VcomRx.underWay
      simp only [rxPacket, hu, hstored]
    rw [hafter]
    rw [hbefore, List.append_nil] at hbytes
    simp only [rxPacket, hbytes]

theorem conserved_notify {s : VcomRx} (h : s.Conserved) {size : Nat} (hu : s.usbd = .idle)
    (hm : s.message = some size) : (rxNotify s size).Conserved := by
  obtain ⟨hdir, hmax, hst, htype⟩ := h.endpoint
  have hbytes := h.bytes
  cases h.phase with
  | armed _ hnone => rw [hnone] at hm; cases hm
  | handler _ hu' => rw [hu'] at hu; cases hu
  | rearm hu' => rw [hu'] at hu; cases hu
  | moving hu' =>
    rw [hu] at hu'
    rcases hu' with he | ⟨ch, he⟩ <;> cases he
  | message n _ hm' ha hs hr hq hn =>
    rw [hm'] at hm
    cases hm
    have hwhole : (if size = 0 then 0 else size) = size := by split <;> omega
    have hpos : ¬ s.epOut.request.remainSize = 0 := by rw [hr]; decide
    have hnotify : dataNotify .configured s.epOut size 0 = ({ s.epOut with request :=
        { s.epOut.request with
          remainSize := rtSizeSub s.epOut.request.remainSize size
          buffer := s.epOut.request.buffer.map (· + size) } }, [], some size) := by
      simp only [dataNotify, hdir, hpos, hwhole, htype, ne_eq, not_true_eq_false, if_false,
        Bool.false_eq_true, if_true]
    simp only [rxNotify, hnotify, prepare]
    refine ⟨h.active, h.isOpen, ⟨hdir, hmax, hst, htype⟩, h.buffer,
      .handler size rfl rfl ha hs hq hn, h.arms, ?_, h.reads, h.discards⟩
    unfold VcomRx.underWay at hbytes
    rw [hu, hm'] at hbytes
    exact hbytes

theorem conserved_handle {s : VcomRx} (h : s.Conserved) {size : Nat} (hu : s.usbd = .handler size) :
    (rxHandle s size).Conserved := by
  have hbytes := h.bytes
  unfold VcomRx.underWay at hbytes
  simp only [hu] at hbytes
  cases h.phase with
  | armed hu' => rw [hu'] at hu; cases hu
  | message _ hu' => rw [hu'] at hu; cases hu
  | rearm hu' => rw [hu'] at hu; cases hu
  | moving hu' =>
    rw [hu] at hu'
    rcases hu' with he | ⟨ch, he⟩ <;> cases he
  | handler n hu' hm ha hs hq hn =>
    rw [hu'] at hu
    cases hu
    have hstep : rxHandle s size =
        { s with ring := s.ring.put (s.buffer.take size), usbd := .getc } := by
      simp only [rxHandle, h.active, h.isOpen, Bool.and_self, if_true]
    -- the ring is empty, so that the packet fits as a whole
    have hput : (s.ring.put (s.buffer.take size)).queue = s.buffer.take size := by
      rw [RingQueue.queue_put, hq, List.nil_append, List.take_of_length_le]
      rw [List.length_take]
      simp only [epOutMaxPacket] at hs
      simp only [List.length_nil, cdcRxBufsize]
      omega
    rw [hstep]
    refine ⟨h.active, h.isOpen, h.endpoint, h.buffer, .moving (.inl rfl) hm ha hn, h.arms, ?_,
      h.reads, h.discards⟩
    unfold VcomRx.underWay
    simp only [hput]
    exact hbytes

/-- The thread is in the loop of the interrupt routine. -/
theorem VcomRx.Conserved.moving {s : VcomRx} (h : s.Conserved)
    (hu : s.usbd = .getc ∨ ∃ ch, s.usbd = .store ch) :
    s.message = none ∧ s.armed = none ∧ s.arms.length = s.packets := by
  cases h.phase with
  | moving _ hm ha hn => exact ⟨hm, ha, hn⟩
  | armed hu' => rw [hu'] at hu; rcases hu with he | ⟨_, he⟩ <;> cases he
  | message _ hu' => rw [hu'] at hu; rcases hu with he | ⟨_, he⟩ <;> cases he
  | handler _ hu' => rw [hu'] at hu; rcases hu with he | ⟨_, he⟩ <;> cases he
  | rearm hu' => rw [hu'] at hu; rcases hu with he | ⟨_, he⟩ <;> cases he

/-- A character that goes into the FIFO is kept. -/
theorem conserved_getc {s : VcomRx} (h : s.Conserved) (hu : s.usbd = .getc) :
    (rxGetc s).Conserved := by
  obtain ⟨hm, ha, hn⟩ := h.moving (.inl hu)
  have hbytes := h.bytes
  unfold VcomRx.underWay at hbytes
  simp only [hu] at hbytes
  unfold rxGetc
  split
  · next ch ring hget =>
    refine ⟨h.active, h.isOpen, h.endpoint, h.buffer, .moving (.inr ⟨ch, rfl⟩) hm ha hn, h.arms, ?_,
      h.reads, h.discards⟩
    rw [RingQueue.getchar_eq_some hget] at hbytes
    exact hbytes
  · next hget =>
    have hempty := (RingQueue.getchar_eq_none s.ring).mp hget
    refine ⟨h.active, h.isOpen, h.endpoint, h.buffer, .rearm rfl hm ha hempty hn, h.arms, ?_,
      h.reads, h.discards⟩
    rw [hempty] at hbytes
    exact hbytes

/-- The store: what it discards are the oldest bytes, and there were more than 127. -/
theorem conserved_store {s : VcomRx} (h : s.Conserved) {ch : UInt8} (hu : s.usbd = .store ch) :
    (rxStore s ch).Conserved := by
  obtain ⟨hm, ha, hn⟩ := h.moving (.inr ⟨ch, hu⟩)
  have hbytes := h.bytes
  unfold VcomRx.underWay at hbytes
  simp only [hu] at hbytes
  have hkept : (s.fifo.put ch).unread = (s.fifo.unread ++ [ch]).drop
      ((s.fifo.unread ++ [ch]).length - (cdcRxBufsize - 1)) := RxQueue.unread_put s.fifo ch
  refine ⟨h.active, h.isOpen, h.endpoint, h.buffer, .moving (.inl rfl) hm ha hn, h.arms, ?_, ?_, ?_⟩
  · have hfst : ((s.fifo.unread ++ [ch]).take ((s.fifo.unread ++ [ch]).length -
        (cdcRxBufsize - 1))).map (Prod.fst ∘ fun b => (b, Fate.discarded
          (s.fifo.unread ++ [ch]).length)) = (s.fifo.unread ++ [ch]).take
            ((s.fifo.unread ++ [ch]).length - (cdcRxBufsize - 1)) := List.map_id _
    unfold VcomRx.underWay
    simp only [rxStore, List.map_append, List.map_map, hfst, hkept]
    rw [List.append_assoc (s.fates.map Prod.fst), List.take_append_drop, hbytes]
    simp only [List.append_assoc, List.singleton_append]
  · have hnone : (((s.fifo.unread ++ [ch]).take ((s.fifo.unread ++ [ch]).length -
        (cdcRxBufsize - 1))).map fun b => (b, Fate.discarded
          (s.fifo.unread ++ [ch]).length)).filter (fun f => f.2.isRead) = [] := by
      rw [List.filter_eq_nil_iff]
      intro f hf
      obtain ⟨b, -, rfl⟩ := List.mem_map.mp hf
      exact Bool.false_ne_true
    simp only [rxStore, List.filter_append, hnone, List.append_nil]
    exact h.reads
  · intro f hf
    simp only [rxStore] at hf
    rcases List.mem_append.mp hf with hf | hf
    · exact h.discards f hf
    · obtain ⟨b, hb, rfl⟩ := List.mem_map.mp hf
      refine .inr ⟨_, rfl, ?_⟩
      have hpos := List.length_pos_of_mem hb
      rw [List.length_take] at hpos
      omega

theorem conserved_rearm {s : VcomRx} (h : s.Conserved) (hu : s.usbd = .rearm) :
    (rxRearm s).Conserved := by
  obtain ⟨hdir, hmax, hst, htype⟩ := h.endpoint
  have hbytes := h.bytes
  unfold VcomRx.underWay at hbytes
  simp only [hu] at hbytes
  cases h.phase with
  | armed hu' => rw [hu'] at hu; cases hu
  | message _ hu' => rw [hu'] at hu; cases hu
  | handler _ hu' => rw [hu'] at hu; cases hu
  | moving hu' =>
    rw [hu] at hu'
    rcases hu' with he | ⟨ch, he⟩ <;> cases he
  | rearm _ hm ha hq hn =>
    have hreq : rtUsbdIoRequest { s.epOut with request :=
        { s.epOut.request with
          buffer := some 0, size := s.epOut.maxPacket, reqType := .readBest } } =
        ({ s.epOut with request :=
          { reqType := .readBest, buffer := some 0, size := epOutMaxPacket
            remainSize := epOutMaxPacket } }, [.epReadPrepare (some 0) epOutMaxPacket]) := by
      simp only [rtUsbdIoRequest, hst, Bool.false_eq_true, if_false, rtUsbdEpReadPrepare, hmax,
        Nat.lt_irrefl]
    simp only [rxRearm, hreq, prepare]
    refine ⟨h.active, h.isOpen, ⟨hdir, hmax, hst, rfl⟩, h.buffer, .armed rfl hm rfl rfl hq ?_, ?_,
      ?_, h.reads, h.discards⟩
    · simp only [List.length_append, List.length_singleton, hn]
    · intro a hmem
      rcases List.mem_append.mp hmem with hmem | hmem
      · exact h.arms a hmem
      · exact List.mem_singleton.mp hmem
    · unfold VcomRx.underWay
      simp only [hm]
      exact hbytes

/-! ## Steps of the readers -/

/-- A read takes nothing but what is in the FIFO. -/
theorem conserved_read {s : VcomRx} (h : s.Conserved) : (rxRead s).Conserved := by
  have hbytes := h.bytes
  unfold rxRead
  split
  · next ch fifo hget =>
    have hphase : VcomRx.Phase { s with
        fifo, fates := s.fates ++ [(ch, .read)], reads := s.reads ++ [ch] } := by
      cases h.phase with
      | armed hu hm ha hr hq hn => exact .armed hu hm ha hr hq hn
      | message size hu hm ha hs hr hq hn => exact .message size hu hm ha hs hr hq hn
      | handler size hu hm ha hs hq hn => exact .handler size hu hm ha hs hq hn
      | moving hu hm ha hn => exact .moving hu hm ha hn
      | rearm hu hm ha hq hn => exact .rearm hu hm ha hq hn
    refine ⟨h.active, h.isOpen, h.endpoint, h.buffer, hphase, h.arms, ?_, ?_, ?_⟩
    · rw [RxQueue.get_eq_some hget] at hbytes
      simp only [List.map_append, List.map_cons, List.map_nil, List.append_assoc,
        List.cons_append] at hbytes ⊢
      exact hbytes
    · simp only [List.filter_append, List.map_append, h.reads]
      rfl
    · intro f hf
      rcases List.mem_append.mp hf with hf | hf
      · exact h.discards f hf
      · rw [List.mem_singleton.mp hf]
        exact .inl rfl
  · exact h

/-- Every step of every party keeps the account. -/
theorem conserved_step (s : VcomRx) (a : RxAction) (t : VcomRx) (h : s.Conserved)
    (hstep : rxSystem.step s a = some t) : t.Conserved := by
  change rxStep s a = some t at hstep
  cases a with
  | packet bytes =>
    simp only [rxStep] at hstep
    split at hstep
    · next ha =>
      rw [Option.ite_none_right_eq_some, Option.some.injEq] at hstep
      obtain ⟨hle, rfl⟩ := hstep
      exact conserved_packet h ha hle
    · cases hstep
  | notify =>
    simp only [rxStep] at hstep
    split at hstep
    · next hu hm =>
      cases hstep
      exact conserved_notify h hu hm
    · cases hstep
  | handle =>
    simp only [rxStep] at hstep
    split at hstep
    · next hu =>
      cases hstep
      exact conserved_handle h hu
    · cases hstep
  | getc =>
    simp only [rxStep, Option.ite_none_right_eq_some, Option.some.injEq] at hstep
    obtain ⟨hu, rfl⟩ := hstep
    exact conserved_getc h hu
  | store =>
    simp only [rxStep] at hstep
    split at hstep
    · next hu =>
      cases hstep
      exact conserved_store h hu
    · cases hstep
  | rearm =>
    simp only [rxStep, Option.ite_none_right_eq_some, Option.some.injEq] at hstep
    obtain ⟨hu, rfl⟩ := hstep
    exact conserved_rearm h hu
  | read =>
    cases hstep
    exact conserved_read h

/-- The receive stream, over every sequence of packets and every interleaving of reads. The bytes
the host has sent are those that left the FIFO, those unread in it and those under way, in
order; the bytes the readers got are those of the first that were not discarded, in order, and
every discarded byte was the oldest of more than 127. Between packets the endpoint is armed,
once for each packet and always with a whole packet of 64 bytes, and nothing is under way. -/
theorem vcomRx_stream {s : VcomRx} (h : rxSystem.Reach Machine.any s) :
    s.received = s.fates.map Prod.fst ++ s.fifo.unread ++ s.underWay ∧
      s.reads = (s.fates.filter fun f => f.2.isRead).map Prod.fst ∧
      (∀ f ∈ s.fates, f.2 = .read ∨ ∃ n, f.2 = .discarded n ∧ 127 < n) ∧
      (∀ a ∈ s.arms, a = (some 0, 64)) ∧
      (s.usbd = .idle → s.message = none →
        s.underWay = [] ∧ s.armed = some (some 0, 64) ∧ s.arms.length = s.packets + 1) := by
  have hc : s.Conserved :=
    h.invariant conserved_init fun s a t hi _ hst => conserved_step s a t hi hst
  refine ⟨hc.bytes, hc.reads, hc.discards, hc.arms, fun hu hm => ?_⟩
  cases hc.phase with
  | armed _ _ ha _ _ hn =>
    refine ⟨?_, ha, hn⟩
    unfold VcomRx.underWay
    rw [hu, hm]
  | message _ _ hm' => rw [hm'] at hm; cases hm
  | handler _ hu' => rw [hu'] at hu; cases hu
  | rearm hu' => rw [hu'] at hu; cases hu
  | moving hu' =>
    rw [hu] at hu'
    rcases hu' with he | ⟨ch, he⟩ <;> cases he

/-- A packet of two bytes of which one is read. -/
theorem vcomRx_stream_two_bytes :
    ∃ s, rxSystem.Reach Machine.any s ∧ s.reads = [0x41] ∧
      s.received = s.fates.map Prod.fst ++ s.fifo.unread ++ s.underWay := by
  obtain ⟨s, hreach, hreads⟩ :=
    Machine.exists_reach_of_run rxSystem Machine.any
      [.packet [0x41, 0x42], .notify, .handle, .getc, .store, .read, .getc, .store, .getc, .rearm]
      (fun s => s.reads = [0x41]) (by decide +kernel)
  exact ⟨s, hreach, hreads, (vcomRx_stream hreach).1⟩

end RtVcom.Vcom
