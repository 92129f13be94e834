/-!
# Endpoints of the USB device core

The part of `usbdevice/core/core.c` that moves a request through an endpoint, and the bulk-IN
handler of `class/cdc_vcom.c` that ends it. A write request is cut into packets by three
functions that share the fields of `ep->request`: `rt_usbd_io_request` hands the first packet
to the controller, `_data_notify` hands out one more for every IN-complete message while
something remains, and the handler then either requests a zero-length packet or completes the
transfer.

What a function asks of the world is a list of `UsbOp` in the order of the calls. A buffer is
an address into a byte memory, `none` for `RT_NULL`, and the packet of a write is the memory
there (`UsbOp.packet`). Every caller passes `&ep->request` as the request, so that `req` and
`ep->request` are one object.

`InTransfer` drives an endpoint with one IN-complete message for each write. The law of the
module is `vcom_in_transfer_packets`: the transfer ends, and it has put the buffer on the wire.
-/

namespace RtVcom.Usb

/-! ## Endpoints and requests -/

/-- `UIO_REQUEST_TYPE`. -/
inductive UioRequestType
  | readFull
  | readBest
  | write
deriving Repr, DecidableEq

/-- `struct uio_request`. -/
structure UioRequest where
  reqType : UioRequestType
  buffer : Option Nat
  size : Nat
  remainSize : Nat
deriving Repr, DecidableEq

/-- `struct uendpoint`: the direction and the maximum packet size of its descriptor, the
current request, and the requests put off while it is stalled. -/
structure Uep where
  dirIn : Bool
  maxPacket : Nat
  request : UioRequest
  stalled : Bool
  requestList : List UioRequest
deriving Repr, DecidableEq

/-- `udevice_state_t`. -/
inductive UdeviceState
  | notAttached
  | attached
  | powered
  | reconnecting
  | unauthenticated
  | default
  | address
  | configured
  | suspended
deriving Repr, DecidableEq

/-- The calls into the controller driver, and the completion of the transfer. -/
inductive UsbOp
  | epWrite (buffer : Option Nat) (size : Nat)
  | epReadPrepare (buffer : Option Nat) (size : Nat)
  | completionDone
deriving Repr, DecidableEq

/-- Subtraction of `rt_size_t`, 32 bits wide. -/
def rtSizeSub (a b : Nat) : Nat := (a + 0x100000000 - b) % 0x100000000

/-- `rt_usbd_ep_write`. -/
def rtUsbdEpWrite (ep : Uep) : Uep × List UsbOp :=
  let req := ep.request
  if ep.maxPacket ≤ req.remainSize then
    ({ ep with request := { req with
        remainSize := req.remainSize - ep.maxPacket
        buffer := req.buffer.map (· + ep.maxPacket) } },
      [.epWrite req.buffer ep.maxPacket])
  else
    ({ ep with request := { req with remainSize := 0 } }, [.epWrite req.buffer req.remainSize])

/-- `rt_usbd_ep_read_prepare`. -/
def rtUsbdEpReadPrepare (ep : Uep) (buffer : Option Nat) (size : Nat) : List UsbOp :=
  [.epReadPrepare buffer (if ep.maxPacket < size then ep.maxPacket else size)]

/-- `rt_usbd_io_request` of the endpoint's own request. -/
def rtUsbdIoRequest (ep : Uep) : Uep × List UsbOp :=
  if ep.stalled then ({ ep with requestList := ep.requestList ++ [ep.request] }, [])
  else
    let ep := { ep with request := { ep.request with remainSize := ep.request.size } }
    match ep.request.reqType with
    | .readBest | .readFull => (ep, rtUsbdEpReadPrepare ep ep.request.buffer ep.request.size)
    | .write => rtUsbdEpWrite ep

/-- `_data_notify` of a message for this endpoint: what it asks for, and the size it calls
the endpoint's handler with, if it does. `epRead` is what `dcd_ep_read` answers. -/
def dataNotify (state : UdeviceState) (ep : Uep) (msgSize epRead : Nat) :
    Uep × List UsbOp × Option Nat :=
  let req := ep.request
  if state ≠ .configured then (ep, [], none)
  else if ep.dirIn then
    if ep.maxPacket ≤ req.remainSize then
      ({ ep with request := { req with
          remainSize := req.remainSize - ep.maxPacket
          buffer := req.buffer.map (· + ep.maxPacket) } },
        [.epWrite req.buffer ep.maxPacket], none)
    else if 0 < req.remainSize then
      ({ ep with request := { req with remainSize := 0 } },
        [.epWrite req.buffer req.remainSize], none)
    else (ep, [], some msgSize)
  else if req.remainSize = 0 then (ep, [], none)
  else
    let size := if msgSize = 0 then epRead else msgSize
    let req := { req with
      remainSize := rtSizeSub req.remainSize size
      buffer := req.buffer.map (· + size) }
    let ep := { ep with request := req }
    if req.reqType = .readBest then (ep, [], some size)
    else if req.remainSize = 0 then (ep, [], some req.size)
    else
      (ep, [.epReadPrepare req.buffer
        (if ep.maxPacket < req.remainSize then ep.maxPacket else req.remainSize)], none)

/-- `_ep_in_handler`: a request that is a multiple of the packet size is ended by a
zero-length packet, every other one is complete. -/
def epInHandler (ep : Uep) : Uep × List UsbOp :=
  if ep.request.size ≠ 0 ∧ ep.request.size % ep.maxPacket = 0 then
    rtUsbdIoRequest { ep with request :=
      { ep.request with buffer := none, size := 0, reqType := .write } }
  else (ep, [.completionDone])

/-- An IN-complete message for `ep_in`, with the handler it may call. -/
def vcomInNotify (state : UdeviceState) (ep : Uep) (msgSize : Nat) : Uep × List UsbOp :=
  match dataNotify state ep msgSize 0 with
  | (ep, ops, none) => (ep, ops)
  | (ep, ops, some _) => ((epInHandler ep).1, ops ++ (epInHandler ep).2)

/-! ## A transfer on the bulk-IN endpoint -/

/-- Whether a call hands a packet to the controller. -/
def UsbOp.isWrite : UsbOp → Bool
  | .epWrite _ _ => true
  | _ => false

/-- The memory of a buffer. -/
def region (mem : List UInt8) (buffer : Option Nat) (size : Nat) : List UInt8 :=
  match buffer with
  | some a => (mem.drop a).take size
  | none => []

/-- The packet that a call hands to the controller, if it does. -/
def UsbOp.packet (mem : List UInt8) : UsbOp → Option (List UInt8)
  | .epWrite buffer size => some (region mem buffer size)
  | _ => none

/-- An endpoint that is being driven: the packets whose IN-complete message is still to come,
and everything asked for so far. -/
structure InTransfer where
  ep : Uep
  pending : Nat
  ops : List UsbOp

/-- `rt_usbd_io_request` on `ep_in`. -/
def inTransferStart (ep : Uep) : InTransfer :=
  let (ep, ops) := rtUsbdIoRequest ep
  { ep, pending := ops.countP UsbOp.isWrite, ops }

/-- One IN-complete message, of any size. -/
def InTransfer.notify (t : InTransfer) (msgSize : Nat) : InTransfer :=
  let (ep, ops) := vcomInNotify .configured t.ep msgSize
  { ep, pending := t.pending - 1 + ops.countP UsbOp.isWrite, ops := t.ops ++ ops }

/-- The messages in order, as long as a packet is pending. -/
def InTransfer.drive : InTransfer → List Nat → InTransfer
  | t, [] => t
  | t, msgSize :: sizes => if t.pending = 0 then t else (t.notify msgSize).drive sizes

/-! ## Packets -/

/-- A byte string cut into packets of `m` bytes, the last one possibly shorter. -/
def packets (m : Nat) (l : List UInt8) : List (List UInt8) :=
  if _h : 0 < m ∧ l ≠ [] then l.take m :: packets m (l.drop m) else []
termination_by l.length
decreasing_by
  have := List.length_pos_iff.mpr _h.2
  simp only [List.length_drop]
  omega

@[simp] theorem packets_nil (m : Nat) : packets m [] = [] := by
  rw [packets, dif_neg (by simp only [ne_eq, not_true_eq_false, and_false, not_false_eq_true])]

theorem packets_of_ne_nil {m : Nat} (hm : 0 < m) {l : List UInt8} (hl : l ≠ []) :
    packets m l = l.take m :: packets m (l.drop m) := by
  rw [packets, dif_pos ⟨hm, hl⟩]

/-- A string that fits one packet. -/
theorem packets_of_length_le {m : Nat} (hm : 0 < m) {l : List UInt8} (hl : l ≠ [])
    (h : l.length ≤ m) : packets m l = [l] := by
  rw [packets_of_ne_nil hm hl, List.take_of_length_le h, List.drop_eq_nil_of_le h, packets_nil]

/-- Packets by induction: nothing is left, or one packet and the rest. -/
theorem packets_induction {m : Nat} (hm : 0 < m) {P : List UInt8 → Prop} (hnil : P [])
    (hcons : ∀ l, l ≠ [] → P (l.drop m) → P l) (l : List UInt8) : P l := by
  induction hn : l.length using Nat.strongRecOn generalizing l with
  | ind n ih =>
    by_cases hl : l = []
    · rw [hl]
      exact hnil
    · refine hcons l hl (ih (l.drop m).length ?_ _ rfl)
      have hpos := List.length_pos_iff.mpr hl
      rw [List.length_drop]
      omega

/-- The packets of a text make it up. -/
theorem flatten_packets {m : Nat} (hm : 0 < m) (l : List UInt8) : (packets m l).flatten = l := by
  induction l using packets_induction hm with
  | hnil => rw [packets_nil, List.flatten_nil]
  | hcons l hl ih => rw [packets_of_ne_nil hm hl, List.flatten_cons, ih, List.take_append_drop]

/-- There is a packet, if there is a byte. -/
theorem packets_ne_nil {m : Nat} (hm : 0 < m) {l : List UInt8} (hl : l ≠ []) :
    packets m l ≠ [] := by
  rw [packets_of_ne_nil hm hl]
  exact List.cons_ne_nil _ _

/-- No packet of a string is empty. -/
theorem nonempty_of_mem_packets {m : Nat} (hm : 0 < m) (l : List UInt8) :
    ∀ p ∈ packets m l, p ≠ [] := by
  induction l using packets_induction hm with
  | hnil => rw [packets_nil]; exact fun p hp => absurd hp List.not_mem_nil
  | hcons l hl ih =>
    intro p hp
    rw [packets_of_ne_nil hm hl] at hp
    rcases List.mem_cons.mp hp with rfl | hp
    · intro h
      rw [List.take_eq_nil_iff] at h
      exact h.elim (by omega) hl
    · exact ih p hp

/-- Every packet but the last is full. -/
theorem length_of_mem_dropLast_packets {m : Nat} (hm : 0 < m) (l : List UInt8) :
    ∀ p ∈ (packets m l).dropLast, p.length = m := by
  induction l using packets_induction hm with
  | hnil => rw [packets_nil]; exact fun p hp => absurd hp List.not_mem_nil
  | hcons l hl ih =>
    intro p hp
    rw [packets_of_ne_nil hm hl] at hp
    by_cases hrest : l.drop m = []
    · rw [hrest, packets_nil] at hp
      cases hp
    · rw [List.dropLast_cons_of_ne_nil (packets_ne_nil hm hrest)] at hp
      rcases List.mem_cons.mp hp with rfl | hp
      · have hpos := List.length_pos_iff.mpr hrest
        rw [List.length_drop] at hpos
        rw [List.length_take]
        omega
      · exact ih p hp

/-- How many packets there are, and the length of the last one. -/
theorem length_packets {m : Nat} (hm : 0 < m) (l : List UInt8) :
    (packets m l).length = (l.length + m - 1) / m := by
  induction l using packets_induction hm with
  | hnil =>
    rw [packets_nil, List.length_nil, List.length_nil, Nat.div_eq_of_lt (by omega)]
  | hcons l hl ih =>
    have hpos := List.length_pos_iff.mpr hl
    rw [packets_of_ne_nil hm hl, List.length_cons, ih, List.length_drop]
    by_cases hle : l.length ≤ m
    · rw [Nat.div_eq_of_lt (by omega)]
      have hone : l.length + m - 1 = (l.length - 1) + m := by omega
      rw [hone, Nat.add_div_right _ hm, Nat.div_eq_of_lt (by omega)]
    · have hstep : l.length + m - 1 = (l.length - m + m - 1) + m := by omega
      rw [hstep, Nat.add_div_right _ hm]

/-- The last packet has what is left over, or is full. -/
theorem getLast?_packets {m : Nat} (hm : 0 < m) {l : List UInt8} (hl : l ≠ []) :
    ∃ p, (packets m l).getLast? = some p ∧
      p.length = if m ∣ l.length then m else l.length % m := by
  induction l using packets_induction hm with
  | hnil => exact absurd rfl hl
  | hcons l _ ih =>
    have hpos := List.length_pos_iff.mpr hl
    by_cases hrest : l.drop m = []
    · have hle : l.length ≤ m := by
        have := congrArg List.length hrest
        rw [List.length_drop, List.length_nil] at this
        omega
      refine ⟨l, by rw [packets_of_length_le hm hl hle]; rfl, ?_⟩
      split
      · next hdvd => exact Nat.le_antisymm hle (Nat.le_of_dvd hpos hdvd)
      · next hndvd =>
        have hne : l.length ≠ m := fun he => hndvd (he ▸ Nat.dvd_refl _)
        rw [Nat.mod_eq_of_lt (by omega)]
    · obtain ⟨p, hlast, hlen⟩ := ih hrest
      have hgt : m < l.length := by
        have := List.length_pos_iff.mpr hrest
        rw [List.length_drop] at this
        omega
      refine ⟨p, ?_, ?_⟩
      · rw [packets_of_ne_nil hm hl, List.getLast?_cons, hlast, Option.getD_some]
      · rw [hlen, List.length_drop, Nat.mod_eq_sub_mod (Nat.le_of_lt hgt)]
        simp only [Nat.dvd_sub_iff_left (Nat.le_of_lt hgt) (Nat.dvd_refl m)]

/-! ## The packets of a transfer -/

/-- A shorter region is the front of a longer one. -/
theorem region_take (mem : List UInt8) (buffer : Option Nat) {m r : Nat} (h : m ≤ r) :
    region mem buffer m = (region mem buffer r).take m := by
  cases buffer with
  | none => simp only [region, List.take_nil]
  | some a => simp only [region, List.take_take, Nat.min_eq_left h]

/-- What is left of a region behind its front. -/
theorem region_advance (mem : List UInt8) (buffer : Option Nat) (m r : Nat) :
    region mem (buffer.map (· + m)) (r - m) = (region mem buffer r).drop m := by
  cases buffer with
  | none => simp only [region, Option.map_none, List.drop_nil]
  | some a => simp only [region, Option.map_some, List.drop_take, List.drop_drop]

/-- The zero-length packet behind a request of `n` bytes. -/
def zlp (m n : Nat) : List (List UInt8) := if 0 < n ∧ m ∣ n then [[]] else []

/-- The bulk-IN endpoint, not stalled, with a write request of `n` bytes at `buffer` of which
`r` remain. -/
def sending (m : Nat) (list : List UioRequest) (n : Nat) (buffer : Option Nat) (r : Nat) : Uep :=
  { dirIn := true, maxPacket := m, stalled := false, requestList := list
    request := { reqType := .write, buffer := buffer, size := n, remainSize := r } }

/-- How a transfer ends: nothing is pending, and the calls made since are the packets `ps` and
then the completion, once. -/
def InTransfer.Ends (t : InTransfer) (mem : List UInt8) (before : List UsbOp)
    (ps : List (List UInt8)) : Prop :=
  t.pending = 0 ∧ ∃ ws, t.ops = before ++ ws ++ [.completionDone] ∧
    (∀ op ∈ ws, op.isWrite = true) ∧ ws.filterMap (UsbOp.packet mem) = ps

/-- With nothing pending no packet is sent. -/
theorem InTransfer.drive_of_pending_zero {t : InTransfer} (h : t.pending = 0) (sizes : List Nat) :
    t.drive sizes = t := by
  cases sizes with
  | nil => rfl
  | cons _ _ => rw [InTransfer.drive, if_pos h]

/-- A packet handed out in front of a transfer that ends so. -/
theorem InTransfer.Ends.cons {t : InTransfer} {mem : List UInt8} {before : List UsbOp}
    {buffer : Option Nat} {size : Nat} {ps : List (List UInt8)}
    (h : t.Ends mem (before ++ [.epWrite buffer size]) ps) :
    t.Ends mem before (region mem buffer size :: ps) := by
  obtain ⟨hpend, ws, hops, hall, hps⟩ := h
  refine ⟨hpend, .epWrite buffer size :: ws, ?_, ?_, ?_⟩
  · rw [hops, List.append_assoc before, List.singleton_append]
  · intro op hop
    rcases List.mem_cons.mp hop with rfl | hop
    · rfl
    · exact hall op hop
  · simp only [List.filterMap_cons, UsbOp.packet, hps]

section Transfer

variable {m n : Nat} {list : List UioRequest} {mem : List UInt8}

/-- Nothing remains and no zero-length packet is due: the message completes the transfer. -/
theorem notify_complete (hm : 0 < m) (hz : ¬ (n ≠ 0 ∧ n % m = 0)) (buffer : Option Nat)
    (ops : List UsbOp) (msgSize : Nat) :
    InTransfer.notify ⟨sending m list n buffer 0, 1, ops⟩ msgSize =
      ⟨sending m list n buffer 0, 0, ops ++ [.completionDone]⟩ := by
  have hlt : ¬ m ≤ 0 := by omega
  simp only [InTransfer.notify, vcomInNotify, dataNotify, sending, hlt, epInHandler, hz, ne_eq,
    not_true_eq_false, if_false, if_true, Nat.lt_irrefl, List.nil_append]
  rfl

/-- Nothing remains of a request that is a multiple of the packet size: the message requests
the zero-length packet. -/
theorem notify_zlp (hm : 0 < m) (hz : n ≠ 0 ∧ n % m = 0) (buffer : Option Nat)
    (ops : List UsbOp) (msgSize : Nat) :
    InTransfer.notify ⟨sending m list n buffer 0, 1, ops⟩ msgSize =
      ⟨sending m list 0 none 0, 1, ops ++ [.epWrite none 0]⟩ := by
  have hlt : ¬ m ≤ 0 := by omega
  simp only [InTransfer.notify, vcomInNotify, dataNotify, sending, hlt, epInHandler, hz, ne_eq,
    not_true_eq_false, not_false_eq_true, and_self, if_false, if_true, Nat.lt_irrefl,
    List.nil_append, rtUsbdIoRequest, rtUsbdEpWrite, Bool.false_eq_true]
  rfl

/-- A full packet remains: the message hands it out. -/
theorem notify_full {r : Nat} (hr : m ≤ r) (buffer : Option Nat) (ops : List UsbOp)
    (msgSize : Nat) :
    InTransfer.notify ⟨sending m list n buffer r, 1, ops⟩ msgSize =
      ⟨sending m list n (buffer.map (· + m)) (r - m), 1, ops ++ [.epWrite buffer m]⟩ := by
  simp only [InTransfer.notify, vcomInNotify, dataNotify, sending, hr, ne_eq, not_true_eq_false,
    if_false, if_true]
  rfl

/-- A part of a packet remains: the message hands it out. -/
theorem notify_part {r : Nat} (hr : ¬ m ≤ r) (h0 : 0 < r) (buffer : Option Nat)
    (ops : List UsbOp) (msgSize : Nat) :
    InTransfer.notify ⟨sending m list n buffer r, 1, ops⟩ msgSize =
      ⟨sending m list n buffer 0, 1, ops ++ [.epWrite buffer r]⟩ := by
  simp only [InTransfer.notify, vcomInNotify, dataNotify, sending, hr, h0, ne_eq,
    not_true_eq_false, if_false, if_true]
  rfl

/-- The end of a transfer: the zero-length packet that is due, and the completion. -/
theorem drive_zlp (hm : 0 < m) (buffer : Option Nat) (ops : List UsbOp) (sizes : List Nat)
    (hs : (zlp m n).length < sizes.length) :
    ((InTransfer.mk (sending m list n buffer 0) 1 ops).drive sizes).Ends mem ops (zlp m n) := by
  cases sizes with
  | nil => cases hs
  | cons size sizes =>
    rw [InTransfer.drive, if_neg (by exact Nat.one_ne_zero)]
    by_cases hz : n ≠ 0 ∧ n % m = 0
    · have hdvd : 0 < n ∧ m ∣ n := ⟨by omega, Nat.dvd_of_mod_eq_zero hz.2⟩
      rw [zlp, if_pos hdvd] at hs ⊢
      rw [notify_zlp hm hz]
      refine InTransfer.Ends.cons (?_ : InTransfer.Ends _ mem (ops ++ [.epWrite none 0]) [])
      cases sizes with
      | nil => exact absurd hs (Nat.lt_irrefl 1)
      | cons size sizes =>
        rw [InTransfer.drive, if_neg (by exact Nat.one_ne_zero),
          notify_complete hm (fun h => h.1 rfl), InTransfer.drive_of_pending_zero rfl]
        exact ⟨rfl, [], by rw [List.append_nil], fun _ h => absurd h List.not_mem_nil, rfl⟩
    · have hdvd : ¬ (0 < n ∧ m ∣ n) := fun h =>
        hz ⟨Nat.pos_iff_ne_zero.mp h.1, Nat.mod_eq_zero_of_dvd h.2⟩
      rw [zlp, if_neg hdvd, notify_complete hm hz, InTransfer.drive_of_pending_zero rfl]
      exact ⟨rfl, [], by rw [List.append_nil], fun _ h => absurd h List.not_mem_nil, rfl⟩

/-- The rest of a transfer, by induction on the bytes that remain: their packets, the
zero-length packet that is due, and the completion. -/
theorem drive_remaining (hm : 0 < m) (rest : List UInt8) (buffer : Option Nat)
    (hrest : region mem buffer rest.length = rest) (ops : List UsbOp) (sizes : List Nat)
    (hs : (packets m rest ++ zlp m n).length < sizes.length) :
    ((InTransfer.mk (sending m list n buffer rest.length) 1 ops).drive sizes).Ends mem ops
      (packets m rest ++ zlp m n) := by
  induction rest using packets_induction hm generalizing buffer ops sizes with
  | hnil =>
    rw [packets_nil, List.nil_append] at hs ⊢
    exact drive_zlp hm buffer ops sizes hs
  | hcons rest hne ih =>
    have hpos := List.length_pos_iff.mpr hne
    rw [packets_of_ne_nil hm hne, List.cons_append] at hs ⊢
    cases sizes with
    | nil => cases hs
    | cons size sizes =>
      rw [List.length_cons, List.length_cons, Nat.add_lt_add_iff_right] at hs
      rw [InTransfer.drive, if_neg (by exact Nat.one_ne_zero)]
      by_cases hfull : m ≤ rest.length
      · have hadv := region_advance mem buffer m rest.length
        rw [hrest] at hadv
        have hih := ih (buffer.map (· + m)) (by rw [List.length_drop]; exact hadv)
          (ops ++ [.epWrite buffer m]) sizes hs
        rw [notify_full hfull]
        rw [List.length_drop] at hih
        rw [← hrest, ← region_take mem buffer hfull, hrest]
        exact hih.cons
      · have hpart : rest.drop m = [] := List.drop_eq_nil_of_le (by omega)
        have htake : rest.take m = region mem buffer rest.length := by
          rw [hrest, List.take_of_length_le (by omega)]
        rw [hpart] at ih hs ⊢
        have hnil : region mem buffer ([] : List UInt8).length = [] := by
          cases buffer <;> simp only [region, List.length_nil, List.take_zero]
        have hih := ih buffer hnil
          (ops ++ [.epWrite buffer rest.length]) sizes hs
        rw [notify_part hfull hpos, htake]
        exact hih.cons

/-- A whole transfer. The request itself is at least one packet: an empty request is one
empty packet. -/
theorem drive_request (list : List UioRequest) (hm : 0 < m) (data : List UInt8)
    (buffer : Option Nat) (remain : Nat) (hdata : region mem buffer data.length = data)
    (sizes : List Nat)
    (hs : ((if data = [] then [[]] else packets m data) ++ zlp m data.length).length ≤
      sizes.length) :
    ((inTransferStart (sending m list data.length buffer remain)).drive sizes).Ends mem []
      ((if data = [] then [[]] else packets m data) ++ zlp m data.length) := by
  by_cases hne : data = []
  · subst hne
    have hlt : ¬ m ≤ 0 := by omega
    have hstart : inTransferStart (sending m list 0 buffer remain) =
        ⟨sending m list 0 buffer 0, 1, [] ++ [.epWrite buffer 0]⟩ := by
      simp only [inTransferStart, rtUsbdIoRequest, sending, rtUsbdEpWrite, hlt, if_false,
        Bool.false_eq_true]
      rfl
    rw [List.length_nil] at hdata hs ⊢
    rw [if_pos rfl, List.singleton_append, List.length_cons] at hs
    rw [if_pos rfl, hstart, ← hdata, List.singleton_append]
    exact (drive_zlp hm buffer _ sizes hs).cons
  · rw [if_neg hne] at hs ⊢
    rw [packets_of_ne_nil hm hne, List.cons_append] at hs ⊢
    rw [List.length_cons] at hs
    by_cases hfull : m ≤ data.length
    · have hstart : inTransferStart (sending m list data.length buffer remain) =
          ⟨sending m list data.length (buffer.map (· + m)) (data.length - m), 1,
            [] ++ [.epWrite buffer m]⟩ := by
        simp only [inTransferStart, rtUsbdIoRequest, sending, rtUsbdEpWrite, hfull, if_true,
          if_false, Bool.false_eq_true]
        rfl
      have hadv := region_advance mem buffer m data.length
      rw [hdata, ← List.length_drop] at hadv
      have htake : data.take m = region mem buffer m := by
        rw [region_take mem buffer hfull, hdata]
      rw [hstart, htake, ← List.length_drop]
      exact (drive_remaining hm (data.drop m) _ hadv _ sizes hs).cons
    · have hstart : inTransferStart (sending m list data.length buffer remain) =
          ⟨sending m list data.length buffer 0, 1, [] ++ [.epWrite buffer data.length]⟩ := by
        simp only [inTransferStart, rtUsbdIoRequest, sending, rtUsbdEpWrite, hfull, if_false,
          Bool.false_eq_true]
        rfl
      have hnil : data.drop m = [] := List.drop_eq_nil_of_le (by omega)
      have htake : data.take m = region mem buffer data.length := by
        rw [hdata, List.take_of_length_le (by omega)]
      rw [hnil, packets_nil, List.nil_append] at hs ⊢
      rw [hstart, htake]
      exact (drive_zlp hm buffer _ sizes hs).cons

/-- A transfer of `n` bytes takes `n / m + 1` packets. -/
theorem length_transfer (hm : 0 < m) (data : List UInt8) :
    ((if data = [] then [[]] else packets m data) ++ zlp m data.length).length =
      data.length / m + 1 := by
  by_cases hne : data = []
  · subst hne
    simp only [if_true, zlp, List.length_nil, Nat.lt_irrefl, false_and, if_false, List.append_nil,
      List.length_singleton, Nat.zero_div]
  · have hpos := List.length_pos_iff.mpr hne
    rw [if_neg hne, List.length_append, length_packets hm]
    by_cases hdvd : m ∣ data.length
    · obtain ⟨k, hk⟩ := hdvd
      have hceil : (m * k + m - 1) / m = k := by
        have : m * k + m - 1 = (m - 1) + m * k := by omega
        rw [this, Nat.add_mul_div_left _ _ hm, Nat.div_eq_of_lt (by omega), Nat.zero_add]
      rw [zlp, if_pos ⟨hpos, ⟨k, hk⟩⟩, hk, hceil, Nat.mul_div_cancel_left k hm]
      rfl
    · have hmod : 0 < data.length % m :=
        Nat.pos_of_ne_zero fun h => hdvd (Nat.dvd_of_mod_eq_zero h)
      have hlt := Nat.mod_lt data.length hm
      have hdiv := Nat.div_add_mod data.length m
      have hceil : (data.length + m - 1) / m = data.length / m + 1 := by
        have : data.length + m - 1 = (data.length % m - 1 + m) + m * (data.length / m) := by omega
        rw [this, Nat.add_mul_div_left _ _ hm, Nat.add_div_right _ hm,
          Nat.div_eq_of_lt (by omega), Nat.add_comm]
      rw [zlp, if_neg (fun h => hdvd h.2), hceil]
      rfl

/-- All packets of a transfer but the last are full, and the last one is not. -/
theorem shape_transfer (hm : 0 < m) (data : List UInt8) :
    (∀ p ∈ ((if data = [] then [[]] else packets m data) ++ zlp m data.length).dropLast,
      p.length = m) ∧
    ∃ p, ((if data = [] then [[]] else packets m data) ++ zlp m data.length).getLast? = some p ∧
      p.length < m := by
  by_cases hne : data = []
  · subst hne
    simp only [if_true, zlp, List.length_nil, Nat.lt_irrefl, false_and, if_false, List.append_nil]
    exact ⟨fun p hp => absurd hp List.not_mem_nil, [], rfl, hm⟩
  · have hpos := List.length_pos_iff.mpr hne
    obtain ⟨last, hlast, hlen⟩ := getLast?_packets hm hne
    rw [if_neg hne]
    by_cases hdvd : m ∣ data.length
    · rw [if_pos hdvd] at hlen
      rw [zlp, if_pos ⟨hpos, hdvd⟩, List.dropLast_concat]
      refine ⟨fun p hp => ?_, [], List.getLast?_concat, hm⟩
      obtain ⟨front, hfront⟩ := List.getLast?_eq_some_iff.mp hlast
      have hfull := length_of_mem_dropLast_packets hm data
      rw [hfront, List.dropLast_concat] at hfull
      rw [hfront] at hp
      rcases List.mem_append.mp hp with hp | hp
      · exact hfull p hp
      · rw [List.mem_singleton.mp hp, hlen]
    · rw [if_neg hdvd] at hlen
      rw [zlp, if_neg (fun h => hdvd h.2), List.append_nil]
      exact ⟨length_of_mem_dropLast_packets hm data, last, hlast, hlen ▸ Nat.mod_lt _ hm⟩

/-- Packetisation on the bulk-IN endpoint: for every packet size and every write request, a
message for each packet ends the transfer after `n / m + 1` packets. They are the buffer in
order, every one but the last full and the last one shorter, with a zero-length packet added
exactly to a request that is not empty and fills its last packet; the completion is signalled
once, behind the last packet. -/
theorem vcom_in_transfer_packets (m : Nat) (hm : 1 ≤ m) (mem : List UInt8) (buffer : Option Nat)
    (n : Nat) (hbuf : (region mem buffer n).length = n) (remain : Nat) (list : List UioRequest)
    (sizes : List Nat) (hs : n / m + 1 ≤ sizes.length) :
    ∃ ws own,
      InTransfer.pending ((inTransferStart (sending m list n buffer remain)).drive sizes) = 0 ∧
      InTransfer.ops ((inTransferStart (sending m list n buffer remain)).drive sizes) =
        ws ++ [.completionDone] ∧
      (∀ op ∈ ws, op.isWrite = true) ∧ ws.length = n / m + 1 ∧
      ws.filterMap (UsbOp.packet mem) = own ++ (if 0 < n ∧ m ∣ n then [[]] else []) ∧
      own.flatten = region mem buffer n ∧ own ≠ [] ∧ (∀ p ∈ own, p = [] → n = 0) ∧
      (∀ p ∈ (ws.filterMap (UsbOp.packet mem)).dropLast, p.length = m) ∧
      ∃ p, (ws.filterMap (UsbOp.packet mem)).getLast? = some p ∧ p.length < m := by
  have hlen := length_transfer hm (region mem buffer n)
  obtain ⟨hfull, hlast⟩ := shape_transfer hm (region mem buffer n)
  have hdrive := drive_request list hm (region mem buffer n) buffer remain
    (by rw [hbuf]) sizes (by rw [hlen, hbuf]; exact hs)
  rw [hbuf] at hdrive hlen hfull hlast
  obtain ⟨hpend, ws, hops, hall, hps⟩ := hdrive
  have hcount : ws.length = n / m + 1 := by
    rw [← hlen, ← hps, List.length_filterMap_eq_countP]
    refine (List.countP_eq_length.mpr fun op hop => ?_).symm
    have hw := hall op hop
    cases op with
    | epWrite b s => rfl
    | epReadPrepare b s => cases hw
    | completionDone => cases hw
  refine ⟨ws, if region mem buffer n = [] then [[]] else packets m (region mem buffer n), hpend,
    hops, hall, hcount, hps, ?_, ?_, ?_, ?_, ?_⟩
  · split
    · next hnil => rw [hnil]; rfl
    · exact flatten_packets hm _
  · split
    · exact List.cons_ne_nil _ _
    · next hne => exact packets_ne_nil hm hne
  · intro p hp hnil
    split at hp
    · next hempty => rw [← hbuf, hempty, List.length_nil]
    · exact absurd hnil (nonempty_of_mem_packets hm _ p hp)
  · rw [hps]
    exact hfull
  · rw [hps]
    exact hlast

/-- Seven bytes in packets of three, and six bytes, which take a zero-length packet. -/
theorem vcom_in_transfer_packets_three :
    (∃ ws, InTransfer.ops ((inTransferStart (sending 3 [] 7 (some 0) 0)).drive [3, 3, 1]) =
      ws ++ [.completionDone] ∧ ws.length = 3) ∧
    ∃ ws, InTransfer.ops ((inTransferStart (sending 3 [] 6 (some 1) 0)).drive [3, 3, 0]) =
      ws ++ [.completionDone] ∧ ws.length = 3 := by
  obtain ⟨ws, -, -, hops, -, hlen, -⟩ := vcom_in_transfer_packets 3 (by decide)
    [1, 2, 3, 4, 5, 6, 7] (some 0) 7 rfl 0 [] [3, 3, 1] (by decide)
  obtain ⟨ws', -, -, hops', -, hlen', -⟩ := vcom_in_transfer_packets 3 (by decide)
    [1, 2, 3, 4, 5, 6, 7] (some 1) 6 rfl 0 [] [3, 3, 0] (by decide)
  exact ⟨⟨ws, hops, hlen⟩, ws', hops', hlen'⟩

end Transfer

end RtVcom.Usb
