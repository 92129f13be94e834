import RtVcom.Lib.Object
import RtVcom.Usb.Endpoint

/-!
# Requests of a halted endpoint

While an endpoint is stalled `rt_usbd_io_request` puts requests into a list, and the
CLEAR_FEATURE request of the host passes them to the same function again. A caller can hand over
the endpoint's own request or any other object; of another one the function takes the type, and
for a read the buffer and the size, but what it counts down, and what it writes, is the endpoint's
own request.

No request is lost, and none changes places (`HaltEp.Kept`). That each is also started as what it
is takes more, and `halted_requests_iff` says what.
-/

namespace RtVcom.Usb

open RtVcom.Lib

/-! ## The model -/

/-- A request object: `ep->request`, or one of the caller. -/
inductive RequestObject
  | own
  | other (id : Nat)
deriving Repr, DecidableEq

/-- A request object as its caller hands it over. -/
structure IoRequest where
  object : RequestObject
  content : UioRequest
deriving Repr, DecidableEq

/-- What the controller is asked for at the start of a request, what remains of the request then,
whether the endpoint or the controller is stalled, and whether the request had to wait. -/
structure Start where
  request : IoRequest
  ops : List UsbOp
  remain : Nat
  stalled : Bool
  waited : Bool
deriving Repr, DecidableEq

/-- An endpoint, whether the controller has it stalled, and its `request_list`. The rest is not in
the program: whether the waiting requests are being started, and the starts and the requests
handed over so far. -/
structure HaltEp where
  ep : Uep
  halted : Bool
  requestList : List IoRequest
  replaying : Bool
  starts : List Start
  submitted : List IoRequest
deriving Repr, DecidableEq

/-- The object as the function finds it. -/
def IoRequest.found (r : IoRequest) (ep : Uep) : UioRequest :=
  match r.object with
  | .own => ep.request
  | .other _ => r.content

/-- `rt_usbd_io_request` of any request, of an endpoint that is not stalled. -/
def startRequest (ep : Uep) (r : IoRequest) : Uep × List UsbOp :=
  let req := r.found ep
  let ep := { ep with request := { ep.request with remainSize := ep.request.size } }
  match req.reqType with
  | .readBest | .readFull => (ep, rtUsbdEpReadPrepare ep req.buffer req.size)
  | .write => rtUsbdEpWrite ep

/-- `rt_usbd_io_request` of any request. -/
def HaltEp.rtUsbdIoRequest (s : HaltEp) (r : IoRequest) : HaltEp :=
  if s.ep.stalled then { s with requestList := s.requestList ++ [r] }
  else
    let (ep, ops) := startRequest s.ep r
    { s with
      ep
      starts := s.starts ++
        [⟨r, ops, ep.request.remainSize, s.ep.stalled || s.halted, s.replaying⟩] }

/-- `USB_EP_HALT`. -/
def usbEpHalt : BitVec 16 := 0

/-- `_standard_request`, SET_FEATURE of an endpoint. -/
def HaltEp.setFeature (s : HaltEp) (wValue : BitVec 16) : HaltEp :=
  if wValue = usbEpHalt then { s with ep := { s.ep with stalled := true }, halted := true } else s

/-- `_standard_request`, CLEAR_FEATURE of an endpoint. The endpoint is not stalled when the loop
runs, so that no call puts a request back into the list. -/
def HaltEp.clearFeature (s : HaltEp) (wValue : BitVec 16) : HaltEp :=
  if wValue = usbEpHalt ∧ s.ep.stalled = true then
    let s := { s with halted := false, ep := { s.ep with stalled := false }, replaying := true }
    { s.requestList.foldl HaltEp.rtUsbdIoRequest s with requestList := [], replaying := false }
  else s

/-- A caller sets its request up: the endpoint's own is a part of the endpoint. -/
def IoRequest.setUp (r : IoRequest) (ep : Uep) : Uep :=
  match r.object with
  | .own => { ep with request := { r.content with remainSize := ep.request.remainSize } }
  | .other _ => ep

/-- A caller sets its request up and hands it over. -/
def HaltEp.submit (s : HaltEp) (r : IoRequest) : HaltEp :=
  { s with ep := r.setUp s.ep, submitted := s.submitted ++ [r] }.rtUsbdIoRequest r

/-- The two requests of the host, and a request of the device. -/
inductive HaltEvent
  | setFeature (wValue : BitVec 16)
  | clearFeature (wValue : BitVec 16)
  | submit (r : IoRequest)
deriving Repr, DecidableEq

def HaltEp.event (s : HaltEp) : HaltEvent → HaltEp
  | .setFeature wValue => s.setFeature wValue
  | .clearFeature wValue => s.clearFeature wValue
  | .submit r => s.submit r

/-- An endpoint that is not stalled, without any request. -/
def haltObject (ep : Uep) : Object HaltEp HaltEvent Unit where
  init :=
    { ep := { ep with stalled := false }
      halted := false
      requestList := []
      replaying := false
      starts := []
      submitted := [] }
  call s event := (s.event event, ())

/-- No request object is handed over twice. -/
def Distinct (s : HaltEp) : HaltEvent → Prop
  | .submit r => r.object ∉ s.submitted.map IoRequest.object
  | _ => True

instance : DecidableRel Distinct := fun s event => by
  cases event <;> unfold Distinct <;> infer_instance

/-! ## What is due to a request -/

/-- The first packet of a request. -/
def IoRequest.firstPacket (r : IoRequest) (m : Nat) : UsbOp :=
  match r.content.reqType with
  | .write => .epWrite r.content.buffer (min m r.content.size)
  | _ => .epReadPrepare r.content.buffer (min m r.content.size)

/-- What remains of it then: of a read all of it, and of a write what is behind the packet. -/
def IoRequest.rest (r : IoRequest) (m : Nat) : Nat :=
  match r.content.reqType with
  | .write => r.content.size - min m r.content.size
  | _ => r.content.size

/-- A request is started as what it is. -/
def Start.Right (start : Start) (m : Nat) : Prop :=
  start.ops = [start.request.firstPacket m] ∧ start.remain = start.request.rest m

/-- What had to wait was started as what it is. -/
def HaltEp.Right (s : HaltEp) (m : Nat) : Prop :=
  ∀ start ∈ s.starts, start.waited = true → start.Right m

/-- What a run owes to the requests: each is started once or still waits, in the order in which they
were handed over, none waits at an endpoint that is not stalled, none is started at one that is,
and those that had to wait were started as what they are. -/
structure HaltEp.Served (s : HaltEp) (m : Nat) : Prop where
  inOrder : s.starts.map Start.request ++ s.requestList = s.submitted
  empty : s.ep.stalled = false → s.requestList = []
  unstalled : ∀ start ∈ s.starts, start.stalled = false
  right : s.Right m

/-- A request has the size of the endpoint's own, and where it is that one or a write, its buffer
too. -/
def IoRequest.Fits (r : IoRequest) (size : Nat) (buffer : Option Nat) : Prop :=
  r.content.size = size ∧
    (r.object = .own ∨ r.content.reqType = .write → r.content.buffer = buffer)

instance (r : IoRequest) (size : Nat) (buffer : Option Nat) : Decidable (r.Fits size buffer) :=
  inferInstanceAs (Decidable (_ ∧ _))

/-- The endpoint's buffer behind the start of a request: a write of a full packet moves it on. -/
def IoRequest.nextBuffer (r : IoRequest) (m size : Nat) (buffer : Option Nat) : Option Nat :=
  if r.content.reqType = .write ∧ m ≤ size then buffer.map (· + m) else buffer

/-- Requests that are started one after the other all fit. -/
def AllFit (m size : Nat) : Option Nat → List IoRequest → Prop
  | _, [] => True
  | buffer, r :: rs => r.Fits size buffer ∧ AllFit m size (r.nextBuffer m size buffer) rs

instance decidableAllFit (m size : Nat) :
    ∀ (buffer : Option Nat) (rs : List IoRequest), Decidable (AllFit m size buffer rs)
  | _, [] => isTrue trivial
  | buffer, r :: rs =>
    have := decidableAllFit m size (r.nextBuffer m size buffer) rs
    inferInstanceAs (Decidable (r.Fits size buffer ∧ _))

/-- The condition on an event: the waiting requests fit when the halt is cleared. -/
def FitsWhenStarted (s : HaltEp) : HaltEvent → Prop
  | .clearFeature wValue =>
    wValue = usbEpHalt → s.ep.stalled = true →
      AllFit s.ep.maxPacket s.ep.request.size s.ep.request.buffer s.requestList
  | _ => True

instance : DecidableRel FitsWhenStarted := fun s event => by
  cases event <;> unfold FitsWhenStarted <;> infer_instance

/-! ## One start -/

variable {ep : Uep} {r : IoRequest} {m : Nat}

/-- The endpoint's own request is started as `rtUsbdIoRequest` says. -/
theorem startRequest_own (h : ep.stalled = false) (content : UioRequest) :
    startRequest ep ⟨.own, content⟩ = rtUsbdIoRequest ep := by
  have hrun : ¬ep.stalled = true := by
    rw [h]
    exact Bool.false_ne_true
  unfold rtUsbdIoRequest
  refine Eq.trans ?_ (if_neg hrun).symm
  unfold startRequest IoRequest.found
  cases ep.request.reqType <;> rfl

/-- The endpoint's own request is found as its caller set it up, its buffer apart. -/
def IoRequest.Own (r : IoRequest) (ep : Uep) : Prop :=
  r.object = .own → ep.request.reqType = r.content.reqType ∧ ep.request.size = r.content.size

/-- A request of its own is found with the type that it was given. -/
theorem IoRequest.Own.found_reqType (h : r.Own ep) :
    (r.found ep).reqType = r.content.reqType := by
  unfold IoRequest.found
  cases hobject : r.object with
  | own => exact (h hobject).1
  | other id => rfl

/-- A start moves the buffer of the endpoint on and counts its request down. -/
theorem startRequest_keeps (h : r.Own ep) :
    (startRequest ep r).1.stalled = ep.stalled ∧
      (startRequest ep r).1.maxPacket = ep.maxPacket ∧
      (startRequest ep r).1.request.size = ep.request.size ∧
      (startRequest ep r).1.request.reqType = ep.request.reqType ∧
      (startRequest ep r).1.request.buffer =
        r.nextBuffer ep.maxPacket ep.request.size ep.request.buffer := by
  have hfound := h.found_reqType
  unfold startRequest IoRequest.nextBuffer
  cases htype : r.content.reqType with
  | readFull => simp only [hfound, htype, reduceCtorEq, false_and, if_false, and_self]
  | readBest => simp only [hfound, htype, reduceCtorEq, false_and, if_false, and_self]
  | write =>
    simp only [hfound, htype, true_and, rtUsbdEpWrite]
    by_cases hfull : ep.maxPacket ≤ ep.request.size
    · simp only [hfull, if_true, and_self]
    · simp only [hfull, if_false, and_self]

/-- The packet that a start asks for, and what remains then, by the type of the request. -/
theorem startRequest_asks (h : r.Own ep) :
    (startRequest ep r).2 =
        [if r.content.reqType = .write then
          .epWrite ep.request.buffer (min ep.maxPacket ep.request.size)
        else .epReadPrepare (r.found ep).buffer (min ep.maxPacket (r.found ep).size)] ∧
      (startRequest ep r).1.request.remainSize =
        if r.content.reqType = .write then
          ep.request.size - min ep.maxPacket ep.request.size
        else ep.request.size := by
  have hfound := h.found_reqType
  have hread (size : Nat) : (if ep.maxPacket < size then ep.maxPacket else size) =
      min ep.maxPacket size := by split <;> omega
  unfold startRequest
  cases htype : r.content.reqType with
  | readFull =>
    simp only [hfound, htype, reduceCtorEq, if_false, rtUsbdEpReadPrepare, hread, and_self]
  | readBest =>
    simp only [hfound, htype, reduceCtorEq, if_false, rtUsbdEpReadPrepare, hread, and_self]
  | write =>
    simp only [hfound, htype, rtUsbdEpWrite, if_true]
    by_cases hfull : ep.maxPacket ≤ ep.request.size
    · simp only [hfull, if_true, Nat.min_eq_left hfull, and_self]
    · have hle : ep.request.size ≤ ep.maxPacket := by omega
      simp only [hfull, if_false, Nat.min_eq_right hle, Nat.sub_self, and_self]

/-- A request is started as what it is exactly if it fits. -/
theorem startRequest_right_iff (h : r.Own ep) (stalled waited : Bool) :
    Start.Right
        ⟨r, (startRequest ep r).2, (startRequest ep r).1.request.remainSize, stalled, waited⟩
        ep.maxPacket ↔
      r.Fits ep.request.size ep.request.buffer := by
  obtain ⟨hops, hremain⟩ := startRequest_asks h
  simp only [Start.Right, hops, hremain, IoRequest.Fits, IoRequest.firstPacket, IoRequest.rest]
  by_cases hwrite : r.content.reqType = .write
  · simp only [hwrite, if_true, List.cons.injEq, UsbOp.epWrite.injEq, and_true, or_true,
      forall_const]
    constructor
    · rintro ⟨⟨hbuffer, hpacket⟩, hrest⟩
      exact ⟨by omega, hbuffer.symm⟩
    · rintro ⟨hsize, hbuffer⟩
      simp only [hsize, hbuffer, and_self]
  · simp only [hwrite, if_false, List.cons.injEq, UsbOp.epReadPrepare.injEq, and_true,
      or_false]
    cases hobject : r.object with
    | own =>
      simp only [IoRequest.found, hobject, forall_const]
      constructor
      · rintro ⟨⟨hbuffer, -⟩, hsize⟩
        exact ⟨hsize.symm, hbuffer.symm⟩
      · rintro ⟨hsize, hbuffer⟩
        simp only [hsize, hbuffer, and_self]
    | other id =>
      simp only [IoRequest.found, hobject, true_and, reduceCtorEq, false_implies, and_true]
      exact eq_comm

/-! ## The waiting requests -/

variable {s : HaltEp}

/-- An endpoint that is not stalled starts the request at once. -/
theorem HaltEp.io_unstalled (h : s.ep.stalled = false) (r : IoRequest) :
    s.rtUsbdIoRequest r = { s with
      ep := (startRequest s.ep r).1
      starts := s.starts ++ [⟨r, (startRequest s.ep r).2,
        (startRequest s.ep r).1.request.remainSize, s.halted, s.replaying⟩] } := by
  simp only [HaltEp.rtUsbdIoRequest, h, Bool.false_eq_true, if_false, Bool.false_or]

theorem HaltEp.io_stalled (h : s.ep.stalled = true) (r : IoRequest) :
    s.rtUsbdIoRequest r = { s with requestList := s.requestList ++ [r] } := by
  simp only [HaltEp.rtUsbdIoRequest, h, if_true]

/-- What the starts of some requests, one after the other, make of an endpoint that is not
stalled. -/
structure Started (s t : HaltEp) (rs : List IoRequest) : Prop where
  stalled : t.ep.stalled = false
  halted : t.halted = false
  maxPacket : t.ep.maxPacket = s.ep.maxPacket
  requestList : t.requestList = s.requestList
  replaying : t.replaying = s.replaying
  submitted : t.submitted = s.submitted
  starts : t.starts.map Start.request = s.starts.map Start.request ++ rs
  unstalled : (∀ start ∈ s.starts, start.stalled = false) →
    ∀ start ∈ t.starts, start.stalled = false
  right : t.Right s.ep.maxPacket ↔ s.Right s.ep.maxPacket ∧
    (s.replaying = true → AllFit s.ep.maxPacket s.ep.request.size s.ep.request.buffer rs)

/-- By induction on the requests. -/
theorem started_foldl (rs : List IoRequest) (hstalled : s.ep.stalled = false)
    (hhalted : s.halted = false) (hown : ∀ r ∈ rs, r.Own s.ep) :
    Started s (rs.foldl HaltEp.rtUsbdIoRequest s) rs := by
  induction rs generalizing s with
  | nil =>
    exact ⟨hstalled, hhalted, rfl, rfl, rfl, rfl, (List.append_nil _).symm, id,
      (and_iff_left fun _ => trivial).symm⟩
  | cons r rs ih =>
    have hr := hown r List.mem_cons_self
    obtain ⟨hkstalled, hkmax, hksize, hktype, hkbuffer⟩ := startRequest_keeps hr
    rw [List.foldl_cons, HaltEp.io_unstalled hstalled]
    generalize hstart : Start.mk r (startRequest s.ep r).2
      (startRequest s.ep r).1.request.remainSize s.halted s.replaying = start
    have hright := startRequest_right_iff hr s.halted s.replaying
    have hwaited : start.waited = s.replaying := by rw [← hstart]
    rw [hstart] at hright
    have hrest := ih (s := { s with ep := (startRequest s.ep r).1, starts := s.starts ++ [start] })
      (hkstalled.trans hstalled) hhalted fun other hother hobject => by
        obtain ⟨htype, hsize⟩ := hown other (List.mem_cons_of_mem _ hother) hobject
        exact ⟨hktype.trans htype, hksize.trans hsize⟩
    refine ⟨hrest.stalled, hrest.halted, hrest.maxPacket.trans hkmax, hrest.requestList,
      hrest.replaying, hrest.submitted, ?_, fun hall => hrest.unstalled ?_, ?_⟩
    · rw [hrest.starts, List.map_append, List.append_assoc, ← hstart]
      rfl
    · intro other hother
      rcases List.mem_append.mp hother with hother | hother
      · exact hall other hother
      · rw [List.mem_singleton.mp hother, ← hstart]
        exact hhalted
    · have hall := hrest.right
      simp only [hkmax, hksize, hkbuffer] at hall
      rw [hall, AllFit, ← hright, imp_and, ← and_assoc]
      simp only [HaltEp.Right, List.forall_mem_append, List.forall_mem_singleton, hwaited]

/-! ## The run -/

/-- What every event keeps. -/
structure HaltEp.Kept (s : HaltEp) : Prop where
  inOrder : s.starts.map Start.request ++ s.requestList = s.submitted
  empty : s.ep.stalled = false → s.requestList = []
  unstalled : ∀ start ∈ s.starts, start.stalled = false
  halted : s.halted = s.ep.stalled
  idle : s.replaying = false
  own : ∀ r ∈ s.requestList, r.Own s.ep

variable {t : HaltEp}

/-- One event: it keeps the order, and the starts it makes are right exactly if it meets the
condition. -/
structure HaltEp.Step (s t : HaltEp) (event : HaltEvent) : Prop where
  kept : t.Kept
  maxPacket : t.ep.maxPacket = s.ep.maxPacket
  right : t.Right s.ep.maxPacket ↔ s.Right s.ep.maxPacket ∧ FitsWhenStarted s event

/-- Setting the halt keeps the invariant and is a step of the law. -/
theorem HaltEp.Kept.setFeature (h : s.Kept) (wValue : BitVec 16) :
    s.Step (s.setFeature wValue) (.setFeature wValue) := by
  unfold HaltEp.setFeature
  split
  · exact ⟨⟨h.inOrder, fun hstalled => (by cases hstalled), h.unstalled, rfl, h.idle,
      h.own⟩, rfl, (and_iff_left trivial).symm⟩
  · exact ⟨h, rfl, (and_iff_left trivial).symm⟩

/-- So is clearing the halt, which starts the first request. -/
theorem HaltEp.Kept.clearFeature (h : s.Kept) (wValue : BitVec 16) :
    s.Step (s.clearFeature wValue) (.clearFeature wValue) := by
  unfold HaltEp.clearFeature
  by_cases hclear : wValue = usbEpHalt ∧ s.ep.stalled = true
  · rw [if_pos hclear]
    have hstarted := started_foldl
      (s := { s with
        halted := false, ep := { s.ep with stalled := false }, replaying := true })
      s.requestList rfl rfl h.own
    refine ⟨⟨?_, fun _ => rfl, hstarted.unstalled h.unstalled,
      hstarted.halted.trans hstarted.stalled.symm, rfl, fun r hr => absurd hr List.not_mem_nil⟩,
      hstarted.maxPacket, ?_⟩
    · refine (List.append_nil _).trans (hstarted.starts.trans (h.inOrder.trans ?_))
      exact hstarted.submitted.symm
    · refine hstarted.right.trans (and_congr_right fun _ => ?_)
      exact ⟨fun hfit _ _ => hfit rfl, fun hfit _ => hfit hclear.1 hclear.2⟩
  · rw [if_neg hclear]
    exact ⟨h, rfl, (and_iff_left fun hvalue hstalled => absurd ⟨hvalue, hstalled⟩ hclear).symm⟩

/-- The endpoint's own request is what its caller set up. -/
theorem IoRequest.own_setUp (r : IoRequest) (ep : Uep) : r.Own (r.setUp ep) := by
  intro hobject
  simp only [IoRequest.setUp, hobject, and_self]

/-- Setting a request up touches neither the halt nor the packet size. -/
theorem IoRequest.setUp_keeps (r : IoRequest) (ep : Uep) :
    (r.setUp ep).stalled = ep.stalled ∧ (r.setUp ep).maxPacket = ep.maxPacket := by
  unfold IoRequest.setUp
  split <;> exact ⟨rfl, rfl⟩

theorem HaltEp.Kept.submit (h : s.Kept) {r : IoRequest} (hdistinct : Distinct s (.submit r)) :
    s.Step (s.submit r) (.submit r) := by
  obtain ⟨hstalled, hmax⟩ := r.setUp_keeps s.ep
  unfold HaltEp.submit
  cases hs : s.ep.stalled with
  | true =>
    rw [HaltEp.io_stalled (hstalled.trans hs)]
    refine ⟨⟨?_, fun hfalse => ?_, h.unstalled, h.halted.trans hstalled.symm, h.idle,
      ?_⟩, hmax, (and_iff_left trivial).symm⟩
    · rw [← List.append_assoc, h.inOrder]
    · exact absurd (hfalse.symm.trans (hstalled.trans hs)) Bool.false_ne_true
    · intro other hother hobject
      rcases List.mem_append.mp hother with hother | hother
      · have hne : r.object ≠ .own := by
          intro hown
          refine hdistinct (List.mem_map.mpr ⟨other, ?_, hobject.trans hown.symm⟩)
          rw [← h.inOrder]
          exact List.mem_append_right _ hother
        have hsame : r.setUp s.ep = s.ep := by
          unfold IoRequest.setUp
          split
          · next hown => exact absurd hown hne
          · rfl
        simp only [hsame]
        exact h.own other hother hobject
      · obtain rfl := List.mem_singleton.mp hother
        exact other.own_setUp s.ep hobject
  | false =>
    have hnone := h.empty hs
    have hstarted := started_foldl
      (s := { s with ep := r.setUp s.ep, submitted := s.submitted ++ [r] }) [r]
      (hstalled.trans hs) (h.halted.trans hs) fun other hother => by
        rw [List.mem_singleton.mp hother]
        exact r.own_setUp s.ep
    have hlist : (HaltEp.rtUsbdIoRequest
        { s with ep := r.setUp s.ep, submitted := s.submitted ++ [r] } r).requestList = [] :=
      hstarted.requestList.trans hnone
    refine ⟨⟨?_, fun _ => hlist, hstarted.unstalled h.unstalled,
      hstarted.halted.trans hstarted.stalled.symm, hstarted.replaying.trans h.idle,
      fun other hother => ?_⟩,
      hstarted.maxPacket.trans hmax, ?_⟩
    · have horder := h.inOrder
      rw [hnone, List.append_nil] at horder
      refine (congrArg (_ ++ ·) hlist).trans ((List.append_nil _).trans (hstarted.starts.trans ?_))
      refine (congrArg (· ++ [r]) horder).trans ?_
      exact hstarted.submitted.symm
    · rw [hlist] at hother
      exact absurd hother List.not_mem_nil
    · have hright := hstarted.right
      simp only [hmax] at hright
      refine hright.trans (and_congr_right fun _ => iff_of_true (fun hreplaying => ?_) trivial)
      exact absurd (hreplaying.symm.trans h.idle) (by decide)

theorem HaltEp.Kept.event (h : s.Kept) {event : HaltEvent} (hdistinct : Distinct s event) :
    s.Step (s.event event) event := by
  cases event with
  | setFeature wValue => exact h.setFeature wValue
  | clearFeature wValue => exact h.clearFeature wValue
  | submit r => exact h.submit hdistinct

/-- A run, by induction on its events. -/
theorem HaltEp.Kept.run (h : s.Kept) (ep : Uep) (events : List HaltEvent)
    (hdistinct : (haltObject ep).Meets Distinct s events) :
    ((haltObject ep).run s events).1.Kept ∧
      (((haltObject ep).run s events).1.Right s.ep.maxPacket ↔
        s.Right s.ep.maxPacket ∧ (haltObject ep).Meets FitsWhenStarted s events) := by
  induction events generalizing s with
  | nil => exact ⟨h, (and_iff_left trivial).symm⟩
  | cons event events ih =>
    obtain ⟨hevent, hrest⟩ := hdistinct
    obtain ⟨hkept, hmax, hright⟩ := h.event hevent
    obtain ⟨hlast, hall⟩ := ih hkept hrest
    refine ⟨hlast, ?_⟩
    rw [hmax] at hall
    refine hall.trans ((and_congr_left fun _ => hright).trans ?_)
    exact and_assoc

/-- In every run of SET_FEATURE, CLEAR_FEATURE and requests on distinct objects: the requests are
served, each in its turn, with none started while the endpoint is stalled and none waiting while
it is not, exactly if those that had to wait fit when they are started. -/
theorem halted_requests_iff (ep : Uep) (events : List HaltEvent)
    (hdistinct : (haltObject ep).Meets Distinct (haltObject ep).init events) :
    ((haltObject ep).run (haltObject ep).init events).1.Served ep.maxPacket ↔
      (haltObject ep).Meets FitsWhenStarted (haltObject ep).init events := by
  have hinit : (haltObject ep).init.Kept :=
    ⟨rfl, fun _ => rfl, fun start hstart => absurd hstart List.not_mem_nil, rfl, rfl,
      fun r hr => absurd hr List.not_mem_nil⟩
  obtain ⟨hkept, hright⟩ := hinit.run ep events hdistinct
  have hright := hright.trans
    (and_iff_right fun start hstart => absurd hstart List.not_mem_nil)
  constructor
  · intro hserved
    exact hright.mp hserved.right
  · intro hfits
    exact ⟨hkept.inOrder, hkept.empty, hkept.unstalled, hright.mpr hfits⟩

/-- Two requests wait: the endpoint's own, and a read of the same size. -/
theorem halted_requests_iff_two :
    let ep : Uep := ⟨false, 8, ⟨.readBest, none, 0, 0⟩, false, []⟩
    let events : List HaltEvent := [.setFeature 0, .submit ⟨.own, ⟨.readFull, some 0, 20, 0⟩⟩,
      .submit ⟨.other 1, ⟨.readFull, some 40, 20, 0⟩⟩, .clearFeature 0]
    ((haltObject ep).run (haltObject ep).init events).1.Served 8 :=
  (halted_requests_iff _ _ (by decide)).mpr (by decide)

/-- A write of 20 bytes at 100 waits at an endpoint whose own request has 4 bytes at 0: what is
started is a packet of these 4 bytes. -/
theorem halted_requests_mixedUp :
    let ep : Uep := ⟨true, 8, ⟨.write, some 0, 4, 0⟩, false, []⟩
    let events : List HaltEvent := [.setFeature 0,
      .submit ⟨.other 1, ⟨.write, some 100, 20, 0⟩⟩, .clearFeature 0]
    (haltObject ep).Meets Distinct (haltObject ep).init events ∧
      ((haltObject ep).run (haltObject ep).init events).1.starts.map Start.ops =
        [[.epWrite (some 0) 4]] ∧
      ¬((haltObject ep).run (haltObject ep).init events).1.Served 8 := by
  refine ⟨by decide, by decide, fun hserved => ?_⟩
  have hright := hserved.right _ List.mem_cons_self rfl
  exact absurd hright.1 (by decide)

end RtVcom.Usb
