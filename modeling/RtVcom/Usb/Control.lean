import RtVcom.Usb.Configuration

/-!
# Control requests

Two laws of `_setup_request`, over every setup packet and every reachable device. A request is
answered exactly once: one data stage, one status stage or one stall of endpoint 0. And a request
never uses the answer of a lookup that failed, and leaves every interface with a setting.

The source misses both. Some branches answer nothing at all (a feature that the device does not
know, `USB_REQ_SYNCH_FRAME`, requests that the function's handler lists without a body, most
vendor requests), and `_get_interface`, `_set_interface` and the endpoint requests use the
interface, the setting or the endpoint that they looked up without a test. `Answers` and `LooksUp`
are the exact conditions on the packet and the device, branch by branch of the dispatch.
-/

namespace RtVcom.Usb

open RtVcom.Kernel RtVcom.Lib RtVcom.Lib.Machine

/-! ## Answers -/

/-- A data stage, a status stage or a stall of endpoint 0. -/
def DcdCall.isAnswer : DcdCall → Bool
  | .ep0Write _ _ => true
  | .ep0Read _ => true
  | .ep0SendStatus => true
  | .epSetStall address => address == 0x00 || address == 0x80
  | _ => false

/-- The answers that were given. -/
def Udevice.answers (s : Udevice) : Nat := s.calls.countP DcdCall.isAnswer

/-- A handler that comes to its end with one more answer. -/
def AnsweredOnce (s : Udevice) (o : Outcome) : Prop :=
  ∃ t, o = .ok t ∧ t.answers = s.answers + 1

/-- A request that returns is answered once if one answer came in. -/
theorem answeredOnce_ok {s t : Udevice} : AnsweredOnce s (.ok t) ↔ t.answers = s.answers + 1 := by
  constructor
  · rintro ⟨u, h, hu⟩
    cases h
    exact hu
  · exact fun h => ⟨t, rfl, h⟩

theorem not_answeredOnce_error {s : Udevice} {f : Fault × Udevice} :
    ¬AnsweredOnce s (.error f) := by
  rintro ⟨u, h, _⟩
  cases h

/-- A handler that leaves the calls alone has answered nothing. -/
theorem not_answeredOnce_same {s t : Udevice} (h : t.answers = s.answers) :
    ¬AnsweredOnce s (.ok t) := by
  rw [answeredOnce_ok, h]
  exact Nat.ne_of_lt (Nat.lt_succ_self _)

/-- A call of the driver counts where it is an answer. -/
theorem answers_call (s : Udevice) (c : DcdCall) :
    (s.call c).answers = s.answers + if c.isAnswer then 1 else 0 := by
  rw [Udevice.answers, Udevice.call, List.countP_append, List.countP_singleton]
  rfl

/-- One call that is an answer. -/
theorem answers_call_answer (s : Udevice) {c : DcdCall} (h : c.isAnswer = true) :
    (s.call c).answers = s.answers + 1 := by
  rw [answers_call, if_pos h]

theorem answers_call_other (s : Udevice) {c : DcdCall} (h : c.isAnswer = false) :
    (s.call c).answers = s.answers := by
  rw [answers_call, h]
  rfl

section Answered

variable (s : Udevice)

theorem answers_ep0SetStall : (ep0SetStall s).answers = s.answers + 1 := answers_call_answer s rfl

theorem answers_ep0SendStatus : (ep0SendStatus s).answers = s.answers + 1 :=
  answers_call_answer s rfl

theorem answers_ep0Write (data : Ep0Data) (size : Nat) :
    (ep0Write s data size).answers = s.answers + 1 :=
  answers_call_answer { s with ep0 := _ } rfl

theorem answers_ep0Read (size : Nat) : (ep0Read s size).answers = s.answers + 1 :=
  answers_call_answer { s with ep0 := _ } rfl

theorem answeredOnce_ep0SetStall : AnsweredOnce s (.ok (ep0SetStall s)) :=
  ⟨_, rfl, answers_ep0SetStall s⟩

theorem answeredOnce_ep0Write (data : Ep0Data) (size : Nat) :
    AnsweredOnce s (.ok (ep0Write s data size)) :=
  ⟨_, rfl, answers_ep0Write s data size⟩

end Answered

/-! ## Requests to the device -/

/-- No feature of the device is known, and only endpoint 0 is stalled for one; the string for
operating systems is not in the table. -/
def DeviceAnswers (setup : Urequest) : Prop :=
  (setup.bRequest = 0x03 →
    setup.wValue = 0 ∧ (lowByte setup.wIndex = 0x00 ∨ lowByte setup.wIndex = 0x80)) ∧
  (setup.bRequest = 0x06 → setup.requestType = 0x80 → setup.wValue >>> 8 = 0x03 →
    lowByte setup.wValue ≠ 0x06 ∧ lowByte setup.wValue ≠ 0xEE)

theorem answers_append_other (s : Udevice) {l : List DcdCall} (h : ∀ c ∈ l, c.isAnswer = false) :
    ({ s with calls := s.calls ++ l } : Udevice).answers = s.answers := by
  have hzero : l.countP DcdCall.isAnswer = 0 :=
    List.countP_eq_zero.mpr fun c hc hans => absurd (h c hc) (by rw [hans]; nofun)
  rw [Udevice.answers, List.countP_append, hzero]
  rfl

/-- An endpoint with its requests gives no answer. -/
theorem answers_perform (s : Udevice) (e : VcomEp) (result : Uep × List UsbOp) :
    (s.perform e result).answers = s.answers := by
  refine answers_append_other (s.setEp e _) fun c hc => ?_
  obtain ⟨op, _, hop⟩ := List.mem_filterMap.mp hc
  cases op with
  | epWrite buffer size => cases hop; rfl
  | epReadPrepare buffer size => cases hop; rfl
  | completionDone => cases hop

/-- Enabling the function gives no answer. -/
theorem answers_funcEnable (malloc : Option Nat) (s : Udevice) :
    (funcEnable malloc s).answers = s.answers := by
  unfold funcEnable
  split
  · exact answers_perform (Udevice.setEp { s with connected := false, inSending := false } _ _) _ _
  · rfl

/-- Restarting its endpoints gives no answer. -/
theorem answers_restarts (s : Udevice) (epList : List VcomEp) :
    ({ s with calls := s.calls ++ restarts s epList } : Udevice).answers = s.answers := by
  refine answers_append_other s fun c hc => ?_
  obtain ⟨e, _, hc⟩ := List.mem_flatMap.mp hc
  rcases List.mem_cons.mp hc with rfl | hc
  · rfl
  · rcases List.mem_singleton.mp hc with rfl
    rfl

/-- Clearing a feature gives no answer. -/
theorem answers_clearFeature (s : Udevice) (value index : BitVec 16) :
    (clearFeature s value index).answers = s.answers := by
  unfold clearFeature
  split
  · rfl
  split
  · exact answers_call_other s rfl
  · rfl

/-- SET_CONFIGURATION answers in every branch. -/
theorem answeredOnce_setConfig {s : Udevice} (hcdc : Cdc s) (malloc : Option Nat)
    (setup : Urequest) : AnsweredOnce s (setConfig malloc s setup) := by
  unfold setConfig
  split
  · exact answeredOnce_ep0SetStall s
  split
  · exact ⟨_, rfl, answers_ep0SendStatus { s with state := .address }⟩
  · rw [hcdc.intfList, restartInterfaces_eq]
    refine ⟨_, rfl, (answers_ep0SendStatus _).trans ?_⟩
    refine congrArg (· + 1) ((answers_funcEnable malloc _).trans ?_)
    exact (answers_restarts _ _).trans (answers_call_other s rfl)

/-- The string for operating systems has two names. -/
theorem stringIndex_eq_os {setup : Urequest} :
    stringIndex setup = 0x06 ↔ lowByte setup.wValue = 0x06 ∨ lowByte setup.wValue = 0xEE := by
  unfold stringIndex
  by_cases hee : lowByte setup.wValue = 0xEE
  · simp only [hee, if_true, or_true]
  · simp only [hee, if_false, or_false]
    exact ⟨fun h => BitVec.eq_of_toNat_eq h, fun h => by rw [h]; rfl⟩

/-- The only string below the limit that the table does not have is that one. -/
theorem answeredOnce_getStringDescriptor (s : Udevice) (setup : Urequest) :
    AnsweredOnce s (getStringDescriptor s setup) ↔
      lowByte setup.wValue ≠ 0x06 ∧ lowByte setup.wValue ≠ 0xEE := by
  rw [← not_or, ← stringIndex_eq_os]
  unfold getStringDescriptor
  generalize stringIndex setup = index
  dsimp only
  constructor
  · rintro h rfl
    exact not_answeredOnce_error h
  · intro hne
    split
    · exact answeredOnce_ep0SetStall s
    next hle =>
    split
    · exact answeredOnce_ep0Write s _ _
    split
    · next hnone =>
      have hlen : 6 ≤ index := List.getElem?_eq_none_iff.mp hnone
      exact absurd (Nat.le_antisymm (Nat.le_of_not_lt hle) hlen) hne
    · exact answeredOnce_ep0Write s _ _

/-- `GET_DESCRIPTOR` is answered but for two strings. -/
theorem answeredOnce_getDescriptor (s : Udevice) (setup : Urequest) :
    AnsweredOnce s (getDescriptor s setup) ↔
      (setup.requestType = 0x80 → setup.wValue >>> 8 = 0x03 →
        lowByte setup.wValue ≠ 0x06 ∧ lowByte setup.wValue ≠ 0xEE) := by
  unfold getDescriptor
  by_cases hstr : setup.requestType = 0x80 ∧ setup.wValue >>> 8 = 0x03
  · obtain ⟨htype, hvalue⟩ := hstr
    simp only [htype, hvalue, if_true, forall_const]
    exact answeredOnce_getStringDescriptor s setup
  · refine iff_of_true ?_ fun htype hvalue => absurd ⟨htype, hvalue⟩ hstr
    split
    · next htype =>
      split
      · exact answeredOnce_ep0Write s _ _
      split
      · exact answeredOnce_ep0Write s _ _
      split
      · next hvalue => exact absurd ⟨htype, hvalue⟩ hstr
      split
      · exact answeredOnce_ep0SetStall s
      split
      · exact answeredOnce_ep0Write s _ _
      · exact answeredOnce_ep0SetStall s
    · exact answeredOnce_ep0SetStall s

/-- `SET_FEATURE` is answered once for the halt of endpoint 0. -/
theorem answeredOnce_setFeature (s : Udevice) (value index : BitVec 16) :
    AnsweredOnce s (.ok (setFeature s value index)) ↔
      value = 0 ∧ (lowByte index = 0x00 ∨ lowByte index = 0x80) := by
  unfold setFeature
  split
  · next hone =>
    rw [hone]
    exact iff_of_false (not_answeredOnce_same rfl) fun h => absurd h.1 (by decide)
  split
  · next hzero =>
    have hans : (DcdCall.epSetStall (lowByte index)).isAnswer = true ↔
        lowByte index = 0x00 ∨ lowByte index = 0x80 := by
      rw [DcdCall.isAnswer, Bool.or_eq_true, beq_iff_eq, beq_iff_eq]
    rw [answeredOnce_ok, answers_call, ← hans]
    by_cases hc : (DcdCall.epSetStall (lowByte index)).isAnswer = true
    · rw [if_pos hc]
      exact iff_of_true rfl ⟨hzero, hc⟩
    · rw [if_neg hc]
      exact iff_of_false (Nat.ne_of_lt (Nat.lt_succ_self _)) fun h => hc h.2
  · next hzero => exact iff_of_false (not_answeredOnce_same rfl) fun h => hzero h.1

/-- A request of the device is answered once exactly where the table says so. -/
theorem answeredOnce_deviceRequest {s : Udevice} (hcdc : Cdc s) (malloc : Option Nat)
    (setup : Urequest) :
    AnsweredOnce s (deviceRequest malloc s setup) ↔ DeviceAnswers setup := by
  unfold DeviceAnswers
  by_cases h3 : setup.bRequest = 0x03
  · simp only [deviceRequest, h3, BitVec.reduceEq, if_true, if_false, forall_const,
      false_imp_iff, and_true]
    exact answeredOnce_setFeature s _ _
  by_cases h6 : setup.bRequest = 0x06
  · simp only [deviceRequest, h6, BitVec.reduceEq, if_true, if_false, forall_const,
      false_imp_iff, true_and]
    exact answeredOnce_getDescriptor s setup
  refine iff_of_true ?_ ⟨fun h => absurd h h3, fun h => absurd h h6⟩
  unfold deviceRequest
  rw [if_neg h3, if_neg h6]
  split
  · exact answeredOnce_ep0Write s _ _
  split
  · refine ⟨_, rfl, (answers_ep0SendStatus _).trans ?_⟩
    rw [answers_clearFeature]
  split
  · refine ⟨_, rfl, (answers_ep0SendStatus _).trans ?_⟩
    exact congrArg (· + 1) (answers_call_other s rfl)
  split
  · exact answeredOnce_ep0SetStall s
  split
  · exact answeredOnce_ep0Write s _ _
  split
  · exact answeredOnce_setConfig hcdc malloc setup
  · exact answeredOnce_ep0SetStall s

/-! ## Requests to an interface -/

/-- The requests that the function's handler lists without a body: those of the encapsulated
commands and features, and SEND_BREAK. -/
def Unhandled (bRequest : BitVec 8) : Prop :=
  (bRequest = 0x00 ∨ bRequest = 0x01 ∨ bRequest = 0x02 ∨ bRequest = 0x03 ∨ bRequest = 0x04) ∨
    bRequest = 0x23

instance (bRequest : BitVec 8) : Decidable (Unhandled bRequest) :=
  inferInstanceAs (Decidable (_ ∨ _))

/-- The requests of the line: SET_LINE_CODING, GET_LINE_CODING and SET_CONTROL_LINE_STATE. -/
def OfLine (bRequest : BitVec 8) : Prop := bRequest = 0x20 ∨ bRequest = 0x21 ∨ bRequest = 0x22

/-- What the function's handler does, by the request. -/
theorem interfaceHandler_answers (s : Udevice) (setup : Urequest) :
    (Unhandled setup.bRequest ∧ interfaceHandler s setup = (s, rtEok)) ∨
      (OfLine setup.bRequest ∧ (interfaceHandler s setup).2 = rtEok ∧
        (interfaceHandler s setup).1.answers = s.answers + 1) ∨
      (¬Unhandled setup.bRequest ∧ ¬OfLine setup.bRequest ∧
        interfaceHandler s setup = (s, -rtError)) := by
  unfold interfaceHandler
  split
  · next h => exact .inl ⟨.inl h, rfl⟩
  next hno =>
  split
  · next h => exact .inr (.inl ⟨.inl h, rfl, answers_ep0Read s 7⟩)
  next h20 =>
  split
  · next h => exact .inr (.inl ⟨.inr (.inl h), rfl, answers_ep0Write s _ _⟩)
  next h21 =>
  split
  · next h =>
    exact .inr (.inl ⟨.inr (.inr h), rfl, answers_ep0SendStatus { s with connected := _ }⟩)
  next h22 =>
  split
  · next h => exact .inl ⟨.inr h, rfl⟩
  next h23 =>
  exact .inr (.inr ⟨not_or.mpr ⟨hno, h23⟩, not_or.mpr ⟨h20, not_or.mpr ⟨h21, h22⟩⟩, rfl⟩)

/-- A line request is not one of those without a body. -/
theorem not_unhandled_of_ofLine {bRequest : BitVec 8} (h : OfLine bRequest) :
    ¬Unhandled bRequest := by
  rcases h with rfl | rfl | rfl
  · decide
  · decide
  · decide

/-- GET_INTERFACE and SET_INTERFACE of a configured device name an interface, and its setting;
other requests are not among those without a body, where they reach the function at all. -/
def InterfaceAnswers (s : Udevice) (setup : Urequest) : Prop :=
  if setup.bRequest = 0x0A then s.state = .configured → IsInterface (lowByte setup.wIndex)
  else if setup.bRequest = 0x0B then
    s.state = .configured → IsInterface (lowByte setup.wIndex) ∧ lowByte setup.wValue = 0
  else IsInterface (lowByte setup.wIndex) → ¬Unhandled setup.bRequest

section Interface

variable {s : Udevice} (hcdc : Cdc s) (setup : Urequest)
include hcdc

/-- `GET_INTERFACE` is answered unless a configured device does not find its interface. -/
theorem answeredOnce_getInterface :
    AnsweredOnce s (getInterface s setup) ↔
      (s.state = .configured → IsInterface (lowByte setup.wIndex)) := by
  by_cases hstate : s.state = .configured
  · rw [hcdc.getInterface_eq hstate]
    simp only [hstate, forall_const]
    split
    · next hi => exact iff_of_true (answeredOnce_ep0Write s _ _) hi
    · next hi => exact iff_of_false not_answeredOnce_error hi
  · rw [getInterface, if_pos hstate]
    exact iff_of_true (answeredOnce_ep0SetStall s) fun h => absurd h hstate

/-- `SET_INTERFACE` is answered unless a configured device finds no interface with the setting
asked for. -/
theorem answeredOnce_setInterface :
    AnsweredOnce s (setInterface s setup) ↔
      (s.state = .configured →
        IsInterface (lowByte setup.wIndex) ∧ lowByte setup.wValue = 0) := by
  by_cases hstate : s.state = .configured
  · rw [hcdc.setInterface_eq hstate]
    simp only [hstate, forall_const]
    cases hs : settingOf (lowByte setup.wIndex) with
    | none => exact iff_of_false not_answeredOnce_error fun h => settingOf_eq_none.mp hs h.1
    | some setting =>
      by_cases hv : lowByte setup.wValue = 0
      · simp only [hv, if_true]
        refine iff_of_true ⟨_, rfl, (answers_ep0SendStatus _).trans ?_⟩ ⟨?_, trivial⟩
        · rw [restartEndpoints_eq, answers_restarts]
        · exact isInterface_of_settingOf hs
      · simp only [hv, if_false, and_false]
        exact iff_of_false not_answeredOnce_error id
  · rw [setInterface, if_pos hstate]
    exact iff_of_true (answeredOnce_ep0SetStall s) fun h => absurd h hstate

/-- A request of an interface is answered once exactly where the table says so. -/
theorem answeredOnce_interfaceRequest :
    AnsweredOnce s (interfaceRequest s setup) ↔ InterfaceAnswers s setup := by
  unfold interfaceRequest InterfaceAnswers
  by_cases ha : setup.bRequest = 0x0A
  · rw [if_pos ha, if_pos ha]
    exact answeredOnce_getInterface hcdc setup
  rw [if_neg ha, if_neg ha]
  by_cases hb : setup.bRequest = 0x0B
  · rw [if_pos hb, if_pos hb]
    exact answeredOnce_setInterface hcdc setup
  rw [if_neg hb, if_neg hb]
  unfold requestInterface
  rw [hcdc.findInterface_eq]
  cases hs : settingOf (lowByte setup.wIndex) with
  | none =>
    refine iff_of_true ?_ fun hi => absurd hi (settingOf_eq_none.mp hs)
    exact answeredOnce_ep0SetStall s
  | some setting =>
    have hi := isInterface_of_settingOf hs
    simp only [Option.map_some]
    obtain ⟨hun, heq⟩ | ⟨hline, hret, hans⟩ | ⟨hun, _, heq⟩ := interfaceHandler_answers s setup
    · rw [heq]
      exact iff_of_false (not_answeredOnce_same rfl) fun h => h hi hun
    · rw [if_neg (not_not_intro hret), answeredOnce_ok]
      exact iff_of_true hans fun _ => not_unhandled_of_ofLine hline
    · rw [heq]
      exact iff_of_true (answeredOnce_ep0SetStall s) fun _ => hun

end Interface

/-! ## Requests to an endpoint -/

/-- The endpoint of a request is there; a halt is cleared where there is one, and no other feature
is set or cleared. -/
def EndpointAnswers (s : Udevice) (setup : Urequest) : Prop :=
  if setup.bRequest = 0x00 then endpointOf (lowByte setup.wIndex) ≠ none
  else if setup.bRequest = 0x01 then
    setup.wValue = 0 ∧ ∃ e, endpointOf (lowByte setup.wIndex) = some e ∧ (s.ep e).stalled = true
  else if setup.bRequest = 0x03 then setup.wValue = 0 ∧ endpointOf (lowByte setup.wIndex) ≠ none
  else setup.bRequest ≠ 0x0C

/-- Firing the requests of an endpoint gives no answer. -/
theorem answers_fireRequests (s : Udevice) (e : VcomEp) :
    (fireRequests s e).answers = s.answers := by
  unfold fireRequests
  dsimp only
  split
  · rfl
  · exact answers_perform s e _

/-- The endpoints of the function are other ones than endpoint 0. -/
theorem lowByte_ne_of_endpointOf {index : BitVec 16} {e : VcomEp}
    (h : endpointOf (lowByte index) = some e) : ¬(lowByte index = 0x00 ∨ lowByte index = 0x80) := by
  rintro (h0 | h0)
  · rw [h0] at h
    cases h
  · rw [h0] at h
    cases h

theorem answers_setFeature_endpoint (s : Udevice) {value index : BitVec 16} {e : VcomEp}
    (h : endpointOf (lowByte index) = some e) : (setFeature s value index).answers = s.answers := by
  unfold setFeature
  split
  · rfl
  split
  · refine answers_call_other s ?_
    obtain ⟨h0, h80⟩ := not_or.mp (lowByte_ne_of_endpointOf h)
    rw [DcdCall.isAnswer, beq_eq_false_iff_ne.mpr h0, beq_eq_false_iff_ne.mpr h80]
    rfl
  · rfl

section Endpoint

variable {s : Udevice} (hcdc : Cdc s) (setup : Urequest)
include hcdc

/-- `GET_STATUS` of an endpoint is answered where the endpoint is found. -/
theorem answeredOnce_endpointGetStatus :
    AnsweredOnce s (endpointGetStatus s setup) ↔ endpointOf (lowByte setup.wIndex) ≠ none := by
  rw [endpointGetStatus, hcdc.findEndpoint_eq]
  cases endpointOf (lowByte setup.wIndex) with
  | none => exact iff_of_false not_answeredOnce_error fun h => h rfl
  | some e => exact iff_of_true (answeredOnce_ep0Write s _ _) (Option.some_ne_none e)

/-- Clearing the halt is answered where the endpoint is stalled. -/
theorem answeredOnce_endpointClearFeature :
    AnsweredOnce s (endpointClearFeature s setup) ↔
      setup.wValue = 0 ∧
        ∃ e, endpointOf (lowByte setup.wIndex) = some e ∧ (s.ep e).stalled = true := by
  rw [endpointClearFeature, hcdc.findEndpoint_eq]
  cases endpointOf (lowByte setup.wIndex) with
  | none =>
    refine iff_of_false ?_ ?_
    · dsimp only
      split
      · exact not_answeredOnce_error
      · exact not_answeredOnce_same rfl
    · rintro ⟨-, e, he, -⟩
      cases he
  | some e =>
    dsimp only
    split
    · next h =>
      refine iff_of_true ⟨_, rfl, (answers_fireRequests _ e).trans ?_⟩ ⟨h.1, e, rfl, h.2⟩
      refine (answers_ep0SendStatus _).trans ?_
      rw [answers_clearFeature]
    · next h =>
      refine iff_of_false (not_answeredOnce_same rfl) ?_
      rintro ⟨hv, e', he, hst⟩
      cases he
      exact h ⟨hv, hst⟩

/-- Setting the halt is answered where the endpoint is found. -/
theorem answeredOnce_endpointSetFeature :
    AnsweredOnce s (endpointSetFeature s setup) ↔
      setup.wValue = 0 ∧ endpointOf (lowByte setup.wIndex) ≠ none := by
  unfold endpointSetFeature
  split
  · next hv =>
    rw [hcdc.findEndpoint_eq]
    cases he : endpointOf (lowByte setup.wIndex) with
    | none => exact iff_of_false not_answeredOnce_error fun h => h.2 rfl
    | some e =>
      refine iff_of_true ⟨_, rfl, (answers_ep0SendStatus _).trans ?_⟩ ⟨hv, nofun⟩
      rw [answers_setFeature_endpoint _ he]
      rfl
  · next hv => exact iff_of_false (not_answeredOnce_same rfl) fun h => hv h.1

/-- A request of an endpoint is answered once exactly where the table says so. -/
theorem answeredOnce_endpointRequest :
    AnsweredOnce s (endpointRequest s setup) ↔ EndpointAnswers s setup := by
  unfold endpointRequest EndpointAnswers
  split
  · exact answeredOnce_endpointGetStatus hcdc setup
  split
  · exact answeredOnce_endpointClearFeature hcdc setup
  split
  · exact answeredOnce_endpointSetFeature hcdc setup
  split
  · next h => exact iff_of_false (not_answeredOnce_same rfl) fun hne => hne h
  · next h => exact iff_of_true (answeredOnce_ep0SetStall s) h

end Endpoint

/-! ## Class and vendor requests -/

/-- A class request that is not refused by its index is one of the line, for an interface; the
index 2, which the test lets pass, finds no interface. -/
def FunctionAnswers (setup : Urequest) : Prop :=
  setup.wIndex.toNat ≤ 2 → setup.recipient ≠ 0x02 ∧
    (setup.recipient = 0x01 → setup.wIndex.toNat ≤ 1 → OfLine setup.bRequest)

/-- The one vendor request that is answered asks for the compatible ids. -/
def VendorAnswers (setup : Urequest) : Prop := setup.bRequest = 0x41 ∧ setup.wIndex = 0x04

/-- Within the count of interfaces the index names an interface, or is the count. -/
theorem isInterface_iff_of_le {index : BitVec 16} (h : index.toNat ≤ 2) :
    IsInterface (lowByte index) ↔ index.toNat ≤ 1 := by
  have hlow : (lowByte index).toNat = index.toNat := by
    rw [lowByte, BitVec.toNat_setWidth]
    omega
  unfold IsInterface
  constructor
  · rintro (h0 | h1)
    · rw [h0] at hlow
      exact Nat.le_trans (Nat.le_of_eq hlow.symm) (by decide)
    · rw [h1] at hlow
      exact Nat.le_of_eq hlow.symm
  · intro hle
    rcases Nat.le_one_iff_eq_zero_or_eq_one.mp hle with h0 | h1
    · exact .inl (BitVec.eq_of_toNat_eq (hlow.trans h0))
    · exact .inr (BitVec.eq_of_toNat_eq (hlow.trans h1))

theorem answeredOnce_functionRequest {s : Udevice} (hcdc : Cdc s) (setup : Urequest) :
    AnsweredOnce s (.ok (functionRequest s setup)) ↔ FunctionAnswers setup := by
  unfold functionRequest FunctionAnswers
  rw [hcdc.intfList]
  split
  · next hgt =>
    refine iff_of_true (answeredOnce_ep0SetStall s) fun hle => absurd hle (Nat.not_le_of_lt hgt)
  next hle =>
  have hle : setup.wIndex.toNat ≤ 2 := Nat.le_of_not_lt hle
  simp only [hle, forall_const]
  split
  · next hrec =>
    rw [hcdc.findInterface_eq]
    simp only [hrec, ne_eq, BitVec.reduceEq, not_false_eq_true, true_and, forall_const]
    cases hs : settingOf (lowByte setup.wIndex) with
    | none =>
      refine iff_of_true (answeredOnce_ep0SetStall s) fun h1 => ?_
      exact absurd ((isInterface_iff_of_le hle).mpr h1) (settingOf_eq_none.mp hs)
    | some setting =>
      have h1 := (isInterface_iff_of_le hle).mp (isInterface_of_settingOf hs)
      simp only [Option.map_some, h1, forall_const]
      obtain ⟨hun, heq⟩ | ⟨hline, _, hans⟩ | ⟨_, hnl, heq⟩ := interfaceHandler_answers s setup
      · rw [heq]
        refine iff_of_false (not_answeredOnce_same rfl) fun h => not_unhandled_of_ofLine h hun
      · exact iff_of_true ⟨_, rfl, hans⟩ hline
      · rw [heq]
        exact iff_of_false (not_answeredOnce_same rfl) hnl
  next hrec =>
  split
  · next h2 => exact iff_of_false (not_answeredOnce_same rfl) fun h => h.1 h2
  · next h2 => exact iff_of_true (answeredOnce_ep0SetStall s) ⟨h2, fun h => absurd h hrec⟩

theorem answeredOnce_vendorRequest (s : Udevice) (setup : Urequest) :
    AnsweredOnce s (.ok (vendorRequest s setup)) ↔ VendorAnswers setup := by
  unfold vendorRequest VendorAnswers
  split
  · next h41 =>
    split
    · next h4 => exact iff_of_true (answeredOnce_ep0SetStall s) ⟨h41, h4⟩
    next h4 =>
    refine iff_of_false ?_ fun h => h4 h.2
    split
    · split
      · have heq : (interfaceHandler s setup).1 = s := by
          simp only [interfaceHandler, h41, BitVec.reduceEq, or_self, if_false]
        rw [heq]
        exact not_answeredOnce_same rfl
      · exact not_answeredOnce_same rfl
    · exact not_answeredOnce_same rfl
  · next h41 => exact iff_of_false (not_answeredOnce_same rfl) fun h => h41 h.1

/-! ## Every request -/

/-- The condition under which a setup packet is answered once, along the dispatch of
`_setup_request`. -/
def Answers (s : Udevice) (setup : Urequest) : Prop :=
  if setup.type = 0x00 then
    if setup.recipient = 0x00 then DeviceAnswers setup
    else if setup.recipient = 0x01 then InterfaceAnswers s setup
    else if setup.recipient = 0x02 then EndpointAnswers s setup
    else True
  else if setup.type = 0x20 then FunctionAnswers setup
  else if setup.type = 0x40 then VendorAnswers setup
  else True

/-- A setup packet is answered exactly once where `Answers` says so, and nowhere else. -/
theorem setupRequest_answered_once_iff {s : Udevice} (h : usbSystem.Reach Machine.any s)
    (malloc : Option Nat) (setup : Urequest) :
    AnsweredOnce s (setupRequest malloc s setup) ↔ Answers s setup := by
  have hcdc := cdc_of_reach h
  unfold setupRequest Answers
  split
  · unfold standardRequest
    split
    · exact answeredOnce_deviceRequest hcdc malloc setup
    split
    · exact answeredOnce_interfaceRequest hcdc setup
    split
    · exact answeredOnce_endpointRequest hcdc setup
    · exact iff_of_true (answeredOnce_ep0SetStall s) trivial
  split
  · exact answeredOnce_functionRequest hcdc setup
  split
  · exact answeredOnce_vendorRequest s setup
  · exact iff_of_true (answeredOnce_ep0SetStall s) trivial

/-- GET_INTERFACE of the data interface, asked of a configured device. -/
theorem getInterface_answered_once :
    ∃ s, (usbSystem.Reach Machine.any s ∧ s.state = .configured) ∧
      AnsweredOnce s (setupRequest none s (setupPacket 0x81 0x0A 0 1)) := by
  obtain ⟨s, h, hstate⟩ := exists_reach_of_run usbSystem Machine.any [setConfiguration]
    (fun s => s.state = .configured) (by decide)
  refine ⟨s, ⟨h, hstate⟩, (setupRequest_answered_once_iff h none _).mpr ?_⟩
  exact fun _ => .inr rfl

/-- SET_FEATURE of the remote wake-up is taken and never answered. -/
theorem setFeature_not_answered :
    ¬∀ s malloc setup, usbSystem.Reach Machine.any s →
      AnsweredOnce s (setupRequest malloc s setup) := by
  intro hall
  have hans := hall cdcDevice none (setupPacket 0x00 0x03 1 0) .init
  exact not_answeredOnce_same rfl hans

/-! ## Lookups -/

/-- The device behind a handler, also behind one that ran into a fault. -/
def behind : Outcome → Udevice
  | .ok t => t
  | .error (_, u) => u

/-- SET_INTERFACE that names an unknown interface, or an unknown setting of one. -/
def Urequest.NamesUnknown (setup : Urequest) (s : Udevice) : Prop :=
  setup.type = 0x00 ∧ setup.recipient = 0x01 ∧ setup.bRequest = 0x0B ∧
    ∀ intf, findInterface s (lowByte setup.wIndex) = some intf →
      findAltsetting intf (lowByte setup.wValue) = none

/-- No failed lookup is used (the one fault left is the string that is not there), every interface
keeps a setting, and a SET_INTERFACE that names nothing changes none. -/
structure LeavesUsable (s : Udevice) (setup : Urequest) (o : Outcome) : Prop where
  lookups : ∀ f u, o = .error (f, u) → f = .string
  settings : ∀ intf ∈ (behind o).intfList, intf.currSetting ≠ none
  unknown : setup.NamesUnknown s → (behind o).intfList = s.intfList

/-- The interface and the setting of a request are there. -/
def InterfaceFound (s : Udevice) (setup : Urequest) : Prop :=
  if setup.bRequest = 0x0A then s.state = .configured → IsInterface (lowByte setup.wIndex)
  else if setup.bRequest = 0x0B then
    s.state = .configured → IsInterface (lowByte setup.wIndex) ∧ lowByte setup.wValue = 0
  else True

/-- The endpoint of a request is there: of every GET_STATUS, and of the requests for the halt. -/
def EndpointFound (setup : Urequest) : Prop :=
  if setup.bRequest = 0x00 then endpointOf (lowByte setup.wIndex) ≠ none
  else if setup.bRequest = 0x01 ∨ setup.bRequest = 0x03 then
    setup.wValue = 0 → endpointOf (lowByte setup.wIndex) ≠ none
  else True

/-- The condition under which a setup packet uses no failed lookup: the host names what there is,
in the standard requests that do not test it. -/
def LooksUp (s : Udevice) (setup : Urequest) : Prop :=
  if setup.type = 0x00 then
    if setup.recipient = 0x01 then InterfaceFound s setup
    else if setup.recipient = 0x02 then EndpointFound setup
    else True
  else True

/-- A condition that decides between a handler without the fault of a lookup and one with it. -/
structure Decides (cond : Prop) (s : Udevice) (o : Outcome) : Prop where
  safe : cond → ∀ f u, o = .error (f, u) → f = .string ∧ u = s
  fault : ¬cond → ∃ f u, o = .error (f, u) ∧ f ≠ .string

/-- A request that returns decides a condition that holds. -/
theorem Decides.ok {cond : Prop} {s t : Udevice} (h : cond) : Decides cond s (.ok t) := by
  refine ⟨fun _ f u he => ?_, fun hn => absurd h hn⟩
  cases he

/-- A request that fails decides a condition that does not hold. -/
theorem Decides.error {cond : Prop} {s u : Udevice} {f : Fault} (hf : f ≠ .string) (h : ¬cond) :
    Decides cond s (.error (f, u)) :=
  ⟨fun hc => absurd hc h, fun _ => ⟨f, u, rfl, hf⟩⟩

/-- `GET_DESCRIPTOR` looks up no endpoint and no interface. -/
theorem decides_getDescriptor (s : Udevice) (setup : Urequest) :
    Decides True s (getDescriptor s setup) := by
  refine ⟨fun _ f u he => ?_, fun hn => absurd trivial hn⟩
  unfold getDescriptor at he
  split at he
  · split at he
    · cases he
    split at he
    · cases he
    split at he
    · simp only [getStringDescriptor] at he
      split at he
      · cases he
      split at he
      · cases he
      split at he
      · cases he
        exact ⟨rfl, rfl⟩
      · cases he
    split at he
    · cases he
    split at he
    · cases he
    · cases he
  · cases he

section Decides

variable {s : Udevice} (hcdc : Cdc s) (setup : Urequest)
include hcdc

theorem decides_deviceRequest (malloc : Option Nat) :
    Decides True s (deviceRequest malloc s setup) := by
  unfold deviceRequest
  split
  · exact .ok trivial
  split
  · exact .ok trivial
  split
  · exact .ok trivial
  split
  · exact .ok trivial
  split
  · exact decides_getDescriptor s setup
  split
  · exact .ok trivial
  split
  · exact .ok trivial
  split
  · obtain ⟨t, ht, _⟩ := answeredOnce_setConfig hcdc malloc setup
    rw [ht]
    exact .ok trivial
  · exact .ok trivial

/-- A request of an interface returns if the interface is found. -/
theorem decides_interfaceRequest :
    Decides (InterfaceFound s setup) s (interfaceRequest s setup) := by
  unfold interfaceRequest InterfaceFound
  split
  · by_cases hstate : s.state = .configured
    · rw [hcdc.getInterface_eq hstate]
      simp only [hstate, forall_const]
      split
      · next hi => exact .ok hi
      · next hi => exact .error (by decide) hi
    · rw [getInterface, if_pos hstate]
      exact .ok fun h => absurd h hstate
  split
  · by_cases hstate : s.state = .configured
    · rw [hcdc.setInterface_eq hstate]
      simp only [hstate, forall_const]
      cases hs : settingOf (lowByte setup.wIndex) with
      | none => exact .error (by decide) fun h => settingOf_eq_none.mp hs h.1
      | some setting =>
        dsimp only
        split
        · next hv => exact .ok ⟨isInterface_of_settingOf hs, hv⟩
        · next hv => exact .error (by decide) fun h => hv h.2
    · rw [setInterface, if_pos hstate]
      exact .ok fun h => absurd h hstate
  · dsimp only
    split
    · exact .ok trivial
    · exact .ok trivial

/-- A request of an endpoint returns if the endpoint is found. -/
theorem decides_endpointRequest : Decides (EndpointFound setup) s (endpointRequest s setup) := by
  unfold endpointRequest EndpointFound
  by_cases h0 : setup.bRequest = 0x00
  · rw [if_pos h0, if_pos h0, endpointGetStatus, hcdc.findEndpoint_eq]
    cases endpointOf (lowByte setup.wIndex) with
    | none => exact .error (by decide) fun h => h rfl
    | some e => exact .ok (Option.some_ne_none e)
  rw [if_neg h0, if_neg h0]
  by_cases h1 : setup.bRequest = 0x01
  · rw [if_pos (.inl h1), if_pos h1, endpointClearFeature, hcdc.findEndpoint_eq]
    cases endpointOf (lowByte setup.wIndex) with
    | none =>
      dsimp only
      split
      · next hv => exact .error (by decide) fun h => h hv rfl
      · next hv => exact .ok fun h => absurd h hv
    | some e =>
      dsimp only
      split
      · exact .ok fun _ => Option.some_ne_none e
      · exact .ok fun _ => Option.some_ne_none e
  rw [if_neg h1]
  by_cases h3 : setup.bRequest = 0x03
  · rw [if_pos (.inr h3), if_pos h3, endpointSetFeature, hcdc.findEndpoint_eq]
    by_cases hv : setup.wValue = 0
    · rw [if_pos hv]
      cases endpointOf (lowByte setup.wIndex) with
      | none => exact .error (by decide) fun h => h hv rfl
      | some e => exact .ok fun _ => Option.some_ne_none e
    · rw [if_neg hv]
      exact .ok fun h => absurd h hv
  rw [if_neg (not_or.mpr ⟨h1, h3⟩), if_neg h3]
  split
  · exact .ok trivial
  · exact .ok trivial

/-- A standard request returns if what it is addressed to is found. -/
theorem decides_standardRequest (malloc : Option Nat) :
    Decides
      (if setup.recipient = 0x01 then InterfaceFound s setup
        else if setup.recipient = 0x02 then EndpointFound setup else True)
      s (standardRequest malloc s setup) := by
  unfold standardRequest
  by_cases h0 : setup.recipient = 0x00
  · rw [if_pos h0, h0]
    exact decides_deviceRequest hcdc setup malloc
  rw [if_neg h0]
  by_cases h1 : setup.recipient = 0x01
  · rw [if_pos h1, if_pos h1]
    exact decides_interfaceRequest hcdc setup
  rw [if_neg h1, if_neg h1]
  by_cases h2 : setup.recipient = 0x02
  · rw [if_pos h2, if_pos h2]
    exact decides_endpointRequest hcdc setup
  rw [if_neg h2, if_neg h2]
  exact .ok trivial

theorem decides_setupRequest (malloc : Option Nat) :
    Decides (LooksUp s setup) s (setupRequest malloc s setup) := by
  unfold setupRequest LooksUp
  by_cases h0 : setup.type = 0x00
  · rw [if_pos h0, if_pos h0]
    exact decides_standardRequest hcdc setup malloc
  rw [if_neg h0, if_neg h0]
  split
  · exact .ok trivial
  split
  · exact .ok trivial
  · exact .ok trivial

end Decides

/-- Every interface of the function has a setting. -/
theorem Cdc.settings {s : Udevice} (h : Cdc s) : ∀ intf ∈ s.intfList, intf.currSetting ≠ none := by
  intro intf hmem
  rw [h.intfList] at hmem
  rcases List.mem_cons.mp hmem with rfl | hmem
  · nofun
  · rcases List.mem_singleton.mp hmem with rfl
    nofun

/-- The device behind a request that uses no failed lookup has its shape. -/
theorem cdc_behind {s : Udevice} (hcdc : Cdc s) (malloc : Option Nat) {setup : Urequest}
    (h : LooksUp s setup) : Cdc (behind (setupRequest malloc s setup)) := by
  cases ho : setupRequest malloc s setup with
  | ok t => exact (setupRequest_effect hcdc ho).cdc hcdc
  | error f =>
    obtain ⟨f, u⟩ := f
    obtain ⟨_, rfl⟩ := (decides_setupRequest hcdc setup malloc).safe h f u ho
    exact hcdc

/-- A setup packet uses no failed lookup and leaves the device usable where the host names what
there is, and nowhere else. -/
theorem setupRequest_leaves_usable_iff {s : Udevice} (h : usbSystem.Reach Machine.any s)
    (malloc : Option Nat) (setup : Urequest) :
    LeavesUsable s setup (setupRequest malloc s setup) ↔ LooksUp s setup := by
  have hcdc := cdc_of_reach h
  have hdec := decides_setupRequest hcdc setup malloc
  constructor
  · intro hu
    refine Classical.byContradiction fun hn => ?_
    obtain ⟨f, u, he, hf⟩ := hdec.fault hn
    exact hf (hu.lookups f u he)
  · intro hl
    have hb := cdc_behind hcdc malloc hl
    refine ⟨fun f u he => (hdec.safe hl f u he).1, hb.settings, fun _ => ?_⟩
    rw [hb.intfList, hcdc.intfList]

/-- GET_STATUS of the bulk-IN endpoint, asked of a configured device. -/
theorem getStatus_leaves_usable :
    ∃ s, (usbSystem.Reach Machine.any s ∧ s.state = .configured) ∧
      LeavesUsable s (setupPacket 0x82 0x00 0 0x81)
        (setupRequest none s (setupPacket 0x82 0x00 0 0x81)) := by
  obtain ⟨s, h, hstate⟩ := exists_reach_of_run usbSystem Machine.any [setConfiguration]
    (fun s => s.state = .configured) (by decide)
  refine ⟨s, ⟨h, hstate⟩, (setupRequest_leaves_usable_iff h none _).mpr ?_⟩
  exact nofun

/-- SET_INTERFACE with an alternate setting that the data interface does not have: the interface
is left without a setting, and the missing setting is walked for its endpoints. -/
theorem setInterface_loses_setting :
    ¬∀ s malloc setup, usbSystem.Reach Machine.any s →
      LeavesUsable s setup (setupRequest malloc s setup) := by
  intro hall
  obtain ⟨s, h, hstate⟩ := exists_reach_of_run usbSystem Machine.any [setConfiguration]
    (fun s => s.state = .configured) (by decide)
  have hcdc := cdc_of_reach h
  have hu := hall s none (setupPacket 0x01 0x0B 1 1) h
  have ho : setupRequest none s (setupPacket 0x01 0x0B 1 1) =
      .error (.altsetting, s.setCurrSetting 1 none) :=
    @Cdc.setInterface_eq s (setupPacket 0x01 0x0B 1 1) hcdc hstate
  cases hu.lookups _ _ ho

end RtVcom.Usb
