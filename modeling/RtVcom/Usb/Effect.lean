import RtVcom.Usb.Core

/-!
# What a turn of the USB core can do

The device keeps its shape in every run: the interfaces are those of the function and the
endpoints have their addresses (`Cdc`). Within that shape the lookups are computed once.

Most of what the core does leaves alone what a configuration is made of: the state, the flags of
the function, the buffer of the bulk-OUT endpoint and the read that was prepared there. `Quiet` is
that relation between two devices; it is reflexive and transitive, and every helper of the core is
quiet. `usbStep_effect` then names the few events that are not, each with what it changes.
-/

namespace RtVcom.Usb

open RtVcom.Kernel RtVcom.Lib

/-! ## The shape of the device -/

/-- The interfaces of the function with their settings, and the addresses of the endpoints. -/
structure Cdc (s : Udevice) : Prop where
  intfList : s.intfList = cdcInterfaces
  address : ∀ e, (s.ep e).bEndpointAddress = e.address

/-- The one setting of an interface, by its number. -/
def settingOf (value : BitVec 8) : Option Ualtsetting :=
  if value = 0 then some commSetting
  else if value = 1 then some dataSetting
  else none

/-- The numbers of the interfaces. -/
def IsInterface (value : BitVec 8) : Prop := value = 0 ∨ value = 1

instance (value : BitVec 8) : Decidable (IsInterface value) :=
  inferInstanceAs (Decidable (_ ∨ _))

/-- An interface of the function. -/
def cdcInterface (value : BitVec 8) (setting : Ualtsetting) : Uinterface :=
  { intfNum := value, currSetting := some setting, settingList := [setting] }

/-- The endpoint of an address. -/
def endpointOf (epAddr : BitVec 8) : Option VcomEp :=
  if epAddr = 0x82 then some .epCmd
  else if epAddr = 0x81 then some .epIn
  else if epAddr = 0x01 then some .epOut
  else none

section Lookups

variable {s : Udevice}

/-- There are two interfaces, each with one setting. -/
theorem settingOf_cases {value : BitVec 8} {setting : Ualtsetting}
    (h : settingOf value = some setting) :
    (value = 0 ∧ setting = commSetting) ∨ (value = 1 ∧ setting = dataSetting) := by
  unfold settingOf at h
  split at h
  · next h0 =>
    cases h
    exact .inl ⟨h0, rfl⟩
  split at h
  · next h1 =>
    cases h
    exact .inr ⟨h1, rfl⟩
  · cases h

theorem settingOf_eq_none {value : BitVec 8} : settingOf value = none ↔ ¬IsInterface value := by
  unfold settingOf IsInterface
  split
  · next h0 => simp only [h0, reduceCtorEq, true_or, not_true_eq_false]
  split
  · next h1 => simp only [h1, reduceCtorEq, or_true, not_true_eq_false]
  · next h0 h1 => simp only [h0, h1, or_self, not_false_eq_true]

/-- What has a setting is an interface. -/
theorem isInterface_of_settingOf {value : BitVec 8} {setting : Ualtsetting}
    (h : settingOf value = some setting) : IsInterface value := by
  obtain ⟨hv, _⟩ | ⟨hv, _⟩ := settingOf_cases h
  · exact .inl hv
  · exact .inr hv

/-- Every setting is the alternate setting 0. -/
theorem bAlternateSetting_of_settingOf {value : BitVec 8} {setting : Ualtsetting}
    (h : settingOf value = some setting) : setting.bAlternateSetting = 0 := by
  obtain ⟨_, rfl⟩ | ⟨_, rfl⟩ := settingOf_cases h
  · rfl
  · rfl

/-- `rt_usbd_find_interface` on this device. -/
theorem Cdc.findInterface_eq (h : Cdc s) (value : BitVec 8) :
    findInterface s value = (settingOf value).map (cdcInterface value) := by
  rw [findInterface, h.intfList]
  by_cases h0 : value = 0
  · rw [h0]
    rfl
  by_cases h1 : value = 1
  · rw [h1]
    rfl
  · have hnone : settingOf value = none := settingOf_eq_none.mpr (not_or.mpr ⟨h0, h1⟩)
    rw [hnone, Option.map_none, List.find?_eq_none]
    intro intf hmem he
    rcases List.mem_cons.mp hmem with rfl | hmem
    · exact h0 (eq_of_beq he).symm
    · rcases List.mem_singleton.mp hmem with rfl
      exact h1 (eq_of_beq he).symm

/-- `rt_usbd_find_altsetting` on this device. -/
theorem findAltsetting_cdcInterface (value : BitVec 8) (setting : Ualtsetting) (v : BitVec 8) :
    findAltsetting (cdcInterface value setting) v =
      if setting.bAlternateSetting = v then some setting else none := by
  simp only [findAltsetting, cdcInterface, List.find?_cons, List.find?_nil]
  split
  · rfl
  · next hne => rw [beq_eq_false_iff_ne.mpr hne]

/-- The setting of an interface is the one it has. -/
theorem Cdc.setCurrSetting_self (h : Cdc s) {value : BitVec 8} {setting : Ualtsetting}
    (hs : settingOf value = some setting) : s.setCurrSetting value (some setting) = s := by
  have hlist : s.intfList.map (fun intf =>
      if intf.intfNum = value then { intf with currSetting := some setting } else intf) =
        s.intfList := by
    rw [h.intfList]
    obtain ⟨rfl, rfl⟩ | ⟨rfl, rfl⟩ := settingOf_cases hs
    · rfl
    · rfl
  rw [Udevice.setCurrSetting, hlist]

/-- `rt_usbd_find_endpoint` on this device, which has every setting in place. -/
theorem Cdc.findEndpoint_eq (h : Cdc s) (epAddr : BitVec 8) :
    findEndpoint s epAddr = .ok (endpointOf epAddr) := by
  have hcmd : ∀ e a, ((s.ep e).bEndpointAddress == a) = decide (a = e.address) := by
    intro e a
    rw [h.address e, Bool.beq_eq_decide_eq]
    exact decide_eq_decide.mpr eq_comm
  simp only [findEndpoint, h.intfList, cdcInterfaces, findEndpointIn, commSetting, dataSetting,
    List.find?_cons, List.find?_nil, hcmd, VcomEp.address, endpointOf]
  by_cases h2 : epAddr = 0x82
  · simp only [h2, decide_true, if_true]
  · by_cases h1 : epAddr = 0x81
    · simp only [h1, decide_true, if_true]
      rfl
    · by_cases h0 : epAddr = 0x01
      · simp only [h0, decide_true, if_true]
        rfl
      · simp only [h0, h1, h2, decide_false, if_false]

end Lookups

/-! ## Quiet changes -/

/-- Whether a read stands prepared on an endpoint behind one more call: a restart of the endpoint
in the controller takes it back. -/
def DcdCall.prepares (address : BitVec 8) (prepared : Bool) : DcdCall → Bool
  | .epDisable a => if a = address then false else prepared
  | .epEnable a => if a = address then false else prepared
  | .epReadPrepare a _ _ => if a = address then true else prepared
  | _ => prepared

/-- A read has been prepared since the endpoint was last disabled and enabled. -/
def readPrepared (address : BitVec 8) (calls : List DcdCall) : Bool :=
  calls.foldl (DcdCall.prepares address) false

/-- A read has been prepared on the bulk-OUT endpoint. -/
def Udevice.outPrepared (s : Udevice) : Bool :=
  readPrepared VcomEp.epOut.address s.calls

/-- A call that takes no prepared read of the bulk-OUT endpoint back. -/
def DcdCall.Quiet (c : DcdCall) : Prop := c.prepares VcomEp.epOut.address true = true

/-- What a configuration is made of is as it was. -/
structure Kept (s t : Udevice) : Prop where
  intfList : t.intfList = s.intfList
  address : ∀ e, (t.ep e).bEndpointAddress = (s.ep e).bEndpointAddress
  state : t.state = s.state
  enabled : t.enabled = s.enabled
  connected : t.connected = s.connected
  buffer : (t.ep .epOut).buffer = (s.ep .epOut).buffer

/-- And a prepared read stays one. -/
structure Quiet (s t : Udevice) : Prop extends Kept s t where
  outPrepared : s.outPrepared = true → t.outPrepared = true

/-- Calls of the driver change nothing that is kept. -/
theorem Kept.calls (s : Udevice) (calls : List DcdCall) : Kept s { s with calls } :=
  ⟨rfl, fun _ => rfl, rfl, rfl, rfl, rfl⟩

theorem Kept.trans {s t u : Udevice} (h : Kept s t) (h' : Kept t u) : Kept s u where
  intfList := h'.intfList.trans h.intfList
  address e := (h'.address e).trans (h.address e)
  state := h'.state.trans h.state
  enabled := h'.enabled.trans h.enabled
  connected := h'.connected.trans h.connected
  buffer := h'.buffer.trans h.buffer

theorem Quiet.refl (s : Udevice) : Quiet s s := ⟨Kept.calls s s.calls, id⟩

theorem Quiet.trans {s t u : Udevice} (h : Quiet s t) (h' : Quiet t u) : Quiet s u :=
  ⟨h.toKept.trans h'.toKept, h'.outPrepared ∘ h.outPrepared⟩

theorem Kept.cdc {s t : Udevice} (hk : Kept s t) (h : Cdc s) : Cdc t :=
  ⟨hk.intfList.trans h.intfList, fun e => (hk.address e).trans (h.address e)⟩

/-- Whether the OUT endpoint is prepared, with some calls more. -/
theorem outPrepared_append (s : Udevice) (l : List DcdCall) :
    ({ s with calls := s.calls ++ l } : Udevice).outPrepared =
      l.foldl (DcdCall.prepares VcomEp.epOut.address) s.outPrepared := by
  simp only [Udevice.outPrepared, readPrepared, List.foldl_append]

/-- Quiet calls keep a prepared read. -/
theorem foldl_prepares_quiet : ∀ {l : List DcdCall}, (∀ c ∈ l, c.Quiet) →
    l.foldl (DcdCall.prepares VcomEp.epOut.address) true = true
  | [], _ => rfl
  | c :: l, h => by
    have hc : c.prepares VcomEp.epOut.address true = true := h c List.mem_cons_self
    rw [List.foldl_cons, hc]
    exact foldl_prepares_quiet fun c' hc' => h c' (List.mem_cons_of_mem _ hc')

/-- Quiet calls behind a device. -/
theorem Quiet.append (s : Udevice) {l : List DcdCall} (h : ∀ c ∈ l, c.Quiet) :
    Quiet s { s with calls := s.calls ++ l } := by
  refine ⟨Kept.calls s _, fun hs => ?_⟩
  rw [outPrepared_append, hs]
  exact foldl_prepares_quiet h

/-- A call that neither stops nor prepares an endpoint is quiet. -/
theorem Quiet.call (s : Udevice) {c : DcdCall} (h : c.Quiet) : Quiet s (s.call c) := by
  refine Quiet.append s fun c' hc' => ?_
  rcases List.mem_singleton.mp hc' with rfl
  exact h

@[simp] theorem setEp_self (s : Udevice) (e : VcomEp) (ep : Uendpoint) :
    (s.setEp e ep).ep e = ep := if_pos rfl

theorem setEp_ne (s : Udevice) {e e' : VcomEp} (ep : Uendpoint) (h : e' ≠ e) :
    (s.setEp e ep).ep e' = s.ep e' := if_neg h

/-- An endpoint changed in place, its address and its buffer apart. -/
theorem Quiet.setEp (s : Udevice) {e : VcomEp} {ep : Uendpoint}
    (ha : ep.bEndpointAddress = (s.ep e).bEndpointAddress)
    (hb : ep.buffer = (s.ep e).buffer) : Quiet s (s.setEp e ep) := by
  have hfield : ∀ e', ((s.setEp e ep).ep e').bEndpointAddress = (s.ep e').bEndpointAddress ∧
      ((s.setEp e ep).ep e').buffer = (s.ep e').buffer := by
    intro e'
    by_cases he : e' = e
    · rw [he, setEp_self]
      exact ⟨ha, hb⟩
    · rw [setEp_ne s ep he]
      exact ⟨rfl, rfl⟩
  exact ⟨⟨rfl, fun e' => (hfield e').1, rfl, rfl, rfl, (hfield .epOut).2⟩, id⟩

/-- What an operation on an endpoint asks of the controller restarts nothing. -/
theorem dcdCall_quiet (address : BitVec 8) (ops : List UsbOp) :
    ∀ c ∈ ops.filterMap (UsbOp.dcdCall address), c.Quiet := by
  intro c hc
  obtain ⟨op, _, hop⟩ := List.mem_filterMap.mp hc
  cases op with
  | epWrite buffer size => cases hop; rfl
  | epReadPrepare buffer size =>
    cases hop
    exact ite_self true
  | completionDone => cases hop

theorem Quiet.perform (s : Udevice) (e : VcomEp) (result : Uep × List UsbOp) :
    Quiet s (s.perform e result) := by
  have hep : Quiet s (s.setEp e { s.ep e with toUep := result.1 }) := Quiet.setEp s rfl rfl
  exact hep.trans (Quiet.append _ (dcdCall_quiet _ _))

theorem Quiet.ioRequest (s : Udevice) (e : VcomEp) : Quiet s (ioRequest s e) :=
  Quiet.perform s e _

theorem Quiet.ep0SetStall (s : Udevice) : Quiet s (ep0SetStall s) := Quiet.call s rfl

theorem Quiet.ep0SendStatus (s : Udevice) : Quiet s (ep0SendStatus s) := Quiet.call s rfl

/-- The request of endpoint 0 and the flag of the transmit thread are no part of it. -/
theorem Quiet.ep0 (s : Udevice) (ep0 : Ep0) : Quiet s { s with ep0 } :=
  ⟨⟨rfl, fun _ => rfl, rfl, rfl, rfl, rfl⟩, id⟩

theorem Quiet.inSending (s : Udevice) (inSending : Bool) : Quiet s { s with inSending } :=
  ⟨⟨rfl, fun _ => rfl, rfl, rfl, rfl, rfl⟩, id⟩

theorem Quiet.ep0Write (s : Udevice) (data : Ep0Data) (size : Nat) :
    Quiet s (ep0Write s data size) :=
  (Quiet.ep0 s _).trans (Quiet.call _ rfl)

theorem Quiet.ep0Read (s : Udevice) (size : Nat) : Quiet s (ep0Read s size) :=
  (Quiet.ep0 s _).trans (Quiet.call _ rfl)

/-! ## The requests -/

theorem Quiet.setFeature (s : Udevice) (value index : BitVec 16) :
    Quiet s (setFeature s value index) := by
  unfold Usb.setFeature
  split
  · exact Quiet.refl s
  · split
    · exact Quiet.call s rfl
    · exact Quiet.refl s

theorem Quiet.clearFeature (s : Udevice) (value index : BitVec 16) :
    Quiet s (clearFeature s value index) := by
  unfold Usb.clearFeature
  split
  · exact Quiet.refl s
  · split
    · exact Quiet.call s rfl
    · exact Quiet.refl s

theorem quiet_of_getStringDescriptor {s t : Udevice} {setup : Urequest}
    (h : getStringDescriptor s setup = .ok t) : Quiet s t := by
  simp only [getStringDescriptor] at h
  split at h
  · cases h
    exact Quiet.ep0SetStall s
  · split at h
    · cases h
      exact Quiet.ep0Write s _ _
    · split at h
      · cases h
      · cases h
        exact Quiet.ep0Write s _ _

theorem quiet_of_getDescriptor {s t : Udevice} {setup : Urequest}
    (h : getDescriptor s setup = .ok t) : Quiet s t := by
  unfold getDescriptor at h
  split at h
  · split at h
    · cases h
      exact Quiet.ep0Write s _ _
    split at h
    · cases h
      exact Quiet.ep0Write s _ _
    split at h
    · exact quiet_of_getStringDescriptor h
    split at h
    · cases h
      split
      · exact Quiet.ep0SetStall s
      · exact Quiet.ep0SetStall s
    split at h
    · cases h
      exact Quiet.ep0Write s _ _
    · cases h
      exact Quiet.ep0SetStall s
  · cases h
    exact Quiet.ep0SetStall s

/-- The function's own handler changes the line state, or nothing of a configuration. -/
theorem interfaceHandler_cases (s : Udevice) (setup : Urequest) :
    Quiet s (interfaceHandler s setup).1 ∨
      (setup.bRequest = 0x22 ∧
        Quiet { s with connected := setup.wValue.getLsbD 0 } (interfaceHandler s setup).1) := by
  unfold interfaceHandler
  split
  · exact .inl (Quiet.refl s)
  split
  · exact .inl (Quiet.ep0Read s 7)
  split
  · exact .inl (Quiet.ep0Write s _ _)
  split
  · next hreq => exact .inr ⟨hreq, Quiet.ep0SendStatus _⟩
  split
  · exact .inl (Quiet.refl s)
  · exact .inl (Quiet.refl s)

/-- The endpoints of a setting are restarted in the controller, in the order of the list. -/
def restarts (s : Udevice) (epList : List VcomEp) : List DcdCall :=
  epList.flatMap fun e =>
    [.epDisable (s.ep e).bEndpointAddress, .epEnable (s.ep e).bEndpointAddress]

/-- The loop over the endpoints of a setting only calls the driver. -/
theorem restartEndpoints_eq (s : Udevice) (setting : Ualtsetting) :
    restartEndpoints s setting = { s with calls := s.calls ++ restarts s setting.epList } := by
  unfold restartEndpoints
  generalize setting.epList = epList
  induction epList generalizing s with
  | nil => simp only [List.foldl_nil, restarts, List.flatMap_nil, List.append_nil]
  | cons e epList ih =>
    rw [List.foldl_cons, ih]
    simp only [Udevice.call, restarts, List.flatMap_cons, List.append_assoc, List.cons_append,
      List.nil_append]

/-- The loop over both interfaces restarts all endpoints. -/
theorem restartInterfaces_eq (s : Udevice) :
    restartInterfaces s cdcInterfaces =
      .ok { s with calls := s.calls ++ restarts s [.epCmd, .epIn, .epOut] } := by
  simp only [restartInterfaces, cdcInterfaces, restartEndpoints_eq, commSetting, dataSetting,
    restarts, List.flatMap_cons, List.flatMap_nil, List.append_assoc, List.cons_append,
    List.nil_append, List.append_nil]

/-- `_function_enable` prepares the first read, unless the endpoint is stalled. -/
theorem outPrepared_functionEnable {s : Udevice} (h : Cdc s) (malloc : Option Nat)
    (hstall : (s.ep .epOut).stalled = false) : (functionEnable malloc s).outPrepared = true := by
  have haddr : (s.ep .epOut).bEndpointAddress = VcomEp.epOut.address := h.address .epOut
  simp only [functionEnable, ioRequest, Udevice.perform, setEp_self, rtUsbdIoRequest, hstall,
    rtUsbdEpReadPrepare, List.filterMap_cons, UsbOp.dcdCall, List.filterMap_nil,
    outPrepared_append, List.foldl_cons, List.foldl_nil, DcdCall.prepares, haddr, if_true,
    Bool.false_eq_true, if_false]

/-- An endpoint is replaced by one with its address. -/
theorem Cdc.setEp {s : Udevice} (h : Cdc s) {e : VcomEp} {ep : Uendpoint}
    (ha : ep.bEndpointAddress = e.address) : Cdc (s.setEp e ep) := by
  refine ⟨h.intfList, fun e' => ?_⟩
  by_cases he : e' = e
  · rw [he, setEp_self]
    exact ha
  · rw [setEp_ne _ _ he]
    exact h.address e'

/-- The device stays the one that it is when it is enabled. -/
theorem Cdc.functionEnable {s : Udevice} (h : Cdc s) (malloc : Option Nat) :
    Cdc (functionEnable malloc s) := by
  refine (Quiet.ioRequest _ .epOut).toKept.cdc (Cdc.setEp ?_ ?_)
  · exact ⟨h.intfList, h.address⟩
  · exact h.address .epOut

/-- What SET_CONFIGURATION with the value 1 leaves. -/
structure Configured (s t : Udevice) : Prop where
  cdc : Cdc t
  state : t.state = .configured
  enabled : t.enabled = true
  outPrepared : s.enabled = false → (s.ep .epOut).stalled = false → t.outPrepared = true

/-- Behind the enabling and the status the device is configured. -/
theorem configured_funcEnable {s : Udevice} (h : Cdc s) (malloc : Option Nat)
    (calls : List DcdCall) :
    Configured s
      (ep0SendStatus { funcEnable malloc { s with calls } with state := .configured }) := by
  have h' : Cdc { s with calls } := (Kept.calls s calls).cdc h
  have hq : Quiet _ _ :=
    Quiet.ep0SendStatus { funcEnable malloc { s with calls } with state := .configured }
  by_cases he : s.enabled = false
  · rw [funcEnable, if_pos he] at hq ⊢
    refine ⟨hq.toKept.cdc ?_, hq.state, hq.enabled, fun _ hstall => hq.outPrepared ?_⟩
    · exact ⟨(h'.functionEnable malloc).intfList, (h'.functionEnable malloc).address⟩
    · exact outPrepared_functionEnable h' malloc hstall
  · rw [funcEnable, if_neg he] at hq ⊢
    refine ⟨hq.toKept.cdc ⟨h.intfList, h.address⟩, hq.state, ?_, fun h' => absurd h' he⟩
    exact hq.enabled.trans (eq_true_of_ne_false he)

/-! ## The effect of an event -/

/-- SET_CONFIGURATION with the value of the one configuration. -/
def Urequest.SetsConfiguration (setup : Urequest) : Prop :=
  setup.type = 0x00 ∧ setup.recipient = 0x00 ∧ setup.bRequest = 0x09 ∧ setup.wValue = 1

/-- SET_INTERFACE with the one setting of the data interface. -/
def Urequest.SetsDataInterface (setup : Urequest) : Prop :=
  setup.type = 0x00 ∧ setup.recipient = 0x01 ∧ setup.bRequest = 0x0B ∧
    lowByte setup.wIndex = 1 ∧ lowByte setup.wValue = 0

/-- A request that reaches the function's own handler through an interface. -/
def Urequest.ToFunction (setup : Urequest) : Prop :=
  setup.recipient = 0x01 ∧
    ((setup.type = 0x00 ∧ IsInterface (lowByte setup.wIndex)) ∨
      (setup.type = 0x20 ∧ (setup.wIndex = 0 ∨ setup.wIndex = 1)))

/-- SET_CONTROL_LINE_STATE. -/
def Urequest.SetsControlLine (setup : Urequest) : Prop :=
  setup.bRequest = 0x22 ∧ setup.ToFunction

instance (setup : Urequest) : Decidable setup.SetsConfiguration :=
  inferInstanceAs (Decidable (_ ∧ _))

instance (setup : Urequest) : Decidable setup.SetsDataInterface :=
  inferInstanceAs (Decidable (_ ∧ _))

instance (setup : Urequest) : Decidable setup.ToFunction :=
  inferInstanceAs (Decidable (_ ∧ _))

instance (setup : Urequest) : Decidable setup.SetsControlLine :=
  inferInstanceAs (Decidable (_ ∧ _))

/-- What a setup packet does to the configuration. -/
inductive SetupEffect (s : Udevice) (setup : Urequest) (t : Udevice) : Prop
  | quiet (h : Quiet s t)
  | address (h : Quiet { s with state := .address } t)
  | controlLine (hset : setup.SetsControlLine)
      (h : Quiet { s with connected := setup.wValue.getLsbD 0 } t)
  | configure (hset : setup.SetsConfiguration) (h : Configured s t)
  | restart (hset : setup.SetsDataInterface) (hstate : s.state = .configured) (h : Kept s t)

theorem SetupEffect.cdc {s t : Udevice} {setup : Urequest} (he : SetupEffect s setup t)
    (h : Cdc s) : Cdc t := by
  cases he with
  | quiet hq => exact hq.toKept.cdc h
  | address hq => exact hq.toKept.cdc ⟨h.intfList, h.address⟩
  | controlLine _ hq => exact hq.toKept.cdc ⟨h.intfList, h.address⟩
  | configure _ hc => exact hc.cdc
  | restart _ _ hk => exact hk.cdc h

section Setup

variable {s t : Udevice} {setup : Urequest} (hcdc : Cdc s)
include hcdc

/-- `SET_CONFIGURATION` has its effect, which no other request has. -/
theorem setConfig_effect {malloc : Option Nat} (htype : setup.type = 0x00)
    (hrec : setup.recipient = 0x00) (hreq : setup.bRequest = 0x09)
    (h : setConfig malloc s setup = .ok t) : SetupEffect s setup t := by
  unfold setConfig at h
  split at h
  · cases h
    exact .quiet (Quiet.ep0SetStall s)
  next hle =>
  split at h
  · cases h
    exact .address (Quiet.ep0SendStatus _)
  next hne =>
  have hone : setup.wValue = 1 := by
    have hle' : setup.wValue.toNat ≤ 1 := Nat.le_of_not_lt hle
    have hpos : setup.wValue.toNat ≠ 0 := fun h0 => hne (BitVec.eq_of_toNat_eq h0)
    exact BitVec.eq_of_toNat_eq (Nat.le_antisymm hle' (Nat.pos_of_ne_zero hpos))
  rw [hcdc.intfList, restartInterfaces_eq] at h
  cases h
  exact .configure ⟨htype, hrec, hreq, hone⟩ (configured_funcEnable hcdc malloc _)

/-- A request of the device has the effect of its kind. -/
theorem deviceRequest_effect {malloc : Option Nat} (htype : setup.type = 0x00)
    (hrec : setup.recipient = 0x00) (h : deviceRequest malloc s setup = .ok t) :
    SetupEffect s setup t := by
  unfold deviceRequest at h
  split at h
  · cases h
    exact .quiet (Quiet.ep0Write s _ _)
  split at h
  · cases h
    exact .quiet ((Quiet.clearFeature s _ _).trans (Quiet.ep0SendStatus _))
  split at h
  · cases h
    exact .quiet (Quiet.setFeature s _ _)
  split at h
  · cases h
    have hcalls : Quiet s (ep0SendStatus (s.call (.setAddress (lowByte setup.wValue)))) :=
      (Quiet.call s (c := .setAddress _) rfl).trans (Quiet.ep0SendStatus _)
    exact .address ⟨⟨rfl, fun _ => rfl, rfl, rfl, rfl, rfl⟩, hcalls.outPrepared⟩
  split at h
  · exact .quiet (quiet_of_getDescriptor h)
  split at h
  · cases h
    exact .quiet (Quiet.ep0SetStall s)
  split at h
  · cases h
    exact .quiet (Quiet.ep0Write s _ _)
  split at h
  · next hreq => exact setConfig_effect hcdc htype hrec hreq h
  · cases h
    exact .quiet (Quiet.ep0SetStall s)

/-- SET_INTERFACE puts the setting that is there and restarts its endpoints. -/
theorem Cdc.setInterface_eq (hstate : s.state = .configured) :
    setInterface s setup =
      match settingOf (lowByte setup.wIndex) with
      | none => .error (.interface, s)
      | some setting =>
        if lowByte setup.wValue = 0 then .ok (ep0SendStatus (restartEndpoints s setting))
        else .error (.altsetting, s.setCurrSetting (lowByte setup.wIndex) none) := by
  unfold setInterface
  rw [if_neg (not_not_intro hstate), hcdc.findInterface_eq]
  cases hs : settingOf (lowByte setup.wIndex) with
  | none => rfl
  | some setting =>
    simp only [Option.map_some, findAltsetting_cdcInterface, bAlternateSetting_of_settingOf hs,
      eq_comm (a := (0 : BitVec 8))]
    by_cases hv : lowByte setup.wValue = 0
    · simp only [hv, if_true]
      have hnum : (cdcInterface (lowByte setup.wIndex) setting).intfNum = lowByte setup.wIndex :=
        rfl
      rw [hnum, hcdc.setCurrSetting_self hs]
    · simp only [hv, if_false]
      rfl

/-- `GET_INTERFACE` answers 0, or fails to find the interface. -/
theorem Cdc.getInterface_eq (hstate : s.state = .configured) :
    getInterface s setup =
      if IsInterface (lowByte setup.wIndex) then .ok (ep0Write s (.altsetting 0) 1)
      else .error (.interface, s) := by
  unfold getInterface
  rw [if_neg (not_not_intro hstate), hcdc.findInterface_eq]
  cases hs : settingOf (lowByte setup.wIndex) with
  | none =>
    rw [if_neg (settingOf_eq_none.mp hs)]
    rfl
  | some setting =>
    simp only [Option.map_some, cdcInterface, if_pos (isInterface_of_settingOf hs),
      bAlternateSetting_of_settingOf hs]

/-- Restarting the endpoint of the communication interface leaves the bulk-OUT endpoint alone. -/
theorem Cdc.quiet_restart_comm : Quiet s (restartEndpoints s commSetting) := by
  rw [restartEndpoints_eq]
  refine Quiet.append s fun c hc => ?_
  have haddr : (s.ep .epCmd).bEndpointAddress = 0x82 := hcdc.address .epCmd
  simp only [commSetting, restarts, List.flatMap_cons, List.flatMap_nil, List.append_nil, haddr,
    List.mem_cons, List.not_mem_nil, or_false] at hc
  obtain rfl | rfl := hc
  · rfl
  · rfl

/-- `SET_INTERFACE` has its effect. -/
theorem setInterface_effect (htype : setup.type = 0x00) (hrec : setup.recipient = 0x01)
    (hreq : setup.bRequest = 0x0B) (h : setInterface s setup = .ok t) :
    SetupEffect s setup t := by
  by_cases hstate : s.state = .configured
  · rw [hcdc.setInterface_eq hstate] at h
    split at h
    · cases h
    next setting hs =>
    split at h
    · next hv =>
      cases h
      obtain ⟨_, rfl⟩ | ⟨hi, rfl⟩ := settingOf_cases hs
      · exact .quiet (hcdc.quiet_restart_comm.trans (Quiet.ep0SendStatus _))
      · refine .restart ⟨htype, hrec, hreq, hi, hv⟩ hstate ?_
        rw [restartEndpoints_eq]
        exact (Kept.calls s _).trans (Quiet.ep0SendStatus _).toKept
    · cases h
  · rw [setInterface, if_pos hstate] at h
    cases h
    exact .quiet (Quiet.ep0SetStall s)

omit hcdc in
/-- A request that the function's own handler takes. -/
theorem interfaceHandler_effect (hto : setup.ToFunction) :
    SetupEffect s setup (interfaceHandler s setup).1 := by
  obtain hq | ⟨hreq, hq⟩ := interfaceHandler_cases s setup
  · exact .quiet hq
  · exact .controlLine ⟨hreq, hto⟩ hq

omit hcdc in
/-- What is quiet behind it does not change the effect. -/
theorem SetupEffect.trans_quiet {u : Udevice} (he : SetupEffect s setup t) (hq : Quiet t u) :
    SetupEffect s setup u := by
  cases he with
  | quiet h => exact .quiet (h.trans hq)
  | address h => exact .address (h.trans hq)
  | controlLine hset h => exact .controlLine hset (h.trans hq)
  | configure hset h =>
    exact .configure hset ⟨hq.toKept.cdc h.cdc, hq.state.trans h.state, hq.enabled.trans h.enabled,
      fun he hstall => hq.outPrepared (h.outPrepared he hstall)⟩
  | restart hset hstate h => exact .restart hset hstate (h.trans hq.toKept)

theorem requestInterface_effect (htype : setup.type = 0x00) (hrec : setup.recipient = 0x01) :
    SetupEffect s setup (requestInterface s setup).1 := by
  unfold requestInterface
  rw [hcdc.findInterface_eq]
  cases hs : settingOf (lowByte setup.wIndex) with
  | none => exact .quiet (Quiet.refl s)
  | some setting =>
    exact interfaceHandler_effect ⟨hrec, .inl ⟨htype, isInterface_of_settingOf hs⟩⟩

theorem interfaceRequest_effect (htype : setup.type = 0x00) (hrec : setup.recipient = 0x01)
    (h : interfaceRequest s setup = .ok t) : SetupEffect s setup t := by
  unfold interfaceRequest at h
  split at h
  · by_cases hstate : s.state = .configured
    · rw [hcdc.getInterface_eq hstate] at h
      split at h
      · cases h
        exact .quiet (Quiet.ep0Write s _ _)
      · cases h
    · rw [getInterface, if_pos hstate] at h
      cases h
      exact .quiet (Quiet.ep0SetStall s)
  split at h
  · next hreq => exact setInterface_effect hcdc htype hrec hreq h
  · have he := requestInterface_effect hcdc htype hrec
    dsimp only at h
    split at h
    · cases h
      exact he.trans_quiet (Quiet.ep0SetStall _)
    · cases h
      exact he

omit hcdc in
/-- The requests of an endpoint that is cleared are fired quietly. -/
theorem Quiet.fireRequests (s : Udevice) (e : VcomEp) : Quiet s (fireRequests s e) := by
  unfold Usb.fireRequests
  dsimp only
  split
  · exact Quiet.setEp s rfl rfl
  · exact (Quiet.ioRequest s e).trans (Quiet.setEp _ rfl rfl)

/-- A request of an endpoint is quiet. -/
theorem quiet_of_endpointRequest (h : endpointRequest s setup = .ok t) : Quiet s t := by
  unfold endpointRequest at h
  split at h
  · rw [endpointGetStatus, hcdc.findEndpoint_eq] at h
    cases he : endpointOf (lowByte setup.wIndex) with
    | none => rw [he] at h; cases h
    | some e =>
      rw [he] at h
      cases h
      exact Quiet.ep0Write s _ _
  split at h
  · rw [endpointClearFeature, hcdc.findEndpoint_eq] at h
    cases he : endpointOf (lowByte setup.wIndex) with
    | none =>
      simp only [he] at h
      split at h
      · cases h
      · cases h
        exact Quiet.refl s
    | some e =>
      simp only [he] at h
      split at h
      · cases h
        refine Quiet.trans ?_ (Quiet.fireRequests _ e)
        refine Quiet.trans ?_ (Quiet.setEp _ rfl rfl)
        exact (Quiet.clearFeature s _ _).trans (Quiet.ep0SendStatus _)
      · cases h
        exact Quiet.refl s
  split at h
  · unfold endpointSetFeature at h
    split at h
    · rw [hcdc.findEndpoint_eq] at h
      cases he : endpointOf (lowByte setup.wIndex) with
      | none => rw [he] at h; cases h
      | some e =>
        rw [he] at h
        cases h
        have hep : Quiet s (s.setEp e { s.ep e with stalled := true }) := Quiet.setEp s rfl rfl
        exact hep.trans ((Quiet.setFeature _ _ _).trans (Quiet.ep0SendStatus _))
    · cases h
      exact Quiet.refl s
  split at h
  · cases h
    exact Quiet.refl s
  · cases h
    exact Quiet.ep0SetStall s

/-- An index that passes the count of interfaces is its own low byte. -/
theorem Cdc.wIndex_of_functionRequest (hle : ¬s.intfList.length < setup.wIndex.toNat)
    {value : BitVec 8} (hlow : lowByte setup.wIndex = value) :
    setup.wIndex = value.setWidth 16 := by
  rw [hcdc.intfList] at hle
  have hle : setup.wIndex.toNat ≤ 2 := Nat.le_of_not_lt hle
  refine BitVec.eq_of_toNat_eq ?_
  rw [← hlow, lowByte, BitVec.toNat_setWidth, BitVec.toNat_setWidth]
  omega

theorem functionRequest_effect (htype : setup.type = 0x20) :
    SetupEffect s setup (functionRequest s setup) := by
  unfold functionRequest
  split
  · exact .quiet (Quiet.ep0SetStall s)
  next hle =>
  split
  · next hrec =>
    rw [hcdc.findInterface_eq]
    cases hs : settingOf (lowByte setup.wIndex) with
    | none => exact .quiet (Quiet.ep0SetStall s)
    | some setting =>
      refine interfaceHandler_effect ⟨hrec, .inr ⟨htype, ?_⟩⟩
      obtain ⟨hi, _⟩ | ⟨hi, _⟩ := settingOf_cases hs
      · exact .inl (hcdc.wIndex_of_functionRequest hle hi)
      · exact .inr (hcdc.wIndex_of_functionRequest hle hi)
  split
  · exact .quiet (Quiet.refl s)
  · exact .quiet (Quiet.ep0SetStall s)

omit hcdc in
/-- A vendor request does not set the line state: its own code is another one. -/
theorem quiet_vendorRequest : Quiet s (vendorRequest s setup) := by
  unfold vendorRequest
  split
  · next hreq =>
    split
    · exact Quiet.ep0SetStall s
    split
    · split
      · obtain hq | ⟨hreq', _⟩ := interfaceHandler_cases s setup
        · exact hq
        · rw [hreq] at hreq'
          exact absurd hreq' (by decide)
      · exact Quiet.refl s
    · exact Quiet.refl s
  · exact Quiet.refl s

/-- Every setup packet that returns has the effect of its kind. -/
theorem setupRequest_effect {malloc : Option Nat} (h : setupRequest malloc s setup = .ok t) :
    SetupEffect s setup t := by
  unfold setupRequest at h
  split at h
  · next htype =>
    unfold standardRequest at h
    split at h
    · next hrec => exact deviceRequest_effect hcdc htype hrec h
    split at h
    · next hrec => exact interfaceRequest_effect hcdc htype hrec h
    split at h
    · exact .quiet (quiet_of_endpointRequest hcdc h)
    · cases h
      exact .quiet (Quiet.ep0SetStall s)
  split at h
  · next htype =>
    cases h
    exact functionRequest_effect hcdc htype
  split at h
  · cases h
    exact .quiet quiet_vendorRequest
  · cases h
    exact .quiet (Quiet.ep0SetStall s)

end Setup

/-! ## The other messages -/

/-- The handler of a data endpoint is quiet. -/
theorem Quiet.epHandler (s : Udevice) (e : VcomEp) : Quiet s (epHandler s e) := by
  cases e with
  | epCmd => exact Quiet.refl s
  | epIn =>
    unfold Usb.epHandler
    dsimp only
    split
    · exact (Quiet.inSending s true).trans (Quiet.perform _ _ _)
    · exact Quiet.perform _ _ _
  | epOut =>
    refine Quiet.trans ?_ (Quiet.ioRequest _ _)
    exact Quiet.setEp s rfl rfl

theorem quiet_of_dataNotifyMsg {s t : Udevice} (hcdc : Cdc s) {epAddr : BitVec 8}
    {size epRead : Nat} (h : dataNotifyMsg s epAddr size epRead = .ok t) : Quiet s t := by
  unfold dataNotifyMsg at h
  split at h
  · cases h
    exact Quiet.refl s
  rw [hcdc.findEndpoint_eq] at h
  cases he : endpointOf epAddr with
  | none =>
    rw [he] at h
    cases h
    exact Quiet.refl s
  | some e =>
    simp only [he] at h
    cases h
    split
    · exact (Quiet.perform s e _).trans (Quiet.epHandler _ e)
    · exact Quiet.perform s e _

theorem Quiet.ep0Remain (s : Udevice) (remainSize : Nat) : Quiet s (ep0Remain s remainSize) := by
  unfold Usb.ep0Remain
  dsimp only
  split
  · split
    · exact (Quiet.ep0 s _).trans (Quiet.ep0SendStatus _)
    · exact Quiet.ep0 s _
  · exact (Quiet.ep0 s _).trans (Quiet.call _ rfl)

theorem Quiet.ep0OutNotify (s : Udevice) (size epRead : Nat) :
    Quiet s (ep0OutNotify s size epRead) := by
  unfold Usb.ep0OutNotify
  dsimp only
  generalize (if size = 0 then epRead else size) = n
  split
  · exact Quiet.refl s
  · exact Quiet.ep0Remain s _

theorem Quiet.transmitRequest (s : Udevice) (buffer size : Nat) :
    Quiet s (transmitRequest s buffer size) := by
  refine Quiet.trans ?_ (Quiet.ioRequest _ _)
  exact Quiet.setEp s rfl rfl

/-- Behind the disabling nothing is enabled. -/
@[simp] theorem funcDisable_enabled (s : Udevice) : (funcDisable s).enabled = false := by
  unfold funcDisable
  split
  · rfl
  · next h => exact eq_false_of_ne_true h

@[simp] theorem funcDisable_state (s : Udevice) : (funcDisable s).state = s.state := by
  unfold funcDisable
  split
  · rfl
  · rfl

/-- The line goes down with the function, and only with it. -/
theorem funcDisable_connected (s : Udevice) :
    (funcDisable s).connected = (!s.enabled && s.connected) := by
  unfold funcDisable
  split
  · next h => simp only [functionDisable, h, Bool.not_true, Bool.false_and]; rfl
  · next h => simp only [eq_false_of_ne_true h, Bool.not_false, Bool.true_and]

/-- The buffer of a function that runs is given back. -/
theorem funcDisable_buffer (s : Udevice) :
    ((funcDisable s).ep .epOut).buffer = if s.enabled then none else (s.ep .epOut).buffer := by
  unfold funcDisable
  split
  · simp only [functionDisable, setEp_self]
  · rfl

/-- The device stays the one that it is. -/
theorem Cdc.funcDisable {s : Udevice} (h : Cdc s) : Cdc (funcDisable s) := by
  unfold Usb.funcDisable
  split
  · refine Cdc.setEp ?_ ?_
    · exact ⟨h.intfList, h.address⟩
    · exact h.address .epOut
  · exact h

/-- What an event does to the configuration. -/
inductive Effect (s : Udevice) : UsbEvent → Udevice → Prop
  | quiet {a : UsbEvent} {t : Udevice} (h : Quiet s t) : Effect s a t
  | setup {malloc : Option Nat} {setup : Urequest} {t : Udevice} (h : SetupEffect s setup t) :
      Effect s (.message malloc (.setupNotify setup)) t
  | reset {malloc : Option Nat} (h : s.state = .address ∨ s.state = .configured) :
      Effect s (.message malloc .reset) { funcDisable s with state := .notAttached }
  | resetOther {malloc : Option Nat} (h : ¬(s.state = .address ∨ s.state = .configured)) :
      Effect s (.message malloc .reset) { s with state := .notAttached }
  | plugIn {malloc : Option Nat} : Effect s (.message malloc .plugIn) { s with state := .attached }
  | plugOut {malloc : Option Nat} :
      Effect s (.message malloc .plugOut) (funcDisable { s with state := .notAttached })

/-- Every message of the USB thread has the effect of its kind. -/
theorem usbdThreadEntry_effect {s t : Udevice} (hcdc : Cdc s) {malloc : Option Nat} {msg : UdevMsg}
    (h : usbdThreadEntry malloc s msg = .ok t) : Effect s (.message malloc msg) t := by
  cases msg with
  | setupNotify setup => exact .setup (setupRequest_effect hcdc h)
  | dataNotify epAddr size epRead => exact .quiet (quiet_of_dataNotifyMsg hcdc h)
  | ep0Out size epRead =>
    cases h
    exact .quiet (Quiet.ep0OutNotify s size epRead)
  | epClearFeature =>
    cases h
    exact .quiet (Quiet.refl s)
  | sof =>
    cases h
    exact .quiet (Quiet.refl s)
  | reset =>
    cases h
    by_cases hstate : s.state = .address ∨ s.state = .configured
    · rw [if_pos hstate]
      exact .reset hstate
    · rw [if_neg hstate]
      exact .resetOther hstate
  | plugIn =>
    cases h
    exact .plugIn
  | plugOut =>
    cases h
    exact .plugOut

theorem usbStep_effect {s t : Udevice} {a : UsbEvent} (hcdc : Cdc s) (h : usbStep s a = some t) :
    Effect s a t := by
  cases a with
  | message malloc msg =>
    refine usbdThreadEntry_effect hcdc ?_
    simp only [usbStep] at h
    cases hm : usbdThreadEntry malloc s msg with
    | error f =>
      rw [hm] at h
      cases h
    | ok u =>
      rw [hm] at h
      cases h
      rfl
  | transmit buffer size =>
    cases h
    exact .quiet (Quiet.transmitRequest s buffer size)
  | ep0Interrupt ep0 =>
    cases h
    exact .quiet (Quiet.ep0 s ep0)

/-- Behind every effect the device is still the one that it is. -/
theorem Effect.cdc {s t : Udevice} {a : UsbEvent} (he : Effect s a t) (h : Cdc s) : Cdc t := by
  cases he with
  | quiet hq => exact hq.toKept.cdc h
  | setup he => exact he.cdc h
  | reset _ => exact ⟨h.funcDisable.intfList, h.funcDisable.address⟩
  | resetOther _ => exact ⟨h.intfList, h.address⟩
  | plugIn => exact ⟨h.intfList, h.address⟩
  | plugOut => exact Cdc.funcDisable ⟨h.intfList, h.address⟩

/-- The device keeps its shape in every run. -/
theorem cdc_of_reach {ok : Udevice → UsbEvent → Prop} {s : Udevice} (h : usbSystem.Reach ok s) :
    Cdc s := by
  refine h.invariant ⟨rfl, fun e => rfl⟩ ?_
  intro s a t hs _ hstep
  exact (usbStep_effect hs hstep).cdc hs

end RtVcom.Usb
