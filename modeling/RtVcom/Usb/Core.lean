import RtVcom.Kernel.Ipc
import RtVcom.Lib.Machine
import RtVcom.Usb.Endpoint

/-!
# The USB device core

The message loop of `usbdevice/core/core.c`, `rt_usbd_thread_entry`, with every control request
that `_setup_request` dispatches and the functions of `class/cdc_vcom.c` behind them. The device
is the one that this build makes: one configuration with one function, the virtual COM port, whose
two interfaces have one alternate setting each.

What the core asks of the controller is kept in `calls`, in order. A lookup that fails answers
`none`, as the source answers `RT_NULL`; a handler that goes on to use such an answer, or reads a
string that the table does not have, ends in a `Fault`, with the device as it was left.
`RT_ASSERT` is compiled out and is not in the model.

The memory that `rt_malloc` answers is an argument of a message. Beside the messages the machine
has two events for those who share data with the loop: the transmit thread, which requests writes
on the bulk-IN endpoint, and the interrupt handlers of endpoint 0, which may leave anything in its
request.
-/

namespace RtVcom.Usb

open RtVcom.Kernel RtVcom.Lib

/-! ## The data -/

/-- `struct urequest`, a setup packet. -/
structure Urequest where
  requestType : BitVec 8
  bRequest : BitVec 8
  wValue : BitVec 16
  wIndex : BitVec 16
  wLength : BitVec 16
deriving Repr, DecidableEq

/-- The low byte of a word, `w & 0xFF` or its conversion to `rt_uint8_t`. -/
def lowByte (w : BitVec 16) : BitVec 8 := w.setWidth 8

/-- The endpoints of the function. -/
inductive VcomEp
  | epCmd
  | epIn
  | epOut
deriving Repr, DecidableEq

/-- `struct uendpoint`, with the address of its descriptor and the buffer that belongs to it. -/
structure Uendpoint extends Uep where
  bEndpointAddress : BitVec 8
  buffer : Option Nat
deriving Repr, DecidableEq

/-- `struct ualtsetting`. -/
structure Ualtsetting where
  bAlternateSetting : BitVec 8
  epList : List VcomEp
deriving Repr, DecidableEq

/-- `struct uinterface`. -/
structure Uinterface where
  intfNum : BitVec 8
  currSetting : Option Ualtsetting
  settingList : List Ualtsetting
deriving Repr, DecidableEq

/-- What `rt_usbd_ep0_write` sends. -/
inductive Ep0Data
  | status (value : Bool)
  | deviceDescriptor
  | configDescriptor
  | stringDescriptor (index : Nat)
  | qualifierDescriptor
  | altsetting (value : BitVec 8)
  | configuration (value : BitVec 8)
  | lineCoding
  | compIdDescriptor
deriving Repr, DecidableEq

/-- The calls of the controller, and of the two functions of the core that move data on endpoint
0. -/
inductive DcdCall
  | setAddress (address : BitVec 8)
  | setConfig (value : BitVec 8)
  | epSetStall (address : BitVec 8)
  | epClearStall (address : BitVec 8)
  | epEnable (address : BitVec 8)
  | epDisable (address : BitVec 8)
  | epReadPrepare (address : BitVec 8) (buffer : Option Nat) (size : Nat)
  | epWrite (address : BitVec 8) (buffer : Option Nat) (size : Nat)
  | ep0Write (data : Ep0Data) (size : Nat)
  | ep0Read (size : Nat)
  | ep0SendStatus
deriving Repr, DecidableEq

/-- `uep0_stage_t`, the stages that the core sets. -/
inductive Ep0Stage
  | idle
  | dataIn
  | dataOut
deriving Repr, DecidableEq

/-- `dcd->ep0` and `dcd->stage`: `rxIndicate` is whether `_cdc_set_line_coding_callback` is
installed. -/
structure Ep0 where
  size : Nat
  remainSize : Nat
  rxIndicate : Bool
  stage : Ep0Stage
deriving Repr, DecidableEq

/-- `struct udevice` with its current configuration, the function and the data of the virtual COM
port. -/
structure Udevice where
  state : UdeviceState
  intfList : List Uinterface
  enabled : Bool
  connected : Bool
  inSending : Bool
  ep : VcomEp → Uendpoint
  ep0 : Ep0
  calls : List DcdCall

/-- What a handler uses although it is not there: the answer of a lookup, or a string. -/
inductive Fault
  | interface
  | altsetting
  | endpoint
  | string
deriving Repr, DecidableEq

/-- The device behind a handler, or the fault it runs into. -/
abbrev Outcome : Type := Except (Fault × Udevice) Udevice

/-! ## Endpoint 0 -/

/-- One more call. -/
def Udevice.call (s : Udevice) (c : DcdCall) : Udevice := { s with calls := s.calls ++ [c] }

/-- `rt_usbd_ep0_set_stall`. -/
def ep0SetStall (s : Udevice) : Udevice := s.call (.epSetStall 0x00)

/-- `dcd_ep0_send_status`. -/
def ep0SendStatus (s : Udevice) : Udevice := s.call .ep0SendStatus

/-- `rt_usbd_ep0_write`. -/
def ep0Write (s : Udevice) (data : Ep0Data) (size : Nat) : Udevice :=
  Udevice.call { s with ep0 := { s.ep0 with size, remainSize := size, stage := .dataIn } }
    (.ep0Write data size)

/-- `rt_usbd_ep0_read` with `_cdc_set_line_coding_callback`. -/
def ep0Read (s : Udevice) (size : Nat) : Udevice :=
  Udevice.call { s with ep0 := { s.ep0 with
    remainSize := size, rxIndicate := true, stage := .dataOut } } (.ep0Read size)

/-! ## Lookups -/

/-- `rt_usbd_find_interface`. -/
def findInterface (s : Udevice) (value : BitVec 8) : Option Uinterface :=
  s.intfList.find? fun intf => intf.intfNum == value

/-- `rt_usbd_find_altsetting`: the current setting is tried first. -/
def findAltsetting (intf : Uinterface) (value : BitVec 8) : Option Ualtsetting :=
  match intf.currSetting with
  | some setting =>
    if setting.bAlternateSetting = value then some setting
    else intf.settingList.find? fun setting => setting.bAlternateSetting == value
  | none => intf.settingList.find? fun setting => setting.bAlternateSetting == value

/-- `rt_usbd_find_endpoint`: the endpoints of the current setting of every interface. An interface
without a current setting is the fault of an earlier lookup. -/
def findEndpointIn (s : Udevice) (epAddr : BitVec 8) :
    List Uinterface → Except (Fault × Udevice) (Option VcomEp)
  | [] => .ok none
  | intf :: rest =>
    match intf.currSetting with
    | none => .error (.altsetting, s)
    | some setting =>
      match setting.epList.find? fun e => (s.ep e).bEndpointAddress == epAddr with
      | some e => .ok (some e)
      | none => findEndpointIn s epAddr rest

def findEndpoint (s : Udevice) (epAddr : BitVec 8) : Except (Fault × Udevice) (Option VcomEp) :=
  findEndpointIn s epAddr s.intfList

/-! ## Endpoints and the function -/

/-- An endpoint changed in place. -/
def Udevice.setEp (s : Udevice) (e : VcomEp) (ep : Uendpoint) : Udevice :=
  { s with ep := fun e' => if e' = e then ep else s.ep e' }

/-- The call of the controller behind an operation on an endpoint. The completion is the vcom's
own. -/
def UsbOp.dcdCall (address : BitVec 8) : UsbOp → Option DcdCall
  | .epWrite buffer size => some (.epWrite address buffer size)
  | .epReadPrepare buffer size => some (.epReadPrepare address buffer size)
  | .completionDone => none

/-- An endpoint behind some operations, with the calls they make. -/
def Udevice.perform (s : Udevice) (e : VcomEp) (result : Uep × List UsbOp) : Udevice :=
  let s' := s.setEp e { s.ep e with toUep := result.1 }
  { s' with calls := s'.calls ++ result.2.filterMap (UsbOp.dcdCall (s.ep e).bEndpointAddress) }

/-- `rt_usbd_io_request(device, ep, &ep->request)`. -/
def ioRequest (s : Udevice) (e : VcomEp) : Udevice := s.perform e (rtUsbdIoRequest (s.ep e).toUep)

/-- `_function_enable`, with what `rt_malloc` answers. -/
def functionEnable (malloc : Option Nat) (s : Udevice) : Udevice :=
  let s := { s with connected := false, inSending := false }
  let ep := { s.ep .epOut with
    buffer := malloc
    request := { (s.ep .epOut).request with
      buffer := malloc, size := (s.ep .epOut).maxPacket, reqType := .readBest } }
  ioRequest (s.setEp .epOut ep) .epOut

/-- `_function_disable`. -/
def functionDisable (s : Udevice) : Udevice :=
  let s := { s with connected := false, inSending := false }
  s.setEp .epOut { s.ep .epOut with buffer := none }

/-- `FUNC_ENABLE`. -/
def funcEnable (malloc : Option Nat) (s : Udevice) : Udevice :=
  if s.enabled = false then { functionEnable malloc s with enabled := true } else s

/-- `FUNC_DISABLE`. -/
def funcDisable (s : Udevice) : Udevice :=
  if s.enabled = true then functionDisable { s with enabled := false } else s

/-- `dcd_ep_disable` and `dcd_ep_enable` of each endpoint of a setting. -/
def restartEndpoints (s : Udevice) (setting : Ualtsetting) : Udevice :=
  setting.epList.foldl (fun s e =>
    (s.call (.epDisable (s.ep e).bEndpointAddress)).call (.epEnable (s.ep e).bEndpointAddress)) s

/-! ## Requests to the device -/

/-- `_ustring`; the serial number is the default one. -/
def ustring : List String :=
  ["Language", "RT-Thread Team.", "RTT Virtual Serial", "32021919830108", "Configuration",
    "Interface"]

/-- `dev_desc.bNumConfigurations`. -/
def bNumConfigurations : Nat := 1

/-- `cfg_desc.wTotalLength`: the configuration, the two interfaces with their class descriptors,
and the three endpoints. -/
def wTotalLength : Nat := 67

/-- `dcd->device_is_hs`: the controller is a full-speed one. -/
def deviceIsHs : Bool := false

/-- `_get_device_descriptor`. -/
def getDeviceDescriptor (s : Udevice) (setup : Urequest) : Udevice :=
  ep0Write s .deviceDescriptor (min setup.wLength.toNat 0x12)

/-- `_get_config_descriptor`. -/
def getConfigDescriptor (s : Udevice) (setup : Urequest) : Udevice :=
  ep0Write s .configDescriptor (min setup.wLength.toNat wTotalLength)

/-- The index that `_get_string_descriptor` reads: the one for operating systems stands at
`USB_STRING_OS_INDEX`. -/
def stringIndex (setup : Urequest) : Nat :=
  if lowByte setup.wValue = 0xEE then 0x06 else (lowByte setup.wValue).toNat

/-- `_get_string_descriptor`. -/
def getStringDescriptor (s : Udevice) (setup : Urequest) : Outcome :=
  let index := stringIndex setup
  if 0x06 < index then .ok (ep0SetStall s)
  else if index = 0x00 then .ok (ep0Write s (.stringDescriptor 0) (min setup.wLength.toNat 4))
  else
    match ustring[index]? with
    | none => .error (.string, s)
    | some str =>
      .ok (ep0Write s (.stringDescriptor index) (min setup.wLength.toNat (str.length * 2 + 2)))

/-- `_get_qualifier_descriptor`; the vcom sets no qualifier. -/
def getQualifierDescriptor (s : Udevice) : Udevice := ep0SetStall s

/-- `_get_descriptor`. -/
def getDescriptor (s : Udevice) (setup : Urequest) : Outcome :=
  if setup.requestType = 0x80 then
    if setup.wValue >>> 8 = 0x01 then .ok (getDeviceDescriptor s setup)
    else if setup.wValue >>> 8 = 0x02 then .ok (getConfigDescriptor s setup)
    else if setup.wValue >>> 8 = 0x03 then getStringDescriptor s setup
    else if setup.wValue >>> 8 = 0x06 then
      .ok (if deviceIsHs then getQualifierDescriptor s else ep0SetStall s)
    else if setup.wValue >>> 8 = 0x07 then .ok (getConfigDescriptor s setup)
    else .ok (ep0SetStall s)
  else .ok (ep0SetStall s)

/-- `_get_config`. -/
def getConfig (s : Udevice) : Udevice :=
  ep0Write s (.configuration (if s.state = .configured then 1 else 0)) 1

/-- `_set_config`, the endpoints of all interfaces. -/
def restartInterfaces (s : Udevice) : List Uinterface → Outcome
  | [] => .ok s
  | intf :: rest =>
    match intf.currSetting with
    | none => .error (.altsetting, s)
    | some setting => restartInterfaces (restartEndpoints s setting) rest

/-- `_set_config`. `rt_usbd_set_config` finds the one configuration, since the value is 1. -/
def setConfig (malloc : Option Nat) (s : Udevice) (setup : Urequest) : Outcome :=
  if bNumConfigurations < setup.wValue.toNat then .ok (ep0SetStall s)
  else if setup.wValue = 0 then .ok (ep0SendStatus { s with state := .address })
  else
    match restartInterfaces (s.call (.setConfig (lowByte setup.wValue))) s.intfList with
    | .error f => .error f
    | .ok s => .ok (ep0SendStatus { funcEnable malloc s with state := .configured })

/-- `_set_address`. -/
def setAddress (s : Udevice) (setup : Urequest) : Udevice :=
  { ep0SendStatus (s.call (.setAddress (lowByte setup.wValue))) with state := .address }

/-- `rt_usbd_set_feature`. -/
def setFeature (s : Udevice) (value index : BitVec 16) : Udevice :=
  if value = 0x01 then s
  else if value = 0x00 then s.call (.epSetStall (lowByte index))
  else s

/-- `rt_usbd_clear_feature`. -/
def clearFeature (s : Udevice) (value index : BitVec 16) : Udevice :=
  if value = 0x01 then s
  else if value = 0x00 then s.call (.epClearStall (lowByte index))
  else s

/-- `_standard_request` to the device. -/
def deviceRequest (malloc : Option Nat) (s : Udevice) (setup : Urequest) : Outcome :=
  if setup.bRequest = 0x00 then .ok (ep0Write s (.status false) 2)
  else if setup.bRequest = 0x01 then
    .ok (ep0SendStatus (clearFeature s setup.wValue setup.wIndex))
  else if setup.bRequest = 0x03 then .ok (setFeature s setup.wValue setup.wIndex)
  else if setup.bRequest = 0x05 then .ok (setAddress s setup)
  else if setup.bRequest = 0x06 then getDescriptor s setup
  else if setup.bRequest = 0x07 then .ok (ep0SetStall s)
  else if setup.bRequest = 0x08 then .ok (getConfig s)
  else if setup.bRequest = 0x09 then setConfig malloc s setup
  else .ok (ep0SetStall s)

/-! ## Requests to an interface -/

/-- `_interface_handler` of `cdc_vcom.c`, with its error code. -/
def interfaceHandler (s : Udevice) (setup : Urequest) : Udevice × Int :=
  if setup.bRequest = 0x00 ∨ setup.bRequest = 0x01 ∨ setup.bRequest = 0x02 ∨
      setup.bRequest = 0x03 ∨ setup.bRequest = 0x04 then (s, rtEok)
  else if setup.bRequest = 0x20 then (ep0Read s 7, rtEok)
  else if setup.bRequest = 0x21 then (ep0Write s .lineCoding (min setup.wLength.toNat 7), rtEok)
  else if setup.bRequest = 0x22 then
    (ep0SendStatus { s with connected := setup.wValue.getLsbD 0 }, rtEok)
  else if setup.bRequest = 0x23 then (s, rtEok)
  else (s, -rtError)

/-- `_get_interface`. -/
def getInterface (s : Udevice) (setup : Urequest) : Outcome :=
  if s.state ≠ .configured then .ok (ep0SetStall s)
  else
    match findInterface s (lowByte setup.wIndex) with
    | none => .error (.interface, s)
    | some intf =>
      match intf.currSetting with
      | none => .error (.altsetting, s)
      | some setting => .ok (ep0Write s (.altsetting setting.bAlternateSetting) 1)

/-- `intf->curr_setting = setting` in the list of interfaces. -/
def Udevice.setCurrSetting (s : Udevice) (num : BitVec 8) (setting : Option Ualtsetting) :
    Udevice :=
  { s with intfList := s.intfList.map fun intf =>
      if intf.intfNum = num then { intf with currSetting := setting } else intf }

/-- `_set_interface`. -/
def setInterface (s : Udevice) (setup : Urequest) : Outcome :=
  if s.state ≠ .configured then .ok (ep0SetStall s)
  else
    match findInterface s (lowByte setup.wIndex) with
    | none => .error (.interface, s)
    | some intf =>
      let setting := findAltsetting intf (lowByte setup.wValue)
      let s := s.setCurrSetting intf.intfNum setting
      match setting with
      | none => .error (.altsetting, s)
      | some setting => .ok (ep0SendStatus (restartEndpoints s setting))

/-- `_request_interface`. -/
def requestInterface (s : Udevice) (setup : Urequest) : Udevice × Int :=
  match findInterface s (lowByte setup.wIndex) with
  | some _ => interfaceHandler s setup
  | none => (s, -rtError)

/-- `_standard_request` to an interface. -/
def interfaceRequest (s : Udevice) (setup : Urequest) : Outcome :=
  if setup.bRequest = 0x0A then getInterface s setup
  else if setup.bRequest = 0x0B then setInterface s setup
  else
    let (t, ret) := requestInterface s setup
    if ret ≠ rtEok then .ok (ep0SetStall t) else .ok t

/-! ## Requests to an endpoint -/

/-- The requests that were put off are fired. They are all `ep->request` itself, so the list holds
the one node or none. -/
def fireRequests (s : Udevice) (e : VcomEp) : Udevice :=
  let s' := if (s.ep e).requestList = [] then s else ioRequest s e
  s'.setEp e { s'.ep e with requestList := [] }

/-- `USB_REQ_GET_STATUS` of an endpoint. -/
def endpointGetStatus (s : Udevice) (setup : Urequest) : Outcome :=
  match findEndpoint s (lowByte setup.wIndex) with
  | .error f => .error f
  | .ok none => .error (.endpoint, s)
  | .ok (some e) => .ok (ep0Write s (.status (s.ep e).stalled) 2)

/-- `USB_REQ_CLEAR_FEATURE` of an endpoint. -/
def endpointClearFeature (s : Udevice) (setup : Urequest) : Outcome :=
  match findEndpoint s (lowByte setup.wIndex) with
  | .error f => .error f
  | .ok none => if setup.wValue = 0x00 then .error (.endpoint, s) else .ok s
  | .ok (some e) =>
    if setup.wValue = 0x00 ∧ (s.ep e).stalled = true then
      let s := ep0SendStatus (clearFeature s setup.wValue setup.wIndex)
      .ok (fireRequests (s.setEp e { s.ep e with stalled := false }) e)
    else .ok s

/-- `USB_REQ_SET_FEATURE` of an endpoint. -/
def endpointSetFeature (s : Udevice) (setup : Urequest) : Outcome :=
  if setup.wValue = 0x00 then
    match findEndpoint s (lowByte setup.wIndex) with
    | .error f => .error f
    | .ok none => .error (.endpoint, s)
    | .ok (some e) =>
      let s := s.setEp e { s.ep e with stalled := true }
      .ok (ep0SendStatus (setFeature s setup.wValue setup.wIndex))
  else .ok s

/-- `_standard_request` to an endpoint. -/
def endpointRequest (s : Udevice) (setup : Urequest) : Outcome :=
  if setup.bRequest = 0x00 then endpointGetStatus s setup
  else if setup.bRequest = 0x01 then endpointClearFeature s setup
  else if setup.bRequest = 0x03 then endpointSetFeature s setup
  else if setup.bRequest = 0x0C then .ok s
  else .ok (ep0SetStall s)

/-! ## The dispatch -/

/-- `request_type & USB_REQ_TYPE_RECIPIENT_MASK`. -/
def Urequest.recipient (setup : Urequest) : BitVec 8 := setup.requestType &&& 0x1f

/-- `request_type & USB_REQ_TYPE_MASK`. -/
def Urequest.type (setup : Urequest) : BitVec 8 := setup.requestType &&& 0x60

/-- `_standard_request`. -/
def standardRequest (malloc : Option Nat) (s : Udevice) (setup : Urequest) : Outcome :=
  if setup.recipient = 0x00 then deviceRequest malloc s setup
  else if setup.recipient = 0x01 then interfaceRequest s setup
  else if setup.recipient = 0x02 then endpointRequest s setup
  else .ok (ep0SetStall s)

/-- `_function_request`: the number of interfaces is that of the configuration descriptor. -/
def functionRequest (s : Udevice) (setup : Urequest) : Udevice :=
  if s.intfList.length < setup.wIndex.toNat then ep0SetStall s
  else if setup.recipient = 0x01 then
    match findInterface s (lowByte setup.wIndex) with
    | none => ep0SetStall s
    | some _ => (interfaceHandler s setup).1
  else if setup.recipient = 0x02 then s
  else ep0SetStall s

/-- `rt_list_len(&device->os_comp_id_desc->func_desc)`: the vcom adds none. -/
def osCompIdFuncs : Nat := 0

/-- `_vendor_request`. -/
def vendorRequest (s : Udevice) (setup : Urequest) : Udevice :=
  if setup.bRequest = 0x41 then
    if setup.wIndex = 0x04 then
      if osCompIdFuncs = 0 then ep0SetStall s
      else ep0Write s .compIdDescriptor setup.wLength.toNat
    else if setup.wIndex = 0x05 then
      match findInterface s (lowByte setup.wValue) with
      | some _ => (interfaceHandler s setup).1
      | none => s
    else s
  else s

/-- `_setup_request`. -/
def setupRequest (malloc : Option Nat) (s : Udevice) (setup : Urequest) : Outcome :=
  if setup.type = 0x00 then standardRequest malloc s setup
  else if setup.type = 0x20 then .ok (functionRequest s setup)
  else if setup.type = 0x40 then .ok (vendorRequest s setup)
  else .ok (ep0SetStall s)

/-! ## The messages -/

/-- `_ep_out_handler`. What becomes of the received bytes is the matter of
`RtVcom.Vcom.Reception`. -/
def epOutHandler (s : Udevice) : Udevice :=
  let ep := s.ep .epOut
  let ep := { ep with request := { ep.request with
    buffer := ep.buffer, size := ep.maxPacket, reqType := .readBest } }
  ioRequest (s.setEp .epOut ep) .epOut

/-- The handler of an endpoint. -/
def epHandler (s : Udevice) : VcomEp → Udevice
  | .epCmd => s
  | .epIn =>
    let zlp := (s.ep .epIn).request.size ≠ 0 ∧
      (s.ep .epIn).request.size % (s.ep .epIn).maxPacket = 0
    let s := if zlp then { s with inSending := true } else s
    s.perform .epIn (epInHandler (s.ep .epIn).toUep)
  | .epOut => epOutHandler s

/-- `_data_notify`; `epRead` is what `dcd_ep_read` answers. -/
def dataNotifyMsg (s : Udevice) (epAddr : BitVec 8) (size epRead : Nat) : Outcome :=
  if s.state ≠ .configured then .ok s
  else
    match findEndpoint s epAddr with
    | .error f => .error f
    | .ok none => .ok s
    | .ok (some e) =>
      let (ep, ops, call) := dataNotify s.state (s.ep e).toUep size epRead
      let s := s.perform e (ep, ops)
      .ok (if call.isSome then epHandler s e else s)

/-- `_ep0_out_notify`, with what remains of the data stage. -/
def ep0Remain (s : Udevice) (remainSize : Nat) : Udevice :=
  let s := { s with ep0 := { s.ep0 with remainSize } }
  if remainSize = 0 then
    if s.ep0.rxIndicate then ep0SendStatus s else s
  else
    Udevice.call { s with ep0 := { s.ep0 with stage := .dataOut } } (.ep0Read remainSize)

/-- `_ep0_out_notify`; `epRead` is what `dcd_ep_read` answers. -/
def ep0OutNotify (s : Udevice) (size epRead : Nat) : Udevice :=
  let size := if size = 0 then epRead else size
  if s.ep0.remainSize = 0 ∨ size = 0 then s
  else ep0Remain s (rtSizeSub s.ep0.remainSize size)

/-- `udev_msg`, by its type. -/
inductive UdevMsg
  | setupNotify (setup : Urequest)
  | dataNotify (epAddr : BitVec 8) (size epRead : Nat)
  | ep0Out (size epRead : Nat)
  | epClearFeature
  | sof
  | reset
  | plugIn
  | plugOut
deriving Repr, DecidableEq

/-- One turn of `rt_usbd_thread_entry`. The function has no handler for the start of a frame, and
`USB_MSG_EP_CLEAR_FEATURE` is unknown to the loop. -/
def usbdThreadEntry (malloc : Option Nat) (s : Udevice) : UdevMsg → Outcome
  | .setupNotify setup => setupRequest malloc s setup
  | .dataNotify epAddr size epRead => dataNotifyMsg s epAddr size epRead
  | .ep0Out size epRead => .ok (ep0OutNotify s size epRead)
  | .epClearFeature => .ok s
  | .sof => .ok s
  | .reset =>
    let s := if s.state = .address ∨ s.state = .configured then funcDisable s else s
    .ok { s with state := .notAttached }
  | .plugIn => .ok { s with state := .attached }
  | .plugOut => .ok (funcDisable { s with state := .notAttached })

/-- A turn of the loop, a write that the transmit thread requests, or interrupts of endpoint 0. -/
inductive UsbEvent
  | message (malloc : Option Nat) (msg : UdevMsg)
  | transmit (buffer size : Nat)
  | ep0Interrupt (ep0 : Ep0)
deriving Repr, DecidableEq

/-- `vcom_tx_thread_entry`, the request. -/
def transmitRequest (s : Udevice) (buffer size : Nat) : Udevice :=
  let ep := s.ep .epIn
  let ep := { ep with request := { ep.request with
    buffer := some buffer, size, reqType := .write } }
  ioRequest (s.setEp .epIn ep) .epIn

/-- Where a handler runs into a fault the run ends. -/
def usbStep (s : Udevice) : UsbEvent → Option Udevice
  | .message malloc msg => (usbdThreadEntry malloc s msg).toOption
  | .transmit buffer size => some (transmitRequest s buffer size)
  | .ep0Interrupt ep0 => some { s with ep0 }

/-! ## The device -/

/-- The addresses that `rt_usbd_ep_assign` gives the endpoints. -/
def VcomEp.address : VcomEp → BitVec 8
  | .epCmd => 0x82
  | .epIn => 0x81
  | .epOut => 0x01

/-- The maximum packet sizes of the descriptors. -/
def VcomEp.maxPacket : VcomEp → Nat
  | .epCmd => 0x08
  | .epIn => 0x40
  | .epOut => 0x40

/-- `rt_usbd_endpoint_new`. -/
def usbdEndpointNew (e : VcomEp) : Uendpoint where
  dirIn := e ≠ .epOut
  maxPacket := e.maxPacket
  request := { reqType := .readFull, buffer := none, size := 0, remainSize := 0 }
  stalled := false
  requestList := []
  bEndpointAddress := e.address
  buffer := none

/-- The alternate settings that `rt_usbd_function_cdc_create` makes. -/
def commSetting : Ualtsetting := { bAlternateSetting := 0, epList := [.epCmd] }
def dataSetting : Ualtsetting := { bAlternateSetting := 0, epList := [.epIn, .epOut] }

/-- The interfaces of the function. -/
def cdcInterfaces : List Uinterface :=
  [{ intfNum := 0, currSetting := some commSetting, settingList := [commSetting] },
    { intfNum := 1, currSetting := some dataSetting, settingList := [dataSetting] }]

/-- The device behind `rt_usb_device_init`, which sets configuration 1. -/
def cdcDevice : Udevice where
  state := .notAttached
  intfList := cdcInterfaces
  enabled := false
  connected := false
  inSending := false
  ep := usbdEndpointNew
  ep0 := { size := 0, remainSize := 0, rxIndicate := false, stage := .idle }
  calls := [.setConfig 1]

def usbSystem : Machine Udevice UsbEvent where
  init := cdcDevice
  step := usbStep

end RtVcom.Usb
