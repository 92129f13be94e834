import RtVcom.Serial.Device

/-!
# Switching the console

The shell reads from one serial device and `rt_kprintf` prints to one. Both can be moved to
another device at run time: the shell by `finsh_set_device` of `components/finsh/shell.c`, the
output by `rt_console_set_device` of `src/kservice.c`. A long press of a key moves both,
`key0_long_press_callback` of `applications/key.c` to the virtual COM port and
`key1_long_press_callback` back to the UART.

Each of the two users holds one reference of its device. Moving the output opens the device
without `RT_DEVICE_FLAG_INT_RX` and so takes the shell's receive mode away; the callbacks close
and open the device once more to get it back.

A device passes through two predicates on the way. `InUse b n` is a device with `n` references,
`b` of them held by others than the shell and the output, whose receive structure is allocated;
`Released b` is one that the shell and the output have left. `Settled` says of the whole board
that the shell and the output are on one device and have left every other one. Each operation
of a callback has one lemma on these predicates, and `longPressCallback_settled` composes them:
a long press leads from a settled board to a settled board, whichever device was in use before.
-/

namespace RtVcom.Console

open RtVcom.Kernel RtVcom.Serial

/-! ## The board -/

/-- The receive callbacks of this repository. -/
inductive RxIndicate
  | finshRxInd
  | uart3Input
deriving Repr, DecidableEq

abbrev Device : Type := SerialDevice RxIndicate

/-- `rt_device_t`: which of the registered devices. -/
abbrev DevicePtr : Type := Nat

/-- The object list of the devices: names and what they name, the latest registered first. -/
abbrev ObjectList : Type := List (String × DevicePtr)

/-- `struct finsh_shell`, the part that a switch of the device changes. -/
structure FinshShell where
  device : Option DevicePtr
  line : List UInt8
  lineCurpos : Nat
  linePosition : Nat
deriving Repr, DecidableEq

/-- The devices, the device of `rt_kprintf`, and the shell. -/
structure Board where
  device : DevicePtr → Device
  consoleDevice : Option DevicePtr
  shell : FinshShell

/-- `RT_NAME_MAX`. -/
def rtNameMax : Nat := 8

/-- `FINSH_CMD_SIZE`. -/
def finshCmdSize : Nat := 80

/-- `RT_CONSOLEBUF_SIZE`. -/
def rtConsolebufSize : Nat := 128

/-- `rt_device_find`: the first object whose name agrees in the first `RT_NAME_MAX`
characters. -/
def rtDeviceFind (objects : ObjectList) (name : String) : Option DevicePtr :=
  (objects.find? fun o => o.1.toList.take rtNameMax == name.toList.take rtNameMax).map Prod.snd

/-- A device changed in place. -/
def Board.set (s : Board) (dev : DevicePtr) (d : Device) : Board :=
  { s with device := fun p => if p = dev then d else s.device p }

/-- `rt_device_open` of a device of the board. -/
def Board.openDevice (s : Board) (dev : DevicePtr) (oflag : BitVec 16) : Board :=
  s.set dev (rtDeviceOpen serialOps (s.device dev) oflag).1

/-- `rt_device_close` of a device of the board. -/
def Board.closeDevice (s : Board) (dev : DevicePtr) : Board :=
  s.set dev (rtDeviceClose serialOps (s.device dev)).1

/-! ## The operations -/

/-- What `rt_kprintf` writes of a formatted text: `rt_vsnprintf` ends `rt_log_buf` with a
terminator, which is written too when the text does not fit. -/
def rtLogBuf (text : List UInt8) : List UInt8 :=
  if text.length < rtConsolebufSize - 1 then text
  else text.take (rtConsolebufSize - 2) ++ [0]

/-- `rt_kprintf` of a text with its arguments filled in: the stream flag is set for the write
only. -/
def rtKprintf (s : Board) (text : String) : Board :=
  match s.consoleDevice with
  | none => s
  | some dev =>
    let oldFlag := (s.device dev).openFlag
    let d := { s.device dev with openFlag := oldFlag ||| rtDeviceFlagStream }
    let d := rtDeviceWrite serialOps d (rtLogBuf text.toUTF8.toList)
    s.set dev { d with openFlag := oldFlag }

/-- `finsh_set_device`, the old device of the shell. -/
def finshReleaseDevice (s : Board) : Option DevicePtr → Board
  | none => s
  | some old =>
    let s := s.closeDevice old
    s.set old (rtDeviceSetRxIndicate (s.device old) none)

/-- `finsh_set_device`. -/
def finshSetDevice (objects : ObjectList) (s : Board) (deviceName : String) : Board :=
  match rtDeviceFind objects deviceName with
  | none => rtKprintf s ("finsh: can not find device: " ++ deviceName ++ "\n")
  | some dev =>
    if s.shell.device = some dev then s
    else
      let oflag := rtDeviceOflagRdwr ||| rtDeviceFlagIntRx ||| rtDeviceFlagStream
      let opened := s.openDevice dev oflag
      if (rtDeviceOpen serialOps (s.device dev) oflag).2 = rtEok then
        let s := finshReleaseDevice opened s.shell.device
        let shell : FinshShell :=
          { device := some dev, line := List.replicate finshCmdSize 0, lineCurpos := 0,
            linePosition := 0 }
        let s := { s with shell }
        s.set dev (rtDeviceSetRxIndicate (s.device dev) (some .finshRxInd))
      else opened

/-- `rt_console_set_device`, with the old device it answers. -/
def rtConsoleSetDevice (objects : ObjectList) (s : Board) (name : String) :
    Board × Option DevicePtr :=
  match rtDeviceFind objects name with
  | none => (s, s.consoleDevice)
  | some new =>
    let closed := match s.consoleDevice with
      | none => s
      | some old => s.closeDevice old
    let opened := closed.openDevice new (rtDeviceOflagRdwr ||| rtDeviceFlagStream)
    ({ opened with consoleDevice := some new }, s.consoleDevice)

/-! ## The callbacks -/

/-- `vcom_dev`, assigned once by `button_cycle_check_thread` before it looks at the keys. -/
def vcomDev (objects : ObjectList) : Option DevicePtr := rtDeviceFind objects "vcom"

/-- `uart_dev`, likewise; `RT_CONSOLE_DEVICE_NAME` is `uart1`. -/
def uartDev (objects : ObjectList) : Option DevicePtr := rtDeviceFind objects "uart1"

/-- The close and the open at the end of a callback. -/
def reopen (s : Board) : Option DevicePtr → Board
  | none => s
  | some dev =>
    (s.closeDevice dev).openDevice dev
      (rtDeviceOflagRdwr ||| rtDeviceFlagStream ||| rtDeviceFlagIntRx)

/-- The body of the long press callbacks. -/
def longPressCallback (objects : ObjectList) (pressed changed name : String)
    (dev : Option DevicePtr) (s : Board) : Board :=
  let s := rtKprintf s pressed
  let s := rtKprintf s changed
  let s := finshSetDevice objects s name
  let s := (rtConsoleSetDevice objects s name).1
  let s := reopen s dev
  rtKprintf s changed

/-- `key0_long_press_callback`. -/
def key0LongPressCallback (objects : ObjectList) (s : Board) : Board :=
  longPressCallback objects "key0 long pressed\n" "console change to vcom\n" "vcom"
    (vcomDev objects) s

/-- `key1_long_press_callback`. -/
def key1LongPressCallback (objects : ObjectList) (s : Board) : Board :=
  longPressCallback objects "key1 long pressed\n" "console change to uart1\n" "uart1"
    (uartDev objects) s

/-! ## The boot -/

/-- The devices that `rt_hw_usart_init` and `rt_usbd_function_cdc_create` register. -/
def uart1 : DevicePtr := 0
def uart3 : DevicePtr := 1
def vcom : DevicePtr := 2

def boardObjects : ObjectList := [("vcom", vcom), ("uart3", uart3), ("uart1", uart1)]

/-- The serial devices of the board. -/
def serialDevices : List DevicePtr := [uart1, uart3, vcom]

/-- The references of a device that are a user's on the device `user`. -/
def holds (user p : DevicePtr) : Nat := if p = user then 1 else 0

theorem holds_self (p : DevicePtr) : holds p p = 1 := if_pos rfl

theorem holds_ne {user p : DevicePtr} (h : p ≠ user) : holds user p = 0 := if_neg h

theorem holds_le (user p : DevicePtr) : holds user p ≤ 1 := by
  unfold holds
  split
  · exact Nat.le_refl 1
  · exact Nat.zero_le 1

/-- A serial device behind `rt_hw_serial_register`. -/
def rtHwSerialRegister (bufsz : Nat) (flag : BitVec 16) : Device where
  flag := flag
  openFlag := 0
  refCount := 0
  rxIndicate := none
  driver :=
    { bufsz, configure := rtEok, serialRx := none, serialTx := none, controls := [], calls := [] }

/-- The board with its devices registered: the UARTs have a DMA stream, and the virtual COM port
is built without `VCOM_TX_USE_DMA`. -/
def registered : Board where
  device := fun dev =>
    if dev = vcom then
      rtHwSerialRegister 128 (rtDeviceFlagRdwr ||| rtDeviceFlagIntRx ||| rtDeviceFlagIntTx)
    else
      rtHwSerialRegister 64 (rtDeviceFlagRdwr ||| rtDeviceFlagIntRx ||| rtDeviceFlagDmaRx)
  consoleDevice := none
  shell :=
    { device := none, line := List.replicate finshCmdSize 0, lineCurpos := 0, linePosition := 0 }

/-- The board when the keys are first looked at: `rt_hw_board_init` sets the console,
`hmi_create` opens `uart3`, the shell thread takes the console's device, and `main` opens the
virtual COM port. -/
def boot : Board :=
  let s := (rtConsoleSetDevice boardObjects registered "uart1").1
  let s := s.openDevice uart3 (rtDeviceOflagRdwr ||| rtDeviceFlagIntRx)
  let s := s.set uart3 (rtDeviceSetRxIndicate (s.device uart3) (some .uart3Input))
  let s := finshSetDevice boardObjects s "uart1"
  s.openDevice vcom (rtDeviceOflagRdwr ||| rtDeviceFlagIntRx)

/-! ## A device on its way -/

/-- The open flags of the device of the shell. -/
def consoleOpenFlag : BitVec 16 :=
  rtDeviceOflagRdwr ||| rtDeviceFlagStream ||| rtDeviceFlagIntRx ||| rtDeviceOflagOpen

/-- A device with `n` references and its receive structure. Of the references `b` are not the
shell's or the output's; where there are such users, the driver was never told to stop. -/
structure InUse (b n : Nat) (d : Device) : Prop where
  ready : Ready d
  refs : d.refCount = n
  allocated : d.driver.serialRx.isSome = true
  kept : 0 < b → d.driver.controls = [.setInt rtDeviceFlagIntRx]

/-- A device that only its `b` other users hold, closed when there are none. -/
structure Released (b : Nat) (d : Device) : Prop where
  ready : Ready d
  refs : d.refCount = b
  silent : d.rxIndicate = none
  closed : b = 0 → d.openFlag = rtDeviceOflagClose ∧ d.driver.serialRx = none
  receives : 0 < b → hasFlag d.openFlag rtDeviceFlagIntRx = true ∧
    hasFlag d.openFlag rtDeviceOflagOpen = true ∧ d.driver.serialRx.isSome = true
  kept : 0 < b → d.driver.controls = [.setInt rtDeviceFlagIntRx]

variable {b n : Nat} {d : Device}

/-- The flags that the shell opens its device with, and a callback opens it again with. -/
def shellOflag : BitVec 16 := rtDeviceOflagRdwr ||| rtDeviceFlagIntRx ||| rtDeviceFlagStream

/-- The flags of the shell ask for interrupt reception. -/
theorem receives_shellOflag : ReceivesByInterrupt shellOflag := by
  constructor <;> decide

theorem receives_consoleOpenFlag : ReceivesByInterrupt consoleOpenFlag := by
  constructor <;> decide

/-- The console opens its device with the flags of the shell. -/
theorem reopen_shellOflag :
    rtDeviceOflagRdwr ||| rtDeviceFlagStream ||| rtDeviceFlagIntRx = shellOflag := by
  decide

/-- The flags the device has after an open. -/
theorem openFlag_shell :
    (shellOflag &&& 0xff ||| rtDeviceFlagIntRx ||| rtDeviceFlagStream) ||| rtDeviceOflagOpen =
      consoleOpenFlag := by
  decide

/-- The flags that `rt_console_set_device` opens its device with. -/
theorem polls_outputOflag : Polls (rtDeviceOflagRdwr ||| rtDeviceFlagStream) := by
  constructor <;> decide

/-- An open with the shell's flags leads into use, whether the device was in use or released. -/
theorem inUse_open_shell (hready : Ready d) (hroom : d.refCount + 1 < rtDeviceRefCountMod)
    (hkept : 0 < b → d.driver.serialRx.isSome = true ∧
      d.driver.controls = [.setInt rtDeviceFlagIntRx]) :
    InUse b (d.refCount + 1) (rtDeviceOpen serialOps d shellOflag).1 ∧
      (rtDeviceOpen serialOps d shellOflag).1.openFlag = consoleOpenFlag ∧
      (rtDeviceOpen serialOps d shellOflag).1.rxIndicate = d.rxIndicate ∧
      (rtDeviceOpen serialOps d shellOflag).2 = rtEok := by
  rw [rtDeviceOpen_receives hready receives_shellOflag, streamFlag_stream (by decide)]
  refine ⟨⟨⟨hready.active, hready.shared, hready.intRx⟩, ?_, ?_, ?_⟩, openFlag_shell, rfl, rfl⟩
  · exact Nat.mod_eq_of_lt hroom
  · simp only [Option.isSome_or, Option.isSome_some, Bool.or_true]
  · intro hb
    obtain ⟨hsome, hcontrols⟩ := hkept hb
    simp only [hsome, if_true, List.append_nil]
    exact hcontrols

/-- A device in use is opened once more. -/
theorem InUse.open_shell (h : InUse b n d) (hroom : n + 1 < rtDeviceRefCountMod) :
    InUse b (n + 1) (rtDeviceOpen serialOps d shellOflag).1 ∧
      (rtDeviceOpen serialOps d shellOflag).1.openFlag = consoleOpenFlag ∧
      (rtDeviceOpen serialOps d shellOflag).1.rxIndicate = d.rxIndicate := by
  have hrefs := h.refs
  subst hrefs
  obtain ⟨huse, hflags, hrx, -⟩ :=
    inUse_open_shell h.ready hroom fun hb => ⟨h.allocated, h.kept hb⟩
  exact ⟨huse, hflags, hrx⟩

/-- A released device is opened by the shell. -/
theorem Released.open_shell (h : Released b d) (hroom : b + 1 < rtDeviceRefCountMod) :
    InUse b (b + 1) (rtDeviceOpen serialOps d shellOflag).1 ∧
      (rtDeviceOpen serialOps d shellOflag).2 = rtEok := by
  obtain ⟨huse, -, -, hok⟩ :=
    inUse_open_shell h.ready (h.refs.symm ▸ hroom) fun hb => ⟨(h.receives hb).2.2, h.kept hb⟩
  rw [h.refs] at huse
  exact ⟨huse, hok⟩

/-- The open for the output takes the receive mode away and nothing else. -/
theorem InUse.open_output (h : InUse b n d) (hroom : n + 1 < rtDeviceRefCountMod) :
    InUse b (n + 1) (rtDeviceOpen serialOps d (rtDeviceOflagRdwr ||| rtDeviceFlagStream)).1 ∧
      (rtDeviceOpen serialOps d (rtDeviceOflagRdwr ||| rtDeviceFlagStream)).1.rxIndicate =
        d.rxIndicate := by
  rw [rtDeviceOpen_polls h.ready polls_outputOflag]
  refine ⟨⟨⟨h.ready.active, h.ready.shared, h.ready.intRx⟩, ?_, h.allocated, h.kept⟩, rfl⟩
  show (d.refCount + 1) % rtDeviceRefCountMod = n + 1
  rw [h.refs]
  exact Nat.mod_eq_of_lt hroom

/-- A close that is not the last. -/
theorem InUse.close (h : InUse b (n + 2) d) :
    InUse b (n + 1) (rtDeviceClose serialOps d).1 ∧
      (rtDeviceClose serialOps d).1.openFlag = d.openFlag ∧
      (rtDeviceClose serialOps d).1.rxIndicate = d.rxIndicate := by
  have hrefs := h.refs
  rw [rtDeviceClose_shared (by omega)]
  refine ⟨⟨⟨h.ready.active, h.ready.shared, h.ready.intRx⟩, ?_, h.allocated, h.kept⟩, rfl, rfl⟩
  show d.refCount - 1 = n + 1
  omega

/-- The output leaves a device that the shell has left before: the close is the last one
exactly when there are no other users. -/
theorem InUse.release (h : InUse b (b + 1) d) (hsilent : d.rxIndicate = none)
    (hflags : d.openFlag = consoleOpenFlag) : Released b (rtDeviceClose serialOps d).1 := by
  have hrefs := h.refs
  cases b with
  | zero =>
    rw [rtDeviceClose_receives hrefs (hflags ▸ receives_consoleOpenFlag)]
    exact ⟨⟨h.ready.active, h.ready.shared, h.ready.intRx⟩, rfl, hsilent, fun _ => ⟨rfl, rfl⟩,
      fun hb => absurd hb (Nat.lt_irrefl 0), fun hb => absurd hb (Nat.lt_irrefl 0)⟩
  | succ b =>
    rw [rtDeviceClose_shared (by omega)]
    refine ⟨⟨h.ready.active, h.ready.shared, h.ready.intRx⟩, ?_, hsilent,
      fun hb => absurd hb (Nat.succ_ne_zero b), fun _ => ⟨?_, ?_, h.allocated⟩, h.kept⟩
    · show d.refCount - 1 = b + 1
      omega
    · show hasFlag d.openFlag rtDeviceFlagIntRx = true
      rw [hflags]
      decide
    · show hasFlag d.openFlag rtDeviceOflagOpen = true
      rw [hflags]
      decide

/-- Both predicates do not look at what a device transmits or whom it calls back. -/
theorem InUse.transmitted (h : InUse b n d) (serialTx : Option SerialTx)
    (calls : List DriverCall) :
    InUse b n { d with driver := { d.driver with serialTx, calls } } :=
  ⟨⟨h.ready.active, h.ready.shared, h.ready.intRx⟩, h.refs, h.allocated, h.kept⟩

/-- Output leaves a released device released. -/
theorem Released.transmitted (h : Released b d) (serialTx : Option SerialTx)
    (calls : List DriverCall) :
    Released b { d with driver := { d.driver with serialTx, calls } } :=
  ⟨⟨h.ready.active, h.ready.shared, h.ready.intRx⟩, h.refs, h.silent, h.closed, h.receives, h.kept⟩

/-- The notice of reception does not count as a use. -/
theorem InUse.setRxIndicate (h : InUse b n d) (rxInd : Option RxIndicate) :
    InUse b n (rtDeviceSetRxIndicate d rxInd) :=
  ⟨⟨h.ready.active, h.ready.shared, h.ready.intRx⟩, h.refs, h.allocated, h.kept⟩

/-! ## The board on its way -/

/-- The shell and the output are on `dev` and have left the other devices of `consoles`. -/
structure Moved (consoles : List DevicePtr) (baseline : DevicePtr → Nat) (s : Board)
    (dev : DevicePtr) : Prop where
  shell : s.shell.device = some dev
  output : s.consoleDevice = some dev
  inUse : InUse (baseline dev) (baseline dev + 2) (s.device dev)
  indicate : (s.device dev).rxIndicate = some .finshRxInd
  released : ∀ p ∈ consoles, p ≠ dev → Released (baseline p) (s.device p)

/-- The same, with the shell able to receive. -/
structure Settled (consoles : List DevicePtr) (baseline : DevicePtr → Nat) (s : Board)
    (dev : DevicePtr) : Prop extends Moved consoles baseline s dev where
  flags : (s.device dev).openFlag = consoleOpenFlag

/-- Only the shell has moved from `cur` to `dev`. -/
structure ShellMoved (consoles : List DevicePtr) (baseline : DevicePtr → Nat) (s : Board)
    (cur dev : DevicePtr) : Prop where
  distinct : cur ≠ dev
  shell : s.shell.device = some dev
  output : s.consoleDevice = some cur
  inUse : InUse (baseline dev) (baseline dev + 1) (s.device dev)
  indicate : (s.device dev).rxIndicate = some .finshRxInd
  leaving : InUse (baseline cur) (baseline cur + 1) (s.device cur)
  silent : (s.device cur).rxIndicate = none
  flags : (s.device cur).openFlag = consoleOpenFlag
  released : ∀ p ∈ consoles, p ≠ cur → p ≠ dev → Released (baseline p) (s.device p)

variable {objects : ObjectList} {consoles : List DevicePtr} {baseline : DevicePtr → Nat}
  {s : Board} {cur dev : DevicePtr} {name : String}

@[simp] theorem Board.set_device_self (d : Device) : (s.set dev d).device dev = d :=
  if_pos rfl

@[simp] theorem Board.set_device_ne {p : DevicePtr} (h : p ≠ dev) (d : Device) :
    (s.set dev d).device p = s.device p :=
  if_neg h

/-- Printing changes no device but for what it transmits. -/
theorem rtKprintf_device (s : Board) (text : String) (p : DevicePtr) :
    ∃ serialTx calls, (rtKprintf s text).device p =
      { s.device p with driver := { (s.device p).driver with serialTx, calls } } := by
  unfold rtKprintf
  cases s.consoleDevice with
  | none => exact ⟨_, _, rfl⟩
  | some dev =>
    by_cases hp : p = dev
    · subst hp
      obtain ⟨serialTx, calls, hwrite⟩ := rtDeviceWrite_eq
        { s.device p with openFlag := (s.device p).openFlag ||| rtDeviceFlagStream }
        (rtLogBuf text.toUTF8.toList)
      refine ⟨serialTx, calls, ?_⟩
      simp only [Board.set_device_self, hwrite]
    · refine ⟨(s.device p).driver.serialTx, (s.device p).driver.calls, ?_⟩
      simp only [Board.set_device_ne hp]

/-- Printing changes neither user. -/
theorem rtKprintf_users (s : Board) (text : String) :
    (rtKprintf s text).shell = s.shell ∧ (rtKprintf s text).consoleDevice = s.consoleDevice := by
  unfold rtKprintf
  cases hc : s.consoleDevice with
  | none => exact ⟨rfl, hc⟩
  | some dev => exact ⟨rfl, hc⟩

theorem rtKprintf_settled (h : Settled consoles baseline s dev) (text : String) :
    Settled consoles baseline (rtKprintf s text) dev := by
  obtain ⟨hshell, houtput⟩ := rtKprintf_users s text
  obtain ⟨serialTx, calls, hdev⟩ := rtKprintf_device s text dev
  refine ⟨⟨by rw [hshell, h.shell], by rw [houtput, h.output], ?_, ?_, ?_⟩, ?_⟩
  · rw [hdev]
    exact h.inUse.transmitted serialTx calls
  · rw [hdev]
    exact h.indicate
  · intro p hp hne
    obtain ⟨serialTx, calls, hdev⟩ := rtKprintf_device s text p
    rw [hdev]
    exact (h.released p hp hne).transmitted serialTx calls
  · rw [hdev]
    exact h.flags

/-- The shell is on the device already. -/
theorem finshSetDevice_same (h : Settled consoles baseline s dev)
    (hfind : rtDeviceFind objects name = some dev) : finshSetDevice objects s name = s := by
  simp only [finshSetDevice, hfind, h.shell, if_true]

/-- What a move of the shell does to the devices: the new one is opened and called back, the
old one gives a reference and its callback back. -/
theorem finshSetDevice_devices (hshell : s.shell.device = some cur) (hne : cur ≠ dev)
    (hfind : rtDeviceFind objects name = some dev)
    (hok : (rtDeviceOpen serialOps (s.device dev) shellOflag).2 = rtEok) :
    (finshSetDevice objects s name).shell.device = some dev ∧
      (finshSetDevice objects s name).consoleDevice = s.consoleDevice ∧
      (finshSetDevice objects s name).device dev =
        rtDeviceSetRxIndicate (rtDeviceOpen serialOps (s.device dev) shellOflag).1
          (some .finshRxInd) ∧
      (finshSetDevice objects s name).device cur =
        rtDeviceSetRxIndicate (rtDeviceClose serialOps (s.device cur)).1 none ∧
      ∀ p, p ≠ cur → p ≠ dev → (finshSetDevice objects s name).device p = s.device p := by
  have hother : some cur ≠ some dev := fun he => hne (Option.some.inj he)
  have hok' : (rtDeviceOpen serialOps (s.device dev)
      (rtDeviceOflagRdwr ||| rtDeviceFlagIntRx ||| rtDeviceFlagStream)).2 = rtEok := hok
  simp only [finshSetDevice, hfind, hother, if_false, hok', if_true, hshell, finshReleaseDevice,
    Board.openDevice, Board.closeDevice]
  refine ⟨rfl, rfl, ?_, ?_, ?_⟩
  · simp only [Board.set_device_self, Board.set_device_ne hne.symm]
    rfl
  · simp only [Board.set_device_self, Board.set_device_ne hne]
  · intro p hcur hdev
    simp only [Board.set_device_ne hdev, Board.set_device_ne hcur]

/-- `finsh_set_device` moves the shell to the named device. -/
theorem finshSetDevice_moves (h : Settled consoles baseline s cur) (hne : cur ≠ dev)
    (hmem : dev ∈ consoles) (hroom : baseline dev + 2 < rtDeviceRefCountMod)
    (hfind : rtDeviceFind objects name = some dev) :
    ShellMoved consoles baseline (finshSetDevice objects s name) cur dev := by
  obtain ⟨huse, hok⟩ := (h.released dev hmem hne.symm).open_shell (by omega)
  obtain ⟨hclose, hflags, -⟩ := h.inUse.close
  obtain ⟨hshell, houtput, hdev, hcur, hrest⟩ :=
    finshSetDevice_devices h.shell hne hfind hok
  refine ⟨hne, hshell, houtput.trans h.output, ?_, ?_, ?_, ?_, ?_, ?_⟩
  · rw [hdev]
    exact huse.setRxIndicate _
  · rw [hdev]
    rfl
  · rw [hcur]
    exact hclose.setRxIndicate _
  · rw [hcur]
    rfl
  · rw [hcur]
    exact hflags.trans h.flags
  · intro p hp hpcur hpdev
    rw [hrest p hpcur hpdev]
    exact h.released p hp hpcur

/-- What `rt_console_set_device` does to a board whose output is on `cur`. -/
theorem rtConsoleSetDevice_board (houtput : s.consoleDevice = some cur)
    (hfind : rtDeviceFind objects name = some dev) :
    (rtConsoleSetDevice objects s name).1 =
      { (s.closeDevice cur).openDevice dev (rtDeviceOflagRdwr ||| rtDeviceFlagStream) with
        consoleDevice := some dev } := by
  simp only [rtConsoleSetDevice, hfind, houtput]

/-- The output stays: it gives its reference back and takes a new one. -/
theorem rtConsoleSetDevice_same (h : Settled consoles baseline s dev)
    (hroom : baseline dev + 2 < rtDeviceRefCountMod)
    (hfind : rtDeviceFind objects name = some dev) :
    Moved consoles baseline (rtConsoleSetDevice objects s name).1 dev := by
  obtain ⟨hclose, -, hrxClose⟩ := h.inUse.close
  obtain ⟨hopen, hrxOpen⟩ := hclose.open_output hroom
  rw [rtConsoleSetDevice_board h.output hfind]
  refine ⟨h.shell, rfl, ?_, ?_, ?_⟩
  · simpa only [Board.openDevice, Board.closeDevice, Board.set_device_self] using hopen
  · simp only [Board.openDevice, Board.closeDevice, Board.set_device_self, hrxOpen, hrxClose,
      h.indicate]
  · intro p hp hne
    simp only [Board.openDevice, Board.closeDevice, Board.set_device_ne hne]
    exact h.released p hp hne

/-- The output follows the shell, and leaves a device that it was the last to use. -/
theorem rtConsoleSetDevice_moves (h : ShellMoved consoles baseline s cur dev)
    (hroom : baseline dev + 2 < rtDeviceRefCountMod)
    (hfind : rtDeviceFind objects name = some dev) :
    Moved consoles baseline (rtConsoleSetDevice objects s name).1 dev := by
  have hrelease := h.leaving.release h.silent h.flags
  obtain ⟨hopen, hrxOpen⟩ := h.inUse.open_output hroom
  rw [rtConsoleSetDevice_board h.output hfind]
  refine ⟨h.shell, rfl, ?_, ?_, ?_⟩
  · simpa only [Board.openDevice, Board.closeDevice, Board.set_device_self,
      Board.set_device_ne h.distinct.symm] using hopen
  · simp only [Board.openDevice, Board.closeDevice, Board.set_device_self,
      Board.set_device_ne h.distinct.symm, hrxOpen, h.indicate]
  · intro p hp hne
    by_cases hcur : p = cur
    · subst hcur
      simpa only [Board.openDevice, Board.closeDevice, Board.set_device_self,
        Board.set_device_ne hne] using hrelease
    · simp only [Board.openDevice, Board.closeDevice, Board.set_device_ne hne,
        Board.set_device_ne hcur]
      exact h.released p hp hcur hne

/-- The close and open at the end of a callback give the shell its receive mode back. -/
theorem reopen_settled (h : Moved consoles baseline s dev)
    (hroom : baseline dev + 2 < rtDeviceRefCountMod) :
    Settled consoles baseline (reopen s (some dev)) dev := by
  obtain ⟨hclose, -, hrxClose⟩ := h.inUse.close
  obtain ⟨hopen, hflags, hrxOpen⟩ := hclose.open_shell hroom
  rw [reopen, reopen_shellOflag]
  refine ⟨⟨h.shell, h.output, ?_, ?_, ?_⟩, ?_⟩
  · simpa only [Board.openDevice, Board.closeDevice, Board.set_device_self] using hopen
  · simp only [Board.openDevice, Board.closeDevice, Board.set_device_self, hrxOpen, hrxClose,
      h.indicate]
  · intro p hp hne
    simp only [Board.openDevice, Board.closeDevice, Board.set_device_ne hne]
    exact h.released p hp hne
  · simpa only [Board.openDevice, Board.closeDevice, Board.set_device_self] using hflags

/-- A long press settles the board on the device it names, from whichever device. -/
theorem longPressCallback_settled (h : Settled consoles baseline s cur) (hmem : dev ∈ consoles)
    (hroom : baseline dev + 2 < rtDeviceRefCountMod)
    (hfind : rtDeviceFind objects name = some dev) (pressed changed : String) :
    Settled consoles baseline (longPressCallback objects pressed changed name (some dev) s)
      dev := by
  have hprinted := rtKprintf_settled (rtKprintf_settled h pressed) changed
  apply rtKprintf_settled
  apply reopen_settled _ hroom
  by_cases hne : cur = dev
  · subst hne
    rw [finshSetDevice_same hprinted hfind]
    exact rtConsoleSetDevice_same hprinted hroom hfind
  · exact rtConsoleSetDevice_moves (finshSetDevice_moves hprinted hne hmem hroom hfind) hroom hfind

/-! ## Every sequence of long presses -/

/-- The keys. -/
inductive Key
  | key0
  | key1
deriving Repr, DecidableEq

/-- The device that a key's callback names. -/
def Key.device : Key → DevicePtr
  | .key0 => vcom
  | .key1 => uart1

/-- The device of the other key. -/
def Key.other : Key → DevicePtr
  | .key0 => uart1
  | .key1 => vcom

/-- The callback of a key. -/
def Key.longPress : Key → Board → Board
  | .key0 => key0LongPressCallback boardObjects
  | .key1 => key1LongPressCallback boardObjects

/-- The board behind a sequence of long presses. -/
def pressAll (s : Board) (keys : List Key) : Board := keys.foldl (fun s key => key.longPress s) s

/-- The references that are neither the shell's nor the output's: `main` has one of the virtual
COM port. -/
def bootBaseline (dev : DevicePtr) : Nat := if dev = vcom then 1 else 0

/-- The devices that the keys name. -/
def keyDevices : List DevicePtr := [uart1, vcom]

/-- The board begins settled on the first serial port. -/
theorem boot_settled : Settled keyDevices bootBaseline boot uart1 where
  shell := by decide
  output := by decide
  inUse := ⟨⟨by decide, by decide, by decide⟩, by decide, by decide, by decide⟩
  indicate := by decide
  released := by
    intro p hp hne
    have hvcom : p = vcom := by
      simpa only [keyDevices, List.mem_cons, hne, List.not_mem_nil, or_false, false_or] using hp
    subst hvcom
    exact ⟨⟨by decide, by decide, by decide⟩, by decide, by decide, by decide, by decide, by decide⟩
  flags := by decide

/-- A long press settles the board on the device of the key. -/
theorem longPress_settled (h : Settled keyDevices bootBaseline s cur) (key : Key) :
    Settled keyDevices bootBaseline (key.longPress s) key.device := by
  cases key with
  | key0 =>
    have hfind : rtDeviceFind boardObjects "vcom" = some vcom := by decide
    simp only [Key.longPress, key0LongPressCallback, vcomDev, hfind]
    exact longPressCallback_settled h (by decide) (by decide) hfind _ _
  | key1 =>
    have hfind : rtDeviceFind boardObjects "uart1" = some uart1 := by decide
    simp only [Key.longPress, key1LongPressCallback, uartDev, hfind]
    exact longPressCallback_settled h (by decide) (by decide) hfind _ _

theorem pressAll_settled (keys : List Key) :
    ∀ {s : Board} {cur : DevicePtr}, Settled keyDevices bootBaseline s cur →
      ∃ dev, Settled keyDevices bootBaseline (pressAll s keys) dev := by
  induction keys with
  | nil =>
    intro s cur h
    exact ⟨cur, h⟩
  | cons key keys ih =>
    intro s cur h
    exact ih (longPress_settled h key)

/-- The other key is a key too, with another device. -/
theorem Key.other_mem (key : Key) : key.other ∈ keyDevices ∧ key.other ≠ key.device := by
  cases key <;> decide

/-- Console switching keeps the devices consistent: behind every sequence of long presses the
shell and the output are both on the device of the last key, which receives by interrupt for the
shell and counts exactly the two beside its other users; the other device counts its other users
only and calls nobody back. No device is closed under a user: a device that is counted is open
with its receive structure, one that is not has freed it, and the driver of the virtual COM
port, which `main` uses throughout, was never told to stop receiving. -/
theorem longPress_devices_consistent (keys : List Key) (key : Key) :
    let s := pressAll boot (keys ++ [key])
    s.shell.device = some key.device ∧ s.consoleDevice = some key.device ∧
      hasFlag (s.device key.device).openFlag rtDeviceFlagIntRx = true ∧
      hasFlag (s.device key.device).openFlag rtDeviceFlagStream = true ∧
      (s.device key.device).driver.serialRx.isSome = true ∧
      (s.device key.device).rxIndicate = some .finshRxInd ∧
      (s.device key.device).refCount = bootBaseline key.device + 2 ∧
      (s.device key.other).refCount = bootBaseline key.other ∧
      (s.device key.other).rxIndicate = none ∧
      (∀ dev ∈ keyDevices, 0 < (s.device dev).refCount →
        hasFlag (s.device dev).openFlag rtDeviceOflagOpen = true ∧
          (s.device dev).driver.serialRx.isSome = true) ∧
      (∀ dev ∈ keyDevices, (s.device dev).refCount = 0 →
        (s.device dev).driver.serialRx = none) ∧
      (s.device vcom).driver.controls = [.setInt rtDeviceFlagIntRx] := by
  intro s
  obtain ⟨cur, hbefore⟩ := pressAll_settled keys boot_settled
  have h : Settled keyDevices bootBaseline s key.device := by
    have hs : s = key.longPress (pressAll boot keys) := by
      simp only [s, pressAll, List.foldl_append, List.foldl_cons, List.foldl_nil]
    rw [hs]
    exact longPress_settled hbefore key
  have hother := h.released key.other key.other_mem.1 key.other_mem.2
  refine ⟨h.shell, h.output, ?_, ?_, h.inUse.allocated, h.indicate, h.inUse.refs, hother.refs,
    hother.silent, ?_, ?_, ?_⟩
  · rw [h.flags]
    decide
  · rw [h.flags]
    decide
  · intro dev hdev hcount
    by_cases hcur : dev = key.device
    · subst hcur
      refine ⟨?_, h.inUse.allocated⟩
      rw [h.flags]
      decide
    · have hrest := h.released dev hdev hcur
      exact (hrest.receives (hrest.refs ▸ hcount)).2
  · intro dev hdev hcount
    have hcur : dev ≠ key.device := by
      rintro rfl
      have hrefs := h.inUse.refs
      omega
    have hrest := h.released dev hdev hcur
    exact (hrest.closed (hrest.refs ▸ hcount)).2
  · by_cases hcur : vcom = key.device
    · rw [hcur]
      exact h.inUse.kept (by rw [← hcur]; decide)
    · exact (h.released vcom (by decide) hcur).kept (by decide)

end RtVcom.Console
