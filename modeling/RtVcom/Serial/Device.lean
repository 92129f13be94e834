import RtVcom.Kernel.Device
import RtVcom.Serial.RxFifo

/-!
# Serial devices

`rt_serial_init`, `rt_serial_open`, `rt_serial_close` and `rt_serial_write` of
`components/drivers/serial/serial.c`, the device interface that the UARTs and the virtual COM
port share. What the framework asks of the low-level driver is kept as a log: the control
commands in `controls`, the transmitted data in `calls`.

An open replaces the mode flags by those of its own `oflag`, and only `RT_DEVICE_FLAG_STREAM`
survives from the opens before. The receive structure is allocated by the first open that asks
for one and stays until the last close, whatever the flags say in between
(`rtDeviceOpen_receives`, `rtDeviceOpen_polls`, `rtDeviceClose_receives`).
-/

namespace RtVcom.Serial

open RtVcom.Kernel

/-! ## The data -/

/-- What `serial_rx` points to. -/
inductive SerialRx
  | fifo (f : RxFifo)
  | dma (activated : Bool)
deriving Repr, DecidableEq

/-- What `serial_tx` points to. -/
inductive SerialTx
  | fifo (completion : RtCompletion)
  | dma (activated : Bool)
deriving Repr, DecidableEq

/-- A control command of the low-level driver. -/
inductive SerialControl
  | setInt (flag : BitVec 16)
  | clrInt (flag : BitVec 16)
  | config (flag : BitVec 16)
deriving Repr, DecidableEq

/-- A call of the low-level driver that transmits. -/
inductive DriverCall
  | putc (c : UInt8)
  | dmaTransmit (buf : List UInt8)
deriving Repr, DecidableEq

/-- `struct rt_serial_device`, less its parent. `configure` is what the driver's `configure`
answers. -/
structure RtSerial where
  bufsz : Nat
  configure : Int
  serialRx : Option SerialRx
  serialTx : Option SerialTx
  controls : List SerialControl
  calls : List DriverCall
deriving Repr, DecidableEq

abbrev SerialDevice (κ : Type) : Type := RtDevice κ RtSerial

variable {κ : Type}

/-! ## Opening and closing -/

/-- `rt_serial_init`. -/
def rtSerialInit (dev : SerialDevice κ) : SerialDevice κ × Int :=
  ({ dev with driver := { dev.driver with serialRx := none, serialTx := none } },
    dev.driver.configure)

/-- `rt_serial_open`, the receive structure. -/
def serialOpenRx (dev : SerialDevice κ) (oflag : BitVec 16) : SerialDevice κ :=
  match dev.driver.serialRx with
  | none =>
    if hasFlag oflag rtDeviceFlagIntRx then
      { dev with
        openFlag := dev.openFlag ||| rtDeviceFlagIntRx
        driver := { dev.driver with
          serialRx := some (.fifo (rxFifoInit dev.driver.bufsz))
          controls := dev.driver.controls ++ [.setInt rtDeviceFlagIntRx] } }
    else if hasFlag oflag rtDeviceFlagDmaRx then
      if dev.driver.bufsz = 0 then
        { dev with
          openFlag := dev.openFlag ||| rtDeviceFlagDmaRx
          driver := { dev.driver with serialRx := some (.dma false) } }
      else
        { dev with
          openFlag := dev.openFlag ||| rtDeviceFlagDmaRx
          driver := { dev.driver with
            serialRx := some (.fifo (rxFifoInit dev.driver.bufsz))
            controls := dev.driver.controls ++ [.config rtDeviceFlagDmaRx] } }
    else dev
  | some _ =>
    if hasFlag oflag rtDeviceFlagIntRx then
      { dev with openFlag := dev.openFlag ||| rtDeviceFlagIntRx }
    else if hasFlag oflag rtDeviceFlagDmaRx then
      { dev with openFlag := dev.openFlag ||| rtDeviceFlagDmaRx }
    else dev

/-- `rt_serial_open`, the transmit structure. -/
def serialOpenTx (dev : SerialDevice κ) (oflag : BitVec 16) : SerialDevice κ :=
  match dev.driver.serialTx with
  | none =>
    if hasFlag oflag rtDeviceFlagIntTx then
      { dev with
        openFlag := dev.openFlag ||| rtDeviceFlagIntTx
        driver := { dev.driver with
          serialTx := some (.fifo rtCompletionInit)
          controls := dev.driver.controls ++ [.setInt rtDeviceFlagIntTx] } }
    else if hasFlag oflag rtDeviceFlagDmaTx then
      { dev with
        openFlag := dev.openFlag ||| rtDeviceFlagDmaTx
        driver := { dev.driver with serialTx := some (.dma false) } }
    else dev
  | some _ =>
    if hasFlag oflag rtDeviceFlagIntTx then
      { dev with openFlag := dev.openFlag ||| rtDeviceFlagIntTx }
    else if hasFlag oflag rtDeviceFlagDmaTx then
      { dev with openFlag := dev.openFlag ||| rtDeviceFlagDmaTx }
    else dev

/-- The modes that an open may ask for and that the device must have. -/
def serialModes : List (BitVec 16) :=
  [rtDeviceFlagDmaRx, rtDeviceFlagDmaTx, rtDeviceFlagIntRx, rtDeviceFlagIntTx]

/-- The stream flag is kept, from this open or from an earlier one. -/
def streamFlag (dev : SerialDevice κ) (oflag : BitVec 16) : BitVec 16 :=
  if hasFlag oflag rtDeviceFlagStream ∨ hasFlag dev.openFlag rtDeviceFlagStream then
    rtDeviceFlagStream
  else 0

/-- `rt_serial_open`. -/
def rtSerialOpen (dev : SerialDevice κ) (oflag : BitVec 16) : SerialDevice κ × Int :=
  if serialModes.any (fun mode => hasFlag oflag mode && !hasFlag dev.flag mode) then (dev, -rtEio)
  else
    let stream := streamFlag dev oflag
    let dev := { dev with openFlag := oflag &&& 0xff }
    let dev := serialOpenTx (serialOpenRx dev oflag) oflag
    ({ dev with openFlag := dev.openFlag ||| stream }, rtEok)

/-- `rt_serial_close`, the receive structure. -/
def serialCloseRx (dev : SerialDevice κ) : SerialDevice κ :=
  if hasFlag dev.openFlag rtDeviceFlagIntRx then
    { dev with
      openFlag := dev.openFlag &&& ~~~rtDeviceFlagIntRx
      driver := { dev.driver with
        serialRx := none
        controls := dev.driver.controls ++ [.clrInt rtDeviceFlagIntRx] } }
  else if hasFlag dev.openFlag rtDeviceFlagDmaRx then
    { dev with
      openFlag := dev.openFlag &&& ~~~rtDeviceFlagDmaRx
      driver := { dev.driver with
        serialRx := none
        controls := dev.driver.controls ++ [.clrInt rtDeviceFlagDmaRx] } }
  else dev

/-- `rt_serial_close`, the transmit structure. -/
def serialCloseTx (dev : SerialDevice κ) : SerialDevice κ :=
  if hasFlag dev.openFlag rtDeviceFlagIntTx then
    { dev with
      openFlag := dev.openFlag &&& ~~~rtDeviceFlagIntTx
      driver := { dev.driver with
        serialTx := none
        controls := dev.driver.controls ++ [.clrInt rtDeviceFlagIntTx] } }
  else if hasFlag dev.openFlag rtDeviceFlagDmaTx then
    { dev with
      openFlag := dev.openFlag &&& ~~~rtDeviceFlagDmaTx
      driver := { dev.driver with serialTx := none } }
  else dev

/-- `rt_serial_close`. -/
def rtSerialClose (dev : SerialDevice κ) : SerialDevice κ × Int :=
  if 1 < dev.refCount then (dev, rtEok)
  else (serialCloseTx (serialCloseRx dev), rtEok)

/-! ## Writing -/

/-- `'\n'` and `'\r'`. -/
def lf : UInt8 := 0x0A
def cr : UInt8 := 0x0D

/-- `_serial_poll_tx`. -/
def serialPollTx (openFlag : BitVec 16) (s : List UInt8) : List DriverCall :=
  s.flatMap fun c =>
    if c = lf ∧ hasFlag openFlag rtDeviceFlagStream then [.putc cr, .putc c] else [.putc c]

/-- `_serial_int_tx`: the drivers' `putc` always answers 1, so no byte is put off. -/
def serialIntTx (s : List UInt8) : List DriverCall := s.map .putc

/-- `_serial_dma_tx`: a transfer is made unless one is active, then the data is only queued. -/
def serialDmaTx (activated : Bool) (s : List UInt8) : List DriverCall :=
  if activated then [] else [.dmaTransmit s]

/-- `rt_serial_write`: the driver calls for one write. -/
def rtSerialWrite (openFlag : BitVec 16) (activated : Bool) (s : List UInt8) : List DriverCall :=
  if s = [] then []
  else if hasFlag openFlag rtDeviceFlagIntTx then serialIntTx s
  else if hasFlag openFlag rtDeviceFlagDmaTx then serialDmaTx activated s
  else serialPollTx openFlag s

/-- Whether `serial_tx` is a DMA transfer that is under way. -/
def RtSerial.txActivated (serial : RtSerial) : Bool :=
  serial.serialTx == some (.dma true)

/-- `serial_tx` behind a write: the DMA path has started a transfer. -/
def serialTxAfter (openFlag : BitVec 16) (buffer : List UInt8) (tx : Option SerialTx) :
    Option SerialTx :=
  if buffer ≠ [] ∧ hasFlag openFlag rtDeviceFlagIntTx = false ∧
      hasFlag openFlag rtDeviceFlagDmaTx = true ∧ tx.isSome then some (.dma true)
  else tx

/-- The write function of a serial device. -/
def serialWrite (dev : SerialDevice κ) (buffer : List UInt8) : SerialDevice κ :=
  let calls := rtSerialWrite dev.openFlag dev.driver.txActivated buffer
  let serialTx := serialTxAfter dev.openFlag buffer dev.driver.serialTx
  { dev with driver := { dev.driver with serialTx, calls := dev.driver.calls ++ calls } }

/-! ## Receiving -/

/-- `rt_hw_serial_isr` with `RT_SERIAL_EVENT_RX_IND`, up to the callback: the receive structure
takes the characters. -/
def serialIsrRx (dev : SerialDevice κ) (chars : List UInt8) : SerialDevice κ :=
  match dev.driver.serialRx with
  | some (.fifo f) =>
    { dev with driver := { dev.driver with
        serialRx := some (.fifo (isrDrain dev.driver.bufsz f chars)) } }
  | _ => dev

/-- The characters that a device has received and that are not read. -/
def unreadOf (dev : SerialDevice κ) : List UInt8 :=
  match dev.driver.serialRx with
  | some (.fifo f) => f.unread dev.driver.bufsz
  | _ => []

/-- `rt_device_read` of one character: a device that nobody has opened refuses, and in the modes
other than `RT_DEVICE_FLAG_INT_RX` the receive structure is not looked at. -/
def rtDeviceReadByte (dev : SerialDevice κ) : Option UInt8 × SerialDevice κ :=
  if dev.refCount = 0 then (none, dev)
  else if hasFlag dev.openFlag rtDeviceFlagIntRx then
    match dev.driver.serialRx with
    | some (.fifo f) =>
      match serialIntRxByte dev.driver.bufsz f with
      | some (ch, f') =>
        (some ch, { dev with driver := { dev.driver with serialRx := some (.fifo f') } })
      | none => (none, dev)
    | _ => (none, dev)
  else (none, dev)

/-- The device interface that `rt_hw_serial_register` installs. -/
def serialOps : RtDeviceOps κ RtSerial where
  deviceInit := some rtSerialInit
  deviceOpen := some rtSerialOpen
  deviceClose := some rtSerialClose
  deviceWrite := some serialWrite

/-! ## What an open and a close do -/

/-- A device that a console may be opened on: initialised, shared, and able to receive by
interrupt. -/
structure Ready (dev : SerialDevice κ) : Prop where
  active : hasFlag dev.flag rtDeviceFlagActivated = true
  shared : hasFlag dev.flag rtDeviceFlagStandalone = false
  intRx : hasFlag dev.flag rtDeviceFlagIntRx = true

variable {dev : SerialDevice κ} {oflag : BitVec 16}

/-- What makes a device ready is in its registration flags alone. -/
theorem Ready.of_flag {d : SerialDevice κ} (h : Ready dev) (hflag : d.flag = dev.flag) :
    Ready d where
  active := hflag ▸ h.active
  shared := hflag ▸ h.shared
  intRx := hflag ▸ h.intRx

/-- An open that asks for interrupt reception keeps the receive structure or allocates it. -/
theorem serialOpenRx_intRx (h : hasFlag oflag rtDeviceFlagIntRx = true) :
    serialOpenRx dev oflag =
      { dev with
        openFlag := dev.openFlag ||| rtDeviceFlagIntRx
        driver := { dev.driver with
          serialRx := dev.driver.serialRx.or (some (.fifo (rxFifoInit dev.driver.bufsz)))
          controls := dev.driver.controls ++
            if dev.driver.serialRx.isSome then [] else [.setInt rtDeviceFlagIntRx] } } := by
  obtain ⟨flag, openFlag, refCount, rxIndicate, bufsz, configure, rx, tx, controls, calls⟩ := dev
  cases rx with
  | none => simp only [serialOpenRx, h, if_true, Option.or, Option.isSome, if_false,
      Bool.false_eq_true]
  | some rx => simp only [serialOpenRx, h, if_true, Option.or, Option.isSome, List.append_nil]

/-- An open in polling mode leaves the receive structure of an earlier one. -/
theorem serialOpenRx_none (hint : hasFlag oflag rtDeviceFlagIntRx = false)
    (hdma : hasFlag oflag rtDeviceFlagDmaRx = false) : serialOpenRx dev oflag = dev := by
  simp only [serialOpenRx, hint, hdma, Bool.false_eq_true, if_false]
  split <;> rfl

/-- Without a mode of its own the sending side opens to nothing. -/
theorem serialOpenTx_none (hint : hasFlag oflag rtDeviceFlagIntTx = false)
    (hdma : hasFlag oflag rtDeviceFlagDmaTx = false) : serialOpenTx dev oflag = dev := by
  simp only [serialOpenTx, hint, hdma, Bool.false_eq_true, if_false]
  split <;> rfl

theorem streamFlag_stream (h : hasFlag oflag rtDeviceFlagStream = true) :
    streamFlag dev oflag = rtDeviceFlagStream := by
  simp only [streamFlag, h, true_or, if_true]

/-- Whether an open asks for interrupt reception only, and polls to transmit. -/
structure ReceivesByInterrupt (oflag : BitVec 16) : Prop where
  intRx : hasFlag oflag rtDeviceFlagIntRx = true
  dmaRx : hasFlag oflag rtDeviceFlagDmaRx = false
  intTx : hasFlag oflag rtDeviceFlagIntTx = false
  dmaTx : hasFlag oflag rtDeviceFlagDmaTx = false

/-- Whether an open asks for no mode at all. -/
structure Polls (oflag : BitVec 16) : Prop where
  intRx : hasFlag oflag rtDeviceFlagIntRx = false
  dmaRx : hasFlag oflag rtDeviceFlagDmaRx = false
  intTx : hasFlag oflag rtDeviceFlagIntTx = false
  dmaTx : hasFlag oflag rtDeviceFlagDmaTx = false

/-- One more user that receives by interrupt: the mode flags are this open's, and the receive
structure is there behind it. -/
theorem rtDeviceOpen_receives (h : Ready dev) (ho : ReceivesByInterrupt oflag) :
    rtDeviceOpen serialOps dev oflag =
      ({ dev with
          openFlag := (oflag &&& 0xff ||| rtDeviceFlagIntRx ||| streamFlag dev oflag) |||
            rtDeviceOflagOpen
          refCount := (dev.refCount + 1) % rtDeviceRefCountMod
          driver := { dev.driver with
            serialRx := dev.driver.serialRx.or (some (.fifo (rxFifoInit dev.driver.bufsz)))
            controls := dev.driver.controls ++
              if dev.driver.serialRx.isSome then [] else [.setInt rtDeviceFlagIntRx] } },
        rtEok) := by
  have hopen : rtSerialOpen dev oflag =
      ({ dev with
          openFlag := oflag &&& 0xff ||| rtDeviceFlagIntRx ||| streamFlag dev oflag
          driver := { dev.driver with
            serialRx := dev.driver.serialRx.or (some (.fifo (rxFifoInit dev.driver.bufsz)))
            controls := dev.driver.controls ++
              if dev.driver.serialRx.isSome then [] else [.setInt rtDeviceFlagIntRx] } },
        rtEok) := by
    simp only [rtSerialOpen, serialModes, List.any_cons, List.any_nil, ho.intRx, ho.dmaRx,
      ho.intTx, ho.dmaTx, h.intRx, serialOpenRx_intRx ho.intRx, serialOpenTx_none ho.intTx ho.dmaTx,
      Bool.false_and, Bool.true_and, Bool.not_true, Bool.or_false, Bool.false_eq_true, if_false]
  rw [rtDeviceOpen_driver rfl h.active h.shared (by rw [hopen]), hopen]

/-- One more user that asks for no mode: the mode flags of the others are lost, their receive
structure stays. -/
theorem rtDeviceOpen_polls (h : Ready dev) (ho : Polls oflag) :
    rtDeviceOpen serialOps dev oflag =
      ({ dev with
          openFlag := (oflag &&& 0xff ||| streamFlag dev oflag) ||| rtDeviceOflagOpen
          refCount := (dev.refCount + 1) % rtDeviceRefCountMod }, rtEok) := by
  have hopen : rtSerialOpen dev oflag =
      ({ dev with openFlag := oflag &&& 0xff ||| streamFlag dev oflag }, rtEok) := by
    simp only [rtSerialOpen, serialModes, List.any_cons, List.any_nil, ho.intRx, ho.dmaRx,
      ho.intTx, ho.dmaTx, serialOpenRx_none ho.intRx ho.dmaRx, serialOpenTx_none ho.intTx ho.dmaTx,
      Bool.false_and, Bool.or_false, Bool.false_eq_true, if_false]
  rw [rtDeviceOpen_driver rfl h.active h.shared (by rw [hopen]), hopen]

/-- The last user of a device that receives by interrupt leaves: the receive structure is
freed. -/
theorem rtDeviceClose_receives (hone : dev.refCount = 1) (ho : ReceivesByInterrupt dev.openFlag) :
    rtDeviceClose serialOps dev =
      ({ dev with
          openFlag := rtDeviceOflagClose
          refCount := 0
          driver := { dev.driver with
            serialRx := none
            controls := dev.driver.controls ++ [.clrInt rtDeviceFlagIntRx] } }, rtEok) := by
  have htx : ∀ mode, hasFlag dev.openFlag mode = false →
      hasFlag (dev.openFlag &&& ~~~rtDeviceFlagIntRx) mode = false := by
    intro mode hmode
    have hzero : dev.openFlag &&& mode = 0 := by
      simpa only [hasFlag, decide_eq_false_iff_not, ne_eq, Decidable.not_not] using hmode
    have hand : dev.openFlag &&& ~~~rtDeviceFlagIntRx &&& mode = 0 := by
      rw [BitVec.and_assoc, BitVec.and_comm (~~~rtDeviceFlagIntRx), ← BitVec.and_assoc, hzero]
      exact BitVec.zero_and
    simp only [hasFlag, hand, ne_eq, not_true_eq_false, decide_false]
  have hclose : rtSerialClose { dev with refCount := 0 } =
      ({ dev with
          openFlag := dev.openFlag &&& ~~~rtDeviceFlagIntRx
          refCount := 0
          driver := { dev.driver with
            serialRx := none
            controls := dev.driver.controls ++ [.clrInt rtDeviceFlagIntRx] } }, rtEok) := by
    simp only [rtSerialClose, serialCloseRx, serialCloseTx, ho.intRx, htx _ ho.intTx,
      htx _ ho.dmaTx, Nat.not_lt_zero, if_false, if_true, Bool.false_eq_true]
  rw [rtDeviceClose_last rfl hone (by rw [hclose]), hclose]

/-- A close changes nothing that says what the device is. -/
theorem serialCloseRx_keeps (dev : SerialDevice κ) :
    (serialCloseRx dev).flag = dev.flag ∧ (serialCloseRx dev).refCount = dev.refCount ∧
      (serialCloseRx dev).driver.configure = dev.driver.configure ∧
      (serialCloseRx dev).driver.serialTx = dev.driver.serialTx := by
  unfold serialCloseRx
  split
  · exact ⟨rfl, rfl, rfl, rfl⟩
  · split
    · exact ⟨rfl, rfl, rfl, rfl⟩
    · exact ⟨rfl, rfl, rfl, rfl⟩

/-- A close leaves the flags, the count and the configuration alone. -/
theorem serialCloseTx_keeps (dev : SerialDevice κ) :
    (serialCloseTx dev).flag = dev.flag ∧ (serialCloseTx dev).refCount = dev.refCount ∧
      (serialCloseTx dev).driver.configure = dev.driver.configure ∧
      (dev.driver.serialTx = none → (serialCloseTx dev).driver.serialTx = none) := by
  unfold serialCloseTx
  split
  · exact ⟨rfl, rfl, rfl, fun _ => rfl⟩
  · split
    · exact ⟨rfl, rfl, rfl, fun _ => rfl⟩
    · exact ⟨rfl, rfl, rfl, id⟩

/-- What the last close leaves: closed, with no reference, and the same device. -/
theorem rtDeviceClose_one (hone : dev.refCount = 1) :
    (rtDeviceClose serialOps dev).1.flag = dev.flag ∧
      (rtDeviceClose serialOps dev).1.openFlag = rtDeviceOflagClose ∧
      (rtDeviceClose serialOps dev).1.refCount = 0 ∧
      (rtDeviceClose serialOps dev).1.driver.configure = dev.driver.configure ∧
      (dev.driver.serialTx = none → (rtDeviceClose serialOps dev).1.driver.serialTx = none) := by
  have hclose : rtSerialClose { dev with refCount := 0 } =
      (serialCloseTx (serialCloseRx { dev with refCount := 0 }), rtEok) := by
    simp only [rtSerialClose, Nat.not_lt_zero, if_false]
  obtain ⟨hflagRx, hrefsRx, hconfRx, htxRx⟩ := serialCloseRx_keeps { dev with refCount := 0 }
  obtain ⟨hflag, hrefs, hconf, htx⟩ :=
    serialCloseTx_keeps (serialCloseRx { dev with refCount := 0 })
  rw [rtDeviceClose_last rfl hone (by rw [hclose]), hclose]
  exact ⟨hflag.trans hflagRx, rfl, hrefs.trans hrefsRx, hconf.trans hconfRx,
    fun h => htx (htxRx.trans h)⟩

/-- Whatever modes a device is open in, a close gives one reference back, if there is one, and
starts no transfer. -/
theorem rtDeviceClose_keeps (h : dev.driver.serialTx = none) :
    (rtDeviceClose serialOps dev).1.flag = dev.flag ∧
      (rtDeviceClose serialOps dev).1.refCount = dev.refCount - 1 ∧
      (rtDeviceClose serialOps dev).1.driver.serialTx = none := by
  by_cases hzero : dev.refCount = 0
  · rw [rtDeviceClose, if_pos hzero]
    exact ⟨rfl, by simp only [hzero, Nat.zero_sub], h⟩
  · by_cases hone : dev.refCount = 1
    · obtain ⟨hflag, -, hrefs, -, htx⟩ := rtDeviceClose_one hone
      refine ⟨hflag, ?_, htx h⟩
      rw [hrefs, hone]
    · rw [rtDeviceClose_shared (by omega)]
      exact ⟨rfl, rfl, h⟩

/-- A write changes nothing but the transmit structure and what was transmitted. -/
theorem rtDeviceWrite_eq (dev : SerialDevice κ) (buffer : List UInt8) :
    ∃ serialTx calls, rtDeviceWrite serialOps dev buffer =
      { dev with driver := { dev.driver with serialTx, calls } } := by
  unfold rtDeviceWrite
  split
  · exact ⟨_, _, rfl⟩
  · exact ⟨_, _, rfl⟩

end RtVcom.Serial
