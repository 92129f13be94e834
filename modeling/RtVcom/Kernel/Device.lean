import RtVcom.Kernel.Ipc

/-!
# Devices

The device framework of `src/device.c`. A device is opened and closed by its users and counts
them; its driver is asked to open at every open, and to close only when the last user leaves.
The driver's functions are the fields of `RtDeviceOps`, and what a driver keeps in the structure
that extends `struct rt_device` is the field `driver` of `RtDevice`.

The open flags are the driver's at an open, so an open by one user overwrites the flags of
another (`rtDeviceOpen_driver`); a close leaves them alone as long as somebody else uses the
device (`rtDeviceClose_shared`).
-/

namespace RtVcom.Kernel

/-! ## Flags (`rtdef.h`)

A flag word is 16 bits wide. -/

def rtDeviceFlagRdwr : BitVec 16 := 0x003
def rtDeviceFlagStandalone : BitVec 16 := 0x008
def rtDeviceFlagActivated : BitVec 16 := 0x010
def rtDeviceFlagStream : BitVec 16 := 0x040
def rtDeviceFlagIntRx : BitVec 16 := 0x100
def rtDeviceFlagDmaRx : BitVec 16 := 0x200
def rtDeviceFlagIntTx : BitVec 16 := 0x400
def rtDeviceFlagDmaTx : BitVec 16 := 0x800

def rtDeviceOflagClose : BitVec 16 := 0x000
def rtDeviceOflagRdwr : BitVec 16 := 0x003
def rtDeviceOflagOpen : BitVec 16 := 0x008
def rtDeviceOflagMask : BitVec 16 := 0xf0f

/-- Whether a flag word has one of the bits of `flag`. -/
def hasFlag (word flag : BitVec 16) : Bool := decide (word &&& flag ≠ 0)

/-! ## The device and its driver -/

/-- `struct rt_device`, with the receive callbacks of type `κ` and the driver's own part. -/
structure RtDevice (κ σ : Type) where
  flag : BitVec 16
  openFlag : BitVec 16
  refCount : Nat
  rxIndicate : Option κ
  driver : σ
deriving Repr, DecidableEq

/-- The values of the 8-bit reference count. -/
def rtDeviceRefCountMod : Nat := 0x100

/-- The device interface of a driver, `RT_NULL` where it leaves a function out. A function
answers the device behind it and its error code. -/
structure RtDeviceOps (κ σ : Type) where
  deviceInit : Option (RtDevice κ σ → RtDevice κ σ × Int)
  deviceOpen : Option (RtDevice κ σ → BitVec 16 → RtDevice κ σ × Int)
  deviceClose : Option (RtDevice κ σ → RtDevice κ σ × Int)
  deviceWrite : Option (RtDevice κ σ → List UInt8 → RtDevice κ σ)

variable {κ σ : Type} (ops : RtDeviceOps κ σ)

/-! ## Operations -/

/-- `rt_device_open`, the initialisation of a device that is not activated. -/
def deviceActivate (dev : RtDevice κ σ) : RtDevice κ σ × Int :=
  if hasFlag dev.flag rtDeviceFlagActivated then (dev, rtEok)
  else
    let (dev, result) := match ops.deviceInit with
      | some init => init dev
      | none => (dev, rtEok)
    if result = rtEok then
      ({ dev with flag := dev.flag ||| rtDeviceFlagActivated }, rtEok)
    else (dev, result)

/-- `rt_device_open`. -/
def rtDeviceOpen (dev : RtDevice κ σ) (oflag : BitVec 16) : RtDevice κ σ × Int :=
  let (dev, result) := deviceActivate ops dev
  if result ≠ rtEok then (dev, result)
  else if hasFlag dev.flag rtDeviceFlagStandalone ∧ hasFlag dev.openFlag rtDeviceOflagOpen then
    (dev, -rtEbusy)
  else
    let (dev, result) := match ops.deviceOpen with
      | some opens => opens dev oflag
      | none => ({ dev with openFlag := oflag &&& rtDeviceOflagMask }, rtEok)
    if result = rtEok ∨ result = -rtEnosys then
      ({ dev with
          openFlag := dev.openFlag ||| rtDeviceOflagOpen
          refCount := (dev.refCount + 1) % rtDeviceRefCountMod }, result)
    else (dev, result)

/-- `rt_device_close`. -/
def rtDeviceClose (dev : RtDevice κ σ) : RtDevice κ σ × Int :=
  if dev.refCount = 0 then (dev, -rtError)
  else
    let dev := { dev with refCount := dev.refCount - 1 }
    if dev.refCount ≠ 0 then (dev, rtEok)
    else
      let (dev, result) := match ops.deviceClose with
        | some closes => closes dev
        | none => (dev, rtEok)
      if result = rtEok ∨ result = -rtEnosys then
        ({ dev with openFlag := rtDeviceOflagClose }, result)
      else (dev, result)

/-- `rt_device_write`: a device that nobody has opened refuses. -/
def rtDeviceWrite (dev : RtDevice κ σ) (buffer : List UInt8) : RtDevice κ σ :=
  if dev.refCount = 0 then dev
  else match ops.deviceWrite with
    | some write => write dev buffer
    | none => dev

/-- `rt_device_set_rx_indicate`. -/
def rtDeviceSetRxIndicate (dev : RtDevice κ σ) (rxInd : Option κ) : RtDevice κ σ :=
  { dev with rxIndicate := rxInd }

/-! ## What an open and a close do -/

variable {ops} {dev : RtDevice κ σ}

/-- An initialised device is opened by its driver: what the driver leaves, with the open flag and
one more reference. -/
theorem rtDeviceOpen_driver {opens : RtDevice κ σ → BitVec 16 → RtDevice κ σ × Int}
    {oflag : BitVec 16} (hops : ops.deviceOpen = some opens)
    (hactive : hasFlag dev.flag rtDeviceFlagActivated = true)
    (halone : hasFlag dev.flag rtDeviceFlagStandalone = false)
    (hok : (opens dev oflag).2 = rtEok) :
    rtDeviceOpen ops dev oflag =
      ({ (opens dev oflag).1 with
          openFlag := (opens dev oflag).1.openFlag ||| rtDeviceOflagOpen
          refCount := ((opens dev oflag).1.refCount + 1) % rtDeviceRefCountMod }, rtEok) := by
  have hactivate : deviceActivate ops dev = (dev, rtEok) := by
    rw [deviceActivate, if_pos hactive]
  simp only [rtDeviceOpen, hactivate, hops, halone, hok, ne_eq, not_true_eq_false, if_false,
    Bool.false_eq_true, false_and, true_or, if_true]

/-- While others use the device a close only gives a reference back. -/
theorem rtDeviceClose_shared (h : 2 ≤ dev.refCount) :
    rtDeviceClose ops dev = ({ dev with refCount := dev.refCount - 1 }, rtEok) := by
  have hne : dev.refCount ≠ 0 := by omega
  have hrest : dev.refCount - 1 ≠ 0 := by omega
  rw [rtDeviceClose, if_neg hne]
  exact if_pos hrest

/-- The last close is the driver's. -/
theorem rtDeviceClose_last {closes : RtDevice κ σ → RtDevice κ σ × Int}
    (hops : ops.deviceClose = some closes) (h : dev.refCount = 1)
    (hok : (closes { dev with refCount := 0 }).2 = rtEok) :
    rtDeviceClose ops dev =
      ({ (closes { dev with refCount := 0 }).1 with openFlag := rtDeviceOflagClose }, rtEok) := by
  simp only [rtDeviceClose, h, hops, hok, Nat.reduceSub, ne_eq, not_true_eq_false, Nat.one_ne_zero,
    if_false, true_or, if_true]

end RtVcom.Kernel
