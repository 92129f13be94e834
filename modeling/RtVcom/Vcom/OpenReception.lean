import RtVcom.Lib.Object
import RtVcom.Serial.Bookkeeping
import RtVcom.Vcom.Reception

/-!
# Packets and opens of the virtual COM port

`_ep_out_handler` runs the receive interrupt of the serial framework for every packet that finds
the device active and open. The framework's receive structure is there from the first open that
asks for reception, whatever the device is open for, until a last close whose flags ask for it.
`asked` follows this in the terms of the callers.

**The law** (`vcom_isr_allocated_iff`): over a whole run the interrupt finds a FIFO with a buffer of
`bufsz` bytes each time exactly if no packet that it runs for comes before somebody asked.
-/

namespace RtVcom.Vcom

open RtVcom.Lib RtVcom.Kernel RtVcom.Driver RtVcom.Serial

variable {κ : Type}

/-! ## The model -/

/-- The serial device of the port and its receive ring. `asked` is not in the program: an open that
asks for reception was granted, and no last close has freed what it got. -/
structure VcomSerial (κ : Type) where
  dev : SerialDevice κ
  rxRingbuffer : RingQueue cdcRxBufsize
  asked : Bool

/-- The loop of `rt_hw_serial_isr` over `_vcom_getc`. -/
def vcomGetcs : Nat → RingQueue cdcRxBufsize → List UInt8 × RingQueue cdcRxBufsize
  | 0, ring => ([], ring)
  | count + 1, ring =>
    match ring.getchar with
    | none => ([], ring)
    | some (ch, ring) => ((ch :: (vcomGetcs count ring).1), (vcomGetcs count ring).2)

/-- `_ep_out_handler`, up to the request for the next packet: the receive structure that
`rt_hw_serial_isr` finds, if it is called. What the interrupt does without one is left out. -/
def epOutHandler (s : VcomSerial κ) (bytes : List UInt8) :
    VcomSerial κ × Option (Option SerialRx) :=
  if hasFlag s.dev.flag rtDeviceFlagActivated && hasFlag s.dev.openFlag rtDeviceOflagOpen then
    let ring := s.rxRingbuffer.put bytes
    let (chars, ring) := vcomGetcs ring.queue.length ring
    ({ s with dev := serialIsrRx s.dev chars, rxRingbuffer := ring }, some s.dev.driver.serialRx)
  else (s, none)

/-- What an open or a close makes of `asked`. -/
def askedAfter (w : Word) (asked : Bool) : DeviceOp → Bool
  | .opens oflag => asked || (decide (w.Grants oflag) && asksRx oflag)
  | .closes => if w.refCount = 1 then asked && !asksRx w.openFlag else asked

/-- An open or a close, or a packet. -/
inductive VcomEvent
  | device (op : DeviceOp)
  | packet (bytes : List UInt8)
deriving Repr, DecidableEq

def vcomEvent (s : VcomSerial κ) : VcomEvent → VcomSerial κ × Option (Option SerialRx)
  | .device op =>
    ({ s with dev := op.apply s.dev, asked := askedAfter (wordOf s.dev) s.asked op }, none)
  | .packet bytes => epOutHandler s bytes

/-- The flags that `rt_usb_vcom_init` registers the device with. -/
def vcomFlag : BitVec 16 := rtDeviceFlagRdwr ||| rtDeviceFlagIntRx ||| rtDeviceFlagIntTx

theorem cdcRxBufsize_pos : 0 < cdcRxBufsize := by decide

theorem cdcRxBufsize_aligned : Driver.rtAlignDown cdcRxBufsize = cdcRxBufsize := by decide

/-- The port after `rt_usb_vcom_init`. -/
def vcomObject (rxIndicate : Option κ) :
    Object (VcomSerial κ) VcomEvent (Option (Option SerialRx)) where
  init :=
    { dev := registered vcomFlag cdcRxBufsize rtEok rxIndicate
      rxRingbuffer := .empty cdcRxBufsize cdcRxBufsize_pos cdcRxBufsize_aligned
      asked := false }
  call := vcomEvent

/-- A packet that the interrupt runs for comes after an open that asked for reception. -/
def AsksFirst (s : VcomSerial κ) : VcomEvent → Prop
  | .device _ => True
  | .packet _ =>
    hasFlag s.dev.flag rtDeviceFlagActivated = true →
      hasFlag s.dev.openFlag rtDeviceOflagOpen = true → s.asked = true

instance : DecidableRel (@AsksFirst κ)
  | _, .device _ => isTrue trivial
  | s, .packet _ => inferInstanceAs (Decidable (hasFlag s.dev.flag rtDeviceFlagActivated = true →
      hasFlag s.dev.openFlag rtDeviceOflagOpen = true → s.asked = true))

/-- A FIFO with a buffer of `bufsz` bytes. -/
def IsFifo (bufsz : Nat) (rx : Option SerialRx) : Prop :=
  ∃ f, rx = some (.fifo f) ∧ f.buffer.length = bufsz

/-! ## The receive structure -/

/-- The loop ends with the ring. -/
theorem vcomGetcs_eq (ring : RingQueue cdcRxBufsize) :
    (vcomGetcs ring.queue.length ring).1 = ring.queue ∧
      (vcomGetcs ring.queue.length ring).2.queue = [] := by
  generalize hcount : ring.queue.length = count
  induction count generalizing ring with
  | zero => exact ⟨(List.length_eq_zero_iff.mp hcount).symm, List.length_eq_zero_iff.mp hcount⟩
  | succ count ih =>
    unfold vcomGetcs
    cases hget : ring.getchar with
    | none =>
      rw [ring.getchar_eq_none.mp hget] at hcount
      cases hcount
    | some taken =>
      obtain ⟨ch, rest⟩ := taken
      have hqueue := RingQueue.getchar_eq_some hget
      obtain ⟨hchars, hempty⟩ := ih rest (by rw [hqueue] at hcount; exact Nat.succ.inj hcount)
      rw [hqueue]
      exact ⟨congrArg (ch :: ·) hchars, hempty⟩

/-- What `serial_rx` points to, if it does, is a FIFO of `bufsz` bytes. -/
structure FifoOnly (bufsz : Nat) (d : SerialDevice κ) : Prop where
  bufsz_eq : d.driver.bufsz = bufsz
  fifo : ∀ rx, d.driver.serialRx = some rx → ∃ f, rx = .fifo f ∧ f.Valid bufsz

variable {bufsz : Nat} {d e : SerialDevice κ} {oflag : BitVec 16}

/-- The structure stays or goes. -/
theorem FifoOnly.of_keeps (h : FifoOnly bufsz d) (hbufsz : e.driver.bufsz = d.driver.bufsz)
    (hrx : e.driver.serialRx = d.driver.serialRx ∨ e.driver.serialRx = none) :
    FifoOnly bufsz e := by
  refine ⟨hbufsz.trans h.bufsz_eq, fun rx hsome => ?_⟩
  rcases hrx with hsame | hnone
  · exact h.fifo rx (hsame ▸ hsome)
  · rw [hnone] at hsome
    cases hsome

/-- A new structure is an empty FIFO. -/
theorem FifoOnly.of_new (h : FifoOnly bufsz d) (hroom : 2 ≤ bufsz)
    (hbufsz : e.driver.bufsz = d.driver.bufsz)
    (hrx : e.driver.serialRx = some (.fifo (rxFifoInit d.driver.bufsz))) : FifoOnly bufsz e := by
  refine ⟨hbufsz.trans h.bufsz_eq, fun rx hsome => ⟨rxFifoInit bufsz, ?_, rxFifoInit_valid hroom⟩⟩
  rw [hrx, h.bufsz_eq] at hsome
  exact (Option.some.inj hsome).symm

theorem FifoOnly.serialOpenRx (h : FifoOnly bufsz d) (hroom : 2 ≤ bufsz) (oflag : BitVec 16) :
    FifoOnly bufsz (serialOpenRx d oflag) := by
  have hne : d.driver.bufsz ≠ 0 := by
    rw [h.bufsz_eq]
    omega
  unfold Serial.serialOpenRx
  split
  · split
    · exact h.of_new hroom rfl rfl
    · split
      · exact h.of_new hroom rfl rfl
      · exact h
  · split
    · exact h.of_keeps rfl (.inl rfl)
    · split
      · exact h.of_keeps rfl (.inl rfl)
      · exact h

theorem FifoOnly.serialOpenTx (h : FifoOnly bufsz d) (oflag : BitVec 16) :
    FifoOnly bufsz (serialOpenTx d oflag) := by
  unfold Serial.serialOpenTx
  split
  · split
    · exact h.of_keeps rfl (.inl rfl)
    · split
      · exact h.of_keeps rfl (.inl rfl)
      · exact h
  · split
    · exact h.of_keeps rfl (.inl rfl)
    · split
      · exact h.of_keeps rfl (.inl rfl)
      · exact h

theorem FifoOnly.rtSerialOpen (h : FifoOnly bufsz d) (hroom : 2 ≤ bufsz) (oflag : BitVec 16) :
    FifoOnly bufsz (rtSerialOpen d oflag).1 := by
  unfold Serial.rtSerialOpen
  split
  · exact h
  · have hcleared : FifoOnly bufsz { d with openFlag := oflag &&& 0xff } :=
      h.of_keeps rfl (.inl rfl)
    exact ((hcleared.serialOpenRx hroom oflag).serialOpenTx oflag).of_keeps rfl (.inl rfl)

theorem FifoOnly.deviceActivate (h : FifoOnly bufsz d) :
    FifoOnly bufsz (deviceActivate serialOps d).1 := by
  unfold Kernel.deviceActivate
  split
  · exact h
  · by_cases hok : d.driver.configure = rtEok
    · simp only [serialOps, rtSerialInit, hok, if_true]
      exact h.of_keeps rfl (.inr rfl)
    · simp only [serialOps, rtSerialInit, hok, if_false]
      exact h.of_keeps rfl (.inr rfl)

/-- Opening keeps the reception by the FIFO. -/
theorem FifoOnly.rtDeviceOpen (h : FifoOnly bufsz d) (hroom : 2 ≤ bufsz) (oflag : BitVec 16) :
    FifoOnly bufsz (rtDeviceOpen serialOps d oflag).1 := by
  have hactive := h.deviceActivate
  have hcount (b : SerialDevice κ × Int) (hb : FifoOnly bufsz b.1) :
      FifoOnly bufsz (if b.2 = rtEok ∨ b.2 = -rtEnosys then
        ({ b.1 with
            openFlag := b.1.openFlag ||| rtDeviceOflagOpen
            refCount := (b.1.refCount + 1) % rtDeviceRefCountMod }, b.2)
        else (b.1, b.2)).1 := by
    split
    · exact hb.of_keeps rfl (.inl rfl)
    · exact hb
  unfold Kernel.rtDeviceOpen
  generalize Kernel.deviceActivate serialOps d = a at hactive ⊢
  simp only
  split
  · exact hactive
  · split
    · exact hactive
    · exact hcount _ (hactive.rtSerialOpen hroom oflag)

theorem FifoOnly.serialCloseRx (h : FifoOnly bufsz d) : FifoOnly bufsz (serialCloseRx d) := by
  unfold Serial.serialCloseRx
  split
  · exact h.of_keeps rfl (.inr rfl)
  · split
    · exact h.of_keeps rfl (.inr rfl)
    · exact h

theorem FifoOnly.serialCloseTx (h : FifoOnly bufsz d) : FifoOnly bufsz (serialCloseTx d) := by
  unfold Serial.serialCloseTx
  split
  · exact h.of_keeps rfl (.inl rfl)
  · split
    · exact h.of_keeps rfl (.inl rfl)
    · exact h

theorem FifoOnly.rtDeviceClose (h : FifoOnly bufsz d) :
    FifoOnly bufsz (rtDeviceClose serialOps d).1 := by
  unfold Kernel.rtDeviceClose
  split
  · exact h
  · have hless : FifoOnly bufsz { d with refCount := d.refCount - 1 } := h.of_keeps rfl (.inl rfl)
    simp only
    split
    · exact hless
    · simp only [serialOps, Serial.rtSerialClose]
      split
      · exact hless.of_keeps rfl (.inl rfl)
      · exact (hless.serialCloseRx.serialCloseTx).of_keeps rfl (.inl rfl)

theorem FifoOnly.serialIsrRx (h : FifoOnly bufsz d) (chars : List UInt8) :
    FifoOnly bufsz (serialIsrRx d chars) := by
  unfold Serial.serialIsrRx
  split
  · next f hrx =>
    obtain ⟨g, hfifo, hvalid⟩ := h.fifo _ hrx
    cases hfifo
    refine ⟨h.bufsz_eq, fun rx hsome => ?_⟩
    cases hsome
    refine ⟨_, rfl, ?_⟩
    rw [h.bufsz_eq]
    exact isrDrain_valid hvalid chars
  · exact h

/-- The interrupt changes the bytes of the structure and nothing else that an open or a close looks
at. -/
theorem serialIsrRx_keeps (d : SerialDevice κ) (chars : List UInt8) :
    wordOf (serialIsrRx d chars) = wordOf d ∧ pointersOf (serialIsrRx d chars) = pointersOf d := by
  unfold Serial.serialIsrRx
  split
  · next f hrx =>
    refine ⟨rfl, ?_⟩
    simp only [pointersOf, hrx, Option.isSome_some]
  · exact ⟨rfl, rfl⟩

/-! ## The run -/

/-- What every call keeps: the structure is a FIFO, it is there if somebody asked, and a device
that was never initialised has none. -/
structure VcomSerial.Sound (s : VcomSerial κ) : Prop where
  fifo : FifoOnly cdcRxBufsize s.dev
  asked : s.dev.driver.serialRx.isSome = s.asked
  bare : hasFlag s.dev.flag rtDeviceFlagActivated = false →
    s.dev.driver.serialRx = none ∧ s.dev.driver.serialTx = none

variable {s : VcomSerial κ}

theorem VcomSerial.sound_init (rxIndicate : Option κ) : (vcomObject rxIndicate).init.Sound :=
  ⟨⟨rfl, fun rx hsome => by cases hsome⟩, rfl, fun _ => ⟨rfl, rfl⟩⟩

/-- A device without pointers, from what is known of them. -/
theorem none_of_pointersOf (h : pointersOf d = ⟨false, false⟩) :
    d.driver.serialRx = none ∧ d.driver.serialTx = none := by
  simp only [pointersOf, Pointers.mk.injEq] at h
  exact ⟨Option.isNone_iff_eq_none.mp (Option.isSome_eq_false_iff.mp h.1),
    Option.isNone_iff_eq_none.mp (Option.isSome_eq_false_iff.mp h.2)⟩

theorem VcomSerial.Sound.opens (h : s.Sound) (oflag : BitVec 16) :
    (vcomEvent s (.device (.opens oflag))).1.Sound := by
  have hword := wordOf_rtDeviceOpen s.dev oflag
  refine ⟨h.fifo.rtDeviceOpen (by decide) oflag, ?_, fun hinactive => ?_⟩
  · rcases pointersOf_rtDeviceOpen h.bare oflag with ⟨hgrants, -, hpointers⟩ |
      ⟨hgrants, -, hpointers⟩
    · refine (congrArg Pointers.rx hpointers).trans ?_
      simp only [vcomEvent, askedAfter, hgrants, decide_true, Bool.true_and, pointersOf, h.asked]
    · refine (congrArg Pointers.rx hpointers).trans ?_
      simp only [vcomEvent, askedAfter, hgrants, decide_false, Bool.false_and, Bool.or_false,
        pointersOf, h.asked]
  · replace hinactive :
        hasFlag ((wordOf s.dev).opens oflag).flag rtDeviceFlagActivated = false := by
      rw [← hword]
      exact hinactive
    rcases pointersOf_rtDeviceOpen h.bare oflag with ⟨hgrants, -, -⟩ | ⟨hgrants, -, hpointers⟩
    · rw [(Word.opens_granted hgrants).2.2.2] at hinactive
      cases hinactive
    · obtain ⟨hrx, htx⟩ := h.bare ((Word.opens_refused hgrants).2.2 hinactive)
      refine none_of_pointersOf (hpointers.trans ?_)
      simp only [pointersOf, hrx, htx, Option.isSome_none]

theorem VcomSerial.Sound.closes (h : s.Sound) : (vcomEvent s (.device .closes)).1.Sound := by
  have hpointers := pointersOf_rtDeviceClose s.dev
  have hflag : (rtDeviceClose serialOps s.dev).1.flag = s.dev.flag := by
    have hword := congrArg Word.flag (wordOf_rtDeviceClose s.dev)
    refine hword.trans ?_
    unfold Word.closes
    split
    · rfl
    · split <;> rfl
  refine ⟨h.fifo.rtDeviceClose, ?_, fun hinactive => ?_⟩
  · refine (congrArg Pointers.rx hpointers).trans ?_
    simp only [vcomEvent, askedAfter, wordOf, ← h.asked]
    split <;> rfl
  · obtain ⟨hrx, htx⟩ := h.bare (hflag ▸ hinactive)
    refine none_of_pointersOf (hpointers.trans ?_)
    simp only [pointersOf, hrx, htx, Option.isSome_none, Bool.false_and, ite_self]

theorem VcomSerial.Sound.packet (h : s.Sound) (bytes : List UInt8) :
    (epOutHandler s bytes).1.Sound := by
  unfold epOutHandler
  split
  · simp only
    obtain ⟨hword, hpointers⟩ := serialIsrRx_keeps s.dev
      (vcomGetcs (s.rxRingbuffer.put bytes).queue.length (s.rxRingbuffer.put bytes)).1
    refine ⟨h.fifo.serialIsrRx _, (congrArg Pointers.rx hpointers).trans h.asked,
      fun hinactive => ?_⟩
    obtain ⟨hrx, htx⟩ := h.bare ((congrArg (hasFlag ·.flag _) hword).symm.trans hinactive)
    refine none_of_pointersOf (hpointers.trans ?_)
    simp only [pointersOf, hrx, htx, Option.isSome_none]
  · exact h

theorem VcomSerial.Sound.event (h : s.Sound) (event : VcomEvent) : (vcomEvent s event).1.Sound := by
  cases event with
  | device op =>
    cases op with
    | opens oflag => exact h.opens oflag
    | closes => exact h.closes
  | packet bytes => exact h.packet bytes

/-- The structure is as it should be exactly if somebody asked. -/
theorem VcomSerial.Sound.isFifo_iff (h : s.Sound) :
    IsFifo cdcRxBufsize s.dev.driver.serialRx ↔ s.asked = true := by
  rw [← h.asked]
  constructor
  · rintro ⟨f, hsome, -⟩
    rw [hsome]
    rfl
  · intro hsome
    obtain ⟨rx, hrx⟩ := Option.isSome_iff_exists.mp hsome
    obtain ⟨f, hfifo, hvalid⟩ := h.fifo.fifo rx hrx
    exact ⟨f, hrx.trans (congrArg some hfifo), hvalid.length⟩

/-- What the interrupt finds in one call. -/
theorem VcomSerial.Sound.finds_iff (h : s.Sound) (event : VcomEvent) :
    (∀ rx, some rx = (vcomEvent s event).2 → IsFifo cdcRxBufsize rx) ↔ AsksFirst s event := by
  cases event with
  | device op => exact iff_of_true (fun rx hcall => by cases hcall) trivial
  | packet bytes =>
    simp only [vcomEvent, epOutHandler, AsksFirst]
    by_cases hguard : (hasFlag s.dev.flag rtDeviceFlagActivated &&
        hasFlag s.dev.openFlag rtDeviceOflagOpen) = true
    · obtain ⟨hactive, hopen⟩ := Bool.and_eq_true_iff.mp hguard
      simp only [hactive, hopen, Bool.and_self, if_true, Option.some.injEq, forall_eq,
        forall_const]
      exact h.isFifo_iff
    · rw [if_neg hguard]
      refine iff_of_true (fun rx hcall => by cases hcall) fun hactive hopen => ?_
      exact absurd (Bool.and_eq_true_iff.mpr ⟨hactive, hopen⟩) hguard

/-- Over every run of opens, closes and packets: the receive interrupt finds a FIFO with a buffer of
`bufsz` bytes each time exactly if no packet that it runs for comes before an open that asked for
reception. -/
theorem vcom_isr_allocated_iff (rxIndicate : Option κ) (events : List VcomEvent) :
    (∀ rx, some rx ∈ ((vcomObject rxIndicate).run (vcomObject rxIndicate).init events).2 →
        IsFifo cdcRxBufsize rx) ↔
      (vcomObject rxIndicate).Meets AsksFirst (vcomObject rxIndicate).init events := by
  have hsound := VcomSerial.sound_init rxIndicate
  generalize (vcomObject rxIndicate).init = s at hsound ⊢
  induction events generalizing s with
  | nil => exact iff_of_true (fun rx hmem => absurd hmem List.not_mem_nil) trivial
  | cons event events ih =>
    simp only [Object.run, Object.Meets, List.mem_cons, or_imp, forall_and]
    exact and_congr (hsound.finds_iff event) (ih _ (hsound.event event))

/-- The port is opened without interrupt reception, and a packet arrives: the interrupt finds no
structure. -/
theorem vcom_isr_unallocated :
    ¬∀ rx, some rx ∈ ((vcomObject (none : Option Unit)).run (vcomObject none).init
        [.device (.opens rtDeviceFlagRdwr), .packet [1]]).2 → IsFifo cdcRxBufsize rx := by
  intro hall
  obtain ⟨f, hnone, -⟩ := hall none (by decide)
  cases hnone

end RtVcom.Vcom
