import RtVcom.Lib.Machine
import RtVcom.Serial.Flags

/-!
# The structures of a serial device and its flags

`rt_serial_open` allocates the receive and the transmit structure where the pointer is `RT_NULL`,
and `rt_serial_close` frees them where the open flags say that they are there. What connects the
two is `Booked`: a pointer is set exactly where a mode of its direction is among the flags, and
without users both are `RT_NULL`.

An open replaces the mode flags of the opens before it. One that asks for no receive mode, on a
device that has a receive structure, parts the flags from the pointer, and the last close then
leaves the structure (`serial_leaks`). In every run without such an open, and with no more users
than the 8-bit reference count can count, the books are right (`serial_booked`).
-/

namespace RtVcom.Serial

open RtVcom.Lib RtVcom.Kernel

variable {κ : Type}

/-! ## The system -/

/-- A device and its users: the opens that succeeded, less the closes. -/
structure Ledger (κ : Type) where
  dev : SerialDevice κ
  users : Nat

def Ledger.apply (s : Ledger κ) : DeviceOp → Ledger κ
  | .opens oflag =>
    let (dev, result) := rtDeviceOpen serialOps s.dev oflag
    { dev, users := if result = rtEok then s.users + 1 else s.users }
  | .closes => { dev := (rtDeviceClose serialOps s.dev).1, users := s.users - 1 }

/-- A device that nobody has opened yet. -/
def registered (flag : BitVec 16) (bufsz : Nat) (configure : Int) (rxIndicate : Option κ) :
    SerialDevice κ where
  flag := flag
  openFlag := rtDeviceOflagClose
  refCount := 0
  rxIndicate := rxIndicate
  driver := {
    bufsz := bufsz
    configure := configure
    serialRx := none
    serialTx := none
    controls := []
    calls := [] }

/-- The device after its registration, and every sequence of opens and closes. -/
def ledgerMachine (dev : SerialDevice κ) : Machine (Ledger κ) DeviceOp where
  init := { dev, users := 0 }
  step s op := some (s.apply op)

/-- Whether flags ask for a receive structure. -/
def asksRx (oflag : BitVec 16) : Bool :=
  hasFlag oflag rtDeviceFlagIntRx || hasFlag oflag rtDeviceFlagDmaRx

/-- Whether flags ask for a transmit structure. -/
def asksTx (oflag : BitVec 16) : Bool :=
  hasFlag oflag rtDeviceFlagIntTx || hasFlag oflag rtDeviceFlagDmaTx

/-- The law: pointers and flags agree, and the last user leaves nothing behind. -/
structure Booked (s : Ledger κ) : Prop where
  rx : s.dev.driver.serialRx.isSome = asksRx s.dev.openFlag
  tx : s.dev.driver.serialTx.isSome = asksTx s.dev.openFlag
  closed : s.users = 0 → s.dev.driver.serialRx = none ∧ s.dev.driver.serialTx = none

/-- Whether a device grants an open: it can be initialised and does not refuse. -/
def Word.Grants (w : Word) (oflag : BitVec 16) : Prop :=
  w.activate.2 = true ∧ ¬ w.activate.1.refuses oflag

instance (w : Word) (oflag : BitVec 16) : Decidable (w.Grants oflag) :=
  inferInstanceAs (Decidable (_ ∧ _))

/-- An open that is granted asks for the directions that have a structure, and finds room in the
reference count. -/
def KeepsModes (s : Ledger κ) : DeviceOp → Prop
  | .opens oflag => (wordOf s.dev).Grants oflag →
      (s.dev.driver.serialRx.isSome → asksRx oflag) ∧
        (s.dev.driver.serialTx.isSome → asksTx oflag) ∧
        s.dev.refCount + 1 < rtDeviceRefCountMod
  | .closes => True

instance : DecidableRel (@KeepsModes κ) := fun s a => by
  cases a <;> unfold KeepsModes <;> infer_instance

/-! ## Flags -/

/-- A flag is in a union when it is in one of the two. -/
theorem hasFlag_or (a b flag : BitVec 16) :
    hasFlag (a ||| b) flag = (hasFlag a flag || hasFlag b flag) := by
  have hzero : (a &&& flag ||| b &&& flag = 0) ↔ (a &&& flag = 0 ∧ b &&& flag = 0) :=
    BitVec.or_eq_zero_iff
  unfold hasFlag
  rw [Bool.eq_iff_iff, BitVec.and_or_distrib_right]
  simp only [Bool.or_eq_true, decide_eq_true_eq, ne_eq, hzero, Decidable.not_and_iff_not_or_not]

/-- A flag outside a mask is masked out. -/
theorem hasFlag_masked (word : BitVec 16) {mask flag : BitVec 16} (h : mask &&& flag = 0) :
    hasFlag (word &&& mask) flag = false := by
  unfold hasFlag
  rw [BitVec.and_assoc, h]
  exact decide_eq_false fun hne => hne BitVec.and_zero

/-- To clear one flag leaves the others. -/
theorem hasFlag_clear (word : BitVec 16) {cleared flag : BitVec 16}
    (h : ~~~cleared &&& flag = flag) : hasFlag (word &&& ~~~cleared) flag = hasFlag word flag := by
  unfold hasFlag
  rw [BitVec.and_assoc, h]

/-- Of the flags behind an open those above the first byte come from its modes. -/
theorem hasFlag_open {flag : BitVec 16} (hmask : 0xff &&& flag = 0) (openFlag oflag : BitVec 16) :
    hasFlag ((oflag &&& 0xff ||| rxMode oflag ||| txMode oflag ||| streamMode openFlag oflag) |||
      rtDeviceOflagOpen) flag = (hasFlag (rxMode oflag) flag || hasFlag (txMode oflag) flag) := by
  have hlow (word : BitVec 16) (hword : word &&& 0xff = word) : hasFlag word flag = false := by
    rw [← hword]
    exact hasFlag_masked word hmask
  have hstream : hasFlag (streamMode openFlag oflag) flag = false := by
    unfold streamMode
    split
    · exact hlow _ (by decide)
    · exact hlow _ (by decide)
  simp only [hasFlag_or, hasFlag_masked oflag hmask, hstream, hlow rtDeviceOflagOpen (by decide),
    Bool.false_or, Bool.or_false]

/-- The flags behind an open ask for what the open asked for. -/
theorem asks_open (openFlag oflag : BitVec 16) :
    asksRx ((oflag &&& 0xff ||| rxMode oflag ||| txMode oflag ||| streamMode openFlag oflag) |||
        rtDeviceOflagOpen) = asksRx oflag ∧
      asksTx ((oflag &&& 0xff ||| rxMode oflag ||| txMode oflag ||| streamMode openFlag oflag) |||
        rtDeviceOflagOpen) = asksTx oflag := by
  unfold asksRx asksTx
  rw [hasFlag_open (by decide), hasFlag_open (by decide), hasFlag_open (by decide),
    hasFlag_open (by decide)]
  unfold rxMode txMode
  cases hasFlag oflag rtDeviceFlagIntRx <;> cases hasFlag oflag rtDeviceFlagDmaRx <;>
    cases hasFlag oflag rtDeviceFlagIntTx <;> cases hasFlag oflag rtDeviceFlagDmaTx <;> decide

/-! ## What an open and a close do with the pointers -/

/-- The pointers of a device. -/
structure Pointers where
  rx : Bool
  tx : Bool
deriving Repr, DecidableEq

def pointersOf (d : SerialDevice κ) : Pointers :=
  { rx := d.driver.serialRx.isSome, tx := d.driver.serialTx.isSome }

variable {d : SerialDevice κ} {oflag : BitVec 16}

/-- The receiving side allocates its FIFO when it is asked for. -/
theorem pointersOf_serialOpenRx (d : SerialDevice κ) (oflag : BitVec 16) :
    pointersOf (serialOpenRx d oflag) =
      { rx := (pointersOf d).rx || asksRx oflag, tx := (pointersOf d).tx } := by
  unfold serialOpenRx asksRx pointersOf
  cases hrx : d.driver.serialRx with
  | none =>
    cases hint : hasFlag oflag rtDeviceFlagIntRx with
    | true => rfl
    | false =>
      cases hdma : hasFlag oflag rtDeviceFlagDmaRx with
      | true =>
        simp only [Bool.false_eq_true, if_false, if_true]
        split <;> rfl
      | false =>
        simp only [Bool.false_eq_true, if_false, hrx]
        rfl
  | some rx =>
    cases hasFlag oflag rtDeviceFlagIntRx with
    | true => simp only [if_true, hrx, Option.isSome_some, Bool.true_or]
    | false =>
      cases hasFlag oflag rtDeviceFlagDmaRx <;>
        simp only [Bool.false_eq_true, if_false, if_true, hrx, Option.isSome_some, Bool.true_or]

/-- The sending side allocates its structure when it is asked for. -/
theorem pointersOf_serialOpenTx (d : SerialDevice κ) (oflag : BitVec 16) :
    pointersOf (serialOpenTx d oflag) =
      { rx := (pointersOf d).rx, tx := (pointersOf d).tx || asksTx oflag } := by
  unfold serialOpenTx asksTx pointersOf
  cases htx : d.driver.serialTx with
  | none =>
    cases hasFlag oflag rtDeviceFlagIntTx with
    | true => rfl
    | false =>
      cases hasFlag oflag rtDeviceFlagDmaTx with
      | true => rfl
      | false =>
        simp only [Bool.false_eq_true, if_false, htx]
        rfl
  | some tx =>
    cases hasFlag oflag rtDeviceFlagIntTx with
    | true => simp only [if_true, htx, Option.isSome_some, Bool.true_or]
    | false =>
      cases hasFlag oflag rtDeviceFlagDmaTx <;>
        simp only [Bool.false_eq_true, if_false, if_true, htx, Option.isSome_some, Bool.true_or]

/-- An open with the modes of the device allocates both. -/
theorem pointersOf_rtSerialOpen
    (hmodes : serialModes.any (fun mode => hasFlag oflag mode && !hasFlag d.flag mode) = false) :
    pointersOf (rtSerialOpen d oflag).1 =
        { rx := (pointersOf d).rx || asksRx oflag, tx := (pointersOf d).tx || asksTx oflag } ∧
      (rtSerialOpen d oflag).2 = rtEok := by
  have htx :=
    pointersOf_serialOpenTx (serialOpenRx { d with openFlag := oflag &&& 0xff } oflag) oflag
  rw [pointersOf_serialOpenRx] at htx
  simp only [rtSerialOpen, hmodes, Bool.false_eq_true, if_false, and_true]
  exact htx

/-- The initialisation of a device without structures leaves it without. -/
theorem pointersOf_activate (h : hasFlag d.flag rtDeviceFlagActivated = false →
    d.driver.serialRx = none ∧ d.driver.serialTx = none) :
    pointersOf (deviceActivate serialOps d).1 = pointersOf d := by
  unfold deviceActivate
  cases hactive : hasFlag d.flag rtDeviceFlagActivated with
  | true => rfl
  | false =>
    obtain ⟨hrx, htx⟩ := h hactive
    by_cases hok : d.driver.configure = rtEok
    · simp only [Bool.false_eq_true, if_false, serialOps, rtSerialInit, hok, if_true, pointersOf,
        hrx, htx]
    · simp only [Bool.false_eq_true, if_false, serialOps, rtSerialInit, hok, pointersOf, hrx, htx]

/-- An open that is granted adds the structures it asks for. Any other changes no pointer. -/
theorem pointersOf_rtDeviceOpen (h : hasFlag d.flag rtDeviceFlagActivated = false →
    d.driver.serialRx = none ∧ d.driver.serialTx = none) (oflag : BitVec 16) :
    ((wordOf d).Grants oflag ∧ (rtDeviceOpen serialOps d oflag).2 = rtEok ∧
        pointersOf (rtDeviceOpen serialOps d oflag).1 =
          { rx := (pointersOf d).rx || asksRx oflag, tx := (pointersOf d).tx || asksTx oflag }) ∨
      (¬ (wordOf d).Grants oflag ∧ (rtDeviceOpen serialOps d oflag).2 ≠ rtEok ∧
        pointersOf (rtDeviceOpen serialOps d oflag).1 = pointersOf d) := by
  obtain ⟨hword, hok⟩ := wordOf_activate d
  have hpointers := pointersOf_activate h
  simp only [rtDeviceOpen, Word.Grants, ← hword]
  generalize deviceActivate serialOps d = a at hok hpointers ⊢
  rw [← hpointers]
  by_cases hfail : a.2 = rtEok
  · simp only [hfail, hok.mp hfail, ne_eq, not_true_eq_false, if_false, true_and]
    by_cases hbusy : hasFlag a.1.flag rtDeviceFlagStandalone = true ∧
        hasFlag a.1.openFlag rtDeviceOflagOpen = true
    · right
      rw [if_pos hbusy]
      exact ⟨fun hgrants => hgrants (.inl hbusy), (by decide : ¬ -rtEbusy = rtEok), rfl⟩
    · rw [if_neg hbusy]
      cases hmodes : serialModes.any (fun mode => hasFlag oflag mode && !hasFlag a.1.flag mode) with
      | true =>
        right
        simp only [serialOps, rtSerialOpen, hmodes, if_true]
        rw [if_neg (by decide)]
        exact ⟨fun hgrants => hgrants (.inr hmodes), (by decide : ¬ -rtEio = rtEok), rfl⟩
      | false =>
        left
        obtain ⟨hopen, hokOpen⟩ := pointersOf_rtSerialOpen (d := a.1) hmodes
        refine ⟨?_, ?_⟩
        · rintro (hrefuses | hrefuses)
          · exact hbusy hrefuses
          · rw [show (wordOf a.1).flag = a.1.flag from rfl, hmodes] at hrefuses
            cases hrefuses
        · simp only [serialOps, hokOpen, true_or, if_true, true_and]
          exact hopen
  · right
    simp only [ne_eq, hfail, not_false_eq_true, if_true, ← hok, false_and, true_and]

/-- A close frees what the flags tell of. -/
theorem pointersOf_serialCloseRx (d : SerialDevice κ) :
    pointersOf (serialCloseRx d) =
        { rx := (pointersOf d).rx && !asksRx d.openFlag, tx := (pointersOf d).tx } ∧
      asksTx (serialCloseRx d).openFlag = asksTx d.openFlag := by
  unfold serialCloseRx asksRx asksTx
  cases hint : hasFlag d.openFlag rtDeviceFlagIntRx with
  | true =>
    simp only [if_true, pointersOf, Option.isSome_none, Bool.true_or, Bool.not_true, Bool.and_false]
    rw [hasFlag_clear d.openFlag (by decide), hasFlag_clear d.openFlag (by decide)]
    exact ⟨trivial, rfl⟩
  | false =>
    cases hdma : hasFlag d.openFlag rtDeviceFlagDmaRx with
    | true =>
      simp only [Bool.false_eq_true, if_false, if_true, pointersOf, Option.isSome_none,
        Bool.or_true, Bool.not_true, Bool.and_false]
      rw [hasFlag_clear d.openFlag (by decide), hasFlag_clear d.openFlag (by decide)]
      exact ⟨trivial, rfl⟩
    | false =>
      simp only [Bool.false_eq_true, if_false, Bool.or_self, Bool.not_false, Bool.and_true]
      exact ⟨trivial, trivial⟩

theorem pointersOf_serialCloseTx (d : SerialDevice κ) :
    pointersOf (serialCloseTx d) =
      { rx := (pointersOf d).rx, tx := (pointersOf d).tx && !asksTx d.openFlag } := by
  unfold serialCloseTx asksTx
  cases hint : hasFlag d.openFlag rtDeviceFlagIntTx with
  | true =>
    simp only [if_true, pointersOf, Option.isSome_none, Bool.true_or, Bool.not_true, Bool.and_false]
  | false =>
    cases hdma : hasFlag d.openFlag rtDeviceFlagDmaTx with
    | true =>
      simp only [Bool.false_eq_true, if_false, if_true, pointersOf, Option.isSome_none,
        Bool.or_true, Bool.not_true, Bool.and_false]
    | false =>
      simp only [Bool.false_eq_true, if_false, Bool.or_self, Bool.not_false, Bool.and_true]

/-- The last close frees the structures that the open flags ask for, and no other close frees
any. -/
theorem pointersOf_rtDeviceClose (d : SerialDevice κ) :
    pointersOf (rtDeviceClose serialOps d).1 =
      if d.refCount = 1 then
        { rx := (pointersOf d).rx && !asksRx d.openFlag
          tx := (pointersOf d).tx && !asksTx d.openFlag }
      else pointersOf d := by
  by_cases hone : d.refCount = 1
  · have hclose : rtSerialClose { d with refCount := 0 } =
        (serialCloseTx (serialCloseRx { d with refCount := 0 }), rtEok) := by
      simp only [rtSerialClose, Nat.not_lt_zero, if_false]
    obtain ⟨hrx, hflags⟩ := pointersOf_serialCloseRx { d with refCount := 0 }
    have htx := pointersOf_serialCloseTx (serialCloseRx { d with refCount := 0 })
    rw [hrx, hflags] at htx
    rw [rtDeviceClose_last rfl hone (by rw [hclose]), hclose, if_pos hone]
    exact htx
  · rw [if_neg hone]
    by_cases hzero : d.refCount = 0
    · rw [rtDeviceClose, if_pos hzero]
    · rw [rtDeviceClose_shared (by omega)]
      rfl

/-- The last close of a device whose flags say what is there leaves nothing. -/
theorem pointersOf_rtDeviceClose_last (hone : d.refCount = 1)
    (hrx : d.driver.serialRx.isSome = asksRx d.openFlag)
    (htx : d.driver.serialTx.isSome = asksTx d.openFlag) :
    (rtDeviceClose serialOps d).1.driver.serialRx = none ∧
      (rtDeviceClose serialOps d).1.driver.serialTx = none := by
  have hpointers := pointersOf_rtDeviceClose d
  simp only [if_pos hone, pointersOf, hrx, htx, Bool.and_not_self, Pointers.mk.injEq] at hpointers
  exact ⟨Option.isNone_iff_eq_none.mp (Option.isSome_eq_false_iff.mp hpointers.1),
    Option.isNone_iff_eq_none.mp (Option.isSome_eq_false_iff.mp hpointers.2)⟩

/-! ## The books -/

/-- The books, and what keeps them: the reference count counts the users, and a device without
users has no flags. -/
structure Sound (s : Ledger κ) : Prop where
  booked : Booked s
  refs : s.dev.refCount = s.users
  idle : s.users = 0 → s.dev.openFlag = rtDeviceOflagClose
  active : hasFlag s.dev.flag rtDeviceFlagActivated = false → s.users = 0

/-- The initialisation of a word touches its flags alone. -/
theorem Word.activate_keeps (w : Word) :
    w.activate.1.openFlag = w.openFlag ∧ w.activate.1.refCount = w.refCount ∧
      (hasFlag w.activate.1.flag rtDeviceFlagActivated = false →
        w.activate.2 = false ∧ hasFlag w.flag rtDeviceFlagActivated = false) := by
  unfold Word.activate
  split
  · next hactive =>
    refine ⟨rfl, rfl, fun hinactive => ?_⟩
    rw [hactive] at hinactive
    cases hinactive
  · next hinactive =>
    split
    · refine ⟨rfl, rfl, fun hnone => ?_⟩
      rw [hasFlag_or, show hasFlag rtDeviceFlagActivated rtDeviceFlagActivated = true by decide,
        Bool.or_true] at hnone
      cases hnone
    · exact ⟨rfl, rfl, fun hnone => ⟨rfl, hnone⟩⟩

/-- The word behind an open that is granted. -/
theorem Word.opens_granted {w : Word} (h : w.Grants oflag) :
    asksRx (w.opens oflag).openFlag = asksRx oflag ∧
      asksTx (w.opens oflag).openFlag = asksTx oflag ∧
      (w.opens oflag).refCount = (w.refCount + 1) % rtDeviceRefCountMod ∧
      hasFlag (w.opens oflag).flag rtDeviceFlagActivated = true := by
  obtain ⟨-, hrefs, hactive⟩ := w.activate_keeps
  have hopens : w.opens oflag =
      { w.activate.1 with
        openFlag := (oflag &&& 0xff ||| rxMode oflag ||| txMode oflag |||
          streamMode w.activate.1.openFlag oflag) ||| rtDeviceOflagOpen
        refCount := (w.activate.1.refCount + 1) % rtDeviceRefCountMod } := by
    apply if_neg
    rintro (hfail | hrefuses)
    · rw [h.1] at hfail
      cases hfail
    · exact h.2 hrefuses
  obtain ⟨hasksRx, hasksTx⟩ := asks_open w.activate.1.openFlag oflag
  rw [hopens]
  refine ⟨hasksRx, hasksTx, ?_, ?_⟩
  · rw [hrefs]
  · cases hflag : hasFlag w.activate.1.flag rtDeviceFlagActivated with
    | true => rfl
    | false =>
      rw [h.1] at hactive
      cases (hactive hflag).1

/-- The word behind any other open. -/
theorem Word.opens_refused {w : Word} (h : ¬ w.Grants oflag) :
    (w.opens oflag).openFlag = w.openFlag ∧ (w.opens oflag).refCount = w.refCount ∧
      (hasFlag (w.opens oflag).flag rtDeviceFlagActivated = false →
        hasFlag w.flag rtDeviceFlagActivated = false) := by
  obtain ⟨hopen, hrefs, hactive⟩ := w.activate_keeps
  have hopens : w.opens oflag = w.activate.1 := by
    apply if_pos
    cases hgoes : w.activate.2 with
    | false => exact .inl rfl
    | true =>
      right
      exact Decidable.byContradiction fun hrefuses => h ⟨hgoes, hrefuses⟩
  rw [hopens]
  exact ⟨hopen, hrefs, fun hnone => (hactive hnone).2⟩

/-- An open that keeps the modes keeps the bookkeeping. -/
theorem sound_opens {s : Ledger κ} (h : Sound s) (hok : KeepsModes s (.opens oflag)) :
    Sound (s.apply (.opens oflag)) := by
  have hbare (hinactive : hasFlag s.dev.flag rtDeviceFlagActivated = false) :=
    h.booked.closed (h.active hinactive)
  have hword := wordOf_rtDeviceOpen s.dev oflag
  have hopenFlag := congrArg Word.openFlag hword
  have hrefs := congrArg Word.refCount hword
  have hflag := congrArg Word.flag hword
  simp only [wordOf] at hopenFlag hrefs hflag
  rcases pointersOf_rtDeviceOpen hbare oflag with ⟨hgrants, hresult, hpointers⟩ |
    ⟨hgrants, hresult, hpointers⟩
  · obtain ⟨hkeepsRx, hkeepsTx, hroom⟩ := hok hgrants
    obtain ⟨hasksRx, hasksTx, hcount, hactive⟩ := Word.opens_granted hgrants
    have husers : (s.apply (.opens oflag)).users = s.users + 1 := by
      simp only [Ledger.apply, hresult, if_true]
    constructor
    case booked =>
      constructor
      case rx =>
        apply (congrArg Pointers.rx hpointers).trans
        change _ = asksRx (rtDeviceOpen serialOps s.dev oflag).1.openFlag
        rw [hopenFlag]
        refine Eq.trans ?_ hasksRx.symm
        cases hsome : s.dev.driver.serialRx.isSome with
        | true => rw [hkeepsRx hsome, Bool.or_true]
        | false => simp only [pointersOf, hsome, Bool.false_or]
      case tx =>
        apply (congrArg Pointers.tx hpointers).trans
        change _ = asksTx (rtDeviceOpen serialOps s.dev oflag).1.openFlag
        rw [hopenFlag]
        refine Eq.trans ?_ hasksTx.symm
        cases hsome : s.dev.driver.serialTx.isSome with
        | true => rw [hkeepsTx hsome, Bool.or_true]
        | false => simp only [pointersOf, hsome, Bool.false_or]
      case closed =>
        intro hzero
        rw [husers] at hzero
        cases hzero
    case refs =>
      rw [husers, ← h.refs]
      refine hrefs.trans (hcount.trans ?_)
      exact Nat.mod_eq_of_lt hroom
    case idle =>
      intro hzero
      rw [husers] at hzero
      cases hzero
    case active =>
      intro hnone
      have hset : hasFlag (rtDeviceOpen serialOps s.dev oflag).1.flag rtDeviceFlagActivated =
          true := by
        rw [hflag]
        exact hactive
      exact absurd (hset.symm.trans hnone) (by decide)
  · obtain ⟨hopen, hcount, hactive⟩ := Word.opens_refused hgrants
    have husers : (s.apply (.opens oflag)).users = s.users := by
      simp only [Ledger.apply, hresult, if_false]
    have hsame : (s.apply (.opens oflag)).dev.openFlag = s.dev.openFlag := hopenFlag.trans hopen
    have hrx := congrArg Pointers.rx hpointers
    have htx := congrArg Pointers.tx hpointers
    constructor
    case booked =>
      constructor
      case rx =>
        rw [hsame]
        exact hrx.trans h.booked.rx
      case tx =>
        rw [hsame]
        exact htx.trans h.booked.tx
      case closed =>
        intro hzero
        rw [husers] at hzero
        obtain ⟨hnoRx, hnoTx⟩ := h.booked.closed hzero
        simp only [pointersOf, hnoRx, hnoTx, Option.isSome_none] at hrx htx
        exact ⟨Option.isNone_iff_eq_none.mp (Option.isSome_eq_false_iff.mp hrx),
          Option.isNone_iff_eq_none.mp (Option.isSome_eq_false_iff.mp htx)⟩
    case refs =>
      rw [husers, ← h.refs]
      exact hrefs.trans hcount
    case idle =>
      intro hzero
      rw [husers] at hzero
      exact hsame.trans (h.idle hzero)
    case active =>
      intro hnone
      rw [husers]
      apply h.active
      apply hactive
      exact (congrArg (hasFlag · rtDeviceFlagActivated) hflag).symm.trans hnone

theorem sound_closes {s : Ledger κ} (h : Sound s) : Sound (s.apply .closes) := by
  by_cases hzero : s.dev.refCount = 0
  · -- nobody has the device open, and the close is refused
    have husers : s.users = 0 := h.refs.symm.trans hzero
    have hsame : s.apply .closes = s := by
      simp only [Ledger.apply, rtDeviceClose, hzero, if_true, husers, Nat.zero_sub]
      rw [← husers]
    rw [hsame]
    exact h
  · by_cases hone : s.dev.refCount = 1
    · have husers : s.users = 1 := h.refs.symm.trans hone
      obtain ⟨hrx, htx⟩ := pointersOf_rtDeviceClose_last hone h.booked.rx h.booked.tx
      obtain ⟨hflag, hopen, hrefs, -, -⟩ := rtDeviceClose_one hone
      have hnone : (s.apply .closes).users = 0 := by
        simp only [Ledger.apply, husers, Nat.sub_self]
      have hclosed : asksRx rtDeviceOflagClose = false ∧ asksTx rtDeviceOflagClose = false := by
        decide
      constructor
      case booked =>
        constructor
        case rx =>
          change (rtDeviceClose serialOps s.dev).1.driver.serialRx.isSome =
            asksRx (rtDeviceClose serialOps s.dev).1.openFlag
          rw [hrx, hopen, hclosed.1]
          rfl
        case tx =>
          change (rtDeviceClose serialOps s.dev).1.driver.serialTx.isSome =
            asksTx (rtDeviceClose serialOps s.dev).1.openFlag
          rw [htx, hopen, hclosed.2]
          rfl
        case closed =>
          intro _
          exact ⟨hrx, htx⟩
      case refs =>
        rw [hnone]
        exact hrefs
      case idle =>
        intro _
        exact hopen
      case active =>
        intro _
        exact hnone
    · -- somebody else has the device open
      have hshared : s.apply .closes =
          { dev := { s.dev with refCount := s.dev.refCount - 1 }, users := s.users - 1 } := by
        simp only [Ledger.apply, rtDeviceClose_shared (show 2 ≤ s.dev.refCount by omega)]
      have husers : 2 ≤ s.users := by
        rw [← h.refs]
        omega
      rw [hshared]
      constructor
      case booked =>
        refine ⟨h.booked.rx, h.booked.tx, fun hnone => ?_⟩
        change s.users - 1 = 0 at hnone
        omega
      case refs =>
        change s.dev.refCount - 1 = s.users - 1
        rw [h.refs]
      case idle =>
        intro hnone
        change s.users - 1 = 0 at hnone
        omega
      case active =>
        intro hnone
        have := h.active hnone
        change s.users - 1 = 0
        omega

/-- A registered device is closed and has allocated nothing. -/
theorem sound_registered (flag : BitVec 16) (bufsz : Nat) (configure : Int)
    (rxIndicate : Option κ) :
    Sound (ledgerMachine (registered flag bufsz configure rxIndicate)).init where
  booked := ⟨(by decide : false = asksRx rtDeviceOflagClose),
    (by decide : false = asksTx rtDeviceOflagClose), fun _ => ⟨rfl, rfl⟩⟩
  refs := rfl
  idle _ := rfl
  active _ := rfl

/-- **The books.** In every run in which each open asks for the directions that have a structure,
and finds room in the reference count, flags and pointers agree, and the last close leaves no
structure behind. -/
theorem serial_booked (flag : BitVec 16) (bufsz : Nat) (configure : Int) (rxIndicate : Option κ)
    (s : Ledger κ)
    (h : (ledgerMachine (registered flag bufsz configure rxIndicate)).Reach KeepsModes s) :
    Booked s := by
  have hsound : Sound s := by
    apply h.invariant (sound_registered flag bufsz configure rxIndicate)
    intro s op t hs hok hstep
    cases hstep
    cases op with
    | opens oflag => exact sound_opens hs hok
    | closes => exact sound_closes hs
  exact hsound.booked

/-- `RT_DEVICE_FLAG_RDWR` with interrupt reception, as the UARTs and the virtual COM port are
registered. -/
def rdwrIntRx : BitVec 16 := rtDeviceFlagRdwr ||| rtDeviceFlagIntRx

/-- Two users that receive by interrupt, and both leave. -/
theorem serial_booked_shared :
    ∃ s : Ledger Unit,
      (ledgerMachine (registered rdwrIntRx 64 rtEok none)).Reach KeepsModes s ∧
      (s.users = 0 ∧ s.dev.driver.controls.length = 2) ∧ Booked s := by
  obtain ⟨s, hreach, hs⟩ := Machine.exists_reach_of_run
    (ledgerMachine (registered rdwrIntRx 64 rtEok (none : Option Unit))) KeepsModes
    [.opens rdwrIntRx, .opens rdwrIntRx, .closes, .closes]
    (fun s => s.users = 0 ∧ s.dev.driver.controls.length = 2) (by decide)
  exact ⟨s, hreach, hs, serial_booked rdwrIntRx 64 rtEok none s hreach⟩

/-- A user that receives by interrupt and one that polls: the second open takes the flag of the
first away, and when both have left the receive structure is still there. -/
theorem serial_leaks :
    ¬ ∀ (flag : BitVec 16) (bufsz : Nat) (configure : Int) (rxIndicate : Option Unit)
      (s : Ledger Unit),
      (ledgerMachine (registered flag bufsz configure rxIndicate)).Reach Machine.any s →
        Booked s := by
  intro hall
  obtain ⟨s, hreach, husers, hrx⟩ := Machine.exists_reach_of_run
    (ledgerMachine (registered rdwrIntRx 64 rtEok (none : Option Unit))) Machine.any
    [.opens rdwrIntRx, .opens rtDeviceFlagRdwr, .closes, .closes]
    (fun s => s.users = 0 ∧ s.dev.driver.serialRx.isSome = true) (by decide)
  have hclosed := (hall _ _ _ _ s hreach).closed husers
  rw [hclosed.1] at hrx
  cases hrx

end RtVcom.Serial
