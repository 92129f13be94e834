import RtVcom.Serial.Device

/-!
# The flags of a serial device

`rt_device_open` and `rt_device_close` decide the open flags of a serial device by its flags and
its reference count alone, whatever it has received or transmitted and whether it has a receive
structure. `Word` is what they look at, `Word.opens` and `Word.closes` are the two functions on
it, and `wordOf_apply` says that they refine the ones of the devices.

Somebody who prints sets the stream flag for a while. An open that comes then keeps it like one
that an earlier open asked for, so the word stays what it would be otherwise up to the stream flag
(`Near.apply`).
-/

namespace RtVcom.Serial

open RtVcom.Kernel

variable {κ : Type}

/-- An open or a close of a device. -/
inductive DeviceOp
  | opens (oflag : BitVec 16)
  | closes
deriving Repr, DecidableEq

def DeviceOp.apply (d : SerialDevice κ) : DeviceOp → SerialDevice κ
  | .opens oflag => (rtDeviceOpen serialOps d oflag).1
  | .closes => (rtDeviceClose serialOps d).1

/-! ## The word of a device -/

/-- What decides the flags of a device. -/
structure Word where
  flag : BitVec 16
  openFlag : BitVec 16
  refCount : Nat
  configure : Int
deriving Repr, DecidableEq

def wordOf (d : SerialDevice κ) : Word :=
  { flag := d.flag, openFlag := d.openFlag, refCount := d.refCount,
    configure := d.driver.configure }

/-- The receive mode that an open adds. -/
def rxMode (oflag : BitVec 16) : BitVec 16 :=
  if hasFlag oflag rtDeviceFlagIntRx then rtDeviceFlagIntRx
  else if hasFlag oflag rtDeviceFlagDmaRx then rtDeviceFlagDmaRx
  else 0

/-- The transmit mode that an open adds. -/
def txMode (oflag : BitVec 16) : BitVec 16 :=
  if hasFlag oflag rtDeviceFlagIntTx then rtDeviceFlagIntTx
  else if hasFlag oflag rtDeviceFlagDmaTx then rtDeviceFlagDmaTx
  else 0

/-- The stream flag behind an open. -/
def streamMode (openFlag oflag : BitVec 16) : BitVec 16 :=
  if hasFlag oflag rtDeviceFlagStream ∨ hasFlag openFlag rtDeviceFlagStream then
    rtDeviceFlagStream
  else 0

/-- The word behind the initialisation, and whether the open goes on. -/
def Word.activate (w : Word) : Word × Bool :=
  if hasFlag w.flag rtDeviceFlagActivated then (w, true)
  else if w.configure = rtEok then ({ w with flag := w.flag ||| rtDeviceFlagActivated }, true)
  else (w, false)

/-- Whether an initialised device refuses an open. -/
def Word.refuses (w : Word) (oflag : BitVec 16) : Prop :=
  (hasFlag w.flag rtDeviceFlagStandalone ∧ hasFlag w.openFlag rtDeviceOflagOpen) ∨
    serialModes.any (fun mode => hasFlag oflag mode && !hasFlag w.flag mode)

instance (w : Word) (oflag : BitVec 16) : Decidable (w.refuses oflag) :=
  inferInstanceAs (Decidable (_ ∨ _))

/-- `rt_device_open` on the word. -/
def Word.opens (w : Word) (oflag : BitVec 16) : Word :=
  let a := w.activate
  if a.2 = false ∨ a.1.refuses oflag then a.1
  else
    { a.1 with
      openFlag := (oflag &&& 0xff ||| rxMode oflag ||| txMode oflag |||
        streamMode a.1.openFlag oflag) ||| rtDeviceOflagOpen
      refCount := (a.1.refCount + 1) % rtDeviceRefCountMod }

/-- `rt_device_close` on the word. -/
def Word.closes (w : Word) : Word :=
  if w.refCount = 0 then w
  else if w.refCount = 1 then { w with openFlag := rtDeviceOflagClose, refCount := 0 }
  else { w with refCount := w.refCount - 1 }

def Word.apply (w : Word) : DeviceOp → Word
  | .opens oflag => w.opens oflag
  | .closes => w.closes

variable {d : SerialDevice κ} {oflag : BitVec 16}

theorem or_noFlag (word : BitVec 16) : word ||| 0 = word := BitVec.or_zero

/-- Opening the receiving side sets the flags of its mode. -/
theorem wordOf_serialOpenRx (d : SerialDevice κ) (oflag : BitVec 16) :
    wordOf (serialOpenRx d oflag) =
      { wordOf d with openFlag := d.openFlag ||| rxMode oflag } := by
  unfold serialOpenRx rxMode
  cases d.driver.serialRx with
  | none =>
    by_cases hint : hasFlag oflag rtDeviceFlagIntRx = true
    · simp only [hint, if_true, wordOf]
    · by_cases hdma : hasFlag oflag rtDeviceFlagDmaRx = true
      · simp only [hint, hdma, if_true, if_false, Bool.false_eq_true, wordOf]
        split <;> rfl
      · simp only [hint, hdma, if_false, Bool.false_eq_true, wordOf, or_noFlag]
  | some rx =>
    by_cases hint : hasFlag oflag rtDeviceFlagIntRx = true
    · simp only [hint, if_true, wordOf]
    · by_cases hdma : hasFlag oflag rtDeviceFlagDmaRx = true
      · simp only [hint, hdma, if_true, if_false, Bool.false_eq_true, wordOf]
      · simp only [hint, hdma, if_false, Bool.false_eq_true, wordOf, or_noFlag]

/-- Opening the sending side sets the flags of its mode. -/
theorem wordOf_serialOpenTx (d : SerialDevice κ) (oflag : BitVec 16) :
    wordOf (serialOpenTx d oflag) =
      { wordOf d with openFlag := d.openFlag ||| txMode oflag } := by
  unfold serialOpenTx txMode
  cases d.driver.serialTx with
  | none =>
    by_cases hint : hasFlag oflag rtDeviceFlagIntTx = true
    · simp only [hint, if_true, wordOf]
    · by_cases hdma : hasFlag oflag rtDeviceFlagDmaTx = true
      · simp only [hint, hdma, if_true, if_false, Bool.false_eq_true, wordOf]
      · simp only [hint, hdma, if_false, Bool.false_eq_true, wordOf, or_noFlag]
  | some tx =>
    by_cases hint : hasFlag oflag rtDeviceFlagIntTx = true
    · simp only [hint, if_true, wordOf]
    · by_cases hdma : hasFlag oflag rtDeviceFlagDmaTx = true
      · simp only [hint, hdma, if_true, if_false, Bool.false_eq_true, wordOf]
      · simp only [hint, hdma, if_false, Bool.false_eq_true, wordOf, or_noFlag]

/-- The driver's part of an open. -/
theorem wordOf_rtSerialOpen
    (hmodes : serialModes.any (fun mode => hasFlag oflag mode && !hasFlag d.flag mode) = false) :
    wordOf (rtSerialOpen d oflag).1 =
        { wordOf d with
          openFlag := oflag &&& 0xff ||| rxMode oflag ||| txMode oflag |||
            streamMode d.openFlag oflag } ∧
      (rtSerialOpen d oflag).2 = rtEok := by
  have hrx := wordOf_serialOpenRx { d with openFlag := oflag &&& 0xff } oflag
  have htx := wordOf_serialOpenTx (serialOpenRx { d with openFlag := oflag &&& 0xff } oflag) oflag
  simp only [wordOf, Word.mk.injEq] at hrx htx
  simp only [rtSerialOpen, hmodes, Bool.false_eq_true, if_false, and_true]
  simp only [wordOf, htx, hrx]
  rfl

/-- The activation of a device shows in its word. -/
theorem wordOf_activate (d : SerialDevice κ) :
    wordOf (deviceActivate serialOps d).1 = (wordOf d).activate.1 ∧
      ((deviceActivate serialOps d).2 = rtEok ↔ (wordOf d).activate.2 = true) := by
  unfold deviceActivate Word.activate
  by_cases hactive : hasFlag d.flag rtDeviceFlagActivated = true
  · simp only [wordOf, hactive, if_true, and_self]
  · by_cases hok : d.driver.configure = rtEok
    · simp only [wordOf, hactive, Bool.false_eq_true, if_false, serialOps, rtSerialInit, hok,
        if_true, and_self]
    · simp only [wordOf, hactive, Bool.false_eq_true, if_false, serialOps, rtSerialInit, hok,
        and_self]

theorem wordOf_rtDeviceOpen (d : SerialDevice κ) (oflag : BitVec 16) :
    wordOf (rtDeviceOpen serialOps d oflag).1 = (wordOf d).opens oflag := by
  obtain ⟨hword, hok⟩ := wordOf_activate d
  simp only [rtDeviceOpen, Word.opens, ← hword]
  generalize deviceActivate serialOps d = a at hok ⊢
  by_cases hfail : a.2 = rtEok
  · simp only [hfail, hok.mp hfail, ne_eq, not_true_eq_false, if_false, Bool.true_eq_false,
      false_or]
    by_cases hbusy : hasFlag a.1.flag rtDeviceFlagStandalone = true ∧
        hasFlag a.1.openFlag rtDeviceOflagOpen = true
    · have hrefuses : (wordOf a.1).refuses oflag := .inl hbusy
      rw [if_pos hbusy, if_pos hrefuses]
    · rw [if_neg hbusy]
      cases hmodes : serialModes.any (fun mode => hasFlag oflag mode && !hasFlag a.1.flag mode) with
      | true =>
        have hrefuses : (wordOf a.1).refuses oflag := .inr hmodes
        rw [if_pos hrefuses]
        simp only [serialOps, rtSerialOpen, hmodes, if_true]
        rfl
      | false =>
        have hrefuses : ¬ (wordOf a.1).refuses oflag := by
          rintro (h | h)
          · exact hbusy h
          · rw [show (wordOf a.1).flag = a.1.flag from rfl, hmodes] at h
            cases h
        obtain ⟨hopen, hokOpen⟩ := wordOf_rtSerialOpen (d := a.1) hmodes
        rw [if_neg hrefuses]
        simp only [serialOps, hokOpen, true_or, if_true]
        simp only [wordOf, Word.mk.injEq] at hopen ⊢
        simp only [hopen, and_self]
  · have hnot : (wordOf d).activate.2 = false := by
      cases hact : (wordOf d).activate.2 with
      | false => rfl
      | true => exact absurd (hok.mpr hact) hfail
    simp only [ne_eq, hfail, not_false_eq_true, if_true, hnot, true_or]

theorem wordOf_rtDeviceClose (d : SerialDevice κ) :
    wordOf (rtDeviceClose serialOps d).1 = (wordOf d).closes := by
  by_cases hzero : d.refCount = 0
  · rw [rtDeviceClose, if_pos hzero]
    simp only [Word.closes, wordOf, hzero, if_true]
  · by_cases hone : d.refCount = 1
    · obtain ⟨hflag, hopen, hrefs, hconf, -⟩ := rtDeviceClose_one hone
      simp only [Word.closes, wordOf, hone, Nat.one_ne_zero, if_false, if_true, hflag, hopen,
        hrefs, hconf]
    · rw [rtDeviceClose_shared (by omega)]
      simp only [Word.closes, wordOf, hzero, hone, if_false]

/-- The words refine the devices: an open or a close of a device is one of its word. -/
theorem wordOf_apply (d : SerialDevice κ) (op : DeviceOp) :
    wordOf (op.apply d) = (wordOf d).apply op := by
  cases op with
  | opens oflag => exact wordOf_rtDeviceOpen d oflag
  | closes => exact wordOf_rtDeviceClose d

/-! ## Words up to the stream flag -/

/-- A flag word, or the same with the stream flag set. -/
def UpToStream (word of : BitVec 16) : Prop := word = of ∨ word = of ||| rtDeviceFlagStream

/-- A word that only the stream flag tells from another. -/
structure Near (w v : Word) : Prop where
  flag : w.flag = v.flag
  refCount : w.refCount = v.refCount
  configure : w.configure = v.configure
  openFlag : UpToStream w.openFlag v.openFlag

/-- Words that are near and have the same open flags are equal. -/
theorem Near.eq {w v : Word} (h : Near w v) (hopen : w.openFlag = v.openFlag) : w = v := by
  obtain ⟨flag, openFlag, refCount, configure⟩ := w
  obtain ⟨rfl, rfl, rfl, -⟩ := h
  cases hopen
  rfl

theorem Near.of_eq {w v : Word} (h : w = v) : Near w v := by
  subst h
  exact ⟨rfl, rfl, rfl, .inl rfl⟩

/-- The stream flag does not open a device. -/
theorem hasFlag_open_stream (word : BitVec 16) :
    hasFlag (word ||| rtDeviceFlagStream) rtDeviceOflagOpen = hasFlag word rtDeviceOflagOpen := by
  have hand : (word ||| rtDeviceFlagStream) &&& rtDeviceOflagOpen = word &&& rtDeviceOflagOpen := by
    rw [BitVec.and_or_distrib_right, show rtDeviceFlagStream &&& rtDeviceOflagOpen = 0 by decide]
    exact or_noFlag _
  simp only [hasFlag, hand]

theorem hasFlag_stream_stream (word : BitVec 16) :
    hasFlag (word ||| rtDeviceFlagStream) rtDeviceFlagStream = true := by
  have hbit : ((word ||| rtDeviceFlagStream) &&& rtDeviceFlagStream).getLsbD 6 = true := by
    simp only [BitVec.getLsbD_and, BitVec.getLsbD_or,
      show rtDeviceFlagStream.getLsbD 6 = true by decide, Bool.or_true, Bool.and_self]
  refine decide_eq_true fun hzero => ?_
  rw [hzero] at hbit
  exact absurd hbit (by decide)

/-- The stream flag of an open under way to the stream flag. -/
theorem streamMode_near {word of : BitVec 16} (h : UpToStream word of) (oflag : BitVec 16) :
    UpToStream (streamMode word oflag) (streamMode of oflag) := by
  rcases h with rfl | rfl
  · exact .inl rfl
  · right
    simp only [streamMode, hasFlag_stream_stream, or_true, if_true]
    split <;> decide

/-- Words that are near are activated alike. -/
theorem Near.activate {w v : Word} (h : Near w v) :
    Near w.activate.1 v.activate.1 ∧ w.activate.2 = v.activate.2 := by
  unfold Word.activate
  rw [h.flag, h.configure]
  split
  · exact ⟨h, rfl⟩
  · split
    · exact ⟨⟨rfl, h.refCount, rfl, h.openFlag⟩, rfl⟩
    · exact ⟨h, rfl⟩

theorem Near.refuses {w v : Word} (h : Near w v) (oflag : BitVec 16) :
    w.refuses oflag ↔ v.refuses oflag := by
  have hopen : hasFlag w.openFlag rtDeviceOflagOpen = hasFlag v.openFlag rtDeviceOflagOpen := by
    rcases h.openFlag with heq | heq
    · rw [heq]
    · rw [heq, hasFlag_open_stream]
  simp only [Word.refuses, h.flag, hopen]

/-- Flags set on both sides keep them equal up to the stream flag. -/
theorem UpToStream.or {a b : BitVec 16} (h : UpToStream a b) (base last : BitVec 16) :
    UpToStream (base ||| a ||| last) (base ||| b ||| last) := by
  rcases h with rfl | rfl
  · exact .inl rfl
  · right
    rw [← BitVec.or_assoc, BitVec.or_assoc (base ||| b), BitVec.or_comm rtDeviceFlagStream,
      ← BitVec.or_assoc]

/-- An open or a close cannot tell the stream flag of an output from its own, and does nothing
else with it. -/
theorem Near.apply {w v : Word} (h : Near w v) (op : DeviceOp) :
    Near (w.apply op) (v.apply op) := by
  cases op with
  | opens oflag =>
    obtain ⟨hnear, hok⟩ := h.activate
    show Near (w.opens oflag) (v.opens oflag)
    unfold Word.opens
    simp only [hok, hnear.refuses oflag]
    split
    · exact hnear
    · refine ⟨hnear.flag, ?_, hnear.configure, ?_⟩
      · simp only [hnear.refCount]
      · exact (streamMode_near hnear.openFlag oflag).or _ _
  | closes =>
    show Near w.closes v.closes
    unfold Word.closes
    simp only [h.refCount]
    split
    · exact h
    · split
      · exact ⟨h.flag, rfl, h.configure, .inl rfl⟩
      · exact ⟨h.flag, rfl, h.configure, h.openFlag⟩

/-- The stream flag is not set twice. -/
theorem or_stream_of_hasFlag {word : BitVec 16} (h : hasFlag word rtDeviceFlagStream = true) :
    word ||| rtDeviceFlagStream = word := by
  have hstream : ∀ i < 16, rtDeviceFlagStream.getLsbD i = decide (i = 6) := by decide
  have hbit : word.getLsbD 6 = true := by
    cases hbit : word.getLsbD 6 with
    | true => rfl
    | false =>
      refine absurd ?_ (of_decide_eq_true h)
      refine BitVec.eq_of_getLsbD_eq fun i hi => ?_
      rw [BitVec.getLsbD_and, hstream i hi]
      by_cases hsix : i = 6
      · rw [hsix, hbit]
        rfl
      · simp only [hsix, decide_false, Bool.and_false]
        exact (BitVec.getLsbD_zero).symm
  refine BitVec.eq_of_getLsbD_eq fun i hi => ?_
  rw [BitVec.getLsbD_or, hstream i hi]
  by_cases hsix : i = 6
  · rw [hsix, hbit, Bool.true_or]
  · simp only [hsix, decide_false, Bool.or_false]

end RtVcom.Serial
