import RtVcom.Console.Switch

/-!
# The `change_print` command

`change_print` of `applications/main.c` moves the console to a device that its user names. It is
written like the long press callbacks, but the name it hands to `finsh_set_device` and
`rt_console_set_device` is always `vcom`; only the close and open at the end are those of the
named device.

The command mixes with the keys and with itself, so the devices are followed through every
sequence of switches. What the modes of a device are is lost on the way, so the invariant
`Counted` only counts: a device has the references that are neither the shell's nor the output's,
one for the shell and one for the output, and each move carries one of the two along. The first
argument of `Counted` is not fixed. A close and open of a device that nobody uses fails to close
it and so leaves one reference behind (`reopen_counted`), once for each device.
-/

namespace RtVcom.Console

open RtVcom.Kernel RtVcom.Serial

/-- `change_print`. The first argument is the name of the command. -/
def changePrint (objects : ObjectList) (s : Board) : List String → Board
  | _ :: name :: _ =>
    match rtDeviceFind objects name with
    | some new =>
      let s := finshSetDevice objects s "vcom"
      let s := (rtConsoleSetDevice objects s "vcom").1
      let s := reopen s (some new)
      rtKprintf s ("Console have been changed to " ++ name ++ "\n")
    | none => rtKprintf s "Error Device Name\n"
  | _ => s

/-! ## A device under any use -/

/-- A device that can be opened and closed at any time: it is ready, and nothing is being
transferred from it. -/
structure Usable (d : Device) : Prop extends Ready d where
  idle : d.driver.serialTx = none

variable {d : Device}

/-- The shell opens a usable device. -/
theorem Usable.open_shell (h : Usable d) :
    Usable (rtDeviceOpen serialOps d shellOflag).1 ∧
      (rtDeviceOpen serialOps d shellOflag).1.refCount = (d.refCount + 1) % rtDeviceRefCountMod ∧
      (rtDeviceOpen serialOps d shellOflag).1.openFlag = consoleOpenFlag ∧
      (rtDeviceOpen serialOps d shellOflag).2 = rtEok := by
  rw [rtDeviceOpen_receives h.toReady receives_shellOflag, streamFlag_stream (by decide)]
  exact ⟨⟨⟨h.active, h.shared, h.intRx⟩, h.idle⟩, rfl, openFlag_shell, rfl⟩

theorem Usable.open_output (h : Usable d) :
    Usable (rtDeviceOpen serialOps d (rtDeviceOflagRdwr ||| rtDeviceFlagStream)).1 ∧
      (rtDeviceOpen serialOps d (rtDeviceOflagRdwr ||| rtDeviceFlagStream)).1.refCount =
        (d.refCount + 1) % rtDeviceRefCountMod := by
  rw [rtDeviceOpen_polls h.toReady polls_outputOflag]
  exact ⟨⟨⟨h.active, h.shared, h.intRx⟩, h.idle⟩, rfl⟩

theorem Usable.close (h : Usable d) :
    Usable (rtDeviceClose serialOps d).1 ∧
      (rtDeviceClose serialOps d).1.refCount = d.refCount - 1 := by
  obtain ⟨hflag, hrefs, htx⟩ := rtDeviceClose_keeps h.idle
  exact ⟨⟨h.toReady.of_flag hflag, htx⟩, hrefs⟩

/-- Printing starts no transfer on a device without a transmit structure. -/
theorem Usable.write (h : Usable d) (buffer : List UInt8) :
    ∃ calls, rtDeviceWrite serialOps d buffer =
      { d with driver := { d.driver with calls } } := by
  unfold rtDeviceWrite
  split
  · exact ⟨_, rfl⟩
  · refine ⟨d.driver.calls ++ rtSerialWrite d.openFlag d.driver.txActivated buffer, ?_⟩
    show serialWrite d buffer = _
    simp only [serialWrite, serialTxAfter, h.idle, Option.isSome_none, Bool.false_eq_true,
      and_false, if_false]

/-! ## The references of the board -/

/-- A count of every serial device, added up. -/
def totalOf (count : DevicePtr → Nat) : Nat := serialDevices.foldr (fun p n => count p + n) 0

/-- The references of all serial devices together. -/
def totalRefCount (s : Board) : Nat := totalOf fun p => (s.device p).refCount

/-- The shell is on the device `shell` and the output on `output`; each serial device counts
`base` references that are not theirs. -/
structure Counted (base : DevicePtr → Nat) (s : Board) (shell output : DevicePtr) : Prop where
  shellDevice : s.shell.device = some shell
  outputDevice : s.consoleDevice = some output
  shellMem : shell ∈ serialDevices
  outputMem : output ∈ serialDevices
  usable : ∀ p ∈ serialDevices, Usable (s.device p)
  refs : ∀ p ∈ serialDevices,
    (s.device p).refCount = base p + holds shell p + holds output p
  few : ∀ p, base p ≤ 1

variable {base : DevicePtr → Nat} {objects : ObjectList} {s : Board} {shell output dev : DevicePtr}
  {name : String}

/-- The 8-bit counts are far from their end. -/
theorem Counted.room (h : Counted base s shell output) {p : DevicePtr} (hp : p ∈ serialDevices) :
    (s.device p).refCount + 1 < rtDeviceRefCountMod := by
  have hrefs := h.refs p hp
  have hfew := h.few p
  have hshell := holds_le shell p
  have houtput := holds_le output p
  show (s.device p).refCount + 1 < 0x100
  omega

/-- Printing changes nothing but what the output transmits. -/
theorem rtKprintf_transmits (husable : ∀ p ∈ s.consoleDevice, Usable (s.device p))
    (text : String) (p : DevicePtr) :
    ∃ calls, (rtKprintf s text).device p =
      { s.device p with driver := { (s.device p).driver with calls } } := by
  unfold rtKprintf
  cases hconsole : s.consoleDevice with
  | none => exact ⟨_, rfl⟩
  | some dev =>
    by_cases hp : p = dev
    · subst hp
      have huse := husable p hconsole
      have hstream : Usable
          { s.device p with openFlag := (s.device p).openFlag ||| rtDeviceFlagStream } :=
        ⟨⟨huse.active, huse.shared, huse.intRx⟩, huse.idle⟩
      obtain ⟨calls, hwrite⟩ := hstream.write (rtLogBuf text.toUTF8.toList)
      refine ⟨calls, ?_⟩
      simp only [Board.set_device_self, hwrite]
    · refine ⟨(s.device p).driver.calls, ?_⟩
      simp only [Board.set_device_ne hp]

/-- The device of the output is usable. -/
theorem Counted.output_usable (h : Counted base s shell output) :
    ∀ p ∈ s.consoleDevice, Usable (s.device p) := by
  intro p hp
  rw [h.outputDevice] at hp
  cases hp
  exact h.usable _ h.outputMem

theorem rtKprintf_counted (h : Counted base s shell output) (text : String) :
    Counted base (rtKprintf s text) shell output := by
  obtain ⟨hshell, houtput⟩ := rtKprintf_users s text
  refine ⟨by rw [hshell, h.shellDevice], by rw [houtput, h.outputDevice], h.shellMem,
    h.outputMem, ?_, ?_, h.few⟩
  · intro p hp
    obtain ⟨calls, hdev⟩ := rtKprintf_transmits h.output_usable text p
    have huse := h.usable p hp
    rw [hdev]
    exact ⟨⟨huse.active, huse.shared, huse.intRx⟩, huse.idle⟩
  · intro p hp
    obtain ⟨calls, hdev⟩ := rtKprintf_transmits h.output_usable text p
    rw [hdev]
    exact h.refs p hp

/-- A move of the shell carries one reference along. -/
theorem finshSetDevice_counted (h : Counted base s shell output) (hmem : dev ∈ serialDevices)
    (hfind : rtDeviceFind objects name = some dev) :
    Counted base (finshSetDevice objects s name) dev output := by
  by_cases hsame : shell = dev
  · subst hsame
    have hstay : finshSetDevice objects s name = s := by
      simp only [finshSetDevice, hfind, h.shellDevice, if_true]
    rw [hstay]
    exact h
  · obtain ⟨huseOpen, hrefsOpen, -, hok⟩ := (h.usable dev hmem).open_shell
    obtain ⟨huseClose, hrefsClose⟩ := (h.usable shell h.shellMem).close
    obtain ⟨hshell, houtput, hdev, hold, hrest⟩ :=
      finshSetDevice_devices h.shellDevice hsame hfind hok
    refine ⟨hshell, houtput.trans h.outputDevice, hmem, h.outputMem, ?_, ?_, h.few⟩
    · intro p hp
      by_cases hpdev : p = dev
      · subst hpdev
        rw [hdev]
        exact ⟨⟨huseOpen.active, huseOpen.shared, huseOpen.intRx⟩, huseOpen.idle⟩
      · by_cases hpold : p = shell
        · subst hpold
          rw [hold]
          exact ⟨⟨huseClose.active, huseClose.shared, huseClose.intRx⟩, huseClose.idle⟩
        · rw [hrest p hpold hpdev]
          exact h.usable p hp
    · intro p hp
      have hrefs := h.refs p hp
      by_cases hpdev : p = dev
      · subst hpdev
        rw [hdev]
        show (rtDeviceOpen serialOps (s.device p) shellOflag).1.refCount = _
        rw [hrefsOpen, Nat.mod_eq_of_lt (h.room hp), hrefs, holds_self, holds_ne (Ne.symm hsame)]
        omega
      · rw [holds_ne hpdev]
        by_cases hpold : p = shell
        · subst hpold
          rw [hold]
          show (rtDeviceClose serialOps (s.device p)).1.refCount = _
          rw [hrefsClose, hrefs, holds_self]
          omega
        · rw [hrest p hpold hpdev, hrefs, holds_ne hpold]

/-- One device of the board closed, with the references of all of them. -/
theorem closeDevice_refs {p : DevicePtr} (h : Usable (s.device p)) (dev : DevicePtr) :
    Usable ((s.closeDevice dev).device p) ∧
      ((s.closeDevice dev).device p).refCount = (s.device p).refCount - holds dev p := by
  by_cases hp : p = dev
  · subst hp
    simp only [Board.closeDevice, Board.set_device_self, holds_self]
    exact h.close
  · simp only [Board.closeDevice, Board.set_device_ne hp, holds_ne hp, Nat.sub_zero, and_true]
    exact h

/-- One device of the board opened, for the shell or for the output. -/
theorem openDevice_refs {p : DevicePtr} {oflag : BitVec 16} (h : Usable (s.device p))
    (dev : DevicePtr) (hroom : (s.device p).refCount + 1 < rtDeviceRefCountMod)
    (hoflag : oflag = shellOflag ∨ oflag = rtDeviceOflagRdwr ||| rtDeviceFlagStream) :
    Usable ((s.openDevice dev oflag).device p) ∧
      ((s.openDevice dev oflag).device p).refCount = (s.device p).refCount + holds dev p := by
  by_cases hp : p = dev
  · subst hp
    simp only [Board.openDevice, Board.set_device_self, holds_self]
    rw [← Nat.mod_eq_of_lt hroom]
    rcases hoflag with rfl | rfl
    · obtain ⟨huse, hrefs, -, -⟩ := h.open_shell
      exact ⟨huse, hrefs⟩
    · exact h.open_output
  · simp only [Board.openDevice, Board.set_device_ne hp, holds_ne hp, Nat.add_zero, and_true]
    exact h

/-- A close and an open of one device together. A device without references is only opened. -/
theorem closeOpen_refs {oflag : BitVec 16} (h : Counted base s shell output)
    {p : DevicePtr} (hp : p ∈ serialDevices) (old new : DevicePtr)
    (hoflag : oflag = shellOflag ∨ oflag = rtDeviceOflagRdwr ||| rtDeviceFlagStream) :
    Usable (((s.closeDevice old).openDevice new oflag).device p) ∧
      (((s.closeDevice old).openDevice new oflag).device p).refCount =
        (s.device p).refCount - holds old p + holds new p := by
  obtain ⟨huse, hrefs⟩ := closeDevice_refs (h.usable p hp) old
  have hroom := h.room hp
  rw [← hrefs]
  exact openDevice_refs huse new (by omega) hoflag

/-- A move of the output carries the other reference along. -/
theorem rtConsoleSetDevice_counted (h : Counted base s shell output) (hmem : dev ∈ serialDevices)
    (hfind : rtDeviceFind objects name = some dev) :
    Counted base (rtConsoleSetDevice objects s name).1 shell dev := by
  rw [rtConsoleSetDevice_board h.outputDevice hfind]
  refine ⟨h.shellDevice, rfl, h.shellMem, hmem, ?_, ?_, h.few⟩
  · intro p hp
    exact (closeOpen_refs h hp output dev (.inr rfl)).1
  · intro p hp
    have hrefs := (closeOpen_refs h hp output dev (.inr rfl)).2
    rw [h.refs p hp] at hrefs
    refine hrefs.trans ?_
    omega

/-- The references that are neither the shell's nor the output's behind a close and an open of
`dev`: a device that was closed already keeps one. -/
def reopenBase (base : DevicePtr → Nat) (shell output dev : DevicePtr) (p : DevicePtr) : Nat :=
  if p = dev then max (base p) (1 - holds shell p - holds output p) else base p

/-- A switch counts one use less here and one more there. -/
theorem reopen_counted (h : Counted base s shell output) (dev : DevicePtr) :
    Counted (reopenBase base shell output dev) (reopen s (some dev)) shell output := by
  rw [reopen, reopen_shellOflag]
  refine ⟨h.shellDevice, h.outputDevice, h.shellMem, h.outputMem, ?_, ?_, ?_⟩
  · intro p hp
    exact (closeOpen_refs h hp dev dev (.inl rfl)).1
  · intro p hp
    have hrefs := (closeOpen_refs h hp dev dev (.inl rfl)).2
    rw [h.refs p hp] at hrefs
    refine hrefs.trans ?_
    by_cases hpdev : p = dev
    · subst hpdev
      simp only [reopenBase, if_true, holds_self]
      omega
    · simp only [reopenBase, hpdev, if_false, holds_ne hpdev]
      omega
  · intro p
    have hfew := h.few p
    unfold reopenBase
    split
    · exact Nat.max_le.mpr ⟨hfew, by omega⟩
    · exact hfew

/-- The device that the shell uses is reopened without a trace. -/
theorem reopenBase_shell (base : DevicePtr → Nat) (shell output : DevicePtr) :
    reopenBase base shell output shell = base := by
  funext p
  unfold reopenBase
  split
  · next hp =>
    rw [hp, holds_self]
    omega
  · rfl

/-- The device switched to has the flags of the shell. -/
theorem reopen_flags (h : Counted base s shell output) (hmem : dev ∈ serialDevices) :
    ((reopen s (some dev)).device dev).openFlag = consoleOpenFlag := by
  obtain ⟨huse, -⟩ := closeDevice_refs (h.usable dev hmem) dev
  obtain ⟨-, -, hflags, -⟩ := huse.open_shell
  rw [reopen, reopen_shellOflag]
  simpa only [Board.openDevice, Board.set_device_self] using hflags

/-- The serial devices together count the shell and the output once each. -/
theorem Counted.total (h : Counted base s shell output) :
    totalRefCount s = totalOf base + 2 := by
  have hone : ∀ user ∈ serialDevices, totalOf (holds user) = 1 := by decide
  have hshell := hone shell h.shellMem
  have houtput := hone output h.outputMem
  have hrefs := h.refs
  simp only [serialDevices, List.mem_cons, List.not_mem_nil, or_false, forall_eq_or_imp,
    forall_eq] at hrefs
  simp only [totalRefCount, totalOf, serialDevices, List.foldr_cons,
    List.foldr_nil] at hshell houtput ⊢
  omega

/-! ## Every sequence of switches -/

/-- What switches the console at run time: a long press of a key, or the command. -/
inductive Switch
  | longPress (key : Key)
  | changePrint (argv : List String)
deriving Repr, DecidableEq

def Switch.run (s : Board) : Switch → Board
  | .longPress key => key.longPress s
  | .changePrint argv => Console.changePrint boardObjects s argv

/-- The board behind a sequence of switches. -/
def switchAll (s : Board) (switches : List Switch) : Board := switches.foldl Switch.run s

/-- The shell and the output are on one device. -/
def Together (s : Board) : Prop := ∃ base dev, Counted base s dev dev

/-- The references at the boot that are neither the shell's nor the output's: `hmi_create` has
`uart3`, `main` the virtual COM port. -/
def othersAtBoot (p : DevicePtr) : Nat := holds uart3 p + holds vcom p

/-- The shell and the console begin on one device. -/
theorem boot_together : Together boot := by
  refine ⟨othersAtBoot, uart1, by decide, by decide, by decide, by decide, ?_, by decide, ?_⟩
  · intro p hp
    simp only [serialDevices, List.mem_cons, List.not_mem_nil, or_false] at hp
    rcases hp with rfl | rfl | rfl
    · exact ⟨⟨by decide, by decide, by decide⟩, by decide⟩
    · exact ⟨⟨by decide, by decide, by decide⟩, by decide⟩
    · exact ⟨⟨by decide, by decide, by decide⟩, by decide⟩
  · intro p
    by_cases hp : p = vcom
    · subst hp
      exact Nat.le_refl 1
    · rw [othersAtBoot, holds_ne hp]
      exact holds_le uart3 p

/-- The part that the callbacks and the command share: both users go to the device named `name`,
and a device, not always that one, is closed and opened. -/
theorem move_counted (h : Counted base s shell output) (hmem : dev ∈ serialDevices)
    (hfind : rtDeviceFind objects name = some dev) (new : DevicePtr) :
    Counted (reopenBase base dev dev new)
      (reopen (rtConsoleSetDevice objects (finshSetDevice objects s name) name).1 (some new))
      dev dev :=
  reopen_counted (rtConsoleSetDevice_counted (finshSetDevice_counted h hmem hfind) hmem hfind) new

theorem longPressCallback_together (h : Together s) (hmem : dev ∈ serialDevices)
    (hfind : rtDeviceFind objects name = some dev) (pressed changed : String) :
    Together (longPressCallback objects pressed changed name (some dev) s) := by
  obtain ⟨base, cur, hcounted⟩ := h
  have hprinted := rtKprintf_counted (rtKprintf_counted hcounted pressed) changed
  exact ⟨_, dev, rtKprintf_counted (move_counted hprinted hmem hfind dev) changed⟩

theorem find_vcom : rtDeviceFind boardObjects "vcom" = some vcom := by decide

theorem find_uart1 : rtDeviceFind boardObjects "uart1" = some uart1 := by decide

theorem longPress_together (h : Together s) (key : Key) : Together (key.longPress s) := by
  cases key with
  | key0 =>
    simp only [Key.longPress, key0LongPressCallback, vcomDev, find_vcom]
    exact longPressCallback_together h (by decide) find_vcom _ _
  | key1 =>
    simp only [Key.longPress, key1LongPressCallback, uartDev, find_uart1]
    exact longPressCallback_together h (by decide) find_uart1 _ _

/-- What the command does when it finds a device, whichever it is. -/
theorem changePrint_found {new : DevicePtr} (command : String) (rest : List String)
    (hfind : rtDeviceFind boardObjects name = some new) :
    changePrint boardObjects s (command :: name :: rest) =
      rtKprintf (reopen (rtConsoleSetDevice boardObjects (finshSetDevice boardObjects s "vcom")
        "vcom").1 (some new)) ("Console have been changed to " ++ name ++ "\n") := by
  simp only [changePrint, hfind]

/-- `change_print` of an unknown name prints an error. -/
theorem changePrint_unknown (command : String) (rest : List String)
    (hfind : rtDeviceFind boardObjects name = none) :
    changePrint boardObjects s (command :: name :: rest) = rtKprintf s "Error Device Name\n" := by
  simp only [changePrint, hfind]

theorem changePrint_together (h : Together s) (argv : List String) :
    Together (changePrint boardObjects s argv) := by
  obtain ⟨base, cur, hcounted⟩ := h
  match argv with
  | [] => exact ⟨base, cur, hcounted⟩
  | [_] => exact ⟨base, cur, hcounted⟩
  | command :: name :: rest =>
    cases hfind : rtDeviceFind boardObjects name with
    | none =>
      rw [changePrint_unknown command rest hfind]
      exact ⟨base, cur, rtKprintf_counted hcounted _⟩
    | some new =>
      rw [changePrint_found command rest hfind]
      exact ⟨_, vcom, rtKprintf_counted (move_counted hcounted (by decide) find_vcom new) _⟩

theorem switchAll_together (switches : List Switch) :
    ∀ {s : Board}, Together s → Together (switchAll s switches) := by
  induction switches with
  | nil =>
    intro s h
    exact h
  | cons switch switches ih =>
    intro s h
    cases switch with
    | longPress key => exact ih (longPress_together h key)
    | changePrint argv => exact ih (changePrint_together h argv)

/-! ## What the command is for -/

/-- The console of `t` is `dev`, which receives for the shell, and no reference came or went
against `s`. -/
def SwitchedTo (s t : Board) (dev : DevicePtr) : Prop :=
  t.shell.device = some dev ∧ t.consoleDevice = some dev ∧
    hasFlag (t.device dev).openFlag rtDeviceFlagIntRx = true ∧
    hasFlag (t.device dev).openFlag rtDeviceFlagStream = true ∧
    totalRefCount t = totalRefCount s

/-- Only something was printed between `s` and `t`. -/
def OnlyPrinted (s t : Board) : Prop :=
  t.shell = s.shell ∧ t.consoleDevice = s.consoleDevice ∧
    ∀ p, ∃ calls, t.device p = { s.device p with driver := { (s.device p).driver with calls } }

instance (s t : Board) (dev : DevicePtr) : Decidable (SwitchedTo s t dev) :=
  inferInstanceAs (Decidable (_ ∧ _ ∧ _ ∧ _ ∧ _))

/-- The name of the virtual port switches to it. -/
theorem changePrint_vcom_switches (h : Together s) (command : String) (rest : List String)
    (hfind : rtDeviceFind boardObjects name = some vcom) :
    SwitchedTo s (changePrint boardObjects s (command :: name :: rest)) vcom := by
  obtain ⟨base, cur, hcounted⟩ := h
  have hmem : vcom ∈ serialDevices := by decide
  have hmoved := rtConsoleSetDevice_counted (finshSetDevice_counted hcounted hmem find_vcom) hmem
    find_vcom
  have hopened := reopen_counted hmoved vcom
  rw [reopenBase_shell] at hopened
  rw [changePrint_found command rest hfind]
  have hprinted := rtKprintf_counted hopened ("Console have been changed to " ++ name ++ "\n")
  obtain ⟨calls, hdev⟩ := rtKprintf_transmits hopened.output_usable
    ("Console have been changed to " ++ name ++ "\n") vcom
  have hflags := reopen_flags hmoved hmem
  refine ⟨hprinted.shellDevice, hprinted.outputDevice, ?_, ?_, ?_⟩
  · rw [hdev, hflags]
    decide
  · rw [hdev, hflags]
    decide
  · rw [hprinted.total, hcounted.total]

end RtVcom.Console
