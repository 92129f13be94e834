import RtVcom.Console.Call
import RtVcom.Lib.Machine

/-!
# Shell input against device switches

The shell thread of `components/finsh/shell.c` reads its characters in `finsh_getchar`: it reads
`shell->device` until there is nothing left, and then waits for `rx_sem`. The receive callback
`finsh_rx_ind` releases the semaphore. A character needs no token of its own, since the thread
reads as long as it finds something; what matters is that a token is there whenever the thread is
about to wait and the device has characters.

`finsh_set_device`, called by another thread, moves the shell to a device that may have received
characters before: it is opened, and may have been open for others, long before its callback is
installed. Those characters have no token, and if the shell thread is waiting nobody wakes it.

The machine interleaves the two threads and the receive interrupts, `finsh_set_device` piece by
piece. The invariant `Attended` follows the references of the devices, so that the shell's device
is known to be open for interrupt reception, and says that unread characters of that device come
with a token or with a thread that is on its way to read them.
-/

namespace RtVcom.Console

open RtVcom.Kernel RtVcom.Serial RtVcom.Lib

/-! ## The system -/

/-- The shell thread, with `FINSH_THREAD_PRIORITY`. -/
def shellTid : RtThread := { id := 0, currentPriority := 20 }

/-- Where the shell thread is: outside `finsh_getchar`, about to look `shell->device` up, about to
read the device it found there, about to take `rx_sem`, or waiting for it. -/
inductive ReaderPc
  | handling
  | loading
  | reading (dev : DevicePtr)
  | taking
  | blocked
deriving Repr, DecidableEq

/-- The board, `rx_sem`, the shell thread, and the thread that switches, in the middle of a
`finsh_set_device` or not. -/
structure ShellInput where
  board : Board
  rxSem : RtSem
  reader : ReaderPc
  switch : Option FinshPc

/-- What can happen. A receive interrupt comes with all characters that the hardware has. -/
inductive InputAction
  | receive (p : DevicePtr) (chars : List UInt8)
  | getchar
  | load
  | read
  | take
  | finshSetDevice (name : String)
  | next
deriving Repr, DecidableEq

/-- `finsh_rx_ind`: a thread that waits goes on behind `rt_sem_take`. -/
def finshRxInd (s : ShellInput) : ShellInput :=
  match rtSemRelease s.rxSem with
  | (rxSem, some _) => { s with rxSem, reader := .loading }
  | (rxSem, none) => { s with rxSem }

/-- `rx_length`, what the callback is told. -/
def rxLengthOf (d : Device) : Nat :=
  match d.driver.serialRx with
  | some (.fifo f) => rxLength d.driver.bufsz f
  | _ => 0

/-- `rt_hw_serial_isr`: the characters, and then the callback. -/
def shellIsr (s : ShellInput) (p : DevicePtr) (chars : List UInt8) : ShellInput :=
  let d := serialIsrRx (s.board.device p) chars
  let s := { s with board := s.board.set p d }
  if d.rxIndicate = some .finshRxInd ∧ rxLengthOf d ≠ 0 then finshRxInd s else s

/-- `rt_device_read(shell->device, -1, &ch, 1)`: with a character `finsh_getchar` returns. -/
def shellRead (s : ShellInput) (p : DevicePtr) : ShellInput :=
  match rtDeviceReadByte (s.board.device p) with
  | (some _, d) => { s with board := s.board.set p d, reader := .handling }
  | (none, _) => { s with reader := .taking }

/-- `rt_sem_take(&shell->rx_sem, RT_WAITING_FOREVER)`. -/
def shellTake (s : ShellInput) : ShellInput :=
  match rtSemTake s.rxSem shellTid rtWaitingForever with
  | (rxSem, .returns _) => { s with rxSem, reader := .loading }
  | (rxSem, .suspends) => { s with rxSem, reader := .blocked }

/-- `finsh_set_device` up to its first call. What it prints for a name that is not found is not
followed here. -/
def shellSwitch (objects : ObjectList) (s : ShellInput) (name : String) : ShellInput :=
  match rtDeviceFind objects name with
  | none => s
  | some dev =>
    if s.board.shell.device = some dev then s else { s with switch := some (.opening dev) }

/-- One step. -/
def inputStep (objects : ObjectList) (s : ShellInput) : InputAction → Option ShellInput
  | .receive p chars => if chars = [] then none else some (shellIsr s p chars)
  | .getchar => if s.reader = .handling then some { s with reader := .loading } else none
  | .load =>
    match s.reader, s.board.shell.device with
    | .loading, some dev => some { s with reader := .reading dev }
    | _, _ => none
  | .read =>
    match s.reader with
    | .reading dev => some (shellRead s dev)
    | _ => none
  | .take => if s.reader = .taking then some (shellTake s) else none
  | .finshSetDevice name => if s.switch = none then some (shellSwitch objects s name) else none
  | .next =>
    match s.switch with
    | some pc =>
      some { s with board := (finshNext s.board pc).1, switch := (finshNext s.board pc).2 }
    | none => none

/-- The board behind its boot, with the shell thread in its first `finsh_getchar`. -/
def inputSystem : Machine ShellInput InputAction where
  init := { board := boot, rxSem := rtSemInit 0 .fifo, reader := .loading, switch := none }
  step := inputStep boardObjects

/-! ## A device that receives -/

/-- A device that is open for interrupt reception. -/
structure Listening (d : Device) : Prop extends Ready d where
  mode : hasFlag d.openFlag rtDeviceFlagIntRx = true
  fifo : ∃ f, d.driver.serialRx = some (.fifo f) ∧ f.Valid d.driver.bufsz

variable {d : Device}

/-- One more user: the receive structure, and what is in it, stays. -/
theorem Listening.opens (h : Listening d) :
    rtDeviceOpen serialOps d finshOflag =
      ({ d with
          openFlag := consoleOpenFlag
          refCount := (d.refCount + 1) % rtDeviceRefCountMod }, rtEok) := by
  obtain ⟨f, hrx, -⟩ := h.fifo
  have hopen := rtDeviceOpen_receives h.toReady receives_shellOflag
  rw [streamFlag_stream (by decide), openFlag_shell, hrx, Option.some_or, Option.isSome_some,
    if_pos rfl, List.append_nil, ← hrx] at hopen
  exact hopen

/-- The device does not change in what makes it listen. -/
theorem Listening.of_same {e : Device} (h : Listening d) (hflag : e.flag = d.flag)
    (hmode : hasFlag e.openFlag rtDeviceFlagIntRx = true) (hdriver : e.driver = d.driver) :
    Listening e := by
  refine ⟨h.toReady.of_flag hflag, hmode, ?_⟩
  rw [hdriver]
  exact h.fifo

/-- A reception leaves something to read, and so calls back. -/
theorem Listening.receive (h : Listening d) {chars : List UInt8} (hne : chars ≠ []) :
    Listening (serialIsrRx d chars) ∧ (serialIsrRx d chars).refCount = d.refCount ∧
      (serialIsrRx d chars).rxIndicate = d.rxIndicate ∧ rxLengthOf (serialIsrRx d chars) ≠ 0 := by
  obtain ⟨f, hrx, hvalid⟩ := h.fifo
  have hdrain := isrDrain_valid hvalid chars
  have heq : serialIsrRx d chars = { d with driver := { d.driver with
      serialRx := some (.fifo (isrDrain d.driver.bufsz f chars)) } } := by
    simp only [serialIsrRx, hrx]
  rw [heq]
  refine ⟨⟨⟨h.active, h.shared, h.intRx⟩, h.mode, _, rfl, hdrain⟩, rfl, rfl, ?_⟩
  show rxLength d.driver.bufsz (isrDrain d.driver.bufsz f chars) ≠ 0
  have hpos : 0 < chars.length := List.length_pos_iff.mpr hne
  have hroom := hvalid.room
  rw [← length_unread hdrain, unread_isrDrain hvalid, length_keepLast, List.length_append]
  omega

/-- A read that finds nothing found the FIFO empty. -/
theorem Listening.read (h : Listening d) (hrefs : d.refCount ≠ 0) :
    (rtDeviceReadByte d = (none, d) ∧ unreadOf d = []) ∨
      ∃ ch e, rtDeviceReadByte d = (some ch, e) ∧ Listening e ∧ e.refCount = d.refCount ∧
        e.rxIndicate = d.rxIndicate := by
  obtain ⟨f, hrx, hvalid⟩ := h.fifo
  cases hbyte : serialIntRxByte d.driver.bufsz f with
  | none =>
    left
    refine ⟨?_, ?_⟩
    · simp only [rtDeviceReadByte, hrefs, if_false, h.mode, if_true, hrx, hbyte]
    · simp only [unreadOf, hrx]
      exact (serialIntRxByte_eq_none hvalid).mp hbyte
  | some x =>
    right
    refine ⟨x.1, { d with driver := { d.driver with serialRx := some (.fifo x.2) } }, ?_, ?_, rfl,
      rfl⟩
    · simp only [rtDeviceReadByte, hrefs, if_false, h.mode, if_true, hrx, hbyte]
    · exact ⟨⟨h.active, h.shared, h.intRx⟩, h.mode, x.2, rfl, serialIntRxByte_valid hvalid hbyte⟩

/-! ## Who reads what -/

/-- The device that a `finsh_set_device` under way moves to. -/
def FinshPc.device : FinshPc → DevicePtr
  | .opening dev | .closing dev | .silencing dev | .taking dev | .indicating dev => dev

/-- The references of a device that are the shell's: of its device `dev`, and of the new one
between the open and the assignment. -/
def shellRefs (dev : DevicePtr) : Option FinshPc → DevicePtr → Nat
  | none, p | some (.opening _), p => holds dev p
  | some (.closing new), p => holds dev p + holds new p
  | some (.silencing new), p | some (.taking new), p | some (.indicating new), p => holds new p

/-- Whether the callback of the shell's device is installed: up to the open nothing has
changed. -/
def steady : Option FinshPc → Bool
  | none | some (.opening _) => true
  | _ => false

/-- Whether the shell thread reads `dev` before it waits. -/
def ReaderPc.willRead (dev : DevicePtr) : ReaderPc → Bool
  | .handling | .loading => true
  | .reading p => p == dev
  | .taking | .blocked => false

/-- The device whose callback comes next. -/
def installing : Option FinshPc → Option DevicePtr
  | some (.indicating new) => some new
  | _ => none

/-- The steps that strand nothing. When `finsh_set_device` installs the callback of the new
device, the device has no unread characters, or a token is counted, or the shell thread is on its
way to read it. A token is counted below the end of the 16-bit counter, or for a thread that is on
its way to read. -/
def Tended (s : ShellInput) : InputAction → Prop
  | .receive p _ => (s.board.device p).rxIndicate = some .finshRxInd →
      s.rxSem.value + 1 < rtSemValueMod ∨
        ∃ dev ∈ s.board.shell.device, s.reader.willRead dev = true
  | .next => ∀ new ∈ installing s.switch,
      unreadOf (s.board.device new) = [] ∨ 0 < s.rxSem.value ∨ s.reader.willRead new = true
  | _ => True

instance : DecidableRel Tended
  | _, .receive _ _ => inferInstanceAs (Decidable (_ → _))
  | _, .next => inferInstanceAs (Decidable (∀ _ ∈ _, _))
  | _, .getchar | _, .load | _, .read | _, .take | _, .finshSetDevice _ => isTrue trivial

/-- The invariant. Every device has one user beside the shell. -/
structure Attended (s : ShellInput) (dev : DevicePtr) : Prop where
  shell : s.board.shell.device = some dev
  mem : dev ∈ serialDevices
  listening : ∀ p ∈ serialDevices, Listening (s.board.device p)
  refs : ∀ p ∈ serialDevices, (s.board.device p).refCount = 1 + shellRefs dev s.switch p
  target : ∀ pc ∈ s.switch,
    pc.device ∈ serialDevices ∧ (pc.device = dev ↔ pc = .indicating pc.device)
  indicate : steady s.switch = true → (s.board.device dev).rxIndicate = some .finshRxInd
  waiting : s.rxSem.suspendThread = if s.reader = .blocked then [shellTid] else []
  spent : s.reader = .blocked → s.rxSem.value = 0
  covered : steady s.switch = true → unreadOf (s.board.device dev) ≠ [] →
    0 < s.rxSem.value ∨ s.reader.willRead dev = true

variable {s : ShellInput} {dev : DevicePtr}

/-- The shell holds a device at most twice. -/
theorem shellRefs_le (dev : DevicePtr) (switch : Option FinshPc) (p : DevicePtr) :
    shellRefs dev switch p ≤ 2 := by
  have hdev := holds_le dev p
  cases switch with
  | none => exact Nat.le_succ_of_le hdev
  | some pc =>
    have hnew := holds_le pc.device p
    cases pc with
    | opening new => exact Nat.le_succ_of_le hdev
    | closing new => exact Nat.add_le_add hdev hnew
    | silencing new => exact Nat.le_succ_of_le hnew
    | taking new => exact Nat.le_succ_of_le hnew
    | indicating new => exact Nat.le_succ_of_le hnew

/-- Nobody waits for the semaphore while the thread is somewhere else. -/
theorem Attended.suspendThread_eq (h : Attended s dev) {pc : ReaderPc} (hpc : s.reader = pc)
    (hne : pc ≠ .blocked) : s.rxSem.suspendThread = [] := by
  rw [h.waiting, if_neg (hpc ▸ hne)]

theorem Attended.open_refs (h : Attended s dev) {p : DevicePtr} (hp : p ∈ serialDevices) :
    (s.board.device p).refCount ≠ 0 := by
  rw [h.refs p hp]
  omega

/-- A law of every serial device, where one device of the board is replaced. -/
theorem forall_device_set {board : Board} {p : DevicePtr} {e : Device}
    {P : DevicePtr → Device → Prop} (he : p ∈ serialDevices → P p e)
    (hrest : ∀ q ∈ serialDevices, q ≠ p → P q (board.device q)) :
    ∀ q ∈ serialDevices, P q ((board.set p e).device q) := by
  intro q hq
  by_cases hqp : q = p
  · subst hqp
    rw [Board.set_device_self]
    exact he hq
  · rw [Board.set_device_ne hqp]
    exact hrest q hq hqp

/-- One device of the board replaced by another that listens. -/
theorem listening_set {board : Board} {p : DevicePtr} {e : Device}
    (h : ∀ q ∈ serialDevices, Listening (board.device q)) (he : p ∈ serialDevices → Listening e) :
    ∀ q ∈ serialDevices, Listening ((board.set p e).device q) :=
  forall_device_set (P := fun _ d => Listening d) he fun q hq _ => h q hq

/-- One device of the board replaced, with the references of all of them. -/
theorem refs_set {board : Board} {p : DevicePtr} {e : Device} {count count' : DevicePtr → Nat}
    (h : ∀ q ∈ serialDevices, (board.device q).refCount = count q)
    (he : p ∈ serialDevices → e.refCount = count' p) (hrest : ∀ q, q ≠ p → count q = count' q) :
    ∀ q ∈ serialDevices, ((board.set p e).device q).refCount = count' q :=
  forall_device_set (P := fun q d => d.refCount = count' q) he
    fun q hq hqp => (h q hq).trans (hrest q hqp)

/-- A device of the board replaced by one that listens like it, counts the same and calls the same
back. -/
theorem Attended.set {p : DevicePtr} {e : Device} (h : Attended s dev)
    (he : p ∈ serialDevices → Listening e ∧ e.refCount = (s.board.device p).refCount ∧
      e.rxIndicate = (s.board.device p).rxIndicate) :
    (∀ q ∈ serialDevices, Listening ((s.board.set p e).device q)) ∧
      (∀ q ∈ serialDevices,
        ((s.board.set p e).device q).refCount = 1 + shellRefs dev s.switch q) ∧
      (steady s.switch = true →
        ((s.board.set p e).device dev).rxIndicate = some .finshRxInd) := by
  refine ⟨listening_set h.listening fun hp => (he hp).1,
    refs_set h.refs (fun hp => (he hp).2.1.trans (h.refs p hp)) fun _ _ => rfl, ?_⟩
  intro hsteady
  by_cases hdev : dev = p
  · subst hdev
    rw [Board.set_device_self, (he h.mem).2.2]
    exact h.indicate hsteady
  · rw [Board.set_device_ne hdev]
    exact h.indicate hsteady

/-- `finsh_rx_ind` wakes the thread, or counts a token. -/
theorem finshRxInd_eq
    (hwait : s.rxSem.suspendThread = if s.reader = .blocked then [shellTid] else []) :
    finshRxInd s =
      if s.reader = .blocked then
        { s with rxSem := { s.rxSem with suspendThread := [] }, reader := .loading }
      else
        { s with rxSem := { s.rxSem with value := (s.rxSem.value + 1) % rtSemValueMod } } := by
  by_cases hb : s.reader = .blocked
  · rw [if_pos hb] at hwait
    simp only [finshRxInd, rtSemRelease, hwait, hb, if_true]
  · rw [if_neg hb] at hwait
    simp only [finshRxInd, rtSemRelease, hwait, hb, if_false]

/-- An interrupt of another device leaves the shell's characters alone; one of the shell's device
comes with its token. -/
theorem attended_receive {p : DevicePtr} {chars : List UInt8} (h : Attended s dev)
    (hne : chars ≠ []) (hok : Tended s (.receive p chars)) :
    Attended (shellIsr s p chars) dev := by
  have hsame : ∀ hp : p ∈ serialDevices, _ := fun hp => (h.listening p hp).receive hne
  obtain ⟨hlisten, hrefs, hindicate⟩ := h.set (e := serialIsrRx (s.board.device p) chars)
    fun hp => ⟨(hsame hp).1, (hsame hp).2.1, (hsame hp).2.2.1⟩
  have hrx : (serialIsrRx (s.board.device p) chars).rxIndicate = (s.board.device p).rxIndicate := by
    unfold serialIsrRx
    split
    · rfl
    · rfl
  unfold shellIsr
  by_cases hcall : (serialIsrRx (s.board.device p) chars).rxIndicate = some .finshRxInd ∧
      rxLengthOf (serialIsrRx (s.board.device p) chars) ≠ 0
  · simp only [hcall, ne_eq, not_false_eq_true, and_self, if_true]
    have hok := hok (hrx.symm.trans hcall.1)
    rw [finshRxInd_eq
      (s := { s with board := s.board.set p (serialIsrRx (s.board.device p) chars) }) h.waiting]
    by_cases hb : s.reader = .blocked
    · rw [if_pos hb]
      exact ⟨h.shell, h.mem, hlisten, hrefs, h.target, hindicate, rfl, nofun, fun _ _ => .inr rfl⟩
    · rw [if_neg hb]
      have hwait := h.suspendThread_eq rfl hb
      refine ⟨h.shell, h.mem, hlisten, hrefs, h.target, hindicate, ?_, fun hblocked =>
        absurd hblocked hb, ?_⟩
      · show s.rxSem.suspendThread = if s.reader = .blocked then [shellTid] else []
        rw [if_neg hb]
        exact hwait
      · intro _ _
        rcases hok with hlt | ⟨dev', hdev', hreads⟩
        · left
          show 0 < (s.rxSem.value + 1) % rtSemValueMod
          rw [Nat.mod_eq_of_lt hlt]
          exact Nat.succ_pos _
        · right
          rw [h.shell] at hdev'
          cases hdev'
          exact hreads
  · rw [if_neg hcall]
    refine ⟨h.shell, h.mem, hlisten, hrefs, h.target, hindicate, h.waiting, h.spent, ?_⟩
    intro hsteady hunread
    by_cases hdev : dev = p
    · subst hdev
      exact absurd ⟨hrx.trans (h.indicate hsteady), (hsame h.mem).2.2.2⟩ hcall
    · refine h.covered hsteady ?_
      rw [Board.set_device_ne hdev] at hunread
      exact hunread

/-- A read of the shell's device that finds nothing leaves nothing; one of a device that the shell
has left leaves the token for the new one. -/
theorem attended_read {p : DevicePtr} (h : Attended s dev) (hpc : s.reader = .reading p) :
    Attended (shellRead s p) dev := by
  have hwait := h.suspendThread_eq hpc (by rintro ⟨⟩)
  cases hread : rtDeviceReadByte (s.board.device p) with
  | mk byte e =>
    cases byte with
    | none =>
      simp only [shellRead, hread]
      refine ⟨h.shell, h.mem, h.listening, h.refs, h.target, h.indicate, hwait, nofun, ?_⟩
      intro hsteady hunread
      left
      rcases h.covered hsteady hunread with htoken | hreads
      · exact htoken
      · have hpdev : p = dev := by
          rw [hpc] at hreads
          exact eq_of_beq hreads
        subst hpdev
        rcases (h.listening p h.mem).read (h.open_refs h.mem) with ⟨-, hempty⟩ | ⟨ch, e', hsome, -⟩
        · exact absurd hempty hunread
        · rw [hsome] at hread
          cases hread
    | some ch =>
      simp only [shellRead, hread]
      have hsame : p ∈ serialDevices → Listening e ∧
          e.refCount = (s.board.device p).refCount ∧
          e.rxIndicate = (s.board.device p).rxIndicate := by
        intro hp
        rcases (h.listening p hp).read (h.open_refs hp) with ⟨hnone, -⟩ | ⟨ch', e', hsome, hrest⟩
        · rw [hnone] at hread
          cases hread
        · rw [hsome] at hread
          cases hread
          exact hrest
      obtain ⟨hlisten, hrefs, hindicate⟩ := h.set hsame
      exact ⟨h.shell, h.mem, hlisten, hrefs, h.target, hindicate, hwait, nofun,
        fun _ _ => .inr rfl⟩

/-- The thread waits only where there is nothing to read. -/
theorem attended_take (h : Attended s dev) (hpc : s.reader = .taking) :
    Attended (shellTake s) dev := by
  have hwait := h.suspendThread_eq hpc (by rintro ⟨⟩)
  by_cases hv : 0 < s.rxSem.value
  · simp only [shellTake, rtSemTake, hv, if_true]
    exact ⟨h.shell, h.mem, h.listening, h.refs, h.target, h.indicate, hwait, nofun,
      fun _ _ => .inr rfl⟩
  · have hforever : rtWaitingForever ≠ 0 := by decide
    simp only [shellTake, rtSemTake, hv, if_false, hforever]
    refine ⟨h.shell, h.mem, h.listening, h.refs, h.target, h.indicate, ?_, fun _ =>
      Nat.eq_zero_of_not_pos hv, ?_⟩
    · show rtIpcListSuspend s.rxSem.suspendThread shellTid s.rxSem.flag = [shellTid]
      rw [hwait]
      cases s.rxSem.flag <;> rfl
    · intro hsteady hunread
      rcases h.covered hsteady hunread with htoken | hreads
      · exact absurd htoken hv
      · rw [hpc] at hreads
        cases hreads

/-! ## The pieces of `finsh_set_device` -/

theorem attended_opening {new : DevicePtr} (h : Attended s dev)
    (hpc : s.switch = some (.opening new)) :
    Attended { s with
      board := (finshNext s.board (.opening new)).1
      switch := (finshNext s.board (.opening new)).2 } dev := by
  obtain ⟨hnew, htarget⟩ := h.target _ hpc
  have hne : new ≠ dev := by
    intro he
    cases htarget.mp he
  have hlisten := h.listening new hnew
  have hopen := hlisten.opens
  have hroom : (s.board.device new).refCount + 1 < rtDeviceRefCountMod := by
    rw [h.refs new hnew]
    have hle := shellRefs_le dev s.switch new
    show 1 + shellRefs dev s.switch new + 1 < 0x100
    omega
  rw [Nat.mod_eq_of_lt hroom] at hopen
  have hrefs := h.refs
  rw [hpc] at hrefs
  simp only [finshNext, hopen, if_true, Board.openDevice]
  refine ⟨h.shell, h.mem, listening_set h.listening fun _ => ?_, refs_set hrefs ?_ ?_, ?_,
    (by rintro ⟨⟩), h.waiting, h.spent, (by rintro ⟨⟩)⟩
  · exact hlisten.of_same rfl receives_consoleOpenFlag.intRx rfl
  · intro _
    show (s.board.device new).refCount + 1 = 1 + (holds dev new + holds new new)
    rw [hrefs new hnew, holds_self]
    rfl
  · intro p hp
    show 1 + holds dev p = 1 + (holds dev p + holds new p)
    rw [holds_ne hp, Nat.add_zero]
  · intro pc hmem
    cases hmem
    exact ⟨hnew, fun he => absurd he hne, fun he => by cases he⟩

theorem attended_closing {new : DevicePtr} (h : Attended s dev)
    (hpc : s.switch = some (.closing new)) :
    Attended { s with
      board := (finshNext s.board (.closing new)).1
      switch := (finshNext s.board (.closing new)).2 } dev := by
  obtain ⟨hnew, htarget⟩ := h.target _ hpc
  have hne : new ≠ dev := by
    intro he
    cases htarget.mp he
  have hrefs := h.refs
  rw [hpc] at hrefs
  have htwo : 2 ≤ (s.board.device dev).refCount := by
    rw [hrefs dev h.mem]
    show 2 ≤ 1 + (holds dev dev + holds new dev)
    rw [holds_self]
    omega
  simp only [finshNext, h.shell, Board.closeDevice, rtDeviceClose_shared htwo]
  refine ⟨h.shell, h.mem, listening_set h.listening fun _ => ?_, refs_set hrefs ?_ ?_, ?_,
    (by rintro ⟨⟩), h.waiting, h.spent, (by rintro ⟨⟩)⟩
  · exact (h.listening dev h.mem).of_same rfl (h.listening dev h.mem).mode rfl
  · intro _
    show (s.board.device dev).refCount - 1 = 1 + holds new dev
    rw [hrefs dev h.mem]
    show 1 + (holds dev dev + holds new dev) - 1 = 1 + holds new dev
    rw [holds_self, Nat.add_sub_cancel_left]
  · intro p hp
    show 1 + (holds dev p + holds new p) = 1 + holds new p
    rw [holds_ne hp, Nat.zero_add]
  · intro pc hmem
    cases hmem
    exact ⟨hnew, fun he => absurd he hne, fun he => by cases he⟩

theorem attended_silencing {new : DevicePtr} (h : Attended s dev)
    (hpc : s.switch = some (.silencing new)) :
    Attended { s with
      board := (finshNext s.board (.silencing new)).1
      switch := (finshNext s.board (.silencing new)).2 } dev := by
  obtain ⟨hnew, htarget⟩ := h.target _ hpc
  have hne : new ≠ dev := by
    intro he
    cases htarget.mp he
  have hrefs := h.refs
  rw [hpc] at hrefs
  simp only [finshNext, h.shell]
  refine ⟨h.shell, h.mem, listening_set h.listening fun _ => ?_,
    refs_set hrefs (hrefs dev) fun _ _ => rfl, ?_, (by rintro ⟨⟩), h.waiting, h.spent,
    (by rintro ⟨⟩)⟩
  · exact (h.listening dev h.mem).of_same rfl (h.listening dev h.mem).mode rfl
  · intro pc hmem
    cases hmem
    exact ⟨hnew, fun he => absurd he hne, fun he => by cases he⟩

theorem attended_taking {new : DevicePtr} (h : Attended s dev)
    (hpc : s.switch = some (.taking new)) :
    Attended { s with
      board := (finshNext s.board (.taking new)).1
      switch := (finshNext s.board (.taking new)).2 } new := by
  obtain ⟨hnew, -⟩ := h.target _ hpc
  simp only [finshNext]
  have hrefs := h.refs
  rw [hpc] at hrefs
  refine ⟨rfl, hnew, h.listening, hrefs, ?_, (by rintro ⟨⟩), h.waiting, h.spent,
    (by rintro ⟨⟩)⟩
  · intro pc hmem
    cases hmem
    exact ⟨hnew, fun _ => rfl, fun _ => rfl⟩

/-- The callback is installed: what the device has received by then has to be looked after. -/
theorem attended_indicating {new : DevicePtr} (h : Attended s dev)
    (hpc : s.switch = some (.indicating new))
    (hok : unreadOf (s.board.device new) = [] ∨ 0 < s.rxSem.value ∨
      s.reader.willRead new = true) :
    Attended { s with
      board := (finshNext s.board (.indicating new)).1
      switch := (finshNext s.board (.indicating new)).2 } dev := by
  obtain ⟨hnew, htarget⟩ := h.target _ hpc
  have hdev : new = dev := htarget.mpr rfl
  subst hdev
  have hrefs := h.refs
  rw [hpc] at hrefs
  simp only [finshNext]
  refine ⟨h.shell, h.mem, listening_set h.listening fun _ => ?_,
    refs_set hrefs (hrefs new) fun _ _ => rfl, (by rintro _ ⟨⟩), ?_, h.waiting, h.spent,
    ?_⟩
  · exact (h.listening new h.mem).of_same rfl (h.listening new h.mem).mode rfl
  · intro _
    rw [Board.set_device_self]
    rfl
  · intro _ hunread
    rw [Board.set_device_self] at hunread
    rcases hok with hempty | hrest
    · exact absurd hempty hunread
    · exact hrest

/-- A device found is a serial device. -/
theorem mem_of_find {name : String} {p : DevicePtr}
    (h : rtDeviceFind boardObjects name = some p) : p ∈ serialDevices := by
  obtain ⟨o, hfind, rfl⟩ := Option.map_eq_some_iff.mp h
  have hmem : o ∈ boardObjects := List.mem_of_find?_eq_some hfind
  have hall : ∀ o ∈ boardObjects, o.2 ∈ serialDevices := by decide
  exact hall o hmem

theorem attended_switch (h : Attended s dev) (hnone : s.switch = none) (name : String) :
    Attended (shellSwitch boardObjects s name) dev := by
  unfold shellSwitch
  cases hfind : rtDeviceFind boardObjects name with
  | none => exact h
  | some new =>
    by_cases hsame : s.board.shell.device = some new
    · simp only [hsame, if_true]
      exact h
    · have hne : new ≠ dev := by
        rintro rfl
        exact hsame h.shell
      simp only [hsame, if_false]
      have hrefs := h.refs
      rw [hnone] at hrefs
      refine ⟨h.shell, h.mem, h.listening, hrefs, ?_, ?_, h.waiting, h.spent, ?_⟩
      · intro pc hmem
        cases hmem
        exact ⟨mem_of_find hfind, fun he => absurd he hne, nofun⟩
      · intro _
        exact h.indicate (by rw [hnone]; rfl)
      · intro _
        exact h.covered (by rw [hnone]; rfl)

/-- Every step that tends to the shell's characters keeps the invariant. -/
theorem attended_step (s : ShellInput) (a : InputAction) (t : ShellInput)
    (h : ∃ dev, Attended s dev) (hok : Tended s a) (hstep : inputSystem.step s a = some t) :
    ∃ dev, Attended t dev := by
  obtain ⟨dev, h⟩ := h
  cases a with
  | receive p chars =>
    simp only [inputSystem, inputStep, Option.ite_none_left_eq_some, Option.some.injEq] at hstep
    obtain ⟨hne, rfl⟩ := hstep
    exact ⟨dev, attended_receive h hne hok⟩
  | getchar =>
    simp only [inputSystem, inputStep, Option.ite_none_right_eq_some, Option.some.injEq] at hstep
    obtain ⟨hpc, rfl⟩ := hstep
    have hwait := h.suspendThread_eq hpc (by rintro ⟨⟩)
    exact ⟨dev, h.shell, h.mem, h.listening, h.refs, h.target, h.indicate, hwait, nofun,
      fun _ _ => .inr rfl⟩
  | load =>
    simp only [inputSystem, inputStep, h.shell] at hstep
    cases hpc : s.reader with
    | loading =>
      rw [hpc] at hstep
      cases hstep
      have hwait := h.suspendThread_eq hpc (by rintro ⟨⟩)
      exact ⟨dev, h.shell, h.mem, h.listening, h.refs, h.target, h.indicate, hwait, nofun,
        fun _ _ => .inr (beq_self_eq_true dev)⟩
    | _ =>
      rw [hpc] at hstep
      cases hstep
  | read =>
    simp only [inputSystem, inputStep] at hstep
    cases hpc : s.reader with
    | reading p =>
      rw [hpc] at hstep
      cases hstep
      exact ⟨dev, attended_read h hpc⟩
    | _ =>
      rw [hpc] at hstep
      cases hstep
  | take =>
    simp only [inputSystem, inputStep, Option.ite_none_right_eq_some, Option.some.injEq] at hstep
    obtain ⟨hpc, rfl⟩ := hstep
    exact ⟨dev, attended_take h hpc⟩
  | finshSetDevice name =>
    simp only [inputSystem, inputStep, Option.ite_none_right_eq_some, Option.some.injEq] at hstep
    obtain ⟨hnone, rfl⟩ := hstep
    exact ⟨dev, attended_switch h hnone name⟩
  | next =>
    simp only [inputSystem, inputStep] at hstep
    cases hpc : s.switch with
    | none =>
      rw [hpc] at hstep
      cases hstep
    | some pc =>
      rw [hpc] at hstep
      cases hstep
      cases pc with
      | opening new => exact ⟨dev, attended_opening h hpc⟩
      | closing new => exact ⟨dev, attended_closing h hpc⟩
      | silencing new => exact ⟨dev, attended_silencing h hpc⟩
      | taking new => exact ⟨new, attended_taking h hpc⟩
      | indicating new => exact ⟨dev, attended_indicating h hpc (hok new (by rw [hpc]; rfl))⟩

/-- The serial port is attended at the beginning. -/
theorem attended_init : Attended inputSystem.init uart1 where
  shell := by decide
  mem := by decide
  listening := by
    intro p hp
    simp only [serialDevices, List.mem_cons, List.not_mem_nil, or_false] at hp
    rcases hp with rfl | rfl | rfl
    · exact ⟨⟨by decide, by decide, by decide⟩, by decide, rxFifoInit 64, by decide,
        rxFifoInit_valid (by decide)⟩
    · exact ⟨⟨by decide, by decide, by decide⟩, by decide, rxFifoInit 64, by decide,
        rxFifoInit_valid (by decide)⟩
    · exact ⟨⟨by decide, by decide, by decide⟩, by decide, rxFifoInit 128, by decide,
        rxFifoInit_valid (by decide)⟩
  refs := by decide
  target := nofun
  indicate := fun _ => by decide
  waiting := rfl
  spent := nofun
  covered := fun _ _ => .inr rfl

/-- Shell input is not stranded, in every run whose steps are tended: whenever the shell thread
waits for `rx_sem`, no token is counted and no `finsh_set_device` is under way, the shell's device
has no unread characters. -/
theorem shell_input_not_stranded {s : ShellInput} (h : inputSystem.Reach Tended s)
    (hblocked : s.reader = .blocked) (hvalue : s.rxSem.value = 0) (hidle : s.switch = none) :
    ∀ dev ∈ s.board.shell.device, unreadOf (s.board.device dev) = [] := by
  intro dev hdev
  obtain ⟨cur, hattended⟩ : ∃ cur, Attended s cur :=
    h.invariant ⟨uart1, attended_init⟩ attended_step
  rw [hattended.shell] at hdev
  cases hdev
  refine Decidable.byContradiction fun hunread => ?_
  rcases hattended.covered (by rw [hidle]; rfl) hunread with htoken | hreads
  · rw [hvalue] at htoken
    exact Nat.lt_irrefl 0 htoken
  · rw [hblocked] at hreads
    cases hreads

/-- The shell thread waits on `uart1`, is moved to the virtual COM port, and reads a character
there. -/
theorem shell_input_not_stranded_moved :
    ∃ s, inputSystem.Reach Tended s ∧ s.reader = .blocked ∧ s.rxSem.value = 0 ∧
      s.switch = none ∧ s.board.shell.device = some vcom ∧
      unreadOf (s.board.device vcom) = [] := by
  obtain ⟨s, hreach, hblocked, hvalue, hidle, hshell⟩ :=
    inputSystem.exists_reach_of_run Tended
      [.load, .read, .take, .finshSetDevice "vcom", .next, .next, .next, .next, .next,
        .receive vcom [0x41], .load, .read, .getchar, .load, .read, .take]
      (fun s => s.reader = .blocked ∧ s.rxSem.value = 0 ∧ s.switch = none ∧
        s.board.shell.device = some vcom) (by decide +kernel)
  exact ⟨s, hreach, hblocked, hvalue, hidle, hshell,
    shell_input_not_stranded hreach hblocked hvalue hidle vcom hshell⟩

/-- A character that the virtual COM port receives before the shell is moved there has no token:
the thread goes on waiting and the character stays. -/
theorem shell_input_stranded :
    ¬ ∀ s, inputSystem.Reach Machine.any s → s.reader = .blocked → s.rxSem.value = 0 →
      s.switch = none → ∀ dev ∈ s.board.shell.device, unreadOf (s.board.device dev) = [] := by
  intro h
  obtain ⟨s, hreach, hblocked, hvalue, hidle, hshell, hunread⟩ :=
    inputSystem.exists_reach_of_run Machine.any
      [.receive vcom [0x41], .load, .read, .take, .finshSetDevice "vcom", .next, .next, .next,
        .next, .next]
      (fun s => s.reader = .blocked ∧ s.rxSem.value = 0 ∧ s.switch = none ∧
        s.board.shell.device = some vcom ∧ unreadOf (s.board.device vcom) = [0x41])
      (by decide +kernel)
  rw [h s hreach hblocked hvalue hidle vcom hshell] at hunread
  cases hunread

end RtVcom.Console
