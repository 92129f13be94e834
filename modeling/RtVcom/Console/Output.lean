import RtVcom.Console.Call
import RtVcom.Lib.Machine

/-!
# Console output against device switches

`rt_kputs` and `rt_kprintf` of `src/kservice.c` and `ulog_console_backend_output` of
`ulog/backend/console_be.c` print in three steps: they save the open flags of the console device
and set `RT_DEVICE_FLAG_STREAM`, they write, and they put the saved word back. Nothing keeps
another thread from opening or closing the device in between, and the saved word then takes the
place of the flags of that open or close. The first two functions even look the console device up
again for each step.

The machine of this module interleaves any number of threads that print, open, close,
`finsh_set_device` and `rt_console_set_device`, with received characters in between. An open and
a close are one step each, and so is every assignment of the functions that call them. Beside the
board the state carries `alone`, the devices as the opens and closes made so far would have left
them without any output.

A word that an output saves, and the word that it leaves while it writes, are those of `alone` up
to the stream flag. `Coherent` says so, and adds what makes the last restore right: as long as
somebody prints to a device, one of those who do has saved exactly the word of `alone`. The
invariant is kept by every step that is `Undisturbed`.
-/

namespace RtVcom.Console

open RtVcom.Kernel RtVcom.Serial RtVcom.Lib

/-! ## The threads -/

/-- The functions that print. -/
inductive OutputFn
  | rtKputs
  | rtKprintf
  | ulogConsoleBackendOutput
deriving Repr, DecidableEq

/-- An output behind its save: the device whose flags were saved, and what was saved. -/
structure Output where
  fn : OutputFn
  dev : DevicePtr
  oldFlag : BitVec 16
  buffer : List UInt8
  written : Bool
deriving Repr, DecidableEq

/-- Where a thread is: the next thing it does. -/
inductive Pc
  | idle
  | finsh (pc : FinshPc)
  | console (pc : ConsolePc)
  | ulogSave (dev : DevicePtr) (buffer : List UInt8)
  | output (o : Output)
deriving Repr, DecidableEq

/-- The board with `n` threads on it, and the devices that the opens and closes alone would have
left. -/
structure Shared (n : Nat) where
  board : Board
  alone : DevicePtr → Device
  thread : Fin n → Pc

/-- What can happen: a thread that is idle begins a call, a thread goes on, or characters are
received; the callback is not followed here. -/
inductive Action (n : Nat)
  | rtDeviceOpen (i : Fin n) (p : DevicePtr) (oflag : BitVec 16)
  | rtDeviceClose (i : Fin n) (p : DevicePtr)
  | finshSetDevice (i : Fin n) (name : String)
  | rtConsoleSetDevice (i : Fin n) (name : String)
  | output (i : Fin n) (fn : OutputFn) (buffer : List UInt8)
  | next (i : Fin n)
  | receive (p : DevicePtr) (chars : List UInt8)
deriving Repr, DecidableEq

variable {n : Nat}

/-! ## The steps -/

/-- A thread goes to its next place. -/
def Shared.goto (s : Shared n) (i : Fin n) (pc : Pc) : Shared n :=
  { s with thread := fun j => if j = i then pc else s.thread j }

/-- The devices alone behind an open or close, if there is one. -/
def operateAlone (alone : DevicePtr → Device) : Option (DevicePtr × DeviceOp) → DevicePtr → Device
  | none => alone
  | some (p, op) => fun q => if q = p then op.apply (alone p) else alone q

/-- An open or close, made on the board and on the devices alone. -/
def Shared.operate (s : Shared n) (p : DevicePtr) (op : DeviceOp) : Shared n :=
  { s with
    board := s.board.set p (op.apply (s.board.device p))
    alone := operateAlone s.alone (some (p, op)) }

/-- The flag word of a device overwritten. -/
def setOpenFlag (board : Board) (p : DevicePtr) (word : BitVec 16) : Board :=
  board.set p { board.device p with openFlag := word }

/-- The first step of an output: the flags are saved and the stream flag is set. -/
def Shared.save (s : Shared n) (i : Fin n) (fn : OutputFn) (dev : DevicePtr)
    (buffer : List UInt8) : Shared n :=
  let oldFlag := (s.board.device dev).openFlag
  Shared.goto { s with board := setOpenFlag s.board dev (oldFlag ||| rtDeviceFlagStream) } i
    (.output { fn, dev, oldFlag, buffer, written := false })

/-- The device that a later step of an output works on: `rt_kputs` and `rt_kprintf` read
`_console_device` again, the backend keeps it in a local variable. -/
def Output.target (board : Board) (o : Output) : Option DevicePtr :=
  match o.fn with
  | .ulogConsoleBackendOutput => some o.dev
  | _ => board.consoleDevice

/-- The second step: the write, with the stream flag as it is by then. -/
def outputWrite (board : Board) (o : Output) : Board :=
  match o.target board with
  | none => board
  | some p => board.set p (rtDeviceWrite serialOps (board.device p) o.buffer)

/-- The third step: the saved word is put back. -/
def outputRestore (board : Board) (o : Output) : Board :=
  match o.target board with
  | none => board
  | some p => setOpenFlag board p o.oldFlag

/-- The last write to a device counts. -/
theorem Board.set_set (s : Board) (p : DevicePtr) (d d' : Device) :
    (s.set p d).set p d' = s.set p d' := by
  have hdevice : (fun q => if q = p then d' else (s.set p d).device q) =
      fun q => if q = p then d' else s.device q := by
    funext q
    by_cases hq : q = p
    · rw [if_pos hq, if_pos hq]
    · rw [if_neg hq, if_neg hq, Board.set_device_ne hq]
  simp only [Board.set] at hdevice ⊢
  rw [hdevice]

/-- The three steps with nobody in between are `rt_kprintf`. -/
theorem output_alone {board : Board} {dev : DevicePtr} (hconsole : board.consoleDevice = some dev)
    (text : String) (o : Output) (hdev : o.dev = dev)
    (hold : o.oldFlag = (board.device dev).openFlag)
    (hbuffer : o.buffer = rtLogBuf text.toUTF8.toList) :
    outputRestore (outputWrite (setOpenFlag board dev (o.oldFlag ||| rtDeviceFlagStream)) o) o =
      rtKprintf board text := by
  have htarget : ∀ d, o.target (board.set dev d) = some dev := by
    intro d
    cases hfn : o.fn with
    | ulogConsoleBackendOutput => simp only [Output.target, hfn, hdev]
    | rtKputs =>
      simp only [Output.target, hfn]
      exact hconsole
    | rtKprintf =>
      simp only [Output.target, hfn]
      exact hconsole
  simp only [outputRestore, outputWrite, setOpenFlag, htarget, Board.set_set,
    Board.set_device_self, rtKprintf, hconsole, hold, hbuffer]

/-- The call of an output by a thread. Without a console device the text goes to
`rt_hw_console_output`, which is empty on this board. -/
def Shared.startOutput (s : Shared n) (i : Fin n) (fn : OutputFn) (buffer : List UInt8) :
    Shared n :=
  match s.board.consoleDevice with
  | none => s
  | some dev =>
    match fn with
    | .ulogConsoleBackendOutput => s.goto i (.ulogSave dev buffer)
    | _ => s.save i fn dev buffer

/-- The place behind a piece of a call. -/
def Pc.ofFinsh : Option FinshPc → Pc
  | none => .idle
  | some pc => .finsh pc

def Pc.ofConsole : Option ConsolePc → Pc
  | none => .idle
  | some pc => .console pc

/-- The next step of a thread in the middle of a call. -/
def Shared.next (s : Shared n) (i : Fin n) : Option (Shared n) :=
  match s.thread i with
  | .idle => none
  | .finsh pc =>
    let alone := operateAlone s.alone (pc.operation s.board)
    some (Shared.goto { s with board := (finshNext s.board pc).1, alone } i
      (.ofFinsh (finshNext s.board pc).2))
  | .console pc =>
    let alone := operateAlone s.alone (pc.operation s.board)
    some (Shared.goto { s with board := (consoleNext s.board pc).1, alone } i
      (.ofConsole (consoleNext s.board pc).2))
  | .ulogSave dev buffer => some (s.save i .ulogConsoleBackendOutput dev buffer)
  | .output o =>
    if o.written then some (Shared.goto { s with board := outputRestore s.board o } i .idle)
    else
      some (Shared.goto { s with board := outputWrite s.board o } i
        (.output { o with written := true }))

/-- `finsh_set_device` up to its first call. -/
def Shared.startFinsh (objects : ObjectList) (s : Shared n) (i : Fin n) (name : String) :
    Shared n :=
  match rtDeviceFind objects name with
  | none =>
    s.startOutput i .rtKprintf
      (rtLogBuf ("finsh: can not find device: " ++ name ++ "\n").toUTF8.toList)
  | some dev => if s.board.shell.device = some dev then s else s.goto i (.finsh (.opening dev))

/-- `rt_console_set_device` up to its first call. -/
def Shared.startConsole (objects : ObjectList) (s : Shared n) (i : Fin n) (name : String) :
    Shared n :=
  match rtDeviceFind objects name with
  | none => s
  | some new => s.goto i (.console (.closing new))

/-- A call, by a thread that is in no other. -/
def Shared.call (s : Shared n) (i : Fin n) (t : Shared n) : Option (Shared n) :=
  if s.thread i = .idle then some t else none

def sharedStep (objects : ObjectList) (s : Shared n) : Action n → Option (Shared n)
  | .rtDeviceOpen i p oflag => s.call i (s.operate p (.opens oflag))
  | .rtDeviceClose i p => s.call i (s.operate p .closes)
  | .finshSetDevice i name => s.call i (s.startFinsh objects i name)
  | .rtConsoleSetDevice i name => s.call i (s.startConsole objects i name)
  | .output i fn buffer => s.call i (s.startOutput i fn buffer)
  | .next i => s.next i
  | .receive p chars =>
    some { s with board := s.board.set p (serialIsrRx (s.board.device p) chars) }

/-- All threads idle on a board. -/
def sharedSystem (objects : ObjectList) (board : Board) (n : Nat) : Machine (Shared n) (Action n)
    where
  init := { board, alone := board.device, thread := fun _ => .idle }
  step := sharedStep objects

/-! ## Which steps disturb an output -/

/-- Whether a thread is between the save and the restore of an output to `p`. -/
def Pc.printsTo (p : DevicePtr) : Pc → Bool
  | .output o => o.dev == p
  | _ => false

/-- Nobody prints to a device. -/
def Shared.Free (s : Shared n) (p : DevicePtr) : Prop := ∀ i, (s.thread i).printsTo p = false

/-- The open or close that a step makes. -/
def operation (s : Shared n) : Action n → Option (DevicePtr × DeviceOp)
  | .rtDeviceOpen _ p oflag => some (p, .opens oflag)
  | .rtDeviceClose _ p => some (p, .closes)
  | .next i =>
    match s.thread i with
    | .finsh pc => pc.operation s.board
    | .console pc => pc.operation s.board
    | _ => none
  | _ => none

/-- The device that a step assigns to `_console_device`. -/
def assignment (s : Shared n) : Action n → Option DevicePtr
  | .next i =>
    match s.thread i with
    | .console (.assigning new) => some new
    | _ => none
  | _ => none

/-- The output whose saved word a step puts back, and its thread. -/
def restoration (s : Shared n) : Action n → Option (Fin n × Output)
  | .next i =>
    match s.thread i with
    | .output o => if o.written then some (i, o) else none
    | _ => none
  | _ => none

/-- Whether an output looks `_console_device` up again. -/
def Pc.readsConsole : Pc → Bool
  | .output o => o.fn != .ulogConsoleBackendOutput
  | _ => false

/-- The steps that lose no flag. While somebody prints to a device no open or close changes its
flag word; while `rt_kputs` or `rt_kprintf` prints, the console device stays; and where outputs
to one device overlap, a word without the stream flag is put back by the last of them. -/
def Undisturbed (s : Shared n) (a : Action n) : Prop :=
  (∀ x ∈ operation s a,
    s.Free x.1 ∨ (x.2.apply (s.alone x.1)).openFlag = (s.alone x.1).openFlag) ∧
  (∀ new ∈ assignment s a,
    s.board.consoleDevice = some new ∨ ∀ i, (s.thread i).readsConsole = false) ∧
  (∀ x ∈ restoration s a,
    hasFlag x.2.oldFlag rtDeviceFlagStream = true ∨
      ∀ j, j ≠ x.1 → (s.thread j).printsTo x.2.dev = false)

instance (s : Shared n) (p : DevicePtr) : Decidable (s.Free p) :=
  inferInstanceAs (Decidable (∀ _, _))

instance : DecidableRel (Undisturbed : Shared n → Action n → Prop) := fun _ _ =>
  inferInstanceAs (Decidable (_ ∧ _ ∧ _))

/-- The step relation, by what a step does to the outputs and to the flags. -/
inductive Change (s : Shared n) (a : Action n) : Shared n → Prop
  | operate (i : Fin n) (p : DevicePtr) (op : DeviceOp) (pc : Pc) :
    operation s a = some (p, op) → (∀ o, s.thread i ≠ .output o) → (∀ o, pc ≠ .output o) →
      Change s a ((s.operate p op).goto i pc)
  | quiet (i : Fin n) (board : Board) (pc : Pc) :
    (∀ p, wordOf (board.device p) = wordOf (s.board.device p)) →
      board.consoleDevice = s.board.consoleDevice → (∀ o, s.thread i ≠ .output o) →
      (∀ o, pc ≠ .output o) → Change s a (Shared.goto { s with board } i pc)
  | receive (board : Board) :
    (∀ p, wordOf (board.device p) = wordOf (s.board.device p)) →
      board.consoleDevice = s.board.consoleDevice → Change s a { s with board }
  | assign (i : Fin n) (new : DevicePtr) :
    assignment s a = some new → (∀ o, s.thread i ≠ .output o) →
      Change s a
        (Shared.goto { s with board := { s.board with consoleDevice := some new } } i .idle)
  | save (i : Fin n) (fn : OutputFn) (dev : DevicePtr) (buffer : List UInt8) :
    (∀ o, s.thread i ≠ .output o) →
      (fn ≠ .ulogConsoleBackendOutput → s.board.consoleDevice = some dev) →
      Change s a (s.save i fn dev buffer)
  | write (i : Fin n) (o : Output) (board : Board) :
    s.thread i = .output o → (∀ p, wordOf (board.device p) = wordOf (s.board.device p)) →
      board.consoleDevice = s.board.consoleDevice →
      Change s a (Shared.goto { s with board } i (.output { o with written := true }))
  | restore (i : Fin n) (o : Output) :
    s.thread i = .output o → restoration s a = some (i, o) →
      Change s a (Shared.goto { s with board := outputRestore s.board o } i .idle)

theorem goto_self {s : Shared n} {i : Fin n} {pc : Pc} (h : s.thread i = pc) :
    s.goto i pc = s := by
  have hthread : (fun j => if j = i then pc else s.thread j) = s.thread := by
    funext j
    by_cases hj : j = i
    · rw [if_pos hj, hj, h]
    · rw [if_neg hj]
  simp only [Shared.goto, hthread]

theorem wordOf_rtDeviceWrite (d : Device) (buffer : List UInt8) :
    wordOf (rtDeviceWrite serialOps d buffer) = wordOf d := by
  obtain ⟨serialTx, calls, hwrite⟩ := rtDeviceWrite_eq d buffer
  rw [hwrite]
  rfl

theorem wordOf_serialIsrRx (d : Device) (chars : List UInt8) :
    wordOf (serialIsrRx d chars) = wordOf d := by
  unfold serialIsrRx
  split
  · rfl
  · rfl

theorem startOutput_change {s : Shared n} {a : Action n} {i : Fin n} (hidle : s.thread i = .idle)
    (fn : OutputFn) (buffer : List UInt8) : Change s a (s.startOutput i fn buffer) := by
  have hnot : ∀ o, s.thread i ≠ .output o := by
    intro o ho
    rw [hidle] at ho
    cases ho
  unfold Shared.startOutput
  cases hconsole : s.board.consoleDevice with
  | none => exact .receive s.board (fun _ => rfl) rfl
  | some dev =>
    cases fn with
    | rtKputs => exact .save i .rtKputs dev buffer hnot fun _ => hconsole
    | rtKprintf => exact .save i .rtKprintf dev buffer hnot fun _ => hconsole
    | ulogConsoleBackendOutput => exact .quiet i s.board _ (fun _ => rfl) rfl hnot nofun

/-- A place in the switch of the shell is none in an output. -/
theorem ofFinsh_ne_output (pc : Option FinshPc) (o : Output) : Pc.ofFinsh pc ≠ .output o := by
  cases pc <;> nofun

theorem ofConsole_ne_output (pc : Option ConsolePc) (o : Output) :
    Pc.ofConsole pc ≠ .output o := by
  cases pc <;> nofun

/-- A piece of `finsh_set_device` is an open or close, or changes no flag. -/
theorem finsh_change {s : Shared n} {i : Fin n} {pc : FinshPc} (hpc : s.thread i = .finsh pc) :
    Change s (.next i) (Shared.goto { s with
      board := (finshNext s.board pc).1
      alone := operateAlone s.alone (pc.operation s.board) } i
      (.ofFinsh (finshNext s.board pc).2)) := by
  have hold : ∀ o, s.thread i ≠ .output o := by
    rw [hpc]
    nofun
  have hop : operation s (.next i) = pc.operation s.board := by simp only [operation, hpc]
  cases hoperation : pc.operation s.board with
  | none =>
    exact .quiet i _ _ (finshNext_quiet hoperation) (finshNext_consoleDevice _ _) hold
      (ofFinsh_ne_output _)
  | some x =>
    rw [finshNext_operation hoperation]
    exact .operate i x.1 x.2 _ (hop.trans hoperation) hold (ofFinsh_ne_output _)

/-- A piece of `rt_console_set_device` is an open or close, the assignment, or nothing. -/
theorem console_change {s : Shared n} {i : Fin n} {pc : ConsolePc}
    (hpc : s.thread i = .console pc) :
    Change s (.next i) (Shared.goto { s with
      board := (consoleNext s.board pc).1
      alone := operateAlone s.alone (pc.operation s.board) } i
      (.ofConsole (consoleNext s.board pc).2)) := by
  have hold : ∀ o, s.thread i ≠ .output o := by
    rw [hpc]
    nofun
  have hop : operation s (.next i) = pc.operation s.board := by simp only [operation, hpc]
  cases hoperation : pc.operation s.board with
  | none =>
    cases pc with
    | closing new =>
      have hconsole : s.board.consoleDevice = none := by
        simpa only [ConsolePc.operation, Option.map_eq_none_iff] using hoperation
      refine .quiet i _ _ (fun _ => ?_) ?_ hold (ofConsole_ne_output _)
      · simp only [consoleNext, hconsole]
      · simp only [consoleNext, hconsole]
    | opening new => cases hoperation
    | assigning new =>
      have hassign : assignment s (.next i) = some new := by simp only [assignment, hpc]
      exact .assign i new hassign hold
  | some x =>
    rw [consoleNext_operation hoperation]
    exact .operate i x.1 x.2 _ (hop.trans hoperation) hold (ofConsole_ne_output _)

/-- The next instruction of a thread has one of its changes. -/
theorem next_change {s t : Shared n} {i : Fin n} (h : s.next i = some t) :
    Change s (.next i) t := by
  unfold Shared.next at h
  cases hpc : s.thread i with
  | idle =>
    simp only [hpc] at h
    cases h
  | finsh pc =>
    simp only [hpc] at h
    cases h
    exact finsh_change hpc
  | console pc =>
    simp only [hpc] at h
    cases h
    exact console_change hpc
  | ulogSave dev buffer =>
    simp only [hpc] at h
    cases h
    exact .save i _ dev buffer (by rw [hpc]; nofun) fun hne => absurd rfl hne
  | output o =>
    simp only [hpc] at h
    split at h
    · next hwritten =>
      have hrestore : restoration s (.next i) = some (i, o) := by
        simp only [restoration, hpc, hwritten, if_true]
      cases h
      exact .restore i o hpc hrestore
    · cases h
      refine .write i o _ hpc ?_ ?_
      · intro p
        unfold outputWrite
        split
        · rfl
        · exact wordOf_set (wordOf_rtDeviceWrite _ _) p
      · unfold outputWrite
        split
        · rfl
        · rfl

theorem sharedStep_change {objects : ObjectList} {s t : Shared n} {a : Action n}
    (h : sharedStep objects s a = some t) : Change s a t := by
  have hcall : ∀ {i : Fin n} {u : Shared n}, s.call i u = some t → s.thread i = .idle ∧ u = t := by
    intro i u hu
    unfold Shared.call at hu
    split at hu
    · next hidle => exact ⟨hidle, Option.some.inj hu⟩
    · cases hu
  cases a with
  | rtDeviceOpen i p oflag =>
    obtain ⟨hidle, rfl⟩ := hcall h
    rw [← goto_self (s := s.operate p (.opens oflag)) hidle]
    exact .operate i p _ _ rfl (by rw [hidle]; nofun) nofun
  | rtDeviceClose i p =>
    obtain ⟨hidle, rfl⟩ := hcall h
    rw [← goto_self (s := s.operate p .closes) hidle]
    exact .operate i p _ _ rfl (by rw [hidle]; nofun) nofun
  | finshSetDevice i name =>
    obtain ⟨hidle, rfl⟩ := hcall h
    unfold Shared.startFinsh
    split
    · exact startOutput_change hidle _ _
    · split
      · exact .receive s.board (fun _ => rfl) rfl
      · exact .quiet i s.board _ (fun _ => rfl) rfl (by rw [hidle]; nofun) nofun
  | rtConsoleSetDevice i name =>
    obtain ⟨hidle, rfl⟩ := hcall h
    unfold Shared.startConsole
    split
    · exact .receive s.board (fun _ => rfl) rfl
    · exact .quiet i s.board _ (fun _ => rfl) rfl (by rw [hidle]; nofun) nofun
  | output i fn buffer =>
    obtain ⟨hidle, rfl⟩ := hcall h
    exact startOutput_change hidle fn buffer
  | next i => exact next_change h
  | receive p chars =>
    cases h
    exact .receive _ (wordOf_set (wordOf_serialIsrRx _ _)) rfl

/-! ## The invariant -/

/-- The flags of every device are those of the opens and closes alone up to the stream flag, and
exactly those where nobody prints. The word that an output saved is likewise right up to the
stream flag, and one of the outputs to each device that is printed to has saved the right one. -/
structure Coherent (s : Shared n) : Prop where
  near : ∀ p, Near (wordOf (s.board.device p)) (wordOf (s.alone p))
  free : ∀ p, s.Free p → (s.board.device p).openFlag = (s.alone p).openFlag
  saved : ∀ i o, s.thread i = .output o → UpToStream o.oldFlag (s.alone o.dev).openFlag
  outermost : ∀ i o, s.thread i = .output o →
    ∃ j o', s.thread j = .output o' ∧ o'.dev = o.dev ∧ o'.oldFlag = (s.alone o.dev).openFlag
  console : ∀ i o, s.thread i = .output o → o.fn ≠ .ulogConsoleBackendOutput →
    s.board.consoleDevice = some o.dev

variable {s : Shared n} {i : Fin n} {p : DevicePtr}

theorem goto_thread_self (pc : Pc) : (s.goto i pc).thread i = pc := if_pos rfl

theorem goto_thread_ne {j : Fin n} (h : j ≠ i) (pc : Pc) :
    (s.goto i pc).thread j = s.thread j := if_neg h

/-- A step of a thread that does not print leaves the outputs as they are. -/
theorem goto_output {pc : Pc} (hold : ∀ o, s.thread i ≠ .output o) (hnew : ∀ o, pc ≠ .output o)
    (j : Fin n) (o : Output) : (s.goto i pc).thread j = .output o ↔ s.thread j = .output o := by
  by_cases hj : j = i
  · subst hj
    rw [goto_thread_self]
    exact ⟨fun h => absurd h (hnew o), fun h => absurd h (hold o)⟩
  · rw [goto_thread_ne hj]

/-- A thread prints to the device of its output. -/
theorem printsTo_eq_true {pc : Pc} : pc.printsTo p = true ↔ ∃ o, pc = .output o ∧ o.dev = p := by
  cases pc with
  | output o =>
    simp only [Pc.printsTo, beq_iff_eq, Pc.output.injEq]
    exact ⟨fun h => ⟨o, rfl, h⟩, fun ⟨_, ho, h⟩ => ho ▸ h⟩
  | _ => simp only [Pc.printsTo, Bool.false_eq_true, reduceCtorEq, false_and, exists_false]

/-- A device is free when no output uses it. -/
theorem free_iff : s.Free p ↔ ∀ j o, s.thread j = .output o → o.dev ≠ p := by
  constructor
  · intro h j o ho hp
    have hprints := printsTo_eq_true.mpr ⟨o, ho, hp⟩
    rw [h j] at hprints
    cases hprints
  · intro h j
    cases hprints : (s.thread j).printsTo p with
    | false => rfl
    | true =>
      obtain ⟨o, ho, hp⟩ := printsTo_eq_true.mp hprints
      exact absurd hp (h j o ho)

theorem free_congr {t : Shared n}
    (h : ∀ j o, t.thread j = .output o ↔ s.thread j = .output o) : t.Free p ↔ s.Free p := by
  simp only [free_iff, h]

/-- A step that changes no flags and no console keeps the coherence. -/
theorem Coherent.quiet {t : Shared n} (h : Coherent s)
    (hwords : ∀ p, wordOf (t.board.device p) = wordOf (s.board.device p))
    (hconsole : ∀ j o, s.thread j = .output o → o.fn ≠ .ulogConsoleBackendOutput →
      t.board.consoleDevice = s.board.consoleDevice)
    (houtputs : ∀ j o, t.thread j = .output o ↔ s.thread j = .output o)
    (halone : t.alone = s.alone) : Coherent t := by
  refine ⟨?_, ?_, ?_, ?_, ?_⟩
  · intro q
    rw [hwords, halone]
    exact h.near q
  · intro q hq
    have hword := congrArg Word.openFlag (hwords q)
    rw [halone]
    exact hword.trans (h.free q ((free_congr houtputs).mp hq))
  · intro j o ho
    rw [halone]
    exact h.saved j o ((houtputs j o).mp ho)
  · intro j o ho
    obtain ⟨k, o', hk, hdev, hflag⟩ := h.outermost j o ((houtputs j o).mp ho)
    rw [halone]
    exact ⟨k, o', (houtputs k o').mpr hk, hdev, hflag⟩
  · intro j o ho hfn
    have ho := (houtputs j o).mp ho
    exact (hconsole j o ho hfn).trans (h.console j o ho hfn)

/-- An open or close finds the word of the device alone, up to the stream flag, and leaves it so.
If it changes the word nobody has saved the old one. -/
theorem Coherent.operate {op : DeviceOp} {pc : Pc} (h : Coherent s)
    (hok : s.Free p ∨ (op.apply (s.alone p)).openFlag = (s.alone p).openFlag)
    (hold : ∀ o, s.thread i ≠ .output o) (hnew : ∀ o, pc ≠ .output o) :
    Coherent ((s.operate p op).goto i pc) := by
  have houtputs := goto_output (s := s.operate p op) hold hnew
  have hboard : ∀ q, ((s.operate p op).board.device q) =
      if q = p then op.apply (s.board.device p) else s.board.device q := fun _ => rfl
  have halone : ∀ q, (s.operate p op).alone q =
      if q = p then op.apply (s.alone p) else s.alone q := fun _ => rfl
  -- a device that somebody prints to keeps the word it has alone
  have hkept : ∀ j o, s.thread j = .output o →
      ((s.operate p op).alone o.dev).openFlag = (s.alone o.dev).openFlag := by
    intro j o ho
    rw [halone]
    split
    · next hp =>
      rcases hok with hfree | hsame
      · exact absurd hp (free_iff.mp hfree j o ho)
      · rw [hsame, hp]
    · rfl
  refine ⟨?_, ?_, ?_, ?_, ?_⟩
  · intro q
    show Near (wordOf ((s.operate p op).board.device q)) (wordOf ((s.operate p op).alone q))
    rw [hboard, halone]
    split
    · rw [wordOf_apply, wordOf_apply]
      exact (h.near p).apply op
    · exact h.near q
  · intro q hq
    have hfree : s.Free q := (free_congr houtputs).mp hq
    show ((s.operate p op).board.device q).openFlag = ((s.operate p op).alone q).openFlag
    rw [hboard, halone]
    split
    · next hp =>
      subst hp
      have hword := (h.near q).eq (h.free q hfree)
      have happly : wordOf (op.apply (s.board.device q)) = wordOf (op.apply (s.alone q)) := by
        rw [wordOf_apply, wordOf_apply, hword]
      exact congrArg Word.openFlag happly
    · exact h.free q hfree
  · intro j o ho
    have ho := (houtputs j o).mp ho
    show UpToStream o.oldFlag ((s.operate p op).alone o.dev).openFlag
    rw [hkept j o ho]
    exact h.saved j o ho
  · intro j o ho
    have ho := (houtputs j o).mp ho
    obtain ⟨k, o', hk, hdev, hflag⟩ := h.outermost j o ho
    refine ⟨k, o', (houtputs k o').mpr hk, hdev, ?_⟩
    show o'.oldFlag = ((s.operate p op).alone o.dev).openFlag
    rw [hkept j o ho]
    exact hflag
  · intro j o ho hfn
    exact h.console j o ((houtputs j o).mp ho) hfn

theorem upToStream_or_stream {word of : BitVec 16} (h : UpToStream word of) :
    UpToStream (word ||| rtDeviceFlagStream) of := by
  rcases h with rfl | rfl
  · exact .inr rfl
  · right
    rw [BitVec.or_assoc, BitVec.or_self]

/-- The word of a device with only its open flags overwritten. -/
theorem near_setOpenFlag {board : Board} {alone : DevicePtr → Device} {word : BitVec 16}
    (h : ∀ q, Near (wordOf (board.device q)) (wordOf (alone q)))
    (hword : UpToStream word (alone p).openFlag) (q : DevicePtr) :
    Near (wordOf ((setOpenFlag board p word).device q)) (wordOf (alone q)) := by
  by_cases hq : q = p
  · subst hq
    simp only [setOpenFlag, Board.set_device_self]
    exact ⟨(h q).flag, (h q).refCount, (h q).configure, hword⟩
  · simp only [setOpenFlag, Board.set_device_ne hq]
    exact h q

/-- The first of the outputs to a device saves the right word, a later one finds the first. -/
theorem Coherent.save {fn : OutputFn} {dev : DevicePtr} (h : Coherent s)
    (hold : ∀ o, s.thread i ≠ .output o)
    (hconsole : fn ≠ .ulogConsoleBackendOutput → s.board.consoleDevice = some dev)
    (buffer : List UInt8) : Coherent (s.save i fn dev buffer) := by
  have hself : (s.save i fn dev buffer).thread i = .output
      { fn, dev, oldFlag := (s.board.device dev).openFlag, buffer, written := false } :=
    if_pos rfl
  have hother : ∀ j, j ≠ i → (s.save i fn dev buffer).thread j = s.thread j := fun j hj =>
    if_neg hj
  have hkept : ∀ k o', s.thread k = .output o' →
      (s.save i fn dev buffer).thread k = .output o' := by
    intro k o' hk
    have hki : k ≠ i := by
      rintro rfl
      exact hold o' hk
    rw [hother k hki, hk]
  refine ⟨?_, ?_, ?_, ?_, ?_⟩
  · exact near_setOpenFlag h.near (upToStream_or_stream (h.near dev).openFlag)
  · intro q hq
    have hqdev : q ≠ dev := Ne.symm (free_iff.mp hq i _ hself)
    have hfree : s.Free q := free_iff.mpr fun k o' hk => free_iff.mp hq k o' (hkept k o' hk)
    show ((setOpenFlag s.board dev _).device q).openFlag = _
    simp only [setOpenFlag, Board.set_device_ne hqdev]
    exact h.free q hfree
  · intro j o ho
    by_cases hj : j = i
    · subst hj
      cases hself.symm.trans ho
      exact (h.near dev).openFlag
    · exact h.saved j o ((hother j hj).symm.trans ho)
  · intro j o ho
    by_cases hj : j = i
    · subst hj
      cases hself.symm.trans ho
      by_cases hfree : s.Free dev
      · exact ⟨j, _, hself, rfl, h.free dev hfree⟩
      · obtain ⟨k, o', hk, hdev⟩ : ∃ k o', s.thread k = .output o' ∧ o'.dev = dev := by
          simpa only [free_iff, ne_eq, Classical.not_forall, Decidable.not_not,
            exists_prop] using hfree
        obtain ⟨m, o'', hm, hdev', hflag⟩ := h.outermost k o' hk
        exact ⟨m, o'', hkept m o'' hm, hdev'.trans hdev, hdev ▸ hflag⟩
    · obtain ⟨k, o', hk, hdev, hflag⟩ := h.outermost j o ((hother j hj).symm.trans ho)
      exact ⟨k, o', hkept k o' hk, hdev, hflag⟩
  · intro j o ho hfn
    by_cases hj : j = i
    · subst hj
      cases hself.symm.trans ho
      exact hconsole hfn
    · exact h.console j o ((hother j hj).symm.trans ho) hfn

/-- Behind the write an output is where it was, with the same word to put back. -/
theorem Coherent.write {o : Output} {board : Board} (h : Coherent s)
    (hpc : s.thread i = .output o)
    (hwords : ∀ p, wordOf (board.device p) = wordOf (s.board.device p))
    (hconsole : board.consoleDevice = s.board.consoleDevice) :
    Coherent (Shared.goto { s with board } i (.output { o with written := true })) := by
  have hthread : ∀ j o', (Shared.goto { s with board } i
      (.output { o with written := true })).thread j = .output o' →
      ∃ o'', s.thread j = .output o'' ∧ o''.dev = o'.dev ∧ o''.oldFlag = o'.oldFlag ∧
        o''.fn = o'.fn := by
    intro j o' hj
    by_cases hji : j = i
    · subst hji
      cases (goto_thread_self _).symm.trans hj
      exact ⟨o, hpc, rfl, rfl, rfl⟩
    · exact ⟨o', (goto_thread_ne hji _).symm.trans hj, rfl, rfl, rfl⟩
  have hkept : ∀ j o', s.thread j = .output o' →
      ∃ o'', (Shared.goto { s with board } i
        (.output { o with written := true })).thread j = .output o'' ∧
        o''.dev = o'.dev ∧ o''.oldFlag = o'.oldFlag := by
    intro j o' hj
    by_cases hji : j = i
    · subst hji
      cases hpc.symm.trans hj
      exact ⟨_, goto_thread_self _, rfl, rfl⟩
    · exact ⟨o', (goto_thread_ne hji _).trans hj, rfl, rfl⟩
  refine ⟨?_, ?_, ?_, ?_, ?_⟩
  · intro q
    show Near (wordOf (board.device q)) (wordOf (s.alone q))
    rw [hwords]
    exact h.near q
  · intro q hq
    have hfree : s.Free q := by
      refine free_iff.mpr fun j o' hj => ?_
      obtain ⟨o'', hj', hdev, -⟩ := hkept j o' hj
      exact hdev ▸ free_iff.mp hq j o'' hj'
    exact (congrArg Word.openFlag (hwords q)).trans (h.free q hfree)
  · intro j o' hj
    obtain ⟨o'', hj', hdev, hflag, -⟩ := hthread j o' hj
    rw [← hdev, ← hflag]
    exact h.saved j o'' hj'
  · intro j o' hj
    obtain ⟨o'', hj', hdev, -, -⟩ := hthread j o' hj
    obtain ⟨k, u, hk, hudev, huflag⟩ := h.outermost j o'' hj'
    obtain ⟨v, hv, hvdev, hvflag⟩ := hkept k u hk
    exact ⟨k, v, hv, (hvdev.trans hudev).trans hdev,
      (hvflag.trans huflag).trans (by rw [hdev]; rfl)⟩
  · intro j o' hj hfn
    obtain ⟨o'', hj', hdev, -, hfn'⟩ := hthread j o' hj
    rw [← hdev]
    exact hconsole.trans (h.console j o'' hj' (hfn' ▸ hfn))

/-- The restore puts a word back that is right up to the stream flag. If nobody is left who prints
to the device it is the right word, since one of the outputs has it. -/
theorem Coherent.restore {o : Output} (h : Coherent s) (hpc : s.thread i = .output o)
    (hok : hasFlag o.oldFlag rtDeviceFlagStream = true ∨
      ∀ j, j ≠ i → (s.thread j).printsTo o.dev = false) :
    Coherent (Shared.goto { s with board := outputRestore s.board o } i .idle) := by
  have htarget : o.target s.board = some o.dev := by
    cases hfn : o.fn with
    | rtKputs =>
      simp only [Output.target, hfn]
      exact h.console i o hpc (by rw [hfn]; nofun)
    | rtKprintf =>
      simp only [Output.target, hfn]
      exact h.console i o hpc (by rw [hfn]; nofun)
    | ulogConsoleBackendOutput => simp only [Output.target, hfn]
  have hboard : outputRestore s.board o = setOpenFlag s.board o.dev o.oldFlag := by
    simp only [outputRestore, htarget]
  rw [hboard]
  have hthread : ∀ j o', (Shared.goto { s with
      board := setOpenFlag s.board o.dev o.oldFlag } i .idle).thread j = .output o' →
      j ≠ i ∧ s.thread j = .output o' := by
    intro j o' hj
    by_cases hji : j = i
    · subst hji
      cases (goto_thread_self _).symm.trans hj
    · exact ⟨hji, (goto_thread_ne hji _).symm.trans hj⟩
  refine ⟨?_, ?_, ?_, ?_, ?_⟩
  · exact near_setOpenFlag h.near (h.saved i o hpc)
  · intro q hq
    by_cases hqdev : q = o.dev
    · subst hqdev
      obtain ⟨j, o', hj, hdev, hflag⟩ := h.outermost i o hpc
      have hji : j = i := by
        refine Decidable.byContradiction fun hji => ?_
        exact free_iff.mp hq j o' ((goto_thread_ne hji _).trans hj) hdev
      subst hji
      cases hpc.symm.trans hj
      show ((setOpenFlag s.board o.dev o.oldFlag).device o.dev).openFlag = _
      simp only [setOpenFlag, Board.set_device_self]
      exact hflag
    · have hfree : s.Free q := by
        refine free_iff.mpr fun j o' hj => ?_
        by_cases hji : j = i
        · subst hji
          cases hpc.symm.trans hj
          exact Ne.symm hqdev
        · exact free_iff.mp hq j o' ((goto_thread_ne hji _).trans hj)
      show ((setOpenFlag s.board o.dev o.oldFlag).device q).openFlag = _
      simp only [setOpenFlag, Board.set_device_ne hqdev]
      exact h.free q hfree
  · intro j o' hj
    exact h.saved j o' (hthread j o' hj).2
  · intro j o' hj
    obtain ⟨hji, hj'⟩ := hthread j o' hj
    obtain ⟨k, u, hk, hudev, huflag⟩ := h.outermost j o' hj'
    by_cases hki : k = i
    · -- the right word was this output's: then the others have it too, or there are none
      subst hki
      cases hpc.symm.trans hk
      rcases hok with hstream | halone
      · refine ⟨j, o', hj, rfl, ?_⟩
        show o'.oldFlag = (s.alone o'.dev).openFlag
        rcases h.saved j o' hj' with hsame | hsame
        · exact hsame
        · rw [hsame, ← huflag]
          exact or_stream_of_hasFlag hstream
      · have hprints := printsTo_eq_true.mpr ⟨o', hj', hudev.symm⟩
        rw [halone j hji] at hprints
        cases hprints
    · exact ⟨k, u, (goto_thread_ne hki _).trans hk, hudev, huflag⟩
  · intro j o' hj hfn
    exact h.console j o' (hthread j o' hj).2 hfn

/-- Every change that is undisturbed keeps the coherence. -/
theorem Coherent.change {a : Action n} {t : Shared n} (h : Coherent s) (hok : Undisturbed s a)
    (hchange : Change s a t) : Coherent t := by
  cases hchange with
  | operate i p op pc hop hold hnew => exact h.operate (hok.1 _ hop) hold hnew
  | quiet i board pc hwords hconsole hold hnew =>
    exact h.quiet hwords (fun _ _ _ _ => hconsole) (goto_output hold hnew) rfl
  | receive board hwords hconsole =>
    exact h.quiet hwords (fun _ _ _ _ => hconsole) (fun _ _ => Iff.rfl) rfl
  | assign i new hassign hold =>
    refine h.quiet (fun _ => rfl) ?_ (goto_output hold nofun) rfl
    intro j o ho hfn
    rcases hok.2.1 new hassign with hsame | hnone
    · exact hsame.symm
    · have hreads := hnone j
      simp only [ho, Pc.readsConsole, bne_eq_false_iff_eq] at hreads
      exact absurd hreads hfn
  | save i fn dev buffer hold hconsole => exact h.save hold hconsole buffer
  | write i o board hpc hwords hconsole => exact h.write hpc hwords hconsole
  | restore i o hpc hrestore => exact h.restore hpc (hok.2.2 _ hrestore)

theorem coherent_init (objects : ObjectList) (board : Board) (n : Nat) :
    Coherent (sharedSystem objects board n).init where
  near := fun _ => .of_eq rfl
  free := fun _ _ => rfl
  saved := nofun
  outermost := nofun
  console := nofun

/-- Console output undoes no device switch, in every run of undisturbed steps, from any board and
with any number of threads: whenever no output is under way, the open flags of every device are
those that the opens and closes made so far leave alone. -/
theorem output_keeps_flags (objects : ObjectList) (board : Board) (n : Nat) {s : Shared n}
    (h : (sharedSystem objects board n).Reach Undisturbed s)
    (hdone : ∀ i o, s.thread i ≠ .output o) (p : DevicePtr) :
    (s.board.device p).openFlag = (s.alone p).openFlag := by
  have hcoherent : Coherent s := h.invariant (coherent_init objects board n)
    fun _ _ _ hc hok hstep => hc.change hok (sharedStep_change hstep)
  exact hcoherent.free p (free_iff.mpr fun i o ho => absurd ho (hdone i o))

/-- A text printed by one thread, and behind it the device closed and opened by another. -/
theorem output_keeps_flags_in_turn :
    ∃ s, (sharedSystem boardObjects boot 2).Reach Undisturbed s ∧
      (s.board.device uart1).openFlag = (s.alone uart1).openFlag ∧
      (s.board.device vcom).openFlag = (s.alone vcom).openFlag := by
  obtain ⟨s, hreach, hidle⟩ := (sharedSystem boardObjects boot 2).exists_reach_of_run Undisturbed
    [.output 0 .rtKprintf [0x41], .next 0, .next 0, .rtDeviceClose 1 uart1,
      .rtDeviceOpen 1 uart1 finshOflag]
    (fun s => ∀ i, s.thread i = .idle) (by decide)
  have hdone : ∀ i o, s.thread i ≠ .output o := by
    intro i o ho
    cases (hidle i).symm.trans ho
  exact ⟨s, hreach, output_keeps_flags boardObjects boot 2 hreach hdone uart1,
    output_keeps_flags boardObjects boot 2 hreach hdone vcom⟩

/-- A text that is printed while a console switch to the virtual COM port ends: the last close and

/-- Output that overlaps an open writes the old flags back. -/
open give the shell its receive mode, and the restore takes it away again. -/
theorem output_loses_receive_mode :
    ∃ s, (sharedSystem boardObjects boot 2).Reach Machine.any s ∧ (∀ i, s.thread i = .idle) ∧
      hasFlag (s.alone vcom).openFlag rtDeviceFlagIntRx = true ∧
      hasFlag (s.board.device vcom).openFlag rtDeviceFlagIntRx = false ∧
      s.board.shell.device = some vcom :=
  (sharedSystem boardObjects boot 2).exists_reach_of_run Machine.any
    [.finshSetDevice 1 "vcom", .next 1, .next 1, .next 1, .next 1, .next 1,
      .rtConsoleSetDevice 1 "vcom", .next 1, .next 1, .next 1, .output 0 .rtKprintf [0x41],
      .rtDeviceClose 1 vcom, .rtDeviceOpen 1 vcom finshOflag, .next 0, .next 0]
    (fun s => (∀ i, s.thread i = .idle) ∧
      hasFlag (s.alone vcom).openFlag rtDeviceFlagIntRx = true ∧
      hasFlag (s.board.device vcom).openFlag rtDeviceFlagIntRx = false ∧
      s.board.shell.device = some vcom) (by decide)

end RtVcom.Console
