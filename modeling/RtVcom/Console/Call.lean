import RtVcom.Console.Switch
import RtVcom.Serial.Flags

/-!
# A switch, call by call

`finsh_set_device` and `rt_console_set_device` take no lock: between any two of their calls and
assignments other threads and interrupts run, and they read `shell->device` and `_console_device`
again each time. Here they are taken apart. A place in one of the two functions is a `FinshPc` or
a `ConsolePc`, and `finshNext` and `consoleNext` do what comes next and say where the thread is
then. `finshSetDevice_calls` and `rtConsoleSetDevice_calls` put the pieces together again: with
nobody in between they are the functions of `RtVcom.Console.Switch`.
-/

namespace RtVcom.Console

open RtVcom.Kernel RtVcom.Serial

/-! ## `finsh_set_device` -/

/-- Where a thread is in `finsh_set_device`, behind the comparison with the old device. -/
inductive FinshPc
  | opening (dev : DevicePtr)
  | closing (dev : DevicePtr)
  | silencing (dev : DevicePtr)
  | taking (dev : DevicePtr)
  | indicating (dev : DevicePtr)
deriving Repr, DecidableEq

/-- The flags that `finsh_set_device` opens with. -/
def finshOflag : BitVec 16 := rtDeviceOflagRdwr ||| rtDeviceFlagIntRx ||| rtDeviceFlagStream

/-- The open or close that comes next. -/
def FinshPc.operation (board : Board) : FinshPc → Option (DevicePtr × DeviceOp)
  | .opening dev => some (dev, .opens finshOflag)
  | .closing _ => board.shell.device.map fun old => (old, .closes)
  | _ => none

/-- The next call or assignment, and the place behind it: none where the function returns. -/
def finshNext (board : Board) : FinshPc → Board × Option FinshPc
  | .opening dev =>
    (board.openDevice dev finshOflag,
      if (rtDeviceOpen serialOps (board.device dev) finshOflag).2 = rtEok then some (.closing dev)
      else none)
  | .closing dev =>
    match board.shell.device with
    | none => (board, some (.taking dev))
    | some old => (board.closeDevice old, some (.silencing dev))
  | .silencing dev =>
    match board.shell.device with
    | none => (board, some (.taking dev))
    | some old =>
      (board.set old (rtDeviceSetRxIndicate (board.device old) none), some (.taking dev))
  | .taking dev =>
    let shell : FinshShell :=
      { device := some dev, line := List.replicate finshCmdSize 0, lineCurpos := 0,
        linePosition := 0 }
    ({ board with shell }, some (.indicating dev))
  | .indicating dev =>
    (board.set dev (rtDeviceSetRxIndicate (board.device dev) (some .finshRxInd)), none)

/-- The rest of the call, with nobody in between. -/
def finshRun : Nat → Board → Option FinshPc → Board
  | _, board, none => board
  | 0, board, some _ => board
  | steps + 1, board, some pc => finshRun steps (finshNext board pc).1 (finshNext board pc).2

/-- The pieces of `finsh_set_device` are the whole: five calls and assignments at most. -/
theorem finshSetDevice_calls {objects : ObjectList} {board : Board} {name : String}
    {dev : DevicePtr} (hfind : rtDeviceFind objects name = some dev)
    (hother : board.shell.device ≠ some dev) :
    finshRun 5 board (some (.opening dev)) = finshSetDevice objects board name := by
  by_cases hok : (rtDeviceOpen serialOps (board.device dev) finshOflag).2 = rtEok
  · have hok' : (rtDeviceOpen serialOps (board.device dev)
        (rtDeviceOflagRdwr ||| rtDeviceFlagIntRx ||| rtDeviceFlagStream)).2 = rtEok := hok
    cases hshell : board.shell.device with
    | none =>
      simp only [finshRun, finshNext, hok, if_true, finshSetDevice, hfind, hshell, reduceCtorEq,
        if_false, hok', finshReleaseDevice, Board.openDevice, Board.set]
      rfl
    | some old =>
      have hne : some old ≠ some dev := hshell ▸ hother
      simp only [finshRun, finshNext, hok, if_true, finshSetDevice, hfind, hshell, hne, if_false,
        hok', finshReleaseDevice, Board.openDevice, Board.closeDevice, Board.set]
      rfl
  · have hok' : ¬ (rtDeviceOpen serialOps (board.device dev)
        (rtDeviceOflagRdwr ||| rtDeviceFlagIntRx ||| rtDeviceFlagStream)).2 = rtEok := hok
    simp only [finshRun, finshNext, hok, if_false, finshSetDevice, hfind, hother, hok']
    rfl

/-! ## `rt_console_set_device` -/

/-- Where a thread is in `rt_console_set_device`, behind the lookup of the new device. -/
inductive ConsolePc
  | closing (new : DevicePtr)
  | opening (new : DevicePtr)
  | assigning (new : DevicePtr)
deriving Repr, DecidableEq

/-- The flags that `rt_console_set_device` opens with. -/
def outputOflag : BitVec 16 := rtDeviceOflagRdwr ||| rtDeviceFlagStream

/-- The open or close that comes next. -/
def ConsolePc.operation (board : Board) : ConsolePc → Option (DevicePtr × DeviceOp)
  | .closing _ => board.consoleDevice.map fun old => (old, .closes)
  | .opening new => some (new, .opens outputOflag)
  | .assigning _ => none

/-- The next call or assignment, and the place behind it. -/
def consoleNext (board : Board) : ConsolePc → Board × Option ConsolePc
  | .closing new =>
    match board.consoleDevice with
    | none => (board, some (.opening new))
    | some old => (board.closeDevice old, some (.opening new))
  | .opening new => (board.openDevice new outputOflag, some (.assigning new))
  | .assigning new => ({ board with consoleDevice := some new }, none)

/-- The rest of the call, with nobody in between. -/
def consoleRun : Nat → Board → Option ConsolePc → Board
  | _, board, none => board
  | 0, board, some _ => board
  | steps + 1, board, some pc => consoleRun steps (consoleNext board pc).1 (consoleNext board pc).2

/-- The steps of `rt_console_set_device` give its effect. -/
theorem rtConsoleSetDevice_calls {objects : ObjectList} {board : Board} {name : String}
    {new : DevicePtr} (hfind : rtDeviceFind objects name = some new) :
    consoleRun 3 board (some (.closing new)) = (rtConsoleSetDevice objects board name).1 := by
  cases hconsole : board.consoleDevice with
  | none =>
    simp only [consoleRun, consoleNext, hconsole, rtConsoleSetDevice, hfind, outputOflag]
  | some old =>
    simp only [consoleRun, consoleNext, hconsole, rtConsoleSetDevice, hfind, outputOflag]

/-! ## What the pieces do to the flags -/

/-- Where the next piece opens or closes a device, that is all it does. -/
theorem finshNext_operation {board : Board} {pc : FinshPc} {p : DevicePtr} {op : DeviceOp}
    (h : pc.operation board = some (p, op)) :
    (finshNext board pc).1 = board.set p (op.apply (board.device p)) := by
  cases pc with
  | opening dev =>
    cases h
    rfl
  | closing dev =>
    cases hshell : board.shell.device with
    | none => simp only [FinshPc.operation, hshell, Option.map_none, reduceCtorEq] at h
    | some old =>
      simp only [FinshPc.operation, hshell, Option.map_some, Option.some.injEq,
        Prod.mk.injEq] at h
      obtain ⟨rfl, rfl⟩ := h
      simp only [finshNext, hshell]
      rfl
  | silencing dev => cases h
  | taking dev => cases h
  | indicating dev => cases h

/-- A step that operates on a device does that only. -/
theorem consoleNext_operation {board : Board} {pc : ConsolePc} {p : DevicePtr} {op : DeviceOp}
    (h : pc.operation board = some (p, op)) :
    (consoleNext board pc).1 = board.set p (op.apply (board.device p)) := by
  cases pc with
  | closing new =>
    cases hconsole : board.consoleDevice with
    | none => simp only [ConsolePc.operation, hconsole, Option.map_none, reduceCtorEq] at h
    | some old =>
      simp only [ConsolePc.operation, hconsole, Option.map_some, Option.some.injEq,
        Prod.mk.injEq] at h
      obtain ⟨rfl, rfl⟩ := h
      simp only [consoleNext, hconsole]
      rfl
  | opening new =>
    cases h
    rfl
  | assigning new => cases h

/-- Neither the callback nor a transmission or reception is part of the word of a device. -/
theorem wordOf_set {board : Board} {p : DevicePtr} {d : Device}
    (h : wordOf d = wordOf (board.device p)) (q : DevicePtr) :
    wordOf ((board.set p d).device q) = wordOf (board.device q) := by
  by_cases hq : q = p
  · subst hq
    rw [Board.set_device_self, h]
  · rw [Board.set_device_ne hq]

/-- The other pieces change no flag. -/
theorem finshNext_quiet {board : Board} {pc : FinshPc} (h : pc.operation board = none)
    (q : DevicePtr) : wordOf ((finshNext board pc).1.device q) = wordOf (board.device q) := by
  cases pc with
  | opening dev => cases h
  | closing dev =>
    have hshell : board.shell.device = none := by
      simpa only [FinshPc.operation, Option.map_eq_none_iff] using h
    simp only [finshNext, hshell]
  | silencing dev =>
    cases hshell : board.shell.device with
    | none => simp only [finshNext, hshell]
    | some old =>
      have hword : wordOf (rtDeviceSetRxIndicate (board.device old) none) =
          wordOf (board.device old) := rfl
      simp only [finshNext, hshell]
      exact wordOf_set hword q
  | taking dev => rfl
  | indicating dev =>
    have hword : wordOf (rtDeviceSetRxIndicate (board.device dev) (some .finshRxInd)) =
        wordOf (board.device dev) := rfl
    exact wordOf_set hword q

/-- The switch of the shell leaves the console. -/
theorem finshNext_consoleDevice (board : Board) (pc : FinshPc) :
    (finshNext board pc).1.consoleDevice = board.consoleDevice := by
  unfold finshNext
  split
  · rfl
  · split <;> rfl
  · split <;> rfl
  · rfl
  · rfl

end RtVcom.Console
