import RtVcom.Lib.Insertion
import RtVcom.Kernel.Ipc

/-!
# Calls that wait

What `rt_mb_send_wait`, `rt_mb_recv` and `rt_mq_recv` have in common. The call looks at the object
in a loop: it suspends its thread, with a thread timer where the waiting time has an end, and
looks again when it is resumed, for the time that is left.
-/

namespace RtVcom.Kernel

open RtVcom.Lib

def rtEfull : Int := 3

/-- `RT_IPC_CMD_RESET`. -/
def rtIpcCmdReset : Int := 1

/-- The variables of a call that waits. -/
structure IpcWait where
  thread : Nat
  timeout : BitVec 32
  tickDelta : BitVec 32
deriving Repr, DecidableEq

/-- A call for at most `timeout` ticks, or for ever where that is negative. -/
def ipcWait (thread : Nat) (timeout : BitVec 32) : IpcWait := { thread, timeout, tickDelta := 0 }

namespace IpcWait

/-- The start tick of a waiting time that has an end. -/
def started (w : IpcWait) (tick : BitVec 32) : IpcWait :=
  if 0 < w.timeout.toInt then { w with tickDelta := tick } else w

/-- The waiting time that is left when a resumed thread looks again. -/
def recalculated (w : IpcWait) (tick : BitVec 32) : IpcWait :=
  if 0 < w.timeout.toInt then
    let tickDelta := tick - w.tickDelta
    let timeout := w.timeout - tickDelta
    { w with tickDelta, timeout := if timeout.toInt < 0 then 0 else timeout }
  else w

/-- Whether the thread timer runs while the thread waits. -/
def Timed (w : IpcWait) : Prop := 0 < w.timeout.toInt

instance (w : IpcWait) : Decidable w.Timed := inferInstanceAs (Decidable (_ < _))

variable {w : IpcWait} {tick : BitVec 32}

@[simp] theorem started_thread : (w.started tick).thread = w.thread := by
  unfold started
  split <;> rfl

@[simp] theorem started_timeout : (w.started tick).timeout = w.timeout := by
  unfold started
  split <;> rfl

@[simp] theorem recalculated_thread : (w.recalculated tick).thread = w.thread := by
  unfold recalculated
  split <;> rfl

end IpcWait

section

variable {α : Type} (priority : Nat → Nat) (thread : α → Nat)

/-- `rt_ipc_list_suspend` of a call, by the priorities the threads have now. -/
def ipcSuspend (list : List α) (call : α) : IpcFlag → List α
  | .fifo => list ++ [call]
  | .prio =>
    insertBefore (fun c => decide (priority (thread call) < priority (thread c))) call list

/-- Joining a list is a permutation of it with the caller in front. -/
theorem ipcSuspend_perm (list : List α) (call : α) (flag : IpcFlag) :
    (ipcSuspend priority thread list call flag).Perm (call :: list) := by
  cases flag with
  | fifo => exact List.perm_append_singleton call list
  | prio => exact insertBefore_perm

end

end RtVcom.Kernel
