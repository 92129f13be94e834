import Mathlib.Data.List.FinRange
import RtVcom.Lib.Machine
import RtVcom.Lib.Ring
import RtVcom.Kernel.Ipc

/-!
# The scheduler

`src/scheduler.c`, and what `src/thread.c` and `src/ipc.c` do with it. Every thread has one list
node, and with it is in a ready list, in the suspend list of an object, in the list of the defunct
threads, or in none. The links are kept as the source keeps them, so that a node that is linked
while it is in a list does here what it does there.

`rt_thread_ready_priority_group` says which ready lists have threads. Where it and the lists part,
`rt_schedule` would take a list head for a thread: a function that comes to such a point has no
result here.
-/

namespace RtVcom.Kernel

open RtVcom.Lib

/-! ## Threads and lists -/

/-- `RT_THREAD_PRIORITY_MAX`. -/
abbrev Priority := Fin 32

inductive ThreadStat
  | init
  | ready
  | suspend
  | close
deriving Repr, DecidableEq

/-- The heads: the ready lists, the suspend lists of the objects, and the defunct threads. -/
inductive ListHead
  | ready (p : Priority)
  | wait (object : Nat)
  | defunct
deriving Repr, DecidableEq

/-- `struct rt_thread`, as far as the scheduler uses it. `timer` says whether `thread_timer` runs.
`started` is not in the source: `rt_thread_startup` was called. -/
structure Tcb where
  stat : ThreadStat
  initPriority : Priority
  currentPriority : Priority
  numberMask : BitVec 32
  initTick : BitVec 32
  remainingTick : BitVec 32
  timer : Bool
  systemobject : Bool
  cleanup : Bool
  started : Bool
deriving Repr, DecidableEq

/-- `_rt_thread_init`. A thread that is created on the heap is no system object. -/
def rtThreadInit (priority : Priority) (tick : BitVec 32) (systemobject cleanup : Bool) : Tcb where
  stat := .init
  initPriority := priority
  currentPriority := priority
  numberMask := 0
  initTick := tick
  remainingTick := tick
  timer := false
  systemobject := systemobject
  cleanup := cleanup
  started := false

/-- The threads and the variables of the scheduler. -/
structure Sched (n : Nat) where
  links : Links (ListHead ⊕ Fin n)
  thread : Fin n → Tcb
  current : Option (Fin n)
  group : BitVec 32
  lockNest : BitVec 16

/-- `1 << priority`. -/
def priorityMask (p : Priority) : BitVec 32 := (1 : BitVec 32) <<< p.val

/-- `__rt_ffs(group) - 1`. -/
def lowestBit (group : BitVec 32) : Option Priority :=
  (List.finRange 32).find? fun p => group.getLsbD p

namespace Sched

variable {n : Nat}

def setThread (s : Sched n) (t : Fin n) (x : Tcb) : Sched n :=
  { s with thread := Function.update s.thread t x }

def setStat (s : Sched n) (t : Fin n) (stat : ThreadStat) : Sched n :=
  s.setThread t { s.thread t with stat }

/-- `rt_timer_start` and `rt_timer_stop` of the thread timer. -/
def setTimer (s : Sched n) (t : Fin n) (timer : Bool) : Sched n :=
  s.setThread t { s.thread t with timer }

/-- `rt_list_remove(&(thread->tlist))`. -/
def unlink (s : Sched n) (t : Fin n) : Sched n := { s with links := s.links.remove (.inr t) }

/-- `rt_list_isempty(&(rt_thread_priority_table[p]))`. -/
def readyEmpty (s : Sched n) (p : Priority) : Bool :=
  decide (s.links.next (.inl (.ready p)) = .inl (.ready p))

/-! ## `scheduler.c` -/

/-- `rt_schedule_insert_thread`. -/
def insertThread (s : Sched n) (t : Fin n) : Sched n :=
  let s := s.setStat t .ready
  if s.current = some t then s
  else
    { s with
        links := s.links.insertBefore (.inl (.ready (s.thread t).currentPriority)) (.inr t)
        group := s.group ||| (s.thread t).numberMask }

/-- `rt_schedule_remove_thread`. -/
def removeThread (s : Sched n) (t : Fin n) : Sched n :=
  let s := s.unlink t
  if s.readyEmpty (s.thread t).currentPriority then
    { s with group := s.group &&& ~~~(s.thread t).numberMask }
  else s

/-- `_get_highest_priority_thread`, with the priority. -/
def highest (s : Sched n) : Option (Priority × Fin n) :=
  (lowestBit s.group).bind fun p =>
    match s.links.next (.inl (.ready p)) with
    | .inr t => some (p, t)
    | .inl _ => none

/-- `rt_system_scheduler_start`. -/
def schedulerStart (s : Sched n) : Option (Sched n) :=
  s.highest.map fun (_, toThread) => { s with current := some toThread }.removeThread toThread

/-- `rt_schedule`, where a thread runs. -/
def schedule (s : Sched n) : Option (Sched n) :=
  if s.lockNest ≠ 0 ∨ s.group = 0 then some s
  else
    match s.highest, s.current with
    | some (p, toThread), some fromThread =>
      if (s.thread fromThread).stat = .ready ∧ (s.thread fromThread).currentPriority < p ∨
          toThread = fromThread then
        some (s.removeThread fromThread)
      else
        let switched := { s with current := some toThread }
        let inserted :=
          if (s.thread fromThread).stat = .ready then switched.insertThread fromThread
          else switched
        some (inserted.removeThread toThread)
    | _, _ => none

/-- `rt_enter_critical`. -/
def enterCritical (s : Sched n) : Sched n := { s with lockNest := s.lockNest + 1 }

/-- `rt_exit_critical`. -/
def exitCritical (s : Sched n) : Option (Sched n) :=
  let s := { s with lockNest := s.lockNest - 1 }
  if s.lockNest.toInt ≤ 0 then { s with lockNest := 0 }.schedule else some s

/-! ## `thread.c` -/

/-- `rt_thread_suspend`. -/
def suspend (s : Sched n) (t : Fin n) : Sched n × Int :=
  if (s.thread t).stat ≠ .ready then (s, -rtError)
  else (((s.setStat t .suspend).removeThread t).setTimer t false, rtEok)

/-- `rt_thread_resume`. -/
def resume (s : Sched n) (t : Fin n) : Sched n × Int :=
  if (s.thread t).stat ≠ .suspend then (s, -rtError)
  else (((s.unlink t).setTimer t false).insertThread t, rtEok)

/-- `rt_thread_startup`. -/
def startup (s : Sched n) (t : Fin n) : Option (Sched n) :=
  let s := s.setThread t { s.thread t with
    currentPriority := (s.thread t).initPriority
    numberMask := priorityMask (s.thread t).initPriority
    stat := .suspend
    started := true }
  let s := (s.resume t).1
  if s.current.isSome then s.schedule else some s

/-- `rt_thread_timeout`, called by the thread timer, which has run out. -/
def timeout (s : Sched n) (t : Fin n) : Option (Sched n) :=
  (((s.setTimer t false).unlink t).insertThread t).schedule

/-- `rt_thread_control` with `RT_THREAD_CTRL_CHANGE_PRIORITY`. -/
def changePriority (s : Sched n) (t : Fin n) (p : Priority) : Sched n :=
  let change (s : Sched n) : Sched n :=
    s.setThread t { s.thread t with currentPriority := p, numberMask := priorityMask p }
  if (s.thread t).stat = .ready then (change (s.removeThread t)).insertThread t else change s

/-- The thread is put to the defunct ones. -/
def bury (s : Sched n) (t : Fin n) : Sched n :=
  { s with links := s.links.insertAfter (.inl .defunct) (.inr t) }

/-- `rt_thread_delete`. -/
def delete (s : Sched n) (t : Fin n) : Sched n :=
  let s := if (s.thread t).stat ≠ .init then s.removeThread t else s
  ((s.setTimer t false).setStat t .close).bury t

/-- `rt_thread_exit` of the running thread. -/
def exit (s : Sched n) (t : Fin n) : Option (Sched n) :=
  let s := ((s.removeThread t).setStat t .close).setTimer t false
  (if (s.thread t).systemobject ∧ ¬(s.thread t).cleanup then s else s.bury t).schedule

/-- `rt_thread_sleep` of the running thread. -/
def sleep (s : Sched n) (t : Fin n) : Option (Sched n) :=
  ((s.suspend t).1.setTimer t true).schedule

/-- `rt_tick_increase` before the check of the timers. -/
def tickIncrease (s : Sched n) (t : Fin n) : Option (Sched n) :=
  let s := s.setThread t { s.thread t with remainingTick := (s.thread t).remainingTick - 1 }
  if (s.thread t).remainingTick = 0 then
    (s.setThread t { s.thread t with remainingTick := (s.thread t).initTick }).schedule
  else some s

/-! ## `ipc.c` -/

/-- The walk of `rt_ipc_list_suspend` for `RT_IPC_FLAG_PRIO`, over at most `fuel` nodes: the node
in front of which the thread belongs. -/
def findPosition (s : Sched n) (object : Nat) (priority : Priority) :
    Nat → ListHead ⊕ Fin n → Option (ListHead ⊕ Fin n)
  | 0, _ => none
  | fuel + 1, .inr u =>
    if priority < (s.thread u).currentPriority then some (.inr u)
    else findPosition s object priority fuel (s.links.next (.inr u))
  | _ + 1, .inl h => if h = .wait object then some (.inl h) else none

/-- `rt_ipc_list_suspend`. -/
def ipcListSuspend (s : Sched n) (object : Nat) (t : Fin n) (flag : IpcFlag) : Option (Sched n) :=
  let s := (s.suspend t).1
  match flag with
  | .fifo => some { s with links := s.links.insertBefore (.inl (.wait object)) (.inr t) }
  | .prio =>
    (s.findPosition object (s.thread t).currentPriority (n + 1)
      (s.links.next (.inl (.wait object)))).map fun l =>
        { s with links := s.links.insertBefore l (.inr t) }

/-- `rt_ipc_list_resume`, of a list that is not empty. -/
def ipcListResume (s : Sched n) (object : Nat) : Option (Sched n) :=
  match s.links.next (.inl (.wait object)) with
  | .inr t => some (s.resume t).1
  | .inl _ => none

end Sched

/-! ## The system -/

/-- The calls of the threads and the interrupts. `block` and `wake` are what the operations of the
objects do with the suspend lists; `schedule` is an `rt_schedule` in whatever call. -/
inductive SchedAction (n : Nat)
  | startup (t : Fin n)
  | schedulerStart
  | suspend
  | sleep
  | resume (t : Fin n)
  | timeout (t : Fin n)
  | changePriority (t : Fin n) (p : Priority)
  | delete (t : Fin n)
  | exit
  | block (object : Nat) (timed : Bool)
  | wake (object : Nat)
  | schedule
  | yield
  | tick
  | enterCritical
  | exitCritical
deriving Repr, DecidableEq

namespace Sched

variable {n : Nat}

/-- The scheduler after `rt_system_scheduler_init`, with threads that are not started. -/
def init (thread : Fin n → Tcb) : Sched n where
  links := { next := id, prev := id }
  thread := thread
  current := none
  group := 0
  lockNest := 0

/-- One call. A thread is started from `RT_THREAD_INIT`, and ended once; before
`rt_system_scheduler_start` nobody runs. -/
def step (flag : Nat → IpcFlag) (s : Sched n) : SchedAction n → Option (Sched n)
  | .startup t => if (s.thread t).stat = .init then s.startup t else none
  | .schedulerStart => if s.current = none then s.schedulerStart else none
  | .suspend => s.current.map fun t => (s.suspend t).1
  | .sleep => s.current.bind s.sleep
  | .resume t => some (s.resume t).1
  | .timeout t => if (s.thread t).timer then s.timeout t else none
  | .changePriority t p => some (s.changePriority t p)
  | .delete t => if (s.thread t).stat ≠ .close then some (s.delete t) else none
  | .exit => s.current.bind fun t => if (s.thread t).stat ≠ .close then s.exit t else none
  | .block object timed => s.current.bind fun t =>
      (s.ipcListSuspend object t (flag object)).map fun s => if timed then s.setTimer t true else s
  | .wake object =>
      if s.links.next (.inl (.wait object)) = .inl (.wait object) then none
      else s.ipcListResume object
  | .schedule => s.schedule
  | .yield => s.schedule
  | .tick => s.current.bind s.tickIncrease
  | .enterCritical => some s.enterCritical
  | .exitCritical => s.exitCritical

end Sched

/-- The priorities, time slices and kinds of the threads. -/
structure ThreadSpec where
  priority : Priority
  tick : BitVec 32
  systemobject : Bool
  cleanup : Bool
deriving Repr, DecidableEq

/-- Threads after `rt_thread_init`, and every sequence of calls. -/
def schedMachine {n : Nat} (spec : Fin n → ThreadSpec) (flag : Nat → IpcFlag) :
    Machine (Sched n) (SchedAction n) where
  init := Sched.init fun t =>
    rtThreadInit (spec t).priority (spec t).tick (spec t).systemobject (spec t).cleanup
  step := Sched.step flag

end RtVcom.Kernel
