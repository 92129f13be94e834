/-!
# Inter-thread communication — semaphores, events, completions

The kernel objects of `src/ipc.c` and `components/drivers/src/completion.c` that the
applications and the virtual COM port block on. Each function below is one critical
section of its source function, the part that runs with interrupts disabled, so that
an interleaving of threads and interrupts is an interleaving of these functions. A
function that may suspend its caller answers with `Blocking`: either the value it
returns at once, or that the caller is now in the object's suspend list. What a
suspended caller returns is decided by whoever resumes it (`Wakeup`).

A suspend list is the list of the suspended threads, first to be resumed first.
-/

namespace RtVcom.Kernel

/-! ## Error codes and waiting times (`rtdef.h`) -/

def rtEok : Int := 0
def rtError : Int := 1
def rtEtimeout : Int := 2
def rtEnosys : Int := 6
def rtEbusy : Int := 7
def rtEio : Int := 8

def rtWaitingForever : Int := -1

/-! ## Threads in suspend lists -/

/-- What a suspend list knows of a thread. -/
structure RtThread where
  id : Nat
  currentPriority : Nat
deriving Repr, DecidableEq

/-- `RT_IPC_FLAG_FIFO` and `RT_IPC_FLAG_PRIO`. -/
inductive IpcFlag
  | fifo
  | prio
deriving Repr, DecidableEq

/-- `rt_ipc_list_suspend`: at the end, or before the first thread that is strictly
less urgent (a larger number is less urgent). -/
def rtIpcListSuspend (list : List RtThread) (thread : RtThread) : IpcFlag → List RtThread
  | .fifo => list ++ [thread]
  | .prio =>
    list.takeWhile (fun s => !decide (thread.currentPriority < s.currentPriority)) ++
      thread :: list.dropWhile (fun s => !decide (thread.currentPriority < s.currentPriority))

/-- The suspended thread joins the others, whatever the discipline. -/
theorem rtIpcListSuspend_perm (list : List RtThread) (thread : RtThread) (flag : IpcFlag) :
    (rtIpcListSuspend list thread flag).Perm (thread :: list) := by
  cases flag with
  | fifo => exact List.perm_append_singleton thread list
  | prio =>
    unfold rtIpcListSuspend
    refine List.perm_middle.trans ?_
    rw [List.takeWhile_append_dropWhile]

/-- How a call that may block ends its first critical section. -/
inductive Blocking
  | returns (err : Int)
  | suspends
deriving Repr, DecidableEq

/-- Who ended a wait: a release of the object, or the thread's own timer. -/
inductive Wakeup
  | token
  | timeout
deriving Repr, DecidableEq

/-- The `thread->error` a waiter finds when it runs again. `rt_sem_take` sets it to
`RT_EOK` before suspending and `rt_thread_timeout` overwrites it; a release leaves it
alone. The blocking call returns this value. -/
def Wakeup.error : Wakeup → Int
  | .token => rtEok
  | .timeout => -rtEtimeout

/-- A wait can time out only when its timer was started, which a negative waiting
time (`RT_WAITING_FOREVER`) never does. -/
def Wakeup.possible (time : Int) : Wakeup → Bool
  | .token => true
  | .timeout => decide (0 ≤ time)

/-! ## Semaphores -/

/-- `struct rt_semaphore`; `value` is 16 bits wide. -/
structure RtSem where
  value : Nat
  suspendThread : List RtThread
  flag : IpcFlag
deriving Repr, DecidableEq

/-- The values of the 16-bit counter. -/
def rtSemValueMod : Nat := 0x10000

/-- `rt_sem_create` / `rt_sem_init`: the 32-bit argument is stored in the 16-bit field. -/
def rtSemInit (value : Nat) (flag : IpcFlag) : RtSem :=
  { value := value % rtSemValueMod, suspendThread := [], flag := flag }

/-- `rt_sem_take` up to the point where it returns or gives up the processor. -/
def rtSemTake (sem : RtSem) (thread : RtThread) (time : Int) : RtSem × Blocking :=
  if 0 < sem.value then
    ({ sem with value := sem.value - 1 }, .returns rtEok)
  else if time = 0 then
    (sem, .returns (-rtEtimeout))
  else
    ({ sem with suspendThread := rtIpcListSuspend sem.suspendThread thread sem.flag }, .suspends)

/-- `rt_sem_release`: resume the first waiter, or count the token. -/
def rtSemRelease (sem : RtSem) : RtSem × Option RtThread :=
  match sem.suspendThread with
  | thread :: rest => ({ sem with suspendThread := rest }, some thread)
  | [] => ({ sem with value := (sem.value + 1) % rtSemValueMod }, none)

/-- `rt_sem_control` with `RT_IPC_CMD_RESET`: all waiters are resumed, and the value is
a new one. -/
def rtSemControl (sem : RtSem) (value : Nat) : RtSem × List RtThread :=
  ({ sem with value := value % rtSemValueMod, suspendThread := [] }, sem.suspendThread)

/-- `rt_thread_timeout` of a thread that waits on the semaphore: it leaves the
suspend list without a token. -/
def rtSemTimeout (sem : RtSem) (thread : RtThread) : RtSem :=
  { sem with suspendThread := sem.suspendThread.erase thread }

/-! ## Events -/

/-- `RT_EVENT_FLAG_AND`, `RT_EVENT_FLAG_OR`, `RT_EVENT_FLAG_CLEAR`. -/
def rtEventFlagAnd : BitVec 8 := 0x01
def rtEventFlagOr : BitVec 8 := 0x02
def rtEventFlagClear : BitVec 8 := 0x04

/-- A thread suspended on an event, with the `event_set` and `event_info` it filled
in before. -/
structure EventWaiter where
  thread : RtThread
  eventSet : BitVec 32
  eventInfo : BitVec 8
deriving Repr, DecidableEq

/-- `struct rt_event`. -/
structure RtEvent where
  set : BitVec 32
  suspendThread : List EventWaiter
deriving Repr, DecidableEq

/-- `rt_event_init`. -/
def rtEventInit : RtEvent := { set := 0, suspendThread := [] }

/-- The wait condition: all of the wanted flags, or any of them. Neither option set
satisfies nothing. -/
def eventSatisfied (set wanted : BitVec 32) (option : BitVec 8) : Bool :=
  if option &&& rtEventFlagAnd ≠ 0 then decide (set &&& wanted = wanted)
  else if option &&& rtEventFlagOr ≠ 0 then decide (set &&& wanted ≠ 0)
  else false

/-- What `rt_event_send` leaves in `thread->event_set` of a thread it resumes: the
flags received for an OR wait, the wanted flags for an AND wait. -/
def EventWaiter.received (w : EventWaiter) (set : BitVec 32) : EventWaiter :=
  if w.eventInfo &&& rtEventFlagAnd ≠ 0 then w
  else { w with eventSet := w.eventSet &&& set }

/-- The search through the suspend list: each satisfied waiter is resumed, and one
with `RT_EVENT_FLAG_CLEAR` takes its flags out of the set before the next is looked
at. Answers the remaining set, the waiters that stay and the ones resumed. -/
def eventSendLoop (set : BitVec 32) :
    List EventWaiter → BitVec 32 × List EventWaiter × List EventWaiter
  | [] => (set, [], [])
  | w :: ws =>
    if eventSatisfied set w.eventSet w.eventInfo then
      let w' := w.received set
      let set' := if w'.eventInfo &&& rtEventFlagClear ≠ 0 then set &&& ~~~w'.eventSet else set
      let (rest, stay, resumed) := eventSendLoop set' ws
      (rest, stay, w' :: resumed)
    else
      let (rest, stay, resumed) := eventSendLoop set ws
      (rest, w :: stay, resumed)

/-- `rt_event_send`: the event and the waiters it resumes. Sending no flag is an
error that changes nothing. -/
def rtEventSend (event : RtEvent) (set : BitVec 32) : RtEvent × List EventWaiter :=
  if set = 0 then (event, [])
  else
    let (rest, stay, resumed) := eventSendLoop (event.set ||| set) event.suspendThread
    ({ set := rest, suspendThread := stay }, resumed)

/-- How the first critical section of `rt_event_recv` ends. -/
inductive EventRecv
  | received (recved : BitVec 32)
  | timedOut
  | suspended
deriving Repr, DecidableEq

/-- `rt_event_recv` up to the point where it returns or gives up the processor. The
suspend list is the FIFO one (`rt_event_init` of this repository's event). -/
def rtEventRecv (event : RtEvent) (thread : RtThread) (set : BitVec 32) (option : BitVec 8)
    (timeout : Int) : RtEvent × EventRecv :=
  if eventSatisfied event.set set option then
    ({ event with
        set := if option &&& rtEventFlagClear ≠ 0 then event.set &&& ~~~set else event.set },
      .received (event.set &&& set))
  else if timeout = 0 then (event, .timedOut)
  else
    ({ event with suspendThread := event.suspendThread ++ [⟨thread, set, option⟩] }, .suspended)

/-! ## Completions -/

/-- `struct rt_completion`: `flag` is `RT_COMPLETED`. -/
structure RtCompletion where
  flag : Bool
  suspendedList : List RtThread
deriving Repr, DecidableEq

/-- `rt_completion_init`. -/
def rtCompletionInit : RtCompletion := { flag := false, suspendedList := [] }

/-- `rt_completion_wait` up to the point where it returns or gives up the processor. -/
def rtCompletionWait (c : RtCompletion) (thread : RtThread) (timeout : Int) :
    RtCompletion × Blocking :=
  if c.flag then ({ c with flag := false }, .returns rtEok)
  else if timeout = 0 then (c, .returns (-rtEtimeout))
  else ({ c with suspendedList := c.suspendedList ++ [thread] }, .suspends)

/-- The second critical section of `rt_completion_wait`, when the waiter runs again:
the flag is cleaned whoever ended the wait. -/
def rtCompletionResume (c : RtCompletion) : RtCompletion := { c with flag := false }

/-- `rt_completion_done`: answers the thread it resumes. -/
def rtCompletionDone (c : RtCompletion) : RtCompletion × Option RtThread :=
  if c.flag then (c, none)
  else
    match c.suspendedList with
    | thread :: rest => ({ flag := true, suspendedList := rest }, some thread)
    | [] => ({ c with flag := true }, none)

/-- `rt_thread_timeout` of a thread that waits on the completion. -/
def rtCompletionTimeout (c : RtCompletion) (thread : RtThread) : RtCompletion :=
  { c with suspendedList := c.suspendedList.erase thread }

end RtVcom.Kernel
