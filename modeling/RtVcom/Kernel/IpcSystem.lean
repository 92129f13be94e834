import RtVcom.Kernel.Waiting
import RtVcom.Kernel.Scheduling

/-!
# The objects over the scheduler

The calls of `src/ipc.c` on the threads of `Kernel.Scheduler`, for any number of semaphores,
mutexes, events, mailboxes and message queues. An object is here what its calls decide by whether
to wait and whom to wake; the messages are not.

A call disables the interrupts for its critical sections. Between them, and between the last of
them and its `rt_schedule`, interrupts come, and their calls may switch to other threads: each
thread and each interrupt that was interrupted has a place in its call (`CallPlace`).

A call has no result where the source does not allow it (one that waits, in an interrupt), where it
would follow a null pointer, and where its walk along a list does not end.
-/

namespace RtVcom.Kernel

open RtVcom.Lib

/-! ## The state -/

/-- What the calls look at. Of a message queue, the numbers of messages in its two lists. Nothing
reads the original priority of a mutex that has no owner. -/
inductive IpcObject (n : Nat)
  | sem (value : BitVec 16)
  | mutex (value : BitVec 16) (owner : Option (Fin n)) (originalPriority : Priority)
      (hold : BitVec 8)
  | event (set : BitVec 32)
  | mailbox (size entry : BitVec 16)
  | messageQueue (msgSize free queued : Nat) (entry : BitVec 16)
  | detached
deriving Repr, DecidableEq

/-- The two suspend lists of an object among all lists. Only a mailbox has the second. -/
def suspendThread (o : Nat) : Nat := 2 * o
def suspendSenderThread (o : Nat) : Nat := 2 * o + 1

inductive WaitKind
  | mbSendWait
  | mbRecv
  | mqRecv
deriving Repr, DecidableEq

/-- A call that looks at its object again when it is resumed. -/
structure WaitLoop where
  kind : WaitKind
  object : Nat
  wait : IpcWait
deriving Repr, DecidableEq

/-- The list that the call waits in. -/
def WaitLoop.list (call : WaitLoop) : Nat :=
  match call.kind with
  | .mbSendWait => suspendSenderThread call.object
  | .mbRecv | .mqRecv => suspendThread call.object

/-- What a thread or an interrupt does next: nothing of the kernel, an `rt_schedule`, or the next
critical section of its call. A thread that has ended does nothing any more. -/
inductive CallPlace
  | out
  | schedule (next : CallPlace)
  | slept
  | look (call : WaitLoop)
  | linking (o : Nat)
  | puttingBack (o : Nat)
  | detaching (o : Nat) (lists : List Nat)
  | ended
deriving Repr, DecidableEq

/-- An `rt_schedule` is to come. -/
def CallPlace.pending : CallPlace → Bool
  | .schedule _ => true
  | _ => false

structure IpcState (n : Nat) where
  sched : Sched n
  tick : BitVec 32
  error : Fin n → Int
  eventSet : Fin n → BitVec 32
  eventInfo : Fin n → BitVec 8
  object : Nat → IpcObject n

/-- The calls. `startup`, `delete` and `resume` name another thread; `suspend` is
`rt_thread_suspend` of the caller, and it and `resume` are followed by an `rt_schedule` of the
caller. -/
inductive IpcCall (n : Nat)
  | semTake (o : Nat) (time : BitVec 32)
  | semRelease (o : Nat)
  | semControl (o : Nat) (cmd : Int) (arg : BitVec 32)
  | mutexTake (o : Nat) (time : BitVec 32)
  | mutexRelease (o : Nat)
  | mutexControl (o : Nat) (cmd : Int)
  | eventSend (o : Nat) (set : BitVec 32)
  | eventRecv (o : Nat) (set : BitVec 32) (option : BitVec 8) (timeout : BitVec 32)
  | eventControl (o : Nat) (cmd : Int)
  | mbSendWait (o : Nat) (timeout : BitVec 32)
  | mbRecv (o : Nat) (timeout : BitVec 32)
  | mbControl (o : Nat) (cmd : Int)
  | mqSend (o size : Nat)
  | mqRecv (o : Nat) (timeout : BitVec 32)
  | mqControl (o : Nat) (cmd : Int)
  | detach (o : Nat)
  | startup (u : Fin n)
  | delete (u : Fin n)
  | suspend
  | resume (u : Fin n)
  | sleep
  | exit
  | yield
  | enterCritical
  | exitCritical
  | tick
  | timeout (u : Fin n)
deriving Repr, DecidableEq

/-- The state after a piece of a call, and where the call is then. -/
abbrev IpcResult (n : Nat) : Type := IpcState n × CallPlace

namespace IpcState

variable {n : Nat}

def setError (k : IpcState n) (t : Fin n) (error : Int) : IpcState n :=
  { k with error := Function.update k.error t error }

def setObject (k : IpcState n) (o : Nat) (object : IpcObject n) : IpcState n :=
  { k with object := Function.update k.object o object }

/-! ## Suspend lists -/

/-- `!rt_list_isempty` of a suspend list. -/
def waiting (k : IpcState n) (list : Nat) : Bool :=
  decide (k.sched.links.next (.inl (.wait list)) ≠ .inl (.wait list))

/-- `rt_ipc_list_resume`. -/
def resume (k : IpcState n) (list : Nat) : Option (IpcState n) :=
  (k.sched.ipcListResume list).map fun sched => { k with sched }

/-- The first thread of a list is woken, if there is one, and the caller is to schedule. -/
def wake (k : IpcState n) (list : Nat) : Option (IpcResult n) :=
  if k.waiting list then (k.resume list).map fun k => (k, .schedule .out) else some (k, .out)

/-- One turn of `rt_ipc_list_resume_all`. -/
def resumeFailed (k : IpcState n) (u : Fin n) : IpcState n :=
  { k.setError u (-rtError) with sched := (k.sched.resume u).1 }

/-- `rt_ipc_list_resume_all`, for at most `fuel` turns. -/
def resumeAll (list : Nat) : Nat → IpcState n → Option (IpcState n)
  | 0, _ => none
  | fuel + 1, k =>
    match k.sched.links.next (.inl (.wait list)) with
    | .inr u => resumeAll list fuel (k.resumeFailed u)
    | .inl h => if h = .wait list then some k else none

/-- The caller comes to a suspend list, with its timer where the waiting time has an end. -/
def suspendIn (k : IpcState n) (t : Fin n) (list : Nat) (flag : IpcFlag) (time : BitVec 32)
    (next : CallPlace) : Option (IpcResult n) :=
  (k.sched.ipcListSuspend list t flag).map fun sched =>
    ({ k with sched := if 0 < time.toInt then sched.setTimer t true else sched }, .schedule next)

/-- The lists of an object. -/
def lists : IpcObject n → Nat → List Nat
  | .mailbox _ _, o => [suspendThread o, suspendSenderThread o]
  | _, o => [suspendThread o]

/-- `RT_IPC_CMD_RESET` of the calls `rt_sem_control`, `rt_event_control`, `rt_mb_control` and
`rt_mq_control`, which refuse any other command. -/
def reset (k : IpcState n) (o : Nat) (cmd : Int) (object : IpcObject n) : Option (IpcResult n) :=
  if cmd = rtIpcCmdReset then
    ((lists object o).foldlM (fun k list => resumeAll list (n + 1) k) k).map fun k =>
      (k.setObject o object, .schedule .out)
  else some (k, .out)

/-- `rt_sem_detach`, `rt_sem_delete` and those of the other objects: a turn of
`rt_ipc_list_resume_all`, or the end of it for one list. -/
def detach (k : IpcState n) (o : Nat) : List Nat → Option (IpcResult n)
  | [] => some (k.setObject o .detached, .out)
  | list :: rest =>
    match k.sched.links.next (.inl (.wait list)) with
    | .inr u => some (k.resumeFailed u, .detaching o (list :: rest))
    | .inl _ => some (k, .detaching o rest)

/-! ## Semaphores -/

variable (flag : Nat → IpcFlag) (inThread : Bool) (k : IpcState n) (t : Fin n) (o : Nat)

/-- `rt_sem_take`. -/
def semTake (time : BitVec 32) : Option (IpcResult n) :=
  match k.object o with
  | .sem value =>
    if 0 < value then some (k.setObject o (.sem (value - 1)), .out)
    else if time = 0 then some (k, .out)
    else if inThread then (k.setError t rtEok).suspendIn t (suspendThread o) (flag o) time .out
    else none
  | _ => none

/-- `rt_sem_release`. -/
def semRelease : Option (IpcResult n) :=
  match k.object o with
  | .sem value =>
    if k.waiting (suspendThread o) then k.wake (suspendThread o)
    else some (k.setObject o (.sem (value + 1)), .out)
  | _ => none

/-- `rt_sem_control`. -/
def semControl (cmd : Int) (arg : BitVec 32) : Option (IpcResult n) :=
  match k.object o with
  | .sem _ => k.reset o cmd (.sem (arg.setWidth 16))
  | _ => none

/-! ## Mutexes -/

/-- The owner takes the priority of a thread that is more urgent. -/
def lend (u : Fin n) : IpcState n :=
  if (k.sched.thread t).currentPriority < (k.sched.thread u).currentPriority then
    { k with sched := k.sched.changePriority u (k.sched.thread t).currentPriority }
  else k

/-- `rt_mutex_take`. -/
def mutexTake (time : BitVec 32) : Option (IpcResult n) :=
  match k.object o with
  | .mutex value owner originalPriority hold =>
    let k := k.setError t rtEok
    if owner = some t then
      some (k.setObject o (.mutex value owner originalPriority (hold + 1)), .out)
    else if 0 < value then
      some (k.setObject o
        (.mutex (value - 1) (some t) (k.sched.thread t).currentPriority (hold + 1)), .out)
    else if time = 0 then some (k.setError t (-rtEtimeout), .out)
    else
      owner.bind fun u => (k.lend t u).suspendIn t (suspendThread o) (flag o) time .out
  | _ => none

/-- The caller has the priority again that it took the mutex with. -/
def restore (originalPriority : Priority) : IpcState n :=
  if originalPriority ≠ (k.sched.thread t).currentPriority then
    { k with sched := k.sched.changePriority t originalPriority }
  else k

/-- `rt_mutex_release`. -/
def mutexRelease : Option (IpcResult n) :=
  match k.object o with
  | .mutex value owner originalPriority hold =>
    if owner ≠ some t then some (k.setError t (-rtError), .out)
    else if hold - 1 ≠ 0 then
      some (k.setObject o (.mutex value owner originalPriority (hold - 1)), .out)
    else
      let k := k.restore t originalPriority
      match k.sched.links.next (.inl (.wait (suspendThread o))) with
      | .inr u =>
        (k.setObject o (.mutex value (some u) (k.sched.thread u).currentPriority 1)).wake
          (suspendThread o)
      | .inl _ => some (k.setObject o (.mutex (value + 1) none originalPriority 0), .out)
  | _ => none

/-! ## Events -/

/-- What `rt_event_send` does with a thread that has what it waits for. -/
def receive (u : Fin n) (set : BitVec 32) : IpcState n :=
  let received :=
    if k.eventInfo u &&& rtEventFlagAnd ≠ 0 then k.eventSet u else k.eventSet u &&& set
  let k := k.setObject o
    (.event (if k.eventInfo u &&& rtEventFlagClear ≠ 0 then set &&& ~~~received else set))
  { k with sched := (k.sched.resume u).1, eventSet := Function.update k.eventSet u received }

/-- The walk of `rt_event_send` over at most `fuel` nodes, and whether it has resumed a thread. -/
def sendWalk (o : Nat) :
    Nat → IpcState n → ListHead ⊕ Fin n → Bool → Option (IpcState n × Bool)
  | 0, _, _, _ => none
  | fuel + 1, k, .inr u, needSchedule =>
    let next := k.sched.links.next (.inr u)
    match k.object o with
    | .event set =>
      if eventSatisfied set (k.eventSet u) (k.eventInfo u) then
        sendWalk o fuel (k.receive o u set) next true
      else sendWalk o fuel k next needSchedule
    | _ => none
  | _ + 1, k, .inl h, needSchedule =>
    if h = .wait (suspendThread o) then some (k, needSchedule) else none

/-- `rt_event_send`. -/
def eventSend (set : BitVec 32) : Option (IpcResult n) :=
  match k.object o with
  | .event now =>
    if set = 0 then some (k, .out)
    else
      let k := k.setObject o (.event (now ||| set))
      (sendWalk o (n + 1) k (k.sched.links.next (.inl (.wait (suspendThread o)))) false).map
        fun (k, needSchedule) => (k, if needSchedule then .schedule .out else .out)
  | _ => none

/-- The event info of a thread that is going to wait. -/
def expect (set : BitVec 32) (option : BitVec 8) : IpcState n :=
  { k with
      eventSet := Function.update k.eventSet t set
      eventInfo := Function.update k.eventInfo t option }

/-- `rt_event_recv`. -/
def eventRecv (set : BitVec 32) (option : BitVec 8) (timeout : BitVec 32) :
    Option (IpcResult n) :=
  match k.object o with
  | .event now =>
    if set = 0 then some (k, .out)
    else
      let k := k.setError t rtEok
      if eventSatisfied now set option then
        some (k.setObject o
          (.event (if option &&& rtEventFlagClear ≠ 0 then now &&& ~~~set else now)), .out)
      else if timeout = 0 then some (k.setError t (-rtEtimeout), .out)
      else (k.expect t set option).suspendIn t (suspendThread o) (flag o) timeout .out
  | _ => none

/-- `rt_event_control`. -/
def eventControl (cmd : Int) : Option (IpcResult n) :=
  match k.object o with
  | .event _ => k.reset o cmd (.event 0)
  | _ => none

/-! ## Mailboxes and message queues -/

/-- The condition of the loops of `rt_mb_send_wait`, `rt_mb_recv` and `rt_mq_recv`. -/
def blocks (call : WaitLoop) : Bool :=
  match call.kind, k.object call.object with
  | .mbSendWait, .mailbox size entry => decide (entry = size)
  | .mbRecv, .mailbox _ entry => decide (entry = 0)
  | .mqRecv, .messageQueue _ _ _ entry => decide (entry = 0)
  | _, _ => false

/-- The call behind its loop. -/
def finish (call : WaitLoop) : Option (IpcResult n) :=
  match call.kind, k.object call.object with
  | .mbSendWait, .mailbox size entry =>
    (k.setObject call.object (.mailbox size (entry + 1))).wake (suspendThread call.object)
  | .mbRecv, .mailbox size entry =>
    (k.setObject call.object (.mailbox size (entry - 1))).wake (suspendSenderThread call.object)
  | .mqRecv, .messageQueue msgSize free (queued + 1) entry =>
    some (k.setObject call.object (.messageQueue msgSize free queued (entry - 1)),
      .puttingBack call.object)
  | _, _ => none

/-- The error of a call that does not wait any longer: that of a sender is only returned. -/
def refused : WaitKind → Int
  | .mbSendWait => rtEok
  | .mbRecv | .mqRecv => -rtEtimeout

/-- A pass of the loop. -/
def pass (call : WaitLoop) : Option (IpcResult n) :=
  if k.blocks call then
    if call.wait.timeout = 0 then some (k.setError t (refused call.kind), .out)
    else if inThread then
      (k.setError t rtEok).suspendIn t call.list (flag call.object) call.wait.timeout
        (.look { call with wait := call.wait.started k.tick })
    else none
  else k.finish call

/-- The call up to its first `rt_schedule`. -/
def enter (call : WaitLoop) : Option (IpcResult n) :=
  if k.blocks call ∧ call.wait.timeout = 0 then some (k, .out) else k.pass flag inThread t call

/-- The caller behind `rt_schedule`. -/
def again (call : WaitLoop) : Option (IpcResult n) :=
  if k.error t ≠ rtEok then some (k, .out)
  else k.pass flag inThread t { call with wait := call.wait.recalculated k.tick }

/-- `rt_mb_control`. -/
def mbControl (cmd : Int) : Option (IpcResult n) :=
  match k.object o with
  | .mailbox size _ => k.reset o cmd (.mailbox size 0)
  | _ => none

/-- `rt_mq_send` and `rt_mq_urgent` of a message of `size` bytes, up to its copy. -/
def mqSend (size : Nat) : Option (IpcResult n) :=
  match k.object o with
  | .messageQueue msgSize free queued entry =>
    if msgSize < size ∨ free = 0 then some (k, .out)
    else some (k.setObject o (.messageQueue msgSize (free - 1) queued entry), .linking o)
  | _ => none

/-- The message is linked. -/
def link : Option (IpcResult n) :=
  match k.object o with
  | .messageQueue msgSize free queued entry =>
    (k.setObject o (.messageQueue msgSize free (queued + 1) (entry + 1))).wake (suspendThread o)
  | _ => none

/-- `rt_mq_recv` behind its copy. -/
def putBack : Option (IpcResult n) :=
  match k.object o with
  | .messageQueue msgSize free queued entry =>
    some (k.setObject o (.messageQueue msgSize (free + 1) queued entry), .out)
  | _ => none

/-- `rt_mq_control`. -/
def mqControl (cmd : Int) : Option (IpcResult n) :=
  match k.object o with
  | .messageQueue msgSize free queued _ => k.reset o cmd (.messageQueue msgSize (free + queued) 0 0)
  | _ => none

/-! ## Threads and the clock -/

/-- `rt_thread_startup` up to its `rt_schedule`. -/
def startup (u : Fin n) : IpcState n :=
  { k with
      sched := ((k.sched.setThread u (Sched.prepared (k.sched.thread u))).resume u).1 }

/-- `rt_thread_exit` of the caller. -/
def exit : IpcState n :=
  let systemobject := (k.sched.thread t).systemobject ∧ ¬(k.sched.thread t).cleanup
  { k with sched := if systemobject then k.sched.ended t else (k.sched.ended t).bury t }

/-- `rt_tick_increase` before the check of the timers. -/
def tickIncrease : IpcResult n :=
  let k := { k with tick := k.tick + 1 }
  let remainingTick := (k.sched.thread t).remainingTick - 1
  if remainingTick = 0 then
    ({ k with sched := k.sched.setTick t (k.sched.thread t).initTick }, .schedule .out)
  else ({ k with sched := k.sched.setTick t remainingTick }, .out)

/-- `rt_exit_critical` up to its `rt_schedule`. -/
def exitCritical : IpcResult n :=
  let lockNest := k.sched.lockNest - 1
  if lockNest.toInt ≤ 0 then ({ k with sched := { k.sched with lockNest := 0 } }, .schedule .out)
  else ({ k with sched := { k.sched with lockNest := lockNest } }, .out)

/-- `rt_thread_timeout`. -/
def timeout (u : Fin n) : IpcState n :=
  { k.setError u (-rtEtimeout) with sched := k.sched.woken u }

/-! ## The pieces of a call -/

/-- The first piece of a call of the running thread `t`, or of an interrupt while it runs. The
calls that need a thread of their own are not for interrupts, and the clock is for nobody else. -/
def call : IpcCall n → Option (IpcResult n)
  | .semTake o time => k.semTake flag inThread t o time
  | .semRelease o => k.semRelease o
  | .semControl o cmd arg => k.semControl o cmd arg
  | .mutexTake o time => if inThread then k.mutexTake flag t o time else none
  | .mutexRelease o => if inThread then k.mutexRelease t o else none
  | .mutexControl _ _ => some (k, .out)
  | .eventSend o set => k.eventSend o set
  | .eventRecv o set option timeout =>
    if inThread then k.eventRecv flag t o set option timeout else none
  | .eventControl o cmd => k.eventControl o cmd
  | .mbSendWait o timeout => k.enter flag inThread t ⟨.mbSendWait, o, ipcWait t.val timeout⟩
  | .mbRecv o timeout => k.enter flag inThread t ⟨.mbRecv, o, ipcWait t.val timeout⟩
  | .mbControl o cmd => k.mbControl o cmd
  | .mqSend o size => k.mqSend o size
  | .mqRecv o timeout => k.enter flag inThread t ⟨.mqRecv, o, ipcWait t.val timeout⟩
  | .mqControl o cmd => k.mqControl o cmd
  | .detach o =>
    if k.object o = .detached then none else some (k, .detaching o (lists (k.object o) o))
  | .startup u =>
    if (k.sched.thread u).stat = .init then some (k.startup u, .schedule .out) else none
  | .delete u =>
    if (k.sched.thread u).stat ≠ .close ∧ u ≠ t then
      some ({ k with sched := k.sched.delete u }, .out)
    else none
  | .suspend =>
    if inThread then some ({ k with sched := (k.sched.suspend t).1 }, .schedule .out) else none
  | .resume u => some ({ k with sched := (k.sched.resume u).1 }, .schedule .out)
  | .sleep =>
    if inThread then
      some ({ k with sched := (k.sched.suspend t).1.setTimer t true }, .schedule .slept)
    else none
  | .exit => if inThread then some (k.exit t, .schedule .ended) else none
  | .yield => some (k, .schedule .out)
  | .enterCritical => some ({ k with sched := k.sched.enterCritical }, .out)
  | .exitCritical => some k.exitCritical
  | .tick => if inThread then none else some (k.tickIncrease t)
  | .timeout u =>
    if ¬inThread ∧ (k.sched.thread u).timer then some (k.timeout u, .schedule .out) else none

/-- The next piece of a call. -/
def goOn : CallPlace → Option (IpcResult n)
  | .out => none
  | .schedule next => k.sched.schedule.map fun sched => ({ k with sched }, next)
  | .slept =>
    some (if k.error t = -rtEtimeout then k.setError t rtEok else k, .out)
  | .look call => k.again flag inThread t call
  | .linking o => k.link o
  | .puttingBack o => k.putBack o
  | .detaching o lists => k.detach o lists
  | .ended => none

end IpcState

/-! ## The system -/

/-- `irq` is where the interrupts are that are under way, the innermost first. -/
structure IpcSystem (n : Nat) where
  state : IpcState n
  place : Fin n → CallPlace
  irq : List CallPlace

/-- An interrupt comes, makes calls and leaves; the running thread makes calls where none is under
way. Threads are started before the scheduler is. -/
inductive IpcAction (n : Nat)
  | startup (u : Fin n)
  | schedulerStart
  | interrupt
  | leave
  | call (c : IpcCall n)
  | goOn
deriving Repr, DecidableEq

namespace IpcSystem

variable {n : Nat}

/-- The place of the innermost interrupt, or of the running thread. -/
def context (s : IpcSystem n) (t : Fin n) : CallPlace :=
  match s.irq with
  | place :: _ => place
  | [] => s.place t

/-- It comes to another place. -/
def comesTo (s : IpcSystem n) (t : Fin n) (r : IpcResult n) : IpcSystem n :=
  match s.irq with
  | _ :: rest => { s with state := r.1, irq := r.2 :: rest }
  | [] => { s with state := r.1, place := Function.update s.place t r.2 }

/-- The innermost interrupt is over. -/
def leave (s : IpcSystem n) : Option (IpcSystem n) :=
  match s.irq with
  | .out :: rest => some { s with irq := rest }
  | _ => none

def step (flag : Nat → IpcFlag) (s : IpcSystem n) : IpcAction n → Option (IpcSystem n)
  | .startup u =>
    if s.state.sched.current = none ∧ (s.state.sched.thread u).stat = .init then
      some { s with state := s.state.startup u }
    else none
  | .schedulerStart =>
    if s.state.sched.current = none then
      s.state.sched.schedulerStart.map fun sched => { s with state := { s.state with sched } }
    else none
  | .interrupt => s.state.sched.current.map fun _ => { s with irq := .out :: s.irq }
  | .leave => s.leave
  | .call c => s.state.sched.current.bind fun t =>
    if s.context t = .out then (s.state.call flag s.irq.isEmpty t c).map (s.comesTo t) else none
  | .goOn => s.state.sched.current.bind fun t =>
    (s.state.goOn flag s.irq.isEmpty t (s.context t)).map (s.comesTo t)

end IpcSystem

/-- Threads after `rt_thread_init`, objects as they were initialized, and every interleaving of
calls and interrupts. -/
def ipcMachine {n : Nat} (spec : Fin n → ThreadSpec) (flag : Nat → IpcFlag)
    (object : Nat → IpcObject n) : Machine (IpcSystem n) (IpcAction n) where
  init :=
    { state :=
        { sched := Sched.init fun t =>
            rtThreadInit (spec t).priority (spec t).tick (spec t).systemobject (spec t).cleanup
          tick := 0
          error := fun _ => rtEok
          eventSet := fun _ => 0
          eventInfo := fun _ => 0
          object }
      place := fun _ => .out
      irq := [] }
  step := IpcSystem.step flag

end RtVcom.Kernel
