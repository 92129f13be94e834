import RtVcom.Lib.Machine
import RtVcom.Lib.Linked
import RtVcom.Lib.Deque
import RtVcom.Kernel.Mem
import RtVcom.Kernel.Waiting

/-!
# Message queues

A message queue of `src/ipc.c`. The pool is divided into nodes, each with a pointer to a next node
and room for one message, and two lists run through them: the free nodes and the messages. A sender
takes a free node, copies its message into it with interrupts enabled, and links it in a second
critical section; a receiver detaches the first message, copies it out, and frees the node. In
between a node is in no list.

Everything the calls do is one step each here: a critical section, the store of a pointer outside
of one, the copy of a byte. So the steps of any number of threads and interrupts may follow each
other in any order.
-/

namespace RtVcom.Kernel

open RtVcom.Lib

/-! ## The queue -/

/-- The values of the 16-bit fields. -/
def mqFieldMod : Nat := 0x10000

/-- A thread within `rt_mq_recv`. -/
structure MqCall where
  wait : IpcWait
  size : Nat
deriving Repr, DecidableEq

def MqCall.thread (call : MqCall) : Nat := call.wait.thread

/-- `struct rt_messagequeue` and the nodes of its pool, which are known by their numbers: the
`next` of each, and the bytes behind it. -/
structure RtMq where
  msgSize : Nat
  maxMsgs : Nat
  entry : Nat
  next : Nat → Option Nat
  bytes : Nat → Nat → BitVec 8
  msgQueueHead : Option Nat
  msgQueueTail : Option Nat
  msgQueueFree : Option Nat
  flag : IpcFlag
  suspendThread : List MqCall

namespace RtMq

/-- A node is put in front of the free ones. -/
def putFree (mq : RtMq) (msg : Nat) : RtMq :=
  { mq with
      next := Function.update mq.next msg mq.msgQueueFree
      msgQueueFree := some msg }

/-- The loop of `rt_mq_init` over the first `temp` nodes. -/
def initFree (mq : RtMq) : Nat → RtMq
  | 0 => mq
  | temp + 1 => (mq.initFree temp).putFree temp

/-- `mq->entry ++`. -/
def countUp (mq : RtMq) : RtMq := { mq with entry := (mq.entry + 1) % mqFieldMod }

/-- The second critical section of `rt_mq_send`. -/
def linkTail (mq : RtMq) (msg : Nat) : RtMq :=
  { mq with
      next :=
        match mq.msgQueueTail with
        | some tail => Function.update mq.next tail (some msg)
        | none => mq.next
      msgQueueTail := some msg
      msgQueueHead := if mq.msgQueueHead = none then some msg else mq.msgQueueHead }.countUp

/-- The second critical section of `rt_mq_urgent`. -/
def linkHead (mq : RtMq) (msg : Nat) : RtMq :=
  { mq with
      next := Function.update mq.next msg mq.msgQueueHead
      msgQueueHead := some msg
      msgQueueTail := if mq.msgQueueTail = none then some msg else mq.msgQueueTail }.countUp

/-- The message at the head is taken out of the list. -/
def unlink (mq : RtMq) (msg : Nat) : RtMq :=
  { mq with
      msgQueueHead := mq.next msg
      msgQueueTail := if mq.msgQueueTail = some msg then none else mq.msgQueueTail }

/-- The loop of `rt_mq_control` over all messages, for as many as `fuel` says. -/
def release : Nat → RtMq → RtMq
  | 0, mq => mq
  | fuel + 1, mq =>
    match mq.msgQueueHead with
    | none => mq
    | some msg => release fuel ((mq.unlink msg).putFree msg)

/-- `rt_mq_control` with `RT_IPC_CMD_RESET`. -/
def reset (mq : RtMq) : RtMq :=
  { mq.release mq.maxMsgs with entry := 0, suspendThread := [] }

/-- One byte of a message is stored behind the header of a node. -/
def store (mq : RtMq) (msg offset : Nat) (byte : BitVec 8) : RtMq :=
  { mq with bytes := Function.update mq.bytes msg (Function.update (mq.bytes msg) offset byte) }

end RtMq

/-- The queue before its nodes are freed. -/
def rtMqBlank (next : Nat → Option Nat) (bytes : Nat → Nat → BitVec 8) (msgSize maxMsgs : Nat)
    (flag : IpcFlag) : RtMq where
  msgSize := rtAlign msgSize % mqFieldMod
  maxMsgs := maxMsgs % mqFieldMod
  entry := 0
  next := next
  bytes := bytes
  msgQueueHead := none
  msgQueueTail := none
  msgQueueFree := none
  flag := flag
  suspendThread := []

/-- What `rt_mq_init` and `rt_mq_create` do with a pool of any content. -/
def rtMqMake (next : Nat → Option Nat) (bytes : Nat → Nat → BitVec 8) (msgSize maxMsgs : Nat)
    (flag : IpcFlag) : RtMq :=
  let mq := rtMqBlank next bytes msgSize maxMsgs flag
  mq.initFree mq.maxMsgs

/-! ## The calls -/

/-- A message that was linked, as the `serial`-th. -/
structure MqMessage where
  serial : Nat
  bytes : List (BitVec 8)
deriving Repr, DecidableEq

/-- A call of `rt_mq_send` or `rt_mq_urgent` between its critical sections. -/
structure MqSending where
  caller : Nat
  node : Nat
  urgent : Bool
  buffer : List (BitVec 8)
  cleared : Bool
  copied : Nat
deriving Repr, DecidableEq

/-- A call of `rt_mq_recv` between its last critical sections, with the bytes it has copied, and
the message that was linked in its node. -/
structure MqReceiving where
  caller : Nat
  node : Nat
  size : Nat
  got : List (BitVec 8)
  message : MqMessage
deriving Repr, DecidableEq

/-- A message that was received into a buffer of `size` bytes. -/
structure MqReceipt where
  caller : Nat
  size : Nat
  got : List (BitVec 8)
  message : MqMessage
deriving Repr, DecidableEq

/-- A call that returned. -/
structure MqReturn where
  caller : Nat
  err : Int
deriving Repr, DecidableEq

/-- A message queue, the tick and the priorities, the receivers that were resumed with their
`thread->error`, the calls between their critical sections, and what happened: which message was
linked in which node, what the queue took and gave, the receipts and the returns. -/
structure MqSystem where
  mq : RtMq
  tick : BitVec 32
  priority : Nat → Nat
  resumed : List (MqCall × Int)
  sending : List MqSending
  receiving : List MqReceiving
  content : Nat → MqMessage
  linked : Nat
  events : List (DequeEvent MqMessage)
  receipts : List MqReceipt
  returned : List MqReturn

/-- The steps: of the senders, of the receivers, a reset, the expiry of a thread timer, a resumed
receiver that runs again, the tick, and a change of a thread's priority from anywhere. -/
inductive MqAction
  | send (caller : Nat) (urgent : Bool) (buffer : List (BitVec 8))
  | clear (caller : Nat)
  | copyIn (caller : Nat)
  | link (caller : Nat)
  | recv (caller size : Nat) (timeout : BitVec 32)
  | copyOut (caller : Nat)
  | putBack (caller : Nat)
  | control (cmd : Int)
  | timeout (caller : Nat)
  | run (caller : Nat)
  | tick
  | changePriority (thread priority : Nat)
deriving Repr, DecidableEq

namespace MqSystem

/-- Who is within a call. -/
def callers (s : MqSystem) : List Nat :=
  s.mq.suspendThread.map MqCall.thread ++ s.resumed.map (fun r => r.1.thread) ++
    s.sending.map MqSending.caller ++ s.receiving.map MqReceiving.caller

def returns (s : MqSystem) (caller : Nat) (err : Int) : MqSystem :=
  { s with returned := s.returned ++ [{ caller, err }] }

/-- `rt_mq_send` and `rt_mq_urgent` up to the end of the first critical section. -/
def send (s : MqSystem) (caller : Nat) (urgent : Bool) (buffer : List (BitVec 8)) : MqSystem :=
  if s.mq.msgSize < buffer.length then s.returns caller (-rtError)
  else
    match s.mq.msgQueueFree with
    | none => s.returns caller (-rtEfull)
    | some msg =>
      { s with
          mq := { s.mq with msgQueueFree := s.mq.next msg }
          sending := s.sending ++
            [{ caller, node := msg, urgent, buffer, cleared := false, copied := 0 }] }

/-- `msg->next = RT_NULL` of `rt_mq_send`. -/
def clear (s : MqSystem) (f : MqSending) : MqSystem :=
  { s with
      mq := { s.mq with next := Function.update s.mq.next f.node none }
      sending := s.sending.erase f ++ [{ f with cleared := true }] }

/-- One byte of `rt_memcpy(msg + 1, buffer, size)`. -/
def copyIn (s : MqSystem) (f : MqSending) : MqSystem :=
  { s with
      mq := s.mq.store f.node f.copied (f.buffer.getD f.copied 0)
      sending := s.sending.erase f ++ [{ f with copied := f.copied + 1 }] }

/-- The first waiting receiver is resumed. -/
def resume (s : MqSystem) : MqSystem :=
  match s.mq.suspendThread with
  | [] => s
  | call :: rest =>
    { s with mq := { s.mq with suspendThread := rest }, resumed := s.resumed ++ [(call, rtEok)] }

/-- The second critical section of `rt_mq_send` and `rt_mq_urgent`. -/
def link (s : MqSystem) (f : MqSending) : MqSystem :=
  let message : MqMessage := { serial := s.linked, bytes := f.buffer }
  { s with
      mq := if f.urgent then s.mq.linkHead f.node else s.mq.linkTail f.node
      sending := s.sending.erase f
      content := Function.update s.content f.node message
      linked := s.linked + 1
      events := s.events ++ [if f.urgent then DequeEvent.pushFront message else DequeEvent.pushBack message]
    }.resume.returns f.caller rtEok

/-- `rt_mq_recv` up to the end of a critical section: it returns, gives up the processor, or has
detached a message. -/
def turn (s : MqSystem) (call : MqCall) : MqSystem :=
  if s.mq.entry = 0 then
    if call.wait.timeout = 0 then s.returns call.thread (-rtEtimeout)
    else
      let waiter := { call with wait := call.wait.started s.tick }
      { s with mq := { s.mq with
          suspendThread :=
            ipcSuspend s.priority MqCall.thread s.mq.suspendThread waiter s.mq.flag } }
  else
    match s.mq.msgQueueHead with
    | none => s
    | some msg =>
      { s with
          mq := { s.mq.unlink msg with entry := (s.mq.entry - 1) % mqFieldMod }
          receiving := s.receiving ++
            [{ caller := call.thread
               node := msg
               size := call.size
               got := []
               message := s.content msg }]
          events := s.events ++ [.popFront (s.content msg)] }

/-- How many bytes a receiver copies. -/
def count (s : MqSystem) (size : Nat) : Nat := if s.mq.msgSize < size then s.mq.msgSize else size

/-- One byte of `rt_memcpy(buffer, msg + 1, ..)`. -/
def copyOut (s : MqSystem) (f : MqReceiving) : MqSystem :=
  { s with
      receiving := s.receiving.erase f ++
        [{ f with got := f.got ++ [s.mq.bytes f.node f.got.length] }] }

/-- The last critical section of `rt_mq_recv`. -/
def putBack (s : MqSystem) (f : MqReceiving) : MqSystem :=
  let receipt : MqReceipt :=
    { caller := f.caller, size := f.size, got := f.got, message := f.message }
  { s with
      mq := s.mq.putFree f.node
      receiving := s.receiving.erase f
      receipts := s.receipts ++ [receipt] }.returns f.caller rtEok

/-- `rt_mq_control`. -/
def control (s : MqSystem) (cmd : Int) : MqSystem :=
  if cmd = rtIpcCmdReset then
    { s with
        mq := s.mq.reset
        resumed := s.resumed ++ s.mq.suspendThread.map fun c => (c, -rtError)
        events := s.events ++ [.clear] }
  else s

/-- `rt_thread_timeout`. -/
def timeout (s : MqSystem) (call : MqCall) : MqSystem :=
  { s with
      mq := { s.mq with suspendThread := s.mq.suspendThread.erase call }
      resumed := s.resumed ++ [(call, -rtEtimeout)] }

/-- A resumed receiver returns its error, or looks again. -/
def run (s : MqSystem) (call : MqCall) (error : Int) : MqSystem :=
  let s := { s with resumed := s.resumed.erase (call, error) }
  if error ≠ rtEok then s.returns call.thread error
  else s.turn { call with wait := call.wait.recalculated s.tick }

end MqSystem

/-- A call that may go on with its copy: `rt_mq_send` has cleared the pointer. -/
def MqSending.Copies (f : MqSending) : Prop := f.urgent = true ∨ f.cleared = true

instance (f : MqSending) : Decidable f.Copies := inferInstanceAs (Decidable (_ ∨ _))

/-- The queue after `rt_mq_init` or `rt_mq_create`, and every interleaving of the steps of its
users. -/
def mqMachine (mq : RtMq) (tick : BitVec 32) (priority : Nat → Nat) : Machine MqSystem MqAction where
  init :=
    { mq
      tick
      priority
      resumed := []
      sending := []
      receiving := []
      content := fun _ => { serial := 0, bytes := [] }
      linked := 0
      events := []
      receipts := []
      returned := [] }
  step s
    | .send caller urgent buffer =>
      if caller ∉ s.callers then some (s.send caller urgent buffer) else none
    | .clear caller =>
      (s.sending.find? fun f => f.caller == caller && !f.urgent && !f.cleared).map s.clear
    | .copyIn caller =>
      (s.sending.find? fun f =>
        f.caller == caller && decide (f.Copies ∧ f.copied < f.buffer.length)).map s.copyIn
    | .link caller =>
      (s.sending.find? fun f =>
        f.caller == caller && decide (f.Copies ∧ f.copied = f.buffer.length)).map s.link
    | .recv caller size timeout =>
      if caller ∉ s.callers then some (s.turn { wait := ipcWait caller timeout, size }) else none
    | .copyOut caller =>
      (s.receiving.find? fun f =>
        f.caller == caller && decide (f.got.length < s.count f.size)).map s.copyOut
    | .putBack caller =>
      (s.receiving.find? fun f =>
        f.caller == caller && decide (f.got.length = s.count f.size)).map s.putBack
    | .control cmd => some (s.control cmd)
    | .timeout caller =>
      (s.mq.suspendThread.find? fun c => c.thread == caller && decide c.wait.Timed).map s.timeout
    | .run caller => (s.resumed.find? fun r => r.1.thread == caller).map fun r => s.run r.1 r.2
    | .tick => some { s with tick := s.tick + 1 }
    | .changePriority thread priority =>
      some { s with priority := fun t => if t = thread then priority else s.priority t }

end RtVcom.Kernel
