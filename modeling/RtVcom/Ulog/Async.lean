import RtVcom.Driver.RingBlock
import RtVcom.Kernel.Ipc
import RtVcom.Lib.Machine
import RtVcom.Ulog.Frame

/-!
# Asynchronous output

The asynchronous side of `ulog.c`: any number of calls of `do_output`, by threads and interrupts,
the thread `async_output_thread_entry`, and any number of callers of `ulog_flush`, which all work
on one ring of blocks, its memory and the semaphore `async_notice`. A step is one critical section,
one store, or one read of what others may change, so that a run is any interleaving of them.

`do_output` allocates a block, writes the frame, puts the block and releases the semaphore. The
thread resets the semaphore, takes it and then drains the ring; a caller of `ulog_flush` drains it
too. To drain is to get blocks until none is found, to hand each one to
`ulog_output_to_all_backend` and to free it.

Beside the code, the system knows which call allocated a block, and what was handed on for it.
-/

namespace RtVcom.Ulog

open RtVcom.Lib RtVcom.Kernel RtVcom.Driver

/-! ## The parties -/

/-- A call of `do_output`: not yet made, with cells that are still to be written, with a block that
is put and a release to come, returned, or returned without a block. -/
inductive Call
  | idle
  | filling (log : Log) (blk : Nat) (rest : List Cell)
  | releasing (log : Log) (blk : Nat)
  | done (log : Log)
  | refused
deriving Repr, DecidableEq

/-- Who drains the ring. -/
inductive Drainer
  | async
  | flush (n : Nat)
deriving Repr, DecidableEq

/-- Where `ulog_async_output` is: not called, before the look at an empty list, before the critical
section of `rt_rbb_blk_get`, with a block, with a block that is handed on. -/
inductive Drain
  | idle
  | look
  | scan
  | got (blk : Nat)
  | freeing (blk : Nat)
deriving Repr, DecidableEq

/-- Where `async_output_thread_entry` is: before `rt_sem_control`, before `rt_sem_take`, suspended
in it, in `ulog_async_output`. -/
inductive AsyncThread
  | reset
  | take
  | blocked
  | output
deriving Repr, DecidableEq

/-- `ulog.async_th` with `ULOG_ASYNC_OUTPUT_THREAD_PRIORITY`. -/
def asyncTh : RtThread := { id := 0, currentPriority := 30 }

structure System where
  asyncRbb : Rbb
  mem : ByteMemory
  asyncNotice : RtSem
  calls : Nat → Call
  async : AsyncThread
  drains : Drainer → Drain
  owner : Nat → Nat
  handed : List (Nat × Log)

inductive Action
  | alloc (p : Nat) (log : Log)
  | store (p : Nat)
  | put (p : Nat)
  | release (p : Nat)
  | reset
  | take
  | flush (n : Nat)
  | look (c : Drainer)
  | scan (c : Drainer)
  | output (c : Drainer)
  | free (c : Drainer)
deriving Repr, DecidableEq

namespace System

/-! ## Their steps -/

def setCall (s : System) (p : Nat) (call : Call) : System :=
  { s with calls := Function.update s.calls p call }

def setDrain (s : System) (c : Drainer) (drain : Drain) : System :=
  { s with drains := Function.update s.drains c drain }

/-- `do_output` as far as `rt_rbb_blk_alloc`. -/
def alloc (s : System) (p : Nat) (log : Log) : System :=
  match rtRbbBlkAlloc s.asyncRbb log.blkSize with
  | (asyncRbb, some blk) =>
    { s with asyncRbb, owner := Function.update s.owner blk p }.setCall p
      (.filling log blk (frameCells log (asyncRbb.blkSet blk).buf))
  | (asyncRbb, none) => { s with asyncRbb }.setCall p .refused

/-- The thread goes on after `rt_sem_take`. -/
def wake (s : System) : System := { s with async := .output }.setDrain .async .look

/-- `rt_sem_release`; nobody but the thread waits. -/
def release (s : System) (p : Nat) (log : Log) : System :=
  match rtSemRelease s.asyncNotice with
  | (asyncNotice, some _) => ({ s with asyncNotice }.setCall p (.done log)).wake
  | (asyncNotice, none) => { s with asyncNotice }.setCall p (.done log)

/-- `rt_sem_control`; nobody waits while the thread is here. -/
def reset (s : System) : System :=
  { s with asyncNotice := (rtSemControl s.asyncNotice 0).1, async := .take }

/-- `rt_sem_take`. -/
def take (s : System) : System :=
  match rtSemTake s.asyncNotice asyncTh rtWaitingForever with
  | (asyncNotice, .returns _) => { s with asyncNotice }.wake
  | (asyncNotice, .suspends) => { s with asyncNotice, async := .blocked }

/-- `ulog_async_output` returns. -/
def finish (s : System) : Drainer → System
  | .async => { s with async := .reset }.setDrain .async .idle
  | .flush n => s.setDrain (.flush n) .idle

/-- The critical section of `rt_rbb_blk_get`. -/
def scan (s : System) (c : Drainer) : System :=
  match rtRbbBlkGet s.asyncRbb with
  | (asyncRbb, some blk) => { s with asyncRbb }.setDrain c (.got blk)
  | (asyncRbb, none) => { s with asyncRbb }.finish c

/-- `ulog_output_to_all_backend`, if the magic word is right. -/
def output (s : System) (c : Drainer) (blk : Nat) : System :=
  let buf := (s.asyncRbb.blkSet blk).buf
  { s with
    handed :=
      if readMagic s.mem buf = ulogFrameMagic then s.handed ++ [(s.owner blk, readFrame s.mem buf)]
      else s.handed }.setDrain c (.freeing blk)

end System

/-- `ULOG_ASYNC_OUTPUT_BUF_SIZE` and `ULOG_ASYNC_OUTPUT_STORE_LINES`. -/
def asyncOutputBufSize : Nat := 4096
def asyncOutputStoreLines : Nat := asyncOutputBufSize * 3 / 2 / 128

/-- The system after `ulog_init`, and every interleaving of its users. A log has at most the length
of a line. -/
def asyncMachine (buf : Nat) (blockSet : Nat → RbbBlk) (mem : ByteMemory) :
    Machine System Action where
  init :=
    { asyncRbb := rtRbbInit buf asyncOutputBufSize blockSet asyncOutputStoreLines
      mem
      asyncNotice := rtSemInit 0 .fifo
      calls := fun _ => .idle
      async := .reset
      drains := fun _ => .idle
      owner := fun _ => 0
      handed := [] }
  step s
    | .alloc p log =>
      match s.calls p with
      | .idle => if log.log.length ≤ lineBufSize then some (s.alloc p log) else none
      | _ => none
    | .store p =>
      match s.calls p with
      | .filling log blk (c :: rest) =>
        some ({ s with mem := s.mem.put c }.setCall p (.filling log blk rest))
      | _ => none
    | .put p =>
      match s.calls p with
      | .filling log blk [] =>
        some ({ s with asyncRbb := rtRbbBlkPut s.asyncRbb blk }.setCall p (.releasing log blk))
      | _ => none
    | .release p =>
      match s.calls p with
      | .releasing log _ => some (s.release p log)
      | _ => none
    | .reset =>
      match s.async with
      | .reset => some s.reset
      | _ => none
    | .take =>
      match s.async with
      | .take => some s.take
      | _ => none
    | .flush n =>
      match s.drains (.flush n) with
      | .idle => some (s.setDrain (.flush n) .look)
      | _ => none
    | .look c =>
      match s.drains c with
      | .look => some (if rtRbbIsEmpty s.asyncRbb then s.finish c else s.setDrain c .scan)
      | _ => none
    | .scan c =>
      match s.drains c with
      | .scan => some (s.scan c)
      | _ => none
    | .output c =>
      match s.drains c with
      | .got blk => some (s.output c blk)
      | _ => none
    | .free c =>
      match s.drains c with
      | .freeing blk =>
        some ({ s with asyncRbb := rtRbbBlkFree s.asyncRbb blk }.setDrain c .look)
      | _ => none

/-! ## The law -/

/-- The log of a call that has a block or had one. -/
def Call.log? : Call → Option Log
  | .filling log _ _ => some log
  | .releasing log _ => some log
  | .done log => some log
  | _ => none

/-- A block that is put and whose notice is still to come. -/
def Call.Releases (blk : Nat) : Call → Prop
  | .releasing _ b => b = blk
  | _ => False

instance (blk : Nat) (call : Call) : Decidable (call.Releases blk) := by
  cases call <;> unfold Call.Releases <;> infer_instance

namespace System

/-- The block is put, and its call has still to release the semaphore. -/
def Pending (s : System) (blk : Nat) : Prop := (s.calls (s.owner blk)).Releases blk

instance (s : System) (blk : Nat) : Decidable (s.Pending blk) :=
  inferInstanceAs (Decidable ((s.calls (s.owner blk)).Releases blk))

/-- How often something was handed on for a call. -/
def times (s : System) (p : Nat) : Nat := s.handed.countP fun h => h.1 = p

/-- A block of the ring whose log is not handed on. -/
def Unhanded (s : System) (blk : Nat) : Prop :=
  blk ∈ s.asyncRbb.blkList ∧
    ((s.asyncRbb.blkSet blk).status ≠ .get ∨ ∃ c, s.drains c = .got blk)

/-- Nobody is under way but the thread, which waits for a notice. -/
structure Quiet (s : System) : Prop where
  thread : s.async = .blocked
  drains : ∀ c, s.drains c = .idle
  calls : ∀ p, s.calls p = .idle ∨ s.calls p = .refused ∨ ∃ log, s.calls p = .done log

/-- No log and no notice is lost. -/
structure Delivers (s : System) : Prop where
  own : ∀ h ∈ s.handed, (s.calls h.1).log? = some h.2
  once : ∀ p log, (s.calls p).log? = some log →
    s.times p = 1 ∨ s.times p = 0 ∧ ∃ blk, s.owner blk = p ∧ s.Unhanded blk
  quiet : s.Quiet → ∀ p log, (s.calls p).log? = some log → s.times p = 1
  notice : s.async = .blocked → s.asyncNotice.value = 0 →
    (∀ blk ∈ s.asyncRbb.blkList, (s.asyncRbb.blkSet blk).status ≠ .put) ∨
      ∃ p log blk, s.calls p = .releasing log blk

end System

/-- No notice is thrown away: where the thread resets the semaphore, every block that is put has
its notice still to come, and before the take the counter does not wrap. -/
def NoticeKept (s : System) : Action → Prop
  | .reset => ∀ blk ∈ s.asyncRbb.blkList, (s.asyncRbb.blkSet blk).status = .put → s.Pending blk
  | .release _ => s.async = .take → s.asyncNotice.value + 1 < rtSemValueMod
  | _ => True

instance : DecidableRel NoticeKept := fun s a => by
  cases a <;> unfold NoticeKept <;> infer_instance

end RtVcom.Ulog
