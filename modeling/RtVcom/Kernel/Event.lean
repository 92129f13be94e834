import RtVcom.Lib.Machine
import RtVcom.Lib.Insertion
import RtVcom.Kernel.Ipc

/-!
# Event waiters

One event object and any number of threads and interrupts that use it. The test for what a
thread waits for and the clearing of what it received stand twice in `src/ipc.c`: in
`rt_event_recv`, for a thread that need not wait, and in the loop of `rt_event_send`, for each
thread that waits.

**The law** (`rtEvent_none_missed`): no thread is left in the suspend list whose flags are there,
in any run, and for one receiver it makes no difference whether it blocks before the send or
receives after it. The loop takes flags away while it walks the list, so that it may only ever
make a waiter it has passed less satisfied: `eventSatisfied` is monotone in the set.

The suspend list is ordered by the flag of the event, and the priority of a thread may change
while it waits. Neither matters for the law.
-/

namespace RtVcom.Kernel

open RtVcom.Lib

/-! ## The receiver, for both flags of an event -/

/-- `rt_ipc_list_suspend` of a thread with its event info. -/
def eventSuspend (list : List EventWaiter) (waiter : EventWaiter) : IpcFlag → List EventWaiter
  | .fifo => list ++ [waiter]
  | .prio =>
    insertBefore (fun w => decide (waiter.thread.currentPriority < w.thread.currentPriority)) waiter
      list

/-- `rt_event_recv` up to the point where it returns or gives up the processor, `none` where it
refuses to receive no flag at all. -/
def rtEventRecvOn (flag : IpcFlag) (event : RtEvent) (thread : RtThread) (set : BitVec 32)
    (option : BitVec 8) (timeout : Int) : RtEvent × Option EventRecv :=
  if set = 0 then (event, none)
  else if eventSatisfied event.set set option then
    ({ event with
        set := if option &&& rtEventFlagClear ≠ 0 then event.set &&& ~~~set else event.set },
      some (.received (event.set &&& set)))
  else if timeout = 0 then (event, some .timedOut)
  else
    ({ event with suspendThread := eventSuspend event.suspendThread ⟨thread, set, option⟩ flag },
      some .suspended)

/-- The threads in the list are ordered as in the list of any other object. -/
theorem eventSuspend_thread (list : List EventWaiter) (waiter : EventWaiter) (flag : IpcFlag) :
    (eventSuspend list waiter flag).map EventWaiter.thread =
      rtIpcListSuspend (list.map EventWaiter.thread) waiter.thread flag := by
  cases flag with
  | fifo => exact List.map_append
  | prio =>
    simp only [eventSuspend, rtIpcListSuspend, insertBefore_eq_append, List.map_append,
      List.map_cons, List.takeWhile_map, List.dropWhile_map]
    rfl

/-- A FIFO event receives as `rtEventRecv` does. -/
theorem rtEventRecvOn_fifo (event : RtEvent) (thread : RtThread) {set : BitVec 32} (hset : set ≠ 0)
    (option : BitVec 8) (timeout : Int) :
    rtEventRecvOn .fifo event thread set option timeout =
      ((rtEventRecv event thread set option timeout).1,
        some (rtEventRecv event thread set option timeout).2) := by
  unfold rtEventRecvOn rtEventRecv
  rw [if_neg hset]
  split
  · rfl
  · split <;> rfl

/-- Who waits behind a suspension. -/
theorem mem_eventSuspend {list : List EventWaiter} {waiter w : EventWaiter} {flag : IpcFlag}
    (h : w ∈ eventSuspend list waiter flag) : w = waiter ∨ w ∈ list := by
  cases flag with
  | fifo =>
    rcases List.mem_append.mp h with hlist | hnew
    · exact .inr hlist
    · exact .inl (List.mem_singleton.mp hnew)
  | prio => exact mem_insertBefore.mp h

/-! ## Sets of flags -/

/-- The flags of `small` are among those of `set`. -/
def Within (small set : BitVec 32) : Prop := small &&& set = small

theorem within_self (set : BitVec 32) : Within set set := BitVec.and_self

theorem Within.trans {a b c : BitVec 32} (hab : Within a b) (hbc : Within b c) : Within a c := by
  unfold Within at *
  rw [← hab, BitVec.and_assoc, hbc]

/-- Flags taken away. -/
theorem within_clear (set cleared : BitVec 32) : Within (set &&& ~~~cleared) set := by
  unfold Within
  rw [BitVec.and_assoc, BitVec.and_comm (~~~cleared) set, ← BitVec.and_assoc, BitVec.and_self]

/-- Fewer flags satisfy less. -/
theorem eventSatisfied_within {small set wanted : BitVec 32} {option : BitVec 8}
    (hwithin : Within small set) (h : eventSatisfied set wanted option = false) :
    eventSatisfied small wanted option = false := by
  unfold eventSatisfied at *
  unfold Within at hwithin
  by_cases hand : option &&& rtEventFlagAnd ≠ 0
  · rw [if_pos hand, decide_eq_false_iff_not] at h ⊢
    intro hall
    apply h
    -- what is wanted is in the small set, and with it in the large one
    rw [← hall, ← BitVec.and_assoc, BitVec.and_comm set, hwithin]
  · rw [if_neg hand] at h ⊢
    by_cases hor : option &&& rtEventFlagOr ≠ 0
    · rw [if_pos hor, decide_eq_false_iff_not, Decidable.not_not] at h ⊢
      rw [← hwithin, BitVec.and_assoc, h]
      exact BitVec.and_zero
    · rw [if_neg hor]

/-- To clear what was received is to clear what was wanted. -/
theorem clear_received (set wanted : BitVec 32) :
    set &&& ~~~(wanted &&& set) = set &&& ~~~wanted := by
  ext i hi
  simp only [BitVec.getElem_and, BitVec.getElem_not]
  cases set[i] <;> cases wanted[i] <;> rfl

/-! ## The loop of the sender -/

/-- The set shrinks on the way, and whoever stays is not satisfied by what is left. -/
theorem eventSendLoop_stay (set : BitVec 32) (list : List EventWaiter) :
    Within (eventSendLoop set list).1 set ∧
      ∀ w ∈ (eventSendLoop set list).2.1,
        eventSatisfied (eventSendLoop set list).1 w.eventSet w.eventInfo = false := by
  induction list generalizing set with
  | nil => exact ⟨within_self set, fun w hw => absurd hw List.not_mem_nil⟩
  | cons v rest ih =>
    unfold eventSendLoop
    split
    · -- `v` is resumed, and may take its flags with it
      dsimp only
      split
      · obtain ⟨hwithin, hstay⟩ := ih (set &&& ~~~(v.received set).eventSet)
        exact ⟨hwithin.trans (within_clear _ _), hstay⟩
      · exact ih set
    · next hunsatisfied =>
      obtain ⟨hwithin, hstay⟩ := ih set
      refine ⟨hwithin, ?_⟩
      intro w hw
      rcases List.mem_cons.mp hw with rfl | hw
      · exact eventSatisfied_within hwithin (Bool.eq_false_iff.mpr hunsatisfied)
      · exact hstay w hw

/-- The law of one event: the flags a waiter waits for are not there. -/
def RtEvent.NoneMissed (event : RtEvent) : Prop :=
  ∀ w ∈ event.suspendThread, eventSatisfied event.set w.eventSet w.eventInfo = false

/-- A send leaves nobody behind, whoever waited before. -/
theorem noneMissed_send {event : RtEvent} (h : event.NoneMissed) (set : BitVec 32) :
    (rtEventSend event set).1.NoneMissed := by
  unfold rtEventSend
  split
  · exact h
  · exact (eventSendLoop_stay _ _).2

/-- `rt_event_recv` leaves nobody waiting who has what he wants. -/
theorem noneMissed_recv {event : RtEvent} (h : event.NoneMissed) (flag : IpcFlag)
    (thread : RtThread) (set : BitVec 32) (option : BitVec 8) (timeout : Int) :
    (rtEventRecvOn flag event thread set option timeout).1.NoneMissed := by
  unfold rtEventRecvOn
  split
  · exact h
  · split
    · intro w hw
      refine eventSatisfied_within ?_ (h w hw)
      dsimp only
      split
      · exact within_clear _ _
      · exact within_self _
    · next hunsatisfied =>
      split
      · exact h
      · intro w hw
        rcases mem_eventSuspend hw with rfl | hw
        · exact Bool.eq_false_iff.mpr hunsatisfied
        · exact h w hw

/-! ## The system -/

/-- An event, the priorities of the threads, whose thread timer runs, and who was resumed and has
not run since. -/
structure EventSystem where
  event : RtEvent
  priority : Nat → Nat
  timers : List Nat
  resumed : List (EventWaiter × Wakeup)

/-- The calls, the expiry of a thread timer, a resumed thread that runs again, and a change of a
thread's priority from anywhere. -/
inductive EventAction
  | send (set : BitVec 32)
  | recv (thread : Nat) (set : BitVec 32) (option : BitVec 8) (timeout : Int)
  | timeout (thread : Nat)
  | run (thread : Nat)
  | changePriority (thread priority : Nat)

namespace EventSystem

/-- A thread inside `rt_event_recv` makes no further call. -/
def Busy (s : EventSystem) (thread : Nat) : Prop :=
  (∃ w ∈ s.event.suspendThread, w.thread.id = thread) ∨ ∃ r ∈ s.resumed, r.1.thread.id = thread

instance (s : EventSystem) (thread : Nat) : Decidable (s.Busy thread) :=
  inferInstanceAs (Decidable (_ ∨ _))

/-- `rt_event_send`; `rt_thread_resume` stops the timers of the threads it resumes. -/
def send (s : EventSystem) (set : BitVec 32) : EventSystem :=
  let (event, woken) := rtEventSend s.event set
  { s with
      event
      timers := s.timers.filter fun t => !(woken.any fun w => w.thread.id == t)
      resumed := s.resumed ++ woken.map fun w => (w, .token) }

/-- `rt_event_recv`; a positive waiting time starts the thread timer. -/
def recv (s : EventSystem) (flag : IpcFlag) (thread : Nat) (set : BitVec 32) (option : BitVec 8)
    (timeout : Int) : EventSystem :=
  match rtEventRecvOn flag s.event ⟨thread, s.priority thread⟩ set option timeout with
  | (event, some .suspended) =>
    { s with event, timers := if 0 < timeout then thread :: s.timers else s.timers }
  | (event, _) => { s with event }

/-- `rt_thread_timeout`. -/
def timeout (s : EventSystem) (thread : Nat) : EventSystem :=
  let (expired, waiting) := s.event.suspendThread.partition fun w => w.thread.id == thread
  { s with
      event := { s.event with suspendThread := waiting }
      timers := s.timers.erase thread
      resumed := s.resumed ++ expired.map fun w => (w, .timeout) }

/-- A waiter seen with the new priority of a thread. -/
def reprioritised (thread priority : Nat) (w : EventWaiter) : EventWaiter :=
  if w.thread.id = thread then { w with thread := ⟨thread, priority⟩ } else w

/-- A suspended thread keeps its place in the suspend list. -/
def changePriority (s : EventSystem) (thread priority : Nat) : EventSystem :=
  { s with
      priority := fun t => if t = thread then priority else s.priority t
      event := { s.event with
        suspendThread := s.event.suspendThread.map (reprioritised thread priority) } }

end EventSystem

/-- The event after `rt_event_init`, and every interleaving of its users. -/
def eventMachine (flag : IpcFlag) (priority : Nat → Nat) : Machine EventSystem EventAction where
  init := { event := rtEventInit, priority, timers := [], resumed := [] }
  step s
    | .send set => some (s.send set)
    | .recv thread set option timeout =>
      if s.Busy thread then none else some (s.recv flag thread set option timeout)
    | .timeout thread => if thread ∈ s.timers then some (s.timeout thread) else none
    | .run thread =>
      if s.resumed.any (fun r => r.1.thread.id == thread) then
        some { s with resumed := s.resumed.filter fun r => r.1.thread.id != thread }
      else none
    | .changePriority thread priority => some (s.changePriority thread priority)

namespace EventSystem

variable {s : EventSystem}

theorem recv_event (s : EventSystem) (flag : IpcFlag) (thread : Nat) (set : BitVec 32)
    (option : BitVec 8) (timeout : Int) :
    (s.recv flag thread set option timeout).event =
      (rtEventRecvOn flag s.event ⟨thread, s.priority thread⟩ set option timeout).1 := by
  unfold recv
  split
  · next heq => rw [heq]
  · next heq => rw [heq]

/-- A timeout leaves nobody waiting either. -/
theorem noneMissed_timeout (h : s.event.NoneMissed) (thread : Nat) :
    (s.timeout thread).event.NoneMissed := by
  intro w hw
  apply h w
  change w ∈ (s.event.suspendThread.partition fun w => w.thread.id == thread).2 at hw
  rw [List.partition_eq_filter_filter] at hw
  exact (List.mem_filter.mp hw).1

theorem noneMissed_changePriority (h : s.event.NoneMissed) (thread priority : Nat) :
    (s.changePriority thread priority).event.NoneMissed := by
  intro w hw
  obtain ⟨v, hv, rfl⟩ := List.mem_map.mp hw
  have hsame : (reprioritised thread priority v).eventSet = v.eventSet ∧
      (reprioritised thread priority v).eventInfo = v.eventInfo := by
    unfold reprioritised
    split <;> exact ⟨rfl, rfl⟩
  rw [hsame.1, hsame.2]
  exact h v hv

end EventSystem

/-- Every step leaves nobody behind whose flags are there. -/
theorem noneMissed_step {flag : IpcFlag} {priority : Nat → Nat} {s t : EventSystem}
    {a : EventAction} (h : s.event.NoneMissed)
    (hstep : (eventMachine flag priority).step s a = some t) : t.event.NoneMissed := by
  cases a with
  | send set =>
    cases hstep
    exact noneMissed_send h set
  | recv thread set option timeout =>
    simp only [eventMachine] at hstep
    split at hstep
    · cases hstep
    · cases hstep
      rw [EventSystem.recv_event]
      exact noneMissed_recv h flag _ set option timeout
  | timeout thread =>
    simp only [eventMachine] at hstep
    split at hstep
    · cases hstep
      exact EventSystem.noneMissed_timeout h thread
    · cases hstep
  | run thread =>
    simp only [eventMachine] at hstep
    split at hstep
    · cases hstep
      exact h
    · cases hstep
  | changePriority thread priority =>
    cases hstep
    exact EventSystem.noneMissed_changePriority h thread priority

/-! ## One receiver, before or after the send -/

/-- What one receiver gets, `none` while it still waits, and the flags that are left. -/
structure EventOutcome where
  recved : Option (BitVec 32)
  set : BitVec 32
deriving Repr, DecidableEq

/-- The receiver blocks and is sent to: it finds what it received in `thread->event_set`. -/
def blockThenSend (flag : IpcFlag) (event : RtEvent) (thread : RtThread) (wanted : BitVec 32)
    (option : BitVec 8) (timeout : Int) (set : BitVec 32) : EventOutcome :=
  let blocked := (rtEventRecvOn flag event thread wanted option timeout).1
  let (event, woken) := rtEventSend blocked set
  { recved := woken.head?.map EventWaiter.eventSet, set := event.set }

/-- The send, and the receiver behind it. -/
def sendThenRecv (flag : IpcFlag) (event : RtEvent) (thread : RtThread) (wanted : BitVec 32)
    (option : BitVec 8) (timeout : Int) (set : BitVec 32) : EventOutcome :=
  let sent := (rtEventSend event set).1
  match rtEventRecvOn flag sent thread wanted option timeout with
  | (event, some (.received recved)) => { recved := some recved, set := event.set }
  | (event, _) => { recved := none, set := event.set }

/-- The loop over one waiter. -/
theorem eventSendLoop_one (set : BitVec 32) (w : EventWaiter) :
    eventSendLoop set [w] =
      if eventSatisfied set w.eventSet w.eventInfo then
        (if w.eventInfo &&& rtEventFlagClear ≠ 0 then set &&& ~~~(w.received set).eventSet else set,
          [], [w.received set])
      else (set, [w], []) := by
  have hinfo : (w.received set).eventInfo = w.eventInfo := by
    unfold EventWaiter.received
    split <;> rfl
  simp only [eventSendLoop, hinfo]

/-- The two copies of the test and of the clearing agree: what a satisfied waiter has in its event
set is what the receiver takes, and both clear the same flags. -/
theorem received_of_satisfied {set : BitVec 32} {w : EventWaiter}
    (h : eventSatisfied set w.eventSet w.eventInfo = true) :
    (w.received set).eventSet = set &&& w.eventSet ∧
      set &&& ~~~(w.received set).eventSet = set &&& ~~~w.eventSet := by
  unfold EventWaiter.received
  by_cases hand : w.eventInfo &&& rtEventFlagAnd ≠ 0
  · unfold eventSatisfied at h
    rw [if_pos hand, decide_eq_true_eq] at h
    rw [if_pos hand]
    exact ⟨h.symm, rfl⟩
  · rw [if_neg hand]
    exact ⟨BitVec.and_comm _ _, clear_received _ _⟩

/-- A receiver that waits alone, and a send. -/
theorem blockThenSend_eq {flag : IpcFlag} {event : RtEvent} {thread : RtThread}
    {wanted : BitVec 32} {option : BitVec 8} {timeout : Int} (hone : event.suspendThread = [])
    (hblocks : (rtEventRecvOn flag event thread wanted option timeout).2 = some .suspended)
    (set : BitVec 32) :
    blockThenSend flag event thread wanted option timeout set =
      sendThenRecv flag event thread wanted option timeout set := by
  -- what a receiver that blocks was not refused, not served and not turned away for
  have hcases : wanted ≠ 0 ∧ eventSatisfied event.set wanted option = false ∧ timeout ≠ 0 := by
    unfold rtEventRecvOn at hblocks
    split at hblocks
    · cases hblocks
    · next hwanted =>
      split at hblocks
      · cases hblocks
      · next hunsatisfied =>
        split at hblocks
        · cases hblocks
        · next htimeout => exact ⟨hwanted, Bool.eq_false_iff.mpr hunsatisfied, htimeout⟩
  obtain ⟨hwanted, hunsatisfied, htimeout⟩ := hcases
  have hsuspend : eventSuspend [] ⟨thread, wanted, option⟩ flag = [⟨thread, wanted, option⟩] := by
    cases flag <;> rfl
  have hblocked : (rtEventRecvOn flag event thread wanted option timeout).1 =
      ⟨event.set, [⟨thread, wanted, option⟩]⟩ := by
    simp only [rtEventRecvOn, hwanted, hunsatisfied, htimeout, if_false, Bool.false_eq_true, hone,
      hsuspend]
  unfold blockThenSend sendThenRecv
  rw [hblocked]
  by_cases hzero : set = 0
  · simp only [rtEventSend, hzero, if_true, rtEventRecvOn, hwanted, hunsatisfied, htimeout,
      if_false, Bool.false_eq_true]
    rfl
  · simp only [rtEventSend, hzero, if_false, hone, eventSendLoop_one]
    simp only [eventSendLoop, rtEventRecvOn, hwanted, htimeout, if_false]
    cases hsent : eventSatisfied (event.set ||| set) wanted option with
    | true =>
      obtain ⟨hrecved, hclear⟩ :=
        received_of_satisfied (w := ⟨thread, wanted, option⟩) hsent
      rw [hrecved] at hclear
      simp only [if_true, List.head?_cons, Option.map_some, hrecved, hclear]
    | false => rfl

/-! ## The law -/

/-- **No waiter is missed.** In every run no thread is left in the suspend list whose flags are
there, and a receiver that blocks and is then sent to comes off as one that receives after the
send. -/
theorem rtEvent_none_missed (flag : IpcFlag) (priority : Nat → Nat) :
    (∀ s, (eventMachine flag priority).Reach Machine.any s → s.event.NoneMissed) ∧
      ∀ (event : RtEvent) (thread : RtThread) (wanted : BitVec 32) (option : BitVec 8)
        (timeout : Int), event.suspendThread = [] →
        (rtEventRecvOn flag event thread wanted option timeout).2 = some .suspended →
        ∀ set, blockThenSend flag event thread wanted option timeout set =
          sendThenRecv flag event thread wanted option timeout set := by
  constructor
  · intro s h
    refine h.invariant (P := fun s => s.event.NoneMissed) ?_ ?_
    · intro w hw
      cases hw
    · intro s a t hs _ hstep
      exact noneMissed_step hs hstep
  · intro event thread wanted option timeout hone hblocks set
    exact blockThenSend_eq hone hblocks set

/-- Two waiters for overlapping flags: the first is resumed and takes its flags, and the second
stays with none of its own. And a receiver of the flags 1 and 2 that wants both. -/
theorem rtEvent_none_missed_two :
    (∃ s, (eventMachine .prio fun _ => 10).Reach Machine.any s ∧
      (s.event.set = 0 ∧ s.event.suspendThread.length = 1) ∧ s.event.NoneMissed) ∧
      blockThenSend .prio ⟨1, []⟩ ⟨1, 10⟩ 3 5 (-1) 2 =
        sendThenRecv .prio ⟨1, []⟩ ⟨1, 10⟩ 3 5 (-1) 2 := by
  constructor
  · obtain ⟨s, hreach, hs⟩ := Machine.exists_reach_of_run (eventMachine .prio fun _ => 10)
      Machine.any [.recv 1 1 6 (-1), .recv 2 1 2 5, .send 1]
      (fun s => s.event.set = 0 ∧ s.event.suspendThread.length = 1) (by decide)
    exact ⟨s, hreach, hs, (rtEvent_none_missed .prio fun _ => 10).1 s hreach⟩
  · exact (rtEvent_none_missed .prio fun _ => 10).2 ⟨1, []⟩ ⟨1, 10⟩ 3 5 (-1) rfl (by decide) 2

end RtVcom.Kernel
