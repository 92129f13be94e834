import Mathlib.Data.List.Nodup
import Mathlib.Logic.Function.Basic
import RtVcom.Lib.Machine
import RtVcom.Driver.DataQueue

/-!
# Callers that wait at a data queue

`dataqueue.c` with waiting times: a push finds the queue full, or a pop finds it empty, and the
caller is put to the end of a list. It takes another turn when it is resumed: by the other side, by
its timer, or by `rt_data_queue_reset`, the last two with an error to return. Between its wake-up
and its turn anybody else may come, so the turn may find the queue full or empty once more.

A push resumes one caller that waits to pop. A pop resumes one that waits to push, but only when it
leaves at most `lwm` items. So a wake-up is owed for each item at least while a caller waits to pop,
and while a caller waits to push, the items and the wake-ups together are more than `lwm`
(`DataQueueSystem.Kept`). Both hold over every interleaving, as long as the counters do what
`PushFits` asks of them (`dataQueue_waits`).
-/

namespace RtVcom.Driver

open RtVcom.Lib RtVcom.Kernel

/-! ## The model -/

/-- The two lists of a queue. -/
inductive DataQueueSide
  | push
  | pop
deriving Repr, DecidableEq

def DataQueueSide.other : DataQueueSide → DataQueueSide
  | .push => .pop
  | .pop => .push

/-- A call with its waiting time. -/
inductive DataQueueWait
  | push (item : RtDataItem) (timeout : Int)
  | pop (timeout : Int)
deriving Repr, DecidableEq

def DataQueueWait.side : DataQueueWait → DataQueueSide
  | .push _ _ => .push
  | .pop _ => .pop

def DataQueueWait.timeout : DataQueueWait → Int
  | .push _ timeout => timeout
  | .pop timeout => timeout

/-- A queue with the calls that have not returned and the threads that were resumed, each with the
list it was in and its `thread->error`. Beside the code, the items of the pushes and of the pops
that succeeded. -/
structure DataQueueSystem where
  queue : RtDataQueue
  calls : RtThread → Option DataQueueWait
  resumed : List (DataQueueSide × RtThread × Int)
  accepted : List RtDataItem
  delivered : List RtDataItem

inductive DataQueueAction
  | call (thread : RtThread) (call : DataQueueWait)
  | run (side : DataQueueSide) (thread : RtThread) (error : Int)
  | timeout (thread : RtThread)
  | resetPop
  | resetPush
deriving Repr, DecidableEq

namespace DataQueueSystem

variable (s : DataQueueSystem)

/-- What a turn of a call leaves. -/
def settle (thread : RtThread) (call : DataQueueWait) (turn : RtDataQueue × DataQueueTurn) :
    DataQueueSystem :=
  match turn.2 with
  | .suspends => { s with queue := turn.1, calls := Function.update s.calls thread (some call) }
  | .returns result item waiter _ =>
    { queue := turn.1
      calls := Function.update s.calls thread none
      resumed := s.resumed ++ (waiter.map (call.side.other, ·, rtEok)).toList
      accepted := s.accepted ++ match call with
        | .push item _ => if result = rtEok then [item] else []
        | .pop _ => []
      delivered := s.delivered ++ item.toList }

/-- One turn of a call. -/
def turn (thread : RtThread) (call : DataQueueWait) : DataQueueSystem :=
  s.settle thread call <|
    match call with
    | .push item timeout => rtDataQueuePush s.queue thread item timeout
    | .pop timeout => rtDataQueuePop s.queue thread timeout

/-- A resumed caller goes on: it returns the error, or takes another turn. -/
def run (side : DataQueueSide) (thread : RtThread) (error : Int) (call : DataQueueWait) :
    DataQueueSystem :=
  let s := { s with resumed := s.resumed.erase (side, thread, error) }
  if error ≠ rtEok then { s with calls := Function.update s.calls thread none }
  else s.turn thread call

/-- `rt_thread_timeout` of a caller that waits. -/
def expire (side : DataQueueSide) (thread : RtThread) : DataQueueSystem :=
  { s with
    queue := match side with
      | .push => { s.queue with suspendedPushList := s.queue.suspendedPushList.erase thread }
      | .pop => { s.queue with suspendedPopList := s.queue.suspendedPopList.erase thread }
    resumed := s.resumed ++ [(side, thread, -rtEtimeout)] }

/-- The callers in the lists of the two sides and among the threads that were resumed. -/
def callersIn (pushers poppers : List RtThread) (resumed : List (DataQueueSide × RtThread × Int)) :
    List (DataQueueSide × RtThread) :=
  pushers.map (DataQueueSide.push, ·) ++ poppers.map (DataQueueSide.pop, ·) ++
    resumed.map fun r => (r.1, r.2.1)

/-- The callers that wait or were resumed. -/
def waiting : List (DataQueueSide × RtThread) :=
  callersIn s.queue.suspendedPushList s.queue.suspendedPopList s.resumed

/-- The callers of a side that were resumed without an error and have not yet gone on. -/
def owed (side : DataQueueSide) : Nat :=
  s.resumed.countP fun r => r.1 = side ∧ r.2.2 = rtEok

end DataQueueSystem

/-- The queue behind `rt_data_queue_init`, with any callers. The loops of `rt_data_queue_reset` run
with the scheduler locked, and an interrupt may come between two of their turns. -/
def dataQueueMachine (size lwm : Nat) (evtNotify : Bool) (cells : List RtDataItem) :
    Machine DataQueueSystem DataQueueAction where
  init :=
    { queue := rtDataQueueInit size lwm evtNotify cells
      calls := fun _ => none
      resumed := []
      accepted := []
      delivered := [] }
  step s
    | .call thread call => if s.calls thread = none then some (s.turn thread call) else none
    | .run side thread error =>
      if (side, thread, error) ∈ s.resumed then
        (s.calls thread).map fun call => s.run side thread error call
      else none
    | .timeout thread =>
      (s.calls thread).bind fun call =>
        if 0 < call.timeout ∧ thread ∈ (match call.side with
            | .push => s.queue.suspendedPushList
            | .pop => s.queue.suspendedPopList) then
          some (s.expire call.side thread)
        else none
    | .resetPop =>
      match s.queue.suspendedPopList with
      | thread :: rest => some { s with
          queue := { s.queue with suspendedPopList := rest }
          resumed := s.resumed ++ [(.pop, thread, -rtError)] }
      | [] => none
    | .resetPush =>
      match s.queue.suspendedPushList with
      | thread :: rest => some { s with
          queue := { s.queue with suspendedPushList := rest }
          resumed := s.resumed ++ [(.push, thread, -rtError)] }
      | [] => none

/-- Every turn of a push finds the counters as `PushFits` asks. -/
def PushesFit (s : DataQueueSystem) : DataQueueAction → Prop
  | .call _ (.push _ _) => s.queue.PushFits
  | .run .push _ error => error = rtEok → s.queue.PushFits
  | _ => True

instance : DecidableRel PushesFit := fun s a =>
  match a with
  | .call _ (.push _ _) => inferInstanceAs (Decidable s.queue.PushFits)
  | .run .push _ _ => inferInstanceAs (Decidable (_ → s.queue.PushFits))
  | .call _ (.pop _) | .run .pop _ _ | .timeout _ | .resetPop | .resetPush => isTrue trivial

/-! ## One turn -/

namespace RtDataQueue

variable {queue : RtDataQueue} {size : Nat} {q : BoundedQueue RtDataItem size}

/-- The queue without its callers. -/
def alone (queue : RtDataQueue) : RtDataQueue :=
  { queue with suspendedPushList := [], suspendedPopList := [] }

/-- What a turn of a push does: it is refused, it puts its caller to sleep, or it stores the item
and resumes the first caller that waits to pop. -/
inductive PushTurn (queue : RtDataQueue) (q : BoundedQueue RtDataItem size) (thread : RtThread)
    (item : RtDataItem) (timeout : Int) : RtDataQueue × DataQueueTurn → Prop
  | refused (hfull : q.items.length = size) :
    PushTurn queue q thread item timeout (queue, .returns (-rtEtimeout) none none none)
  | asleep (hfull : q.items.length = size) :
    PushTurn queue q thread item timeout
      ({ queue with suspendedPushList := queue.suspendedPushList ++ [thread] }, .suspends)
  | stored {next : RtDataQueue} (event : Option DataQueueEvent) (hroom : q.items.length < size)
      (hstands : next.alone.Stands (q.offer item)) (hlwm : next.lwm = queue.lwm)
      (hpush : next.suspendedPushList = queue.suspendedPushList)
      (hpop : next.suspendedPopList = queue.suspendedPopList.tail) :
    PushTurn queue q thread item timeout
      (next, .returns rtEok none queue.suspendedPopList.head? event)

/-- A turn of `rt_data_queue_push` has one of its effects. -/
theorem push_turn (h : queue.alone.Stands q) (hfits : queue.PushFits) (thread : RtThread)
    (item : RtDataItem) (timeout : Int) :
    PushTurn queue q thread item timeout (rtDataQueuePush queue thread item timeout) := by
  have hfull : queue.difference = queue.size ↔
      queue.getIndex ≤ queue.putIndex ∧ q.items.length = size := h.full_iff
  obtain ⟨hseen, hclear⟩ := h.fits_iff.mp hfits
  unfold rtDataQueuePush
  split
  · next hd =>
    have hlength := (hfull.mp hd).2
    split
    · exact .refused hlength
    · exact .asleep hlength
  · next hd =>
    have hroom : q.items.length < size := hseen.resolve_left hd
    have hstands := h.store hroom (hclear hroom) item
    dsimp only
    split
    · next waiter rest hlist =>
      rw [show some waiter = queue.suspendedPopList.head? by rw [hlist, List.head?_cons]]
      exact .stored none hroom hstands rfl rfl (by rw [hlist, List.tail_cons])
    · next hlist =>
      have hnobody : (none : Option RtThread) = queue.suspendedPopList.head? := by
        rw [hlist, List.head?_nil]
      conv in (DataQueueTurn.returns rtEok none none _) => rw [hnobody]
      exact .stored _ hroom hstands rfl rfl (by rw [hlist, List.tail_nil])

/-- What a turn of a pop does: it is refused, it puts its caller to sleep, or it takes the oldest
item and, if it leaves few, resumes the first caller that waits to push. -/
inductive PopTurn (queue : RtDataQueue) (q : BoundedQueue RtDataItem size) (thread : RtThread) :
    RtDataQueue × DataQueueTurn → Prop
  | refused (hempty : q.items = []) :
    PopTurn queue q thread (queue, .returns (-rtEtimeout) none none none)
  | asleep (hempty : q.items = []) :
    PopTurn queue q thread
      ({ queue with suspendedPopList := queue.suspendedPopList ++ [thread] }, .suspends)
  | taken {next : RtDataQueue} {item : RtDataItem} {rest : List RtDataItem}
      (event : Option DataQueueEvent) (hitems : q.items = item :: rest)
      (hstands : next.alone.Stands (q.dropFront 1)) (hlwm : next.lwm = queue.lwm)
      (hpush : next.suspendedPushList = queue.suspendedPushList.tail)
      (hpop : next.suspendedPopList = queue.suspendedPopList) :
    PopTurn queue q thread
      (next, .returns rtEok (some item) queue.suspendedPushList.head? event)
  | many {next : RtDataQueue} {item : RtDataItem} {rest : List RtDataItem}
      (event : Option DataQueueEvent) (hitems : q.items = item :: rest)
      (hmany : queue.lwm < rest.length)
      (hstands : next.alone.Stands (q.dropFront 1)) (hlwm : next.lwm = queue.lwm)
      (hpush : next.suspendedPushList = queue.suspendedPushList)
      (hpop : next.suspendedPopList = queue.suspendedPopList) :
    PopTurn queue q thread (next, .returns rtEok (some item) none event)

/-- A turn of `rt_data_queue_pop` has one of its effects. -/
theorem pop_turn (h : queue.alone.Stands q) (thread : RtThread) (timeout : Int) :
    PopTurn queue q thread (rtDataQueuePop queue thread timeout) := by
  have hempty : queue.getIndex = queue.putIndex ↔ q.items = [] := h.empty_iff
  unfold rtDataQueuePop
  split
  · next hindex =>
    split
    · exact .refused (hempty.mp hindex)
    · exact .asleep (hempty.mp hindex)
  · next hindex =>
    have hsome : q.items ≠ [] := fun hnil => hindex (hempty.mpr hnil)
    have hhead : queue.queue[queue.getIndex % queue.size]? = q.items.head? := h.head hsome
    obtain ⟨item, rest, hitems⟩ := List.exists_cons_of_ne_nil hsome
    have hstands := h.take hsome
    rw [hhead, hitems, List.head?_cons]
    dsimp only
    split
    · split
      · next waiter others hlist =>
        rw [show some waiter = queue.suspendedPushList.head? by rw [hlist, List.head?_cons]]
        exact .taken _ hitems hstands rfl (by rw [hlist, List.tail_cons]) rfl
      · next hlist =>
        have hnobody : (none : Option RtThread) = queue.suspendedPushList.head? := by
          rw [hlist, List.head?_nil]
        conv in (DataQueueTurn.returns rtEok _ none _) => rw [hnobody]
        exact .taken _ hitems hstands rfl (by rw [hlist, List.tail_nil]) rfl
    · next hdifference =>
      refine .many _ hitems ?_ hstands rfl rfl rfl
      -- the difference is the number of the items, unless `put_index` has wrapped around
      have hput := hstands.put_eq
      have hget := hstands.get_lt
      have hbounded := (q.dropFront 1).bounded
      have hlt := h.lt
      rw [BoundedQueue.items_dropFront, hitems, List.drop_one, List.tail_cons] at hput hbounded
      simp only [difference] at hdifference
      simp only [alone] at hput hget
      omega

end RtDataQueue

/-! ## The wake-ups that are owed -/

namespace DataQueueSystem

variable {s : DataQueueSystem} {size lwm : Nat} {q : BoundedQueue RtDataItem size}
  {side : DataQueueSide} {thread : RtThread} {error : Int}

/-- What is kept while the caller whose turn it is may be one of the callers that were resumed:
`slack` counts it. -/
structure Kept (s : DataQueueSystem) (lwm : Nat) (q : BoundedQueue RtDataItem size)
    (slack : DataQueueSide → Nat) : Prop where
  stands : s.queue.alone.Stands q
  lwm_eq : s.queue.lwm = lwm
  fifo : s.accepted = s.delivered ++ q.items
  pops : s.queue.suspendedPopList ≠ [] → q.items.length ≤ s.owed .pop + slack .pop
  pushes : s.queue.suspendedPushList ≠ [] →
    min (lwm + 1) size ≤ q.items.length + s.owed .push + slack .push

/-- The caller that is counted. -/
def one (side : DataQueueSide) (other : DataQueueSide) : Nat := if other = side then 1 else 0

/-- A thread resumed with success is owed one more turn. -/
theorem owed_snoc (side other : DataQueueSide) (thread : RtThread)
    (resumed : List (DataQueueSide × RtThread × Int)) :
    (resumed ++ [(other, thread, rtEok)]).countP (fun r => r.1 = side ∧ r.2.2 = rtEok) =
      resumed.countP (fun r => r.1 = side ∧ r.2.2 = rtEok) + one side other := by
  rw [List.countP_append, List.countP_singleton]
  unfold one
  simp only [and_true, decide_eq_true_eq]

/-- Resuming more threads never lowers what is owed. -/
theorem owed_le (s : DataQueueSystem) (more : List (DataQueueSide × RtThread × Int))
    (side : DataQueueSide) :
    s.owed side ≤ (s.resumed ++ more).countP fun r => r.1 = side ∧ r.2.2 = rtEok := by
  rw [List.countP_append]
  exact Nat.le_add_right _ _

/-- A turn of a push, with its own wake-up spent. -/
theorem Kept.push (h : s.Kept lwm q (one .push)) (hfits : s.queue.PushFits) (thread : RtThread)
    (item : RtDataItem) (timeout : Int) :
    ∃ q' : BoundedQueue RtDataItem size,
      (s.turn thread (.push item timeout)).Kept lwm q' fun _ => 0 := by
  have hpops : s.queue.suspendedPopList ≠ [] → q.items.length ≤ s.owed .pop := h.pops
  have hpushes : s.queue.suspendedPushList ≠ [] →
      min (lwm + 1) size ≤ q.items.length + s.owed .push + 1 := h.pushes
  have hturn := RtDataQueue.push_turn h.stands hfits thread item timeout
  unfold turn
  dsimp only
  generalize rtDataQueuePush s.queue thread item timeout = result at hturn
  cases hturn with
  | refused hfull =>
    have herror : ¬ -rtEtimeout = rtEok := by decide
    dsimp only [settle]
    rw [if_neg herror, Option.map_none, Option.toList_none, Option.toList_none, List.append_nil,
      List.append_nil, List.append_nil]
    refine ⟨q, h.stands, h.lwm_eq, h.fifo, hpops, fun _ => ?_⟩
    omega
  | asleep hfull =>
    refine ⟨q, h.stands, h.lwm_eq, h.fifo, hpops, fun _ => ?_⟩
    omega
  | @stored next event hroom hstands hlwm hpush hpop =>
    have hitems : (q.offer item).items = q.items ++ [item] := by
      rw [BoundedQueue.items_offer, if_pos hroom]
    dsimp only [settle, DataQueueWait.side, DataQueueSide.other]
    rw [if_pos rfl, Option.toList_none, List.append_nil]
    refine ⟨q.offer item, hstands, hlwm.trans h.lwm_eq, ?_, ?_, ?_⟩
    · dsimp only
      rw [h.fifo, hitems, List.append_assoc]
    · dsimp only
      rw [hpop, hitems, List.length_append, List.length_singleton]
      intro hmore
      cases hlist : s.queue.suspendedPopList with
      | nil => rw [hlist] at hmore; exact absurd rfl hmore
      | cons waiter rest =>
        have hbefore := hpops (by rw [hlist]; exact List.cons_ne_nil _ _)
        unfold owed at hbefore ⊢
        dsimp only
        rw [List.head?_cons, Option.map_some, Option.toList_some, owed_snoc]
        exact Nat.succ_le_succ hbefore
    · dsimp only
      rw [hpush, hitems, List.length_append, List.length_singleton]
      intro hmore
      have hbefore := hpushes hmore
      have hmono := s.owed_le (s.queue.suspendedPopList.head?.map
        (DataQueueSide.pop, ·, rtEok)).toList .push
      unfold owed at hbefore hmono ⊢
      dsimp only
      omega

/-- A turn of a pop, with its own wake-up spent. -/
theorem Kept.pop (h : s.Kept lwm q (one .pop)) (thread : RtThread) (timeout : Int) :
    ∃ q' : BoundedQueue RtDataItem size,
      (s.turn thread (.pop timeout)).Kept lwm q' fun _ => 0 := by
  have hpops : s.queue.suspendedPopList ≠ [] → q.items.length ≤ s.owed .pop + 1 := h.pops
  have hpushes : s.queue.suspendedPushList ≠ [] →
      min (lwm + 1) size ≤ q.items.length + s.owed .push := h.pushes
  have hbounded := q.bounded
  have hturn := RtDataQueue.pop_turn h.stands thread timeout
  unfold turn
  dsimp only
  generalize rtDataQueuePop s.queue thread timeout = result at hturn
  cases hturn with
  | refused hempty =>
    dsimp only [settle]
    rw [Option.map_none, Option.toList_none, Option.toList_none, List.append_nil,
      List.append_nil, List.append_nil]
    refine ⟨q, h.stands, h.lwm_eq, h.fifo, fun _ => ?_, hpushes⟩
    rw [hempty, List.length_nil]
    exact Nat.zero_le _
  | asleep hempty =>
    refine ⟨q, h.stands, h.lwm_eq, h.fifo, fun _ => ?_, hpushes⟩
    rw [hempty, List.length_nil]
    exact Nat.zero_le _
  | @taken next item rest event hitems hstands hlwm hpush hpop =>
    have hrest : (q.dropFront 1).items = rest := by
      rw [BoundedQueue.items_dropFront, hitems, List.drop_one, List.tail_cons]
    rw [hitems, List.length_cons] at hpops hpushes
    dsimp only [settle, DataQueueWait.side, DataQueueSide.other]
    rw [List.append_nil, Option.toList_some]
    refine ⟨q.dropFront 1, hstands, hlwm.trans h.lwm_eq, ?_, ?_, ?_⟩
    · dsimp only
      rw [h.fifo, hitems, hrest, List.append_assoc, List.singleton_append]
    · dsimp only
      rw [hpop, hrest]
      intro hmore
      have hbefore := hpops hmore
      have hmono := s.owed_le (s.queue.suspendedPushList.head?.map
        (DataQueueSide.push, ·, rtEok)).toList .pop
      unfold owed at hbefore hmono ⊢
      dsimp only
      omega
    · dsimp only
      rw [hpush, hrest]
      intro hmore
      cases hlist : s.queue.suspendedPushList with
      | nil => rw [hlist] at hmore; exact absurd rfl hmore
      | cons waiter others =>
        have hbefore := hpushes (by rw [hlist]; exact List.cons_ne_nil _ _)
        unfold owed at hbefore ⊢
        dsimp only
        rw [List.head?_cons, Option.map_some, Option.toList_some, owed_snoc, one, if_pos rfl]
        omega
  | @many next item rest event hitems hmany hstands hlwm hpush hpop =>
    have hrest : (q.dropFront 1).items = rest := by
      rw [BoundedQueue.items_dropFront, hitems, List.drop_one, List.tail_cons]
    rw [hitems, List.length_cons] at hpops hpushes
    dsimp only [settle]
    rw [Option.map_none, Option.toList_none, List.append_nil, List.append_nil, Option.toList_some]
    refine ⟨q.dropFront 1, hstands, hlwm.trans h.lwm_eq, ?_, ?_, ?_⟩
    · dsimp only
      rw [h.fifo, hitems, hrest, List.append_assoc, List.singleton_append]
    · dsimp only
      rw [hpop, hrest]
      intro hmore
      exact Nat.le_of_succ_le_succ (hpops hmore)
    · -- more than `lwm` items are left
      intro _
      rw [hrest]
      rw [h.lwm_eq] at hmany
      omega

/-- A turn keeps the queue, with nothing left in hand. -/
theorem Kept.turn (call : DataQueueWait) (h : s.Kept lwm q (one call.side))
    (hfits : call.side = .push → s.queue.PushFits) (thread : RtThread) :
    ∃ q' : BoundedQueue RtDataItem size, (s.turn thread call).Kept lwm q' fun _ => 0 := by
  cases call with
  | push item timeout => exact h.push (hfits rfl) thread item timeout
  | pop timeout => exact h.pop thread timeout

/-- Behind a caller that was resumed by the other side, the wake-up that it spends is counted. -/
theorem Kept.spend (h : s.Kept lwm q fun _ => 0) (hmem : (side, thread, rtEok) ∈ s.resumed) :
    { s with resumed := s.resumed.erase (side, thread, rtEok) : DataQueueSystem }.Kept lwm q
      (one side) := by
  have howed (other : DataQueueSide) :
      s.owed other = (s.resumed.erase (side, thread, rtEok)).countP
        (fun r => r.1 = other ∧ r.2.2 = rtEok) + one side other := by
    rw [owed, (List.perm_cons_erase hmem).countP_eq, List.countP_cons]
    simp only [and_true, decide_eq_true_eq, one, @eq_comm _ side other]
  refine ⟨h.stands, h.lwm_eq, h.fifo, ?_, ?_⟩
  · intro hmore
    exact Nat.le_trans (h.pops hmore) (Nat.le_of_eq (howed .pop))
  · intro hmore
    have hbefore := h.pushes hmore
    rw [Nat.add_zero, howed .push, ← Nat.add_assoc] at hbefore
    exact hbefore

/-- Callers that leave their list with an error pay nothing, nor do they when they return it. -/
theorem Kept.leave (h : s.Kept lwm q fun _ => 0) {pushers poppers : List RtThread}
    {calls : RtThread → Option DataQueueWait} {resumed : List (DataQueueSide × RtThread × Int)}
    (hpushers : pushers ≠ [] → s.queue.suspendedPushList ≠ [])
    (hpoppers : poppers ≠ [] → s.queue.suspendedPopList ≠ [])
    (howed : ∀ side, resumed.countP (fun r => r.1 = side ∧ r.2.2 = rtEok) = s.owed side) :
    { s with
      queue := { s.queue with suspendedPushList := pushers, suspendedPopList := poppers }
      calls, resumed : DataQueueSystem }.Kept lwm q fun _ => 0 := by
  refine ⟨h.stands, h.lwm_eq, h.fifo, ?_, ?_⟩
  · intro hmore
    exact Nat.le_trans (h.pops (hpoppers hmore)) (Nat.le_of_eq (howed .pop).symm)
  · intro hmore
    have hbefore := h.pushes (hpushers hmore)
    rw [← howed .push] at hbefore
    exact hbefore

/-! ## The callers that wait -/

/-- Every call that has not returned has its thread in one list, that of its side or the one of the
threads that were resumed. -/
structure Tracked (calls : RtThread → Option DataQueueWait)
    (waiting : List (DataQueueSide × RtThread)) : Prop where
  nodup : (waiting.map Prod.snd).Nodup
  mem_iff : ∀ side thread,
    (side, thread) ∈ waiting ↔ ∃ call, calls thread = some call ∧ call.side = side

variable {calls : RtThread → Option DataQueueWait} {call : DataQueueWait}
  {waiting other : List (DataQueueSide × RtThread)}

/-- The order of the waiters does not matter. -/
theorem Tracked.perm (h : Tracked calls waiting) (hperm : other.Perm waiting) :
    Tracked calls other :=
  ⟨(hperm.map Prod.snd).nodup_iff.mpr h.nodup, fun side thread =>
    hperm.mem_iff.trans (h.mem_iff side thread)⟩

/-- A caller that goes to sleep. -/
theorem Tracked.add (h : Tracked (Function.update calls thread none) waiting) :
    Tracked (Function.update calls thread (some call)) ((call.side, thread) :: waiting) where
  nodup := by
    rw [List.map_cons, List.nodup_cons]
    refine ⟨?_, h.nodup⟩
    intro hmem
    obtain ⟨⟨side, other⟩, hmember, heq⟩ := List.mem_map.mp hmem
    obtain rfl : other = thread := heq
    obtain ⟨call, hcall, -⟩ := (h.mem_iff side other).mp hmember
    rw [Function.update_self] at hcall
    cases hcall
  mem_iff side other := by
    rw [List.mem_cons, h.mem_iff]
    by_cases heq : other = thread
    · subst heq
      simp only [Function.update_self, Prod.mk.injEq, and_true, reduceCtorEq, false_and,
        exists_false, or_false, Option.some.injEq, exists_eq_left', @eq_comm _ side]
    · simp only [Prod.mk.injEq, heq, and_false, false_or, Function.update_of_ne heq]

/-- A caller that takes its turn. -/
theorem Tracked.drop (h : Tracked calls ((side, thread) :: waiting)) :
    Tracked (Function.update calls thread none) waiting where
  nodup := (List.nodup_cons.mp h.nodup).2
  mem_iff aside other := by
    have hother := h.mem_iff aside other
    rw [List.mem_cons] at hother
    by_cases heq : other = thread
    · subst heq
      have hnot := (List.nodup_cons.mp h.nodup).1
      simp only [Function.update_self, reduceCtorEq, false_and, exists_false, iff_false]
      intro hmem
      exact hnot (List.mem_map.mpr ⟨_, hmem, rfl⟩)
    · rw [Function.update_of_ne heq, ← hother]
      simp only [Prod.mk.injEq, heq, and_false, false_or]

variable {pushers poppers rest : List RtThread}
  {resumed less : List (DataQueueSide × RtThread × Int)}

theorem callersIn_push (h : pushers.Perm (thread :: rest)) :
    (callersIn pushers poppers resumed).Perm
      ((.push, thread) :: callersIn rest poppers resumed) :=
  ((h.map (DataQueueSide.push, ·)).append_right _).append_right _

theorem callersIn_pop (h : poppers.Perm (thread :: rest)) :
    (callersIn pushers poppers resumed).Perm
      ((.pop, thread) :: callersIn pushers rest resumed) :=
  (((h.map (DataQueueSide.pop, ·)).append_left _).trans List.perm_middle).append_right _

/-- A resumed thread is taken from the callers. -/
theorem callersIn_resumed (h : resumed.Perm ((side, thread, error) :: less)) :
    (callersIn pushers poppers resumed).Perm
      ((side, thread) :: callersIn pushers poppers less) :=
  ((h.map fun r => (r.1, r.2.1)).append_left _).trans List.perm_middle

/-- The first caller that waits to pop is resumed. -/
theorem callersIn_wakePop :
    (callersIn pushers poppers.tail
      (resumed ++ (poppers.head?.map (DataQueueSide.pop, ·, error)).toList)).Perm
        (callersIn pushers poppers resumed) := by
  cases poppers with
  | nil =>
    rw [List.head?_nil, Option.map_none, Option.toList_none, List.append_nil]
    exact .refl _
  | cons waiter rest =>
    exact (callersIn_resumed (List.perm_append_singleton _ _)).trans
      (callersIn_pop (List.Perm.refl _)).symm

/-- The first caller that waits to push is resumed. -/
theorem callersIn_wakePush :
    (callersIn pushers.tail poppers
      (resumed ++ (pushers.head?.map (DataQueueSide.push, ·, error)).toList)).Perm
        (callersIn pushers poppers resumed) := by
  cases pushers with
  | nil =>
    rw [List.head?_nil, Option.map_none, Option.toList_none, List.append_nil]
    exact .refl _
  | cons waiter rest =>
    exact (callersIn_resumed (List.perm_append_singleton _ _)).trans
      (callersIn_push (List.Perm.refl _)).symm

/-- A turn moves callers from one list to another, and its own where it goes to sleep. -/
theorem Tracked.turn (h : Tracked (Function.update s.calls thread none) s.waiting)
    (hstands : s.queue.alone.Stands q) (hfits : call.side = .push → s.queue.PushFits) :
    Tracked (s.turn thread call).calls (s.turn thread call).waiting := by
  unfold waiting at h
  unfold DataQueueSystem.turn
  cases call with
  | push item timeout =>
    have hturn := RtDataQueue.push_turn hstands (hfits rfl) thread item timeout
    dsimp only
    generalize rtDataQueuePush s.queue thread item timeout = result at hturn
    cases hturn with
    | refused =>
      dsimp only [settle, waiting]
      rw [Option.map_none, Option.toList_none, List.append_nil]
      exact h
    | asleep => exact h.add.perm (callersIn_push (List.perm_append_singleton _ _))
    | stored event hroom hstands hlwm hpush hpop =>
      dsimp only [settle, waiting]
      rw [hpush, hpop]
      exact h.perm callersIn_wakePop
  | pop timeout =>
    have hturn := RtDataQueue.pop_turn hstands thread timeout
    dsimp only
    generalize rtDataQueuePop s.queue thread timeout = result at hturn
    cases hturn with
    | refused =>
      dsimp only [settle, waiting]
      rw [Option.map_none, Option.toList_none, List.append_nil]
      exact h
    | asleep => exact h.add.perm (callersIn_pop (List.perm_append_singleton _ _))
    | taken event hitems hstands hlwm hpush hpop =>
      dsimp only [settle, waiting]
      rw [hpush, hpop]
      exact h.perm callersIn_wakePush
    | many event hitems hmany hstands hlwm hpush hpop =>
      dsimp only [settle, waiting]
      rw [hpush, hpop, Option.map_none, Option.toList_none, List.append_nil]
      exact h

/-! ## Every interleaving -/

/-- The invariant: the wake-ups that are owed, and every caller in one list. -/
structure Holds (size lwm : Nat) (s : DataQueueSystem) : Prop where
  kept : ∃ q : BoundedQueue RtDataItem size, s.Kept lwm q fun _ => 0
  tracked : Tracked s.calls s.waiting

/-- What is kept tightly is kept with slack. -/
theorem Kept.slacken {slack : DataQueueSide → Nat} (h : s.Kept lwm q fun _ => 0) :
    s.Kept lwm q slack :=
  ⟨h.stands, h.lwm_eq, h.fifo, fun hmore => Nat.le_trans (h.pops hmore) (Nat.le_add_right _ _),
    fun hmore => Nat.le_trans (h.pushes hmore) (Nat.le_add_right _ _)⟩

/-- A thread that calls keeps the invariant. -/
theorem Holds.comes (h : Holds size lwm s) (hidle : s.calls thread = none)
    (hfits : call.side = .push → s.queue.PushFits) : Holds size lwm (s.turn thread call) := by
  obtain ⟨q, hkept⟩ := h.kept
  refine ⟨hkept.slacken.turn call hfits thread, Tracked.turn ?_ hkept.stands hfits⟩
  rw [← hidle, Function.update_eq_self]
  exact h.tracked

theorem Holds.run (h : Holds size lwm s) (hmem : (side, thread, error) ∈ s.resumed)
    (hcall : s.calls thread = some call) (hfits : error = rtEok → side = .push → s.queue.PushFits) :
    Holds size lwm (s.run side thread error call) := by
  obtain ⟨q, hkept⟩ := h.kept
  have hwaiting : s.waiting.Perm ((side, thread) :: callersIn s.queue.suspendedPushList
      s.queue.suspendedPopList (s.resumed.erase (side, thread, error))) :=
    callersIn_resumed (List.perm_cons_erase hmem)
  have htracked := h.tracked.perm hwaiting.symm
  obtain ⟨other, hother, hside⟩ := (htracked.mem_iff side thread).mp List.mem_cons_self
  obtain rfl : call = other := Option.some.inj (hcall.symm.trans hother)
  subst hside
  unfold DataQueueSystem.run
  dsimp only
  by_cases herror : error = rtEok
  · rw [if_neg (not_not_intro herror)]
    subst herror
    exact ⟨(hkept.spend hmem).turn call (hfits rfl) thread,
      Tracked.turn htracked.drop hkept.stands (hfits rfl)⟩
  · rw [if_pos herror]
    refine ⟨⟨q, hkept.leave id id ?_⟩, htracked.drop⟩
    intro other
    rw [owed, (List.perm_cons_erase hmem).countP_eq, List.countP_cons_of_neg]
    rw [decide_eq_true_eq]
    exact fun hboth => herror hboth.2

/-- A caller leaves its list with an error. -/
theorem Holds.leave (h : Holds size lwm s) (herror : error ≠ rtEok)
    (hpushers : pushers ≠ [] → s.queue.suspendedPushList ≠ [])
    (hpoppers : poppers ≠ [] → s.queue.suspendedPopList ≠ [])
    (hperm : (callersIn pushers poppers (s.resumed ++ [(side, thread, error)])).Perm s.waiting) :
    Holds size lwm { s with
      queue := { s.queue with suspendedPushList := pushers, suspendedPopList := poppers }
      resumed := s.resumed ++ [(side, thread, error)] } := by
  obtain ⟨q, hkept⟩ := h.kept
  refine ⟨⟨q, hkept.leave hpushers hpoppers ?_⟩, h.tracked.perm hperm⟩
  intro other
  rw [List.countP_append, List.countP_singleton, if_neg, Nat.add_zero]
  · rfl
  · rw [decide_eq_true_eq]
    exact fun hboth => herror hboth.2

theorem Holds.expire (h : Holds size lwm s)
    (hmem : thread ∈ match side with
      | .push => s.queue.suspendedPushList
      | .pop => s.queue.suspendedPopList) :
    Holds size lwm (s.expire side thread) := by
  have herror : ¬ -rtEtimeout = rtEok := by decide
  cases side with
  | push =>
    refine h.leave herror (fun _ => List.ne_nil_of_mem hmem) id ?_
    exact (callersIn_resumed (List.perm_append_singleton _ _)).trans
      (callersIn_push (List.perm_cons_erase hmem)).symm
  | pop =>
    refine h.leave herror id (fun _ => List.ne_nil_of_mem hmem) ?_
    exact (callersIn_resumed (List.perm_append_singleton _ _)).trans
      (callersIn_pop (List.perm_cons_erase hmem)).symm

/-- Every step keeps the invariant. -/
theorem Holds.step {evtNotify : Bool} {cells : List RtDataItem} {action : DataQueueAction}
    {s' : DataQueueSystem} (h : Holds size lwm s) (hfits : PushesFit s action)
    (hstep : (dataQueueMachine size lwm evtNotify cells).step s action = some s') :
    Holds size lwm s' := by
  have herror : ¬ -rtError = rtEok := by decide
  cases action with
  | call thread call =>
    obtain ⟨hidle, hstep⟩ := Option.ite_none_right_eq_some.mp hstep
    cases hstep
    refine h.comes hidle ?_
    cases call with
    | push item timeout => exact fun _ => hfits
    | pop timeout => exact fun hside => nomatch hside
  | run side thread error =>
    obtain ⟨hmem, hstep⟩ := Option.ite_none_right_eq_some.mp hstep
    obtain ⟨call, hcall, rfl⟩ := Option.map_eq_some_iff.mp hstep
    refine h.run hmem hcall ?_
    rintro hnone rfl
    exact hfits hnone
  | timeout thread =>
    obtain ⟨call, hcall, hstep⟩ := Option.bind_eq_some_iff.mp hstep
    obtain ⟨⟨-, hmem⟩, hstep⟩ := Option.ite_none_right_eq_some.mp hstep
    cases hstep
    exact h.expire hmem
  | resetPop =>
    simp only [dataQueueMachine] at hstep
    split at hstep
    · next thread rest hlist =>
      cases hstep
      refine h.leave herror id (fun _ => hlist ▸ List.cons_ne_nil _ _) ?_
      rw [waiting, hlist]
      exact (callersIn_resumed (List.perm_append_singleton _ _)).trans
        (callersIn_pop (List.Perm.refl _)).symm
    · cases hstep
  | resetPush =>
    simp only [dataQueueMachine] at hstep
    split at hstep
    · next thread rest hlist =>
      cases hstep
      refine h.leave herror (fun _ => hlist ▸ List.cons_ne_nil _ _) id ?_
      rw [waiting, hlist]
      exact (callersIn_resumed (List.perm_append_singleton _ _)).trans
        (callersIn_push (List.Perm.refl _)).symm
    · cases hstep

theorem holds_init {evtNotify : Bool} {cells : List RtDataItem} (hpos : 0 < size)
    (hlt : size < 0x10000) (hcells : cells.length = size) :
    Holds size lwm (dataQueueMachine size lwm evtNotify cells).init where
  kept := ⟨.empty, RtDataQueue.stands_init hpos hlt hcells, rfl, rfl,
    fun hmore => absurd rfl hmore, fun hmore => absurd rfl hmore⟩
  tracked := ⟨List.nodup_nil, fun _ _ => ⟨fun hmem => (List.not_mem_nil hmem).elim,
    fun ⟨_, hcall, _⟩ => nomatch hcall⟩⟩

end DataQueueSystem

/-- In every interleaving of calls, wake-ups, timeouts and resets, the items that were pushed are
those that were popped and then those in the cells, in order; an item waits beside a caller that
waits for one only where a resumed caller is about to take it, and a caller that waits to push has
more than `lwm` items or resumed callers before it; and each call that has not returned has its
thread in exactly one list. -/
theorem dataQueue_waits {size lwm : Nat} {evtNotify : Bool} {cells : List RtDataItem}
    (hpos : 1 ≤ size) (hlt : size < 0x10000) (hcells : cells.length = size) {s : DataQueueSystem}
    (h : (dataQueueMachine size lwm evtNotify cells).Reach PushesFit s) :
    (∃ items : List RtDataItem,
      s.accepted = s.delivered ++ items ∧ items.length ≤ size ∧
        (∀ offset < items.length, s.queue.queue[s.queue.cell offset]? = items[offset]?) ∧
        (s.queue.suspendedPopList ≠ [] → items.length ≤ s.owed .pop) ∧
        (s.queue.suspendedPushList ≠ [] → min (lwm + 1) size ≤ items.length + s.owed .push)) ∧
      (s.waiting.map Prod.snd).Nodup ∧
      ∀ side thread, (side, thread) ∈ s.waiting ↔
        ∃ call, s.calls thread = some call ∧ call.side = side := by
  have hholds : DataQueueSystem.Holds size lwm s :=
    h.invariant (DataQueueSystem.holds_init hpos hlt hcells)
      fun _ _ _ hs hfits hstep => hs.step hfits hstep
  obtain ⟨⟨q, hkept⟩, htracked⟩ := hholds
  exact ⟨⟨q.items, hkept.fifo, q.bounded, hkept.stands.items, hkept.pops, hkept.pushes⟩,
    htracked.nodup, htracked.mem_iff⟩

/-- Two threads wait to pop, and a push wakes one of them while the other one's timer runs out. -/
theorem dataQueue_waits_two :
    ∃ s, (dataQueueMachine 2 0 false [oneItem, oneItem]).Reach PushesFit s ∧
      s.queue.suspendedPopList = [⟨3, 10⟩] ∧ s.owed .pop = 1 ∧ s.waiting.length = 3 ∧
      ∃ items, s.accepted = s.delivered ++ items ∧ items.length ≤ s.owed .pop := by
  obtain ⟨s, hreach, hlist, howed, hcount⟩ :=
    Machine.exists_reach_of_run (dataQueueMachine 2 0 false [oneItem, oneItem]) PushesFit
      [.call ⟨1, 10⟩ (.pop (-1)), .call ⟨2, 10⟩ (.pop 5), .call ⟨3, 10⟩ (.pop 5),
        .call ⟨4, 10⟩ (.push otherItem 0), .timeout ⟨2, 10⟩]
      (fun s => s.queue.suspendedPopList = [⟨3, 10⟩] ∧ s.owed .pop = 1 ∧ s.waiting.length = 3)
      (by decide +kernel)
  obtain ⟨⟨items, hfifo, -, -, hpops, -⟩, -⟩ := @dataQueue_waits 2 0 false [oneItem, oneItem]
    (by decide) (by decide) rfl s hreach
  exact ⟨s, hreach, hlist, howed, hcount, items, hfifo, hpops (hlist ▸ List.cons_ne_nil _ _)⟩

end RtVcom.Driver
