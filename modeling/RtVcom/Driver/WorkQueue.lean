import Mathlib.Data.List.Sublists
import RtVcom.Kernel.Ipc
import RtVcom.Lib.Machine

/-!
# The work queue

`components/drivers/src/workqueue.c`. Threads and interrupts put works into a list and take them out
of it, and one thread does them, the oldest first. The worker tests the list, suspends itself where
it is empty, and takes a work once it is resumed. The test, the suspension and the taking are three
steps, and a caller that has put a work in resumes the worker in a step of its own.
`rt_workqueue_cancel_all_work` locks the scheduler and takes out a work a turn. Between two turns
interrupts come, and they may put in and cancel as well.

So a resumption can come too early: between the test and the suspension it has no effect, and the
worker sleeps on a work. And it can come too late: behind a work that is done already, or that was
cancelled, it wakes a worker that takes the head of an empty list. `KeepsAwake` names these steps.
In every run without them (`workqueue_serves`) the works are done in the order in which they were
put in, none of them is lost or done twice, the worker finds a work whenever it takes one, and it
never sleeps on one. A thread in `rt_workqueue_cancel_work_sync` waits only while the work that it
met is being done.
-/

namespace RtVcom.Driver

open RtVcom.Lib RtVcom.Kernel

/-! ## The queue -/

/-- A `struct rt_work`, by its address. -/
abbrev RtWork : Type := Nat

/-- `struct rt_workqueue`. -/
structure RtWorkqueue where
  workList : List RtWork
  workCurrent : Option RtWork
  sem : RtSem

/-- `rt_workqueue_create`. -/
def rtWorkqueueCreate : RtWorkqueue where
  workList := []
  workCurrent := none
  sem := rtSemInit 0 .fifo

/-- `RT_EBUSY`. -/
def rtEbusy : Int := 7

namespace RtWorkqueue

variable (queue : RtWorkqueue)

/-- The critical section of `rt_workqueue_dowork`, and whether the caller goes on to resume the
worker. A work that is in the list is moved to its end. -/
def rtWorkqueueDowork (work : RtWork) : RtWorkqueue × Int × Bool :=
  if queue.workCurrent = some work then (queue, -rtEbusy, false)
  else ({ queue with workList := queue.workList.erase work ++ [work] }, rtEok,
    queue.workCurrent.isNone)

/-- `rt_workqueue_critical_work`, which is the same. -/
def rtWorkqueueCriticalWork (work : RtWork) : RtWorkqueue × Int × Bool :=
  queue.rtWorkqueueDowork work

/-- `rt_workqueue_cancel_work`. -/
def rtWorkqueueCancelWork (work : RtWork) : RtWorkqueue × Int :=
  if queue.workCurrent = some work then (queue, -rtEbusy)
  else ({ queue with workList := queue.workList.erase work }, rtEok)

/-- `rt_workqueue_cancel_work_sync`, to where it returns or gives up the processor. -/
def rtWorkqueueCancelWorkSync (work : RtWork) (thread : RtThread) : RtWorkqueue :=
  if queue.workCurrent = some work then
    { queue with sem := (rtSemTake queue.sem thread rtWaitingForever).1 }
  else { queue with workList := queue.workList.erase work }

/-- A turn of the loop of `rt_workqueue_cancel_all_work`, with the node that is next. Behind the
last one that is the head of the list, here `none`; a node in no list is its own next one. -/
def rtWorkqueueCancelAllWork (node : RtWork) : RtWorkqueue × Option RtWork :=
  ({ queue with workList := queue.workList.erase node },
    if node ∈ queue.workList then (queue.workList.dropWhile (· ≠ node)).tail.head? else some node)

end RtWorkqueue

/-- The worker, as the thread that tries the semaphore. -/
def workThread : RtThread := ⟨0, 0⟩

/-- The loop of `_workqueue_work_completion`, whose passes are counted. -/
def workqueueWorkCompletion : Nat → RtSem → Option RtSem
  | 0, _ => none
  | passes + 1, sem =>
    match rtSemTake sem workThread 0 with
    | (sem, .returns result) =>
      if result = -rtEtimeout then workqueueWorkCompletion passes (rtSemRelease sem).1 else some sem
    | (_, .suspends) => none

/-- It resumes everyone who waits, and leaves no token. -/
theorem workqueueWorkCompletion_eq {sem : RtSem} (hvalue : sem.value = 0) {passes : Nat}
    (hpasses : sem.suspendThread.length + 1 < passes) :
    workqueueWorkCompletion passes sem = some { sem with suspendThread := [] } := by
  obtain ⟨value, waiting, flag⟩ := sem
  obtain rfl : value = 0 := hvalue
  induction waiting generalizing passes with
  | nil =>
    change 0 + 1 < passes at hpasses
    obtain ⟨passes, rfl⟩ : ∃ n, passes = n + 2 := ⟨passes - 2, by omega⟩
    rfl
  | cons thread waiting ih =>
    change waiting.length + 1 + 1 < passes at hpasses
    obtain ⟨passes, rfl⟩ : ∃ n, passes = n + 1 := ⟨passes - 1, by omega⟩
    refine ih ?_
    change waiting.length + 1 < passes
    omega

/-! ## The worker and its callers -/

/-- Where the worker is in `_workqueue_thread_entry`. -/
inductive WorkerPc
  | testing
  | suspending
  | asleep
  | taking
  | working
  | completing
deriving Repr, DecidableEq

/-- The worker has found the list empty and is not resumed yet. -/
def WorkerPc.goesToSleep : WorkerPc → Bool
  | .suspending | .asleep => true
  | .testing | .taking | .working | .completing => false

/-- Whether a thread is in `rt_workqueue_cancel_all_work`, and at which node. -/
inductive CancelAllPc
  | out
  | looping (node : Option RtWork)
deriving Repr, DecidableEq

/-- The queue, the worker, the callers that are about to resume it, and the thread that cancels all
works; with the works that were put in, those that were done, and those that were taken out of the
list again. -/
structure WorkSystem where
  queue : RtWorkqueue
  pc : WorkerPc
  resumes : Nat
  cancelPc : CancelAllPc
  submitted : List RtWork
  done : List RtWork
  withdrawn : List RtWork

/-- What happens: a step of the worker, or a call. -/
inductive WorkAction
  | test
  | suspend
  | take
  | finish
  | complete
  | dowork (work : RtWork)
  | resume
  | cancel (work : RtWork)
  | cancelSync (work : RtWork) (thread : RtThread)
  | cancelAll
  | cancelNext
deriving Repr, DecidableEq

/-- What needs a thread that runs. The rest comes from interrupts too, but for the next turn of
`rt_workqueue_cancel_all_work`, which holds the scheduler. -/
def WorkAction.ofThread : WorkAction → Bool
  | .test | .suspend | .take | .finish | .complete | .cancelSync _ _ | .cancelAll => true
  | .dowork _ | .resume | .cancel _ | .cancelNext => false

/-- What a call with a work takes out of the list. -/
def WorkSystem.takenOut (s : WorkSystem) (work : RtWork) : List RtWork :=
  if s.queue.workCurrent ≠ some work ∧ work ∈ s.queue.workList then [work] else []

/-- The work that the next turn of `rt_workqueue_cancel_all_work` takes out. -/
def WorkSystem.cancelled (s : WorkSystem) : Option RtWork :=
  match s.cancelPc with
  | .looping node => node
  | .out => none

/-- A step of the worker, or of a call. -/
def WorkSystem.act (s : WorkSystem) : WorkAction → Option WorkSystem
  | .test =>
    if s.pc = .testing then
      some { s with pc := if s.queue.workList = [] then .suspending else .taking }
    else none
  | .suspend => if s.pc = .suspending then some { s with pc := .asleep } else none
  | .take =>
    if s.pc = .taking then
      match s.queue.workList with
      | work :: workList => some { s with
          queue := { s.queue with workList, workCurrent := some work }
          pc := .working }
      -- the head of the list is taken for a work
      | [] => none
    else none
  | .finish =>
    if s.pc = .working then
      some { s with
        queue := { s.queue with workCurrent := none }
        pc := .completing
        done := s.done ++ s.queue.workCurrent.toList }
    else none
  | .complete =>
    if s.pc = .completing then
      (workqueueWorkCompletion (s.queue.sem.suspendThread.length + 2) s.queue.sem).map fun sem =>
        { s with queue := { s.queue with sem }, pc := .testing }
    else none
  | .dowork work =>
    let (queue, result, resumes) := s.queue.rtWorkqueueDowork work
    some { s with
      queue
      resumes := if resumes then s.resumes + 1 else s.resumes
      submitted := if result = rtEok then s.submitted ++ [work] else s.submitted
      withdrawn := s.withdrawn ++ s.takenOut work }
  | .resume =>
    if 0 < s.resumes then
      some { s with
        resumes := s.resumes - 1
        pc := if s.pc = .asleep then .taking else s.pc }
    else none
  | .cancel work => some { s with
      queue := (s.queue.rtWorkqueueCancelWork work).1
      withdrawn := s.withdrawn ++ s.takenOut work }
  | .cancelSync work thread =>
    if thread ∈ s.queue.sem.suspendThread then none
    else some { s with
      queue := s.queue.rtWorkqueueCancelWorkSync work thread
      withdrawn := s.withdrawn ++ s.takenOut work }
  | .cancelAll => some { s with cancelPc := .looping s.queue.workList.head? }
  | .cancelNext =>
    match s.cancelPc with
    | .looping (some work) => some { s with
        queue := (s.queue.rtWorkqueueCancelAllWork work).1
        cancelPc := .looping (s.queue.rtWorkqueueCancelAllWork work).2
        withdrawn := s.withdrawn ++ s.takenOut work }
    | .looping none => some { s with cancelPc := .out }
    | .out => none

/-- The work queue behind `rt_workqueue_create`. While a thread cancels all works the scheduler is
locked, and only interrupts come. -/
def workMachine : Machine WorkSystem WorkAction where
  init :=
    { queue := rtWorkqueueCreate
      pc := .testing
      resumes := 0
      cancelPc := .out
      submitted := []
      done := []
      withdrawn := [] }
  step s action := if s.cancelPc ≠ .out ∧ action.ofThread = true then none else s.act action

/-- No resumption comes too early, where the worker has found the list empty and does not sleep yet,
unless there is one more to come; none comes too late, where the works are gone; and no call takes
the last work away from a worker that is about to take it. -/
def KeepsAwake (s : WorkSystem) : WorkAction → Prop
  | .resume =>
    (s.pc = .suspending → s.queue.workList = [] ∨ 1 < s.resumes) ∧
      (s.pc = .asleep → s.queue.workList ≠ [])
  | .cancel work | .cancelSync work _ => s.pc = .taking → s.queue.workList ≠ [work]
  | .cancelNext => s.pc = .taking → s.queue.workList ≠ s.cancelled.toList
  | .test | .suspend | .take | .finish | .complete | .dowork _ | .cancelAll => True

instance : DecidableRel KeepsAwake := fun _ action =>
  match action with
  | .resume => inferInstanceAs (Decidable ((_ → _ ∨ _) ∧ (_ → _)))
  | .cancel _ | .cancelSync _ _ | .cancelNext => inferInstanceAs (Decidable (_ → _))
  | .test | .suspend | .take | .finish | .complete | .dowork _ | .cancelAll => isTrue trivial

/-- The worker finds a work when it takes one, and a caller is about to resume it where it sleeps on
works or is about to. -/
def WorkSystem.Wakeful (s : WorkSystem) : Prop :=
  (s.pc = .taking → s.queue.workList ≠ []) ∧
    (s.pc.goesToSleep = true → s.queue.workList ≠ [] → 0 < s.resumes)

/-! ## What every step keeps -/

/-- The invariant. -/
structure WorkSystem.Serves (s : WorkSystem) : Prop where
  order : (s.done ++ s.queue.workCurrent.toList ++ s.queue.workList).Sublist s.submitted
  count : ∀ work, s.submitted.count work = s.done.count work +
    s.queue.workCurrent.toList.count work + s.queue.workList.count work + s.withdrawn.count work
  nodup : (s.queue.workCurrent.toList ++ s.queue.workList).Nodup
  current : s.queue.workCurrent ≠ none ↔ s.pc = .working
  wakeful : s.Wakeful
  token : s.queue.sem.value = 0
  waiting : s.queue.sem.suspendThread ≠ [] → s.pc = .working ∨ s.pc = .completing

namespace WorkSystem

variable {s s' : WorkSystem}

/-- The invariant holds before the first call. -/
theorem serves_init : workMachine.init.Serves where
  order := List.nil_sublist _
  count _ := rfl
  nodup := List.nodup_nil
  current := by decide
  wakeful := ⟨nofun, nofun⟩
  token := rfl
  waiting h := absurd rfl h

/-- Some works are taken out of the list. -/
theorem Serves.withdraw (h : s.Serves) {workList withdrawn : List RtWork}
    (hsub : workList.Sublist s.queue.workList)
    (hcount : ∀ work, s.queue.workList.count work = workList.count work + withdrawn.count work)
    (htaking : s.pc = .taking → workList ≠ []) :
    Serves { s with
      queue := { s.queue with workList }
      withdrawn := s.withdrawn ++ withdrawn } where
  order := (hsub.append_left _).trans h.order
  count work := by
    have hold := h.count work
    have hout := hcount work
    dsimp only
    rw [List.count_append]
    omega
  nodup := h.nodup.sublist (hsub.append_left _)
  current := h.current
  wakeful := ⟨htaking,
    fun hpc hne => h.wakeful.2 hpc fun hnil => hne (List.sublist_nil.mp (hnil ▸ hsub))⟩
  token := h.token
  waiting := h.waiting

theorem Serves.idle (h : s.Serves) (hpc : s.pc ≠ .working) : s.queue.workCurrent = none :=
  not_not.mp (mt h.current.mp hpc)

/-- A call with a work that is not being done takes it out of the list where it is there. -/
theorem count_takenOut {work : RtWork} (hcurrent : s.queue.workCurrent ≠ some work)
    (other : RtWork) : s.queue.workList.count other =
      (s.queue.workList.erase work).count other + (s.takenOut work).count other := by
  by_cases hmem : work ∈ s.queue.workList
  · rw [takenOut, if_pos ⟨hcurrent, hmem⟩, (List.perm_cons_erase hmem).count_eq,
      ← List.singleton_append, List.count_append, Nat.add_comm]
  · rw [takenOut, if_neg fun hout => hmem hout.2, List.erase_of_not_mem hmem, List.count_nil,
      Nat.add_zero]

/-- A work is taken out. -/
theorem Serves.takeOut (h : s.Serves) {work : RtWork} (hcurrent : s.queue.workCurrent ≠ some work)
    (hok : s.pc = .taking → s.queue.workList ≠ [work]) :
    Serves { s with
      queue := { s.queue with workList := s.queue.workList.erase work }
      withdrawn := s.withdrawn ++ s.takenOut work } := by
  refine h.withdraw List.erase_sublist (count_takenOut hcurrent) fun hpc hnil => ?_
  rcases List.erase_eq_nil_iff.mp hnil with hnone | hlast
  · exact h.wakeful.1 hpc hnone
  · exact hok hpc hlast

/-- The worker goes on and leaves the queue as it is. -/
theorem Serves.moves (h : s.Serves) {pc : WorkerPc} {resumes : Nat}
    (hworking : pc = .working ↔ s.pc = .working)
    (hcompleting : s.pc = .completing → pc = .completing)
    (htaking : pc = .taking → s.queue.workList ≠ [])
    (hawake : pc.goesToSleep = true → s.queue.workList ≠ [] → 0 < resumes) :
    Serves { s with pc, resumes } where
  order := h.order
  count := h.count
  nodup := h.nodup
  current := h.current.trans hworking.symm
  wakeful := ⟨htaking, hawake⟩
  token := h.token
  waiting hne := (h.waiting hne).imp hworking.mpr hcompleting

theorem Serves.test (h : s.Serves) (hpc : s.pc = .testing) :
    Serves { s with pc := if s.queue.workList = [] then .suspending else .taking } := by
  by_cases hempty : s.queue.workList = []
  · rw [if_pos hempty]
    exact h.moves (by rw [hpc]; decide) (by rw [hpc]; decide) nofun
      fun _ hne => absurd hempty hne
  · rw [if_neg hempty]
    exact h.moves (by rw [hpc]; decide) (by rw [hpc]; decide) (fun _ => hempty) nofun

/-- A pending resume is carried out, under `KeepsAwake`. -/
theorem Serves.resume (h : s.Serves) (hok : KeepsAwake s .resume) :
    Serves { s with
      resumes := s.resumes - 1
      pc := if s.pc = .asleep then .taking else s.pc } := by
  obtain ⟨hearly, hlate⟩ := hok
  by_cases hasleep : s.pc = .asleep
  · rw [if_pos hasleep]
    exact h.moves (by rw [hasleep]; decide) (by rw [hasleep]; decide) (fun _ => hlate hasleep)
      nofun
  · rw [if_neg hasleep]
    refine h.moves Iff.rfl id h.wakeful.1 fun hpc hne => ?_
    have hsuspending : s.pc = .suspending := by
      cases hcase : s.pc with
      | suspending => rfl
      | asleep => exact absurd hcase hasleep
      | testing | taking | working | completing => rw [hcase] at hpc; cases hpc
    have hmore := (hearly hsuspending).resolve_left hne
    omega

/-- The thread takes the first work of the list. -/
theorem Serves.take (h : s.Serves) (hpc : s.pc = .taking) {work : RtWork} {workList : List RtWork}
    (hlist : s.queue.workList = work :: workList) :
    Serves { s with
      queue := { s.queue with workList, workCurrent := some work }
      pc := .working } := by
  have hnone := h.idle (by rw [hpc]; decide)
  have horder := h.order
  have hcount := h.count
  have hnodup := h.nodup
  rw [hnone, hlist] at horder hnodup
  simp only [hnone, hlist] at hcount
  refine ⟨?_, fun other => ?_, hnodup, ?_, ⟨nofun, nofun⟩, h.token, fun _ => .inl rfl⟩
  · rwa [Option.toList_some, List.append_assoc, List.singleton_append, ← List.append_nil s.done]
  · have hold := hcount other
    rw [Option.toList_none, ← List.singleton_append, List.count_append, List.count_nil] at hold
    dsimp only [Option.toList_some]
    omega
  · exact iff_of_true nofun rfl

theorem Serves.finish (h : s.Serves) :
    Serves { s with
      queue := { s.queue with workCurrent := none }
      pc := .completing
      done := s.done ++ s.queue.workCurrent.toList } := by
  refine ⟨?_, fun other => ?_, ?_, ?_, ⟨nofun, nofun⟩, h.token, fun _ => .inr rfl⟩
  · rw [Option.toList_none, List.append_nil]
    exact h.order
  · rw [h.count other, List.count_append, Option.toList_none, List.count_nil, Nat.add_zero]
  · exact h.nodup.sublist (List.sublist_append_right _ _)
  · exact iff_of_false (fun hne => hne rfl) nofun

/-- `rt_workqueue_dowork` keeps the invariant, whether the work is being done or not. -/
theorem Serves.dowork (h : s.Serves) (work : RtWork)
    (hstep : s.act (.dowork work) = some s') : s'.Serves := by
  by_cases hcurrent : s.queue.workCurrent = some work
  · -- the work is being done, and nothing changes
    have hout : s.takenOut work = [] := if_neg fun hout => hout.1 hcurrent
    have hbusy : s.queue.rtWorkqueueDowork work = (s.queue, -rtEbusy, false) := if_pos hcurrent
    have herror : -rtEbusy ≠ rtEok := by decide
    simp only [act, hbusy, hout, List.append_nil, if_neg herror, Bool.false_eq_true,
      if_false, Option.some.injEq] at hstep
    exact hstep ▸ h
  · have hput : s.queue.rtWorkqueueDowork work = _ := if_neg hcurrent
    simp only [act, hput, if_true, Option.some.injEq] at hstep
    subst hstep
    refine ⟨?_, fun other => ?_, ?_, h.current, ⟨fun _ => List.concat_ne_nil _ _, ?_⟩, h.token,
      h.waiting⟩
    · rw [← List.append_assoc]
      exact ((List.erase_sublist.append_left _).trans h.order).append_right _
    · have hold := h.count other
      have hout := count_takenOut hcurrent other
      dsimp only
      rw [List.count_append, List.count_append, List.count_append]
      omega
    · have hfree : work ∉ s.queue.workCurrent.toList ++ s.queue.workList.erase work := by
        rw [List.mem_append, Option.mem_toList]
        exact not_or_intro hcurrent (List.nodup_append.mp h.nodup).2.1.not_mem_erase
      rw [← List.append_assoc]
      exact (h.nodup.sublist (List.erase_sublist.append_left _)).append (List.nodup_singleton _)
        (List.disjoint_singleton.mpr hfree)
    · intro hsleeps _
      have hpc : s.pc ≠ .working := fun hworking => by rw [hworking] at hsleeps; cases hsleeps
      dsimp only
      rw [h.idle hpc, Option.isNone_none, if_pos rfl]
      exact Nat.succ_pos _

/-- Only `rt_workqueue_cancel_all_work` goes on. -/
theorem Serves.cancels (h : s.Serves) (cancelPc : CancelAllPc) : Serves { s with cancelPc } :=
  ⟨h.order, h.count, h.nodup, h.current, h.wakeful, h.token, h.waiting⟩

/-- A turn of `rt_workqueue_cancel_all_work`. -/
theorem Serves.cancelNext (h : s.Serves) (hok : KeepsAwake s .cancelNext)
    (hstep : s.act .cancelNext = some s') : s'.Serves := by
  cases hcancel : s.cancelPc with
  | out =>
    rw [act, hcancel] at hstep
    cases hstep
  | looping node =>
    cases node with
    | none =>
      rw [act, hcancel] at hstep
      cases hstep
      exact h.cancels .out
    | some work =>
      rw [act, hcancel] at hstep
      cases hstep
      have hlast : s.pc = .taking → s.queue.workList ≠ [work] := fun hpc => by
        have hne := hok hpc
        rwa [cancelled, hcancel] at hne
      by_cases hcurrent : s.queue.workCurrent = some work
      · -- the work being done is in no list
        have hfree : work ∉ s.queue.workList := by
          have hnodup := h.nodup
          rw [hcurrent, Option.toList_some, List.singleton_append] at hnodup
          exact (List.nodup_cons.mp hnodup).1
        rw [takenOut, if_neg fun hout => hout.1 hcurrent, List.append_nil,
          RtWorkqueue.rtWorkqueueCancelAllWork, List.erase_of_not_mem hfree]
        exact h.cancels _
      · exact (h.takeOut hcurrent hlast).cancels _

/-- Every step that keeps the thread awake keeps the invariant. -/
theorem Serves.step {action : WorkAction} (h : s.Serves) (hok : KeepsAwake s action)
    (hstep : workMachine.step s action = some s') : s'.Serves := by
  obtain ⟨-, hstep⟩ := Option.ite_none_left_eq_some.mp hstep
  cases action with
  | test =>
    obtain ⟨hpc, hstep⟩ := Option.ite_none_right_eq_some.mp hstep
    cases hstep
    exact h.test hpc
  | suspend =>
    obtain ⟨hpc, hstep⟩ := Option.ite_none_right_eq_some.mp hstep
    cases hstep
    exact h.moves (by rw [hpc]; decide) (by rw [hpc]; decide) nofun
      fun _ => h.wakeful.2 (by rw [hpc]; rfl)
  | take =>
    obtain ⟨hpc, hstep⟩ := Option.ite_none_right_eq_some.mp hstep
    cases hlist : s.queue.workList with
    | nil => exact absurd hlist (h.wakeful.1 hpc)
    | cons work workList =>
      rw [hlist] at hstep
      cases hstep
      exact h.take hpc hlist
  | finish =>
    obtain ⟨-, hstep⟩ := Option.ite_none_right_eq_some.mp hstep
    cases hstep
    exact h.finish
  | complete =>
    obtain ⟨hpc, hstep⟩ := Option.ite_none_right_eq_some.mp hstep
    rw [workqueueWorkCompletion_eq h.token (by omega)] at hstep
    cases hstep
    have hnone := h.idle (by rw [hpc]; decide)
    exact ⟨h.order, h.count, h.nodup, iff_of_false (fun hne => hne hnone) nofun, ⟨nofun, nofun⟩,
      h.token, fun hne => absurd rfl hne⟩
  | dowork work => exact h.dowork work hstep
  | resume =>
    obtain ⟨-, hstep⟩ := Option.ite_none_right_eq_some.mp hstep
    cases hstep
    exact h.resume hok
  | cancel work =>
    cases hstep
    unfold RtWorkqueue.rtWorkqueueCancelWork
    by_cases hcurrent : s.queue.workCurrent = some work
    · rw [if_pos hcurrent, takenOut, if_neg fun hout => hout.1 hcurrent, List.append_nil]
      exact h
    · rw [if_neg hcurrent]
      exact h.takeOut hcurrent hok
  | cancelSync work thread =>
    obtain ⟨-, hstep⟩ := Option.ite_none_left_eq_some.mp hstep
    cases hstep
    unfold RtWorkqueue.rtWorkqueueCancelWorkSync
    by_cases hcurrent : s.queue.workCurrent = some work
    · rw [if_pos hcurrent, takenOut, if_neg fun hout => hout.1 hcurrent, List.append_nil]
      have hpc : s.pc = .working := h.current.mp fun hnone =>
        Option.some_ne_none work (hcurrent.symm.trans hnone)
      have htoken : (rtSemTake s.queue.sem thread rtWaitingForever).1.value = 0 := by
        rw [rtSemTake, if_neg (Nat.not_lt.mpr (Nat.le_of_eq h.token)), if_neg (by decide)]
        exact h.token
      exact ⟨h.order, h.count, h.nodup, h.current, h.wakeful, htoken, fun _ => .inl hpc⟩
    · rw [if_neg hcurrent]
      exact h.takeOut hcurrent hok
  | cancelAll =>
    cases hstep
    exact h.cancels _
  | cancelNext => exact h.cancelNext hok hstep

/-- A step that leaves the worker wakeful is not an excluded one. -/
theorem Serves.keepsAwake {action : WorkAction} (h : s.Serves) (hwakeful : s'.Wakeful)
    (hstep : workMachine.step s action = some s') : KeepsAwake s action := by
  obtain ⟨-, hstep⟩ := Option.ite_none_left_eq_some.mp hstep
  cases action with
  | test | suspend | take | finish | complete | dowork | cancelAll => trivial
  | resume =>
    obtain ⟨-, hstep⟩ := Option.ite_none_right_eq_some.mp hstep
    cases hstep
    refine ⟨fun hpc => or_iff_not_imp_left.mpr fun hne => ?_, fun hpc => ?_⟩
    · have hmore := hwakeful.2 (by rw [hpc]; rfl) hne
      dsimp only at hmore
      omega
    · exact hwakeful.1 (if_pos hpc)
  | cancel work =>
    cases hstep
    intro hpc hlast
    have hcurrent : s.queue.workCurrent ≠ some work := by
      rw [h.idle (by rw [hpc]; decide)]
      exact (Option.some_ne_none work).symm
    rw [RtWorkqueue.rtWorkqueueCancelWork, if_neg hcurrent] at hwakeful
    refine hwakeful.1 hpc ?_
    dsimp only
    rw [hlast, List.erase_cons_head]
  | cancelSync work thread =>
    obtain ⟨-, hstep⟩ := Option.ite_none_left_eq_some.mp hstep
    cases hstep
    intro hpc hlast
    have hcurrent : s.queue.workCurrent ≠ some work := by
      rw [h.idle (by rw [hpc]; decide)]
      exact (Option.some_ne_none work).symm
    rw [RtWorkqueue.rtWorkqueueCancelWorkSync, if_neg hcurrent] at hwakeful
    refine hwakeful.1 hpc ?_
    dsimp only
    rw [hlast, List.erase_cons_head]
  | cancelNext =>
    intro hpc hlast
    cases hcancel : s.cancelPc with
    | out =>
      rw [act, hcancel] at hstep
      cases hstep
    | looping node =>
      rw [cancelled, hcancel] at hlast
      rw [act, hcancel] at hstep
      cases node with
      | none => exact h.wakeful.1 hpc hlast
      | some work =>
        cases hstep
        change s.queue.workList = [work] at hlast
        refine hwakeful.1 hpc ?_
        dsimp only [RtWorkqueue.rtWorkqueueCancelAllWork]
        rw [hlast, List.erase_cons_head]

end WorkSystem

/-! ## Every run -/

/-- In every interleaving of the worker with the threads and interrupts that put works in, cancel
them and resume the worker, as long as no resumption is too early or too late and no work is taken
away from a worker that is about to take it. What was done, the work being done and the works in the
list are in the order in which they were put in. Every work that was put in was done, is being done,
is in the list or was taken out again, each time exactly one of these. The work being done is not in
the list, and none is there twice. The worker finds a work when it takes one, and sleeps on a list
with works only where a caller is about to resume it. Threads wait for a work only while it is
being done or just behind. -/
theorem workqueue_serves {s : WorkSystem} (h : workMachine.Reach KeepsAwake s) :
    (s.done ++ s.queue.workCurrent.toList ++ s.queue.workList).Sublist s.submitted ∧
      (∀ work, s.submitted.count work =
        s.done.count work + s.queue.workCurrent.toList.count work +
          s.queue.workList.count work + s.withdrawn.count work) ∧
      (s.queue.workCurrent.toList ++ s.queue.workList).Nodup ∧
      s.Wakeful ∧
      (s.queue.sem.suspendThread ≠ [] → s.pc = .working ∨ s.pc = .completing) := by
  have hserves : s.Serves := h.invariant WorkSystem.serves_init
    fun _ _ _ hs hok hstep => hs.step hok hstep
  exact ⟨hserves.order, hserves.count, hserves.nodup, hserves.wakeful, hserves.waiting⟩

/-- A work is put in twice before it is done, another is cancelled, and a thread waits for the first
one while it is being done. -/
theorem workqueue_serves_moved :
    ∃ s, workMachine.Reach KeepsAwake s ∧ s.done = [2] ∧ s.queue.workCurrent = some 1 ∧
      (s.queue.sem.suspendThread ≠ [] → s.pc = .working ∨ s.pc = .completing) := by
  obtain ⟨s, hreach, hdone, hcurrent⟩ := Machine.exists_reach_of_run workMachine KeepsAwake
    [.test, .suspend, .dowork 1, .dowork 2, .dowork 3, .dowork 1, .resume, .cancel 3, .take,
      .finish, .complete, .test, .resume, .take, .cancelSync 1 ⟨1, 10⟩]
    (fun s => s.done = [2] ∧ s.queue.workCurrent = some 1) (by decide +kernel)
  exact ⟨s, hreach, hdone, hcurrent, (workqueue_serves hreach).2.2.2.2⟩

/-- The worker is wakeful in every state of a run exactly if no step of the run is an excluded one:
each of them leads at once to a worker that takes the head of an empty list, or that sleeps on works
with no caller left to resume it. -/
theorem workqueue_wakeful_iff {actions : List WorkAction} {t : WorkSystem}
    (hrun : workMachine.runFrom Machine.any workMachine.init actions = some t) :
    (∀ before u, before <+: actions →
        workMachine.runFrom Machine.any workMachine.init before = some u → u.Wakeful) ↔
      workMachine.runFrom KeepsAwake workMachine.init actions = some t :=
  Machine.forall_prefix_iff (fun _ h => h.wakeful)
    (fun _ _ _ h hstep =>
      ⟨fun hwakeful => h.keepsAwake hwakeful hstep, fun hok => (h.step hok hstep).wakeful⟩)
    (fun _ _ _ h hok hstep => h.step hok hstep) WorkSystem.serves_init hrun

/-- Two works are put in, the worker does both behind the first resumption and sleeps, and the
second one wakes it on an empty list. -/
def resumedTwice : List WorkAction :=
  [.test, .suspend, .dowork 1, .dowork 2, .resume, .take, .finish, .complete, .test, .take, .finish,
    .complete, .test, .suspend, .resume]

/-- Behind its last resumption the worker would take from an empty list. -/
theorem workqueue_wakeful_iff_resumedTwice :
    ∃ before u, before <+: resumedTwice ∧
      workMachine.runFrom Machine.any workMachine.init before = some u ∧ ¬u.Wakeful := by
  obtain ⟨t, hrun⟩ : ∃ t, workMachine.runFrom Machine.any workMachine.init resumedTwice = some t :=
    Option.isSome_iff_exists.mp (by decide +kernel)
  have hlate : (workMachine.runFrom KeepsAwake workMachine.init resumedTwice).isSome = false := by
    decide +kernel
  by_contra hnone
  have hkeeps := (workqueue_wakeful_iff hrun).mp fun before u hbefore hu =>
    by_contra fun hnot => hnone ⟨before, u, hbefore, hu, hnot⟩
  rw [hkeeps] at hlate
  cases hlate

end RtVcom.Driver
