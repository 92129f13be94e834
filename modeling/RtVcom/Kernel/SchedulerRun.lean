import RtVcom.Kernel.Scheduling

/-!
# The ready table over all runs

Every sequence of calls keeps what the calls rest on, and with it the law of the ready table
(`ReadyTable`), but for one call: a thread that runs on after it was suspended, since the scheduler
is locked, and that is suspended again is linked a second time. `rt_ipc_list_suspend` does not look
at what `rt_thread_suspend` answers.
-/

namespace RtVcom.Kernel

open RtVcom.Lib

namespace Sched

variable {n : Nat} {s s' : Sched n} {q q' : ListHead → List (Fin n)} {r r' : Fin n → Prop}
  {t u : Fin n}

/-- The state in which a call comes to its `rt_schedule`. -/
def atSchedule (s : Sched n) : SchedAction n → Option (Sched n)
  | .startup t =>
    if (s.thread t).stat = .init ∧ s.current.isSome then
      some ((s.setThread t (prepared (s.thread t))).resume t).1
    else none
  | .sleep => s.current.map fun t => (s.suspend t).1.setTimer t true
  | .timeout t => if (s.thread t).timer then some (s.woken t) else none
  | .exit => s.current.bind fun t =>
    if (s.thread t).stat ≠ .close then
      some (if (s.thread t).systemobject ∧ ¬(s.thread t).cleanup then s.ended t
        else (s.ended t).bury t)
    else none
  | .schedule => some s
  | .yield => some s
  | .tick => s.current.bind fun t =>
    if (s.thread t).remainingTick - 1 = 0 then some (s.setTick t (s.thread t).initTick) else none
  | .exitCritical => if (s.lockNest - 1).toInt ≤ 0 then some { s with lockNest := 0 } else none
  | _ => none

/-- A call that suspends the running thread finds its node in no list. -/
def LinksOnce (s : Sched n) : SchedAction n → Prop
  | .block _ _ => ∀ t ∈ s.current, s.links.next (.inr t) = .inr t
  | _ => True

instance : DecidableRel (LinksOnce (n := n)) := fun _ a => by
  cases a <;> unfold LinksOnce <;> infer_instance

/-- A call that comes to its `rt_schedule` is what it has done by then and the scheduling. -/
theorem step_of_atSchedule {flag : Nat → IpcFlag} {a : SchedAction n} {m : Sched n}
    (hm : s.atSchedule a = some m) : s.step flag a = m.schedule := by
  cases a with
  | startup t =>
    obtain ⟨⟨hinit, hcur⟩, heq⟩ := Option.ite_none_right_eq_some.mp hm
    cases heq
    have hcur' := (congrArg Option.isSome
      (resume_current (s.setThread t (Sched.prepared (s.thread t))) t)).trans hcur
    exact (if_pos hinit).trans (if_pos hcur')
  | sleep =>
    obtain ⟨t, hcur, rfl⟩ := Option.map_eq_some_iff.mp hm
    rw [step, hcur]
    rfl
  | timeout t =>
    obtain ⟨htimer, heq⟩ := Option.ite_none_right_eq_some.mp hm
    cases heq
    exact if_pos htimer
  | exit =>
    obtain ⟨t, hcur, hm⟩ := Option.bind_eq_some_iff.mp hm
    obtain ⟨hstat, heq⟩ := Option.ite_none_right_eq_some.mp hm
    cases heq
    have hcomm : ((s.removeThread t).setStat t .close).setTimer t false = s.ended t := by
      unfold Sched.ended setStat Sched.setTimer setThread
      dsimp only
      rw [Function.update_self, Function.update_self, Function.update_idem, Function.update_idem]
    have hself : (s.ended t).thread t = { s.thread t with timer := false, stat := .close } := by
      rw [Sched.ended, setStat, setThread_self, Sched.setTimer, setThread_self,
        removeThread_thread]
    rw [step, hcur, Option.bind_some, if_pos hstat, Sched.exit, hcomm, hself]
  | schedule =>
    cases hm
    rfl
  | yield =>
    cases hm
    rfl
  | tick =>
    obtain ⟨t, hcur, hm⟩ := Option.bind_eq_some_iff.mp hm
    obtain ⟨hzero, heq⟩ := Option.ite_none_right_eq_some.mp hm
    cases heq
    rw [step, hcur, Option.bind_some, tickIncrease]
    dsimp only
    rw [setThread_self, if_pos hzero, Sched.setTick, setThread, setThread, setThread,
      Function.update_idem]
  | exitCritical =>
    obtain ⟨hnest, heq⟩ := Option.ite_none_right_eq_some.mp hm
    cases heq
    exact if_pos hnest
  | _ => cases hm

/-- The calls that come to an `rt_schedule`, and what they have done by then. -/
inductive Comes (s : Sched n) : SchedAction n → Sched n → Prop
  | startup {t : Fin n} : (s.thread t).stat = .init →
    Comes s (.startup t) ((s.setThread t (prepared (s.thread t))).resume t).1
  | sleep {t : Fin n} : s.current = some t → Comes s .sleep ((s.suspend t).1.setTimer t true)
  | timeout {t : Fin n} : (s.thread t).timer = true → Comes s (.timeout t) (s.woken t)
  | detached {t : Fin n} : s.current = some t → Comes s .exit (s.ended t)
  | buried {t : Fin n} : s.current = some t → Comes s .exit ((s.ended t).bury t)
  | schedule : Comes s .schedule s
  | yield : Comes s .yield s
  | tick {t : Fin n} : Comes s .tick (s.setTick t (s.thread t).initTick)
  | exitCritical : Comes s .exitCritical { s with lockNest := 0 }

/-- A step comes to `rt_schedule` where the model says so. -/
theorem comes_of_atSchedule {a : SchedAction n} {m : Sched n} (hm : s.atSchedule a = some m) :
    Comes s a m := by
  cases a with
  | startup t =>
    obtain ⟨⟨hinit, -⟩, heq⟩ := Option.ite_none_right_eq_some.mp hm
    cases heq
    exact .startup hinit
  | sleep =>
    obtain ⟨t, hcur, rfl⟩ := Option.map_eq_some_iff.mp hm
    exact .sleep hcur
  | timeout t =>
    obtain ⟨htimer, heq⟩ := Option.ite_none_right_eq_some.mp hm
    cases heq
    exact .timeout htimer
  | exit =>
    obtain ⟨t, hcur, hm⟩ := Option.bind_eq_some_iff.mp hm
    obtain ⟨-, heq⟩ := Option.ite_none_right_eq_some.mp hm
    cases heq
    split
    · exact .detached hcur
    · exact .buried hcur
  | schedule =>
    cases hm
    exact .schedule
  | yield =>
    cases hm
    exact .yield
  | tick =>
    obtain ⟨t, -, hm⟩ := Option.bind_eq_some_iff.mp hm
    obtain ⟨-, heq⟩ := Option.ite_none_right_eq_some.mp hm
    cases heq
    exact .tick
  | exitCritical =>
    obtain ⟨-, heq⟩ := Option.ite_none_right_eq_some.mp hm
    cases heq
    exact .exitCritical
  | _ => cases hm

/-- Up to its `rt_schedule` a call does not switch. -/
theorem atSchedule_current {a : SchedAction n} {m : Sched n} (hm : s.atSchedule a = some m) :
    m.current = s.current := by
  cases comes_of_atSchedule hm with
  | startup => exact resume_current _ _
  | sleep => exact suspend_current s _
  | timeout => exact woken_current s _
  | detached => exact removeThread_current s _
  | buried => exact removeThread_current s _
  | schedule => rfl
  | yield => rfl
  | tick => rfl
  | exitCritical => rfl

/-- The calls that do not come to an `rt_schedule`, and what they do. -/
inductive Direct (flag : Nat → IpcFlag) (s : Sched n) : SchedAction n → Sched n → Prop
  | startup {t : Fin n} : (s.thread t).stat = .init → s.current = none →
    Direct flag s (.startup t) ((s.setThread t (prepared (s.thread t))).resume t).1
  | schedulerStart {s' : Sched n} : s.current = none → s.schedulerStart = some s' →
    Direct flag s .schedulerStart s'
  | suspend {t : Fin n} : s.current = some t → Direct flag s .suspend (s.suspend t).1
  | resume {t : Fin n} : Direct flag s (.resume t) (s.resume t).1
  | changePriority {t : Fin n} {p : Priority} :
    Direct flag s (.changePriority t p) (s.changePriority t p)
  | delete {t : Fin n} : (s.thread t).stat ≠ .close → Direct flag s (.delete t) (s.delete t)
  | block {t : Fin n} {o : Nat} {timed : Bool} {m : Sched n} : s.current = some t →
    s.ipcListSuspend o t (flag o) = some m →
    Direct flag s (.block o timed) (if timed then m.setTimer t true else m)
  | wake {o : Nat} {t : Fin n} : Direct flag s (.wake o) (s.resume t).1
  | tick {t : Fin n} {tick : BitVec 32} : Direct flag s .tick (s.setTick t tick)
  | enterCritical {lockNest : BitVec 16} :
    Direct flag s .enterCritical { s with lockNest := lockNest }
  | exitCritical {lockNest : BitVec 16} :
    Direct flag s .exitCritical { s with lockNest := lockNest }

/-- A step that does not come to `rt_schedule` is one of the direct ones. -/
theorem direct_of_step {flag : Nat → IpcFlag} {a : SchedAction n} (hm : s.atSchedule a = none)
    (hs : s.step flag a = some s') : Direct flag s a s' := by
  cases a with
  | startup t =>
    obtain ⟨hinit, hs⟩ := Option.ite_none_right_eq_some.mp hs
    cases hcur : s.current with
    | some u =>
      rw [atSchedule, if_pos ⟨hinit, by rw [hcur]; rfl⟩] at hm
      cases hm
    | none =>
      have hcur' : ¬((s.setThread t (prepared (s.thread t))).resume t).1.current.isSome := by
        rw [resume_current]
        exact Option.not_isSome_iff_eq_none.mpr hcur
      cases (if_neg hcur').symm.trans hs
      exact .startup hinit hcur
  | schedulerStart =>
    obtain ⟨hcur, hs⟩ := Option.ite_none_right_eq_some.mp hs
    exact .schedulerStart hcur hs
  | suspend =>
    obtain ⟨t, hcur, rfl⟩ := Option.map_eq_some_iff.mp hs
    exact .suspend hcur
  | sleep =>
    obtain ⟨t, hcur, -⟩ := Option.bind_eq_some_iff.mp hs
    rw [atSchedule, hcur] at hm
    cases hm
  | resume t =>
    cases hs
    exact .resume
  | timeout t =>
    obtain ⟨htimer, -⟩ := Option.ite_none_right_eq_some.mp hs
    rw [atSchedule, if_pos htimer] at hm
    cases hm
  | changePriority t p =>
    cases hs
    exact .changePriority
  | delete t =>
    obtain ⟨hstat, hs⟩ := Option.ite_none_right_eq_some.mp hs
    cases hs
    exact .delete hstat
  | exit =>
    obtain ⟨t, hcur, hs⟩ := Option.bind_eq_some_iff.mp hs
    obtain ⟨hstat, -⟩ := Option.ite_none_right_eq_some.mp hs
    rw [atSchedule, hcur, Option.bind_some, if_pos hstat] at hm
    cases hm
  | block o timed =>
    obtain ⟨t, hcur, hs⟩ := Option.bind_eq_some_iff.mp hs
    obtain ⟨m, hblocked, rfl⟩ := Option.map_eq_some_iff.mp hs
    exact .block hcur hblocked
  | wake o =>
    obtain ⟨-, hs⟩ := Option.ite_none_left_eq_some.mp hs
    rw [ipcListResume] at hs
    split at hs
    · cases hs
      exact .wake
    · cases hs
  | schedule => cases hm
  | yield => cases hm
  | tick =>
    obtain ⟨t, hcur, hs⟩ := Option.bind_eq_some_iff.mp hs
    have hzero : ¬(s.thread t).remainingTick - 1 = 0 := fun hzero => by
      rw [atSchedule, hcur, Option.bind_some, if_pos hzero] at hm
      cases hm
    rw [tickIncrease] at hs
    dsimp only at hs
    rw [setThread_self, if_neg hzero] at hs
    cases hs
    exact .tick
  | enterCritical =>
    cases hs
    exact .enterCritical
  | exitCritical =>
    have hnest : ¬(s.lockNest - 1).toInt ≤ 0 := fun hnest => by
      rw [atSchedule, if_pos hnest] at hm
      cases hm
    cases (if_neg hnest).symm.trans hs
    exact .exitCritical

namespace SchedInv

/-- Up to its `rt_schedule` a call keeps what the calls rest on. -/
theorem atSchedule (h : SchedInv s q) {a : SchedAction n} {m : Sched n}
    (hm : s.atSchedule a = some m) :
    ∃ q', SchedInv m q' ∧ Shrunk q q' := by
  cases comes_of_atSchedule hm with
  | startup hinit => exact (h.prepared hinit).resume _
  | sleep hcur =>
    obtain ⟨hinv, hcur', hstat⟩ := h.suspend hcur
    exact ⟨q, hinv.setTimer (hcur'.trans hcur) hstat, Shrunk.refl q⟩
  | @timeout t htimer =>
    have hsound := h.sound t
    have hstarted := hsound.started (Or.inr (Or.inr (Or.inl htimer)))
    exact h.woken hstarted (hsound.timed htimer)
  | detached hcur => exact ⟨_, (h.ended hcur).1, shrunk_erased⟩
  | buried hcur => exact (h.ended hcur).2
  | schedule => exact ⟨q, h, Shrunk.refl q⟩
  | yield => exact ⟨q, h, Shrunk.refl q⟩
  | tick => exact ⟨q, h.setTick _ _, Shrunk.refl q⟩
  | exitCritical => exact ⟨q, h.setLockNest 0, Shrunk.refl q⟩

/-- Threads that are not started are in no list. -/
theorem init {thread : Fin n → Tcb} (hstat : ∀ t, (thread t).stat = .init)
    (hstarted : ∀ t, (thread t).started = false) (htimer : ∀ t, (thread t).timer = false) :
    SchedInv (Sched.init thread) fun _ => [] := by
  have hloose (t : Fin n) (_ : ListHead) : t ∉ ([] : List (Fin n)) := List.not_mem_nil
  refine ⟨⟨⟨fun _ => ⟨rfl, rfl⟩, fun _ => List.nodup_nil, fun g _ t ht => absurd ht (hloose t g),
    fun _ _ => ⟨rfl, rfl⟩⟩, fun p t => iff_of_false (hloose t (.ready p)) fun hready => ?_,
    fun p => ?_, fun t ht => ?_⟩, fun t => ⟨fun hwhy => ?_, fun _ => hloose t,
    fun _ _ => hloose t, fun hruns => (by cases hruns), fun ht => ?_⟩⟩
  · cases (hstat t).symm.trans hready.1.1
  · refine iff_of_false (fun hbit => ?_) (not_not.mpr rfl)
    exact Bool.false_ne_true (BitVec.getLsbD_zero.symm.trans hbit)
  · cases (hstarted t).symm.trans ht
  · rcases hwhy with hready | hsuspend | ht | hruns
    · cases (hstat t).symm.trans hready
    · cases (hstat t).symm.trans hsuspend
    · cases (htimer t).symm.trans ht
    · cases hruns
  · cases (htimer t).symm.trans ht

/-- A call that does not come to an `rt_schedule`, and suspends nobody. -/
theorem direct (h : SchedInv s q) {flag : Nat → IpcFlag} {a : SchedAction n}
    (ha : ∀ o timed, a ≠ .block o timed) (hs : Direct flag s a s') :
    ∃ q', SchedInv s' q' ∧ Shrunk q q' := by
  cases hs with
  | startup hinit _ => exact (h.prepared hinit).resume _
  | schedulerStart hcur hs => exact h.schedulerStart hcur hs
  | suspend hcur => exact ⟨q, (h.suspend hcur).1, Shrunk.refl q⟩
  | resume => exact h.resume _
  | changePriority => exact h.changePriority _ _
  | delete hstat => exact h.delete hstat
  | block _ _ => exact absurd rfl (ha _ _)
  | wake => exact h.resume _
  | tick => exact ⟨q, h.setTick _ _, Shrunk.refl q⟩
  | enterCritical => exact ⟨q, h.setLockNest _, Shrunk.refl q⟩
  | exitCritical => exact ⟨q, h.setLockNest _, Shrunk.refl q⟩

/-- A call that suspends nobody. -/
theorem step_shrunk (h : SchedInv s q) {flag : Nat → IpcFlag} {a : SchedAction n}
    (ha : ∀ o timed, a ≠ .block o timed) (hs : s.step flag a = some s') :
    ∃ q', SchedInv s' q' ∧ Shrunk q q' := by
  cases hm : s.atSchedule a with
  | none => exact h.direct ha (direct_of_step hm hs)
  | some m =>
    obtain ⟨q₁, hinv, hshrunk⟩ := h.atSchedule hm
    rw [step_of_atSchedule hm] at hs
    obtain ⟨q₂, hinv', hshrunk'⟩ := hinv.of_schedule hs
    exact ⟨q₂, hinv', hshrunk.trans hshrunk'⟩

/-- A call that suspends the running thread, where its node is in no list. -/
theorem step_block (h : SchedInv s q) {flag : Nat → IpcFlag} {o : Nat} {timed : Bool}
    (honce : LinksOnce s (.block o timed)) (hs : s.step flag (.block o timed) = some s') :
    ∃ t, s.current = some t ∧
      (∀ u, (s'.thread u).currentPriority = (s.thread u).currentPriority) ∧
      SchedInv s' (Function.update q (.wait o) (s'.enqueued (flag o) t (q (.wait o)))) := by
  obtain ⟨t, hcur, hs⟩ := Option.bind_eq_some_iff.mp hs
  obtain ⟨m, hm, rfl⟩ := Option.map_eq_some_iff.mp hs
  obtain ⟨m', hm', hcur', hthread, hinv⟩ := h.ipcListSuspend hcur (honce t hcur) o (flag o)
  cases hm'.symm.trans hm
  have hpriority (u : Fin n) : (m.thread u).currentPriority = (s.thread u).currentPriority := by
    rw [hthread, suspend_priority]
  cases timed with
  | false => exact ⟨t, hcur, hpriority, hinv⟩
  | true =>
    have hstat : (m.thread t).stat ≠ .ready := by
      rw [hthread]
      exact (h.suspend hcur).2.2
    refine ⟨t, hcur, fun u => (setTimer_priority m t u true).trans (hpriority u), ?_⟩
    rw [if_pos rfl, enqueued_congr (setTimer_priority m t · true)]
    exact hinv.setTimer (hcur'.trans hcur) hstat

/-- What the calls rest on is kept by every call that links no node twice. -/
theorem step_inv (h : SchedInv s q) {flag : Nat → IpcFlag} {a : SchedAction n}
    (hok : LinksOnce s a) (hs : s.step flag a = some s') : ∃ q', SchedInv s' q' := by
  by_cases ha : ∃ o timed, a = .block o timed
  · obtain ⟨o, timed, rfl⟩ := ha
    obtain ⟨t, -, -, hinv⟩ := h.step_block hok hs
    exact ⟨_, hinv⟩
  · obtain ⟨q', hinv, -⟩ := h.step_shrunk (fun o timed heq => ha ⟨o, timed, heq⟩) hs
    exact ⟨q', hinv⟩

end SchedInv

end Sched

/-- The law. -/
structure ReadyTable {n : Nat} (s : Sched n) : Prop where
  bit : ∀ p : Priority, s.group.getLsbD p = true ↔
    s.links.next (.inl (.ready p)) ≠ .inl (.ready p)
  ready : ∀ t, (s.thread t).stat = .ready → s.current ≠ some t →
    ∀ p, Listed s.links (.ready p) t ↔ p = (s.thread t).currentPriority
  out : ∀ t, s.current = some t ∨ (s.thread t).stat ≠ .ready →
    ∀ p, ¬Listed s.links (.ready p) t
  mask : ∀ t, (s.thread t).started = true →
    (s.thread t).numberMask = priorityMask (s.thread t).currentPriority

/-- The invariant says what the law of the ready table does. -/
theorem Sched.SchedInv.readyTable {n : Nat} {s : Sched n} {q : ListHead → List (Fin n)}
    (h : s.SchedInv q) : ReadyTable s where
  bit p := (h.table.bit p).trans (not_congr h.table.rings.isEmpty_iff.symm)
  ready t hstat hcur p := by
    rw [h.table.rings.listed_iff, h.table.ready]
    exact (and_iff_right ⟨hstat, hcur⟩).trans eq_comm
  out t hout p hlisted := by
    have hready := ((h.table.ready p t).mp (h.table.rings.listed_iff.mp hlisted)).1
    exact hout.elim hready.2 fun hstat => hstat hready.1
  mask := h.table.mask

section

variable {n : Nat} {spec : Fin n → ThreadSpec} {flag : Nat → IpcFlag}

open Sched

theorem reach_inv {s : Sched n} (h : (schedMachine spec flag).Reach LinksOnce s) :
    ∃ q, SchedInv s q :=
  h.invariant (P := fun s => ∃ q, SchedInv s q)
    ⟨_, SchedInv.init (fun _ => rfl) (fun _ => rfl) fun _ => rfl⟩
    fun _ _ _ ⟨_, hinv⟩ hok hs => hinv.step_inv hok hs

/-- In every run that links no node twice, the group and the ready lists say which threads are
ready. -/
theorem ready_table_kept (n : Nat) (spec : Fin n → ThreadSpec) (flag : Nat → IpcFlag)
    (s : Sched n) (h : (schedMachine spec flag).Reach LinksOnce s) : ReadyTable s := by
  obtain ⟨q, hinv⟩ := reach_inv h
  exact hinv.readyTable

/-- The idle thread and two threads of one priority. -/
def threeThreads (t : Fin 3) : ThreadSpec where
  priority := if t = 0 then 31 else 10
  tick := 5
  systemobject := true
  cleanup := false

/-- Two equal threads, one that is less urgent, and the idle thread. -/
def fourThreads (t : Fin 4) : ThreadSpec where
  priority := if t.val = 0 then 31 else if t.val = 3 then 20 else 10
  tick := 5
  systemobject := true
  cleanup := false

/-- A thread waits for an object, is woken and waits again. -/
theorem ready_table_kept_run : ∃ s,
    (schedMachine threeThreads fun _ => .prio).Reach LinksOnce s ∧
      s.links.next (.inl (.wait 7)) = .inr 1 ∧ ReadyTable s := by
  obtain ⟨s, hreach, hs⟩ := Machine.exists_reach_of_run
    (schedMachine threeThreads fun _ => .prio) LinksOnce
    [.startup 0, .startup 1, .startup 2, .schedulerStart, .block 7 true, .schedule, .wake 7,
      .schedule, .block 7 false, .schedule]
    (fun s => s.links.next (.inl (.wait 7)) = .inr 1) (by decide +kernel)
  exact ⟨s, hreach, hs, ready_table_kept 3 _ _ s hreach⟩

/-- A thread that waits for two objects, the scheduler being locked, is woken from the first. A
thread that is put to the first list then comes to the ready ones. -/
theorem ready_table_disorder : ∃ s,
    (schedMachine threeThreads fun _ => .fifo).Reach Machine.any s ∧ ¬ReadyTable s := by
  obtain ⟨s, hreach, hstat, hfirst, hsecond⟩ := Machine.exists_reach_of_run
    (schedMachine threeThreads fun _ => .fifo) Machine.any
    [.startup 0, .startup 1, .startup 2, .schedulerStart, .enterCritical, .block 0 false,
      .block 1 false, .wake 0, .exitCritical, .block 0 false]
    (fun s => (s.thread 2).stat = .suspend ∧ s.links.next (.inl (.ready 10)) = .inr 1 ∧
      s.links.next (.inr 1) = .inr 2) (by decide +kernel)
  refine ⟨s, hreach, fun htable => ?_⟩
  have hout : (s.thread 2).stat ≠ .ready := fun heq => by cases hstat.symm.trans heq
  exact htable.out 2 (Or.inr hout) 10 (.next (.first hfirst) hsecond)

end

end RtVcom.Kernel
