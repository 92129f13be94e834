import RtVcom.Kernel.SchedulerFrame
import RtVcom.Kernel.SchedulerRun

/-!
# Time slices

`rt_schedule` does not know why it is called. A running thread that is ready keeps the processor
only where it is strictly more urgent than every other ready thread: every call that comes to
`rt_schedule` is a `rt_thread_yield` for a thread that has an equal (`Contended`).
-/

namespace RtVcom.Kernel

open RtVcom.Lib

namespace Sched

variable {n : Nat} {s s' : Sched n} {t : Fin n}

/-! ## The running thread -/

/-- The running thread is another one only after `rt_schedule`. -/
theorem step_current {flag : Nat → IpcFlag} {a : SchedAction n} (hcur : s.current = some t)
    (hm : s.atSchedule a = none) (hs : s.step flag a = some s') : s'.current = some t := by
  rw [← hcur]
  cases direct_of_step hm hs with
  | startup => exact resume_current _ _
  | schedulerStart hnone => cases hnone.symm.trans hcur
  | suspend => exact suspend_current s _
  | resume => exact resume_current s _
  | changePriority => exact changePriority_current s _ _
  | delete => exact delete_current s _
  | block _ hblocked =>
    have hblocked := ipcListSuspend_current hblocked
    split <;> exact hblocked
  | wake => exact resume_current s _
  | tick => rfl
  | enterCritical => rfl
  | exitCritical => rfl

/-! ## The law -/

/-- The thread is ready, and a ready one of its priority has taken its place. -/
def Rotated (s s' : Sched n) (t : Fin n) : Prop :=
  ∃ u, s.current = some t ∧ s'.current = some u ∧ u ≠ t ∧ (s'.thread t).stat = .ready ∧
    (s'.thread u).stat = .ready ∧
    (s'.thread u).currentPriority = (s'.thread t).currentPriority

/-- `rt_schedule` finds a ready thread of the priority of the running one, which is ready, and
none that is more urgent. -/
structure Contended (m : Sched n) (t : Fin n) : Prop where
  lockNest : m.lockNest = 0
  ready : (m.thread t).stat = .ready
  least : ∀ u, m.InReady u → (m.thread t).currentPriority ≤ (m.thread u).currentPriority
  equal : ∃ u, m.InReady u ∧ (m.thread u).currentPriority = (m.thread t).currentPriority

/-- The running thread is rotated exactly where another one contends with it. -/
theorem rotated_iff (hcur : s.current = some t) (h : SchedInv.Scheduled s s' t) :
    Rotated s s' t ↔ s.Contended t := by
  unfold Rotated
  rw [h.thread]
  constructor
  · rintro ⟨u, -, hu, hne, htready, huready, heq⟩
    rcases h.outcome with ⟨hstay, -⟩ | ⟨v, hv, hlock, hinv, hleast, -⟩
    · exact absurd (Option.some_inj.mp (hu.symm.trans hstay)) hne
    · obtain rfl := Option.some_inj.mp (hv.symm.trans hu)
      exact ⟨hlock, htready, fun w hw => heq ▸ hleast w hw, v, hinv, heq⟩
  · rintro ⟨hlock, htready, hleast, v, hvready, hveq⟩
    rcases h.outcome with ⟨-, hlocked | hnone | ⟨-, hurgent⟩⟩ | ⟨u, hu, -, huready, hfirst, -⟩
    · exact absurd hlock hlocked
    · exact absurd hvready (hnone v)
    · exact absurd hveq.symm (ne_of_lt (hurgent v hvready))
    · refine ⟨u, hcur, hu, SchedInv.inReady_ne hcur huready, htready, huready.1, ?_⟩
      exact le_antisymm (hveq ▸ hfirst v hvready) (hleast u huready)

/-- `rt_schedule` does nothing while it is locked. -/
theorem schedule_locked (hlock : s.lockNest ≠ 0) : s.schedule = some s := if_pos (Or.inl hlock)

end Sched

open Sched

/-- A slice ends before its time only by an `rt_schedule` that is not locked; and in every run that
links no node twice, exactly by one that finds a thread of the same priority, and none that is more
urgent. -/
theorem slice_ends (n : Nat) (spec : Fin n → ThreadSpec) (flag : Nat → IpcFlag) (s s' : Sched n)
    (a : SchedAction n) (hs : (schedMachine spec flag).step s a = some s') (t : Fin n) :
    (Rotated s s' t → ∃ m, s.atSchedule a = some m ∧ m.lockNest = 0 ∧
      (a = .tick → (s.thread t).remainingTick - 1 = 0)) ∧
    ((schedMachine spec flag).Reach LinksOnce s → s.current = some t →
      (Rotated s s' t ↔ ∃ m, s.atSchedule a = some m ∧ m.Contended t)) := by
  have hs : s.step flag a = some s' := hs
  constructor
  · rintro ⟨u, hcur, hu, hne, -⟩
    cases hm : s.atSchedule a with
    | none => exact absurd (Option.some_inj.mp (hu.symm.trans (step_current hcur hm hs))) hne
    | some m =>
      refine ⟨m, rfl, ?_, ?_⟩
      · by_contra hlock
        rw [step_of_atSchedule hm, schedule_locked hlock] at hs
        cases hs
        have hcur' := (atSchedule_current hm).trans hcur
        exact hne (Option.some_inj.mp (hu.symm.trans hcur'))
      · rintro rfl
        rw [atSchedule, hcur, Option.bind_some] at hm
        exact (Option.ite_none_right_eq_some.mp hm).1
  · intro hreach hcur
    obtain ⟨q, hinv⟩ := reach_inv hreach
    cases hm : s.atSchedule a with
    | none =>
      constructor
      · rintro ⟨u, -, hu, hne, -⟩
        exact absurd (Option.some_inj.mp (hu.symm.trans (step_current hcur hm hs))) hne
      · rintro ⟨m, heq, -⟩
        cases heq
    | some m =>
      obtain ⟨q', hinv', -⟩ := hinv.atSchedule hm
      have hcur' := (atSchedule_current hm).trans hcur
      obtain ⟨s'', hs'', hscheduled, -⟩ := hinv'.schedule hcur'
      rw [step_of_atSchedule hm] at hs
      cases hs''.symm.trans hs
      have hiff := rotated_iff hcur' hscheduled
      unfold Rotated at hiff ⊢
      rw [hcur'] at hiff
      rw [hcur, hiff]
      constructor
      · exact fun hcontended => ⟨m, rfl, hcontended⟩
      · rintro ⟨m', heq, hcontended⟩
        cases heq
        exact hcontended

/-- A thread that wakes a less urgent one runs on where it has no equal. -/
theorem slice_ends_not : ∃ s s' : Sched 4,
    (schedMachine fourThreads fun _ => .fifo).Reach LinksOnce s ∧
      (schedMachine fourThreads fun _ => .fifo).step s .schedule = some s' ∧ ¬Rotated s s' 1 := by
  obtain ⟨s, hreach, hcur, hready, hfree, hsome⟩ := Machine.exists_reach_of_run
    (schedMachine fourThreads fun _ => .fifo) LinksOnce
    [.startup 0, .startup 3, .schedulerStart, .block 7 false, .schedule, .startup 1, .wake 7]
    (fun s => s.current = some 1 ∧ (s.thread 3).stat = .ready ∧
      (∀ u, (s.thread u).stat = .ready ∧ s.current ≠ some u →
        (s.thread u).currentPriority ≠ (s.thread 1).currentPriority) ∧
      (s.step (fun _ => .fifo) .schedule).isSome = true) (by decide +kernel)
  obtain ⟨s', hs⟩ := Option.isSome_iff_exists.mp hsome
  refine ⟨s, s', hreach, hs, fun hrotated => ?_⟩
  obtain ⟨m, hm, hcontended⟩ :=
    ((slice_ends 4 fourThreads (fun _ => .fifo) s s' .schedule hs 1).2 hreach hcur).mp hrotated
  cases hm
  obtain ⟨u, hu, heq⟩ := hcontended.equal
  exact hfree u hu heq

/-- A thread that wakes a less urgent one loses the processor to its equal. -/
theorem slice_cut_short : ∃ s s' : Sched 4,
    (schedMachine fourThreads fun _ => .fifo).Reach Machine.any s ∧
      (schedMachine fourThreads fun _ => .fifo).step s .schedule = some s' ∧ Rotated s s' 2 := by
  obtain ⟨s, hreach, hcur, hany⟩ := Machine.exists_reach_of_run
    (schedMachine fourThreads fun _ => .fifo) Machine.any
    [.startup 0, .startup 3, .schedulerStart, .block 7 false, .schedule, .startup 1, .startup 2,
      .wake 7]
    (fun s => s.current = some 2 ∧ (s.step (fun _ => .fifo) .schedule).any (fun s' =>
      decide (s'.current = some 1 ∧ (s'.thread 2).stat = .ready ∧ (s'.thread 1).stat = .ready ∧
        (s'.thread 1).currentPriority = (s'.thread 2).currentPriority)) = true) (by decide +kernel)
  obtain ⟨s', hs, hp⟩ := (Option.any_eq_true _ _).mp hany
  obtain ⟨hcur', htready, huready, heq⟩ := of_decide_eq_true hp
  exact ⟨s, s', hreach, hs, 1, hcur, hcur', by decide, htready, huready, heq⟩

end RtVcom.Kernel
