import RtVcom.Kernel.Scheduling

/-!
# What the functions of the scheduler leave alone

Frame lemmas: the running thread and the scheduler lock, which only `rt_schedule` and the lock
functions change, the priorities, the states, and the other threads.
-/

namespace RtVcom.Kernel

open RtVcom.Lib

namespace Sched

variable {n : Nat} {s s' : Sched n} {t u : Fin n}

/-! ## The running thread and the lock -/

theorem changePriority_current (s : Sched n) (t : Fin n) (p : Priority) :
    (s.changePriority t p).current = s.current := by
  rw [changePriority_eq]
  split
  · rw [insertThread_current]
    exact removeThread_current s t
  · rfl

theorem delete_current (s : Sched n) (t : Fin n) : (s.delete t).current = s.current := by
  unfold delete
  dsimp only
  split
  · exact removeThread_current s t
  · rfl

theorem ipcListSuspend_current {o : Nat} {flag : IpcFlag}
    (hs : s.ipcListSuspend o t flag = some s') : s'.current = s.current := by
  unfold ipcListSuspend at hs
  cases flag with
  | fifo =>
    cases hs
    exact suspend_current s t
  | prio =>
    obtain ⟨l, -, rfl⟩ := Option.map_eq_some_iff.mp hs
    exact suspend_current s t

theorem delete_lockNest (s : Sched n) (t : Fin n) : (s.delete t).lockNest = s.lockNest := by
  unfold delete
  dsimp only
  split
  · exact removeThread_lockNest s t
  · rfl

theorem changePriority_lockNest (s : Sched n) (t : Fin n) (p : Priority) :
    (s.changePriority t p).lockNest = s.lockNest := by
  rw [changePriority_eq]
  split
  · rw [insertThread_lockNest]
    exact removeThread_lockNest s t
  · rfl

theorem resume_lockNest (s : Sched n) (t : Fin n) : (s.resume t).1.lockNest = s.lockNest := by
  by_cases hstat : (s.thread t).stat = .suspend
  · rw [resume_of_suspend hstat]
    exact insertThread_lockNest _ t
  · rw [resume_of_not_suspend hstat]

/-! ## Priorities -/

theorem insertThread_priority (s : Sched n) (t u : Fin n) :
    ((s.insertThread t).thread u).currentPriority = (s.thread u).currentPriority := by
  rw [insertThread_thread, setStat_priority]

theorem resume_priority (s : Sched n) (t u : Fin n) :
    ((s.resume t).1.thread u).currentPriority = (s.thread u).currentPriority := by
  by_cases hstat : (s.thread t).stat = .suspend
  · rw [resume_of_suspend hstat, woken, insertThread_priority, setTimer_priority]
    rfl
  · rw [resume_of_not_suspend hstat]

theorem ended_priority (s : Sched n) (t u : Fin n) :
    ((s.ended t).thread u).currentPriority = (s.thread u).currentPriority := by
  rw [ended, setStat_priority, setTimer_priority, removeThread_thread]

theorem setTick_priority (s : Sched n) (t u : Fin n) (tick : BitVec 32) :
    ((s.setTick t tick).thread u).currentPriority = (s.thread u).currentPriority := by
  by_cases hu : u = t
  · subst hu
    rw [setTick, setThread_self]
  · rw [setTick, setThread_of_ne hu]

/-- `rt_schedule` changes no priority. -/
theorem schedule_priority (hs : s.schedule = some s') (u : Fin n) :
    (s'.thread u).currentPriority = (s.thread u).currentPriority := by
  unfold schedule at hs
  split at hs
  · cases hs
    rfl
  · split at hs
    · split at hs
      · cases hs
        rw [removeThread_thread]
      · dsimp only at hs
        split at hs
        · cases hs
          rw [removeThread_thread, insertThread_priority]
        · cases hs
          rw [removeThread_thread]
    · cases hs

/-- A change of a priority is one of its own thread only. -/
theorem changePriority_of_ne {p : Priority} (hu : u ≠ t) :
    ((s.changePriority t p).thread u).currentPriority = (s.thread u).currentPriority := by
  rw [changePriority_eq]
  split
  · rw [insertThread_priority, changed, setThread_of_ne hu, removeThread_thread]
  · rw [changed, setThread_of_ne hu]

theorem changePriority_self (s : Sched n) (t : Fin n) (p : Priority) :
    ((s.changePriority t p).thread t).currentPriority = p := by
  rw [changePriority_eq]
  split
  · rw [insertThread_priority, changed, setThread_self]
  · rw [changed, setThread_self]

theorem delete_priority (s : Sched n) (t u : Fin n) :
    ((s.delete t).thread u).currentPriority = (s.thread u).currentPriority := by
  unfold delete bury
  dsimp only
  rw [setStat_priority, setTimer_priority]
  split
  · rw [removeThread_thread]
  · rfl

theorem ipcListSuspend_priority {o : Nat} {flag : IpcFlag}
    (hs : s.ipcListSuspend o t flag = some s') (u : Fin n) :
    (s'.thread u).currentPriority = (s.thread u).currentPriority := by
  unfold ipcListSuspend at hs
  cases flag with
  | fifo =>
    cases hs
    exact suspend_priority s t u
  | prio =>
    obtain ⟨l, -, rfl⟩ := Option.map_eq_some_iff.mp hs
    exact suspend_priority s t u

/-! ## Other threads -/

theorem suspend_of_ne (hu : u ≠ t) : (s.suspend t).1.thread u = s.thread u := by
  by_cases hready : (s.thread t).stat = .ready
  · rw [suspend_of_ready hready, setTimer, setThread_of_ne hu, removeThread_thread, setStat,
      setThread_of_ne hu]
  · rw [suspend_of_not_ready hready]

theorem resume_of_ne (hu : u ≠ t) : (s.resume t).1.thread u = s.thread u := by
  by_cases hstat : (s.thread t).stat = .suspend
  · rw [resume_of_suspend hstat, woken_of_ne hu]
  · rw [resume_of_not_suspend hstat]

theorem delete_of_ne (hu : u ≠ t) : (s.delete t).thread u = s.thread u := by
  unfold delete bury
  dsimp only
  rw [setStat, setThread_of_ne hu, setTimer, setThread_of_ne hu]
  split
  · rw [removeThread_thread]
  · rfl

theorem ended_of_ne (hu : u ≠ t) : (s.ended t).thread u = s.thread u := by
  rw [ended, setStat, setThread_of_ne hu, setTimer, setThread_of_ne hu, removeThread_thread]

/-! ## States -/

theorem woken_ready (h : (s.thread u).stat = .ready) : ((s.woken t).thread u).stat = .ready := by
  by_cases hu : u = t
  · subst hu
    rw [woken_self]
  · rw [woken_of_ne hu, h]

/-- A ready thread stays ready when another is resumed. -/
theorem resume_ready (h : (s.thread u).stat = .ready) :
    ((s.resume t).1.thread u).stat = .ready := by
  by_cases hstat : (s.thread t).stat = .suspend
  · rw [resume_of_suspend hstat, woken_ready h]
  · rw [resume_of_not_suspend hstat, h]

theorem setTick_stat (s : Sched n) (t u : Fin n) (tick : BitVec 32) :
    ((s.setTick t tick).thread u).stat = (s.thread u).stat := by
  by_cases hu : u = t
  · subst hu
    rw [setTick, setThread_self]
  · rw [setTick, setThread_of_ne hu]

theorem delete_stat (s : Sched n) (t : Fin n) : ((s.delete t).thread t).stat = .close := by
  unfold delete bury
  dsimp only
  rw [setStat, setThread_self]

theorem changePriority_stat (s : Sched n) (t u : Fin n) (p : Priority) :
    ((s.changePriority t p).thread u).stat = (s.thread u).stat := by
  rw [changePriority_eq]
  by_cases hu : u = t
  · subst hu
    split
    next hready => rw [insertThread_thread, setStat, setThread_self, hready]
    next => rw [changed, setThread_self]
  · split
    · rw [insertThread_thread, setStat, setThread_of_ne hu, changed, setThread_of_ne hu,
        removeThread_thread]
    · rw [changed, setThread_of_ne hu]

end Sched

end RtVcom.Kernel
