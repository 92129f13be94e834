import RtVcom.Kernel.SchedulerFrame

/-!
# The running thread

`Settled`: the running thread is ready, and none of the ready ones is more urgent. `rt_schedule`
sees to it; the other functions of the scheduler may leave it to an `rt_schedule` that is to come
(`Held`). What they all keep is `Live`.
-/

namespace RtVcom.Kernel

open RtVcom.Lib

namespace Sched

variable {n : Nat} {s s' : Sched n} {q : ListHead → List (Fin n)} {t u v : Fin n} {due : Bool}

/-! ## The running thread and the ready ones -/

/-- The running thread is ready, and none of the others that are is more urgent. -/
def Settled (s : Sched n) : Prop :=
  ∀ t, s.current = some t → (s.thread t).stat = .ready ∧
    ∀ u, s.InReady u → (s.thread t).currentPriority ≤ (s.thread u).currentPriority

/-- What every call of the running thread `t` rests on. -/
structure Live (s : Sched n) (t : Fin n) : Prop where
  inv : ∃ q, SchedInv s q
  running : s.current = some t
  ready : ∃ u, (s.thread u).stat = .ready

/-- The thread need not give way, unless an `rt_schedule` is to come. -/
structure Held (s : Sched n) (t : Fin n) (due : Bool) : Prop extends Live s t where
  prompt : s.lockNest = 0 → due = true ∨ s.Settled

/-- The running thread can be suspended: its node is in no list, and another thread is ready. -/
def MayWait (s : Sched n) (t : Fin n) : Prop :=
  s.links.next (.inr t) = .inr t ∧ ∃ u, s.InReady u

instance (s : Sched n) (t : Fin n) : Decidable (s.InReady t) :=
  inferInstanceAs (Decidable (_ ∧ _))

instance (s : Sched n) (t : Fin n) : Decidable (s.MayWait t) :=
  inferInstanceAs (Decidable (_ ∧ _))

/-- What holds with an `rt_schedule` to come holds with another one. -/
theorem Held.keep (h : Held s t due) (b : Bool) : Held s t (due || b) :=
  ⟨h.toLive, fun hlock =>
    (h.prompt hlock).imp_left fun hdue => Bool.or_eq_true_iff.mpr (Or.inl hdue)⟩

/-- A thread that is about to call `rt_schedule`. -/
theorem Live.soon (h : Live s t) : Held s t (due || true) :=
  ⟨h, fun _ => Or.inl (Bool.or_true due)⟩

/-- The states and the priorities are the same. -/
theorem Settled.congr (h : Settled s) (hcur : s'.current = s.current)
    (hstat : ∀ u, (s'.thread u).stat = (s.thread u).stat)
    (hpriority : ∀ u, (s'.thread u).currentPriority = (s.thread u).currentPriority) :
    Settled s' := by
  intro t ht
  obtain ⟨hready, hleast⟩ := h t (hcur ▸ ht)
  refine ⟨(hstat t).trans hready, fun u hu => ?_⟩
  rw [hpriority, hpriority]
  exact hleast u ⟨hstat u ▸ hu.1, hcur ▸ hu.2⟩

/-! ## The priority of a thread -/

/-- The running thread is in no ready list: its priority changes and no link. -/
theorem SchedInv.changePriority_links (h : SchedInv s q) (hcur : s.current = some t)
    (p : Priority) : (s.changePriority t p).links = s.links := by
  rw [changePriority_eq]
  split
  next hready =>
    have hlinks := h.table.rings.remove_loose (h.loose_of_running hcur hready)
    have hcurrent : ((s.removeThread t).changed t p).current = some t :=
      (removeThread_current s t).trans hcur
    have hinsert : ((s.removeThread t).changed t p).insertThread t =
        ((s.removeThread t).changed t p).setStat t .ready := if_pos hcurrent
    rw [hinsert]
    refine Eq.trans ?_ hlinks
    change (s.removeThread t).links = (s.unlink t).links
    unfold removeThread
    dsimp only
    split <;> rfl
  next => rfl

/-- A thread that is in no list stays out of them when the priority of another one changes. -/
theorem SchedInv.changePriority_loose (h : SchedInv s q) (hne : t ≠ u) (p : Priority)
    (honce : s.links.next (.inr t) = .inr t) :
    (s.changePriority u p).links.next (.inr t) = .inr t := by
  have hloose := h.table.rings.next_self_iff.mp honce
  rw [changePriority_eq]
  split
  next hready =>
    have hstarted := (h.sound u).started (Or.inl hready)
    have htable := (h.table.removeThread hstarted).changed p fun hr => hr.2 rfl
    have hfree (g : ListHead) : t ∉ erased q u g :=
      fun hmem => hloose g (List.mem_of_mem_erase hmem)
    have hself : (((s.removeThread u).changed u p).thread u).started = true := by
      rw [changed, setThread_self, removeThread_thread]
      exact hstarted
    by_cases hcur : ((s.removeThread u).changed u p).current = some u
    · have hinsert : ((s.removeThread u).changed u p).insertThread u =
          ((s.removeThread u).changed u p).setStat u .ready := if_pos hcur
      rw [hinsert]
      exact htable.rings.next_self_iff.mpr hfree
    · apply (htable.insertThread h.table.loose_erased hself hcur).rings.next_self_iff.mpr
      intro g hmem
      rcases mem_pushed.mp hmem with hmem | ⟨heq, -⟩
      · exact hfree g hmem
      · exact hne heq
  next => exact honce

/-! ## What the functions of the scheduler leave -/

/-- Resuming a thread that is not more urgent leaves the scheduler settled. -/
theorem Settled.resume (h : Settled s) (hcur : s.current = some t)
    (hle : (s.thread t).currentPriority ≤ (s.thread u).currentPriority) :
    Settled (s.resume u).1 := by
  intro w hw
  rw [resume_current, hcur] at hw
  cases hw
  obtain ⟨hready, hleast⟩ := h t hcur
  refine ⟨resume_ready hready, fun v hv => ?_⟩
  rw [resume_priority, resume_priority]
  by_cases hvu : v = u
  · rw [hvu]
    exact hle
  · rw [InReady, resume_of_ne hvu, resume_current] at hv
    exact hleast v hv

theorem Settled.delete (h : Settled s) (hne : ∀ t, s.current = some t → t ≠ u) :
    Settled (s.delete u) := by
  intro t ht
  rw [delete_current] at ht
  obtain ⟨hready, hleast⟩ := h t ht
  rw [delete_of_ne (hne t ht)]
  refine ⟨hready, fun v hv => ?_⟩
  have hvu : v ≠ u := by
    rintro rfl
    cases (delete_stat s v).symm.trans hv.1
  rw [InReady, delete_of_ne hvu, delete_current] at hv
  rw [delete_of_ne hvu]
  exact hleast v hv

/-- The running thread takes another priority, and none of the ready ones is more urgent. -/
theorem Settled.changePriority (h : Settled s) (hcur : s.current = some t) {p : Priority}
    (hle : ∀ u, s.InReady u → p ≤ (s.thread u).currentPriority) :
    Settled (s.changePriority t p) := by
  intro w hw
  rw [changePriority_current, hcur] at hw
  cases hw
  rw [changePriority_stat, changePriority_self]
  refine ⟨(h t hcur).1, fun u hu => ?_⟩
  rw [InReady, changePriority_stat, changePriority_current] at hu
  rw [changePriority_of_ne (SchedInv.inReady_ne hcur hu)]
  exact hle u hu

namespace Live

/-- Resuming a thread keeps the running one live; so do the other calls below. -/
theorem resume (h : Live s t) (u : Fin n) : Live (s.resume u).1 t := by
  obtain ⟨q, hinv⟩ := h.inv
  obtain ⟨q', hinv', -⟩ := hinv.resume u
  obtain ⟨v, hv⟩ := h.ready
  exact ⟨⟨q', hinv'⟩, (resume_current s u).trans h.running, v, resume_ready hv⟩

theorem woken (h : Live s t) (htimer : (s.thread u).timer = true) : Live (s.woken u) t := by
  obtain ⟨q, hinv⟩ := h.inv
  have hsound := hinv.sound u
  obtain ⟨q', hinv', -⟩ :=
    hinv.woken (hsound.started (Or.inr (Or.inr (Or.inl htimer)))) (hsound.timed htimer)
  obtain ⟨v, hv⟩ := h.ready
  exact ⟨⟨q', hinv'⟩, (woken_current s u).trans h.running, v, woken_ready hv⟩

theorem startup (h : Live s t) (hinit : (s.thread u).stat = .init) :
    Live ((s.setThread u (prepared (s.thread u))).resume u).1 t := by
  obtain ⟨q, hinv⟩ := h.inv
  obtain ⟨v, hv⟩ := h.ready
  have hvu : v ≠ u := by
    rintro rfl
    cases hinit.symm.trans hv
  have hprepared : Live (s.setThread u (prepared (s.thread u))) t :=
    ⟨⟨q, hinv.prepared hinit⟩, h.running, v, (congrArg Tcb.stat (setThread_of_ne hvu)).trans hv⟩
  exact hprepared.resume u

theorem changePriority (h : Live s t) (u : Fin n) (p : Priority) :
    Live (s.changePriority u p) t := by
  obtain ⟨q, hinv⟩ := h.inv
  obtain ⟨q', hinv', -⟩ := hinv.changePriority u p
  obtain ⟨v, hv⟩ := h.ready
  exact ⟨⟨q', hinv'⟩, (changePriority_current s u p).trans h.running, v,
    (changePriority_stat s u v p).trans hv⟩

theorem setTick (h : Live s t) (u : Fin n) (tick : BitVec 32) : Live (s.setTick u tick) t := by
  obtain ⟨q, hinv⟩ := h.inv
  obtain ⟨v, hv⟩ := h.ready
  exact ⟨⟨q, hinv.setTick u tick⟩, h.running, v, (setTick_stat s u v tick).trans hv⟩

theorem setLockNest (h : Live s t) (lockNest : BitVec 16) :
    Live { s with lockNest := lockNest } t := by
  obtain ⟨q, hinv⟩ := h.inv
  exact ⟨⟨q, hinv.setLockNest lockNest⟩, h.running, h.ready⟩

/-- Deleting a thread keeps the running one live where another one is ready. -/
theorem delete (h : Live s t) (hstat : (s.thread u).stat ≠ .close)
    (hother : ∃ v, v ≠ u ∧ (s.thread v).stat = .ready) : Live (s.delete u) t := by
  obtain ⟨q, hinv⟩ := h.inv
  obtain ⟨q', hinv', -⟩ := hinv.delete hstat
  obtain ⟨v, hvu, hv⟩ := hother
  exact ⟨⟨q', hinv'⟩, (delete_current s u).trans h.running, v,
    (congrArg Tcb.stat (delete_of_ne hvu)).trans hv⟩

/-- Suspending the running thread does likewise, where another one is in the ready table. -/
theorem suspend (h : Live s t) (hother : ∃ u, s.InReady u) : Live (s.suspend t).1 t := by
  obtain ⟨q, hinv⟩ := h.inv
  obtain ⟨hinv', hcur, -⟩ := hinv.suspend h.running
  obtain ⟨u, hu⟩ := hother
  have hne := SchedInv.inReady_ne h.running hu
  exact ⟨⟨q, hinv'⟩, hcur.trans h.running, u,
    (congrArg Tcb.stat (suspend_of_ne hne)).trans hu.1⟩

theorem setTimer (h : Live s t) (hstat : (s.thread t).stat ≠ .ready) :
    Live (s.setTimer t true) t := by
  obtain ⟨q, hinv⟩ := h.inv
  obtain ⟨u, hu⟩ := h.ready
  have hne : u ≠ t := fun heq => hstat (heq ▸ hu)
  exact ⟨⟨q, hinv.setTimer h.running hstat⟩, h.running, u,
    (congrArg Tcb.stat (setThread_of_ne hne)).trans hu⟩

theorem sleep (h : Live s t) (hother : ∃ u, s.InReady u) :
    Live ((s.suspend t).1.setTimer t true) t := by
  obtain ⟨q, hinv⟩ := h.inv
  exact (h.suspend hother).setTimer (hinv.suspend h.running).2.2

theorem ended (h : Live s t) (hother : ∃ u, s.InReady u) :
    Live (s.ended t) t ∧ Live ((s.ended t).bury t) t := by
  obtain ⟨q, hinv⟩ := h.inv
  obtain ⟨hended, q', hburied, -⟩ := hinv.ended h.running
  obtain ⟨u, hu⟩ := hother
  have hready : ((s.ended t).thread u).stat = .ready :=
    (congrArg Tcb.stat (ended_of_ne (SchedInv.inReady_ne h.running hu))).trans hu.1
  have hcur : (s.ended t).current = some t := (removeThread_current s t).trans h.running
  exact ⟨⟨⟨_, hended⟩, hcur, u, hready⟩, ⟨q', hburied⟩, hcur, u, hready⟩

/-- `rt_ipc_list_suspend` of the running thread, and the start of its timer. -/
theorem ipcListSuspend (h : Live s t) (hmay : s.MayWait t) {o : Nat} {flag : IpcFlag}
    (hs : s.ipcListSuspend o t flag = some s') : Live s' t ∧ (s'.thread t).stat ≠ .ready := by
  obtain ⟨q, hinv⟩ := h.inv
  obtain ⟨honce, hother⟩ := hmay
  obtain ⟨m, hm, hcur, hthread, hinv'⟩ := hinv.ipcListSuspend h.running honce o flag
  cases hm.symm.trans hs
  obtain ⟨u, hu⟩ := (h.suspend hother).ready
  refine ⟨⟨⟨_, hinv'⟩, hcur.trans h.running, u, ?_⟩, ?_⟩
  · rw [hthread, hu]
  · rw [hthread]
    exact (hinv.suspend h.running).2.2

/-- `rt_schedule`: behind it nobody has to give way. -/
theorem schedule (h : Live s t) (hs : s.schedule = some s') : ∃ u, Held s' u false := by
  obtain ⟨q, hinv⟩ := h.inv
  obtain ⟨m, hm, ⟨hthread, hlockNest, houtcome⟩, q', hinv', -⟩ := hinv.schedule h.running
  cases hm.symm.trans hs
  have hready : ∃ u, (s'.thread u).stat = .ready := by
    rw [hthread]
    exact h.ready
  rcases houtcome with ⟨hcur, hwhy⟩ | ⟨u, hcur, -, hu, hleast, hless⟩
  · refine ⟨t, ⟨⟨_, hinv'⟩, hcur, hready⟩, fun hlock => Or.inr fun w hw => ?_⟩
    cases hcur.symm.trans hw
    rw [hlockNest] at hlock
    have hin (v : Fin n) (hv : s'.InReady v) : s.InReady v := by
      rw [InReady, hthread, hcur, ← h.running] at hv
      exact hv
    rw [hthread]
    rcases hwhy with hlocked | hnone | ⟨hstat, hurgent⟩
    · exact absurd hlock hlocked
    · refine ⟨?_, fun v hv => absurd (hin v hv) (hnone v)⟩
      obtain ⟨v, hv⟩ := h.ready
      by_cases hvt : v = t
      · exact hvt ▸ hv
      · refine absurd ⟨hv, fun heq => hvt ?_⟩ (hnone v)
        exact (Option.some_inj.mp (h.running.symm.trans heq)).symm
    · exact ⟨hstat, fun v hv => (hurgent v (hin v hv)).le⟩
  · refine ⟨u, ⟨⟨_, hinv'⟩, hcur, hready⟩, fun _ => Or.inr fun w hw => ?_⟩
    cases hcur.symm.trans hw
    rw [hthread]
    refine ⟨hu.1, fun v hv => ?_⟩
    rw [InReady, hthread] at hv
    by_cases hvt : v = t
    · rw [hvt]
      exact hless (hvt ▸ hv.1)
    · refine hleast v ⟨hv.1, fun heq => hvt ?_⟩
      exact (Option.some_inj.mp (h.running.symm.trans heq)).symm

end Live

/-- `rt_system_scheduler_start`, which takes one of the most urgent threads. -/
theorem SchedInv.start_held (h : SchedInv s q) (hcur : s.current = none)
    (hs : s.schedulerStart = some s') : ∃ t, Held s' t false := by
  obtain ⟨q', hinv, -⟩ := h.schedulerStart hcur hs
  obtain ⟨⟨p, t⟩, hhighest, rfl⟩ := Option.map_eq_some_iff.mp hs
  have hgroup : s.group ≠ 0 := by
    intro hzero
    rw [Sched.highest, hzero] at hhighest
    cases hhighest
  obtain ⟨p', t', hhighest', hready, hp, hleast⟩ := h.table.highest hgroup
  cases hhighest'.symm.trans hhighest
  have hcur' : ({ s with current := some t }.removeThread t).current = some t :=
    removeThread_current _ t
  refine ⟨t, ⟨⟨q', hinv⟩, hcur', t, ?_⟩, fun _ => Or.inr fun w hw => ?_⟩
  · rw [removeThread_thread]
    exact hready.1
  · cases hcur'.symm.trans hw
    rw [removeThread_thread]
    refine ⟨hready.1, fun v hv => ?_⟩
    rw [InReady, removeThread_thread] at hv
    rw [← hp] at hleast
    refine hleast v ⟨hv.1, ?_⟩
    rw [hcur]
    exact fun heq => by cases heq

end Sched

end RtVcom.Kernel
