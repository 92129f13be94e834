import Mathlib.Data.Fintype.Card
import RtVcom.Lib.Insertion
import RtVcom.Kernel.ReadyTable

/-!
# What the calls of the scheduler rest on

`SchedInv s q`: the ready table is that of the threads that are ready and do not run, and every
thread is in no list it would be linked to. Each call keeps it. The suspend lists only shrink
(`Shrunk`), but for `rt_ipc_list_suspend`, which needs that the node of the running thread is in
no list.
-/

namespace RtVcom.Kernel

open RtVcom.Lib

namespace Sched

variable {n : Nat} {s s' : Sched n} {q q' : ListHead → List (Fin n)} {r r' : Fin n → Prop}
  {t u : Fin n}

/-! ## What the calls rest on -/

/-- The thread is to be found in a ready list. -/
def InReady (s : Sched n) (t : Fin n) : Prop := (s.thread t).stat = .ready ∧ s.current ≠ some t

/-- What holds of a thread, where `runs` says that it is the running one and `loose` that it is in
no list. -/
structure Sound (x : Tcb) (runs loose : Prop) : Prop where
  started : x.stat = .ready ∨ x.stat = .suspend ∨ x.timer = true ∨ runs → x.started = true
  fresh : x.stat = .init → loose
  running : runs → x.stat = .ready → loose
  known : runs → x.stat ≠ .init
  timed : x.timer = true → x.stat ≠ .ready

structure SchedInv (s : Sched n) (q : ListHead → List (Fin n)) : Prop where
  table : Table s q s.InReady
  sound : ∀ t, Sound (s.thread t) (s.current = some t) (∀ h, t ∉ q h)

/-- No thread has come to a suspend list. -/
def Shrunk (q q' : ListHead → List (Fin n)) : Prop :=
  ∀ o, (q' (.wait o)).Sublist (q (.wait o))

theorem Shrunk.refl (q : ListHead → List (Fin n)) : Shrunk q q := fun _ => List.Sublist.refl _

theorem Shrunk.trans {q₁ q₂ q₃ : ListHead → List (Fin n)} (h : Shrunk q₁ q₂) (h' : Shrunk q₂ q₃) :
    Shrunk q₁ q₃ :=
  fun o => (h' o).trans (h o)

theorem shrunk_erased : Shrunk q (erased q t) := fun _ => List.erase_sublist

theorem shrunk_pushed {p : Priority} : Shrunk q (pushed q (.ready p) t) := by
  intro o
  rw [pushed, Function.update_of_ne (fun heq => by cases heq)]

/-- `rt_schedule` where it switches from `t` to `u`: a thread that is ready goes to the end of its
ready list. -/
def switched (s : Sched n) (t u : Fin n) : Sched n :=
  let s' : Sched n := { s with current := some u }
  if (s'.thread t).stat = .ready then s'.insertThread t else s'

theorem suspend_of_ready (h : (s.thread t).stat = .ready) :
    (s.suspend t).1 = ((s.setStat t .suspend).removeThread t).setTimer t false := by
  rw [suspend, if_neg (not_not.mpr h)]

theorem suspend_of_not_ready (h : (s.thread t).stat ≠ .ready) : (s.suspend t).1 = s := by
  rw [suspend, if_pos h]

theorem suspend_current (s : Sched n) (t : Fin n) : (s.suspend t).1.current = s.current := by
  by_cases hready : (s.thread t).stat = .ready
  · rw [suspend_of_ready hready]
    exact removeThread_current _ t
  · rw [suspend_of_not_ready hready]

theorem setStat_priority (s : Sched n) (t u : Fin n) (stat : ThreadStat) :
    ((s.setStat t stat).thread u).currentPriority = (s.thread u).currentPriority := by
  by_cases hu : u = t
  · subst hu
    rw [setStat, setThread_self]
  · rw [setStat, setThread_of_ne hu]

theorem setTimer_priority (s : Sched n) (t u : Fin n) (timer : Bool) :
    ((s.setTimer t timer).thread u).currentPriority = (s.thread u).currentPriority := by
  by_cases hu : u = t
  · subst hu
    rw [setTimer, setThread_self]
  · rw [setTimer, setThread_of_ne hu]

theorem suspend_priority (s : Sched n) (t u : Fin n) :
    ((s.suspend t).1.thread u).currentPriority = (s.thread u).currentPriority := by
  by_cases hready : (s.thread t).stat = .ready
  · rw [suspend_of_ready hready, setTimer_priority, removeThread_thread, setStat_priority]
  · rw [suspend_of_not_ready hready]

/-- A thread that waits is put to the ready ones, by `rt_thread_resume` and by
`rt_thread_timeout`. -/
def woken (s : Sched n) (t : Fin n) : Sched n := ((s.unlink t).setTimer t false).insertThread t

theorem resume_of_suspend (h : (s.thread t).stat = .suspend) : (s.resume t).1 = s.woken t := by
  rw [resume, if_neg (not_not.mpr h), woken]

theorem resume_of_not_suspend (h : (s.thread t).stat ≠ .suspend) : (s.resume t).1 = s := by
  rw [resume, if_pos h]

theorem woken_current (s : Sched n) (t : Fin n) : (s.woken t).current = s.current :=
  insertThread_current _ t

theorem resume_current (s : Sched n) (t : Fin n) : (s.resume t).1.current = s.current := by
  by_cases hstat : (s.thread t).stat = .suspend
  · rw [resume_of_suspend hstat, woken_current]
  · rw [resume_of_not_suspend hstat]

/-- What a wake-up writes into the thread. -/
theorem woken_self (s : Sched n) (t : Fin n) :
    (s.woken t).thread t = { s.thread t with stat := .ready, timer := false } := by
  rw [woken, insertThread_thread, setStat, setThread_self, setTimer, setThread_self]
  rfl

theorem woken_of_ne (h : u ≠ t) : (s.woken t).thread u = s.thread u := by
  rw [woken, insertThread_thread, setStat, setThread_of_ne h, setTimer, setThread_of_ne h]
  rfl

/-- A thread as `rt_thread_startup` resumes it. -/
def prepared (x : Tcb) : Tcb :=
  { x with
    currentPriority := x.initPriority
    numberMask := priorityMask x.initPriority
    stat := .suspend
    started := true }

/-- A thread that ends itself, without its place in a list. -/
def ended (s : Sched n) (t : Fin n) : Sched n :=
  ((s.removeThread t).setTimer t false).setStat t .close

/-- The slice of a thread. -/
def setTick (s : Sched n) (t : Fin n) (remainingTick : BitVec 32) : Sched n :=
  s.setThread t { s.thread t with remainingTick }

namespace SchedInv

/-- A running thread that is ready is in no list. -/
theorem loose_of_running (h : SchedInv s q) (hcur : s.current = some t)
    (hready : (s.thread t).stat = .ready) : ∀ g, t ∉ q g :=
  (h.sound t).running hcur hready

/-- A step that changes one thread and not the running one. -/
theorem of_touched (h : SchedInv s q) (hcur : s'.current = s.current)
    (hthread : ∀ u, u ≠ t → s'.thread u = s.thread u)
    (hkeep : ∀ u, u ≠ t → (∀ g, u ∉ q g) → ∀ g, u ∉ q' g)
    (htable : Table s' q' r) (hr : ∀ u, u ≠ t → (r u ↔ s.InReady u)) (hrt : r t ↔ s'.InReady t)
    (hsound : Sound (s'.thread t) (s.current = some t) (∀ g, t ∉ q' g)) : SchedInv s' q' := by
  refine ⟨htable.of_iff fun u => ?_, fun u => ?_⟩
  · by_cases hu : u = t
    · subst hu
      exact hrt.symm
    · rw [hr u hu, InReady, InReady, hthread u hu, hcur]
  · rw [hcur]
    by_cases hu : u = t
    · subst hu
      exact hsound
    · have hold := h.sound u
      rw [hthread u hu]
      exact ⟨hold.started, fun hinit => hkeep u hu (hold.fresh hinit),
        fun hruns hready => hkeep u hu (hold.running hruns hready), hold.known, hold.timed⟩

theorem inReady_ne (hcur : s.current = some t) (hu : s.InReady u) : u ≠ t := by
  rintro rfl
  exact hu.2 hcur

/-- `rt_system_scheduler_start`, where nobody runs. -/
theorem schedulerStart (h : SchedInv s q) (hcur : s.current = none)
    (hstart : s.schedulerStart = some s') : ∃ q', SchedInv s' q' ∧ Shrunk q q' := by
  obtain ⟨⟨p, t⟩, hhighest, rfl⟩ := Option.map_eq_some_iff.mp hstart
  have hgroup : s.group ≠ 0 := by
    intro hzero
    rw [Sched.highest, hzero] at hhighest
    cases hhighest
  obtain ⟨p', t', hhighest', hready, -, -⟩ := h.table.highest hgroup
  obtain ⟨-, rfl⟩ := Prod.ext_iff.mp (Option.some_inj.mp (hhighest'.symm.trans hhighest))
  have hstarted := (h.sound t').started (Or.inl hready.1)
  have hswitched : Table { s with current := some t' } q s.InReady :=
    h.table.congr rfl rfl (fun _ => Iff.rfl) (fun _ _ => rfl) h.table.mask
  refine ⟨_, ⟨(hswitched.removeThread hstarted).of_iff fun u => ?_, fun u => ?_⟩, shrunk_erased⟩
  · rw [InReady, InReady, removeThread_thread, removeThread_current, hcur]
    simp only [ne_eq, Option.some_inj, reduceCtorEq, not_false_eq_true, and_true, eq_comm]
  · have hold := h.sound u
    rw [removeThread_thread, removeThread_current, Option.some_inj]
    by_cases hu : t' = u
    · subst hu
      exact ⟨fun _ => hstarted, fun _ => h.table.loose_erased, fun _ _ => h.table.loose_erased,
        fun _ hinit => (by cases hready.1.symm.trans hinit), hold.timed⟩
    · refine ⟨fun hwhy => hold.started (by tauto), fun hinit g hmem => ?_,
        fun hruns => absurd hruns hu, fun hruns => absurd hruns hu, hold.timed⟩
      exact hold.fresh hinit g (List.mem_of_mem_erase hmem)

/-- What `rt_schedule` does while `t` runs: it goes on, or one of the most urgent ready threads
takes its place. -/
structure Scheduled (s s' : Sched n) (t : Fin n) : Prop where
  thread : s'.thread = s.thread
  lockNest : s'.lockNest = s.lockNest
  outcome :
    s'.current = some t ∧ (s.lockNest ≠ 0 ∨ (∀ u, ¬s.InReady u) ∨
      (s.thread t).stat = .ready ∧
        ∀ u, s.InReady u → (s.thread t).currentPriority < (s.thread u).currentPriority) ∨
    ∃ u, s'.current = some u ∧ s.lockNest = 0 ∧ s.InReady u ∧
      (∀ v, s.InReady v → (s.thread u).currentPriority ≤ (s.thread v).currentPriority) ∧
      ((s.thread t).stat = .ready → (s.thread u).currentPriority ≤ (s.thread t).currentPriority)

/-- The scheduler switches to a thread of the table and takes it out. -/
theorem switch (h : SchedInv s q) (hcur : s.current = some t) (hu : s.InReady u) :
    (∃ q', SchedInv ((s.switched t u).removeThread u) q' ∧ Shrunk q q') ∧
      (s.switched t u).thread = s.thread := by
  have hne : u ≠ t := inReady_ne hcur hu
  have hstarted := (h.sound u).started (Or.inl hu.1)
  have hswitched : Table { s with current := some u } q s.InReady :=
    h.table.congr rfl rfl (fun _ => Iff.rfl) (fun _ _ => rfl) h.table.mask
  -- the threads that are not `u` or `t` are where they were
  have hsound {s' : Sched n} {q' : ListHead → List (Fin n)} (hthread : s'.thread = s.thread)
      (hcurrent : s'.current = some u) (hloose : ∀ g, u ∉ q' g)
      (hkeep : ∀ v, v ≠ t → (∀ g, v ∉ q g) → ∀ g, v ∉ q' g) (v : Fin n) :
      Sound (s'.thread v) (s'.current = some v) (∀ g, v ∉ q' g) := by
    have hold := h.sound v
    rw [hthread, hcurrent, Option.some_inj]
    by_cases hv : u = v
    · subst hv
      exact ⟨fun _ => hstarted, fun _ => hloose, fun _ _ => hloose,
        fun _ hinit => (by cases hu.1.symm.trans hinit), hold.timed⟩
    · refine ⟨fun hwhy => hold.started (by tauto), fun hinit => ?_,
        fun hruns => absurd hruns hv, fun hruns => absurd hruns hv, hold.timed⟩
      have hvt : v ≠ t := by
        rintro rfl
        exact hold.known hcur hinit
      exact hkeep v hvt (hold.fresh hinit)
  by_cases hready : (s.thread t).stat = .ready
  · have heq : s.switched t u = { s with current := some u }.insertThread t := if_pos hready
    rw [heq]
    have hcurrent : { s with current := some u }.current ≠ some t :=
      fun heq => hne (Option.some_inj.mp heq)
    have hinserted := hswitched.insertThread (h.loose_of_running hcur hready)
      ((h.sound t).started (Or.inl hready)) hcurrent
    have hthread : ({ s with current := some u }.insertThread t).thread = s.thread := by
      rw [insertThread_thread]
      unfold setStat setThread
      dsimp only
      rw [← hready]
      exact Function.update_eq_self t s.thread
    have hustarted : (({ s with current := some u }.insertThread t).thread u).started = true := by
      rw [hthread]
      exact hstarted
    refine ⟨⟨_, ⟨(hinserted.removeThread hustarted).of_iff fun v => ?_, ?_⟩, ?_⟩, hthread⟩
    · rw [InReady, InReady, removeThread_thread, removeThread_current, hthread,
        insertThread_current, hcur]
      simp only [ne_eq, Option.some_inj]
      by_cases hv : v = t
      · subst hv
        simp only [hready, true_and, or_true, eq_comm]
      · simp only [Ne.symm hv, not_false_eq_true, and_true, hv, or_false, eq_comm]
    · refine hsound ?_ ?_ hinserted.loose_erased fun v hv hloose g hmem => ?_
      · rw [removeThread_thread, hthread]
      · rw [removeThread_current, insertThread_current]
      · rcases mem_pushed.mp (List.mem_of_mem_erase hmem) with hmem | ⟨heq, -⟩
        · exact hloose g hmem
        · exact hv heq
    · exact shrunk_pushed.trans shrunk_erased
  · have heq : s.switched t u = { s with current := some u } := if_neg hready
    rw [heq]
    refine ⟨⟨_, ⟨(hswitched.removeThread hstarted).of_iff fun v => ?_, ?_⟩, shrunk_erased⟩, rfl⟩
    · rw [InReady, InReady, removeThread_thread, removeThread_current, hcur]
      simp only [ne_eq, Option.some_inj]
      by_cases hv : v = t
      · subst hv
        simp only [hready, false_and]
      · simp only [Ne.symm hv, not_false_eq_true, and_true, eq_comm]
    · refine hsound ?_ ?_ h.table.loose_erased fun v _ hloose g hmem => ?_
      · rw [removeThread_thread]
      · rw [removeThread_current]
      · exact hloose g (List.mem_of_mem_erase hmem)

/-- `rt_schedule`, where a thread runs. -/
theorem schedule (h : SchedInv s q) (hcur : s.current = some t) :
    ∃ s', s.schedule = some s' ∧ Scheduled s s' t ∧ ∃ q', SchedInv s' q' ∧ Shrunk q q' := by
  by_cases hstay : s.lockNest ≠ 0 ∨ s.group = 0
  · refine ⟨s, if_pos hstay, ⟨rfl, rfl, Or.inl ⟨hcur, ?_⟩⟩, q, h, Shrunk.refl q⟩
    exact hstay.imp_right fun hzero => Or.inl fun _ => h.table.not_of_group_zero hzero
  obtain ⟨hlock, hgroup⟩ := not_or.mp hstay
  obtain ⟨p, u, hhighest, hu, hp, hleast⟩ := h.table.highest hgroup
  have hne : u ≠ t := inReady_ne hcur hu
  rw [Sched.schedule, if_neg hstay, hhighest, hcur]
  dsimp only
  by_cases hurgent : (s.thread t).stat = .ready ∧ (s.thread t).currentPriority < p
  · -- the running thread is in no list: to remove it changes nothing
    rw [if_pos (Or.inl hurgent)]
    have hloose := h.loose_of_running hcur hurgent.1
    have htable := h.table.removeThread ((h.sound t).started (Or.inl hurgent.1))
    rw [erased_of_loose hloose] at htable
    refine ⟨_, rfl, ⟨removeThread_thread s t, removeThread_lockNest s t, Or.inl ⟨?_, ?_⟩⟩, q,
      ⟨htable.of_iff fun v => ?_, fun v => ?_⟩, Shrunk.refl q⟩
    · rw [removeThread_current, hcur]
    · exact Or.inr (Or.inr ⟨hurgent.1, fun v hv => lt_of_lt_of_le hurgent.2 (hleast v hv)⟩)
    · rw [InReady, InReady, removeThread_thread, removeThread_current]
      refine (and_iff_left_of_imp fun hv => ?_).symm
      exact inReady_ne hcur hv
    · rw [removeThread_thread, removeThread_current]
      exact h.sound v
  · rw [if_neg (not_or.mpr ⟨hurgent, hne⟩)]
    obtain ⟨hinv, hthread⟩ := h.switch hcur hu
    have hcurrent : (s.switched t u).current = some u := by
      unfold switched
      dsimp only
      split
      · rw [insertThread_current]
      · rfl
    have hlockNest : (s.switched t u).lockNest = s.lockNest := by
      unfold switched
      dsimp only
      split
      · rw [insertThread_lockNest]
      · rfl
    refine ⟨_, rfl, ⟨?_, ?_, Or.inr ⟨u, ?_, not_not.mp hlock, hu, ?_, ?_⟩⟩, hinv⟩
    · exact (removeThread_thread _ u).trans hthread
    · exact (removeThread_lockNest _ u).trans hlockNest
    · exact (removeThread_current _ u).trans hcurrent
    · exact fun v hv => hp.trans_le (hleast v hv)
    · exact fun hready => hp.trans_le (not_lt.mp fun hlt => hurgent ⟨hready, hlt⟩)

/-- `rt_thread_suspend` of the running thread. -/
theorem suspend (h : SchedInv s q) (hcur : s.current = some t) :
    SchedInv (s.suspend t).1 q ∧ (s.suspend t).1.current = s.current ∧
      ((s.suspend t).1.thread t).stat ≠ .ready := by
  by_cases hready : (s.thread t).stat = .ready
  · rw [suspend_of_ready hready]
    have hloose := h.loose_of_running hcur hready
    have hstarted := (h.sound t).started (Or.inl hready)
    have hstarted' : ((s.setStat t .suspend).thread t).started = true := by
      rw [setStat, setThread_self]
      exact hstarted
    have htable := ((h.table.setStat t .suspend).removeThread hstarted').setTimer t false
    rw [erased_of_loose hloose] at htable
    have hcurrent : (((s.setStat t .suspend).removeThread t).setTimer t false).current =
        s.current := removeThread_current _ t
    have hthread : (((s.setStat t .suspend).removeThread t).setTimer t false).thread t =
        { s.thread t with stat := .suspend, timer := false } := by
      rw [setTimer, setThread_self, removeThread_thread, setStat, setThread_self]
    have hstat : (((s.setStat t .suspend).removeThread t).setTimer t false |>.thread t).stat ≠
        .ready := by
      rw [hthread]
      exact fun heq => by cases heq
    refine ⟨h.of_touched (t := t) hcurrent (fun u hu => ?_) (fun _ _ hkeep => hkeep) htable
      (fun u hu => and_iff_left hu) ?_ ?_, hcurrent, hstat⟩
    · rw [setTimer, setThread_of_ne hu, removeThread_thread, setStat, setThread_of_ne hu]
    · exact iff_of_false (fun hr => hr.2 rfl) fun hr => hstat hr.1
    · rw [hthread]
      exact ⟨fun _ => hstarted, fun _ => hloose, fun _ _ => hloose,
        fun _ heq => (by cases heq), fun htimer => by cases htimer⟩
  · rw [suspend_of_not_ready hready]
    exact ⟨h, rfl, hready⟩

/-- A thread that has been taken out of its list is put to the ready ones. -/
theorem reinserted (h : SchedInv s q) {m : Sched n} (hcurrent : m.current = s.current)
    (hother : ∀ u, u ≠ t → m.thread u = s.thread u)
    (hkeep : ∀ u, u ≠ t → (∀ g, u ∉ q g) → ∀ g, u ∉ q' g) (htable : Table m q' r)
    (hr : ∀ u, u ≠ t → (r u ↔ s.InReady u)) (hnot : ¬r t) (hloose : ∀ g, t ∉ q' g)
    (hstarted : (m.thread t).started = true) (htimer : (m.thread t).timer = false) :
    ∃ q'', SchedInv (m.insertThread t) q'' ∧ Shrunk q' q'' := by
  have hself : (m.insertThread t).thread t = { m.thread t with stat := .ready } := by
    rw [insertThread_thread, setStat, setThread_self]
  have hinserted (u : Fin n) (hu : u ≠ t) : (m.insertThread t).thread u = s.thread u := by
    rw [insertThread_thread, setStat, setThread_of_ne hu, hother u hu]
  have hrunning := (insertThread_current m t).trans hcurrent
  have hsound (q₁ : ListHead → List (Fin n)) (hrest : s.current = some t → ∀ g, t ∉ q₁ g) :
      Sound ((m.insertThread t).thread t) (s.current = some t) (∀ g, t ∉ q₁ g) := by
    rw [hself]
    exact ⟨fun _ => hstarted, fun heq => (by cases heq), fun hruns _ => hrest hruns,
      fun _ heq => (by cases heq), fun heq => (by cases htimer.symm.trans heq)⟩
  by_cases hcur : s.current = some t
  · have heq : m.insertThread t = m.setStat t .ready := if_pos (hcurrent.trans hcur)
    have hstayed : Table (m.insertThread t) q' r := heq ▸ htable.setStat t .ready
    refine ⟨q', h.of_touched hrunning hinserted hkeep hstayed hr ?_ (hsound q' fun _ => hloose),
      Shrunk.refl q'⟩
    exact iff_of_false hnot fun hready => hready.2 (hrunning.trans hcur)
  · have hpushed := htable.insertThread hloose hstarted (hcurrent ▸ hcur)
    refine ⟨_, h.of_touched hrunning hinserted (fun u hu hfree g hmem => ?_) hpushed
      (fun u hu => (or_iff_left hu).trans (hr u hu)) ?_ (hsound _ fun hruns => absurd hruns hcur),
      shrunk_pushed⟩
    · rcases mem_pushed.mp hmem with hmem | ⟨heq, -⟩
      · exact hkeep u hu hfree g hmem
      · exact hu heq
    · refine iff_of_true (Or.inr rfl) ⟨?_, fun hruns => hcur (hrunning.symm.trans hruns)⟩
      rw [hself]

/-- Taking one thread out leaves the others where they are. -/
theorem keep_erased (u : Fin n) (_ : u ≠ t) (hfree : ∀ g, u ∉ q g) : ∀ g, u ∉ erased q t g :=
  fun g hmem => hfree g (List.mem_of_mem_erase hmem)

/-- A thread that is not ready is put to the ready ones. -/
theorem woken (h : SchedInv s q) (hstarted : (s.thread t).started = true)
    (hstat : (s.thread t).stat ≠ .ready) : ∃ q', SchedInv (s.woken t) q' ∧ Shrunk q q' := by
  have hnot : ¬s.InReady t := fun hready => hstat hready.1
  have hself : ((s.unlink t).setTimer t false).thread t = { s.thread t with timer := false } :=
    setThread_self _
  obtain ⟨q', hinv, hshrunk⟩ := h.reinserted (m := (s.unlink t).setTimer t false) rfl
    (fun u hu => setThread_of_ne hu) keep_erased ((h.table.unlink hnot).setTimer t false)
    (fun _ _ => Iff.rfl) hnot h.table.loose_erased (hself ▸ hstarted) (hself ▸ rfl)
  exact ⟨q', hinv, shrunk_erased.trans hshrunk⟩

/-- `rt_thread_resume`. -/
theorem resume (h : SchedInv s q) (t : Fin n) :
    ∃ q', SchedInv (s.resume t).1 q' ∧ Shrunk q q' := by
  by_cases hstat : (s.thread t).stat = .suspend
  · rw [resume_of_suspend hstat]
    refine h.woken ((h.sound t).started (Or.inr (Or.inl hstat))) ?_
    rw [hstat]
    exact fun heq => by cases heq
  · rw [resume_of_not_suspend hstat]
    exact ⟨q, h, Shrunk.refl q⟩

/-- `rt_schedule`, also before `rt_system_scheduler_start`. -/
theorem of_schedule (h : SchedInv s q) (hs : s.schedule = some s') :
    ∃ q', SchedInv s' q' ∧ Shrunk q q' := by
  cases hcur : s.current with
  | none =>
    rw [Sched.schedule, hcur] at hs
    split at hs
    · cases hs
      exact ⟨q, h, Shrunk.refl q⟩
    · cases hhighest : s.highest <;> rw [hhighest] at hs <;> cases hs
  | some t =>
    obtain ⟨s'', hs'', -, hinv⟩ := h.schedule hcur
    cases hs''.symm.trans hs
    exact hinv

/-- The timer of a thread that is not ready is started. -/
theorem setTimer (h : SchedInv s q) (hcur : s.current = some t)
    (hstat : (s.thread t).stat ≠ .ready) : SchedInv (s.setTimer t true) q := by
  have hsound := h.sound t
  have hthread : (s.setTimer t true).thread t = { s.thread t with timer := true } :=
    setThread_self _
  refine h.of_touched (t := t) rfl (fun u hu => setThread_of_ne hu) (fun _ _ hkeep => hkeep)
    (h.table.setTimer t true) (fun _ _ => Iff.rfl) ?_ ?_
  · rw [InReady, InReady, hthread]
    exact Iff.rfl
  · rw [hthread]
    exact ⟨fun _ => hsound.started (Or.inr (Or.inr (Or.inr hcur))), hsound.fresh, hsound.running,
      hsound.known, fun _ => hstat⟩

/-- `rt_thread_startup` of a thread that was not started. -/
theorem prepared (h : SchedInv s q) (hinit : (s.thread t).stat = .init) :
    SchedInv (s.setThread t (Sched.prepared (s.thread t))) q := by
  have hnot : ¬s.InReady t := fun hready => by cases hinit.symm.trans hready.1
  have hloose := (h.sound t).fresh hinit
  have htable : Table (s.setThread t (Sched.prepared (s.thread t))) q s.InReady := by
    refine h.table.congr rfl rfl (fun _ => Iff.rfl) (fun u hu => ?_) fun u => ?_
    · have hne : u ≠ t := fun heq => hnot (heq ▸ hu)
      rw [setThread_of_ne hne]
    · by_cases hu : u = t
      · subst hu
        rw [setThread_self]
        exact fun _ => rfl
      · rw [setThread_of_ne hu]
        exact h.table.mask u
  refine h.of_touched (t := t) rfl (fun u hu => setThread_of_ne hu) (fun _ _ hkeep => hkeep)
    htable (fun _ _ => Iff.rfl) ?_ ?_
  · refine iff_of_false hnot fun hready => ?_
    have hstat := hready.1
    rw [setThread_self] at hstat
    cases hstat
  · rw [setThread_self]
    exact ⟨fun _ => rfl, fun _ => hloose, fun _ _ => hloose, fun _ heq => (by cases heq),
      fun _ heq => (by cases heq)⟩

/-- The slice is of no account. -/
theorem setTick (h : SchedInv s q) (t : Fin n) (tick : BitVec 32) :
    SchedInv (s.setTick t tick) q := by
  have hsound := h.sound t
  have hself : (s.setTick t tick).thread t = { s.thread t with remainingTick := tick } :=
    setThread_self _
  refine h.of_touched (t := t) rfl (fun u hu => setThread_of_ne hu) (fun _ _ hkeep => hkeep)
    (h.table.setThread rfl rfl rfl) (fun _ _ => Iff.rfl) ?_ ?_
  · rw [InReady, InReady, hself]
    exact Iff.rfl
  · rw [hself]
    exact ⟨hsound.started, hsound.fresh, hsound.running, hsound.known, hsound.timed⟩

/-- The lock count is of no account. -/
theorem setLockNest (h : SchedInv s q) (lockNest : BitVec 16) :
    SchedInv { s with lockNest := lockNest } q :=
  ⟨h.table.congr rfl rfl (fun _ => Iff.rfl) (fun _ _ => rfl) h.table.mask, h.sound⟩

/-- `rt_thread_control` with `RT_THREAD_CTRL_CHANGE_PRIORITY`. -/
theorem changePriority (h : SchedInv s q) (t : Fin n) (p : Priority) :
    ∃ q', SchedInv (s.changePriority t p) q' ∧ Shrunk q q' := by
  have hsound := h.sound t
  rw [changePriority_eq]
  by_cases hstat : (s.thread t).stat = .ready
  · rw [if_pos hstat]
    have hstarted := hsound.started (Or.inl hstat)
    have htable := (h.table.removeThread hstarted).changed p fun hr => hr.2 rfl
    have hself : ((s.removeThread t).changed t p).thread t =
        { s.thread t with currentPriority := p, numberMask := priorityMask p } := by
      rw [Sched.changed, setThread_self, removeThread_thread]
    have hother (u : Fin n) (hu : u ≠ t) :
        ((s.removeThread t).changed t p).thread u = s.thread u := by
      rw [Sched.changed, setThread_of_ne hu, removeThread_thread]
    have htimer : (s.thread t).timer = false :=
      Bool.eq_false_iff.mpr fun htimer => hsound.timed htimer hstat
    obtain ⟨q', hinv, hshrunk⟩ := h.reinserted (m := (s.removeThread t).changed t p)
      (removeThread_current s t) hother keep_erased htable (fun u hu => and_iff_left hu)
      (fun hr => hr.2 rfl) h.table.loose_erased (hself ▸ hstarted) (hself ▸ htimer)
    exact ⟨q', hinv, shrunk_erased.trans hshrunk⟩
  · rw [if_neg hstat]
    have hself : (s.changed t p).thread t =
        { s.thread t with currentPriority := p, numberMask := priorityMask p } := setThread_self _
    refine ⟨q, h.of_touched (t := t) rfl (fun u hu => setThread_of_ne hu) (fun _ _ hkeep => hkeep)
      (h.table.changed p fun hr => hstat hr.1) (fun _ _ => Iff.rfl) ?_ ?_, Shrunk.refl q⟩
    · refine iff_of_false (fun hr => hstat hr.1) fun hr => hstat ?_
      have hready := hr.1
      rwa [hself] at hready
    · rw [hself]
      exact ⟨hsound.started, hsound.fresh, hsound.running, hsound.known, hsound.timed⟩

/-- A thread that is in no list is ended. -/
theorem closed (h : SchedInv s q) {m : Sched n} (hcurrent : m.current = s.current)
    (hthread : m.thread = s.thread)
    (hkeep : ∀ u, u ≠ t → (∀ g, u ∉ q g) → ∀ g, u ∉ q' g) (htable : Table m q' r)
    (hr : ∀ u, u ≠ t → (r u ↔ s.InReady u)) (hnot : ¬r t) :
    SchedInv ((m.setTimer t false).setStat t .close) q' := by
  have hself : ((m.setTimer t false).setStat t .close).thread t =
      { s.thread t with timer := false, stat := .close } := by
    rw [setStat, setThread_self, Sched.setTimer, setThread_self, hthread]
  have hother (u : Fin n) (hu : u ≠ t) :
      ((m.setTimer t false).setStat t .close).thread u = s.thread u := by
    rw [setStat, setThread_of_ne hu, Sched.setTimer, setThread_of_ne hu, hthread]
  have hclosed := (htable.setTimer t false).setStat t .close
  refine h.of_touched hcurrent hother hkeep hclosed hr (iff_of_false hnot fun hready => ?_) ?_
  · have hstat := hready.1
    rw [hself] at hstat
    cases hstat
  · rw [hself]
    refine ⟨fun hwhy => ?_, fun heq => (by cases heq), fun _ heq => (by cases heq),
      fun _ heq => (by cases heq), fun heq => (by cases heq)⟩
    rcases hwhy with heq | heq | heq | hruns
    · cases heq
    · cases heq
    · cases heq
    · exact (h.sound t).started (Or.inr (Or.inr (Or.inr hruns)))

/-- An ended thread is put to the defunct ones. -/
theorem bury (h : SchedInv s q) (hloose : ∀ g, t ∉ q g) (hstat : (s.thread t).stat = .close) :
    ∃ q', SchedInv (s.bury t) q' ∧ Shrunk q q' := by
  have hnot {x : ThreadStat} (hx : x ≠ .close) : (s.thread t).stat ≠ x := by
    rw [hstat]
    exact hx.symm
  have hsound := h.sound t
  refine ⟨_, h.of_touched (t := t) rfl (fun _ _ => rfl) (fun u hu hfree g hmem => ?_)
    (h.table.relist (h.table.rings.pushFront hloose .defunct) fun p =>
      Function.update_of_ne (fun heq => by cases heq) ..) (fun _ _ => Iff.rfl) Iff.rfl ?_,
    fun o => ?_⟩
  · by_cases hg : g = .defunct
    · subst hg
      rw [Function.update_self] at hmem
      rcases List.mem_cons.mp hmem with heq | hmem
      · exact hu heq
      · exact hfree _ hmem
    · rw [Function.update_of_ne hg] at hmem
      exact hfree g hmem
  · exact ⟨hsound.started, fun heq => absurd heq (hnot (by decide)),
      fun _ heq => absurd heq (hnot (by decide)), hsound.known, hsound.timed⟩
  · rw [Function.update_of_ne (fun heq => by cases heq)]

/-- `rt_thread_delete` of a thread that was not ended. -/
theorem delete (h : SchedInv s q) (hstat : (s.thread t).stat ≠ .close) :
    ∃ q', SchedInv (s.delete t) q' ∧ Shrunk q q' := by
  rw [Sched.delete]
  by_cases hinit : (s.thread t).stat = .init
  · rw [if_neg (not_not.mpr hinit)]
    have hnot : ¬s.InReady t := fun hready => by cases hinit.symm.trans hready.1
    have hclosed := h.closed (t := t) rfl rfl (fun _ _ hkeep => hkeep) h.table (fun _ _ => Iff.rfl)
      hnot
    exact hclosed.bury ((h.sound t).fresh hinit) (congrArg Tcb.stat (setThread_self _))
  · rw [if_pos hinit]
    have hstarted : (s.thread t).started = true := by
      apply (h.sound t).started
      cases hcase : (s.thread t).stat with
      | init => exact absurd hcase hinit
      | ready => exact Or.inl rfl
      | suspend => exact Or.inr (Or.inl rfl)
      | close => exact absurd hcase hstat
    have hclosed := h.closed (t := t) (removeThread_current s t) (removeThread_thread s t)
      keep_erased (h.table.removeThread hstarted) (fun u hu => and_iff_left hu) fun hr => hr.2 rfl
    obtain ⟨q', hinv, hshrunk⟩ := hclosed.bury h.table.loose_erased
      (congrArg Tcb.stat (setThread_self _))
    exact ⟨q', hinv, shrunk_erased.trans hshrunk⟩

/-- `rt_thread_exit` before its `rt_schedule`. -/
theorem ended (h : SchedInv s q) (hcur : s.current = some t) :
    SchedInv (s.ended t) (erased q t) ∧ ∃ q', SchedInv ((s.ended t).bury t) q' ∧ Shrunk q q' := by
  have hstarted := (h.sound t).started (Or.inr (Or.inr (Or.inr hcur)))
  have hclosed : SchedInv (s.ended t) (erased q t) := h.closed (removeThread_current s t)
    (removeThread_thread s t) keep_erased (h.table.removeThread hstarted)
    (fun u hu => and_iff_left hu) fun hr => hr.2 rfl
  obtain ⟨q', hinv, hshrunk⟩ := hclosed.bury h.table.loose_erased
    (congrArg Tcb.stat (setThread_self _))
  exact ⟨hclosed, q', hinv, shrunk_erased.trans hshrunk⟩

end SchedInv

/-! ## Suspend lists -/

/-- The suspend list of an object with a new thread. -/
def enqueued (s : Sched n) (flag : IpcFlag) (t : Fin n) (list : List (Fin n)) : List (Fin n) :=
  match flag with
  | .fifo => list ++ [t]
  | .prio => insertBefore
      (fun u => decide ((s.thread t).currentPriority < (s.thread u).currentPriority)) t list

theorem mem_enqueued {flag : IpcFlag} {list : List (Fin n)} :
    u ∈ s.enqueued flag t list ↔ u = t ∨ u ∈ list := by
  cases flag with
  | fifo => rw [enqueued, List.mem_append, List.mem_singleton, or_comm]
  | prio => exact mem_insertBefore

/-- The place in the list depends on the priorities only. -/
theorem enqueued_congr
    (h : ∀ u, (s'.thread u).currentPriority = (s.thread u).currentPriority) (flag : IpcFlag)
    (t : Fin n) (list : List (Fin n)) : s'.enqueued flag t list = s.enqueued flag t list := by
  unfold enqueued
  simp only [h]

/-- The walk of `rt_ipc_list_suspend` ends at the first thread that is less urgent, or at the
head. -/
theorem findPosition_eq {o m : Nat} {p : Priority} {list : List (Fin n)}
    {a : ListHead ⊕ Fin n} (hseg : Segment s.links a (list.map .inr) (.inl (.wait o))) :
    s.findPosition o p (list.length + 1 + m) (s.links.next a) =
      some (((list.find? fun u => decide (p < (s.thread u).currentPriority)).map .inr).getD
        (.inl (.wait o))) := by
  induction list generalizing a with
  | nil =>
    rw [hseg.1, Nat.add_right_comm]
    exact if_pos rfl
  | cons u list ih =>
    rw [hseg.1.1, Nat.add_right_comm, findPosition, List.find?_cons]
    by_cases hless : p < (s.thread u).currentPriority
    · rw [if_pos hless, decide_eq_true hless]
      rfl
    · rw [if_neg hless, decide_eq_false hless]
      exact ih hseg.2

namespace SchedInv

/-- A thread that is in no list and not ready is put to a suspend list. -/
theorem enqueue (h : SchedInv s q) {k : Links (ListHead ⊕ Fin n)} {o : Nat}
    {list : List (Fin n)} (hrings : Rings k (Function.update q (.wait o) list))
    (hlist : ∀ u, u ≠ t → u ∈ list → u ∈ q (.wait o)) (hstat : (s.thread t).stat ≠ .ready)
    (hinit : (s.thread t).stat ≠ .init) :
    SchedInv { s with links := k } (Function.update q (.wait o) list) := by
  have hsound := h.sound t
  refine h.of_touched (t := t) rfl (fun _ _ => rfl) (fun u hu hfree g hmem => ?_)
    (h.table.relist hrings fun p => Function.update_of_ne (fun heq => by cases heq) ..)
    (fun _ _ => Iff.rfl) Iff.rfl ?_
  · by_cases hg : g = .wait o
    · subst hg
      rw [Function.update_self] at hmem
      exact hfree _ (hlist u hu hmem)
    · rw [Function.update_of_ne hg] at hmem
      exact hfree g hmem
  · exact ⟨hsound.started, fun heq => absurd heq hinit, fun _ heq => absurd heq hstat,
      hsound.known, hsound.timed⟩

/-- `rt_ipc_list_suspend` of the running thread, where its node is in no list. -/
theorem ipcListSuspend (h : SchedInv s q) (hcur : s.current = some t)
    (honce : s.links.next (.inr t) = .inr t) (o : Nat) (flag : IpcFlag) :
    ∃ s', s.ipcListSuspend o t flag = some s' ∧ s'.current = s.current ∧
      s'.thread = (s.suspend t).1.thread ∧
      SchedInv s' (Function.update q (.wait o) (s'.enqueued flag t (q (.wait o)))) := by
  obtain ⟨hinv, hcur', hstat⟩ := h.suspend hcur
  have hloose := h.table.rings.next_self_iff.mp honce
  have hinit := (hinv.sound t).known (hcur'.trans hcur)
  have hrings := hinv.table.rings
  unfold Sched.ipcListSuspend
  generalize (s.suspend t).1 = m at hinv hcur' hstat hinit hrings
  cases flag with
  | fifo =>
    refine ⟨_, rfl, hcur', rfl, hinv.enqueue (t := t) (hrings.pushBack hloose _) ?_ hstat hinit⟩
    intro u hu hmem
    rcases List.mem_append.mp hmem with hmem | hmem
    · exact hmem
    · exact absurd (List.mem_singleton.mp hmem) hu
  | prio =>
    have hlength : (q (.wait o)).length ≤ n := by
      have hle := (h.table.rings.nodup (.wait o)).length_le_card
      rwa [Fintype.card_fin] at hle
    have hfuel : n + 1 = (q (.wait o)).length + 1 + (n - (q (.wait o)).length) := by omega
    have hposition := findPosition_eq (m := n - (q (.wait o)).length)
      (p := (m.thread t).currentPriority) (hrings.ring (.wait o))
    rw [← hfuel] at hposition
    dsimp only
    rw [hposition]
    refine ⟨_, rfl, hcur', rfl, hinv.enqueue (t := t) ?_
      (fun u hu hmem => (mem_insertBefore.mp hmem).resolve_left hu) hstat hinit⟩
    change Rings _ (Function.update q (.wait o) (m.enqueued .prio t (q (.wait o))))
    rw [enqueued]
    cases hfind : (q (.wait o)).find? fun u =>
        decide ((m.thread t).currentPriority < (m.thread u).currentPriority) with
    | none =>
      have hpassed := List.find?_eq_none.mp hfind
      rw [insertBefore_of_passed fun u hu => Bool.eq_false_iff.mpr (hpassed u hu)]
      exact hrings.pushBack hloose _
    | some u =>
      obtain ⟨hstops, front, rest, hq, hfront⟩ := List.find?_eq_some_iff_append.mp hfind
      have hpassed (v : Fin n) (hv : v ∈ front) :
          decide ((m.thread t).currentPriority < (m.thread v).currentPriority) = false := by
        rw [← Bool.not_eq_true', hfront v hv]
      rw [hq, insertBefore_append hpassed hstops]
      exact hrings.insert hloose hq

end SchedInv

end Sched

end RtVcom.Kernel
