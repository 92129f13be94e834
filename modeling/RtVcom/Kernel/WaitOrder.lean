import RtVcom.Kernel.SchedulerFrame
import RtVcom.Kernel.SchedulerRun

/-!
# Priority suspend lists

`rt_ipc_list_suspend` puts a thread in front of the first one that is less urgent. The list stays
in the order of the priorities, and of the arrivals, as long as the priorities do: a thread that
gets another priority while it waits, from `rt_thread_control` or from `rt_mutex_take`, is not
moved, where one that is ready is put to the list of its new priority.

The arrivals are counted beside the threads (`Queues`); the calls do not read them.
-/

namespace RtVcom.Kernel

open RtVcom.Lib

namespace Sched

variable {n : Nat} {s s' : Sched n} {t u : Fin n}

/-! ## Which calls change a priority -/

/-- Up to its `rt_schedule` a call changes the priority of a thread that it starts. -/
theorem atSchedule_priority {a : SchedAction n} {m : Sched n} (hm : s.atSchedule a = some m)
    (hstart : a ≠ .startup u) :
    (m.thread u).currentPriority = (s.thread u).currentPriority := by
  cases comes_of_atSchedule hm with
  | startup =>
    have hne : u ≠ _ := fun heq => hstart (congrArg SchedAction.startup heq.symm)
    rw [resume_priority, setThread_of_ne hne]
  | sleep => rw [setTimer_priority, suspend_priority]
  | timeout =>
    rw [woken, insertThread_priority, setTimer_priority]
    rfl
  | detached => exact ended_priority s _ u
  | buried => exact ended_priority s _ u
  | schedule => rfl
  | yield => rfl
  | tick => exact setTick_priority s _ u _
  | exitCritical => rfl

/-- A priority changes when its thread is started, and by `rt_thread_control`. -/
theorem step_priority {flag : Nat → IpcFlag} {a : SchedAction n} (hs : s.step flag a = some s')
    (hstart : a ≠ .startup u) (hchange : ∀ p, a ≠ .changePriority u p) :
    (s'.thread u).currentPriority = (s.thread u).currentPriority := by
  cases hm : s.atSchedule a with
  | some m =>
    rw [step_of_atSchedule hm] at hs
    exact (schedule_priority hs u).trans (atSchedule_priority hm hstart)
  | none =>
    cases direct_of_step hm hs with
    | startup =>
      have hne : u ≠ _ := fun heq => hstart (congrArg SchedAction.startup heq.symm)
      rw [resume_priority, setThread_of_ne hne]
    | schedulerStart _ hs =>
      obtain ⟨⟨p, t⟩, -, rfl⟩ := Option.map_eq_some_iff.mp hs
      rw [removeThread_thread]
    | suspend => exact suspend_priority s _ u
    | resume => exact resume_priority s _ u
    | changePriority =>
      have hne : u ≠ _ := fun heq => hchange _ (congrArg (SchedAction.changePriority · _) heq.symm)
      exact changePriority_of_ne hne
    | delete => exact delete_priority s _ u
    | block _ hblocked =>
      have hblocked := ipcListSuspend_priority hblocked u
      split
      · rw [setTimer_priority, hblocked]
      · exact hblocked
    | wake => exact resume_priority s _ u
    | tick => exact setTick_priority s _ u _
    | enterCritical => rfl
    | exitCritical => rfl

end Sched

/-! ## Arrivals -/

/-- The threads, and when each came to wait the last time. -/
structure Queues (n : Nat) where
  sched : Sched n
  arrival : Fin n → Nat
  count : Nat

namespace Queues

open Sched

variable {n : Nat} {flag : Nat → IpcFlag} {s s' : Queues n} {t u : Fin n}

/-- The scheduler has come to `sched`. A call that suspends the running thread is an arrival. -/
def next (s : Queues n) (sched : Sched n) : SchedAction n → Queues n
  | .block _ _ =>
    match s.sched.current with
    | some t => { sched, arrival := Function.update s.arrival t s.count, count := s.count + 1 }
    | none => { s with sched }
  | _ => { s with sched }

def step (flag : Nat → IpcFlag) (s : Queues n) (a : SchedAction n) : Option (Queues n) :=
  (s.sched.step flag a).map fun sched => s.next sched a

/-- A thread that waits is counted. -/
theorem next_block {sched : Sched n} {o : Nat} {timed : Bool} (hcur : s.sched.current = some t) :
    s.next sched (.block o timed) =
      { sched, arrival := Function.update s.arrival t s.count, count := s.count + 1 } := by
  rw [next, hcur]

theorem next_of_not_block {sched : Sched n} {a : SchedAction n}
    (ha : ∀ o timed, a ≠ .block o timed) : s.next sched a = { s with sched } := by
  cases a with
  | block o timed => exact absurd rfl (ha o timed)
  | _ => rfl

/-- `t` is to be woken before `u`. -/
def Before (s : Queues n) (t u : Fin n) : Prop :=
  (s.sched.thread t).currentPriority < (s.sched.thread u).currentPriority ∨
    (s.sched.thread t).currentPriority = (s.sched.thread u).currentPriority ∧
      s.arrival t < s.arrival u

/-- `u` would be woken before `t`, if `t` had the priority `p`. -/
def BeforeAt (s : Queues n) (u t : Fin n) (p : Priority) : Prop :=
  (s.sched.thread u).currentPriority < p ∨
    (s.sched.thread u).currentPriority = p ∧ s.arrival u < s.arrival t

/-- A thread that gets another priority while it waits in a priority list keeps its place between
the others of the list. No node is linked twice. -/
def KeepsRank (flag : Nat → IpcFlag) (s : Queues n) (a : SchedAction n) : Prop :=
  s.sched.LinksOnce a ∧ ∀ t p, a = .changePriority t p → ∀ o, flag o = .prio →
    Listed s.sched.links (.wait o) t → ∀ u, Listed s.sched.links (.wait o) u → u ≠ t →
      (s.BeforeAt u t p ↔ s.Before u t)

/-- The law: the suspend list of the object is in the order of the priorities and arrivals. -/
def InOrder (s : Queues n) (o : Nat) : Prop :=
  ∃ list : List (Fin n),
    Segment s.sched.links (.inl (.wait o)) (list.map .inr) (.inl (.wait o)) ∧
      list.Pairwise s.Before

theorem Before.trans {v : Fin n} (h : s.Before t u) (h' : s.Before u v) : s.Before t v := by
  rcases h with h | ⟨h, harrival⟩ <;> rcases h' with h' | ⟨h', harrival'⟩
  · exact Or.inl (h.trans h')
  · exact Or.inl (h.trans_eq h')
  · exact Or.inl (h.trans_lt h')
  · exact Or.inr ⟨h.trans h', harrival.trans harrival'⟩

theorem Before.irrefl (h : s.Before t t) : False := by
  rcases h with h | ⟨-, h⟩
  · exact lt_irrefl _ h
  · exact lt_irrefl _ h

/-- The lists of the objects that wake by priority are in order, and nobody has come later than
now. -/
structure Ordered (flag : Nat → IpcFlag) (s : Queues n) (q : ListHead → List (Fin n)) : Prop where
  inv : s.sched.SchedInv q
  order : ∀ o, flag o = .prio → (q (.wait o)).Pairwise s.Before
  past : ∀ o t, t ∈ q (.wait o) → s.arrival t < s.count
  apart : ∀ o t u, t ∈ q (.wait o) → u ∈ q (.wait o) → s.arrival t = s.arrival u → t = u

/-- Nobody comes, and those who wait keep their order. -/
theorem Ordered.shrunk {q q' : ListHead → List (Fin n)} (h : Ordered flag s q)
    (hinv : s'.sched.SchedInv q') (hshrunk : Sched.Shrunk q q') (harrival : s'.arrival = s.arrival)
    (hcount : s'.count = s.count)
    (hbefore : ∀ o, flag o = .prio → ∀ t ∈ q (.wait o), ∀ u ∈ q (.wait o), s.Before t u →
      s'.Before t u) : Ordered flag s' q' where
  inv := hinv
  order o ho := ((h.order o ho).imp_of_mem fun ht hu => hbefore o ho _ ht _ hu).sublist (hshrunk o)
  past o t ht := by
    rw [harrival, hcount]
    exact h.past o t ((hshrunk o).subset ht)
  apart o t u ht hu := by
    rw [harrival]
    exact h.apart o t u ((hshrunk o).subset ht) ((hshrunk o).subset hu)

/-- The running thread comes to wait. -/
theorem Ordered.arrive {q : ListHead → List (Fin n)} (h : Ordered flag s q) {o : Nat}
    {sched : Sched n} (hloose : ∀ g, t ∉ q g)
    (hpriority : ∀ u, (sched.thread u).currentPriority = (s.sched.thread u).currentPriority)
    (hinv : sched.SchedInv (Function.update q (.wait o) (sched.enqueued (flag o) t (q (.wait o))))) :
    Ordered flag { sched := sched, arrival := Function.update s.arrival t s.count,
                   count := s.count + 1 }
      (Function.update q (.wait o) (sched.enqueued (flag o) t (q (.wait o)))) := by
  set s' : Queues n := { sched := sched, arrival := Function.update s.arrival t s.count,
                         count := s.count + 1 } with hs'
  have hself : s'.arrival t = s.count := Function.update_self ..
  have hother (u : Fin n) (hu : u ≠ t) : s'.arrival u = s.arrival u := Function.update_of_ne hu ..
  have hne {o' : Nat} {u : Fin n} (hu : u ∈ q (.wait o')) : u ≠ t := by
    rintro rfl
    exact hloose _ hu
  have hbefore {o' : Nat} {u v : Fin n} (hu : u ∈ q (.wait o')) (hv : v ∈ q (.wait o'))
      (huv : s.Before u v) : s'.Before u v := by
    unfold Before at huv ⊢
    rw [hpriority, hpriority, hother u (hne hu), hother v (hne hv)]
    exact huv
  have hold {o' : Nat} (ho' : flag o' = .prio) : (q (.wait o')).Pairwise s'.Before :=
    (h.order o' ho').imp_of_mem hbefore
  have hmem {o' : Nat} {u : Fin n} (hu : u ∈ Function.update q (.wait o)
      (sched.enqueued (flag o) t (q (.wait o))) (.wait o')) : u = t ∨ u ∈ q (.wait o') := by
    by_cases heq : o' = o
    · subst heq
      rw [Function.update_self] at hu
      exact Sched.mem_enqueued.mp hu
    · rw [Function.update_of_ne fun hwait => heq (ListHead.wait.inj hwait)] at hu
      exact Or.inr hu
  refine ⟨hinv, fun o' ho' => ?_, fun o' u hu => ?_, fun o' u v hu hv heq => ?_⟩
  · by_cases heq : o' = o
    · subst heq
      rw [Function.update_self, ho']
      refine pairwise_insertBefore (hold ho') (fun u hu hpassed => ?_) (fun u hu hstops => ?_)
        fun u _ v _ => Before.trans
      · -- the walk passes the threads that are as urgent
        have hle := not_lt.mp (of_decide_eq_false hpassed)
        rcases lt_or_eq_of_le hle with hlt | heq
        · exact Or.inl hlt
        · refine Or.inr ⟨heq, ?_⟩
          rw [hself, hother u (hne hu)]
          exact h.past _ u hu
      · exact Or.inl (of_decide_eq_true hstops)
    · rw [Function.update_of_ne fun hwait => heq (ListHead.wait.inj hwait)]
      exact hold ho'
  · rcases hmem hu with rfl | hu
    · exact hself.trans_lt (Nat.lt_succ_self _)
    · rw [hother u (hne hu)]
      exact (h.past o' u hu).trans (Nat.lt_succ_self _)
  · rcases hmem hu with hut | hold' <;> rcases hmem hv with hvt | hold''
    · exact hut.trans hvt.symm
    · rw [hut, hself, hother v (hne hold'')] at heq
      exact absurd heq.symm (ne_of_lt (h.past o' v hold''))
    · rw [hvt, hself, hother u (hne hold')] at heq
      exact absurd heq (ne_of_lt (h.past o' u hold'))
    · rw [hother u (hne hold'), hother v (hne hold'')] at heq
      exact h.apart o' u v hold' hold'' heq

/-- A new priority of a thread that keeps its rank keeps the order. -/
theorem Ordered.reprioritized {q : ListHead → List (Fin n)} (h : Ordered flag s q)
    {w : Fin n} {p : Priority} {sched : Sched n} (hok : KeepsRank flag s (.changePriority w p))
    (hself : (sched.thread w).currentPriority = p)
    (hother : ∀ u, u ≠ w →
      (sched.thread u).currentPriority = (s.sched.thread u).currentPriority)
    {o : Nat} (ho : flag o = .prio) (ht : t ∈ q (.wait o)) (hu : u ∈ q (.wait o))
    (htu : s.Before t u) : ({ s with sched } : Queues n).Before t u := by
  have hlisted {v : Fin n} (hv : v ∈ q (.wait o)) : Listed s.sched.links (.wait o) v :=
    h.inv.table.rings.listed_iff.mpr hv
  have hne : t ≠ u := by
    rintro rfl
    exact htu.irrefl
  unfold Before
  dsimp only
  by_cases htw : t = w
  · subst htw
    -- `u` would be woken later than `t`, and still is
    have hnot : ¬s.BeforeAt u t p := by
      rw [hok.2 t p rfl o ho (hlisted ht) u (hlisted hu) hne.symm]
      exact fun hut => (htu.trans hut).irrefl
    obtain ⟨hle, hlast⟩ := not_or.mp hnot
    rw [hself, hother u hne.symm]
    rcases lt_or_eq_of_le (not_lt.mp hle) with hlt | heq
    · exact Or.inl hlt
    · refine Or.inr ⟨heq, lt_of_le_of_ne (not_lt.mp fun hlt => hlast ⟨heq.symm, hlt⟩) ?_⟩
      exact fun hsame => hne (h.apart o t u ht hu hsame)
  · by_cases huw : u = w
    · subst huw
      rw [hself, hother t hne]
      exact (hok.2 u p rfl o ho (hlisted hu) t (hlisted ht) hne).mpr htu
    · rw [hother t htw, hother u huw]
      exact htu

/-- One call. -/
theorem Ordered.step {q : ListHead → List (Fin n)} (h : Ordered flag s q) {a : SchedAction n}
    (hok : KeepsRank flag s a) (hs : s.step flag a = some s') : ∃ q', Ordered flag s' q' := by
  obtain ⟨sched, hstep, rfl⟩ := Option.map_eq_some_iff.mp hs
  by_cases hblock : ∃ o timed, a = .block o timed
  · obtain ⟨o, timed, rfl⟩ := hblock
    obtain ⟨t, hcur, hpriority, hinv⟩ := h.inv.step_block hok.1 hstep
    have hloose := h.inv.table.rings.next_self_iff.mp (hok.1 t hcur)
    rw [next_block hcur]
    exact ⟨_, h.arrive hloose hpriority hinv⟩
  · have ha (o : Nat) (timed : Bool) : a ≠ .block o timed := fun heq => hblock ⟨o, timed, heq⟩
    obtain ⟨q', hinv, hshrunk⟩ := h.inv.step_shrunk ha hstep
    rw [next_of_not_block ha]
    refine ⟨q', h.shrunk hinv hshrunk rfl rfl fun o ho t ht u hu htu => ?_⟩
    by_cases hchange : ∃ w p, a = .changePriority w p
    · obtain ⟨w, p, rfl⟩ := hchange
      cases hstep
      exact h.reprioritized hok (changePriority_self _ w p) (fun v hv => changePriority_of_ne hv)
        ho ht hu htu
    · have hsame {v : Fin n} (hv : v ∈ q (.wait o)) :
          (sched.thread v).currentPriority = (s.sched.thread v).currentPriority := by
        refine step_priority hstep ?_ fun p heq => hchange ⟨v, p, heq⟩
        rintro rfl
        obtain ⟨hinit, -⟩ := Option.ite_none_right_eq_some.mp hstep
        exact (h.inv.sound v).fresh hinit _ hv
      unfold Before at htu ⊢
      dsimp only
      rw [hsame ht, hsame hu]
      exact htu

def changesPriority : SchedAction n → Bool
  | .changePriority _ _ => true
  | _ => false

/-- A call that changes no priority keeps every rank. -/
theorem keepsRank_of_changesNone {a : SchedAction n} (honce : s.sched.LinksOnce a)
    (ha : changesPriority a = false) : KeepsRank flag s a := by
  refine ⟨honce, ?_⟩
  rintro t p rfl
  cases ha

end Queues

open Queues

/-- Threads after `rt_thread_init`, and every sequence of calls. -/
def queuesMachine {n : Nat} (spec : Fin n → ThreadSpec) (flag : Nat → IpcFlag) :
    Machine (Queues n) (SchedAction n) where
  init := { sched := (schedMachine spec flag).init, arrival := fun _ => 0, count := 0 }
  step := Queues.step flag

/-- The lists are in order in every state that is reached. -/
theorem queues_ordered {n : Nat} {spec : Fin n → ThreadSpec} {flag : Nat → IpcFlag} {s : Queues n}
    (h : (queuesMachine spec flag).Reach (KeepsRank flag) s) : ∃ q, Queues.Ordered flag s q := by
  refine h.invariant (P := fun s => ∃ q, Queues.Ordered flag s q) ⟨fun _ => [], ?_⟩
    fun _ _ _ ⟨_, hordered⟩ hok hs => hordered.step hok hs
  refine ⟨Sched.SchedInv.init (fun _ => rfl) (fun _ => rfl) fun _ => rfl,
    fun _ _ => List.Pairwise.nil, fun _ _ ht => ?_, fun _ _ _ ht => ?_⟩
  · cases ht
  · cases ht

/-- In every run in which a waiting thread keeps its rank whatever priority it gets, the suspend
list of an object that wakes by priority is in order, and the first thread is a most urgent one. -/
theorem prio_queue_ordered (n : Nat) (spec : Fin n → ThreadSpec) (flag : Nat → IpcFlag)
    (s : Queues n) (h : (queuesMachine spec flag).Reach (KeepsRank flag) s) (o : Nat)
    (ho : flag o = .prio) :
    s.InOrder o ∧ ∀ t u, s.sched.links.next (.inl (.wait o)) = .inr t →
      Listed s.sched.links (.wait o) u →
      (s.sched.thread t).currentPriority ≤ (s.sched.thread u).currentPriority := by
  obtain ⟨q, hordered⟩ := queues_ordered h
  have hrings := hordered.inv.table.rings
  have horder := hordered.order o ho
  refine ⟨⟨q (.wait o), hrings.ring (.wait o), horder⟩, fun t u hfirst hu => ?_⟩
  have hu := hrings.listed_iff.mp hu
  have hnext := hrings.next_head (.wait o)
  rw [hfirst] at hnext
  cases hq : q (.wait o) with
  | nil =>
    rw [hq] at hu
    cases hu
  | cons v rest =>
    rw [hq] at hnext hu horder
    obtain rfl := Sum.inr.inj hnext
    rcases List.mem_cons.mp hu with rfl | hu
    · exact le_refl _
    · rcases (List.pairwise_cons.mp horder).1 u hu with hless | ⟨heq, -⟩
      · exact le_of_lt hless
      · exact le_of_eq heq

/-- Two threads wait, the more urgent one in front. -/
theorem prio_queue_ordered_two : ∃ s : Queues 4,
    (queuesMachine fourThreads fun _ => .prio).Reach (KeepsRank fun _ => .prio) s ∧
      s.sched.links.next (.inl (.wait 7)) = .inr 1 ∧
      s.sched.links.next (.inr 1) = .inr 3 ∧ s.InOrder 7 := by
  obtain ⟨s, hreach, hfirst, hsecond⟩ := Machine.exists_reach_of_run
    (queuesMachine fourThreads fun _ => .prio)
    (fun s a => s.sched.LinksOnce a ∧ changesPriority a = false)
    [.startup 0, .startup 3, .schedulerStart, .block 7 false, .schedule, .startup 1,
      .block 7 true, .schedule]
    (fun s => s.sched.links.next (.inl (.wait 7)) = .inr 1 ∧
      s.sched.links.next (.inr 1) = .inr 3) (by decide +kernel)
  have hreach : (queuesMachine fourThreads fun _ => .prio).Reach (KeepsRank fun _ => .prio) s :=
    hreach.mono fun _ _ hok => keepsRank_of_changesNone hok.1 hok.2
  exact ⟨s, hreach, hfirst, hsecond, (prio_queue_ordered 4 fourThreads _ s hreach 7 rfl).1⟩

/-- A thread that waits behind another gets a more urgent priority, and stays where it is. -/
theorem prio_queue_not_moved : ∃ s : Queues 4,
    (queuesMachine fourThreads fun _ => .prio).Reach Machine.any s ∧ ¬s.InOrder 7 := by
  obtain ⟨s, hreach, hfirst, hsecond, hless⟩ := Machine.exists_reach_of_run
    (queuesMachine fourThreads fun _ => .prio) Machine.any
    [.startup 0, .startup 3, .schedulerStart, .block 7 false, .schedule, .startup 1,
      .block 7 false, .schedule, .changePriority 3 5]
    (fun s => s.sched.links.next (.inl (.wait 7)) = .inr 1 ∧
      s.sched.links.next (.inr 1) = .inr 3 ∧
      (s.sched.thread 3).currentPriority < (s.sched.thread 1).currentPriority) (by decide +kernel)
  refine ⟨s, hreach, ?_⟩
  rintro ⟨list, hseg, horder⟩
  cases list with
  | nil => cases hfirst.symm.trans hseg.1
  | cons t list =>
    cases hfirst.symm.trans hseg.1.1
    cases list with
    | nil => cases hsecond.symm.trans hseg.2.1
    | cons u list =>
      cases hsecond.symm.trans hseg.2.1.1
      rcases (List.pairwise_cons.mp horder).1 3 List.mem_cons_self with hbefore | ⟨heq, -⟩
      · exact absurd hbefore (not_lt.mpr (le_of_lt hless))
      · exact absurd heq.symm (ne_of_lt hless)

end RtVcom.Kernel
