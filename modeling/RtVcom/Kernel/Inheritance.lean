import RtVcom.Lib.Insertion
import RtVcom.Kernel.Mutex

/-!
# Priority inheritance

What the loans of `rt_mutex_take` and the restores of `rt_mutex_release` come to, over whole
runs. The priority to restore is saved in the mutex when a thread becomes its owner, and at
that moment the thread may already run with a priority another mutex lent it.

A thread gets its own priority back as long as one of the mutexes it owns has it saved
(`Restores`). The first mutex a thread takes saves it, and only the outermost release of that
mutex can lose it, so a thread without mutexes has its own priority in every run in which no
thread gives up the last mutex with its own priority and keeps another (`mutex_restores`,
`mutex_stays_boosted`).

With one mutex the loan is exact while the priority of the owner is the most urgent of the
saved one and the waiters' (`Exact`). Taking and waiting keep that. A waiter that times out
takes its loan with it only where the loan had another source as well, and a new owner borrows
nothing from the waiters it inherits (`mutex_exact`, `mutex_keeps_loan`).
-/

namespace RtVcom.Kernel

open RtVcom.Lib

/-! ## Restoring -/

/-- The release that brings `hold` to 0. -/
def RtMutex.Outermost (x : RtMutex) : Prop := (x.hold + (rtMutexHoldMod - 1)) % rtMutexHoldMod = 0

instance (x : RtMutex) : Decidable x.Outermost :=
  inferInstanceAs (Decidable (_ = _))

/-- A thread without a mutex has its own priority, and one with a mutex has it saved. -/
structure Restores {ι : Type} (s : MutexSystem ι) (t own : Nat) : Prop where
  without : (∀ m, (s.mutex m).owner ≠ some t) → s.priority t = own
  saved : ∀ m, (s.mutex m).owner = some t →
    ∃ m', (s.mutex m').owner = some t ∧ (s.mutex m').originalPriority = own

/-- A thread that gives up a mutex keeps none, or one that has its own priority saved. -/
def KeepsSaved {ι : Type} (base : Nat → Nat) (s : MutexSystem ι) : MutexAction ι → Prop
  | .release t m => (s.mutex m).owner = some t → (s.mutex m).Outermost →
      (∀ m', m' ≠ m → (s.mutex m').owner ≠ some t) ∨
        ∃ m', m' ≠ m ∧ (s.mutex m').owner = some t ∧ (s.mutex m').originalPriority = base t
  | _ => True

namespace Restores

variable {ι : Type} {s s' : MutexSystem ι} {t own : Nat}

/-- A step that keeps the thread's mutexes and what they have saved, and the priority of a
thread without any. -/
theorem frame (h : Restores s t own)
    (howner : ∀ m, (s'.mutex m).owner = some t ↔ (s.mutex m).owner = some t)
    (hsaved : ∀ m, (s.mutex m).owner = some t →
      (s'.mutex m).originalPriority = (s.mutex m).originalPriority)
    (hpriority : (∀ m, (s.mutex m).owner ≠ some t) → s'.priority t = s.priority t) :
    Restores s' t own := by
  constructor
  · intro hnone
    have hbefore : ∀ m, (s.mutex m).owner ≠ some t := fun m hm => hnone m ((howner m).mpr hm)
    rw [hpriority hbefore]
    exact h.without hbefore
  · intro m hm
    obtain ⟨m', hm', horig⟩ := h.saved m ((howner m).mp hm)
    exact ⟨m', (howner m').mpr hm', (hsaved m' hm').trans horig⟩

variable [DecidableEq ι]

/-- A new owner: its priority is saved, which is its own if it had no mutex. -/
theorem acquire (h : Restores s t own) {m : ι} {x : RtMutex}
    (hfree : (s.mutex m).owner ≠ some t) (howner : x.owner = some t)
    (horig : x.originalPriority = s.priority t)
    (hmutex : s'.mutex = Function.update s.mutex m x) : Restores s' t own := by
  have hm : (s'.mutex m).owner = some t := by rw [hmutex, Function.update_self, howner]
  constructor
  · intro hnone
    exact absurd hm (hnone m)
  · intro _ _
    by_cases hnone : ∀ m', (s.mutex m').owner ≠ some t
    · refine ⟨m, hm, ?_⟩
      rw [hmutex, Function.update_self, horig]
      exact h.without hnone
    · obtain ⟨m₁, hm₁⟩ := Classical.not_forall.mp hnone
      obtain ⟨m', hm', hown⟩ := h.saved m₁ (Classical.not_not.mp hm₁)
      have hne : m' ≠ m := by
        rintro rfl
        exact hfree hm'
      refine ⟨m', ?_, ?_⟩
      · rw [hmutex, Function.update_of_ne hne]
        exact hm'
      · rw [hmutex, Function.update_of_ne hne]
        exact hown

/-- A mutex given up, under `KeepsSaved`: the priority restored is the thread's own, or
another of its mutexes has that saved. -/
theorem giveUp (h : Restores s t own) {m : ι} {x : RtMutex} (hown : (s.mutex m).owner = some t)
    (hkeeps : (∀ m', m' ≠ m → (s.mutex m').owner ≠ some t) ∨
      ∃ m', m' ≠ m ∧ (s.mutex m').owner = some t ∧ (s.mutex m').originalPriority = own)
    (hx : x.owner ≠ some t) (hmutex : s'.mutex = Function.update s.mutex m x)
    (hpriority : s'.priority t = (s.mutex m).originalPriority) : Restores s' t own := by
  have hother {m' : ι} (hne : m' ≠ m) : s'.mutex m' = s.mutex m' := by
    rw [hmutex, Function.update_of_ne hne]
  have hthis : (s'.mutex m).owner ≠ some t := by rwa [hmutex, Function.update_self]
  constructor
  · intro hnone
    rw [hpriority]
    -- the saved priority the invariant promises is the one of this mutex
    obtain ⟨m', hm', horig⟩ := h.saved m hown
    by_cases hne : m' = m
    · rw [← hne]
      exact horig
    · exact absurd ((hother hne).symm ▸ hm') (hnone m')
  · intro m' hm'
    have hne : m' ≠ m := by
      rintro rfl
      exact hthis hm'
    rw [hother hne] at hm'
    rcases hkeeps with hnone | ⟨m'', hne'', hm'', horig⟩
    · exact absurd hm' (hnone m' hne)
    · exact ⟨m'', by rw [hother hne'']; exact hm'', by rw [hother hne'']; exact horig⟩

end Restores

namespace MutexSystem

variable {ι : Type} [DecidableEq ι] {s s' : MutexSystem ι}

/-- A mutex with a new record and no other change, seen by a thread that neither owned it nor
owns it now. -/
theorem owner_update_iff {m : ι} {x : RtMutex} {u : Nat} (hbefore : (s.mutex m).owner ≠ some u)
    (hafter : x.owner ≠ some u) (m' : ι) :
    (Function.update s.mutex m x m').owner = some u ↔ (s.mutex m').owner = some u := by
  by_cases hm : m' = m
  · subst hm
    rw [Function.update_self]
    exact iff_of_false hafter hbefore
  · rw [Function.update_of_ne hm]

/-- The same for what its mutexes have saved. -/
theorem saved_update {m : ι} {x : RtMutex} {u : Nat} (hbefore : (s.mutex m).owner ≠ some u)
    (m' : ι) (hm' : (s.mutex m').owner = some u) :
    (Function.update s.mutex m x m').originalPriority = (s.mutex m').originalPriority := by
  have hne : m' ≠ m := by
    rintro rfl
    exact hbefore hm'
  rw [Function.update_of_ne hne]

/-- The loan reaches an owner alone. -/
theorem lent_of_ne {priority : Nat → Nat} {t u : Nat} {o : Option Nat} (hu : o ≠ some u) :
    lent priority t o u = priority u := by
  cases o with
  | none => rfl
  | some o =>
    have hne : u ≠ o := fun heq => hu (heq ▸ rfl)
    simp only [lent]
    split
    · exact Function.update_of_ne hne ..
    · rfl

/-- Every step under `KeepsSaved` keeps every thread's claim to its own priority. -/
theorem restores_step {base : Nat → Nat} (hinv : MutexInv s) {u : Nat}
    (h : Restores s u (base u)) {a : MutexAction ι} (hok : KeepsSaved base s a)
    (heffect : s.Effect a s') : Restores s' u (base u) := by
  -- a step that keeps owners, saved priorities and the priorities of threads without a mutex
  have hframe {m : ι} {x : RtMutex} {s' : MutexSystem ι}
      (hmutex : s'.mutex = Function.update s.mutex m x) (howner : x.owner = (s.mutex m).owner)
      (hsaved : x.originalPriority = (s.mutex m).originalPriority)
      (hpriority : (∀ m, (s.mutex m).owner ≠ some u) → s'.priority u = s.priority u) :
      Restores s' u (base u) := by
    apply h.frame _ _ hpriority
    · intro m'
      rw [hmutex, field_update RtMutex.owner howner]
    · intro m' _
      rw [hmutex, field_update RtMutex.originalPriority hsaved]
  -- a step that gives a mutex from one thread to another, seen by a third
  have hthird {m : ι} {x : RtMutex} {s' : MutexSystem ι}
      (hmutex : s'.mutex = Function.update s.mutex m x) (hbefore : (s.mutex m).owner ≠ some u)
      (hafter : x.owner ≠ some u) (hpriority : s'.priority u = s.priority u) :
      Restores s' u (base u) := by
    apply h.frame _ _ fun _ => hpriority
    · intro m'
      rw [hmutex]
      exact owner_update_iff hbefore hafter m'
    · intro m' hm'
      rw [hmutex]
      exact saved_update hbefore m' hm'
  cases heffect with
  | nested _ hlooks => exact hframe hlooks.mutex rfl rfl fun _ => congrFun hlooks.priority u
  | @granted t m time _ _ hvalue hlooks =>
    have hfree : (s.mutex m).owner ≠ some u := by
      rw [(hinv.shaped m).owner_none hvalue]
      exact (Option.some_ne_none u).symm
    by_cases hu : u = t
    · subst hu
      exact h.acquire hfree rfl rfl hlooks.mutex
    · exact hthird hlooks.mutex hfree (fun heq => hu (Option.some.inj heq).symm)
        (congrFun hlooks.priority u)
  | refused _ hlooks =>
    refine h.frame (fun m => by rw [hlooks.mutex]) (fun m _ => by rw [hlooks.mutex]) fun _ => ?_
    exact congrFun hlooks.priority u
  | @waits t m time _ _ _ _ hlooks =>
    refine hframe hlooks.mutex rfl rfl fun hnone => ?_
    rw [hlooks.priority]
    exact lent_of_ne (hnone m)
  | foreign _ hlooks =>
    refine h.frame (fun m => by rw [hlooks.mutex]) (fun m _ => by rw [hlooks.mutex]) fun _ => ?_
    exact congrFun hlooks.priority u
  | unnested _ _ hlooks => exact hframe hlooks.mutex rfl rfl fun _ => congrFun hlooks.priority u
  | @handed t m w rest _ hrun howner hhold hlist hlooks =>
    have hw : w ∈ (s.mutex m).suspendThread := by
      rw [hlist]
      exact List.mem_cons_self
    have hwt : w ≠ t := by
      rintro rfl
      exact (hinv.shaped m).apart w howner hw
    by_cases hu : u = t
    · subst hu
      refine h.giveUp howner (hok howner hhold) ?_ hlooks.mutex ?_
      · exact fun heq => hwt (Option.some.inj heq)
      · rw [hlooks.priority, Function.update_self]
    · have hbefore : (s.mutex m).owner ≠ some u := by
        rw [howner]
        exact fun heq => hu (Option.some.inj heq).symm
      by_cases huw : u = w
      · subst huw
        exact h.acquire hbefore rfl (Function.update_of_ne hu ..) hlooks.mutex
      · refine hthird hlooks.mutex hbefore (fun heq => huw (Option.some.inj heq).symm) ?_
        rw [hlooks.priority, Function.update_of_ne hu]
  | @freed t m _ howner hhold _ hlooks =>
    by_cases hu : u = t
    · subst hu
      refine h.giveUp howner (hok howner hhold) (Option.some_ne_none u).symm hlooks.mutex ?_
      rw [hlooks.priority, Function.update_self]
    · refine hthird hlooks.mutex ?_ (Option.some_ne_none u).symm ?_
      · rw [howner]
        exact fun heq => hu (Option.some.inj heq).symm
      · rw [hlooks.priority, Function.update_of_ne hu]
  | expired _ hlooks => exact hframe hlooks.mutex rfl rfl fun _ => congrFun hlooks.priority u

end MutexSystem

/-- The priority that is set back is the thread's own where no lent one is saved. -/
theorem restores_reach {ι : Type} [DecidableEq ι] {flag : ι → IpcFlag} {base : Nat → Nat}
    {s : MutexSystem ι} (h : (mutexMachine flag base).Reach (KeepsSaved base) s) (t : Nat) :
    Restores s t (base t) := by
  induction h with
  | init => exact ⟨fun _ => rfl, fun m hm => (by cases hm)⟩
  | step hreach hok hstep ih =>
    exact MutexSystem.restores_step (mutexInv_reach hreach) ih hok (mutex_effect hstep)

/-- **Restoring.** In every run in which no thread gives up the last mutex with its own
priority and keeps another, a thread that owns no mutex has the priority it began with. -/
theorem mutex_restores {ι : Type} [DecidableEq ι] (flag : ι → IpcFlag) (base : Nat → Nat)
    (s : MutexSystem ι) (h : (mutexMachine flag base).Reach (KeepsSaved base) s) (t : Nat)
    (hnone : ∀ m, (s.mutex m).owner ≠ some t) : s.priority t = base t :=
  (restores_reach h t).without hnone

instance (base : Nat → Nat) : DecidableRel (@KeepsSaved Bool base) := fun s a => by
  cases a <;> unfold KeepsSaved <;> infer_instance

/-- Thread 0 with priority 10, the others with the more urgent 5. -/
def twoPriorities (t : Nat) : Nat := if t = 0 then 10 else 5

/-- Two mutexes taken and released inside one another, with a loan in between: thread 0 runs
with its own priority again. -/
theorem mutex_restores_nested :
    ∃ s, (mutexMachine (fun _ : Bool => .prio) twoPriorities).Reach (KeepsSaved twoPriorities) s ∧
      (s.mutex false).owner = some 1 ∧ s.priority 0 = twoPriorities 0 := by
  obtain ⟨s, hreach, hs⟩ := Machine.exists_reach_of_run
    (mutexMachine (fun _ : Bool => .prio) twoPriorities) (KeepsSaved twoPriorities)
    [.take 0 false (-1), .take 1 false (-1), .take 0 true (-1), .release 0 true, .release 0 false]
    (fun s => (s.mutex false).owner = some 1 ∧ ∀ m, (s.mutex m).owner ≠ some 0) (by decide)
  exact ⟨s, hreach, hs.1, mutex_restores _ _ s hreach 0 hs.2⟩

/-- The same two mutexes released in the order they were taken: the second one was taken with
the lent priority 5 and restores that. -/
theorem mutex_stays_boosted :
    ¬ ∀ (flag : Bool → IpcFlag) base s, (mutexMachine flag base).Reach Machine.any s →
      ∀ t, (∀ m, (s.mutex m).owner ≠ some t) → s.priority t = base t := by
  intro hall
  obtain ⟨s, hreach, hnone, hpriority⟩ := Machine.exists_reach_of_run
    (mutexMachine (fun _ : Bool => .prio) twoPriorities) Machine.any
    [.take 0 false (-1), .take 1 false (-1), .take 0 true (-1), .release 0 false, .release 0 true]
    (fun s => (∀ m, (s.mutex m).owner ≠ some 0) ∧ s.priority 0 = 5) (by decide)
  have hown := hall _ _ s hreach 0 hnone
  rw [hpriority] at hown
  cases hown

/-! ## One mutex -/

/-- `p` is the most urgent of a saved priority and those of the waiters. -/
structure MostUrgent (p saved : Nat) (waiters : List Nat) (priority : Nat → Nat) : Prop where
  le_saved : p ≤ saved
  le_waiter : ∀ w ∈ waiters, p ≤ priority w
  attained : p = saved ∨ ∃ w ∈ waiters, p = priority w

/-- The owner runs with the most urgent of its saved priority and the waiters'. -/
def Exact (s : MutexSystem Unit) : Prop :=
  ∀ o, (s.mutex ()).owner = some o →
    MostUrgent (s.priority o) (s.mutex ()).originalPriority (s.mutex ()).suspendThread s.priority

/-- A waiter that times out was not the only source of the loan. A FIFO mutex is handed to a
waiter at least as urgent as the ones behind it. -/
def KeepsLoan (s : MutexSystem Unit) : MutexAction Unit → Prop
  | .timeout t => t ∈ (s.mutex ()).suspendThread →
      (s.mutex ()).originalPriority ≤ s.priority t ∨
        ∃ w ∈ (s.mutex ()).suspendThread, w ≠ t ∧ s.priority w ≤ s.priority t
  | .release t _ => (s.mutex ()).flag = .fifo → (s.mutex ()).owner = some t →
      (s.mutex ()).Outermost →
        ∀ w ∈ (s.mutex ()).suspendThread.head?,
          ∀ u ∈ (s.mutex ()).suspendThread.tail, s.priority w ≤ s.priority u
  | .take .. => True

/-- A priority queue is in the order of the priorities. -/
def Ordered (s : MutexSystem Unit) : Prop :=
  (s.mutex ()).flag = .prio →
    (s.mutex ()).suspendThread.Pairwise fun w u => s.priority w ≤ s.priority u

namespace MutexSystem

/-- A list by priority puts a thread behind its equals. -/
theorem enqueue_prio (priority : Nat → Nat) (list : List Nat) (t : Nat) :
    enqueue priority list t .prio =
      insertBefore (fun w => decide (priority t < priority w)) t list := by
  simp only [enqueue, rtIpcListSuspend, List.takeWhile_map, List.dropWhile_map, List.map_append,
    List.map_cons, List.map_map]
  rw [show (RtThread.id ∘ fun w => (⟨w, priority w⟩ : RtThread)) = id from rfl, List.map_id,
    List.map_id, insertBefore_eq_append]
  rfl

/-- Inserting before the first less urgent thread keeps the order. -/
theorem enqueue_ordered {priority : Nat → Nat} {list : List Nat} (t : Nat)
    (h : list.Pairwise fun w u => priority w ≤ priority u) :
    (enqueue priority list t .prio).Pairwise fun w u => priority w ≤ priority u := by
  rw [enqueue_prio]
  refine pairwise_insertBefore h (fun w _ hpassed => ?_) (fun w _ hstopped => ?_)
    fun w _ u _ htw hwu => Nat.le_trans htw hwu
  · exact Nat.le_of_not_lt (of_decide_eq_false hpassed)
  · exact Nat.le_of_lt (of_decide_eq_true hstopped)

/-- Of the waiters and the owner, the loan reaches the owner alone. -/
theorem lent_waiter {s : MutexSystem Unit} (hinv : MutexInv s) {t w : Nat}
    (hw : w ∈ (s.mutex ()).suspendThread) :
    lent s.priority t (s.mutex ()).owner w = s.priority w :=
  lent_of_ne fun howner => (hinv.shaped ()).apart w howner hw

variable {s s' : MutexSystem Unit}

/-- The one mutex of a system after its record was replaced. -/
theorem mutex_unit {m : Unit} {x : RtMutex} (hmutex : s'.mutex = Function.update s.mutex m x) :
    s'.mutex () = x := by
  rw [hmutex, Function.update_self]

/-- The priorities of the threads in the queue decide its order. -/
theorem ordered_of {s : MutexSystem Unit} {list : List Nat} (priority : Nat → Nat)
    (hlist : (s.mutex ()).suspendThread = list)
    (hpriority : ∀ w ∈ list, s.priority w = priority w)
    (h : (s.mutex ()).flag = .prio → list.Pairwise fun w u => priority w ≤ priority u) :
    Ordered s := by
  intro hflag
  rw [hlist]
  refine (h hflag).imp_of_mem fun hw hu hle => ?_
  rw [hpriority _ hw, hpriority _ hu]
  exact hle

/-- Every step keeps the waiters in their order. -/
theorem ordered_step (hinv : MutexInv s) (h : Ordered s) {a : MutexAction Unit}
    (heffect : s.Effect a s') : Ordered s' := by
  have hapart := (hinv.shaped ()).apart
  -- a step without a change in the queue or in the priority of a waiter
  have hsame {m : Unit} {x : RtMutex} {s' : MutexSystem Unit}
      (hmutex : s'.mutex = Function.update s.mutex m x)
      (hlist : x.suspendThread = (s.mutex ()).suspendThread) (hflag : x.flag = (s.mutex ()).flag)
      (hpriority : s'.priority = s.priority) : Ordered s' := by
    have hx := mutex_unit hmutex
    refine ordered_of s.priority (hx ▸ hlist) (fun w _ => congrFun hpriority w) fun hprio => ?_
    exact h (by rw [← hflag, ← hx]; exact hprio)
  cases heffect with
  | nested _ hlooks => exact hsame hlooks.mutex rfl rfl hlooks.priority
  | granted _ _ hlooks => exact hsame hlooks.mutex rfl rfl hlooks.priority
  | refused _ hlooks =>
    refine ordered_of s.priority (by rw [hlooks.mutex]) (fun w _ => congrFun hlooks.priority w) ?_
    rw [hlooks.mutex]
    exact h
  | @waits t m _ _ _ howner _ hlooks =>
    have hx := mutex_unit hlooks.mutex
    refine ordered_of (lent s.priority t (s.mutex ()).owner) (congrArg RtMutex.suspendThread hx)
      (fun w _ => congrFun hlooks.priority w) fun hprio => ?_
    have hflag : (s.mutex ()).flag = .prio := by
      rw [hx] at hprio
      exact hprio
    rw [hflag]
    apply enqueue_ordered
    refine (h hflag).imp_of_mem fun hw hu hle => ?_
    rw [lent_waiter hinv hw, lent_waiter hinv hu]
    exact hle
  | foreign _ hlooks =>
    refine ordered_of s.priority (by rw [hlooks.mutex]) (fun w _ => congrFun hlooks.priority w) ?_
    rw [hlooks.mutex]
    exact h
  | unnested _ _ hlooks => exact hsame hlooks.mutex rfl rfl hlooks.priority
  | @handed t m w rest _ _ howner _ hlist hlooks =>
    have hx := mutex_unit hlooks.mutex
    refine ordered_of s.priority (congrArg RtMutex.suspendThread hx) (fun u hu => ?_)
      fun hprio => ?_
    · rw [hlooks.priority, Function.update_of_ne]
      rintro rfl
      exact hapart u howner (by rw [hlist]; exact List.mem_cons_of_mem w hu)
    · rw [hx] at hprio
      have hall := h hprio
      rw [hlist, List.pairwise_cons] at hall
      exact hall.2
  | @freed t m _ _ _ _ hlooks =>
    intro _
    rw [mutex_unit hlooks.mutex]
    exact List.Pairwise.nil
  | @expired t m _ _ hlooks =>
    have hx := mutex_unit hlooks.mutex
    refine ordered_of s.priority (congrArg RtMutex.suspendThread hx)
      (fun u _ => congrFun hlooks.priority u) fun hprio => ?_
    rw [hx] at hprio
    exact (h hprio).sublist List.erase_sublist

/-- The owner has the more urgent of the two priorities. -/
theorem lent_owner (priority : Nat → Nat) (t o : Nat) :
    lent priority t (some o) o = min (priority t) (priority o) := by
  simp only [lent]
  split
  · rw [Function.update_self]
    omega
  · omega

/-- A new waiter and its loan. -/
theorem mostUrgent_lent {saved t o : Nat} {waiters list : List Nat} {priority : Nat → Nat}
    (h : MostUrgent (priority o) saved waiters priority) (hlist : list.Perm (t :: waiters))
    (hlent : ∀ w ∈ t :: waiters, lent priority t (some o) w = priority w) :
    MostUrgent (lent priority t (some o) o) saved list (lent priority t (some o)) := by
  rw [lent_owner]
  refine ⟨?_, fun w hw => ?_, ?_⟩
  · exact Nat.le_trans (Nat.min_le_right _ _) h.le_saved
  · have hw := hlist.mem_iff.mp hw
    rw [hlent w hw]
    rcases List.mem_cons.mp hw with rfl | hw
    · exact Nat.min_le_left _ _
    · exact Nat.le_trans (Nat.min_le_right _ _) (h.le_waiter w hw)
  · by_cases hle : priority t ≤ priority o
    · right
      refine ⟨t, hlist.mem_iff.mpr List.mem_cons_self, ?_⟩
      rw [hlent t List.mem_cons_self]
      exact Nat.min_eq_left hle
    · rw [Nat.min_eq_right (by omega)]
      rcases h.attained with hsaved | ⟨w, hw, hpw⟩
      · exact .inl hsaved
      · right
        refine ⟨w, hlist.mem_iff.mpr (List.mem_cons_of_mem t hw), ?_⟩
        rw [hlent w (List.mem_cons_of_mem t hw)]
        exact hpw

/-- The equation for one owner, from its parts. -/
theorem exact_of {s : MutexSystem Unit} {x : RtMutex} (hx : s.mutex () = x)
    (h : ∀ o, x.owner = some o →
      MostUrgent (s.priority o) x.originalPriority x.suspendThread s.priority) : Exact s := by
  subst hx
  exact h

/-- Every step that keeps its loan keeps the priorities exact. -/
theorem exact_step (hinv : MutexInv s) (hord : Ordered s) (h : Exact s)
    {a : MutexAction Unit} (hok : KeepsLoan s a) (heffect : s.Effect a s') : Exact s' := by
  have hshape := hinv.shaped ()
  cases heffect with
  | @nested t m _ _ howner hlooks =>
    refine exact_of (mutex_unit hlooks.mutex) fun o ho => ?_
    rw [hlooks.priority]
    exact h o ho
  | @granted t m _ _ howner hvalue hlooks =>
    refine exact_of (mutex_unit hlooks.mutex) fun o ho => ?_
    cases ho
    rw [hlooks.priority]
    refine ⟨Nat.le_refl _, fun w hw => ?_, .inl rfl⟩
    have hlist := (hshape.free (hshape.owner_none hvalue)).2
    exact absurd (hlist ▸ hw) List.not_mem_nil
  | refused _ hlooks =>
    unfold Exact
    rw [hlooks.mutex, hlooks.priority]
    exact h
  | @waits t m _ _ hrun howner hvalue hlooks =>
    refine exact_of (mutex_unit hlooks.mutex) fun o ho => ?_
    change (s.mutex ()).owner = some o at ho
    rw [hlooks.priority, ho]
    refine mostUrgent_lent (h o ho) enqueue_perm fun w hw => ?_
    rw [← ho]
    rcases List.mem_cons.mp hw with rfl | hw
    · exact lent_of_ne howner
    · exact lent_waiter hinv hw
  | foreign _ hlooks =>
    unfold Exact
    rw [hlooks.mutex, hlooks.priority]
    exact h
  | @unnested t m _ howner hhold hlooks =>
    refine exact_of (mutex_unit hlooks.mutex) fun o ho => ?_
    rw [hlooks.priority]
    exact h o ho
  | @handed t m w rest _ _ howner hhold hlist hlooks =>
    refine exact_of (mutex_unit hlooks.mutex) fun o ho => ?_
    cases ho
    have hbehind : ∀ u ∈ rest, s.priority w ≤ s.priority u := by
      cases hflag : (s.mutex ()).flag with
      | fifo =>
        have hfirst := hok hflag howner hhold
        rw [hlist] at hfirst
        exact hfirst w rfl
      | prio =>
        have hall := hord hflag
        rw [hlist, List.pairwise_cons] at hall
        exact hall.1
    have hwaits : ∀ u, u ∈ w :: rest →
        Function.update s.priority t (s.mutex ()).originalPriority u = s.priority u := by
      intro u hu
      rw [Function.update_of_ne]
      rintro rfl
      exact hshape.apart u howner (hlist ▸ hu)
    rw [hlooks.priority]
    refine ⟨Nat.le_refl _, fun u hu => ?_, .inl rfl⟩
    rw [hwaits w List.mem_cons_self, hwaits u (List.mem_cons_of_mem w hu)]
    exact hbehind u hu
  | @freed t m _ _ _ _ hlooks =>
    refine exact_of (mutex_unit hlooks.mutex) fun o ho => ?_
    cases ho
  | @expired t m _ hwait hlooks =>
    refine exact_of (mutex_unit hlooks.mutex) fun o ho => ?_
    rw [hlooks.priority]
    have hmem : t ∈ (s.mutex ()).suspendThread := (hinv.listed () t).mpr hwait
    have hbefore := h o ho
    refine ⟨hbefore.le_saved, fun w hw => hbefore.le_waiter w (List.mem_of_mem_erase hw), ?_⟩
    have hne {w : Nat} (hw : w ∈ (s.mutex ()).suspendThread) (hwt : w ≠ t) :
        w ∈ (s.mutex ()).suspendThread.erase t := (List.mem_erase_of_ne hwt).mpr hw
    rcases hbefore.attained with hsaved | ⟨w, hw, hpw⟩
    · exact .inl hsaved
    · by_cases hwt : w = t
      · -- the loan came from the thread that leaves, and had another source
        subst hwt
        rcases hok hmem with hle | ⟨v, hv, hvw, hle⟩
        · left
          have := hbefore.le_saved
          change s.priority o = (s.mutex ()).originalPriority
          omega
        · right
          have := hbefore.le_waiter v hv
          exact ⟨v, hne hv hvw, by omega⟩
      · exact .inr ⟨w, hne hw hwt, hpw⟩

end MutexSystem

theorem exact_reach {flag : IpcFlag} {base : Nat → Nat} {s : MutexSystem Unit}
    (h : (mutexMachine (fun _ => flag) base).Reach KeepsLoan s) : Ordered s ∧ Exact s := by
  induction h with
  | init => exact ⟨fun _ => List.Pairwise.nil, fun o ho => (by cases ho)⟩
  | step hreach hok hstep ih =>
    have hinv := mutexInv_reach hreach
    have heffect := mutex_effect hstep
    exact ⟨MutexSystem.ordered_step hinv ih.1 heffect,
      MutexSystem.exact_step hinv ih.1 ih.2 hok heffect⟩

/-- **The loan.** In every run of one mutex in which no waiter that alone carries the loan
times out, and in which a FIFO mutex is not handed to a waiter that is less urgent than one
behind it, the owner runs with the most urgent of its own and the waiters' priorities. -/
theorem mutex_exact (flag : IpcFlag) (base : Nat → Nat) (s : MutexSystem Unit)
    (h : (mutexMachine (fun _ => flag) base).Reach KeepsLoan s) : Exact s :=
  (exact_reach h).2

instance : DecidableRel KeepsLoan := fun s a => by
  cases a <;> unfold KeepsLoan <;> infer_instance

/-- Two waiters of the same priority: one times out, and the loan of the other stays. -/
theorem mutex_exact_timeout :
    ∃ s, (mutexMachine (fun _ : Unit => .prio) twoPriorities).Reach KeepsLoan s ∧
      (s.mutex ()).suspendThread = [2] ∧ s.priority 0 = 5 ∧ Exact s := by
  obtain ⟨s, hreach, hs⟩ := Machine.exists_reach_of_run
    (mutexMachine (fun _ : Unit => .prio) twoPriorities) KeepsLoan
    [.take 0 () (-1), .take 1 () 3, .take 2 () (-1), .timeout 1]
    (fun s => (s.mutex ()).suspendThread = [2] ∧ s.priority 0 = 5) (by decide)
  exact ⟨s, hreach, hs.1, hs.2, mutex_exact _ _ s hreach⟩

/-- The only waiter times out: nobody waits, and the owner keeps the priority 5 it lent. -/
theorem mutex_keeps_loan :
    ¬ ∀ flag base s, (mutexMachine (fun _ : Unit => flag) base).Reach Machine.any s → Exact s := by
  intro hall
  obtain ⟨s, hreach, howner, hlist, hsaved, hpriority⟩ := Machine.exists_reach_of_run
    (mutexMachine (fun _ : Unit => .prio) twoPriorities) Machine.any
    [.take 0 () (-1), .take 1 () 3, .timeout 1]
    (fun s => (s.mutex ()).owner = some 0 ∧ (s.mutex ()).suspendThread = [] ∧
      (s.mutex ()).originalPriority = 10 ∧ s.priority 0 = 5) (by decide)
  have hexact := hall _ _ s hreach 0 howner
  rw [hlist, hsaved, hpriority] at hexact
  rcases hexact.attained with heq | ⟨w, hw, _⟩
  · cases heq
  · exact List.not_mem_nil hw

end RtVcom.Kernel
