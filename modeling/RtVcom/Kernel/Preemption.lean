import RtVcom.Kernel.IpcSystem
import RtVcom.Kernel.Running
import RtVcom.Kernel.SchedulerRun

/-!
# Preemption

Where no call is under way and the scheduler is not locked, the running thread is ready and no
ready thread is more urgent (`Preemptive`). Each call decides for itself whether it comes to
`rt_schedule`; until it does, the running thread may have to give way.

Two calls do not come to it. `rt_mutex_release` gives its caller the old priority back and
schedules only if a thread waits for the mutex, and the detach and delete functions wake their
waiters and go on. What the law asks of a call is `Orderly`.
-/

namespace RtVcom.Kernel

open RtVcom.Lib

/-! ## What the law asks of a call -/

namespace IpcState

variable {n : Nat} {flag : Nat → IpcFlag} {inThread due : Bool} {k k' : IpcState n} {t u : Fin n}
  {r : IpcResult n} {o : Nat}

open Sched

/-- A pass of a loop that comes to `rt_ipc_list_suspend`. -/
def waitsIn (k : IpcState n) (call : WaitLoop) : Bool :=
  k.blocks call && decide (call.wait.timeout ≠ 0)

/-- The calls that come to `rt_ipc_list_suspend`. -/
def waits (k : IpcState n) (t : Fin n) : IpcCall n → Bool
  | .semTake o time =>
    match k.object o with
    | .sem value => decide (¬0 < value ∧ time ≠ 0)
    | _ => false
  | .mutexTake o time =>
    match k.object o with
    | .mutex value owner _ _ => decide (owner ≠ some t ∧ ¬0 < value ∧ time ≠ 0)
    | _ => false
  | .eventRecv o set option timeout =>
    match k.object o with
    | .event now => decide (set ≠ 0 ∧ ¬eventSatisfied now set option ∧ timeout ≠ 0)
    | _ => false
  | .mbSendWait o timeout => k.waitsIn ⟨.mbSendWait, o, ipcWait t.val timeout⟩
  | .mbRecv o timeout => k.waitsIn ⟨.mbRecv, o, ipcWait t.val timeout⟩
  | .mqRecv o timeout => k.waitsIn ⟨.mqRecv, o, ipcWait t.val timeout⟩
  | _ => false

/-- The original priority of a mutex that the caller gives up and that no thread waits for. -/
def givesUp (k : IpcState n) (t : Fin n) (o : Nat) : Option Priority :=
  match k.object o with
  | .mutex _ owner originalPriority hold =>
    if owner = some t ∧ hold - 1 = 0 ∧ k.waiting (suspendThread o) = false then
      some originalPriority
    else none
  | _ => none

/-- A call that suspends or ends a thread leaves a ready one, a thread that is put to a suspend list
is in no other, a mutex that no thread waits for does not hold a ready thread off, and the count
of the scheduler lock does not wrap. `due` says that an `rt_schedule` is to come. -/
def Meets (k : IpcState n) (t : Fin n) (due : Bool) : IpcCall n → Prop
  | .mutexRelease o => due = false → k.sched.lockNest = 0 → ∀ p ∈ k.givesUp t o, ∀ u,
      k.sched.InReady u → p ≤ (k.sched.thread u).currentPriority
  | .suspend | .sleep | .exit => ∃ u, k.sched.InReady u
  | .delete u => ∃ v, v ≠ u ∧ (k.sched.thread v).stat = .ready
  | .enterCritical => k.sched.lockNest + 1 ≠ 0
  | c => k.waits t c = true → k.sched.MayWait t

/-- The same for a call that goes on. A waiter of an object that is detached is not more urgent than
the caller. -/
def MeetsNext (k : IpcState n) (t : Fin n) (due : Bool) : CallPlace → Prop
  | .look call => k.error t = rtEok →
      k.waitsIn { call with wait := call.wait.recalculated k.tick } = true → k.sched.MayWait t
  | .detaching _ (list :: _) => due = false → k.sched.lockNest = 0 → ∀ u,
      k.sched.links.next (.inl (.wait list)) = .inr u →
      (k.sched.thread t).currentPriority ≤ (k.sched.thread u).currentPriority
  | _ => True

instance (k : IpcState n) (t : Fin n) (due : Bool) : DecidablePred (k.Meets t due) := fun c => by
  cases c <;> unfold Meets <;> infer_instance

instance (k : IpcState n) (t : Fin n) (due : Bool) : DecidablePred (k.MeetsNext t due) := by
  intro place
  unfold MeetsNext
  split <;> infer_instance

/-! ## The pieces of a call -/

/-- What a piece of a call leaves: the running thread need not give way, or an `rt_schedule` is to
come. -/
def Serves (t : Fin n) (due : Bool) (r : IpcResult n) : Prop :=
  Held r.1.sched t (due || r.2.pending)

/-- Waking a thread keeps the running one live. -/
theorem resume_live (h : Live k.sched t) {list : Nat} (hk : k.resume list = some k') :
    Live k'.sched t := by
  obtain ⟨s, hs, rfl⟩ := Option.map_eq_some_iff.mp hk
  unfold ipcListResume at hs
  split at hs
  · cases hs
    exact h.resume _
  · cases hs

/-- Where a thread waits, an `rt_schedule` is to come. -/
theorem wake_soon (h : Live k.sched t) {list : Nat} (hwaiting : k.waiting list = true)
    (hr : k.wake list = some r) : Serves t due r := by
  rw [wake, if_pos hwaiting] at hr
  obtain ⟨k', hk', rfl⟩ := Option.map_eq_some_iff.mp hr
  exact (resume_live h hk').soon

/-- Waking where somebody waits comes to `rt_schedule`, and elsewhere nothing changes. -/
theorem wake_serves (h : Held k.sched t due) {list : Nat} (hr : k.wake list = some r) :
    Serves t due r := by
  cases hwaiting : k.waiting list with
  | true => exact wake_soon h.toLive hwaiting hr
  | false =>
    rw [wake, hwaiting] at hr
    cases hr
    exact h.keep _

/-- Suspending the running thread comes to `rt_schedule`. -/
theorem suspendIn_serves (h : Live k.sched t) (hmay : k.sched.MayWait t) {list : Nat}
    {flag : IpcFlag} {time : BitVec 32} {next : CallPlace}
    (hr : k.suspendIn t list flag time next = some r) : Serves t due r := by
  obtain ⟨s, hs, rfl⟩ := Option.map_eq_some_iff.mp hr
  obtain ⟨hlive, hstat⟩ := h.ipcListSuspend hmay hs
  apply Live.soon
  dsimp only
  split
  · exact hlive.setTimer hstat
  · exact hlive

/-- The induction is on the fuel; each turn resumes one thread. -/
theorem resumeAll_live {list fuel : Nat} (h : Live k.sched t)
    (hk : resumeAll list fuel k = some k') : Live k'.sched t := by
  induction fuel generalizing k with
  | zero => cases hk
  | succ fuel ih =>
    unfold resumeAll at hk
    split at hk
    next u _ => exact ih (k := k.resumeFailed u) (h.resume u) hk
    next =>
      split at hk
      · cases hk
        exact h
      · cases hk

/-- Waking everybody on some lists keeps the running thread live. -/
theorem resumeLists_live {lists : List Nat} {fuel : Nat} (h : Live k.sched t)
    (hk : lists.foldlM (fun k list => resumeAll list fuel k) k = some k') : Live k'.sched t := by
  induction lists generalizing k with
  | nil =>
    cases hk
    exact h
  | cons list lists ih =>
    rw [List.foldlM_cons] at hk
    obtain ⟨m, hm, hk⟩ := Option.bind_eq_some_iff.mp hk
    exact ih (resumeAll_live h hm) hk

/-- A reset comes to `rt_schedule`. -/
theorem reset_serves (h : Held k.sched t due) {cmd : Int} {object : IpcObject n}
    (hr : k.reset o cmd object = some r) : Serves t due r := by
  unfold reset at hr
  split at hr
  · obtain ⟨k', hk', rfl⟩ := Option.map_eq_some_iff.mp hr
    exact (resumeLists_live h.toLive hk').soon
  · cases hr
    exact h.keep _

/-- A turn of a detach does not come to `rt_schedule`: it wakes a thread that is not more urgent. -/
theorem detach_serves (h : Held k.sched t due) {lists : List Nat}
    (hok : k.MeetsNext t due (.detaching o lists)) (hr : k.detach o lists = some r) :
    Serves t due r := by
  unfold detach at hr
  split at hr
  next =>
    cases hr
    exact h.keep _
  next list rest =>
    split at hr
    next u hfirst =>
      cases hr
      refine ⟨h.toLive.resume u, fun hlock => ?_⟩
      have hnest : (k.sched.resume u).1.lockNest = k.sched.lockNest := resume_lockNest _ u
      have hlock : k.sched.lockNest = 0 := hnest.symm.trans hlock
      rcases h.prompt hlock with hdue | hsettled
      · exact Or.inl (Bool.or_eq_true_iff.mpr (Or.inl hdue))
      · cases hcase : due with
        | true => exact Or.inl rfl
        | false => exact Or.inr (hsettled.resume h.running (hok hcase hlock u hfirst))
    next =>
      cases hr
      exact h.keep _

theorem semTake_serves (h : Held k.sched t due) {time : BitVec 32}
    (hok : k.Meets t due (.semTake o time))
    (hr : k.semTake flag inThread t o time = some r) : Serves t due r := by
  unfold semTake at hr
  split at hr
  next value hobject =>
    split at hr
    · cases hr
      exact h.keep _
    · next hvalue =>
      split at hr
      · cases hr
        exact h.keep _
      · next htime =>
        obtain ⟨-, hr⟩ := Option.ite_none_right_eq_some.mp hr
        refine suspendIn_serves (k := k.setError t rtEok) h.toLive (hok ?_) hr
        rw [waits, hobject]
        exact decide_eq_true ⟨hvalue, htime⟩
  next => cases hr

theorem semRelease_serves (h : Held k.sched t due) (hr : k.semRelease o = some r) :
    Serves t due r := by
  unfold semRelease at hr
  split at hr
  next =>
    split at hr
    · exact wake_serves h hr
    · cases hr
      exact h.keep _
  next => cases hr

/-- The owner takes the priority of the caller, which is to wait. -/
theorem lend_live (h : Live k.sched t) (hmay : k.sched.MayWait t) (hne : u ≠ t) :
    Live (k.lend t u).sched t ∧ (k.lend t u).sched.MayWait t := by
  unfold lend
  split
  · obtain ⟨q, hinv⟩ := h.inv
    obtain ⟨honce, v, hv⟩ := hmay
    refine ⟨h.changePriority u _, hinv.changePriority_loose hne.symm _ honce, v, ?_⟩
    exact ⟨(changePriority_stat _ u v _).trans hv.1, fun heq =>
      hv.2 ((changePriority_current _ u _).symm.trans heq)⟩
  · exact ⟨h, hmay⟩

/-- `rt_mutex_take` serves, also where it lends its priority. -/
theorem mutexTake_serves (h : Held k.sched t due) {time : BitVec 32}
    (hok : k.Meets t due (.mutexTake o time)) (hr : k.mutexTake flag t o time = some r) :
    Serves t due r := by
  unfold mutexTake at hr
  split at hr
  next value owner originalPriority hold hobject =>
    dsimp only at hr
    split at hr
    · cases hr
      exact h.keep _
    · next howner =>
      split at hr
      · cases hr
        exact h.keep _
      · next hvalue =>
        split at hr
        · cases hr
          exact h.keep _
        · next htime =>
          obtain ⟨u, hu, hr⟩ := Option.bind_eq_some_iff.mp hr
          have hne : u ≠ t := fun heq => howner (heq ▸ hu)
          have hmay : k.sched.MayWait t := by
            apply hok
            rw [waits, hobject]
            exact decide_eq_true ⟨howner, hvalue, htime⟩
          obtain ⟨hlive, hmay⟩ := lend_live (k := k.setError t rtEok) h.toLive hmay hne
          exact suspendIn_serves hlive hmay hr
  next => cases hr

/-- The caller takes its old priority, and the links stay. -/
theorem restore_live (h : Live k.sched t) (p : Priority) :
    Live (k.restore t p).sched t ∧ (k.restore t p).sched.links = k.sched.links := by
  unfold restore
  split
  · obtain ⟨q, hinv⟩ := h.inv
    exact ⟨h.changePriority t p, hinv.changePriority_links h.running p⟩
  · exact ⟨h, rfl⟩

/-- Setting a priority back keeps the running thread the most urgent, if no other is. -/
theorem restore_held (h : Held k.sched t due) {p : Priority}
    (hle : due = false → k.sched.lockNest = 0 → ∀ u, k.sched.InReady u →
      p ≤ (k.sched.thread u).currentPriority) : Held (k.restore t p).sched t due := by
  refine ⟨(restore_live h.toLive p).1, fun hlock => ?_⟩
  unfold restore at hlock ⊢
  split at hlock
  · rw [changePriority_lockNest] at hlock
    rw [if_pos ‹_›]
    cases hcase : due with
    | true => exact Or.inl rfl
    | false =>
      have hsettled := (h.prompt hlock).resolve_left (Bool.eq_false_iff.mp hcase)
      exact Or.inr (hsettled.changePriority h.running (hle hcase hlock))
  · rw [if_neg ‹_›]
    exact h.prompt hlock

/-- `rt_mutex_release` serves under its condition. -/
theorem mutexRelease_serves (h : Held k.sched t due) (hok : k.Meets t due (.mutexRelease o))
    (hr : k.mutexRelease t o = some r) : Serves t due r := by
  unfold mutexRelease at hr
  split at hr
  next value owner originalPriority hold hobject =>
    split at hr
    · cases hr
      exact h.keep _
    · next howner =>
      split at hr
      · cases hr
        exact h.keep _
      · next hhold =>
        dsimp only at hr
        obtain ⟨hlive, hlinks⟩ := restore_live h.toLive originalPriority
        split at hr
        next u hfirst =>
          refine wake_soon ?_ (decide_eq_true fun heq => ?_) hr
          · exact hlive
          · cases hfirst.symm.trans heq
        next g hfirst =>
          cases hr
          refine (restore_held h fun hdue hlock => ?_).keep _
          refine hok hdue hlock originalPriority ?_
          have hwaiting : k.waiting (suspendThread o) = false := by
            refine decide_eq_false (not_not.mpr ?_)
            obtain ⟨q, hinv⟩ := h.inv
            rw [hlinks] at hfirst
            have hhead := hinv.table.rings.next_head (.wait (suspendThread o))
            rw [hfirst] at hhead
            cases hq : q (.wait (suspendThread o)) with
            | nil => exact hinv.table.rings.isEmpty_iff.mpr hq
            | cons v rest =>
              rw [hq] at hhead
              cases hhead
          rw [givesUp, hobject]
          exact if_pos ⟨not_not.mp howner, not_not.mp hhold, hwaiting⟩
  next => cases hr

/-- The walk resumes threads, or it has changed nothing. The induction is on the fuel. -/
theorem sendWalk_held {fuel : Nat} {a : ListHead ⊕ Fin n} {needSchedule needed : Bool}
    (h : Live k.sched t) (hheld : needSchedule = false → Held k.sched t due)
    (hk : sendWalk o fuel k a needSchedule = some (k', needed)) :
    Live k'.sched t ∧ (needed = false → Held k'.sched t due) := by
  induction fuel generalizing k a needSchedule with
  | zero => cases hk
  | succ fuel ih =>
    cases a with
    | inl g =>
      obtain ⟨-, hk⟩ := Option.ite_none_right_eq_some.mp hk
      cases hk
      exact ⟨h, hheld⟩
    | inr u =>
      unfold sendWalk at hk
      dsimp only at hk
      split at hk
      next set _ =>
        split at hk
        · refine ih (k := k.receive o u set) (h.resume u) (fun hfalse => ?_) hk
          cases hfalse
        · exact ih h hheld hk
      next => cases hk

theorem eventSend_serves (h : Held k.sched t due) {set : BitVec 32}
    (hr : k.eventSend o set = some r) : Serves t due r := by
  unfold eventSend at hr
  split at hr
  next now _ =>
    split at hr
    · cases hr
      exact h.keep _
    · obtain ⟨⟨k', needSchedule⟩, hk, rfl⟩ := Option.map_eq_some_iff.mp hr
      obtain ⟨hlive, hheld⟩ := sendWalk_held (k := k.setObject o (.event (now ||| set))) h.toLive
        (fun _ => h) hk
      cases needSchedule with
      | true => exact hlive.soon
      | false => exact (hheld rfl).keep _
  next => cases hr

theorem eventRecv_serves (h : Held k.sched t due) {set : BitVec 32} {option : BitVec 8}
    {timeout : BitVec 32} (hok : k.Meets t due (.eventRecv o set option timeout))
    (hr : k.eventRecv flag t o set option timeout = some r) : Serves t due r := by
  unfold eventRecv at hr
  split at hr
  next now hobject =>
    split at hr
    · cases hr
      exact h.keep _
    · next hset =>
      dsimp only at hr
      split at hr
      · cases hr
        exact h.keep _
      · next hsatisfied =>
        split at hr
        · cases hr
          exact h.keep _
        · next htimeout =>
          refine suspendIn_serves (k := (k.setError t rtEok).expect t set option) h.toLive
            (hok ?_) hr
          rw [waits, hobject]
          exact decide_eq_true ⟨hset, hsatisfied, htimeout⟩
  next => cases hr

/-- The end of a loop that waited serves. -/
theorem finish_serves (h : Held k.sched t due) {call : WaitLoop} (hr : k.finish call = some r) :
    Serves t due r := by
  unfold finish at hr
  split at hr
  · exact wake_serves (k := k.setObject _ _) h hr
  · exact wake_serves (k := k.setObject _ _) h hr
  · cases hr
    exact h.keep _
  · cases hr

theorem pass_serves (h : Held k.sched t due) {call : WaitLoop}
    (hok : k.waitsIn call = true → k.sched.MayWait t)
    (hr : k.pass flag inThread t call = some r) : Serves t due r := by
  unfold pass at hr
  split at hr
  · next hblocks =>
    split at hr
    · cases hr
      exact h.keep _
    · next htimeout =>
      obtain ⟨-, hr⟩ := Option.ite_none_right_eq_some.mp hr
      refine suspendIn_serves (k := k.setError t rtEok) h.toLive (hok ?_) hr
      exact Bool.and_eq_true_iff.mpr ⟨hblocks, decide_eq_true htimeout⟩
  · exact finish_serves h hr

theorem enter_serves (h : Held k.sched t due) {call : WaitLoop}
    (hok : k.waitsIn call = true → k.sched.MayWait t)
    (hr : k.enter flag inThread t call = some r) : Serves t due r := by
  unfold enter at hr
  split at hr
  · cases hr
    exact h.keep _
  · exact pass_serves h hok hr

theorem again_serves (h : Held k.sched t due) {call : WaitLoop}
    (hok : k.MeetsNext t due (.look call)) (hr : k.again flag inThread t call = some r) :
    Serves t due r := by
  unfold again at hr
  split at hr
  · cases hr
    exact h.keep _
  · next herror => exact pass_serves h (hok (not_not.mp herror)) hr

/-- `rt_mq_send` serves, up to where it links the message. -/
theorem mqSend_serves (h : Held k.sched t due) {size : Nat} (hr : k.mqSend o size = some r) :
    Serves t due r := by
  unfold mqSend at hr
  split at hr
  next =>
    split at hr
    · cases hr
      exact h.keep _
    · cases hr
      exact h.keep _
  next => cases hr

/-- Deleting another thread serves, where one is left. -/
theorem delete_serves (h : Held k.sched t due) {u : Fin n} (hstat : (k.sched.thread u).stat ≠ .close)
    (hne : u ≠ t) (hok : ∃ v, v ≠ u ∧ (k.sched.thread v).stat = .ready) :
    Serves t due ({ k with sched := k.sched.delete u }, .out) := by
  refine ⟨h.toLive.delete hstat hok, fun hlock => ?_⟩
  have hnest : (k.sched.delete u).lockNest = k.sched.lockNest := delete_lockNest _ u
  refine (h.prompt (hnest.symm.trans hlock)).imp (fun hdue => ?_) fun hsettled => ?_
  · exact Bool.or_eq_true_iff.mpr (Or.inl hdue)
  · refine hsettled.delete fun w hw => ?_
    cases h.running.symm.trans hw
    exact hne.symm

/-- Ending the running thread comes to `rt_schedule`. -/
theorem exit_serves (h : Live k.sched t) (hok : ∃ u, k.sched.InReady u) :
    Serves t due (k.exit t, .schedule .ended) := by
  obtain ⟨hended, hburied⟩ := h.ended hok
  apply Live.soon
  unfold exit
  dsimp only
  split
  · exact hended
  · exact hburied

/-- `rt_tick_increase` serves, with its yield. -/
theorem tickIncrease_serves (h : Held k.sched t due) : Serves t due (k.tickIncrease t) := by
  unfold tickIncrease
  dsimp only
  split
  · exact (h.toLive.setTick t _).soon
  · refine ⟨h.toLive.setTick t _, fun hlock => ?_⟩
    rcases h.prompt hlock with hdue | hsettled
    · exact Or.inl (Bool.or_eq_true_iff.mpr (Or.inl hdue))
    · exact Or.inr (hsettled.congr rfl (setTick_stat _ t · _) (setTick_priority _ t · _))

/-- `rt_exit_critical` comes to `rt_schedule` with the last lock. -/
theorem exitCritical_serves (h : Held k.sched t due) : Serves t due k.exitCritical := by
  unfold exitCritical
  dsimp only
  split
  · exact (h.toLive.setLockNest 0).soon
  · next hnest =>
    refine ⟨h.toLive.setLockNest _, fun hlock => absurd ?_ hnest⟩
    have hzero : k.sched.lockNest - 1 = 0 := hlock
    rw [hzero]
    decide

/-- The first piece of a call. -/
theorem call_serves (h : Held k.sched t due) {c : IpcCall n} (hok : k.Meets t due c)
    (hr : k.call flag inThread t c = some r) : Serves t due r := by
  cases c with
  | semTake o time => exact semTake_serves h hok hr
  | semRelease o => exact semRelease_serves h hr
  | semControl o cmd arg =>
    change k.semControl o cmd arg = some r at hr
    unfold semControl at hr
    split at hr
    · exact reset_serves h hr
    · cases hr
  | mutexTake o time =>
    obtain ⟨-, hr⟩ := Option.ite_none_right_eq_some.mp hr
    exact mutexTake_serves h hok hr
  | mutexRelease o =>
    obtain ⟨-, hr⟩ := Option.ite_none_right_eq_some.mp hr
    exact mutexRelease_serves h hok hr
  | mutexControl o cmd =>
    cases hr
    exact h.keep _
  | eventSend o set => exact eventSend_serves h hr
  | eventRecv o set option timeout =>
    obtain ⟨-, hr⟩ := Option.ite_none_right_eq_some.mp hr
    exact eventRecv_serves h hok hr
  | eventControl o cmd =>
    change k.eventControl o cmd = some r at hr
    unfold eventControl at hr
    split at hr
    · exact reset_serves h hr
    · cases hr
  | mbSendWait o timeout => exact enter_serves h hok hr
  | mbRecv o timeout => exact enter_serves h hok hr
  | mbControl o cmd =>
    change k.mbControl o cmd = some r at hr
    unfold mbControl at hr
    split at hr
    · exact reset_serves h hr
    · cases hr
  | mqSend o size => exact mqSend_serves h hr
  | mqRecv o timeout => exact enter_serves h hok hr
  | mqControl o cmd =>
    change k.mqControl o cmd = some r at hr
    unfold mqControl at hr
    split at hr
    · exact reset_serves h hr
    · cases hr
  | detach o =>
    obtain ⟨-, hr⟩ := Option.ite_none_left_eq_some.mp hr
    cases hr
    exact h.keep _
  | startup u =>
    obtain ⟨hinit, hr⟩ := Option.ite_none_right_eq_some.mp hr
    cases hr
    exact (h.toLive.startup hinit).soon
  | delete u =>
    obtain ⟨⟨hstat, hne⟩, hr⟩ := Option.ite_none_right_eq_some.mp hr
    cases hr
    exact delete_serves h hstat hne hok
  | suspend =>
    obtain ⟨-, hr⟩ := Option.ite_none_right_eq_some.mp hr
    cases hr
    exact (h.toLive.suspend hok).soon
  | resume u =>
    cases hr
    exact (h.toLive.resume u).soon
  | sleep =>
    obtain ⟨-, hr⟩ := Option.ite_none_right_eq_some.mp hr
    cases hr
    exact (h.toLive.sleep hok).soon
  | exit =>
    obtain ⟨-, hr⟩ := Option.ite_none_right_eq_some.mp hr
    cases hr
    exact exit_serves h.toLive hok
  | yield =>
    cases hr
    exact h.toLive.soon
  | enterCritical =>
    cases hr
    exact ⟨h.toLive.setLockNest _, fun hlock => absurd hlock hok⟩
  | exitCritical =>
    cases hr
    exact exitCritical_serves h
  | tick =>
    obtain ⟨-, hr⟩ := Option.ite_none_left_eq_some.mp hr
    cases hr
    exact tickIncrease_serves h
  | timeout u =>
    obtain ⟨⟨-, htimer⟩, hr⟩ := Option.ite_none_right_eq_some.mp hr
    cases hr
    exact (h.toLive.woken htimer).soon

/-- The next piece of a call that does not come to `rt_schedule` now. -/
theorem goOn_serves (h : Held k.sched t due) {place : CallPlace} (hplace : place.pending = false)
    (hok : k.MeetsNext t due place) (hr : k.goOn flag inThread t place = some r) :
    Serves t due r := by
  cases place with
  | out => cases hr
  | schedule next => cases hplace
  | slept =>
    cases hr
    refine Held.keep ?_ _
    split <;> exact h
  | look call => exact again_serves h hok hr
  | linking o =>
    change k.link o = some r at hr
    unfold link at hr
    split at hr
    · exact wake_serves (k := k.setObject _ _) h hr
    · cases hr
  | puttingBack o =>
    change k.putBack o = some r at hr
    unfold putBack at hr
    split at hr
    · cases hr
      exact h.keep _
    · cases hr
  | detaching o lists => exact detach_serves h hok hr
  | ended => cases hr

end IpcState

/-! ## Runs -/

namespace IpcSystem

variable {n : Nat} {flag : Nat → IpcFlag} {s s' : IpcSystem n} {t : Fin n}

open Sched

/-- An `rt_schedule` is to come, of an interrupt or of the running thread. -/
def due (s : IpcSystem n) (t : Fin n) : Bool :=
  s.irq.any CallPlace.pending || (s.place t).pending

/-- A step that meets what the law asks. -/
def Orderly (s : IpcSystem n) : IpcAction n → Prop
  | .call c => ∀ t ∈ s.state.sched.current, s.state.Meets t (s.due t) c
  | .goOn => ∀ t ∈ s.state.sched.current, s.state.MeetsNext t (s.due t) (s.context t)
  | _ => True

instance : DecidableRel (Orderly (n := n)) := fun _ a => by
  cases a <;> unfold Orderly <;> infer_instance

/-- What holds in every state of an orderly run. -/
structure Sure (s : IpcSystem n) : Prop where
  inv : ∃ q, SchedInv s.state.sched q
  held : ∀ t, s.state.sched.current = some t → Held s.state.sched t (s.due t)

theorem comesTo_state (s : IpcSystem n) (t : Fin n) (r : IpcResult n) :
    (s.comesTo t r).state = r.1 := by
  unfold comesTo
  split <;> rfl

theorem comesTo_due {r : IpcResult n} (hcontext : (s.context t).pending = false) :
    (s.comesTo t r).due t = (s.due t || r.2.pending) := by
  unfold context at hcontext
  unfold comesTo due
  cases hirq : s.irq with
  | nil =>
    rw [hirq] at hcontext
    dsimp only at hcontext ⊢
    rw [hcontext, Function.update_self]
    rfl
  | cons place rest =>
    rw [hirq] at hcontext
    dsimp only at hcontext ⊢
    rw [List.any_cons, List.any_cons, hcontext, Bool.false_or, Bool.or_assoc, Bool.or_comm]

/-- A piece that serves keeps the invariant. -/
theorem sure_of_serves {r : IpcResult n} (hcontext : (s.context t).pending = false)
    (h : IpcState.Serves t (s.due t) r) : Sure (s.comesTo t r) := by
  refine ⟨?_, fun u hu => ?_⟩
  · rw [comesTo_state]
    exact h.inv
  · rw [comesTo_state] at hu ⊢
    cases h.running.symm.trans hu
    rw [comesTo_due hcontext]
    exact h

/-- Where nobody has to give way, it does not matter what is to come. -/
theorem sure_of_held (h : Held s.state.sched t false) : Sure s := by
  refine ⟨h.inv, fun u hu => ?_⟩
  cases h.running.symm.trans hu
  exact h.keep (s.due t)

/-- Every orderly step keeps the invariant. -/
theorem Sure.step (h : Sure s) {a : IpcAction n} (hok : Orderly s a)
    (hs : s.step flag a = some s') : Sure s' := by
  cases a with
  | startup u =>
    obtain ⟨⟨hcur, hinit⟩, hs⟩ := Option.ite_none_right_eq_some.mp hs
    cases hs
    obtain ⟨q, hinv⟩ := h.inv
    obtain ⟨q', hinv', -⟩ := (hinv.prepared hinit).resume u
    refine ⟨⟨q', hinv'⟩, fun t ht => ?_⟩
    have hcur' : (s.state.startup u).sched.current = none := (resume_current _ u).trans hcur
    cases hcur'.symm.trans ht
  | schedulerStart =>
    obtain ⟨hcur, hs⟩ := Option.ite_none_right_eq_some.mp hs
    obtain ⟨sched, hstart, rfl⟩ := Option.map_eq_some_iff.mp hs
    obtain ⟨q, hinv⟩ := h.inv
    obtain ⟨t, hheld⟩ := hinv.start_held hcur hstart
    exact sure_of_held hheld
  | interrupt =>
    obtain ⟨t, -, rfl⟩ := Option.map_eq_some_iff.mp hs
    exact ⟨h.inv, h.held⟩
  | leave =>
    change s.leave = some s' at hs
    unfold IpcSystem.leave at hs
    split at hs
    next rest hirq =>
      cases hs
      refine ⟨h.inv, fun t ht => ?_⟩
      have hheld := h.held t ht
      rw [due, hirq] at hheld
      exact hheld
    next => cases hs
  | call c =>
    obtain ⟨t, hcur, hs⟩ := Option.bind_eq_some_iff.mp hs
    obtain ⟨hcontext, hs⟩ := Option.ite_none_right_eq_some.mp hs
    obtain ⟨r, hr, rfl⟩ := Option.map_eq_some_iff.mp hs
    apply sure_of_serves (congrArg CallPlace.pending hcontext)
    exact IpcState.call_serves (h.held t hcur) (hok t hcur) hr
  | goOn =>
    obtain ⟨t, hcur, hs⟩ := Option.bind_eq_some_iff.mp hs
    obtain ⟨r, hr, rfl⟩ := Option.map_eq_some_iff.mp hs
    cases hpending : (s.context t).pending with
    | false =>
      exact sure_of_serves hpending
        (IpcState.goOn_serves (h.held t hcur) hpending (hok t hcur) hr)
    | true =>
      -- the pending `rt_schedule` is made
      generalize s.context t = place at hr hpending
      cases place with
      | schedule next =>
        obtain ⟨sched, hsched, rfl⟩ := Option.map_eq_some_iff.mp hr
        obtain ⟨u, hheld⟩ := (h.held t hcur).toLive.schedule hsched
        apply sure_of_held (t := u)
        rw [comesTo_state]
        exact hheld
      | _ => cases hpending

end IpcSystem

/-- The law: where no interrupt and no call of the running thread is under way and the scheduler is
not locked, the running thread is ready and no ready thread is more urgent. -/
def Preemptive {n : Nat} (s : IpcSystem n) : Prop :=
  ∀ t, s.state.sched.current = some t → s.irq = [] → s.place t = .out →
    s.state.sched.lockNest = 0 → (s.state.sched.thread t).stat = .ready ∧
      ∀ u, (s.state.sched.thread u).stat = .ready →
        (s.state.sched.thread t).currentPriority ≤ (s.state.sched.thread u).currentPriority

open Sched IpcSystem in
/-- In every orderly run the running thread is the most urgent one whenever a call has returned. -/
theorem preemption_kept (n : Nat) (spec : Fin n → ThreadSpec) (flag : Nat → IpcFlag)
    (object : Nat → IpcObject n) (s : IpcSystem n)
    (h : (ipcMachine spec flag object).Reach Orderly s) : Preemptive s := by
  have hsure : Sure s := by
    refine h.invariant (P := Sure) ⟨?_, fun t ht => ?_⟩ fun _ _ _ hsure hok hs => hsure.step hok hs
    · exact ⟨_, SchedInv.init (fun _ => rfl) (fun _ => rfl) fun _ => rfl⟩
    · cases ht
  intro t hcur hirq hplace hlock
  have hdue : s.due t = false := by
    rw [due, hirq, hplace]
    rfl
  have hprompt := (hsure.held t hcur).prompt hlock
  rw [hdue] at hprompt
  obtain ⟨hready, hleast⟩ := hprompt.resolve_left Bool.false_ne_true t hcur
  refine ⟨hready, fun u hu => ?_⟩
  by_cases hut : u = t
  · rw [hut]
  · refine hleast u ⟨hu, fun heq => hut ?_⟩
    exact (Option.some_inj.mp (hcur.symm.trans heq)).symm

/-- Objects after `rt_mutex_init`. -/
def freeMutexes (_ : Nat) : IpcObject 4 := .mutex 1 none (Fin.last 31) 0

/-- A thread waits for a mutex, and its owner runs with its priority until it releases the mutex. -/
theorem preemption_kept_lent : ∃ s,
    (ipcMachine fourThreads (fun _ => .prio) freeMutexes).Reach IpcSystem.Orderly s ∧
      s.state.sched.current = some 1 ∧ (s.state.sched.thread 3).currentPriority = 20 ∧
      Preemptive s := by
  obtain ⟨s, hreach, hcur, hpriority⟩ := Machine.exists_reach_of_run
    (ipcMachine fourThreads (fun _ => .prio) freeMutexes) IpcSystem.Orderly
    [.startup 0, .startup 3, .schedulerStart, .call (.mutexTake 0 0), .call (.startup 1), .goOn,
      .call (.mutexTake 0 5), .goOn, .call (.mutexRelease 0), .goOn]
    (fun s => s.state.sched.current = some 1 ∧ (s.state.sched.thread 3).currentPriority = 20)
    (by decide +kernel)
  exact ⟨s, hreach, hcur, hpriority, preemption_kept 4 _ _ _ s hreach⟩

/-- The owner of a mutex runs with the priority of a thread whose waiting time has run out. It
releases the mutex and goes on with its own priority, though a more urgent thread is ready. -/
theorem preemption_lost : ∃ s,
    (ipcMachine fourThreads (fun _ => .prio) freeMutexes).Reach Machine.any s ∧
      ¬Preemptive s := by
  obtain ⟨s, hreach, ⟨hcur, hirq, hplace, hlock⟩, hstat, hless⟩ := Machine.exists_reach_of_run
    (ipcMachine fourThreads (fun _ => .prio) freeMutexes) Machine.any
    [.startup 0, .startup 3, .schedulerStart, .call (.mutexTake 0 0), .call (.startup 1), .goOn,
      .call (.mutexTake 0 5), .goOn, .interrupt, .call (.timeout 1), .goOn, .leave, .call .sleep,
      .goOn, .call (.startup 2), .goOn, .call .yield, .goOn, .call (.mutexRelease 0)]
    (fun s => (s.state.sched.current = some 3 ∧ s.irq = [] ∧ s.place 3 = .out ∧
      s.state.sched.lockNest = 0) ∧ (s.state.sched.thread 2).stat = .ready ∧
      (s.state.sched.thread 2).currentPriority < (s.state.sched.thread 3).currentPriority)
    (by decide +kernel)
  refine ⟨s, hreach, fun hlaw => ?_⟩
  exact absurd ((hlaw 3 hcur hirq hplace hlock).2 2 hstat) (not_le.mpr hless)

end RtVcom.Kernel
