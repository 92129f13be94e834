import RtVcom.Kernel.Preemption

/-!
# The timers that calls start

Which thread timer a piece of a call starts: that of the running thread where the call comes to
`rt_ipc_list_suspend` with a positive time, and no other. A timer that runs behind a piece ran
before it or is the one that was started (`follows_step`). The pieces leave the clock as it is.
-/

namespace RtVcom.Kernel

variable {n : Nat}

/-! ## What is started -/

/-- The waiting time that a call is given. -/
def IpcCall.time : IpcCall n → BitVec 32
  | .semTake _ time | .mutexTake _ time => time
  | .eventRecv _ _ _ time | .mbSendWait _ time | .mbRecv _ time | .mqRecv _ time => time
  | _ => 0

/-- `rt_thread_sleep`, and what the interrupt of the clock calls. -/
def IpcAction.ofClock : IpcAction n → Bool
  | .call .sleep | .call .tick | .call (.timeout _) => true
  | _ => false

namespace IpcSystem

/-- The time with which a step of `t` starts its `thread_timer`. -/
def startTime (s : IpcSystem n) (t : Fin n) : IpcAction n → Option (BitVec 32)
  | .call c => if s.state.waits t c ∧ 0 < c.time.toInt then some c.time else none
  | .goOn =>
    match s.context t with
    | .look call =>
      let call := { call with wait := call.wait.recalculated s.state.tick }
      if s.state.error t = rtEok ∧ s.state.waitsIn call ∧ 0 < call.wait.timeout.toInt then
        some call.wait.timeout
      else none
    | _ => none
  | _ => none

/-- The timer of a thread runs. -/
def timed (s : IpcSystem n) (u : Fin n) : Bool := (s.state.sched.thread u).timer

end IpcSystem

/-! ## Timers that are not started -/

namespace Sched

variable {s s' s'' : Sched n} {t u : Fin n}

/-- No timer is started. -/
def Calm (s s' : Sched n) : Prop :=
  ∀ u, (s'.thread u).timer = true → (s.thread u).timer = true

theorem Calm.refl (s : Sched n) : Calm s s := fun _ => id

theorem Calm.trans (h : Calm s s') (h' : Calm s' s'') : Calm s s'' := fun u hu => h u (h' u hu)

theorem calm_of_thread (h : s'.thread = s.thread) : Calm s s' := fun u hu => by rwa [h] at hu

/-- Writing the record of a thread starts no timer. -/
theorem calm_setThread {x : Tcb} (h : x.timer = true → (s.thread t).timer = true) :
    Calm s (s.setThread t x) := by
  intro u hu
  by_cases hut : u = t
  · subst hut
    rw [setThread_self] at hu
    exact h hu
  · rwa [setThread_of_ne hut] at hu

theorem calm_setStat (s : Sched n) (t : Fin n) (stat : ThreadStat) : Calm s (s.setStat t stat) :=
  calm_setThread id

theorem calm_insertThread (s : Sched n) (t : Fin n) : Calm s (s.insertThread t) := by
  exact (calm_setStat s t .ready).trans (calm_of_thread (insertThread_thread s t))

theorem calm_removeThread (s : Sched n) (t : Fin n) : Calm s (s.removeThread t) :=
  calm_of_thread (removeThread_thread s t)

theorem calm_setTimer (s : Sched n) (t : Fin n) : Calm s (s.setTimer t false) :=
  calm_setThread fun h => by cases h

theorem calm_woken (s : Sched n) (t : Fin n) : Calm s (s.woken t) :=
  (calm_setTimer (s.unlink t) t).trans (calm_insertThread _ t)

/-- `rt_thread_resume` starts no timer. -/
theorem calm_resume (s : Sched n) (t : Fin n) : Calm s (s.resume t).1 := by
  by_cases hstat : (s.thread t).stat = .suspend
  · rw [resume_of_suspend hstat]
    exact calm_woken s t
  · rw [resume_of_not_suspend hstat]
    exact .refl s

theorem calm_suspend (s : Sched n) (t : Fin n) : Calm s (s.suspend t).1 := by
  by_cases hready : (s.thread t).stat = .ready
  · rw [suspend_of_ready hready]
    exact ((calm_setStat s t .suspend).trans (calm_removeThread _ t)).trans (calm_setTimer _ t)
  · rw [suspend_of_not_ready hready]
    exact .refl s

theorem calm_changePriority (s : Sched n) (t : Fin n) (p : Priority) :
    Calm s (s.changePriority t p) := by
  rw [changePriority_eq]
  split
  · refine ((calm_removeThread s t).trans (calm_setThread ?_)).trans (calm_insertThread _ t)
    exact id
  · exact calm_setThread id

theorem calm_delete (s : Sched n) (t : Fin n) : Calm s (s.delete t) := by
  unfold delete
  dsimp only
  refine Calm.trans (Calm.trans ?_ (calm_setTimer _ t)) (calm_setStat _ t .close)
  split
  · exact calm_removeThread s t
  · exact .refl s

theorem calm_ended (s : Sched n) (t : Fin n) : Calm s (s.ended t) :=
  ((calm_removeThread s t).trans (calm_setTimer _ t)).trans (calm_setStat _ t .close)

/-- `rt_ipc_list_suspend` starts no timer; its caller does. -/
theorem calm_ipcListSuspend {o : Nat} {flag : IpcFlag}
    (hs : s.ipcListSuspend o t flag = some s') : Calm s s' := by
  unfold ipcListSuspend at hs
  cases flag with
  | fifo =>
    cases hs
    exact calm_suspend s t
  | prio =>
    obtain ⟨l, -, rfl⟩ := Option.map_eq_some_iff.mp hs
    exact calm_suspend s t

theorem calm_schedule (hs : s.schedule = some s') : Calm s s' := by
  unfold schedule at hs
  split at hs
  · cases hs
    exact .refl s
  · split at hs
    · split at hs
      · cases hs
        exact calm_removeThread s _
      · dsimp only at hs
        split at hs
        · cases hs
          exact Calm.trans (calm_insertThread { s with current := some _ } _)
            (calm_removeThread _ _)
        · cases hs
          exact calm_removeThread { s with current := some _ } _
    · cases hs

end Sched

namespace IpcState

variable {flag : Nat → IpcFlag} {inThread : Bool} {k k' k'' : IpcState n} {t : Fin n}
  {r : IpcResult n} {o : Nat} {may may' : Prop}

open Sched

/-- No timer is started, and the clock stays. -/
structure Calm (k k' : IpcState n) : Prop where
  timers : k.sched.Calm k'.sched
  tick : k'.tick = k.tick

/-- Of the timers only that of `t` is started, where it `may` be, and the clock stays. -/
structure Starts (k k' : IpcState n) (t : Fin n) (may : Prop) : Prop where
  others : ∀ u, (k'.sched.thread u).timer = true → (k.sched.thread u).timer = true ∨ u = t ∧ may
  self : may → (k'.sched.thread t).timer = true
  tick : k'.tick = k.tick

theorem Calm.refl (k : IpcState n) : Calm k k := ⟨.refl k.sched, rfl⟩

theorem Calm.trans (h : Calm k k') (h' : Calm k' k'') : Calm k k'' :=
  ⟨h.timers.trans h'.timers, h'.tick.trans h.tick⟩

/-- A piece that starts no timer, where none may be started. -/
theorem Calm.starts (h : Calm k k') (hno : ¬may) : Starts k k' t may :=
  ⟨fun u hu => .inl (h.timers u hu), fun hmay => absurd hmay hno, h.tick⟩

/-- A start behind a piece that starts none. -/
theorem Starts.behind (h : Starts k' k'' t may) (hcalm : Calm k k') (hiff : may ↔ may') :
    Starts k k'' t may' :=
  ⟨fun u hu => (h.others u hu).imp (hcalm.timers u) fun hself => ⟨hself.1, hiff.mp hself.2⟩,
    fun hmay => h.self (hiff.mpr hmay), h.tick.trans hcalm.tick⟩

/-! ## Control calls -/

/-- The control call of a semaphore comes to `reset`. -/
theorem reset_of_semControl {cmd : Int} {arg : BitVec 32} (hr : k.semControl o cmd arg = some r) :
    ∃ object, k.reset o cmd object = some r := by
  unfold semControl at hr
  split at hr
  · exact ⟨_, hr⟩
  · cases hr

theorem reset_of_eventControl {cmd : Int} (hr : k.eventControl o cmd = some r) :
    ∃ object, k.reset o cmd object = some r := by
  unfold eventControl at hr
  split at hr
  · exact ⟨_, hr⟩
  · cases hr

theorem reset_of_mbControl {cmd : Int} (hr : k.mbControl o cmd = some r) :
    ∃ object, k.reset o cmd object = some r := by
  unfold mbControl at hr
  split at hr
  · exact ⟨_, hr⟩
  · cases hr

theorem reset_of_mqControl {cmd : Int} (hr : k.mqControl o cmd = some r) :
    ∃ object, k.reset o cmd object = some r := by
  unfold mqControl at hr
  split at hr
  · exact ⟨_, hr⟩
  · cases hr

/-! ## The pieces that start none -/

/-- Waking the head of a list starts no timer. -/
theorem resume_calm {list : Nat} (hk : k.resume list = some k') : Calm k k' := by
  obtain ⟨s, hs, rfl⟩ := Option.map_eq_some_iff.mp hk
  unfold ipcListResume at hs
  split at hs
  · cases hs
    exact ⟨calm_resume k.sched _, rfl⟩
  · cases hs

theorem wake_calm {list : Nat} (hr : k.wake list = some r) : Calm k r.1 := by
  unfold wake at hr
  split at hr
  · obtain ⟨k', hk', rfl⟩ := Option.map_eq_some_iff.mp hr
    exact resume_calm hk'
  · cases hr
    exact ⟨.refl _, rfl⟩

/-- The induction is on the fuel; each turn resumes one thread. -/
theorem resumeAll_calm {list fuel : Nat} (hk : resumeAll list fuel k = some k') :
    Calm k k' := by
  induction fuel generalizing k with
  | zero => cases hk
  | succ fuel ih =>
    unfold resumeAll at hk
    split at hk
    next u _ =>
      have hresume : Calm k (k.resumeFailed u) := ⟨calm_resume k.sched u, rfl⟩
      exact hresume.trans (ih hk)
    next =>
      split at hk
      · cases hk
        exact ⟨.refl _, rfl⟩
      · cases hk

theorem resumeLists_calm {lists : List Nat} {fuel : Nat}
    (hk : lists.foldlM (fun k list => resumeAll list fuel k) k = some k') :
    Calm k k' := by
  induction lists generalizing k with
  | nil =>
    cases hk
    exact ⟨.refl _, rfl⟩
  | cons list lists ih =>
    rw [List.foldlM_cons] at hk
    obtain ⟨m, hm, hk⟩ := Option.bind_eq_some_iff.mp hk
    exact (resumeAll_calm hm).trans (ih hk)

theorem reset_calm {cmd : Int} {object : IpcObject n} (hr : k.reset o cmd object = some r) :
    Calm k r.1 := by
  unfold reset at hr
  split at hr
  · obtain ⟨k', hk', rfl⟩ := Option.map_eq_some_iff.mp hr
    exact Calm.trans (resumeLists_calm hk') ⟨.refl _, rfl⟩
  · cases hr
    exact ⟨.refl _, rfl⟩

theorem detach_calm {lists : List Nat} (hr : k.detach o lists = some r) :
    Calm k r.1 := by
  unfold detach at hr
  split at hr
  · cases hr
    exact ⟨.refl _, rfl⟩
  · split at hr
    · cases hr
      exact ⟨calm_resume k.sched _, rfl⟩
    · cases hr
      exact ⟨.refl _, rfl⟩

theorem semRelease_calm (hr : k.semRelease o = some r) : Calm k r.1 := by
  unfold semRelease at hr
  split at hr
  · split at hr
    · exact wake_calm hr
    · cases hr
      exact ⟨.refl _, rfl⟩
  · cases hr

theorem lend_calm (u : Fin n) : Calm k (k.lend t u) := by
  unfold lend
  split
  · exact ⟨calm_changePriority k.sched u _, rfl⟩
  · exact ⟨.refl _, rfl⟩

theorem restore_calm (p : Priority) : Calm k (k.restore t p) := by
  unfold restore
  split
  · exact ⟨calm_changePriority k.sched t p, rfl⟩
  · exact ⟨.refl _, rfl⟩

/-- `rt_mutex_release` starts no timer, with the priority that it sets back. -/
theorem mutexRelease_calm (hr : k.mutexRelease t o = some r) : Calm k r.1 := by
  unfold mutexRelease at hr
  split at hr
  next value owner originalPriority hold _ =>
    split at hr
    · cases hr
      exact ⟨.refl _, rfl⟩
    · split at hr
      · cases hr
        exact ⟨.refl _, rfl⟩
      · dsimp only at hr
        have hrestore := restore_calm (k := k) (t := t) originalPriority
        split at hr
        · exact ⟨hrestore.timers.trans (wake_calm hr).timers,
            (wake_calm hr).tick.trans hrestore.tick⟩
        · cases hr
          exact ⟨hrestore.timers, hrestore.tick⟩
  next => cases hr

/-- The induction is on the fuel; each step resumes the thread or passes it. -/
theorem sendWalk_calm {fuel : Nat} {a : ListHead ⊕ Fin n} {needSchedule needed : Bool}
    (hk : sendWalk o fuel k a needSchedule = some (k', needed)) : Calm k k' := by
  induction fuel generalizing k a needSchedule with
  | zero => cases hk
  | succ fuel ih =>
    cases a with
    | inl g =>
      obtain ⟨-, hk⟩ := Option.ite_none_right_eq_some.mp hk
      cases hk
      exact ⟨.refl _, rfl⟩
    | inr u =>
      unfold sendWalk at hk
      dsimp only at hk
      split at hk
      next set _ =>
        split at hk
        · have hreceive : Calm k (k.receive o u set) := ⟨calm_resume k.sched u, rfl⟩
          exact hreceive.trans (ih hk)
        · exact ih hk
      next => cases hk

/-- `rt_event_send` starts no timer, with all threads that it resumes. -/
theorem eventSend_calm {set : BitVec 32} (hr : k.eventSend o set = some r) :
    Calm k r.1 := by
  unfold eventSend at hr
  split at hr
  next now _ =>
    split at hr
    · cases hr
      exact ⟨.refl _, rfl⟩
    · obtain ⟨⟨k', needSchedule⟩, hk, rfl⟩ := Option.map_eq_some_iff.mp hr
      have hset := sendWalk_calm hk
      exact ⟨hset.timers, hset.tick⟩
  next => cases hr

theorem finish_calm {call : WaitLoop} (hr : k.finish call = some r) : Calm k r.1 := by
  unfold finish at hr
  split at hr
  · exact ⟨(wake_calm hr).timers, (wake_calm hr).tick⟩
  · exact ⟨(wake_calm hr).timers, (wake_calm hr).tick⟩
  · cases hr
    exact ⟨.refl _, rfl⟩
  · cases hr

theorem mqSend_calm {size : Nat} (hr : k.mqSend o size = some r) : Calm k r.1 := by
  unfold mqSend at hr
  split at hr
  · split at hr
    · cases hr
      exact ⟨.refl _, rfl⟩
    · cases hr
      exact ⟨.refl _, rfl⟩
  · cases hr

theorem exit_calm : Calm k (k.exit t) := by
  unfold exit
  dsimp only
  split
  · exact ⟨calm_ended k.sched t, rfl⟩
  · exact ⟨(calm_ended k.sched t).trans (calm_of_thread rfl), rfl⟩

theorem exitCritical_calm : Calm k k.exitCritical.1 := by
  unfold exitCritical
  dsimp only
  split
  · exact ⟨.refl _, rfl⟩
  · exact ⟨.refl _, rfl⟩

theorem startup_calm (u : Fin n) : Calm k (k.startup u) :=
  ⟨(calm_setThread (x := prepared (k.sched.thread u)) id).trans (calm_resume _ u), rfl⟩

/-! ## The pieces that wait -/

/-- A thread that is suspended has its timer started where its time is positive. -/
theorem suspendIn_starts {list : Nat} {flag : IpcFlag} {time : BitVec 32} {next : CallPlace}
    (hr : k.suspendIn t list flag time next = some r) :
    Starts k r.1 t (0 < time.toInt) := by
  obtain ⟨s, hs, rfl⟩ := Option.map_eq_some_iff.mp hr
  have hcalm := calm_ipcListSuspend hs
  dsimp only
  split
  next htime =>
    refine ⟨fun u hu => ?_, fun _ => ?_, rfl⟩
    · by_cases hut : u = t
      · exact .inr ⟨hut, htime⟩
      · rw [setTimer, setThread_of_ne hut] at hu
        exact .inl (hcalm u hu)
    · rw [setTimer, setThread_self]
  next htime => exact Calm.starts ⟨hcalm, rfl⟩ htime

/-- `rt_sem_take` starts the timer where it waits. -/
theorem semTake_starts {time : BitVec 32} (hr : k.semTake flag inThread t o time = some r) :
    Starts k r.1 t (k.waits t (.semTake o time) = true ∧ 0 < time.toInt) := by
  unfold semTake at hr
  split at hr
  next value hobject =>
    have hwaits : k.waits t (.semTake o time) = decide (¬0 < value ∧ time ≠ 0) := by
      rw [waits, hobject]
    rw [hwaits]
    split at hr
    next hvalue =>
      cases hr
      exact Calm.starts ⟨.refl _, rfl⟩ fun h => (of_decide_eq_true h.1).1 hvalue
    next hvalue =>
      split at hr
      next htime =>
        cases hr
        exact Calm.starts ⟨.refl _, rfl⟩ fun h => (of_decide_eq_true h.1).2 htime
      next htime =>
        obtain ⟨-, hr⟩ := Option.ite_none_right_eq_some.mp hr
        exact (suspendIn_starts (k := k.setError t rtEok) hr).behind ⟨.refl _, rfl⟩
          ⟨fun h => ⟨decide_eq_true ⟨hvalue, htime⟩, h⟩, And.right⟩
  next => cases hr

theorem mutexTake_starts {time : BitVec 32} (hr : k.mutexTake flag t o time = some r) :
    Starts k r.1 t (k.waits t (.mutexTake o time) = true ∧ 0 < time.toInt) := by
  unfold mutexTake at hr
  split at hr
  next value owner originalPriority hold hobject =>
    have hwaits : k.waits t (.mutexTake o time) =
        decide (owner ≠ some t ∧ ¬0 < value ∧ time ≠ 0) := by
      rw [waits, hobject]
    rw [hwaits]
    dsimp only at hr
    split at hr
    next howner =>
      cases hr
      exact Calm.starts ⟨.refl _, rfl⟩ fun h => (of_decide_eq_true h.1).1 howner
    next howner =>
      split at hr
      next hvalue =>
        cases hr
        exact Calm.starts ⟨.refl _, rfl⟩ fun h => (of_decide_eq_true h.1).2.1 hvalue
      next hvalue =>
        split at hr
        next htime =>
          cases hr
          exact Calm.starts ⟨.refl _, rfl⟩ fun h => (of_decide_eq_true h.1).2.2 htime
        next htime =>
          obtain ⟨u, -, hr⟩ := Option.bind_eq_some_iff.mp hr
          have hlend := lend_calm (k := k.setError t rtEok) (t := t) u
          exact (suspendIn_starts hr).behind ⟨hlend.timers, hlend.tick⟩
            ⟨fun h => ⟨decide_eq_true ⟨howner, hvalue, htime⟩, h⟩, And.right⟩
  next => cases hr

theorem eventRecv_starts {set : BitVec 32} {option : BitVec 8} {timeout : BitVec 32}
    (hr : k.eventRecv flag t o set option timeout = some r) :
    Starts k r.1 t
      (k.waits t (.eventRecv o set option timeout) = true ∧ 0 < timeout.toInt) := by
  unfold eventRecv at hr
  split at hr
  next now hobject =>
    have hwaits : k.waits t (.eventRecv o set option timeout) =
        decide (set ≠ 0 ∧ ¬eventSatisfied now set option ∧ timeout ≠ 0) := by
      rw [waits, hobject]
    rw [hwaits]
    dsimp only at hr
    split at hr
    next hset =>
      cases hr
      exact Calm.starts ⟨.refl _, rfl⟩ fun h => (of_decide_eq_true h.1).1 hset
    next hset =>
      split at hr
      next hsatisfied =>
        cases hr
        exact Calm.starts ⟨.refl _, rfl⟩ fun h => (of_decide_eq_true h.1).2.1 hsatisfied
      next hsatisfied =>
        split at hr
        next htimeout =>
          cases hr
          exact Calm.starts ⟨.refl _, rfl⟩ fun h => (of_decide_eq_true h.1).2.2 htimeout
        next htimeout =>
          exact (suspendIn_starts (k := (k.setError t rtEok).expect t set option) hr).behind
            ⟨.refl _, rfl⟩ ⟨fun h => ⟨decide_eq_true ⟨hset, hsatisfied, htimeout⟩, h⟩, And.right⟩
  next => cases hr

theorem pass_starts {call : WaitLoop} (hr : k.pass flag inThread t call = some r) :
    Starts k r.1 t (k.waitsIn call = true ∧ 0 < call.wait.timeout.toInt) := by
  unfold pass at hr
  unfold waitsIn
  split at hr
  next hblocks =>
    split at hr
    next htimeout =>
      cases hr
      refine Calm.starts ⟨.refl _, rfl⟩ fun h => ?_
      exact of_decide_eq_true (Bool.and_eq_true_iff.mp h.1).2 htimeout
    next htimeout =>
      obtain ⟨-, hr⟩ := Option.ite_none_right_eq_some.mp hr
      exact (suspendIn_starts (k := k.setError t rtEok) hr).behind ⟨.refl _, rfl⟩
        ⟨fun h => ⟨Bool.and_eq_true_iff.mpr ⟨hblocks, decide_eq_true htimeout⟩, h⟩, And.right⟩
  next hblocks =>
    exact (finish_calm hr).starts fun h => hblocks (Bool.and_eq_true_iff.mp h.1).1

theorem enter_starts {call : WaitLoop} (hr : k.enter flag inThread t call = some r) :
    Starts k r.1 t (k.waitsIn call = true ∧ 0 < call.wait.timeout.toInt) := by
  unfold enter at hr
  split at hr
  next hfull =>
    cases hr
    refine Calm.starts ⟨.refl _, rfl⟩ fun h => ?_
    exact of_decide_eq_true (Bool.and_eq_true_iff.mp h.1).2 hfull.2
  next => exact pass_starts hr

theorem again_starts {call : WaitLoop} (hr : k.again flag inThread t call = some r) :
    Starts k r.1 t (k.error t = rtEok ∧
      k.waitsIn { call with wait := call.wait.recalculated k.tick } = true ∧
      0 < (call.wait.recalculated k.tick).timeout.toInt) := by
  unfold again at hr
  split at hr
  next herror =>
    cases hr
    exact Calm.starts ⟨.refl _, rfl⟩ fun h => herror h.1
  next herror =>
    exact (pass_starts hr).behind (.refl k) ⟨fun h => ⟨not_not.mp herror, h⟩, And.right⟩

/-- `RT_IPC_CMD_RESET` and the other calls that wait for nothing. -/
theorem Calm.starts_of_time {time : BitVec 32} {p : Prop} (h : Calm k k') (hzero : time = 0) :
    Starts k k' t (p ∧ 0 < time.toInt) := by
  refine h.starts fun hmay => ?_
  rw [hzero] at hmay
  exact absurd hmay.2 (by decide)

/-- The first piece of a call. -/
theorem call_starts {c : IpcCall n} (hclock : (IpcAction.call c).ofClock = false)
    (hr : k.call flag inThread t c = some r) :
    Starts k r.1 t (k.waits t c = true ∧ 0 < c.time.toInt) := by
  cases c with
  | semTake o time => exact semTake_starts hr
  | semRelease o => exact (semRelease_calm hr).starts_of_time rfl
  | semControl o cmd arg =>
    obtain ⟨object, hr⟩ := reset_of_semControl hr
    exact (reset_calm hr).starts_of_time rfl
  | mutexTake o time =>
    obtain ⟨-, hr⟩ := Option.ite_none_right_eq_some.mp hr
    exact mutexTake_starts hr
  | mutexRelease o =>
    obtain ⟨-, hr⟩ := Option.ite_none_right_eq_some.mp hr
    exact (mutexRelease_calm hr).starts_of_time rfl
  | mutexControl o cmd =>
    cases hr
    exact (Calm.refl k).starts_of_time rfl
  | eventSend o set => exact (eventSend_calm hr).starts_of_time rfl
  | eventRecv o set option timeout =>
    obtain ⟨-, hr⟩ := Option.ite_none_right_eq_some.mp hr
    exact eventRecv_starts hr
  | eventControl o cmd =>
    obtain ⟨object, hr⟩ := reset_of_eventControl hr
    exact (reset_calm hr).starts_of_time rfl
  | mbSendWait o timeout => exact enter_starts hr
  | mbRecv o timeout => exact enter_starts hr
  | mbControl o cmd =>
    obtain ⟨object, hr⟩ := reset_of_mbControl hr
    exact (reset_calm hr).starts_of_time rfl
  | mqSend o size => exact (mqSend_calm hr).starts_of_time rfl
  | mqRecv o timeout => exact enter_starts hr
  | mqControl o cmd =>
    obtain ⟨object, hr⟩ := reset_of_mqControl hr
    exact (reset_calm hr).starts_of_time rfl
  | detach o =>
    obtain ⟨-, hr⟩ := Option.ite_none_left_eq_some.mp hr
    cases hr
    exact (Calm.refl k).starts_of_time rfl
  | startup u =>
    obtain ⟨-, hr⟩ := Option.ite_none_right_eq_some.mp hr
    cases hr
    exact (startup_calm u).starts_of_time rfl
  | delete u =>
    obtain ⟨-, hr⟩ := Option.ite_none_right_eq_some.mp hr
    cases hr
    exact Calm.starts_of_time ⟨calm_delete k.sched u, rfl⟩ rfl
  | suspend =>
    obtain ⟨-, hr⟩ := Option.ite_none_right_eq_some.mp hr
    cases hr
    exact Calm.starts_of_time ⟨calm_suspend k.sched t, rfl⟩ rfl
  | resume u =>
    cases hr
    exact Calm.starts_of_time ⟨calm_resume k.sched u, rfl⟩ rfl
  | sleep => cases hclock
  | exit =>
    obtain ⟨-, hr⟩ := Option.ite_none_right_eq_some.mp hr
    cases hr
    exact exit_calm.starts_of_time rfl
  | yield =>
    cases hr
    exact (Calm.refl k).starts_of_time rfl
  | enterCritical =>
    cases hr
    exact Calm.starts_of_time ⟨.refl _, rfl⟩ rfl
  | exitCritical =>
    cases hr
    exact exitCritical_calm.starts_of_time rfl
  | tick => cases hclock
  | timeout u => cases hclock

/-- `rt_thread_sleep`. -/
theorem sleep_starts (hr : k.call flag inThread t .sleep = some r) : Starts k r.1 t True := by
  obtain ⟨-, hr⟩ := Option.ite_none_right_eq_some.mp hr
  cases hr
  refine ⟨fun u hu => ?_, fun _ => ?_, rfl⟩
  · by_cases hut : u = t
    · exact .inr ⟨hut, trivial⟩
    · dsimp only at hu
      rw [setTimer, setThread_of_ne hut] at hu
      exact .inl (calm_suspend k.sched t u hu)
  · dsimp only
    rw [setTimer, setThread_self]

/-- The next piece of a call that does not look again. -/
theorem goOn_calm {place : CallPlace} (hplace : ∀ call, place ≠ .look call)
    (hr : k.goOn flag inThread t place = some r) : Calm k r.1 := by
  cases place with
  | out => cases hr
  | schedule next =>
    obtain ⟨sched, hsched, rfl⟩ := Option.map_eq_some_iff.mp hr
    exact ⟨calm_schedule hsched, rfl⟩
  | slept =>
    cases hr
    dsimp only
    split <;> exact ⟨.refl _, rfl⟩
  | look call => exact absurd rfl (hplace call)
  | linking o =>
    change k.link o = some r at hr
    unfold link at hr
    split at hr
    · exact ⟨(wake_calm hr).timers, (wake_calm hr).tick⟩
    · cases hr
  | puttingBack o =>
    change k.putBack o = some r at hr
    unfold putBack at hr
    split at hr
    · cases hr
      exact ⟨.refl _, rfl⟩
    · cases hr
  | detaching o lists => exact detach_calm hr
  | ended => cases hr

end IpcState

namespace IpcSystem

variable {flag : Nat → IpcFlag} {s s' : IpcSystem n} {t u : Fin n}

/-- Of the timers a step starts only the one of `start`, and the clock stays. -/
structure Follows (s s' : IpcSystem n) (start : Option (Fin n × BitVec 32)) : Prop where
  others : ∀ u, s'.timed u = true → s.timed u = true ∨ ∃ time, start = some (u, time)
  self : ∀ u time, start = some (u, time) → s'.timed u = true
  tick : s'.state.tick = s.state.tick

theorem follows_of_calm (h : s.state.Calm s'.state) : Follows s s' none :=
  ⟨fun u hu => .inl (h.timers u hu), fun u time hstart => (by cases hstart), h.tick⟩

theorem follows_of_starts {r : IpcResult n} {may : Prop} [Decidable may] {time : BitVec 32}
    (h : s.state.Starts r.1 t may) :
    Follows s (s.comesTo t r) ((if may then some time else none).map (t, ·)) := by
  rcases h with ⟨hothers, hself, htick⟩
  rw [← comesTo_state s t r] at hothers hself htick
  refine ⟨fun u hu => ?_, fun u time' hstart => ?_, htick⟩
  · refine (hothers u hu).imp_right fun ⟨hut, hmay⟩ => ⟨time, ?_⟩
    rw [if_pos hmay, hut]
    rfl
  · obtain ⟨x, hx, heq⟩ := Option.map_eq_some_iff.mp hstart
    cases heq
    exact hself (Option.ite_none_right_eq_some.mp hx).1

/-- Every step without the clock starts what `startTime` says. -/
theorem follows_step {a : IpcAction n} (hclock : a.ofClock = false)
    (hs : s.step flag a = some s') :
    Follows s s' (s.state.sched.current.bind fun t => (s.startTime t a).map (t, ·)) := by
  cases a with
  | startup u =>
    obtain ⟨⟨hcur, -⟩, hs⟩ := Option.ite_none_right_eq_some.mp hs
    cases hs
    rw [hcur]
    exact follows_of_calm (IpcState.startup_calm u)
  | schedulerStart =>
    obtain ⟨hcur, hs⟩ := Option.ite_none_right_eq_some.mp hs
    obtain ⟨sched, hstart, rfl⟩ := Option.map_eq_some_iff.mp hs
    obtain ⟨⟨p, u⟩, -, rfl⟩ := Option.map_eq_some_iff.mp hstart
    rw [hcur]
    exact follows_of_calm ⟨Sched.calm_removeThread { s.state.sched with current := some u } u, rfl⟩
  | interrupt =>
    obtain ⟨t, hcur, rfl⟩ := Option.map_eq_some_iff.mp hs
    rw [hcur]
    exact follows_of_calm ⟨.refl _, rfl⟩
  | leave =>
    change s.leave = some s' at hs
    have hstate : s'.state = s.state := by
      unfold IpcSystem.leave at hs
      split at hs <;> cases hs
      rfl
    cases hcur : s.state.sched.current <;>
      exact follows_of_calm (by rw [hstate]; exact .refl _)
  | call c =>
    obtain ⟨t, hcur, hs⟩ := Option.bind_eq_some_iff.mp hs
    obtain ⟨-, hs⟩ := Option.ite_none_right_eq_some.mp hs
    obtain ⟨r, hr, rfl⟩ := Option.map_eq_some_iff.mp hs
    rw [hcur]
    exact follows_of_starts (IpcState.call_starts hclock hr)
  | goOn =>
    obtain ⟨t, hcur, hs⟩ := Option.bind_eq_some_iff.mp hs
    obtain ⟨r, hr, rfl⟩ := Option.map_eq_some_iff.mp hs
    rw [hcur, Option.bind_some, startTime]
    split
    next call hcontext =>
      rw [hcontext] at hr
      exact follows_of_starts (IpcState.again_starts hr)
    next hcontext =>
      have hcalm := IpcState.goOn_calm (fun call heq => hcontext call heq) hr
      rw [← comesTo_state s t r] at hcalm
      exact follows_of_calm hcalm

/-- `rt_thread_sleep` starts the timer of its caller. -/
theorem follows_sleep {tick : BitVec 32} (hs : s.step flag (.call .sleep) = some s') :
    Follows s s' (s.state.sched.current.map (·, tick)) := by
  obtain ⟨t, hcur, hs⟩ := Option.bind_eq_some_iff.mp hs
  obtain ⟨-, hs⟩ := Option.ite_none_right_eq_some.mp hs
  obtain ⟨r, hr, rfl⟩ := Option.map_eq_some_iff.mp hs
  rw [hcur]
  have hfollows :
      Follows s (s.comesTo t r) ((if True then some tick else none).map (t, ·)) :=
    follows_of_starts (IpcState.sleep_starts hr)
  rwa [if_pos trivial] at hfollows

end IpcSystem

end RtVcom.Kernel
