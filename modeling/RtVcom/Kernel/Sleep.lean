import RtVcom.Kernel.Running
import RtVcom.Kernel.SchedulerRun
import RtVcom.Kernel.TimerOrder

/-!
# Sleeping threads

`rt_thread_sleep` from end to end: it suspends the running thread and starts its timer, the tick
finds the timer expired, `rt_thread_timeout` makes the thread ready, and `rt_schedule` takes the
most urgent thread that is. The scheduler is the one of `Scheduler` with its linked lists and its
bitmap, and the timers are those of `TimerOrder` with a tick that wraps; thread `t` has timer `t`
as its `thread_timer`.

Beside them stands what they are for (`Sleepers`): a thread is awake or asleep until a tick, and
time goes on.

**The law** (`sleepers_on_time`): threads are ready exactly while they are awake, so that a sleeper
becomes ready in the tick it sleeps until and no other, unless it is resumed before; nobody sleeps
longer; the thread that runs is awake and none of those that are is more urgent; and no call and no
tick comes to a point where the kernel has no thread to take. It asks for an idle thread that is
started and never sleeps.
-/

namespace RtVcom.Kernel

open RtVcom.Lib

/-! ## What sleeping is -/

/-- Not started, awake, asleep until a tick, or suspended until another thread resumes it. -/
inductive Doze
  | fresh
  | awake
  | asleep (wake : Nat)
  | held
deriving Repr, DecidableEq

/-- The threads, and a time that does not wrap. -/
structure Sleepers (n : Nat) where
  now : Nat
  doze : Fin n → Doze

/-- The calls of the threads and the interrupts. -/
inductive SleepAction (n : Nat)
  | startup (t : Fin n)
  | schedulerStart
  | sleep (tick : BitVec 32)
  | suspend
  | resume (t : Fin n)
  | yield
  | tick
deriving Repr, DecidableEq

variable {n : Nat}

namespace Sleepers

def put (s : Sleepers n) (t : Fin n) (doze : Doze) : Sleepers n :=
  { s with doze := Function.update s.doze t doze }

/-- What a call does, where `current` is the thread that runs. A thread that sleeps for no tick
sleeps until the next. -/
def next (s : Sleepers n) (current : Option (Fin n)) : SleepAction n → Sleepers n
  | .startup t => s.put t .awake
  | .sleep tick => current.elim s fun t => s.put t (.asleep (s.now + max 1 tick.toNat))
  | .suspend => current.elim s fun t => s.put t .held
  | .resume t => if s.doze t = .fresh then s else s.put t .awake
  | .tick =>
    { now := s.now + 1
      doze := fun t => if s.doze t = .asleep (s.now + 1) then .awake else s.doze t }
  | .schedulerStart | .yield => s

end Sleepers

/-! ## The kernel -/

/-- `rt_timer_check` for the thread timers: `rt_thread_timeout` is the function of each. -/
def checkThreads : Nat → Sched n → TimerRun → Option (Sched n × TimerRun)
  | 0, sched, run => some (sched, run)
  | fuel + 1, sched, run =>
    match run.sys.list with
    | [] => some (sched, run)
    | t :: _ =>
      if run.sys.expired t then
        if h : t < n then
          (sched.timeout ⟨t, h⟩).bind fun sched => checkThreads fuel sched ((run.call t).settle t)
        else none
      else some (sched, run)

/-- The timers in the next tick. -/
def TimerRun.ticked (run : TimerRun) : TimerRun :=
  { run with sys := { run.sys with tick := run.sys.tick + 1 }, now := run.now + 1 }

/-- The scheduler and the timers behind a call. `rt_thread_resume`, `rt_thread_suspend` and
`rt_thread_yield` come with the `rt_schedule` that their callers make. -/
def performSleep (sched : Sched n) (run : TimerRun) :
    SleepAction n → Option (Sched n × TimerRun)
  | .startup t =>
    if (sched.thread t).stat = .init then (sched.startup t).map (·, run.stop t) else none
  | .schedulerStart =>
    if sched.current = none then sched.schedulerStart.map (·, run) else none
  | .sleep tick => sched.current.bind fun t =>
    if tick.toNat < rtTickMax / 2 then
      (sched.sleep t).map (·, ((run.stop t).control t (.setTime tick)).start t)
    else none
  | .suspend => sched.current.bind fun t =>
    (sched.suspend t).1.schedule.map (·, run.stop t)
  | .resume t => sched.current.bind fun _ =>
    (sched.resume t).1.schedule.map
      (·, if (sched.thread t).stat = .suspend then run.stop t else run)
  | .yield => sched.current.bind fun _ => sched.schedule.map (·, run)
  | .tick => sched.current.bind fun t => (sched.tickIncrease t).bind fun sched =>
    checkThreads run.sys.list.length sched run.ticked

/-- The kernel, and what it is for. -/
structure SleepSystem (n : Nat) where
  sched : Sched n
  run : TimerRun
  sleepers : Sleepers n

/-- Threads after `rt_thread_init`, at any tick, and every sequence of calls and ticks. -/
def sleepMachine (spec : Fin n → ThreadSpec) (tick : BitVec 32) :
    Machine (SleepSystem n) (SleepAction n) where
  init :=
    { sched := Sched.init fun t =>
        rtThreadInit (spec t).priority (spec t).tick (spec t).systemobject (spec t).cleanup
      run := (timerMachine tick (fun _ => 0) fun _ => false).init
      sleepers := { now := 0, doze := fun _ => .fresh } }
  step s action := (performSleep s.sched s.run action).map fun (sched, run) =>
    { sched, run, sleepers := s.sleepers.next s.sched.current action }

/-- The idle thread is ready before the scheduler starts, and it does not sleep. -/
def LeavesIdle (idle : Fin n) (s : SleepSystem n) : SleepAction n → Prop
  | .schedulerStart => (s.sched.thread idle).stat = .ready
  | .sleep _ | .suspend => s.sched.current ≠ some idle
  | _ => True

instance (idle : Fin n) : DecidableRel (LeavesIdle idle) := fun s action => by
  cases action <;> unfold LeavesIdle <;> infer_instance

/-- What the source asks of a call: threads are started once and the scheduler too, thread calls
are made by a thread, and nobody sleeps for half the range of the tick. -/
def SleepSystem.Allows (s : SleepSystem n) : SleepAction n → Prop
  | .startup t => (s.sched.thread t).stat = .init
  | .schedulerStart => s.sched.current = none
  | .sleep tick => s.sched.current ≠ none ∧ tick.toNat < rtTickMax / 2
  | _ => s.sched.current ≠ none

/-! ## The invariant -/

/-- The doze of a thread, as its state and its timer say. -/
def dozeOf (x : Tcb) (alarm : Option Alarm) : Doze :=
  match x.stat with
  | .init => .fresh
  | .ready => .awake
  | _ => alarm.elim .held fun a => .asleep a.due

/-- The timers are those of the threads that sleep. -/
structure Asleep (base : BitVec 32) (late : Nat) (spec : Fin n → ThreadSpec) (sched : Sched n)
    (run : TimerRun) : Prop where
  armed : Armed base late run
  logged : Logged run
  oneshot : ∀ t, (run.sys.timer t).periodic = false
  threads : ∀ t a, run.alarm t = some a → t < n
  timed : ∀ t : Fin n, (sched.thread t).timer = (run.alarm t).isSome
  waits : ∀ t, (sched.thread t).timer = true → (sched.thread t).stat = .suspend
  alive : ∀ t, (sched.thread t).stat ≠ .close
  priority : ∀ t, (sched.thread t).currentPriority = (spec t).priority ∧
    (sched.thread t).initPriority = (spec t).priority
  unlocked : sched.lockNest = 0

/-- Before the scheduler is started nobody runs; then somebody does, and need not give way. -/
def Sched.Rests (s : Sched n) (idle : Fin n) : Prop :=
  (s.current = none ∧ ∃ q, Sched.SchedInv s q) ∨
    (∃ t, Sched.Held s t false) ∧ (s.thread idle).stat = .ready

/-- The invariant of a run. -/
structure SleepSystem.Keeps (base : BitVec 32) (spec : Fin n → ThreadSpec) (idle : Fin n)
    (s : SleepSystem n) : Prop where
  asleep : Asleep base 0 spec s.sched s.run
  rests : s.sched.Rests idle
  now : s.sleepers.now = s.run.now
  doze : ∀ t, s.sleepers.doze t = dozeOf (s.sched.thread t) (s.run.alarm t)

variable {base : BitVec 32} {late : Nat} {spec : Fin n → ThreadSpec} {sched sched' : Sched n}
  {run run' : TimerRun} {idle t u : Fin n}

/-! ## One thread at a time -/

namespace Asleep

/-- A call changes the record and the alarm of one thread. -/
theorem touch (h : Asleep base late spec sched run) {x : Tcb} {alarm : Option Alarm}
    (hthread : sched'.thread = Function.update sched.thread t x)
    (hlock : sched'.lockNest = sched.lockNest)
    (halarm : run'.alarm = Function.update run.alarm t alarm)
    (harmed : Armed base late run') (hlogged : Logged run')
    (honeshot : ∀ t, (run'.sys.timer t).periodic = false) (htimed : x.timer = alarm.isSome)
    (hwaits : x.timer = true → x.stat = .suspend) (halive : x.stat ≠ .close)
    (hpriority : x.currentPriority = (spec t).priority ∧ x.initPriority = (spec t).priority) :
    Asleep base late spec sched' run' := by
  have hself : sched'.thread t = x := by rw [hthread, Function.update_self]
  have hother (u : Fin n) (hu : u ≠ t) : sched'.thread u = sched.thread u := by
    rw [hthread, Function.update_of_ne hu]
  have hne {u : Fin n} (hu : u ≠ t) : u.val ≠ t.val := fun heq => hu (Fin.ext heq)
  constructor
  case armed => exact harmed
  case logged => exact hlogged
  case oneshot => exact honeshot
  case threads =>
    intro u a hu
    by_cases hut : u = t.val
    · rw [hut]
      exact t.isLt
    · rw [halarm, Function.update_of_ne hut] at hu
      exact h.threads u a hu
  case timed =>
    intro u
    by_cases hut : u = t
    · subst hut
      rw [hself, halarm, Function.update_self, htimed]
    · rw [hother u hut, halarm, Function.update_of_ne (hne hut)]
      exact h.timed u
  case waits =>
    intro u
    by_cases hut : u = t
    · subst hut
      rw [hself]
      exact hwaits
    · rw [hother u hut]
      exact h.waits u
  case alive =>
    intro u
    by_cases hut : u = t
    · subst hut
      rw [hself]
      exact halive
    · rw [hother u hut]
      exact h.alive u
  case priority =>
    intro u
    by_cases hut : u = t
    · subst hut
      rw [hself]
      exact hpriority
    · rw [hother u hut]
      exact h.priority u
  case unlocked => rw [hlock, h.unlocked]

/-- The records are the same. -/
theorem congr (h : Asleep base late spec sched run)
    (hthread : ∀ t, (sched'.thread t).stat = (sched.thread t).stat ∧
      (sched'.thread t).timer = (sched.thread t).timer ∧
      (sched'.thread t).currentPriority = (sched.thread t).currentPriority ∧
      (sched'.thread t).initPriority = (sched.thread t).initPriority)
    (hlock : sched'.lockNest = sched.lockNest) : Asleep base late spec sched' run where
  armed := h.armed
  logged := h.logged
  oneshot := h.oneshot
  threads := h.threads
  timed t := by rw [(hthread t).2.1, h.timed t]
  waits t := by
    rw [(hthread t).1, (hthread t).2.1]
    exact h.waits t
  alive t := by
    rw [(hthread t).1]
    exact h.alive t
  priority t := by
    rw [(hthread t).2.2.1, (hthread t).2.2.2]
    exact h.priority t
  unlocked := by rw [hlock, h.unlocked]

end Asleep

/-- A change of one thread is one of its own state only. -/
theorem dozeOf_update {x : Tcb} {alarm : Option Alarm}
    (hthread : sched'.thread = Function.update sched.thread t x)
    (halarm : run'.alarm = Function.update run.alarm t alarm) (u : Fin n) :
    dozeOf (sched'.thread u) (run'.alarm u) =
      Function.update (fun u => dozeOf (sched.thread u) (run.alarm u)) t (dozeOf x alarm) u := by
  by_cases hut : u = t
  · subst hut
    rw [hthread, halarm, Function.update_self, Function.update_self, Function.update_self]
  · have hne : u.val ≠ t.val := fun heq => hut (Fin.ext heq)
    rw [hthread, halarm, Function.update_of_ne hut, Function.update_of_ne hne,
      Function.update_of_ne hut]

/-- A thread is awake where it is ready. -/
theorem dozeOf_eq_awake_iff {x : Tcb} {alarm : Option Alarm} :
    dozeOf x alarm = .awake ↔ x.stat = .ready := by
  unfold dozeOf
  cases x.stat <;> cases alarm <;> simp

theorem dozeOf_eq_fresh_iff {x : Tcb} {alarm : Option Alarm} :
    dozeOf x alarm = .fresh ↔ x.stat = .init := by
  unfold dozeOf
  cases x.stat <;> cases alarm <;> simp

namespace Sched

variable {s s' : Sched n}

/-- What `rt_thread_suspend` makes of the records. -/
theorem suspend_thread (h : (s.thread t).stat = .ready) :
    (s.suspend t).1.thread =
      Function.update s.thread t { s.thread t with stat := .suspend, timer := false } := by
  rw [suspend_of_ready h, setTimer, setThread, removeThread_thread, setStat, setThread_self]
  exact Function.update_idem ..

theorem sleep_thread (h : (s.thread t).stat = .ready) :
    ((s.suspend t).1.setTimer t true).thread =
      Function.update s.thread t { s.thread t with stat := .suspend, timer := true } := by
  rw [setTimer, setThread, suspend_thread h, Function.update_self]
  exact Function.update_idem ..

theorem woken_thread (s : Sched n) (t : Fin n) : (s.woken t).thread =
    Function.update s.thread t { s.thread t with stat := .ready, timer := false } := by
  funext u
  by_cases hut : u = t
  · subst hut
    rw [woken_self, Function.update_self]
  · rw [woken_of_ne hut, Function.update_of_ne hut]

/-- A thread that `rt_thread_startup` has resumed. -/
def begun (s : Sched n) (t : Fin n) : Sched n :=
  ((s.setThread t (prepared (s.thread t))).resume t).1

theorem startup_eq (s : Sched n) (t : Fin n) : s.startup t =
    if (s.begun t).current.isSome then (s.begun t).schedule else some (s.begun t) := rfl

/-- A start is a wake-up of a prepared thread. -/
theorem begun_eq (s : Sched n) (t : Fin n) :
    s.begun t = (s.setThread t (prepared (s.thread t))).woken t := by
  have hsuspend : ((s.setThread t (prepared (s.thread t))).thread t).stat = .suspend := by
    rw [setThread_self]
    rfl
  rw [begun, resume_of_suspend hsuspend]

theorem begun_thread (s : Sched n) (t : Fin n) : (s.begun t).thread =
    Function.update s.thread t { prepared (s.thread t) with stat := .ready, timer := false } := by
  rw [begun_eq, woken_thread, setThread_self]
  exact Function.update_idem ..

theorem begun_lockNest (s : Sched n) (t : Fin n) : (s.begun t).lockNest = s.lockNest := by
  rw [begun_eq]
  exact insertThread_lockNest _ t

theorem begun_current (s : Sched n) (t : Fin n) : (s.begun t).current = s.current :=
  resume_current _ t

theorem suspend_lockNest (s : Sched n) (t : Fin n) : (s.suspend t).1.lockNest = s.lockNest := by
  unfold suspend
  split
  · rfl
  · exact removeThread_lockNest _ t

theorem woken_lockNest (s : Sched n) (t : Fin n) : (s.woken t).lockNest = s.lockNest :=
  insertThread_lockNest _ t

/-- `rt_schedule` has a thread to take. -/
theorem Live.scheduled (h : Live s t) :
    ∃ s', s.schedule = some s' ∧ (∃ u, Held s' u false) ∧ s'.thread = s.thread ∧
      s'.lockNest = s.lockNest := by
  obtain ⟨q, hinv⟩ := h.inv
  obtain ⟨s', hs, hscheduled, -⟩ := hinv.schedule h.running
  exact ⟨s', hs, h.schedule hs, hscheduled.thread, hscheduled.lockNest⟩

/-- `rt_thread_timeout` of a thread whose timer was running. -/
theorem Live.timeout (h : Live s t) (htimer : (s.thread u).timer = true) :
    ∃ s', s.timeout u = some s' ∧ (∃ v, Held s' v false) ∧
      s'.thread =
        Function.update s.thread u { s.thread u with stat := .ready, timer := false } ∧
      s'.lockNest = s.lockNest := by
  obtain ⟨s', hs, hheld, hthread, hlock⟩ := (h.woken htimer).scheduled
  refine ⟨s', hs, hheld, hthread.trans (woken_thread s u), hlock.trans (woken_lockNest s u)⟩

/-- Counting the time slice changes nothing else. -/
theorem setTick_record (s : Sched n) (t u : Fin n) (tick : BitVec 32) :
    ((s.setTick t tick).thread u).stat = (s.thread u).stat ∧
      ((s.setTick t tick).thread u).timer = (s.thread u).timer ∧
      ((s.setTick t tick).thread u).currentPriority = (s.thread u).currentPriority ∧
      ((s.setTick t tick).thread u).initPriority = (s.thread u).initPriority := by
  by_cases hut : u = t
  · subst hut
    rw [setTick, setThread_self]
    exact ⟨rfl, rfl, rfl, rfl⟩
  · rw [setTick, setThread_of_ne hut]
    exact ⟨rfl, rfl, rfl, rfl⟩

/-- `rt_tick_increase` counts the slice of the running thread, and has it give way behind it. -/
theorem Held.tickIncrease (h : Held s t false) :
    ∃ s', s.tickIncrease t = some s' ∧ (∃ u, Held s' u false) ∧ s'.lockNest = s.lockNest ∧
      ∀ u, (s'.thread u).stat = (s.thread u).stat ∧ (s'.thread u).timer = (s.thread u).timer ∧
        (s'.thread u).currentPriority = (s.thread u).currentPriority ∧
        (s'.thread u).initPriority = (s.thread u).initPriority := by
  have hcounted := h.toLive.setTick t ((s.thread t).remainingTick - 1)
  have hrecord := s.setTick_record t
  unfold Sched.tickIncrease
  dsimp only
  split
  · obtain ⟨s', hs, hheld, hthread, hlock⟩ := (hcounted.setTick t _).scheduled
    refine ⟨s', hs, hheld, hlock, fun u => ?_⟩
    rw [hthread]
    obtain ⟨hstat, htimer, hcurrent, hinit⟩ :=
      setTick_record (s.setTick t ((s.thread t).remainingTick - 1)) t u _
    obtain ⟨hstat', htimer', hcurrent', hinit'⟩ := hrecord u ((s.thread t).remainingTick - 1)
    exact ⟨hstat.trans hstat', htimer.trans htimer', hcurrent.trans hcurrent',
      hinit.trans hinit'⟩
  · refine ⟨_, rfl, ⟨t, hcounted, fun hlock => ?_⟩, rfl, fun u => hrecord u _⟩
    exact (h.prompt hlock).imp_right fun hsettled =>
      hsettled.congr rfl (fun u => (hrecord u _).1) fun u => (hrecord u _).2.2.1

end Sched

/-! ## The check of the timers -/

/-- An alarm that is found expired is due now. -/
theorem Armed.due_eq (h : Armed base 1 run) {a : Alarm} {t : Nat} (ha : run.alarm t = some a)
    (hexpired : run.sys.expired t = true) : a.due = run.now := by
  have hset := h.alarm t a ha
  have hcome := (h.expired_iff (Nat.le_refl 1) ha).mp hexpired
  have hpending := hset.pending
  have hahead := hset.ahead
  unfold Alarm.deadline at hcome
  unfold Alarm.due at *
  omega

/-- A thread timer is not started again behind its function. -/
theorem settle_oneshot (h : ∀ t, (run.sys.timer t).periodic = false) (t : Nat) :
    (run.call t).settle t =
      { run.call t with sys := (run.sys.remove t).setActivated t false } := by
  have hnot : ¬(((run.call t).sys.timer t).periodic = true ∧
      ((run.call t).sys.timer t).activated = true) := by
    rintro ⟨hperiodic, -⟩
    exact Bool.false_ne_true ((h t).symm.trans hperiodic)
  rw [TimerRun.settle, if_neg hnot]
  rfl

/-- A timer that is taken out stays a one-shot timer. -/
theorem oneshot_setActivated (h : ∀ t, (run.sys.timer t).periodic = false) (t u : Nat) :
    ((((run.sys.remove t).setActivated t false).timer u)).periodic = false := by
  by_cases hut : u = t
  · subst hut
    simp only [TimerSystem.setActivated, TimerSystem.setTimer, TimerSystem.remove,
      Function.update_self]
    exact h u
  · rw [TimerSystem.timer_setActivated_of_ne _ hut]
    exact h u

/-- Nothing was called in a new tick yet. -/
theorem logged_ticked (h : Logged run) : Logged run.ticked where
  due c hc := by
    obtain ⟨a, ha, hdue, hle, hserial⟩ := h.due c hc
    exact ⟨a, ha, hdue, Nat.le_succ_of_le hle, hserial⟩
  ahead c hc hnow := by
    obtain ⟨-, -, -, hle, -⟩ := h.due c hc
    exact absurd hnow (Nat.ne_of_lt (Nat.lt_succ_of_le hle))
  ordered := h.ordered

namespace Asleep

/-- The timeout of the thread at the front. -/
theorem serve (h : Asleep base 1 spec sched run) {rest : List Nat}
    (hlist : run.sys.list = t.val :: rest) (hexpired : run.sys.expired t = true)
    (hthread : sched'.thread =
      Function.update sched.thread t { sched.thread t with stat := .ready, timer := false })
    (hlock : sched'.lockNest = sched.lockNest) :
    Asleep base 1 spec sched' ((run.call t).settle t) ∧
      ((run.call t).settle t).alarm = Function.update run.alarm t none := by
  have halarm : ((run.call t).settle t).alarm = Function.update run.alarm t none := by
    rw [settle_oneshot h.oneshot]
    rfl
  refine ⟨h.touch hthread hlock halarm (h.armed.serve t)
    ((h.logged.call h.armed hlist hexpired).settle t) (fun u => ?_) rfl (fun htimer => ?_)
    (fun hclose => ?_) (h.priority t), halarm⟩
  · rw [settle_oneshot h.oneshot]
    exact oneshot_setActivated h.oneshot t u
  · cases htimer
  · cases hclose

end Asleep

/-- What a check does with a doze: who sleeps until now is awake. -/
def WokenAt (now : Nat) (before after : Doze) : Prop :=
  after = before ∨ before = .asleep now ∧ after = .awake

/-- The check of the timers, by induction on its passes. -/
theorem checkThreads_eq (fuel : Nat) {sched : Sched n} {run : TimerRun}
    (hheld : ∃ t, Sched.Held sched t false) (h : Asleep base 1 spec sched run) :
    ∃ sched', checkThreads fuel sched run = some (sched', run.check fuel) ∧
      (∃ t, Sched.Held sched' t false) ∧ Asleep base 1 spec sched' (run.check fuel) ∧
      ∀ u : Fin n, WokenAt run.now (dozeOf (sched.thread u) (run.alarm u))
        (dozeOf (sched'.thread u) ((run.check fuel).alarm u)) := by
  induction fuel generalizing sched run with
  | zero => exact ⟨sched, rfl, hheld, h, fun u => Or.inl rfl⟩
  | succ fuel ih =>
    unfold checkThreads TimerRun.check
    rcases hlist : run.sys.list with _ | ⟨t, rest⟩
    · exact ⟨sched, rfl, hheld, h, fun u => Or.inl rfl⟩
    dsimp only
    split
    case isFalse => exact ⟨sched, rfl, hheld, h, fun u => Or.inl rfl⟩
    case isTrue hexpired =>
      have hmem : t ∈ run.sys.list := by
        rw [hlist]
        exact List.mem_cons_self
      obtain ⟨a, ha, -⟩ := h.armed.set_of_mem hmem
      have hlt := h.threads t a ha
      have htimer : (sched.thread ⟨t, hlt⟩).timer = true := by
        rw [h.timed, ha]
        rfl
      obtain ⟨r, hr⟩ := hheld
      obtain ⟨sched₁, hsched, hheld₁, hthread, hlock⟩ := hr.toLive.timeout htimer
      obtain ⟨h₁, halarm⟩ := @h.serve _ _ _ _ _ _ ⟨t, hlt⟩ rest hlist hexpired hthread hlock
      obtain ⟨sched₂, hcheck, hheld₂, h₂, hwoken⟩ := ih hheld₁ h₁
      have hnow : ((run.call t).settle t).now = run.now := by
        rw [settle_oneshot h.oneshot]
        rfl
      refine ⟨sched₂, ?_, hheld₂, h₂, fun u => ?_⟩
      · rw [dif_pos hlt, hsched]
        exact hcheck
      · have hu := hwoken u
        rw [hnow] at hu
        have hone := dozeOf_update hthread halarm u
        by_cases hut : u = ⟨t, hlt⟩
        · subst hut
          rw [Function.update_self] at hone
          have hbefore : dozeOf (sched.thread ⟨t, hlt⟩) (run.alarm t) = .asleep run.now := by
            rw [dozeOf, h.waits _ htimer, ha, ← h.armed.due_eq ha hexpired]
            rfl
          have hafter : dozeOf (sched₁.thread ⟨t, hlt⟩) (((run.call t).settle t).alarm t) =
              .awake := hone
          rw [hafter] at hu
          refine Or.inr ⟨hbefore, ?_⟩
          rcases hu with hu | ⟨hno, -⟩
          · exact hu
          · cases hno
        · rw [Function.update_of_ne hut] at hone
          rw [hone] at hu
          exact hu

/-- `rt_timer_check` takes no time. -/
theorem check_now (fuel : Nat) (run : TimerRun) : (run.check fuel).now = run.now := by
  induction fuel generalizing run with
  | zero => rfl
  | succ fuel ih =>
    have hsettle (t : Nat) : ((run.call t).settle t).now = run.now := by
      unfold TimerRun.settle
      split <;> rfl
    unfold TimerRun.check
    split
    · rfl
    · split
      · rw [ih, hsettle]
      · rfl

/-- Between the calls nobody is asleep until a tick that has come. -/
theorem asleep_later (h : Armed base 0 run) {x : Tcb} {t wake : Nat}
    (hdoze : dozeOf x (run.alarm t) = .asleep wake) : run.now < wake := by
  unfold dozeOf at hdoze
  cases halarm : run.alarm t with
  | none =>
    rw [halarm] at hdoze
    split at hdoze <;> cases hdoze
  | some a =>
    rw [halarm] at hdoze
    have hpending := (h.alarm t a halarm).pending
    split at hdoze
    · cases hdoze
    · cases hdoze
    · cases hdoze
      exact hpending

/-! ## The calls -/

/-- `rt_timer_stop` keeps the invariant of the timers. -/
theorem timerInv_stop (h : TimerInv base run) (t : Nat) : TimerInv base (run.stop t) :=
  @timerInv_step base (fun _ => 0) (fun _ => false) run _ (.stop t) h rfl

/-- The timer of `rt_thread_sleep`. -/
def sleepTimer (run : TimerRun) (t : Nat) (tick : BitVec 32) : TimerRun :=
  ((run.stop t).control t (.setTime tick)).start t

theorem oneshot_stop (h : ∀ t, (run.sys.timer t).periodic = false) (t u : Nat) :
    ((run.stop t).sys.timer u).periodic = false := by
  unfold TimerRun.stop TimerSystem.stop
  split
  · exact oneshot_setActivated h t u
  · exact h u

theorem oneshot_setTime (h : ∀ t, (run.sys.timer t).periodic = false) (t u : Nat)
    (tick : BitVec 32) : ((run.sys.control t (.setTime tick)).timer u).periodic = false := by
  by_cases hut : u = t
  · subst hut
    simp only [TimerSystem.control, TimerSystem.setTimer, Function.update_self]
    exact h u
  · rw [TimerSystem.control, TimerSystem.timer_setTimer_of_ne _ hut]
    exact h u

theorem oneshot_start (h : ∀ t, (run.sys.timer t).periodic = false) (t u : Nat) :
    ((run.start t).sys.timer u).periodic = false := by
  rw [TimerRun.start]
  by_cases hut : u = t
  · subst hut
    rw [TimerSystem.timer_start_self]
    exact h u
  · rw [TimerSystem.timer_start_of_ne hut]
    exact h u

theorem initTick_setTime (run : TimerRun) (t : Nat) (tick : BitVec 32) :
    ((run.sys.control t (.setTime tick)).timer t).initTick = tick := by
  simp only [TimerSystem.control, TimerSystem.setTimer, Function.update_self]

/-- What a sleep makes of the alarms. -/
theorem sleepTimer_alarm (run : TimerRun) (t : Nat) (tick : BitVec 32) :
    (sleepTimer run t tick).alarm =
      Function.update run.alarm t (some ⟨run.now, tick.toNat, run.starts⟩) := by
  have halarm : (sleepTimer run t tick).alarm =
      Function.update (Function.update run.alarm t none) t
        (some (((run.stop t).control t (.setTime tick)).alarmFor t)) := rfl
  rw [halarm, Function.update_idem, TimerRun.alarmFor, TimerRun.control, initTick_setTime]
  rfl

/-- A sleep of a time in range keeps the invariant of the timers. -/
theorem timerInv_sleepTimer (h : TimerInv base run)
    (honeshot : ∀ t, (run.sys.timer t).periodic = false) (t : Nat) {tick : BitVec 32}
    (htick : tick.toNat < rtTickMax / 2) : TimerInv base (sleepTimer run t tick) := by
  have hvalid : (((run.stop t).sys.control t (.setTime tick)).timer t).Valid := by
    refine ⟨?_, fun hperiodic => ?_⟩
    · rw [initTick_setTime]
      exact htick
    · rw [oneshot_setTime (oneshot_stop honeshot t)] at hperiodic
      cases hperiodic
  have hset := @timerInv_step base (fun _ => 0) (fun _ => false) _ _ (.control t (.setTime tick))
    (timerInv_stop h t) (if_pos hvalid)
  exact @timerInv_step base (fun _ => 0) (fun _ => false) _ _ (.start t) hset rfl

namespace SleepSystem

variable {s : SleepSystem n} {action : SleepAction n}

namespace Keeps

theorem timerInv (h : s.Keeps base spec idle) : TimerInv base s.run :=
  ⟨h.asleep.armed, h.asleep.logged⟩

/-- A call that changes one thread. -/
theorem touched (h : s.Keeps base spec idle) {x : Tcb} {alarm : Option Alarm}
    (hthread : sched'.thread = Function.update s.sched.thread t x)
    (halarm : run'.alarm = Function.update s.run.alarm t alarm)
    (hasleep : Asleep base 0 spec sched' run') (hrests : sched'.Rests idle)
    (hnow : run'.now = s.run.now)
    (hnext : s.sleepers.next s.sched.current action = s.sleepers.put t (dozeOf x alarm)) :
    Keeps base spec idle ⟨sched', run', s.sleepers.next s.sched.current action⟩ where
  asleep := hasleep
  rests := hrests
  now := by
    rw [hnext, hnow]
    exact h.now
  doze u := by
    have hbefore : s.sleepers.doze = fun u => dozeOf (s.sched.thread u) (s.run.alarm u) :=
      funext h.doze
    rw [hnext, Sleepers.put]
    dsimp only
    rw [hbefore, dozeOf_update hthread halarm]

/-- A call that changes no thread. -/
theorem untouched (h : s.Keeps base spec idle)
    (hthread : sched'.thread = s.sched.thread) (hlock : sched'.lockNest = s.sched.lockNest)
    (hrests : sched'.Rests idle) (hnext : s.sleepers.next s.sched.current action = s.sleepers) :
    Keeps base spec idle ⟨sched', s.run, s.sleepers.next s.sched.current action⟩ where
  asleep := h.asleep.congr (fun t => by rw [hthread]; exact ⟨rfl, rfl, rfl, rfl⟩) hlock
  rests := hrests
  now := by
    rw [hnext]
    exact h.now
  doze u := by
    rw [hnext, hthread]
    exact h.doze u

/-- Where a thread runs, the scheduler is started. -/
theorem running (h : s.Keeps base spec idle) (hcur : s.sched.current = some t) :
    Sched.Live s.sched t ∧ (s.sched.thread t).stat = .ready ∧
      (s.sched.thread idle).stat = .ready ∧ s.sched.Settled := by
  rcases h.rests with ⟨hnone, -⟩ | ⟨⟨u, hu⟩, hidle⟩
  · cases hnone.symm.trans hcur
  · cases hu.running.symm.trans hcur
    have hsettled : s.sched.Settled := by
      rcases hu.prompt h.asleep.unlocked with hdue | hsettled
      · cases hdue
      · exact hsettled
    exact ⟨hu.toLive, (hsettled t hcur).1, hidle, hsettled⟩

/-- `rt_thread_startup`. -/
theorem startup (h : s.Keeps base spec idle) (hinit : (s.sched.thread t).stat = .init) :
    ∃ r, performSleep s.sched s.run (.startup t) = some r ∧
      Keeps base spec idle ⟨r.1, r.2, s.sleepers.next s.sched.current (.startup t)⟩ := by
  have hkeeps {sched' : Sched n} (hthread' : sched'.thread = (s.sched.begun t).thread)
      (hlock' : sched'.lockNest = (s.sched.begun t).lockNest) (hrests : sched'.Rests idle) :
      Keeps base spec idle
        ⟨sched', s.run.stop t, s.sleepers.next s.sched.current (.startup t)⟩ := by
    have hinv := timerInv_stop h.timerInv t
    have hbegun := hthread'.trans (s.sched.begun_thread t)
    refine h.touched hbegun rfl ?_ hrests rfl rfl
    exact h.asleep.touch hbegun (hlock'.trans (s.sched.begun_lockNest t)) rfl hinv.armed hinv.logged
      (oneshot_stop h.asleep.oneshot t) rfl (fun htimer => by cases htimer)
      (fun hclose => by cases hclose) ⟨(h.asleep.priority t).2, (h.asleep.priority t).2⟩
  have hperform (r : Option (Sched n)) (hr : s.sched.startup t = r) :
      performSleep s.sched s.run (.startup t) = r.map (·, s.run.stop t) := by
    rw [performSleep, if_pos hinit, hr]
  have hcurrent := s.sched.begun_current t
  have hstartup := s.sched.startup_eq t
  rcases h.rests with ⟨hnone, q, hinv⟩ | ⟨⟨u, hu⟩, hidle⟩
  · rw [hcurrent, hnone] at hstartup
    refine ⟨_, hperform _ hstartup, hkeeps rfl rfl (Or.inl ⟨hcurrent.trans hnone, ?_⟩)⟩
    obtain ⟨q', hinv', -⟩ := (hinv.prepared hinit).resume t
    exact ⟨q', hinv'⟩
  · have hlive : Sched.Live (s.sched.begun t) u := hu.toLive.startup hinit
    obtain ⟨sched', hs, hheld, hthread', hlock'⟩ := hlive.scheduled
    rw [hcurrent, hu.running] at hstartup
    refine ⟨(sched', s.run.stop t), ?_, hkeeps hthread' hlock' (Or.inr ⟨hheld, ?_⟩)⟩
    · rw [hperform _ hstartup]
      exact congrArg (Option.map (·, s.run.stop t)) hs
    · rw [hthread', Sched.begun_thread]
      by_cases hidleT : idle = t
      · subst hidleT
        rw [Function.update_self]
      · rw [Function.update_of_ne hidleT]
        exact hidle

/-- `rt_system_scheduler_start`. -/
theorem schedulerStart (h : s.Keeps base spec idle) (hcur : s.sched.current = none)
    (hidle : (s.sched.thread idle).stat = .ready) :
    ∃ r, performSleep s.sched s.run .schedulerStart = some r ∧
      Keeps base spec idle ⟨r.1, r.2, s.sleepers.next s.sched.current .schedulerStart⟩ := by
  rcases h.rests with ⟨-, q, hinv⟩ | ⟨⟨u, hu⟩, -⟩
  case inr => cases hcur.symm.trans hu.running
  have hready : s.sched.InReady idle := by
    refine ⟨hidle, fun heq => ?_⟩
    cases hcur.symm.trans heq
  have hgroup : s.sched.group ≠ 0 := fun hzero => hinv.table.not_of_group_zero hzero hready
  obtain ⟨p, t, hhighest, -⟩ := hinv.table.highest hgroup
  have hstart : s.sched.schedulerStart =
      some ({ s.sched with current := some t }.removeThread t) := by
    rw [Sched.schedulerStart, hhighest]
    rfl
  have hthread := Sched.removeThread_thread { s.sched with current := some t } t
  refine ⟨({ s.sched with current := some t }.removeThread t, s.run), ?_,
    h.untouched hthread (Sched.removeThread_lockNest _ t) (Or.inr ⟨?_, ?_⟩) rfl⟩
  · rw [performSleep, if_pos hcur, hstart]
    rfl
  · exact hinv.start_held hcur hstart
  · rw [hthread]
    exact hidle

/-- The running thread is not the last that is ready. -/
theorem others_ready (h : s.Keeps base spec idle) (hcur : s.sched.current = some t)
    (hne : s.sched.current ≠ some idle) : s.sched.InReady idle :=
  ⟨(h.running hcur).2.2.1, hne⟩

/-- `rt_thread_sleep`. -/
theorem sleep (h : s.Keeps base spec idle) (hcur : s.sched.current = some t)
    (hne : s.sched.current ≠ some idle) {tick : BitVec 32} (htick : tick.toNat < rtTickMax / 2) :
    ∃ r, performSleep s.sched s.run (.sleep tick) = some r ∧
      Keeps base spec idle ⟨r.1, r.2, s.sleepers.next s.sched.current (.sleep tick)⟩ := by
  obtain ⟨hlive, hready, hidle, -⟩ := h.running hcur
  obtain ⟨sched', hs, hheld, hthread', hlock'⟩ :=
    (hlive.sleep ⟨idle, h.others_ready hcur hne⟩).scheduled
  have hthread := hthread'.trans (Sched.sleep_thread hready)
  have hlock := hlock'.trans (Sched.suspend_lockNest s.sched t)
  have hinv := timerInv_sleepTimer h.timerInv h.asleep.oneshot t htick
  have hidleT : idle ≠ t := fun heq => hne (heq ▸ hcur)
  refine ⟨(sched', sleepTimer s.run t tick), ?_,
    h.touched hthread (sleepTimer_alarm s.run t tick) ?_ (Or.inr ⟨hheld, ?_⟩) rfl ?_⟩
  · have hsleep : s.sched.sleep t = some sched' := hs
    rw [performSleep, hcur, Option.bind_some, if_pos htick, hsleep]
    rfl
  · exact h.asleep.touch hthread hlock (sleepTimer_alarm s.run t tick) hinv.armed hinv.logged
      (oneshot_start (fun u => oneshot_setTime (oneshot_stop h.asleep.oneshot t) t u tick) t) rfl
      (fun _ => rfl) (fun hclose => by cases hclose) (h.asleep.priority t)
  · rw [hthread, Function.update_of_ne hidleT]
    exact hidle
  · rw [hcur, Sleepers.next, Option.elim_some, h.now]
    rfl

/-- `rt_thread_suspend`. -/
theorem suspend (h : s.Keeps base spec idle) (hcur : s.sched.current = some t)
    (hne : s.sched.current ≠ some idle) :
    ∃ r, performSleep s.sched s.run .suspend = some r ∧
      Keeps base spec idle ⟨r.1, r.2, s.sleepers.next s.sched.current .suspend⟩ := by
  obtain ⟨hlive, hready, hidle, -⟩ := h.running hcur
  obtain ⟨sched', hs, hheld, hthread', hlock'⟩ :=
    (hlive.suspend ⟨idle, h.others_ready hcur hne⟩).scheduled
  have hthread := hthread'.trans (Sched.suspend_thread hready)
  have hlock := hlock'.trans (Sched.suspend_lockNest s.sched t)
  have hinv := timerInv_stop h.timerInv t
  have hidleT : idle ≠ t := fun heq => hne (heq ▸ hcur)
  refine ⟨(sched', s.run.stop t), ?_, h.touched hthread rfl ?_ (Or.inr ⟨hheld, ?_⟩) rfl ?_⟩
  · rw [performSleep, hcur, Option.bind_some, hs]
    rfl
  · exact h.asleep.touch hthread hlock rfl hinv.armed hinv.logged
      (oneshot_stop h.asleep.oneshot t) rfl (fun htimer => by cases htimer)
      (fun hclose => by cases hclose) (h.asleep.priority t)
  · rw [hthread, Function.update_of_ne hidleT]
    exact hidle
  · rw [hcur]
    rfl

/-- `rt_thread_resume`. -/
theorem resume (h : s.Keeps base spec idle) (hcur : s.sched.current = some t) (u : Fin n) :
    ∃ r, performSleep s.sched s.run (.resume u) = some r ∧
      Keeps base spec idle ⟨r.1, r.2, s.sleepers.next s.sched.current (.resume u)⟩ := by
  obtain ⟨hlive, hready, hidle, -⟩ := h.running hcur
  obtain ⟨sched', hs, hheld, hthread', hlock'⟩ := (hlive.resume u).scheduled
  have hfresh : s.sleepers.doze u = .fresh ↔ (s.sched.thread u).stat = .init := by
    rw [h.doze, dozeOf_eq_fresh_iff]
  by_cases hstat : (s.sched.thread u).stat = .suspend
  · rw [Sched.resume_of_suspend hstat] at hs hthread' hlock'
    have hthread := hthread'.trans (Sched.woken_thread s.sched u)
    have hlock := hlock'.trans (Sched.woken_lockNest s.sched u)
    have hinv := timerInv_stop h.timerInv u
    have hnot : s.sleepers.doze u ≠ .fresh := by
      rw [ne_eq, hfresh, hstat]
      exact fun heq => by cases heq
    refine ⟨(sched', s.run.stop u), ?_, h.touched hthread rfl ?_ (Or.inr ⟨hheld, ?_⟩) rfl ?_⟩
    · rw [performSleep, hcur, Option.bind_some, Sched.resume_of_suspend hstat, hs, if_pos hstat]
      rfl
    · exact h.asleep.touch hthread hlock rfl hinv.armed hinv.logged
        (oneshot_stop h.asleep.oneshot u) rfl (fun htimer => by cases htimer)
        (fun hclose => by cases hclose) (h.asleep.priority u)
    · rw [hthread]
      by_cases hidleU : idle = u
      · subst hidleU
        rw [Function.update_self]
      · rw [Function.update_of_ne hidleU]
        exact hidle
    · rw [Sleepers.next, if_neg hnot]
      rfl
  · rw [Sched.resume_of_not_suspend hstat] at hs hthread' hlock'
    refine ⟨(sched', s.run), ?_, h.untouched hthread' hlock' (Or.inr ⟨hheld, ?_⟩) ?_⟩
    · rw [performSleep, hcur, Option.bind_some, Sched.resume_of_not_suspend hstat, hs,
        if_neg hstat]
      rfl
    · rw [hthread']
      exact hidle
    · -- a thread that is not suspended is not started, or awake
      rw [Sleepers.next]
      split
      case isTrue => rfl
      case isFalse hnot =>
        have hawake : s.sleepers.doze u = .awake := by
          rw [h.doze, dozeOf_eq_awake_iff]
          have halive := h.asleep.alive u
          rw [hfresh] at hnot
          cases hu : (s.sched.thread u).stat with
          | init => exact absurd hu hnot
          | ready => rfl
          | suspend => exact absurd hu hstat
          | close => exact absurd hu halive
        rw [Sleepers.put, ← hawake, Function.update_eq_self]

/-- `rt_thread_yield`. -/
theorem yield (h : s.Keeps base spec idle) (hcur : s.sched.current = some t) :
    ∃ r, performSleep s.sched s.run .yield = some r ∧
      Keeps base spec idle ⟨r.1, r.2, s.sleepers.next s.sched.current .yield⟩ := by
  obtain ⟨hlive, -, hidle, -⟩ := h.running hcur
  obtain ⟨sched', hs, hheld, hthread', hlock'⟩ := hlive.scheduled
  refine ⟨(sched', s.run), ?_, h.untouched hthread' hlock' (Or.inr ⟨hheld, ?_⟩) rfl⟩
  · rw [performSleep, hcur, Option.bind_some, hs]
    rfl
  · rw [hthread']
    exact hidle

/-- The tick, up to the check of the timers. -/
theorem advance (h : s.Keeps base spec idle)
    (hrecord : ∀ u, (sched'.thread u).stat = (s.sched.thread u).stat ∧
      (sched'.thread u).timer = (s.sched.thread u).timer ∧
      (sched'.thread u).currentPriority = (s.sched.thread u).currentPriority ∧
      (sched'.thread u).initPriority = (s.sched.thread u).initPriority)
    (hlock : sched'.lockNest = s.sched.lockNest) :
    Asleep base 1 spec sched' s.run.ticked := by
  have hsame := h.asleep.congr hrecord hlock
  exact { hsame with
    armed := h.asleep.armed.advance
    logged := logged_ticked h.asleep.logged }

/-- `rt_tick_increase`. -/
theorem tick (h : s.Keeps base spec idle) (hcur : s.sched.current = some t) :
    ∃ r, performSleep s.sched s.run .tick = some r ∧
      Keeps base spec idle ⟨r.1, r.2, s.sleepers.next s.sched.current .tick⟩ := by
  obtain ⟨hlive, -, hidle, hsettled⟩ := h.running hcur
  obtain ⟨sched₁, htick, hheld₁, hlock, hrecord⟩ :=
    Sched.Held.tickIncrease ⟨hlive, fun _ => Or.inr hsettled⟩
  have h₁ := h.advance hrecord hlock
  obtain ⟨sched₂, hcheck, hheld₂, h₂, hwoken⟩ := checkThreads_eq s.run.sys.list.length hheld₁ h₁
  have harmed : Armed base 0 (s.run.ticked.check s.run.sys.list.length) :=
    (TimerRun.check_settled h₁.armed h₁.logged List.countP_le_length).1
  have hnow := check_now s.run.sys.list.length s.run.ticked
  have hbefore (u : Fin n) :
      dozeOf (sched₁.thread u) (s.run.ticked.alarm u) = s.sleepers.doze u := by
    rw [h.doze, dozeOf, dozeOf, (hrecord u).1]
    rfl
  refine ⟨(sched₂, s.run.ticked.check s.run.sys.list.length), ?_,
    { h₂ with armed := harmed }, Or.inr ⟨hheld₂, ?_⟩, ?_, fun u => ?_⟩
  · rw [performSleep, hcur, Option.bind_some, htick, Option.bind_some]
    exact hcheck
  · have hu := hwoken idle
    rw [dozeOf_eq_awake_iff.mpr ((hrecord idle).1.trans hidle)] at hu
    rcases hu with hu | ⟨hno, -⟩
    · exact dozeOf_eq_awake_iff.mp hu
    · cases hno
  · exact (congrArg (· + 1) h.now).trans hnow.symm
  · have hu := hwoken u
    rw [hbefore] at hu
    dsimp only [Sleepers.next]
    rw [h.now]
    split
    case isTrue hdue =>
      -- no alarm of this tick is left over
      rcases hu with hu | ⟨-, hu⟩
      · rw [hdue] at hu
        have hlater := asleep_later harmed hu
        rw [hnow] at hlater
        exact absurd hlater (Nat.lt_irrefl _)
      · exact hu.symm
    case isFalse hlater =>
      rcases hu with hu | ⟨hdue, -⟩
      · exact hu.symm
      · exact absurd hdue hlater

/-- Every call that is allowed is carried out, and keeps the invariant. -/
theorem call (h : s.Keeps base spec idle) (hok : LeavesIdle idle s action)
    (hallows : s.Allows action) :
    ∃ r, performSleep s.sched s.run action = some r ∧
      Keeps base spec idle ⟨r.1, r.2, s.sleepers.next s.sched.current action⟩ := by
  have hruns (hcur : s.sched.current ≠ none) : ∃ t, s.sched.current = some t :=
    Option.ne_none_iff_exists'.mp hcur
  cases action with
  | startup t => exact h.startup hallows
  | schedulerStart => exact h.schedulerStart hallows hok
  | sleep tick =>
    obtain ⟨t, hcur⟩ := hruns hallows.1
    exact h.sleep hcur hok hallows.2
  | suspend =>
    obtain ⟨t, hcur⟩ := hruns hallows
    exact h.suspend hcur hok
  | resume u =>
    obtain ⟨t, hcur⟩ := hruns hallows
    exact h.resume hcur u
  | yield =>
    obtain ⟨t, hcur⟩ := hruns hallows
    exact h.yield hcur
  | tick =>
    obtain ⟨t, hcur⟩ := hruns hallows
    exact h.tick hcur

end Keeps

/-! ## The run -/

/-- What is not allowed is not carried out. -/
theorem allows_of_perform {r : Sched n × TimerRun}
    (h : performSleep s.sched s.run action = some r) : s.Allows action := by
  have hruns {f : Fin n → Option (Sched n × TimerRun)} (h : s.sched.current.bind f = some r) :
      s.sched.current ≠ none := by
    intro hnone
    rw [hnone] at h
    cases h
  cases action with
  | startup t => exact (Option.ite_none_right_eq_some.mp h).1
  | schedulerStart => exact (Option.ite_none_right_eq_some.mp h).1
  | sleep tick =>
    obtain ⟨t, -, hsleep⟩ := Option.bind_eq_some_iff.mp h
    exact ⟨hruns h, (Option.ite_none_right_eq_some.mp hsleep).1⟩
  | suspend | resume | yield | tick => exact hruns h

/-- The invariant of a run holds at its start. -/
theorem keeps_init (spec : Fin n → ThreadSpec) (tick : BitVec 32) (idle : Fin n) :
    Keeps tick spec idle (sleepMachine spec tick).init := by
  have hinv : TimerInv tick (timerMachine tick (fun _ => 0) fun _ => false).init :=
    timerInv_init fun _ => by decide
  refine ⟨?_, Or.inl ⟨rfl, _, Sched.SchedInv.init (fun _ => rfl) (fun _ => rfl) fun _ => rfl⟩,
    rfl, fun _ => rfl⟩
  constructor
  case armed => exact hinv.armed
  case logged => exact hinv.logged
  case oneshot => exact fun _ => rfl
  case threads => exact fun _ _ halarm => by cases halarm
  case timed => exact fun _ => rfl
  case waits => exact fun _ htimer => by cases htimer
  case alive => exact fun _ hclose => by cases hclose
  case priority => exact fun _ => ⟨rfl, rfl⟩
  case unlocked => rfl

theorem keeps_of_reach {tick : BitVec 32}
    (h : (sleepMachine spec tick).Reach (LeavesIdle idle) s) : s.Keeps tick spec idle := by
  refine h.invariant (keeps_init spec tick idle) fun s action s' hkeeps hok hstep => ?_
  obtain ⟨r, hr, rfl⟩ := Option.map_eq_some_iff.mp hstep
  obtain ⟨r', hr', hkeeps'⟩ := hkeeps.call hok (allows_of_perform hr)
  cases hr.symm.trans hr'
  exact hkeeps'

end SleepSystem

/-- Sleeping threads, for every set of threads, every tick to begin with and every sequence of calls
and ticks in which an idle thread does not sleep: a thread is ready exactly while it is awake; who
sleeps has not come to the tick it sleeps until; the thread that runs is awake, and none that is
awake is more urgent; and every call that is allowed, and every tick, is carried out. -/
theorem sleepers_on_time {n : Nat} (spec : Fin n → ThreadSpec) (idle : Fin n) (tick : BitVec 32)
    {s : SleepSystem n} (h : (sleepMachine spec tick).Reach (LeavesIdle idle) s) :
    (∀ t, (s.sched.thread t).stat = .ready ↔ s.sleepers.doze t = .awake) ∧
    (∀ t wake, s.sleepers.doze t = .asleep wake → s.sleepers.now < wake) ∧
    (∀ t, s.sched.current = some t → s.sleepers.doze t = .awake ∧
      ∀ u, s.sleepers.doze u = .awake → (spec t).priority ≤ (spec u).priority) ∧
    ∀ action, LeavesIdle idle s action → s.Allows action →
      ∃ s', (sleepMachine spec tick).step s action = some s' := by
  have hkeeps := SleepSystem.keeps_of_reach h
  have hawake (t : Fin n) : (s.sched.thread t).stat = .ready ↔ s.sleepers.doze t = .awake := by
    rw [hkeeps.doze, dozeOf_eq_awake_iff]
  refine ⟨hawake, fun t wake hdoze => ?_, fun t hcur => ?_, fun action hok hallows => ?_⟩
  · rw [hkeeps.doze] at hdoze
    rw [hkeeps.now]
    exact asleep_later hkeeps.asleep.armed hdoze
  · obtain ⟨-, hready, -, hsettled⟩ := hkeeps.running hcur
    refine ⟨(hawake t).mp hready, fun u hu => ?_⟩
    rw [← (hkeeps.asleep.priority t).1, ← (hkeeps.asleep.priority u).1]
    by_cases hut : u = t
    · rw [hut]
    · refine (hsettled t hcur).2 u ⟨(hawake u).mpr hu, fun heq => hut ?_⟩
      exact Option.some_inj.mp (heq.symm.trans hcur)
  · obtain ⟨r, hr, -⟩ := hkeeps.call hok hallows
    refine ⟨_, Option.map_eq_some_iff.mpr ⟨r, hr, rfl⟩⟩

/-- One thread, and the idle one. -/
def oneAndIdle (t : Fin 2) : ThreadSpec := fourThreads t.rev.castSucc.castSucc

/-- The thread sleeps for two ticks, over which the tick wraps, and runs again. -/
theorem sleepers_on_time_twoTicks : ∃ s,
    (sleepMachine oneAndIdle 0xffffffff).Reach (LeavesIdle 1) s ∧
      s.sched.current = some 0 ∧ s.sleepers.now = 2 ∧ s.sleepers.doze 0 = .awake := by
  obtain ⟨s, hs, hcur, hnow⟩ := Machine.exists_reach_of_run (sleepMachine oneAndIdle 0xffffffff)
    (LeavesIdle 1) [.startup 0, .startup 1, .schedulerStart, .sleep 2, .tick, .tick]
    (fun s => s.sched.current = some 0 ∧ s.sleepers.now = 2) (by decide +kernel)
  exact ⟨s, hs, hcur, hnow, ((sleepers_on_time oneAndIdle 1 0xffffffff hs).2.2.1 0 hcur).1⟩

end RtVcom.Kernel
