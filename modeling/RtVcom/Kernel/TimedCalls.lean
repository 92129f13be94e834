import RtVcom.Kernel.CallTimers
import RtVcom.Kernel.Sleep

/-!
# The calls and the clock

In `IpcSystem` the timer of a thread that waits may run out at any time. Here it is the timer of
`TimerOrder`, in the list of `rt_timer_check` and with a tick that wraps: a call that comes to
`rt_ipc_list_suspend` with a positive time starts it, a thread that is woken has it stopped, and the
interrupt of the clock calls `rt_thread_timeout` for those that have run out. That interrupt may
come between any two pieces of the calls; it has the highest priority, so that none comes into it.
Thread `t` has timer `t` as its `thread_timer`.

Beside the timers stands what was asked for, the tick until which a thread waits (`limit`).

**The law** (`calls_on_time`): every run with the timers is a run of `IpcSystem`, so that what holds
in all of those holds here; a thread's timer runs exactly while it waits with a limit, and the limit
has not come; and the interrupt of the clock always comes to its end, ends the waits whose limit is
that tick with `-RT_ETIMEOUT`, and no others. The law is about orderly steps (`IpcSystem.Orderly`,
what preemption asks of the calls) whose times are in the range of the timers (`Timely`). Without an
idle thread, say, `rt_schedule` finds no thread to take, and no interrupt comes to its end.
-/

namespace RtVcom.Kernel

open RtVcom.Lib

variable {n : Nat}

/-! ## The system -/

namespace IpcSystem

/-- `rt_tick_increase` before the check of the timers, with its `rt_thread_yield`. -/
def tickIncrease (flag : Nat → IpcFlag) (s : IpcSystem n) : Option (IpcSystem n) :=
  (s.step flag (.call .tick)).bind fun s =>
    if s.irq.head? = some (.schedule .out) then s.step flag .goOn else some s

/-- `rt_thread_timeout`, with its `rt_schedule`. -/
def timeout (flag : Nat → IpcFlag) (s : IpcSystem n) (u : Fin n) : Option (IpcSystem n) :=
  (s.step flag (.call (.timeout u))).bind fun s => s.step flag .goOn

end IpcSystem

/-- The timers of the threads that no longer wait are stopped. -/
def stopWoken (before after : IpcSystem n) (run : TimerRun) : TimerRun :=
  ((List.finRange n).filter fun u => before.timed u && !after.timed u).foldl
    (fun run (u : Fin n) => run.stop u.val) run

/-- `rt_timer_check`, of the timers of threads. -/
def checkCalls (flag : Nat → IpcFlag) : Nat → IpcSystem n → TimerRun →
    Option (IpcSystem n × TimerRun)
  | 0, sys, run => some (sys, run)
  | fuel + 1, sys, run =>
    match run.sys.list with
    | [] => some (sys, run)
    | t :: _ =>
      if run.sys.expired t then
        if h : t < n then
          (sys.timeout flag ⟨t, h⟩).bind fun sys =>
            checkCalls flag fuel sys ((run.call t).settle t)
        else none
      else some (sys, run)

/-- `SysTick_Handler`. -/
def sysTickHandler (flag : Nat → IpcFlag) (sys : IpcSystem n) (run : TimerRun) :
    Option (IpcSystem n × TimerRun) :=
  (sys.step flag .interrupt).bind fun sys => (sys.tickIncrease flag).bind fun sys =>
    (checkCalls flag run.sys.list.length sys run.ticked).bind fun (sys, run) =>
      sys.leave.map (·, run)

/-- The threads and the objects, the timers of the threads, and the ticks until which they wait. -/
structure TimedSystem (n : Nat) where
  sys : IpcSystem n
  run : TimerRun
  limit : Fin n → Option Nat

/-- A step of a call or an interrupt, `rt_thread_sleep`, and the interrupt of the clock. -/
inductive TimedAction (n : Nat)
  | act (a : IpcAction n)
  | sleep (tick : BitVec 32)
  | tick
deriving Repr, DecidableEq

/-- What can be seen of a thread that waits. -/
structure ThreadWait where
  stat : ThreadStat
  error : Int
  limit : Option Nat
deriving Repr, DecidableEq

namespace TimedSystem

/-- Behind a step: `start` is the time that the running thread waits for. -/
def follow (s : TimedSystem n) (sys : IpcSystem n) (start : Option (Fin n × BitVec 32)) :
    TimedSystem n :=
  let run := stopWoken s.sys sys s.run
  let limit := fun u => if sys.timed u then s.limit u else none
  match start with
  | none => { sys, run, limit }
  | some (t, time) =>
    { sys
      run := sleepTimer run t time
      limit := Function.update limit t (some (s.run.now + max 1 time.toNat)) }

/-- What the running thread waits for. -/
def start (s : TimedSystem n) (a : IpcAction n) : Option (Fin n × BitVec 32) :=
  s.sys.state.sched.current.bind fun t => (s.sys.startTime t a).map (t, ·)

def step (flag : Nat → IpcFlag) (s : TimedSystem n) : TimedAction n → Option (TimedSystem n)
  | .act a =>
    if a.ofClock then none else (s.sys.step flag a).map fun sys => s.follow sys (s.start a)
  | .sleep tick => (s.sys.step flag (.call .sleep)).map fun sys =>
    s.follow sys (s.sys.state.sched.current.map (·, tick))
  | .tick => (sysTickHandler flag s.sys s.run).map fun (sys, run) =>
    { sys, run, limit := fun u => if sys.timed u then s.limit u else none }

def wait (s : TimedSystem n) (u : Fin n) : ThreadWait where
  stat := (s.sys.state.sched.thread u).stat
  error := s.sys.state.error u
  limit := s.limit u

end TimedSystem

/-- The machine of the calls, with all timers stopped. -/
def timedMachine (spec : Fin n → ThreadSpec) (flag : Nat → IpcFlag) (object : Nat → IpcObject n) :
    Machine (TimedSystem n) (TimedAction n) where
  init :=
    { sys := (ipcMachine spec flag object).init
      run := (timerMachine 0 (fun _ => 0) fun _ => false).init
      limit := fun _ => none }
  step := TimedSystem.step flag

/-- Nobody waits for half the range of the tick, as `rt_timer_start` asserts. -/
def Short : Option (Fin n × BitVec 32) → Prop
  | none => True
  | some (_, time) => time.toNat < rtTickMax / 2

instance : DecidablePred (Short (n := n)) := fun start => by
  cases start <;> unfold Short <;> infer_instance

/-- An orderly step, with waiting times in the range of the timers. -/
def TimedSystem.Timely (s : TimedSystem n) : TimedAction n → Prop
  | .act a => s.sys.Orderly a ∧ Short (s.start a)
  | .sleep tick => s.sys.Orderly (.call .sleep) ∧ tick.toNat < rtTickMax / 2
  | .tick => True

instance : DecidableRel (TimedSystem.Timely (n := n)) := fun _ a => by
  cases a <;> unfold TimedSystem.Timely <;> infer_instance

/-! ## The handler of the clock -/

namespace IpcSystem

variable {flag : Nat → IpcFlag} {s s' : IpcSystem n} {t u : Fin n} {spec : Fin n → ThreadSpec}
  {object : Nat → IpcObject n} {rest : List CallPlace}

/-- What preemption keeps holds in every state that is reached. -/
theorem sure_of_reach (h : (ipcMachine spec flag object).Reach Orderly s) : Sure s := by
  refine h.invariant (P := Sure) ⟨?_, fun t ht => ?_⟩ fun _ _ _ hsure hok hs => hsure.step hok hs
  · exact ⟨_, Sched.SchedInv.init (fun _ => rfl) (fun _ => rfl) fun _ => rfl⟩
  · cases ht

/-- The state in the interrupt of the clock, where an `rt_schedule` made it `s'`. -/
structure Rescheduled (k : IpcState n) (place : Fin n → CallPlace) (rest : List CallPlace)
    (s' : IpcSystem n) : Prop where
  place : s'.place = place
  irq : s'.irq = .out :: rest
  running : ∃ t, s'.state.sched.current = some t
  thread : s'.state.sched.thread = k.sched.thread
  error : s'.state.error = k.error
  tick : s'.state.tick = k.tick

/-- A piece of an interrupt moves the interrupt on. -/
theorem comesTo_of_irq {place : CallPlace} (hirq : s.irq = place :: rest) (t : Fin n)
    (r : IpcResult n) : s.comesTo t r = { s with state := r.1, irq := r.2 :: rest } := by
  rw [comesTo, hirq]

/-- An interrupt that comes to `rt_schedule` goes on. -/
theorem reschedule (hreach : (ipcMachine spec flag object).Reach Orderly s)
    (hirq : s.irq = .schedule .out :: rest) (hcur : s.state.sched.current = some t) :
    ∃ s', s.step flag .goOn = some s' ∧ (ipcMachine spec flag object).Reach Orderly s' ∧
      Rescheduled s.state s.place rest s' := by
  have hlive := ((sure_of_reach hreach).held t hcur).toLive
  obtain ⟨sched, hsched, ⟨u, hheld⟩, hthread, -⟩ := hlive.scheduled
  have hcontext : s.context t = .schedule .out := by
    rw [context, hirq]
  have hstep : s.step flag .goOn =
      some { s with state := { s.state with sched }, irq := .out :: rest } := by
    rw [step, hcur, Option.bind_some, hcontext, IpcState.goOn, hsched, Option.map_some,
      Option.map_some, comesTo_of_irq hirq]
  refine ⟨_, hstep, hreach.step (a := .goOn) (fun u hu => ?_) hstep,
    ⟨rfl, rfl, ⟨u, hheld.running⟩, hthread, rfl, rfl⟩⟩
  cases hcur.symm.trans hu
  rw [hcontext]
  exact trivial

/-- `rt_thread_timeout` in the interrupt of the clock. -/
theorem timeout_eq (hreach : (ipcMachine spec flag object).Reach Orderly s)
    (hirq : s.irq = .out :: rest) (hcur : s.state.sched.current = some t)
    (htimer : s.timed u = true) :
    ∃ s', s.timeout flag u = some s' ∧ (ipcMachine spec flag object).Reach Orderly s' ∧
      Rescheduled (s.state.timeout u) s.place rest s' := by
  have hcontext : s.context t = .out := by
    rw [context, hirq]
  have hcall : s.state.call flag false t (.timeout u) =
      some (s.state.timeout u, .schedule .out) := if_pos ⟨Bool.false_ne_true, htimer⟩
  have hstep : s.step flag (.call (.timeout u)) =
      some { s with state := s.state.timeout u, irq := .schedule .out :: rest } := by
    rw [step, hcur, Option.bind_some, if_pos hcontext, hirq, List.isEmpty_cons, hcall,
      Option.map_some, comesTo_of_irq hirq]
  have horderly : Orderly s (.call (.timeout u)) := fun v _ hwaits => by cases hwaits
  have hreach' := hreach.step horderly hstep
  have hcur' : (s.state.timeout u).sched.current = some t :=
    (Sched.insertThread_current _ u).trans hcur
  obtain ⟨s', hs', hreach'', hrescheduled⟩ := reschedule hreach' rfl hcur'
  refine ⟨s', ?_, hreach'', hrescheduled⟩
  rw [timeout, hstep]
  exact hs'

/-- `rt_tick_increase`, up to the check of the timers. -/
theorem tickIncrease_eq (hreach : (ipcMachine spec flag object).Reach Orderly s)
    (hirq : s.irq = .out :: rest) (hcur : s.state.sched.current = some t) :
    ∃ s', s.tickIncrease flag = some s' ∧ (ipcMachine spec flag object).Reach Orderly s' ∧
      Rescheduled (s.state.tickIncrease t).1 s.place rest s' := by
  have hcontext : s.context t = .out := by
    rw [context, hirq]
  have hstep : s.step flag (.call .tick) = some (s.comesTo t (s.state.tickIncrease t)) := by
    rw [step, hcur, Option.bind_some, if_pos hcontext, hirq]
    rfl
  have horderly : Orderly s (.call .tick) := fun v _ hwaits => by cases hwaits
  have hreach' := hreach.step horderly hstep
  have hcur' : (s.state.tickIncrease t).1.sched.current = some t := by
    unfold IpcState.tickIncrease
    dsimp only
    split <;> exact hcur
  rw [tickIncrease, hstep, Option.bind_some]
  rw [comesTo_of_irq hirq] at hreach' ⊢
  split
  next hschedule =>
    have hplace : (s.state.tickIncrease t).2 = .schedule .out := Option.some_inj.mp hschedule
    exact reschedule hreach' (congrArg (· :: rest) hplace) hcur'
  next hschedule =>
    have hplace : (s.state.tickIncrease t).2 = .out := by
      unfold IpcState.tickIncrease at hschedule ⊢
      dsimp only at hschedule ⊢
      split at hschedule
      · exact absurd rfl hschedule
      next hslice =>
        rw [if_neg hslice]
    refine ⟨_, rfl, hreach', rfl, congrArg (· :: rest) hplace, ⟨t, hcur'⟩, rfl, rfl, rfl⟩

end IpcSystem

/-! ## The timers of the threads -/

/-- The timers are those of the threads that wait until a tick. -/
structure Wound (late : Nat) (sys : IpcSystem n) (run : TimerRun) : Prop where
  armed : Armed 0 late run
  logged : Logged run
  oneshot : ∀ t, (run.sys.timer t).periodic = false
  threads : ∀ t a, run.alarm t = some a → t < n
  timed : ∀ t : Fin n, sys.timed t = (run.alarm t).isSome
  clock : sys.state.tick = run.sys.tick

/-- A thread, and the tick its timer runs until. -/
def waitOf (sys : IpcSystem n) (run : TimerRun) (u : Fin n) : ThreadWait where
  stat := (sys.state.sched.thread u).stat
  error := sys.state.error u
  limit := (run.alarm u).map Alarm.due

/-- A wait whose time has run out. -/
def ThreadWait.over : ThreadWait where
  stat := .ready
  error := -rtEtimeout
  limit := none

/-- What a check does with a wait: one whose limit is now is over. -/
def EndsAt (now : Nat) (before after : ThreadWait) : Prop :=
  after = before ∨ before.limit = some now ∧ after = .over

section Check

variable {flag : Nat → IpcFlag} {spec : Fin n → ThreadSpec} {object : Nat → IpcObject n}
  {sys sys' : IpcSystem n} {run : TimerRun} {rest : List CallPlace} {t u : Fin n}

/-- The timeout of the thread at the front. -/
theorem Wound.serve (h : Wound 1 sys run) {others : List Nat}
    (hlist : run.sys.list = u.val :: others) (hexpired : run.sys.expired u = true)
    {place : Fin n → CallPlace}
    (hsys : IpcSystem.Rescheduled (sys.state.timeout u) place rest sys') :
    Wound 1 sys' ((run.call u).settle u) ∧
      ∀ v, waitOf sys' ((run.call u).settle u) v =
        if v = u then .over else waitOf sys run v := by
  have hsettle := settle_oneshot h.oneshot u.val
  have halarm : ((run.call u).settle u).alarm = Function.update run.alarm u none := by
    rw [hsettle]
    rfl
  have hself : sys'.state.sched.thread u =
      { sys.state.sched.thread u with stat := .ready, timer := false } := by
    rw [hsys.thread]
    exact Sched.woken_self sys.state.sched u
  have hother {v : Fin n} (hv : v ≠ u) :
      sys'.state.sched.thread v = sys.state.sched.thread v := by
    rw [hsys.thread]
    exact Sched.woken_of_ne hv
  have hne {v : Fin n} (hv : v ≠ u) : v.val ≠ u.val := fun heq => hv (Fin.ext heq)
  refine ⟨?_, fun v => ?_⟩
  · constructor
    case armed => exact h.armed.serve u
    case logged => exact (h.logged.call h.armed hlist hexpired).settle u
    case oneshot =>
      intro v
      rw [hsettle]
      exact oneshot_setActivated h.oneshot u v
    case threads =>
      intro v a ha
      rw [halarm] at ha
      by_cases hv : v = u.val
      · rw [hv]
        exact u.isLt
      · rw [Function.update_of_ne hv] at ha
        exact h.threads v a ha
    case timed =>
      intro v
      rw [halarm, IpcSystem.timed]
      by_cases hv : v = u
      · subst hv
        rw [hself, Function.update_self]
        rfl
      · rw [hother hv, Function.update_of_ne (hne hv)]
        exact h.timed v
    case clock =>
      rw [hsys.tick, hsettle]
      exact h.clock
  · rw [waitOf, halarm, hsys.error]
    by_cases hv : v = u
    · subst hv
      rw [if_pos rfl, hself, Function.update_self]
      exact congrArg (ThreadWait.mk _ · none) (Function.update_self ..)
    · rw [if_neg hv, hother hv, Function.update_of_ne (hne hv)]
      exact congrArg (ThreadWait.mk _ · _) (Function.update_of_ne hv ..)

/-- The check of the timers, by induction on its passes. -/
theorem checkCalls_eq (fuel : Nat) {sys : IpcSystem n} {run : TimerRun}
    (hreach : (ipcMachine spec flag object).Reach IpcSystem.Orderly sys)
    (hirq : sys.irq = .out :: rest) (hcur : ∃ t, sys.state.sched.current = some t)
    (h : Wound 1 sys run) :
    ∃ sys', checkCalls flag fuel sys run = some (sys', run.check fuel) ∧
      (ipcMachine spec flag object).Reach IpcSystem.Orderly sys' ∧ sys'.place = sys.place ∧
      sys'.irq = .out :: rest ∧ Wound 1 sys' (run.check fuel) ∧
      ∀ v, EndsAt run.now (waitOf sys run v) (waitOf sys' (run.check fuel) v) := by
  induction fuel generalizing sys run with
  | zero => exact ⟨sys, rfl, hreach, rfl, hirq, h, fun v => .inl rfl⟩
  | succ fuel ih =>
    unfold checkCalls TimerRun.check
    rcases hlist : run.sys.list with _ | ⟨t, others⟩
    · exact ⟨sys, rfl, hreach, rfl, hirq, h, fun v => .inl rfl⟩
    dsimp only
    split
    case isFalse => exact ⟨sys, rfl, hreach, rfl, hirq, h, fun v => .inl rfl⟩
    case isTrue hexpired =>
      obtain ⟨a, ha, -⟩ := @Armed.set_of_mem _ _ _ t h.armed (by
        rw [hlist]
        exact List.mem_cons_self)
      have hlt := h.threads t a ha
      have htimer : sys.timed ⟨t, hlt⟩ = true := by
        rw [h.timed, ha]
        rfl
      obtain ⟨r, hr⟩ := hcur
      obtain ⟨sys₁, hsys₁, hreach₁, hresc⟩ := IpcSystem.timeout_eq hreach hirq hr htimer
      obtain ⟨h₁, hwait₁⟩ := @Wound.serve _ _ _ _ _ ⟨t, hlt⟩ h _ hlist hexpired _ hresc
      obtain ⟨sys₂, hcheck, hreach₂, hplace, hirq₂, h₂, hwait₂⟩ :=
        ih hreach₁ hresc.irq hresc.running h₁
      have hnow : ((run.call t).settle t).now = run.now := by
        rw [settle_oneshot h.oneshot]
        rfl
      refine ⟨sys₂, ?_, hreach₂, hplace.trans hresc.place, hirq₂, h₂, fun v => ?_⟩
      · rw [dif_pos hlt, hsys₁]
        exact hcheck
      · have hv := hwait₂ v
        rw [hnow, hwait₁ v] at hv
        split at hv
        case isTrue hvt =>
          refine .inr ⟨?_, ?_⟩
          · rw [waitOf, hvt, ← h.armed.due_eq ha hexpired]
            exact congrArg (Option.map Alarm.due) ha
          · rcases hv with hv | ⟨hno, -⟩
            · exact hv
            · cases hno
        case isFalse => exact hv

/-- The threads behind `rt_tick_increase` are those before, but for the slice of one. -/
theorem tickIncrease_record (k : IpcState n) (t v : Fin n) :
    ((k.tickIncrease t).1.sched.thread v).stat = (k.sched.thread v).stat ∧
      ((k.tickIncrease t).1.sched.thread v).timer = (k.sched.thread v).timer := by
  have hrecord := k.sched.setTick_record t v
  unfold IpcState.tickIncrease
  dsimp only
  split <;> exact ⟨(hrecord _).1, (hrecord _).2.1⟩

theorem tickIncrease_error (k : IpcState n) (t : Fin n) : (k.tickIncrease t).1.error = k.error := by
  unfold IpcState.tickIncrease
  dsimp only
  split <;> rfl

theorem tickIncrease_tick (k : IpcState n) (t : Fin n) :
    (k.tickIncrease t).1.tick = k.tick + 1 := by
  unfold IpcState.tickIncrease
  dsimp only
  split <;> rfl

/-- Behind the check no limit is left that has come. -/
theorem Wound.later (h : Wound 0 sys run) {limit : Nat}
    (hlimit : (waitOf sys run u).limit = some limit) : run.now < limit := by
  obtain ⟨a, ha, rfl⟩ := Option.map_eq_some_iff.mp hlimit
  exact (h.armed.alarm u a ha).pending

/-- The interrupt of the clock comes to its end, and ends the waits whose limit has come. -/
theorem sysTickHandler_eq (hreach : (ipcMachine spec flag object).Reach IpcSystem.Orderly sys)
    (hcur : sys.state.sched.current = some t) (h : Wound 0 sys run) :
    ∃ sys' run', sysTickHandler flag sys run = some (sys', run') ∧
      (ipcMachine spec flag object).Reach IpcSystem.Orderly sys' ∧ sys'.place = sys.place ∧
      sys'.irq = sys.irq ∧ Wound 0 sys' run' ∧ run'.now = run.now + 1 ∧
      ∀ v, waitOf sys' run' v =
        if (waitOf sys run v).limit = some (run.now + 1) then .over else waitOf sys run v := by
  have hinterrupt : sys.step flag .interrupt = some { sys with irq := .out :: sys.irq } := by
    rw [IpcSystem.step, hcur]
    rfl
  have horderly : IpcSystem.Orderly sys .interrupt := trivial
  obtain ⟨sys₁, hsys₁, hreach₁, hresc⟩ := IpcSystem.tickIncrease_eq
    (hreach.step horderly hinterrupt) rfl hcur
  have hrecord (v : Fin n) : (sys₁.state.sched.thread v).stat = (sys.state.sched.thread v).stat ∧
      (sys₁.state.sched.thread v).timer = (sys.state.sched.thread v).timer := by
    rw [hresc.thread]
    exact tickIncrease_record sys.state t v
  have h₁ : Wound 1 sys₁ run.ticked := by
    refine ⟨h.armed.advance, logged_ticked h.logged, h.oneshot, h.threads, fun v => ?_, ?_⟩
    · rw [IpcSystem.timed, (hrecord v).2]
      exact h.timed v
    · rw [hresc.tick]
      exact (tickIncrease_tick sys.state t).trans (congrArg (· + 1) h.clock)
  have hwait₁ (v : Fin n) : waitOf sys₁ run.ticked v = waitOf sys run v := by
    rw [waitOf, (hrecord v).1, hresc.error, tickIncrease_error]
    rfl
  obtain ⟨sys₂, hcheck, hreach₂, hplace, hirq, h₂, hwait⟩ :=
    checkCalls_eq run.sys.list.length hreach₁ hresc.irq hresc.running h₁
  obtain ⟨harmed, hlogged⟩ :=
    TimerRun.check_settled h₁.armed h₁.logged (@List.countP_le_length _ _ run.sys.list)
  have hnow := check_now run.sys.list.length run.ticked
  have hleave : sys₂.leave = some { sys₂ with irq := sys.irq } := by
    rw [IpcSystem.leave, hirq]
  have h₃ : Wound 0 sys₂ (run.ticked.check run.sys.list.length) :=
    { h₂ with armed := harmed, logged := hlogged }
  refine ⟨{ sys₂ with irq := sys.irq }, run.ticked.check run.sys.list.length, ?_,
    hreach₂.step (a := .leave) trivial hleave, hplace.trans hresc.place, rfl, ?_, hnow, fun v => ?_⟩
  · rw [sysTickHandler, hinterrupt, Option.bind_some, hsys₁, Option.bind_some, hcheck,
      Option.bind_some]
    exact congrArg (Option.map (·, _)) hleave
  · exact ⟨h₃.armed, h₃.logged, h₃.oneshot, h₃.threads, h₃.timed, h₃.clock⟩
  · have hv := hwait v
    rw [hwait₁] at hv
    split
    case isTrue hdue =>
      rcases hv with hv | ⟨-, hv⟩
      · -- no alarm of this tick is left over
        have hlater := h₃.later (hv ▸ hdue)
        rw [hnow] at hlater
        exact absurd hlater (Nat.lt_irrefl _)
      · exact hv
    case isFalse hlater =>
      rcases hv with hv | ⟨hdue, -⟩
      · exact hv
      · exact absurd hdue hlater

end Check

/-! ## Steps without the clock -/

section Stops

variable {run : TimerRun} {sys sys' : IpcSystem n} {start : Option (Fin n × BitVec 32)}

theorem stop_alarm (run : TimerRun) (t : Nat) :
    (run.stop t).alarm = Function.update run.alarm t none := rfl

/-- Stopping several timers takes their alarms away. -/
theorem stops_alarm (l : List (Fin n)) (run : TimerRun) (u : Fin n) :
    (l.foldl (fun run u => run.stop u.val) run).alarm u =
      if u ∈ l then none else run.alarm u := by
  induction l generalizing run with
  | nil => rfl
  | cons t l ih =>
    rw [List.foldl_cons, ih]
    by_cases hut : u = t
    · subst hut
      rw [if_pos List.mem_cons_self, stop_alarm, Function.update_self, ite_self]
    · have hne : u.val ≠ t.val := fun heq => hut (Fin.ext heq)
      rw [stop_alarm, Function.update_of_ne hne]
      simp only [List.mem_cons, hut, false_or]

/-- What every `rt_timer_stop` keeps, all of them keep. -/
theorem stops_keep {P : TimerRun → Prop} (hstop : ∀ run t, P run → P (run.stop t))
    (l : List (Fin n)) (h : P run) : P (l.foldl (fun run u => run.stop u.val) run) := by
  induction l generalizing run with
  | nil => exact h
  | cons t l ih => exact ih (hstop run t h)

theorem stop_tick (run : TimerRun) (t : Nat) : (run.stop t).sys.tick = run.sys.tick := by
  unfold TimerRun.stop TimerSystem.stop
  split <;> rfl

theorem sleepTimer_tick (run : TimerRun) (t : Nat) (time : BitVec 32) :
    (sleepTimer run t time).sys.tick = run.sys.tick :=
  stop_tick run t

/-- The alarms that are left are those of the threads whose timers run. -/
theorem stopWoken_alarm (h : Wound 0 sys run) (u : Fin n) :
    (stopWoken sys sys' run).alarm u = if sys'.timed u then run.alarm u else none := by
  rw [stopWoken, stops_alarm]
  by_cases hafter : sys'.timed u = true
  · rw [if_pos hafter, if_neg fun hmem => ?_]
    have hwoken := (List.mem_filter.mp hmem).2
    rw [hafter, Bool.not_true, Bool.and_false] at hwoken
    cases hwoken
  · rw [if_neg hafter]
    by_cases hbefore : sys.timed u = true
    · rw [if_pos (List.mem_filter.mpr ⟨List.mem_finRange u, ?_⟩)]
      rw [hbefore, Bool.eq_false_iff.mpr hafter]
      rfl
    · rw [h.timed u, Option.isSome_iff_ne_none, not_not] at hbefore
      rw [hbefore, ite_self]

/-- The timers behind a step, before one is started. -/
theorem stopWoken_keeps (h : Wound 0 sys run) :
    TimerInv 0 (stopWoken sys sys' run) ∧
      (∀ t, ((stopWoken sys sys' run).sys.timer t).periodic = false) ∧
      (∀ t a, (stopWoken sys sys' run).alarm t = some a → t < n) ∧
      (stopWoken sys sys' run).now = run.now ∧
      (stopWoken sys sys' run).sys.tick = run.sys.tick := by
  have hkeeps {P : TimerRun → Prop} (hstop : ∀ run t, P run → P (run.stop t)) (h : P run) :
      P (stopWoken sys sys' run) :=
    stops_keep hstop _ h
  refine ⟨?_, ?_, ?_, ?_, ?_⟩
  · exact hkeeps (fun run t h => timerInv_stop h t) ⟨h.armed, h.logged⟩
  · exact @hkeeps (fun run => ∀ t, (run.sys.timer t).periodic = false)
      (fun run t h => oneshot_stop h t) h.oneshot
  · refine @hkeeps (fun run => ∀ t a, run.alarm t = some a → t < n) (fun run u h t a ha => ?_)
      h.threads
    rw [stop_alarm] at ha
    by_cases htu : t = u
    · rw [htu, Function.update_self] at ha
      cases ha
    · rw [Function.update_of_ne htu] at ha
      exact h t a ha
  · exact @hkeeps (fun r => r.now = run.now) (fun _ _ h => h) rfl
  · exact @hkeeps (fun r => r.sys.tick = run.sys.tick) (fun r t h => (stop_tick r t).trans h) rfl

end Stops

/-! ## Runs -/

namespace TimedSystem

variable {spec : Fin n → ThreadSpec} {flag : Nat → IpcFlag} {object : Nat → IpcObject n}
  {s : TimedSystem n} {sys : IpcSystem n} {start : Option (Fin n × BitVec 32)} {t : Fin n}

/-- The invariant of a run. -/
structure Keeps (spec : Fin n → ThreadSpec) (flag : Nat → IpcFlag) (object : Nat → IpcObject n)
    (s : TimedSystem n) : Prop where
  reach : (ipcMachine spec flag object).Reach IpcSystem.Orderly s.sys
  wound : Wound 0 s.sys s.run
  limit : ∀ u, s.limit u = (s.run.alarm u).map Alarm.due

/-- What a thread waits for, from the limits and from the alarms. -/
theorem Keeps.wait (h : s.Keeps spec flag object) (u : Fin n) :
    s.wait u = waitOf s.sys s.run u := by
  rw [TimedSystem.wait, waitOf, h.limit]

/-- The timers and the limits behind a step that starts none. -/
theorem Keeps.stopped (h : s.Keeps spec flag object) (u : Fin n) :
    (if sys.timed u then s.limit u else none) =
      ((stopWoken s.sys sys s.run).alarm u).map Alarm.due := by
  rw [stopWoken_alarm h.wound, h.limit]
  split <;> rfl

/-- A step, with the time that the running thread waits for. -/
theorem Keeps.follow (h : s.Keeps spec flag object)
    (hreach : (ipcMachine spec flag object).Reach IpcSystem.Orderly sys)
    (hfollows : IpcSystem.Follows s.sys sys start)
    (hshort : Short start) : (s.follow sys start).Keeps spec flag object := by
  obtain ⟨hinv, honeshot, hthreads, hnow, htick⟩ := @stopWoken_keeps n _ _ sys h.wound
  have halarm (u : Fin n) : (stopWoken s.sys sys s.run).alarm u =
      if sys.timed u then s.run.alarm u else none :=
    stopWoken_alarm h.wound u
  have hclock : sys.state.tick = (stopWoken s.sys sys s.run).sys.tick := by
    rw [hfollows.tick, htick]
    exact h.wound.clock
  cases start with
  | none =>
    refine ⟨hreach, ⟨hinv.armed, hinv.logged, honeshot, hthreads, fun u => ?_, hclock⟩,
      fun u => h.stopped u⟩
    change sys.timed u = ((stopWoken s.sys sys s.run).alarm u).isSome
    rw [halarm]
    split
    next htimed =>
      rcases hfollows.others u htimed with hbefore | ⟨time, hstart⟩
      · rw [htimed, ← h.wound.timed, hbefore]
      · cases hstart
    next htimed => exact Bool.eq_false_iff.mpr htimed
  | some r =>
    obtain ⟨t, time⟩ := r
    have hstarted := timerInv_sleepTimer hinv honeshot t hshort
    have hwoken := sleepTimer_alarm (stopWoken s.sys sys s.run) t time
    refine ⟨hreach, ⟨hstarted.armed, hstarted.logged, ?_, fun u a ha => ?_, fun u => ?_, ?_⟩,
      fun u => ?_⟩
    · exact oneshot_start (fun u => oneshot_setTime (oneshot_stop honeshot t) t u time) t
    · change (sleepTimer (stopWoken s.sys sys s.run) t time).alarm u = some a at ha
      rw [hwoken] at ha
      by_cases hut : u = t.val
      · rw [hut]
        exact t.isLt
      · rw [Function.update_of_ne hut] at ha
        exact hthreads u a ha
    · change sys.timed u = ((sleepTimer (stopWoken s.sys sys s.run) t time).alarm u).isSome
      rw [hwoken]
      by_cases hut : u = t
      · subst hut
        rw [Function.update_self, hfollows.self u time rfl]
        rfl
      · have hne : u.val ≠ t.val := fun heq => hut (Fin.ext heq)
        rw [Function.update_of_ne hne, halarm]
        split
        next htimed =>
          rcases hfollows.others u htimed with hbefore | ⟨time', hstart⟩
          · rw [htimed, ← h.wound.timed, hbefore]
          · cases hstart
            exact absurd rfl hut
        next htimed => exact Bool.eq_false_iff.mpr htimed
    · exact hclock.trans (sleepTimer_tick _ t time).symm
    · change Function.update (fun u => if sys.timed u then s.limit u else none) t
          (some (s.run.now + max 1 time.toNat)) u =
        ((sleepTimer (stopWoken s.sys sys s.run) t time).alarm u).map Alarm.due
      rw [hwoken]
      by_cases hut : u = t
      · subst hut
        rw [Function.update_self, Function.update_self, hnow]
        rfl
      · have hne : u.val ≠ t.val := fun heq => hut (Fin.ext heq)
        rw [Function.update_of_ne hut, Function.update_of_ne hne]
        exact h.stopped u

/-- The interrupt of the clock. -/
theorem Keeps.tick (h : s.Keeps spec flag object) (hcur : s.sys.state.sched.current = some t) :
    ∃ s', s.step flag .tick = some s' ∧ s'.Keeps spec flag object ∧
      s'.run.now = s.run.now + 1 ∧ s'.sys.place = s.sys.place ∧ s'.sys.irq = s.sys.irq ∧
      ∀ u, s'.wait u = if s.limit u = some (s.run.now + 1) then .over else s.wait u := by
  obtain ⟨sys', run', heq, hreach, hplace, hirq, hwound, hnow, hwait⟩ :=
    sysTickHandler_eq h.reach hcur h.wound
  have hlimit (u : Fin n) :
      (if sys'.timed u then s.limit u else none) = (run'.alarm u).map Alarm.due := by
    have hu := congrArg ThreadWait.limit (hwait u)
    have htimed := hwound.timed u
    rw [← h.wait] at hu
    split
    next hsome =>
      rw [hsome] at htimed
      split at hu
      next =>
        rw [Option.map_eq_none_iff.mp hu] at htimed
        cases htimed
      next => exact hu.symm
    next hnone =>
      rw [Bool.eq_false_iff.mpr hnone] at htimed
      rw [Option.isNone_iff_eq_none.mp (Option.isSome_eq_false_iff.mp htimed.symm)]
      rfl
  have hkeeps : Keeps spec flag object
      { sys := sys', run := run', limit := fun u => if sys'.timed u then s.limit u else none } :=
    ⟨hreach, hwound, hlimit⟩
  refine ⟨_, congrArg (Option.map _) heq, hkeeps, hnow, hplace, hirq, fun u => ?_⟩
  rw [hkeeps.wait, h.wait, h.limit]
  exact hwait u

/-- The clock ticks only while a thread runs. -/
theorem current_of_tick {s' : TimedSystem n} (hs : s.step flag .tick = some s') :
    ∃ t, s.sys.state.sched.current = some t := by
  obtain ⟨⟨sys, run⟩, hr, -⟩ := Option.map_eq_some_iff.mp hs
  obtain ⟨sys₁, hinterrupt, -⟩ := Option.bind_eq_some_iff.mp hr
  obtain ⟨t, hcur, -⟩ := Option.map_eq_some_iff.mp hinterrupt
  exact ⟨t, hcur⟩

/-- The invariant of a run holds at its start. -/
theorem keeps_init : Keeps spec flag object (timedMachine spec flag object).init := by
  have hinv : TimerInv 0 (timerMachine 0 (fun _ => 0) fun _ => false).init :=
    timerInv_init fun _ => by decide
  refine ⟨.init, ⟨hinv.armed, hinv.logged, fun _ => rfl, ?_, fun _ => rfl, rfl⟩, fun _ => rfl⟩
  exact fun _ _ halarm => by cases halarm

theorem Keeps.step (h : s.Keeps spec flag object) {a : TimedAction n} {s' : TimedSystem n}
    (hok : s.Timely a) (hs : s.step flag a = some s') : s'.Keeps spec flag object := by
  cases a with
  | act a =>
    obtain ⟨hclock, hs⟩ := Option.ite_none_left_eq_some.mp hs
    obtain ⟨sys, hsys, rfl⟩ := Option.map_eq_some_iff.mp hs
    exact h.follow (h.reach.step hok.1 hsys)
      (IpcSystem.follows_step (Bool.eq_false_iff.mpr hclock) hsys) hok.2
  | sleep tick =>
    obtain ⟨sys, hsys, rfl⟩ := Option.map_eq_some_iff.mp hs
    refine h.follow (h.reach.step hok.1 hsys) (IpcSystem.follows_sleep hsys) ?_
    cases s.sys.state.sched.current with
    | none => exact trivial
    | some t => exact hok.2
  | tick =>
    obtain ⟨t, hcur⟩ := current_of_tick hs
    obtain ⟨s'', hs'', hkeeps, -⟩ := h.tick hcur
    cases hs.symm.trans hs''
    exact hkeeps

theorem keeps_of_reach (h : (timedMachine spec flag object).Reach Timely s) :
    s.Keeps spec flag object :=
  h.invariant keeps_init fun _ _ _ hkeeps hok hs => hkeeps.step hok hs

/-- The tick counts the time, and wraps. -/
theorem Keeps.clock (h : s.Keeps spec flag object) :
    s.sys.state.tick = BitVec.ofNat 32 s.run.now := by
  rw [h.wound.clock, h.wound.armed.tick]
  exact BitVec.zero_add _

end TimedSystem

open TimedSystem in
/-- Calls and the clock, for every set of threads and objects and every interleaving of calls,
interrupts and ticks in which each step is orderly and no time is half the range of the tick. An
orderly step of a call leaves a ready thread where it suspends or ends one; finds the list node of
a thread that it suspends in no list; gives up a mutex that nobody waits for, or wakes a waiter of
an object that it detaches, only where that leaves no ready thread more urgent than the running one
or an `rt_schedule` is to come; and does not wrap the count of the scheduler lock.

Then the run is one of the calls without the clock; its tick counts the time; the timer of a thread
runs exactly while it waits with a limit, which has not come, and then it is not ready; and whenever
the interrupt of the clock comes, it ends the waits with a limit of that tick, and changes neither
another wait nor the place of any call. -/
theorem calls_on_time {n : Nat} (spec : Fin n → ThreadSpec) (flag : Nat → IpcFlag)
    (object : Nat → IpcObject n) {s : TimedSystem n}
    (h : (timedMachine spec flag object).Reach Timely s) :
    (ipcMachine spec flag object).Reach IpcSystem.Orderly s.sys ∧
    s.sys.state.tick = BitVec.ofNat 32 s.run.now ∧
    (∀ t, (s.sys.state.sched.thread t).timer = (s.limit t).isSome) ∧
    (∀ t limit, s.limit t = some limit →
      s.run.now < limit ∧ (s.sys.state.sched.thread t).stat ≠ .ready) ∧
    ∀ t, s.sys.state.sched.current = some t →
      ∃ s', (timedMachine spec flag object).step s .tick = some s' ∧
        s'.run.now = s.run.now + 1 ∧ s'.sys.place = s.sys.place ∧ s'.sys.irq = s.sys.irq ∧
        ∀ u, s'.wait u = if s.limit u = some (s.run.now + 1) then .over else s.wait u := by
  have hkeeps := keeps_of_reach h
  have htimed (t : Fin n) : (s.sys.state.sched.thread t).timer = (s.limit t).isSome := by
    rw [hkeeps.limit, Option.isSome_map]
    exact hkeeps.wound.timed t
  refine ⟨hkeeps.reach, hkeeps.clock, htimed, fun t limit hlimit => ⟨?_, fun hready => ?_⟩,
    fun t hcur => ?_⟩
  · rw [hkeeps.limit] at hlimit
    exact hkeeps.wound.later hlimit
  · obtain ⟨q, hinv⟩ := (IpcSystem.sure_of_reach hkeeps.reach).inv
    refine (hinv.sound t).timed ?_ hready
    rw [htimed, hlimit]
    rfl
  · obtain ⟨s', hs', -, hrest⟩ := hkeeps.tick hcur
    exact ⟨s', hs', hrest⟩

/-- A thread that waits for a message for three ticks is resumed without one and waits for the
other two. -/
theorem calls_on_time_resumed : ∃ s,
    (timedMachine oneAndIdle (fun _ => .fifo) fun _ => .mailbox 4 0).Reach TimedSystem.Timely s ∧
      s.run.now = 2 ∧ s.limit 0 = some 3 ∧
      ∃ s', (timedMachine oneAndIdle (fun _ => .fifo) fun _ => .mailbox 4 0).step s .tick =
        some s' ∧ s'.wait 0 = .over := by
  obtain ⟨s, hs, hcur, hnow, hlimit⟩ := Machine.exists_reach_of_run
    (timedMachine oneAndIdle (fun _ => .fifo) fun _ => .mailbox 4 0) TimedSystem.Timely
    [.act (.startup 0), .act (.startup 1), .act .schedulerStart, .act (.call (.mbRecv 0 3)),
      .act .goOn, .tick, .act (.call (.resume 0)), .act .goOn, .act .goOn, .act .goOn, .tick]
    (fun s => s.sys.state.sched.current = some 1 ∧ s.run.now = 2 ∧ s.limit 0 = some 3)
    (by decide +kernel)
  obtain ⟨s', hs', -, -, -, hwait⟩ := (calls_on_time _ _ _ hs).2.2.2.2 1 hcur
  refine ⟨s, hs, hnow, hlimit, s', hs', ?_⟩
  rw [hwait, hlimit, hnow]
  rfl

end RtVcom.Kernel
