import RtVcom.Kernel.TimedCalls

/-!
# Waits that are not prolonged

`rt_mb_send_wait`, `rt_mb_recv` and `rt_mq_recv` look at their object again when they are resumed,
and wait on if another thread was faster. For that they count the ticks that have elapsed
(`tick_delta`) and take them off the time that is left.

Beside the system with its timers stands the tick that a call asked for when it was made (`asked`),
and the tick since which a thread waits (`since`).

**The law** (`waits_not_prolonged`): however often a thread is resumed in vain, it waits until the
tick that its call asked for. The steps are those of `TimedSystem.Timely`, orderly and with times in
the range of the timers, and a thread that is resumed goes on within half the range of the tick
(`Prompt`).
-/

namespace RtVcom.Kernel

open RtVcom.Lib

variable {n : Nat}

/-! ## The calls that look again -/

/-- The call that is to look again, also where its `rt_schedule` is still to come. -/
def CallPlace.loop : CallPlace → Option WaitLoop
  | .look call => some call
  | .schedule next => next.loop
  | _ => none

/-- The next step of the call is to look. -/
def CallPlace.looks : CallPlace → Bool
  | .look _ => true
  | _ => false

namespace IpcState

variable {flag : Nat → IpcFlag} {inThread : Bool} {k k' : IpcState n} {t : Fin n}
  {r : IpcResult n} {o : Nat} {call : WaitLoop}

/-- Behind a suspension `rt_schedule` comes first. -/
theorem suspendIn_place {list : Nat} {flag : IpcFlag} {time : BitVec 32} {next : CallPlace}
    (hr : k.suspendIn t list flag time next = some r) : r.2 = .schedule next := by
  obtain ⟨s, -, rfl⟩ := Option.map_eq_some_iff.mp hr
  rfl

/-- A piece that wakes does not look again; nor do those below. -/
theorem wake_loop {list : Nat} (hr : k.wake list = some r) : r.2.loop = none := by
  unfold wake at hr
  split at hr
  · obtain ⟨k', -, rfl⟩ := Option.map_eq_some_iff.mp hr
    rfl
  · cases hr
    rfl

theorem reset_loop {cmd : Int} {object : IpcObject n} (hr : k.reset o cmd object = some r) :
    r.2.loop = none := by
  unfold reset at hr
  split at hr
  · obtain ⟨k', -, rfl⟩ := Option.map_eq_some_iff.mp hr
    rfl
  · cases hr
    rfl

theorem detach_loop {lists : List Nat} (hr : k.detach o lists = some r) : r.2.loop = none := by
  unfold detach at hr
  split at hr
  · cases hr
    rfl
  · split at hr <;> cases hr <;> rfl

theorem semTake_loop {time : BitVec 32} (hr : k.semTake flag inThread t o time = some r) :
    r.2.loop = none := by
  unfold semTake at hr
  split at hr
  · split at hr
    · cases hr
      rfl
    · split at hr
      · cases hr
        rfl
      · obtain ⟨-, hr⟩ := Option.ite_none_right_eq_some.mp hr
        rw [suspendIn_place hr]
        rfl
  · cases hr

theorem semRelease_loop (hr : k.semRelease o = some r) : r.2.loop = none := by
  unfold semRelease at hr
  split at hr
  · split at hr
    · exact wake_loop hr
    · cases hr
      rfl
  · cases hr

theorem mutexTake_loop {time : BitVec 32} (hr : k.mutexTake flag t o time = some r) :
    r.2.loop = none := by
  unfold mutexTake at hr
  split at hr
  · dsimp only at hr
    split at hr
    · cases hr
      rfl
    · split at hr
      · cases hr
        rfl
      · split at hr
        · cases hr
          rfl
        · obtain ⟨u, -, hr⟩ := Option.bind_eq_some_iff.mp hr
          rw [suspendIn_place hr]
          rfl
  · cases hr

theorem mutexRelease_loop (hr : k.mutexRelease t o = some r) : r.2.loop = none := by
  unfold mutexRelease at hr
  split at hr
  · split at hr
    · cases hr
      rfl
    · split at hr
      · cases hr
        rfl
      · dsimp only at hr
        split at hr
        · exact wake_loop hr
        · cases hr
          rfl
  · cases hr

theorem eventSend_loop {set : BitVec 32} (hr : k.eventSend o set = some r) : r.2.loop = none := by
  unfold eventSend at hr
  split at hr
  · split at hr
    · cases hr
      rfl
    · obtain ⟨⟨k', needSchedule⟩, -, rfl⟩ := Option.map_eq_some_iff.mp hr
      cases needSchedule <;> rfl
  · cases hr

theorem eventRecv_loop {set : BitVec 32} {option : BitVec 8} {timeout : BitVec 32}
    (hr : k.eventRecv flag t o set option timeout = some r) : r.2.loop = none := by
  unfold eventRecv at hr
  split at hr
  · dsimp only at hr
    split at hr
    · cases hr
      rfl
    · split at hr
      · cases hr
        rfl
      · split at hr
        · cases hr
          rfl
        · rw [suspendIn_place hr]
          rfl
  · cases hr

theorem finish_loop (hr : k.finish call = some r) : r.2.loop = none := by
  unfold finish at hr
  split at hr
  · exact wake_loop hr
  · exact wake_loop hr
  · cases hr
    rfl
  · cases hr

theorem mqSend_loop {size : Nat} (hr : k.mqSend o size = some r) : r.2.loop = none := by
  unfold mqSend at hr
  split at hr
  · split at hr <;> cases hr <;> rfl
  · cases hr

/-- A pass behind which the call is to look again came to `rt_ipc_list_suspend`. -/
theorem pass_loop {next : WaitLoop} (hr : k.pass flag inThread t call = some r)
    (hloop : r.2.loop = some next) :
    k.waitsIn call = true ∧ next = { call with wait := call.wait.started k.tick } := by
  unfold pass at hr
  split at hr
  next hblocks =>
    split at hr
    next htimeout =>
      cases hr
      cases hloop
    next htimeout =>
      obtain ⟨-, hr⟩ := Option.ite_none_right_eq_some.mp hr
      rw [suspendIn_place hr] at hloop
      exact ⟨Bool.and_eq_true_iff.mpr ⟨hblocks, decide_eq_true htimeout⟩,
        (Option.some_inj.mp hloop).symm⟩
  next hblocks => cases (finish_loop hr).symm.trans hloop

/-- The first pass of a loop, where it is to look again. -/
theorem enter_loop {next : WaitLoop} (hr : k.enter flag inThread t call = some r)
    (hloop : r.2.loop = some next) :
    k.waitsIn call = true ∧ next = { call with wait := call.wait.started k.tick } := by
  unfold enter at hr
  split at hr
  · cases hr
    cases hloop
  · exact pass_loop hr hloop

/-- The first piece of a call, where the call is to look again. -/
theorem call_loop {c : IpcCall n} (hr : k.call flag inThread t c = some r)
    (hloop : r.2.loop = some call) :
    k.waits t c = true ∧ call.wait = (ipcWait t.val c.time).started k.tick := by
  have hnone {p : Prop} (hnot : r.2.loop = none) : p := by
    cases hnot.symm.trans hloop
  cases c with
  | semTake o time => exact hnone (semTake_loop hr)
  | semRelease o => exact hnone (semRelease_loop hr)
  | semControl o cmd arg =>
    obtain ⟨object, hr⟩ := reset_of_semControl hr
    exact hnone (reset_loop hr)
  | mutexTake o time =>
    obtain ⟨-, hr⟩ := Option.ite_none_right_eq_some.mp hr
    exact hnone (mutexTake_loop hr)
  | mutexRelease o =>
    obtain ⟨-, hr⟩ := Option.ite_none_right_eq_some.mp hr
    exact hnone (mutexRelease_loop hr)
  | mutexControl o cmd =>
    cases hr
    cases hloop
  | eventSend o set => exact hnone (eventSend_loop hr)
  | eventRecv o set option timeout =>
    obtain ⟨-, hr⟩ := Option.ite_none_right_eq_some.mp hr
    exact hnone (eventRecv_loop hr)
  | eventControl o cmd =>
    obtain ⟨object, hr⟩ := reset_of_eventControl hr
    exact hnone (reset_loop hr)
  | mbSendWait o timeout | mbRecv o timeout | mqRecv o timeout =>
    obtain ⟨hwaits, rfl⟩ := enter_loop hr hloop
    exact ⟨hwaits, rfl⟩
  | mbControl o cmd =>
    obtain ⟨object, hr⟩ := reset_of_mbControl hr
    exact hnone (reset_loop hr)
  | mqSend o size => exact hnone (mqSend_loop hr)
  | mqControl o cmd =>
    obtain ⟨object, hr⟩ := reset_of_mqControl hr
    exact hnone (reset_loop hr)
  | detach o =>
    obtain ⟨-, hr⟩ := Option.ite_none_left_eq_some.mp hr
    cases hr
    cases hloop
  | startup u | delete u | suspend | sleep | exit | timeout u =>
    obtain ⟨-, hr⟩ := Option.ite_none_right_eq_some.mp hr
    cases hr
    cases hloop
  | resume u | yield | enterCritical =>
    cases hr
    cases hloop
  | exitCritical =>
    cases hr
    refine hnone ?_
    unfold exitCritical
    dsimp only
    split <;> rfl
  | tick =>
    obtain ⟨-, hr⟩ := Option.ite_none_left_eq_some.mp hr
    cases hr
    refine hnone ?_
    unfold tickIncrease
    dsimp only
    split <;> rfl

/-- A call of an interrupt does not wait. -/
theorem waits_inThread {c : IpcCall n} (hr : k.call flag inThread t c = some r)
    (hwaits : k.waits t c = true) : inThread = true := by
  have henter {call : WaitLoop} (hr : k.enter flag inThread t call = some r)
      (hwaits : k.waitsIn call = true) : inThread = true := by
    obtain ⟨hblocks, htimeout⟩ := Bool.and_eq_true_iff.mp hwaits
    have htimeout := of_decide_eq_true htimeout
    rw [enter, if_neg fun h => htimeout h.2, pass, if_pos hblocks, if_neg htimeout] at hr
    exact (Option.ite_none_right_eq_some.mp hr).1
  cases c with
  | semTake o time =>
    change k.semTake flag inThread t o time = some r at hr
    unfold semTake at hr
    split at hr
    next value hobject =>
      rw [waits, hobject] at hwaits
      obtain ⟨hvalue, htime⟩ := of_decide_eq_true hwaits
      rw [if_neg hvalue, if_neg htime] at hr
      exact (Option.ite_none_right_eq_some.mp hr).1
    next => cases hr
  | mutexTake o time => exact (Option.ite_none_right_eq_some.mp hr).1
  | eventRecv o set option timeout => exact (Option.ite_none_right_eq_some.mp hr).1
  | mbSendWait o timeout | mbRecv o timeout | mqRecv o timeout => exact henter hr hwaits
  | _ => cases hwaits

/-- The next piece of a call, where the call is to look again. -/
theorem goOn_loop {place : CallPlace} (hr : k.goOn flag inThread t place = some r)
    (hloop : r.2.loop = some call) :
    place.looks = false ∧ place.loop = some call ∨
      ∃ before : WaitLoop, place = .look before ∧ k.error t = rtEok ∧
        k.waitsIn { before with wait := before.wait.recalculated k.tick } = true ∧
        call.wait = (before.wait.recalculated k.tick).started k.tick := by
  have hnone {p : Prop} (hnot : r.2.loop = none) : p := by
    cases hnot.symm.trans hloop
  cases place with
  | out => cases hr
  | schedule next =>
    obtain ⟨sched, -, rfl⟩ := Option.map_eq_some_iff.mp hr
    exact .inl ⟨rfl, hloop⟩
  | slept =>
    cases hr
    cases hloop
  | look before =>
    change k.again flag inThread t before = some r at hr
    unfold again at hr
    split at hr
    next =>
      cases hr
      cases hloop
    next herror =>
      obtain ⟨hwaits, rfl⟩ := pass_loop hr hloop
      exact .inr ⟨before, rfl, not_not.mp herror, hwaits, rfl⟩
  | linking o =>
    change k.link o = some r at hr
    unfold link at hr
    split at hr
    · exact hnone (wake_loop hr)
    · cases hr
  | puttingBack o =>
    change k.putBack o = some r at hr
    unfold putBack at hr
    split at hr
    · cases hr
      cases hloop
    · cases hr
  | detaching o lists => exact hnone (detach_loop hr)
  | ended => cases hr

end IpcState

/-! ## The system -/

/-- The system with its timers, what its calls asked for, and since when threads wait. -/
structure LimitSystem (n : Nat) where
  timed : TimedSystem n
  asked : Fin n → Option Nat
  since : Fin n → Nat

/-- A thread that a step puts to wait, and for how long. -/
def TimedSystem.begins (s : TimedSystem n) : TimedAction n → Option (Fin n × BitVec 32)
  | .act a => s.start a
  | .sleep tick => s.sys.state.sched.current.map (·, tick)
  | .tick => none

namespace LimitSystem

/-- A call asks once. -/
def next (s : LimitSystem n) (a : TimedAction n) (timed : TimedSystem n) : LimitSystem n :=
  match s.timed.begins a with
  | none => { s with timed }
  | some (t, time) =>
    { timed
      asked :=
        if a = .act .goOn then s.asked
        else Function.update s.asked t (some (s.timed.run.now + max 1 time.toNat))
      since := Function.update s.since t s.timed.run.now }

end LimitSystem

/-- The machine of the calls, before any was made. -/
def limitMachine (spec : Fin n → ThreadSpec) (flag : Nat → IpcFlag) (object : Nat → IpcObject n) :
    Machine (LimitSystem n) (TimedAction n) where
  init :=
    { timed := (timedMachine spec flag object).init
      asked := fun _ => none
      since := fun _ => 0 }
  step s a := (s.timed.step flag a).map (s.next a)

/-- A step as the timers need it, orderly and with a short time, where a resumed thread goes on
within half the range of the tick. -/
def LimitSystem.Prompt (s : LimitSystem n) (a : TimedAction n) : Prop :=
  s.timed.Timely a ∧ (a = .act .goOn → ∀ t ∈ s.timed.sys.state.sched.current,
    (s.timed.sys.context t).looks = true → s.timed.run.now < s.since t + rtTickMax / 2)

instance : DecidableRel (LimitSystem.Prompt (n := n)) := fun _ _ =>
  inferInstanceAs (Decidable (_ ∧ _))

/-! ## What is left of a waiting time -/

theorem IpcWait.one_le_of_pos {time : BitVec 32} (h : 0 < time.toInt) : 1 ≤ time.toNat := by
  rw [BitVec.toInt_eq_toNat_cond] at h
  split at h <;> omega

/-- The time that is left ends where the whole time ended. -/
theorem IpcWait.recalculated_until {w : IpcWait} {since now : Nat} (hw : 0 < w.timeout.toInt)
    (hdelta : w.tickDelta = BitVec.ofNat 32 since) (hle : since ≤ now)
    (hnow : now < since + rtTickMax / 2)
    (hleft : 0 < (w.recalculated (BitVec.ofNat 32 now)).timeout.toInt) :
    now + (w.recalculated (BitVec.ofNat 32 now)).timeout.toNat = since + w.timeout.toNat := by
  have helapsed : (BitVec.ofNat 32 now - w.tickDelta).toNat = now - since := by
    rw [hdelta, BitVec.toNat_sub, BitVec.toNat_ofNat, BitVec.toNat_ofNat]
    unfold rtTickMax at hnow
    omega
  unfold recalculated at hleft ⊢
  rw [if_pos hw] at hleft ⊢
  dsimp only at hleft ⊢
  have hlt := w.timeout.isLt
  rw [BitVec.toInt_eq_toNat_cond] at hw
  unfold rtTickMax at hnow
  split at hleft
  next => exact absurd hleft (by decide)
  next hpos =>
    rw [if_neg hpos]
    have hsub : (w.timeout - (BitVec.ofNat 32 now - w.tickDelta)).toNat =
        (2 ^ 32 - (now - since) + w.timeout.toNat) % 2 ^ 32 := by
      rw [BitVec.toNat_sub, helapsed]
    rw [BitVec.toInt_eq_toNat_cond, hsub] at hleft
    rw [hsub]
    split at hw
    · split at hleft
      · omega
      · omega
    · omega

/-! ## Where a step leaves its caller -/

namespace IpcSystem

variable {s : IpcSystem n} {t u : Fin n}

/-- Where a piece leaves its caller, unless an interrupt made it. -/
theorem comesTo_place (s : IpcSystem n) (t : Fin n) (r : IpcResult n) (u : Fin n) :
    (s.comesTo t r).place u = if s.irq = [] ∧ u = t then r.2 else s.place u := by
  unfold comesTo
  split
  next hirq => rw [hirq, if_neg fun h => by cases h.1]
  next hirq =>
    rw [hirq]
    by_cases hut : u = t
    · subst hut
      rw [if_pos ⟨rfl, rfl⟩]
      exact Function.update_self ..
    · rw [if_neg fun h => hut h.2]
      exact Function.update_of_ne hut ..

/-- An interrupt is where it was, or where its piece left it. -/
theorem mem_comesTo_irq {place : CallPlace} {r : IpcResult n}
    (h : place ∈ (s.comesTo t r).irq) : place ∈ s.irq ∨ place = r.2 ∧ s.irq ≠ [] := by
  unfold comesTo at h
  split at h
  next hirq =>
    rw [hirq]
    rcases List.mem_cons.mp h with h | h
    · exact .inr ⟨h, List.cons_ne_nil _ _⟩
    · exact .inl (List.mem_cons_of_mem _ h)
  next hirq => exact .inl h

end IpcSystem

namespace TimedSystem

variable {spec : Fin n → ThreadSpec} {flag : Nat → IpcFlag} {object : Nat → IpcObject n}
  {s : TimedSystem n}

theorem follow_sys (s : TimedSystem n) (sys : IpcSystem n)
    (start : Option (Fin n × BitVec 32)) : (s.follow sys start).sys = sys := by
  cases start <;> rfl

theorem Keeps.follow_now (h : s.Keeps spec flag object) (sys : IpcSystem n)
    (start : Option (Fin n × BitVec 32)) : (s.follow sys start).run.now = s.run.now := by
  have hnow := (@stopWoken_keeps n _ _ sys h.wound).2.2.2.1
  cases start <;> exact hnow

end TimedSystem

/-! ## Runs -/

namespace LimitSystem

variable {spec : Fin n → ThreadSpec} {flag : Nat → IpcFlag} {object : Nat → IpcObject n}
  {s : LimitSystem n} {t u : Fin n} {a : TimedAction n} {timed : TimedSystem n}
  {sys : IpcSystem n} {time : BitVec 32}

/-- The invariant of a run. -/
structure Kept (spec : Fin n → ThreadSpec) (flag : Nat → IpcFlag) (object : Nat → IpcObject n)
    (s : LimitSystem n) : Prop where
  reach : (timedMachine spec flag object).Reach TimedSystem.Timely s.timed
  limit : ∀ t limit, s.timed.limit t = some limit → s.asked t = some limit
  loops : ∀ t call, (s.timed.sys.place t).loop = some call → 0 < call.wait.timeout.toInt →
    call.wait.tickDelta = BitVec.ofNat 32 (s.since t) ∧
      s.asked t = some (s.since t + call.wait.timeout.toNat)
  irq : ∀ place ∈ s.timed.sys.irq, place.loop = none
  since : ∀ t, s.since t ≤ s.timed.run.now

/-- A step that puts nobody to wait asks for nothing. -/
theorem next_none (h : s.timed.begins a = none) : s.next a timed = { s with timed } := by
  rw [next, h]

/-- A step that puts somebody to wait writes down what for. -/
theorem next_some (h : s.timed.begins a = some (t, time)) : s.next a timed =
    { timed
      asked :=
        if a = .act .goOn then s.asked
        else Function.update s.asked t (some (s.timed.run.now + max 1 time.toNat))
      since := Function.update s.since t s.timed.run.now } := by
  rw [next, h]

theorem next_timed : (s.next a timed).timed = timed := by
  unfold next
  split <;> rfl

/-- What is kept of a thread that does not begin to wait. -/
theorem next_of_ne (h : ∀ time, s.timed.begins a ≠ some (u, time)) :
    (s.next a timed).asked u = s.asked u ∧ (s.next a timed).since u = s.since u := by
  rcases hbegins : s.timed.begins a with _ | ⟨t, time⟩
  · rw [next_none hbegins]
    exact ⟨rfl, rfl⟩
  · have hut : u ≠ t := fun heq => h time (heq ▸ hbegins)
    rw [next_some hbegins]
    refine ⟨?_, Function.update_of_ne hut ..⟩
    dsimp only
    split
    · rfl
    · exact Function.update_of_ne hut ..

/-- What a thread has that begins to wait. -/
theorem next_self (h : s.timed.begins a = some (t, time))
    (hagain : a = .act .goOn → s.asked t = some (s.timed.run.now + max 1 time.toNat)) :
    (s.next a timed).asked t = some (s.timed.run.now + max 1 time.toNat) ∧
      (s.next a timed).since t = s.timed.run.now := by
  rw [next_some h]
  refine ⟨?_, Function.update_self ..⟩
  dsimp only
  split
  next hgoOn => exact hagain hgoOn
  next => exact Function.update_self ..

namespace Kept

/-- A thread whose limit is new has it from the step, and the others have theirs. -/
theorem limit_next (h : s.Kept spec flag object) {start : Option (Fin n × BitVec 32)}
    (hbegins : s.timed.begins a = start)
    (hagain : ∀ t time, start = some (t, time) → a = .act .goOn →
      s.asked t = some (s.timed.run.now + max 1 time.toNat)) {limit : Nat}
    (hlimit : (s.timed.follow sys start).limit u = some limit) :
    (s.next a (s.timed.follow sys start)).asked u = some limit := by
  cases start with
  | none =>
    have hold : (if sys.timed u then s.timed.limit u else none) = some limit := hlimit
    rw [next_none hbegins]
    exact h.limit u limit (Option.ite_none_right_eq_some.mp hold).2
  | some r =>
    obtain ⟨t, time⟩ := r
    change Function.update (fun u => if sys.timed u then s.timed.limit u else none) t
      (some (s.timed.run.now + max 1 time.toNat)) u = some limit at hlimit
    by_cases hut : u = t
    · subst hut
      rw [Function.update_self] at hlimit
      rw [(next_self hbegins (hagain u time rfl)).1, hlimit]
    · rw [Function.update_of_ne hut] at hlimit
      have hne (time' : BitVec 32) : s.timed.begins a ≠ some (u, time') := by
        rw [hbegins]
        rintro ⟨⟩
        exact hut rfl
      rw [(next_of_ne hne).1]
      exact h.limit u limit (Option.ite_none_right_eq_some.mp hlimit).2

/-- A step that is no call: no thread comes to another place. -/
theorem still (h : s.Kept spec flag object) (hbegins : s.timed.begins a = none)
    (hreach : (timedMachine spec flag object).Reach TimedSystem.Timely (s.timed.follow sys none))
    (hplace : sys.place = s.timed.sys.place) (hirq : ∀ place ∈ sys.irq, place.loop = none) :
    (s.next a (s.timed.follow sys none)).Kept spec flag object := by
  have hnow := (TimedSystem.keeps_of_reach h.reach).follow_now sys none
  rw [next_none hbegins]
  refine ⟨hreach, fun u limit hlimit => ?_, fun u call hloop => ?_, ?_, fun u => ?_⟩
  · have hnext := h.limit_next hbegins (fun t time hstart => by cases hstart) hlimit
    rwa [next_none hbegins] at hnext
  · dsimp only at hloop ⊢
    rw [TimedSystem.follow_sys, hplace] at hloop
    exact h.loops u call hloop
  · dsimp only
    rw [TimedSystem.follow_sys]
    exact hirq
  · dsimp only
    rw [hnow]
    exact h.since u

/-- A piece of a call of the running thread, or of an interrupt. -/
theorem piece (h : s.Kept spec flag object) {r : IpcResult n}
    {start : Option (Fin n × BitVec 32)} (hbegins : s.timed.begins a = start)
    (hreach : (timedMachine spec flag object).Reach TimedSystem.Timely
      (s.timed.follow (s.timed.sys.comesTo t r) start))
    (hstart : ∀ u time, start = some (u, time) → u = t ∧ s.timed.sys.irq = [])
    (hagain : ∀ u time, start = some (u, time) → a = .act .goOn →
      s.asked u = some (s.timed.run.now + max 1 time.toNat))
    (hirq : s.timed.sys.irq ≠ [] → r.2.loop = none)
    (hloop : s.timed.sys.irq = [] → ∀ call, r.2.loop = some call → 0 < call.wait.timeout.toInt →
      ∀ s', s' = s.next a (s.timed.follow (s.timed.sys.comesTo t r) start) →
        call.wait.tickDelta = BitVec.ofNat 32 (s'.since t) ∧
          s'.asked t = some (s'.since t + call.wait.timeout.toNat)) :
    (s.next a (s.timed.follow (s.timed.sys.comesTo t r) start)).Kept spec flag object := by
  have hnow := (TimedSystem.keeps_of_reach h.reach).follow_now (s.timed.sys.comesTo t r) start
  have hsys := s.timed.follow_sys (s.timed.sys.comesTo t r) start
  refine ⟨?_, fun u limit hlimit => ?_, fun u call hu => ?_, fun place hplace => ?_, fun u => ?_⟩
  · rw [next_timed]
    exact hreach
  · rw [next_timed] at hlimit
    exact h.limit_next hbegins hagain hlimit
  · rw [next_timed, hsys, IpcSystem.comesTo_place] at hu
    split at hu
    next hself =>
      obtain ⟨hempty, rfl⟩ := hself
      intro hpos
      exact hloop hempty call hu hpos _ rfl
    next hother =>
      have hne (time : BitVec 32) : s.timed.begins a ≠ some (u, time) := by
        rw [hbegins]
        intro hsome
        obtain ⟨hut, hempty⟩ := hstart u time hsome
        exact hother ⟨hempty, hut⟩
      rw [(next_of_ne hne).1, (next_of_ne hne).2]
      exact h.loops u call hu
  · rw [next_timed, hsys] at hplace
    rcases IpcSystem.mem_comesTo_irq hplace with hplace | ⟨rfl, hnonempty⟩
    · exact h.irq place hplace
    · exact hirq hnonempty
  · rw [next_timed, hnow]
    by_cases hbegin : ∃ time, s.timed.begins a = some (u, time)
    · obtain ⟨time, hbegin⟩ := hbegin
      rw [next_some hbegin]
      exact le_of_eq (Function.update_self ..)
    · rw [(next_of_ne fun time heq => hbegin ⟨time, heq⟩).2]
      exact h.since u

/-- The first piece of a call. -/
theorem call (h : s.Kept spec flag object) {c : IpcCall n} {r : IpcResult n}
    (hcur : s.timed.sys.state.sched.current = some t)
    (hr : s.timed.sys.state.call flag s.timed.sys.irq.isEmpty t c = some r)
    (hreach : (timedMachine spec flag object).Reach TimedSystem.Timely
      (s.timed.follow (s.timed.sys.comesTo t r) (s.timed.start (.call c)))) :
    (s.next (.act (.call c))
      (s.timed.follow (s.timed.sys.comesTo t r) (s.timed.start (.call c)))).Kept
        spec flag object := by
  have hstarted (u : Fin n) (time : BitVec 32) (hstart : s.timed.start (.call c) = some (u, time)) :
      u = t ∧ s.timed.sys.irq = [] := by
    rw [TimedSystem.start, hcur] at hstart
    obtain ⟨time', htime, heq⟩ := Option.map_eq_some_iff.mp hstart
    cases heq
    obtain ⟨⟨hwaits, -⟩, -⟩ := Option.ite_none_right_eq_some.mp htime
    exact ⟨rfl, List.isEmpty_iff.mp (IpcState.waits_inThread hr hwaits)⟩
  refine h.piece rfl hreach hstarted (fun u time _ heq => by cases heq) (fun hirq => ?_)
    fun hirq call hloop hpos s' hs' => ?_
  · by_contra hsome
    obtain ⟨call, hcall⟩ := Option.ne_none_iff_exists'.mp hsome
    have hin := IpcState.waits_inThread hr (IpcState.call_loop hr hcall).1
    exact hirq (List.isEmpty_iff.mp hin)
  · obtain ⟨hwaits, hwait⟩ := IpcState.call_loop hr hloop
    rw [hwait, IpcWait.started_timeout] at hpos
    have hbegins : s.timed.begins (.act (.call c)) = some (t, c.time) := by
      rw [TimedSystem.begins, TimedSystem.start, hcur]
      change Option.map (t, ·) (if _ then some c.time else none) = _
      rw [if_pos ⟨hwaits, hpos⟩]
      rfl
    obtain ⟨hasked, hsince⟩ := @next_self _ _ _ _ (s.timed.follow (s.timed.sys.comesTo t r)
      (s.timed.start (.call c))) _ hbegins fun heq => by cases heq
    rw [hs', hasked, hsince, hwait, IpcWait.started_timeout, IpcWait.started, if_pos hpos]
    refine ⟨(TimedSystem.keeps_of_reach h.reach).clock, ?_⟩
    have hone : 1 ≤ c.time.toNat := IpcWait.one_le_of_pos hpos
    rw [max_eq_right hone]
    rfl

/-- What is to wait again begins to wait for the rest of its time. -/
theorem again (h : s.Kept spec flag object) (hok : s.Prompt (.act .goOn)) {before : WaitLoop}
    (hcur : s.timed.sys.state.sched.current = some t)
    (hcontext : s.timed.sys.context t = .look before) :
    s.timed.sys.irq = [] ∧
      (0 < (before.wait.recalculated s.timed.sys.state.tick).timeout.toInt →
        s.timed.run.now + (before.wait.recalculated s.timed.sys.state.tick).timeout.toNat =
            s.since t + before.wait.timeout.toNat ∧
          s.asked t = some (s.since t + before.wait.timeout.toNat)) := by
  have hirq : s.timed.sys.irq = [] := by
    by_contra hnonempty
    obtain ⟨place, rest, hirq⟩ := List.exists_cons_of_ne_nil hnonempty
    have hloop := h.irq place (by rw [hirq]; exact List.mem_cons_self)
    rw [IpcSystem.context, hirq] at hcontext
    rw [show place = .look before from hcontext] at hloop
    cases hloop
  refine ⟨hirq, fun hleft => ?_⟩
  have hplace : s.timed.sys.place t = .look before := by
    rwa [IpcSystem.context, hirq] at hcontext
  have hpos : 0 < before.wait.timeout.toInt := by
    by_contra hnot
    rw [IpcWait.recalculated, if_neg hnot] at hleft
    exact hnot hleft
  obtain ⟨hdelta, hasked⟩ := h.loops t before (by rw [hplace]; rfl) hpos
  have hprompt := hok.2 rfl t hcur (by rw [hcontext]; rfl)
  rw [(TimedSystem.keeps_of_reach h.reach).clock] at hleft ⊢
  exact ⟨IpcWait.recalculated_until hpos hdelta (h.since t) hprompt hleft, hasked⟩

/-- The next piece of a call. -/
theorem goOn (h : s.Kept spec flag object) (hok : s.Prompt (.act .goOn)) {r : IpcResult n}
    (hcur : s.timed.sys.state.sched.current = some t)
    (hr : s.timed.sys.state.goOn flag s.timed.sys.irq.isEmpty t (s.timed.sys.context t) = some r)
    (hreach : (timedMachine spec flag object).Reach TimedSystem.Timely
      (s.timed.follow (s.timed.sys.comesTo t r) (s.timed.start .goOn))) :
    (s.next (.act .goOn)
      (s.timed.follow (s.timed.sys.comesTo t r) (s.timed.start .goOn))).Kept
        spec flag object := by
  have hlooks (u : Fin n) (time : BitVec 32) (hstart : s.timed.start .goOn = some (u, time)) :
      u = t ∧ ∃ before, s.timed.sys.context t = .look before ∧
        0 < (before.wait.recalculated s.timed.sys.state.tick).timeout.toInt ∧
        time = (before.wait.recalculated s.timed.sys.state.tick).timeout := by
    rw [TimedSystem.start, hcur] at hstart
    obtain ⟨time', htime, heq⟩ := Option.map_eq_some_iff.mp hstart
    cases heq
    unfold IpcSystem.startTime at htime
    dsimp only at htime
    split at htime
    next before hcontext =>
      obtain ⟨⟨-, -, hleft⟩, htime⟩ := Option.ite_none_right_eq_some.mp htime
      exact ⟨rfl, before, hcontext, hleft, (Option.some_inj.mp htime).symm⟩
    next => cases htime
  refine h.piece rfl hreach (fun u time hstart => ?_) (fun u time hstart _ => ?_)
    (fun hirq => ?_) fun hirq call hloop hpos s' hs' => ?_
  · obtain ⟨rfl, before, hcontext, -⟩ := hlooks u time hstart
    exact ⟨rfl, (h.again hok hcur hcontext).1⟩
  · obtain ⟨rfl, before, hcontext, hleft, rfl⟩ := hlooks u time hstart
    obtain ⟨huntil, hasked⟩ := (h.again hok hcur hcontext).2 hleft
    rw [hasked, ← huntil, max_eq_right (IpcWait.one_le_of_pos hleft)]
  · by_contra hsome
    obtain ⟨call, hcall⟩ := Option.ne_none_iff_exists'.mp hsome
    rcases IpcState.goOn_loop hr hcall with ⟨-, hloop⟩ | ⟨before, hcontext, -⟩
    · obtain ⟨place, rest, heq⟩ := List.exists_cons_of_ne_nil hirq
      rw [IpcSystem.context, heq] at hloop
      have hnone := h.irq place (by rw [heq]; exact List.mem_cons_self)
      cases hnone.symm.trans hloop
    · exact hirq (h.again hok hcur hcontext).1
  · rcases IpcState.goOn_loop hr hloop with
      ⟨hnot, hbefore⟩ | ⟨before, hcontext, herror, hwaits, hwait⟩
    · -- the `rt_schedule` behind a suspension
      have hne (time : BitVec 32) : s.timed.begins (.act .goOn) ≠ some (t, time) := by
        intro hstart
        obtain ⟨-, before, hcontext, -⟩ := hlooks t time hstart
        rw [hcontext] at hnot
        cases hnot
      rw [hs', (next_of_ne hne).1, (next_of_ne hne).2]
      rw [IpcSystem.context, hirq] at hbefore
      exact h.loops t call hbefore hpos
    · rw [hwait, IpcWait.started_timeout] at hpos
      obtain ⟨huntil, hasked⟩ := (h.again hok hcur hcontext).2 hpos
      have hbegins : s.timed.begins (.act .goOn) =
          some (t, (before.wait.recalculated s.timed.sys.state.tick).timeout) := by
        rw [TimedSystem.begins, TimedSystem.start, hcur, Option.bind_some, IpcSystem.startTime,
          hcontext]
        dsimp only
        rw [if_pos ⟨herror, hwaits, hpos⟩]
        rfl
      obtain ⟨hasked', hsince⟩ := @next_self _ _ _ _ (s.timed.follow (s.timed.sys.comesTo t r)
        (s.timed.start .goOn)) _ hbegins fun _ => by
          rw [hasked, ← huntil, max_eq_right (IpcWait.one_le_of_pos hpos)]
      rw [hs', hasked', hsince, hwait, IpcWait.started_timeout, IpcWait.started, if_pos hpos,
        max_eq_right (IpcWait.one_le_of_pos hpos)]
      exact ⟨(TimedSystem.keeps_of_reach h.reach).clock, rfl⟩

/-- `rt_thread_sleep`. -/
theorem sleep (h : s.Kept spec flag object) {tick : BitVec 32}
    (hcur : s.timed.sys.state.sched.current = some t)
    (hstep : s.timed.sys.step flag (.call .sleep) = some sys)
    (hreach : (timedMachine spec flag object).Reach TimedSystem.Timely
      (s.timed.follow sys (some (t, tick)))) :
    (s.next (.sleep tick) (s.timed.follow sys (some (t, tick)))).Kept spec flag object := by
  obtain ⟨t', hcur', hstep⟩ := Option.bind_eq_some_iff.mp hstep
  cases hcur.symm.trans hcur'
  obtain ⟨-, hstep⟩ := Option.ite_none_right_eq_some.mp hstep
  obtain ⟨r, hr, rfl⟩ := Option.map_eq_some_iff.mp hstep
  obtain ⟨hempty, hr⟩ := Option.ite_none_right_eq_some.mp hr
  cases hr
  have hbegins : s.timed.begins (.sleep tick) = some (t, tick) := congrArg (Option.map _) hcur
  refine h.piece hbegins hreach (fun u time hstart => ?_) (fun u time _ heq => by cases heq)
    (fun _ => rfl) fun _ call hloop => by cases hloop
  cases hstart
  exact ⟨rfl, List.isEmpty_iff.mp hempty⟩

/-- The interrupt of the clock. -/
theorem tick (h : s.Kept spec flag object) (hstep : s.timed.step flag .tick = some timed)
    (hreach : (timedMachine spec flag object).Reach TimedSystem.Timely timed) :
    (s.next .tick timed).Kept spec flag object := by
  obtain ⟨t, hcur⟩ := TimedSystem.current_of_tick hstep
  obtain ⟨timed', hstep', -, hnow, hplace, hirq, hwait⟩ :=
    (TimedSystem.keeps_of_reach h.reach).tick hcur
  cases hstep.symm.trans hstep'
  have hbegins : s.timed.begins .tick = none := rfl
  rw [next_none hbegins]
  refine ⟨hreach, fun u limit hlimit => ?_, fun u call hloop => ?_, ?_, fun u => ?_⟩
  · have hu := congrArg ThreadWait.limit (hwait u)
    split at hu
    next => cases hlimit.symm.trans hu
    next => exact h.limit u limit (hu.symm.trans hlimit)
  · dsimp only at hloop ⊢
    rw [hplace] at hloop
    exact h.loops u call hloop
  · dsimp only
    rw [hirq]
    exact h.irq
  · dsimp only
    rw [hnow]
    exact Nat.le_succ_of_le (h.since u)

/-- Every prompt step keeps the invariant. -/
theorem step {s' : LimitSystem n} (h : s.Kept spec flag object) (hok : s.Prompt a)
    (hs : (limitMachine spec flag object).step s a = some s') : s'.Kept spec flag object := by
  obtain ⟨timed, htimed, rfl⟩ := Option.map_eq_some_iff.mp hs
  have hreach := h.reach.step hok.1 htimed
  cases a with
  | tick => exact h.tick htimed hreach
  | sleep tick =>
    obtain ⟨sys, hsys, rfl⟩ := Option.map_eq_some_iff.mp htimed
    obtain ⟨t, hcur, -⟩ := Option.bind_eq_some_iff.mp hsys
    rw [hcur] at hreach ⊢
    exact h.sleep hcur hsys hreach
  | act a =>
    obtain ⟨-, htimed⟩ := Option.ite_none_left_eq_some.mp htimed
    obtain ⟨sys, hsys, rfl⟩ := Option.map_eq_some_iff.mp htimed
    have hnone (hstart : ∀ t, s.timed.sys.startTime t a = none) : s.timed.start a = none := by
      rw [TimedSystem.start]
      cases s.timed.sys.state.sched.current with
      | none => rfl
      | some t => exact congrArg (Option.map _) (hstart t)
    cases a with
    | startup u =>
      have hbegins := hnone fun _ => rfl
      obtain ⟨-, hsys⟩ := Option.ite_none_right_eq_some.mp hsys
      cases hsys
      rw [hbegins] at hreach ⊢
      exact h.still hbegins hreach rfl h.irq
    | schedulerStart =>
      have hbegins := hnone fun _ => rfl
      obtain ⟨-, hsys⟩ := Option.ite_none_right_eq_some.mp hsys
      obtain ⟨sched, -, rfl⟩ := Option.map_eq_some_iff.mp hsys
      rw [hbegins] at hreach ⊢
      exact h.still hbegins hreach rfl h.irq
    | interrupt =>
      have hbegins := hnone fun _ => rfl
      obtain ⟨t, -, rfl⟩ := Option.map_eq_some_iff.mp hsys
      rw [hbegins] at hreach ⊢
      refine h.still hbegins hreach rfl fun place hplace => ?_
      rcases List.mem_cons.mp hplace with rfl | hplace
      · rfl
      · exact h.irq place hplace
    | leave =>
      have hbegins := hnone fun _ => rfl
      change s.timed.sys.leave = some sys at hsys
      unfold IpcSystem.leave at hsys
      split at hsys
      next rest hirq =>
        cases hsys
        rw [hbegins] at hreach ⊢
        refine h.still hbegins hreach rfl fun place hplace => h.irq place ?_
        rw [hirq]
        exact List.mem_cons_of_mem _ hplace
      next => cases hsys
    | call c =>
      obtain ⟨t, hcur, hsys⟩ := Option.bind_eq_some_iff.mp hsys
      obtain ⟨-, hsys⟩ := Option.ite_none_right_eq_some.mp hsys
      obtain ⟨r, hr, rfl⟩ := Option.map_eq_some_iff.mp hsys
      exact h.call hcur hr hreach
    | goOn =>
      obtain ⟨t, hcur, hsys⟩ := Option.bind_eq_some_iff.mp hsys
      obtain ⟨r, hr, rfl⟩ := Option.map_eq_some_iff.mp hsys
      exact h.goOn hok hcur hr hreach

theorem init : Kept spec flag object (limitMachine spec flag object).init where
  reach := .init
  limit _ _ hlimit := by cases hlimit
  loops _ _ hloop := by cases hloop
  irq _ hplace := by cases hplace
  since _ := Nat.le_refl 0

end Kept

end LimitSystem

/-- Waits that are not prolonged, for every set of threads and objects and every interleaving of
calls, interrupts and ticks in which each step is orderly, as `calls_on_time` has it, no time that
is waited or slept for is half the range of the tick, and a resumed thread goes on within half that
range: a thread that waits with a limit waits until the tick that its call asked for when it was
made, however often it was resumed in vain since, and that tick has not come. -/
theorem waits_not_prolonged {n : Nat} (spec : Fin n → ThreadSpec) (flag : Nat → IpcFlag)
    (object : Nat → IpcObject n) {s : LimitSystem n}
    (h : (limitMachine spec flag object).Reach LimitSystem.Prompt s) :
    (timedMachine spec flag object).Reach TimedSystem.Timely s.timed ∧
    ∀ t limit, s.timed.limit t = some limit → s.asked t = some limit ∧ s.timed.run.now < limit := by
  have hkept : s.Kept spec flag object :=
    h.invariant LimitSystem.Kept.init fun _ _ _ hkept hok hs => hkept.step hok hs
  refine ⟨hkept.reach, fun t limit hlimit => ⟨hkept.limit t limit hlimit, ?_⟩⟩
  have hkeeps := TimedSystem.keeps_of_reach hkept.reach
  rw [hkeeps.limit] at hlimit
  exact hkeeps.wound.later hlimit

/-- A thread that waits for a message for five ticks is resumed without one twice. -/
theorem waits_not_prolonged_twice : ∃ s,
    (limitMachine oneAndIdle (fun _ => .fifo) fun _ => .mailbox 4 0).Reach LimitSystem.Prompt s ∧
      s.timed.limit 0 = some 5 ∧ s.asked 0 = some 5 ∧ s.timed.run.now = 3 := by
  obtain ⟨s, hs, hlimit, hnow⟩ := Machine.exists_reach_of_run
    (limitMachine oneAndIdle (fun _ => .fifo) fun _ => .mailbox 4 0) LimitSystem.Prompt
    [.act (.startup 0), .act (.startup 1), .act .schedulerStart, .act (.call (.mbRecv 0 5)),
      .act .goOn, .tick, .act (.call (.resume 0)), .act .goOn, .act .goOn, .act .goOn, .tick, .tick,
      .act (.call (.resume 0)), .act .goOn, .act .goOn, .act .goOn]
    (fun s => s.timed.limit 0 = some 5 ∧ s.timed.run.now = 3) (by decide +kernel)
  exact ⟨s, hs, hlimit, ((waits_not_prolonged _ _ _ hs).2 0 5 hlimit).1, hnow⟩

end RtVcom.Kernel
