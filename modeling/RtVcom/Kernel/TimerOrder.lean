import RtVcom.Kernel.Timer

/-!
# When timers run

Timers whose functions leave the timers alone, at any tick of a counter that wraps. Beside the
code the run keeps the time that does not wrap (`now`), for each timer that is started an `Alarm`
with the tick it was started at and the ticks it was started for, and the callbacks that were
made.

**The law** (`timers_punctual`): the list is in the order of the remaining ticks, and of the
starts among equals. Every callback is made in the tick its alarm is due, in the order of the
deadlines, and no alarm that is due is left over. The comparisons of the source are modular, and
they are right because the ticks of two linked timers are never half the range apart
(`later_iff`, `expired_iff`).

An alarm is due with the last of its ticks, but never in the tick it is made in: a timer that is
started for 0 ticks runs one tick later (`timer_zero_late`).
-/

namespace RtVcom.Kernel

open RtVcom.Lib

/-! ## The run -/

/-- A timer that was started at tick `start` for `ticks` ticks, as the `serial`-th start. -/
structure Alarm where
  start : Nat
  ticks : Nat
  serial : Nat
deriving Repr, DecidableEq

namespace Alarm

def deadline (a : Alarm) : Nat := a.start + a.ticks

/-- The tick in which the callback is to be made. -/
def due (a : Alarm) : Nat := a.start + max 1 a.ticks

/-- The order of the alarms: by deadline, and by start among equals. -/
def Sooner (a b : Alarm) : Prop :=
  a.deadline < b.deadline ∨ a.deadline = b.deadline ∧ a.serial < b.serial

end Alarm

/-- A callback of a timer, with its alarm. -/
structure Callback where
  timer : Nat
  now : Nat
  alarm : Option Alarm
deriving Repr, DecidableEq

/-- The timers, and what happened to them. -/
structure TimerRun where
  sys : TimerSystem
  now : Nat
  alarm : Nat → Option Alarm
  starts : Nat
  ran : List Callback

inductive TimerAction
  | start (t : Nat)
  | stop (t : Nat)
  | control (t : Nat) (cmd : TimerControl)
  | tick
deriving Repr, DecidableEq

/-- A timer that may be started. -/
def RtTimer.Valid (x : RtTimer) : Prop :=
  x.initTick.toNat < rtTickMax / 2 ∧ (x.periodic = true → 1 ≤ x.initTick.toNat)

instance (x : RtTimer) : Decidable x.Valid := inferInstanceAs (Decidable (_ ∧ _))

namespace TimerRun

/-- The alarm of a timer that is started now. -/
def alarmFor (r : TimerRun) (t : Nat) : Alarm :=
  { start := r.now, ticks := (r.sys.timer t).initTick.toNat, serial := r.starts }

def start (r : TimerRun) (t : Nat) : TimerRun :=
  { r with
      sys := r.sys.start t
      alarm := Function.update r.alarm t (some (r.alarmFor t))
      starts := r.starts + 1 }

def stop (r : TimerRun) (t : Nat) : TimerRun :=
  { r with sys := (r.sys.stop t).1, alarm := Function.update r.alarm t none }

def control (r : TimerRun) (t : Nat) (cmd : TimerControl) : TimerRun :=
  { r with sys := r.sys.control t cmd }

/-- The timer at the front is taken out and its function is called. -/
def call (r : TimerRun) (t : Nat) : TimerRun :=
  { r with
      sys := r.sys.remove t
      alarm := Function.update r.alarm t none
      ran := r.ran ++ [{ timer := t, now := r.now, alarm := r.alarm t }] }

/-- `rt_timer_check` behind the function. -/
def settle (r : TimerRun) (t : Nat) : TimerRun :=
  if (r.sys.timer t).periodic ∧ (r.sys.timer t).activated then
    { r with sys := r.sys.setActivated t false }.start t
  else { r with sys := r.sys.setActivated t false }

/-- The loop of `rt_timer_check`, for as many timers as `fuel` says. -/
def check : Nat → TimerRun → TimerRun
  | 0, r => r
  | fuel + 1, r =>
    match r.sys.list with
    | [] => r
    | t :: _ => if r.sys.expired t then check fuel ((r.call t).settle t) else r

/-- A tick, and `rt_timer_check` in it. Every linked timer is called at most once. -/
def tick (r : TimerRun) : TimerRun :=
  let r := { r with sys := { r.sys with tick := r.sys.tick + 1 }, now := r.now + 1 }
  r.check r.sys.list.length

/-- What `settle` does with the timers is what `rt_timer_check` does. -/
theorem settle_sys (r : TimerRun) (t : Nat) : (r.settle t).sys = r.sys.settle t := by
  unfold settle TimerSystem.settle
  split <;> rfl

end TimerRun

/-- Timers after `rt_timer_init` at any tick, and every sequence of calls and ticks that leaves
every timer valid. -/
def timerMachine (tick : BitVec 32) (time : Nat → BitVec 32) (periodic : Nat → Bool) :
    Machine TimerRun TimerAction where
  init :=
    { sys := { tick, timer := fun t => rtTimerInit (time t) (periodic t), list := [] }
      now := 0
      alarm := fun _ => none
      starts := 0
      ran := [] }
  step r
    | .start t => some (r.start t)
    | .stop t => some (r.stop t)
    | .control t cmd =>
      if ((r.sys.control t cmd).timer t).Valid then some (r.control t cmd) else none
    | .tick => some r.tick

/-! ## The law -/

/-- `timeout_tick - rt_tick_get()`. -/
def TimerSystem.remaining (s : TimerSystem) (t : Nat) : Nat :=
  ((s.timer t).timeoutTick - s.tick).toNat

/-- Less time remains, or the same, and it was started first. -/
def TimerRun.Before (r : TimerRun) (t u : Nat) : Prop :=
  ∃ a b, r.alarm t = some a ∧ r.alarm u = some b ∧
    (r.sys.remaining t < r.sys.remaining u ∨
      r.sys.remaining t = r.sys.remaining u ∧ a.serial < b.serial)

/-- A callback of an earlier tick, or of the same tick and a sooner alarm. -/
def Callback.Before (c d : Callback) : Prop :=
  ∃ a b, c.alarm = some a ∧ d.alarm = some b ∧ (c.now < d.now ∨ c.now = d.now ∧ a.Sooner b)

/-- The law of the timers, between two calls. -/
structure Punctual (r : TimerRun) : Prop where
  sorted : r.sys.list.Pairwise r.Before
  linked : ∀ t, t ∈ r.sys.list ↔ (r.alarm t).isSome
  pending : ∀ t a, r.alarm t = some a → r.now < a.due
  due : ∀ c ∈ r.ran, ∃ a, c.alarm = some a ∧ c.now = a.due
  ordered : r.ran.Pairwise Callback.Before

/-! ## Ticks that wrap -/

/-- The distance of two ticks. -/
theorem tickDiff (base : BitVec 32) (x y : Nat) :
    ((base + BitVec.ofNat 32 x) - (base + BitVec.ofNat 32 y)).toNat =
      (x + (0x100000000 - y % 0x100000000)) % 0x100000000 := by
  simp only [BitVec.toNat_sub, BitVec.toNat_add, BitVec.toNat_ofNat]
  omega

/-- The tick and a time, taken together before they wrap. -/
theorem tick_add (base init : BitVec 32) (now : Nat) :
    base + BitVec.ofNat 32 now + init = base + BitVec.ofNat 32 (now + init.toNat) := by
  apply BitVec.eq_of_toNat_eq
  simp only [BitVec.toNat_add, BitVec.toNat_ofNat]
  omega

theorem tick_succ (base : BitVec 32) (now : Nat) :
    base + BitVec.ofNat 32 now + 1 = base + BitVec.ofNat 32 (now + 1) :=
  tick_add base 1 now

/-! ## The invariant -/

/-- An alarm of a timer that is linked at time `now`: the timer's `timeout_tick` is its deadline,
and it is overdue by less than `late` ticks. Within `rt_timer_check` only periodic timers are
started, for at least one tick. -/
structure Alarm.Set (a : Alarm) (base : BitVec 32) (x : RtTimer) (now starts late : Nat) : Prop where
  timeoutTick : x.timeoutTick = base + BitVec.ofNat 32 a.deadline
  started : a.start ≤ now
  range : a.ticks < rtTickMax / 2
  serial : a.serial < starts
  pending : now < a.due + late
  ahead : late = 0 ∨ a.start < now ∨ 1 ≤ a.ticks

/-- The invariant of the timers, where a linked timer is overdue by less than `late` ticks: 0
between the calls, 1 within `rt_timer_check`. -/
structure Armed (base : BitVec 32) (late : Nat) (r : TimerRun) : Prop where
  tick : r.sys.tick = base + BitVec.ofNat 32 r.now
  valid : ∀ t, (r.sys.timer t).Valid
  flag : ∀ t, (r.sys.timer t).activated = true ↔ t ∈ r.sys.list
  linked : ∀ t, t ∈ r.sys.list ↔ ∃ a, r.alarm t = some a
  alarm : ∀ t a, r.alarm t = some a → a.Set base (r.sys.timer t) r.now r.starts late
  sorted : r.sys.list.Pairwise fun t u =>
    ∀ a b, r.alarm t = some a → r.alarm u = some b → a.Sooner b

namespace Alarm

variable {a b c : Alarm} {base : BitVec 32} {x : RtTimer} {now starts late : Nat}

theorem Sooner.trans (hab : a.Sooner b) (hbc : b.Sooner c) : a.Sooner c := by
  unfold Sooner at *
  omega

theorem not_sooner_self (a : Alarm) : ¬ a.Sooner a := by
  unfold Sooner
  omega

/-- The walk of `rt_timer_start` stops at the timers with a later deadline. -/
theorem later_iff (h : a.Set base x now starts late) (hlate : late ≤ 1) {init : Nat}
    (hinit : init < rtTickMax / 2) :
    (x.timeoutTick - (base + BitVec.ofNat 32 (now + init)) ≠ 0 ∧
      (x.timeoutTick - (base + BitVec.ofNat 32 (now + init))).toNat < rtTickMax / 2) ↔
      now + init < a.deadline := by
  obtain ⟨htimeout, hstarted, hrange, -, hpending, -⟩ := h
  have hdiff := tickDiff base a.deadline (now + init)
  rw [← htimeout] at hdiff
  have hzero : x.timeoutTick - (base + BitVec.ofNat 32 (now + init)) ≠ 0 ↔
      (x.timeoutTick - (base + BitVec.ofNat 32 (now + init))).toNat ≠ 0 := by
    rw [ne_eq, ne_eq, ← BitVec.toNat_inj]
    rfl
  rw [hzero, hdiff]
  unfold deadline due rtTickMax at *
  omega

/-- `rt_timer_check` finds a timer expired whose deadline has come. -/
theorem expired_iff (h : a.Set base x now starts late) (hlate : late ≤ 1) :
    ((base + BitVec.ofNat 32 now) - x.timeoutTick).toNat < rtTickMax / 2 ↔ a.deadline ≤ now := by
  obtain ⟨htimeout, hstarted, hrange, -, hpending, -⟩ := h
  rw [htimeout, tickDiff]
  unfold deadline due rtTickMax at *
  omega

/-- Between the calls the deadline is ahead. -/
theorem remaining_eq (h : a.Set base x now starts 0) :
    (x.timeoutTick - (base + BitVec.ofNat 32 now)).toNat = a.deadline - now ∧
      now ≤ a.deadline := by
  obtain ⟨htimeout, hstarted, hrange, -, hpending, -⟩ := h
  rw [htimeout, tickDiff]
  unfold deadline due rtTickMax at *
  omega

end Alarm

namespace TimerSystem

variable {s : TimerSystem} {t u : Nat}

theorem timer_start_self : (s.start t).timer t =
    { s.timer t with activated := true, timeoutTick := s.tick + (s.timer t).initTick } := by
  simp only [start, insert, setActivated, setTimer, remove, Function.update_self]

@[simp] theorem start_tick : (s.start t).tick = s.tick := rfl

/-- An order of the list is kept by `rt_timer_start`, where its walk stops at the timers that
belong behind the one that is started. -/
theorem pairwise_start {r : Nat → Nat → Prop} (hnodup : s.list.Nodup)
    (h : (s.list.erase t).Pairwise r)
    (hpassed : ∀ u ∈ s.list.erase t,
      s.later (s.tick + (s.timer t).initTick) u = false → r u t)
    (hstopped : ∀ u ∈ s.list.erase t, s.later (s.tick + (s.timer t).initTick) u = true → r t u)
    (hbehind : ∀ u ∈ s.list.erase t, ∀ v ∈ s.list.erase t, r t u → r u v → r t v) :
    (s.start t).list.Pairwise r := by
  -- the walk reads the timers that are linked, and they are what they were
  have hlater (u : Nat) (hu : u ∈ s.list.erase t) :
      later (((s.remove t).setActivated t false).setTimer t
          { s.timer t with activated := false, timeoutTick := s.tick + (s.timer t).initTick })
        (s.tick + (s.timer t).initTick) u = s.later (s.tick + (s.timer t).initTick) u := by
    have hut : u ≠ t := (hnodup.mem_erase_iff.mp hu).1
    unfold later
    rw [timer_setTimer_of_ne _ hut, timer_setActivated_of_ne _ hut]
    rfl
  simp only [start, insert, setActivated_list]
  simp only [setActivated, setTimer, remove, Function.update_self] at hlater ⊢
  apply pairwise_insertBefore h
  · intro u hu hstops
    exact hpassed u hu ((hlater u hu).symm.trans hstops)
  · intro u hu hstops
    exact hstopped u hu ((hlater u hu).symm.trans hstops)
  · exact hbehind

end TimerSystem

/-! ## What the operations keep -/

namespace Armed

variable {base : BitVec 32} {late : Nat} {r : TimerRun} {t u : Nat}

/-- A timer of the list has an alarm. -/
theorem set_of_mem (h : Armed base late r) (ht : t ∈ r.sys.list) :
    ∃ a, r.alarm t = some a ∧ a.Set base (r.sys.timer t) r.now r.starts late := by
  obtain ⟨a, ha⟩ := (h.linked t).mp ht
  exact ⟨a, ha, h.alarm t a ha⟩

/-- No timer is in the list twice. -/
theorem nodup (h : Armed base late r) : r.sys.list.Nodup := by
  apply h.sorted.imp_of_mem
  intro t u ht _ hsooner heq
  subst heq
  obtain ⟨a, ha⟩ := (h.linked t).mp ht
  exact a.not_sooner_self (hsooner a a ha ha)

/-- A timer has expired where its alarm is due. -/
theorem expired_iff (h : Armed base late r) (hlate : late ≤ 1) {a : Alarm}
    (ha : r.alarm t = some a) : r.sys.expired t = true ↔ a.deadline ≤ r.now := by
  unfold TimerSystem.expired
  rw [decide_eq_true_iff, h.tick]
  exact Alarm.expired_iff (h.alarm t a ha) hlate

/-- A timer leaves the list with its flag cleared. -/
theorem stopped (h : Armed base late r) (t : Nat) (ran : List Callback) :
    Armed base late { r with
      sys := (r.sys.remove t).setActivated t false
      alarm := Function.update r.alarm t none
      ran := ran } := by
  have hmem (u : Nat) : u ∈ r.sys.list.erase t ↔ u ≠ t ∧ u ∈ r.sys.list := h.nodup.mem_erase_iff
  have hkept {u : Nat} {a : Alarm} (hu : Function.update r.alarm t none u = some a) :
      u ≠ t ∧ r.alarm u = some a := by
    by_cases hut : u = t
    · subst hut
      rw [Function.update_self] at hu
      cases hu
    · rw [Function.update_of_ne hut] at hu
      exact ⟨hut, hu⟩
  constructor
  case tick => exact h.tick
  case valid =>
    intro u
    by_cases hut : u = t
    · subst hut
      simp only [TimerSystem.setActivated, TimerSystem.setTimer, Function.update_self]
      exact h.valid u
    · dsimp only
      rw [TimerSystem.timer_setActivated_of_ne _ hut]
      exact h.valid u
  case flag =>
    intro u
    exact TimerSystem.flag_stopped h.nodup fun _ => h.flag u
  case linked =>
    intro u
    apply (hmem u).trans
    constructor
    · rintro ⟨hut, hu⟩
      obtain ⟨a, ha⟩ := (h.linked u).mp hu
      refine ⟨a, ?_⟩
      dsimp only
      rw [Function.update_of_ne hut, ha]
    · rintro ⟨a, ha⟩
      obtain ⟨hut, ha⟩ := hkept ha
      exact ⟨hut, (h.linked u).mpr ⟨a, ha⟩⟩
  case alarm =>
    intro u a ha
    obtain ⟨hut, ha⟩ := hkept ha
    dsimp only
    rw [TimerSystem.timer_setActivated_of_ne _ hut]
    exact h.alarm u a ha
  case sorted =>
    apply (h.sorted.sublist List.erase_sublist).imp
    intro u v hsooner a b ha hb
    exact hsooner a b (hkept ha).2 (hkept hb).2

/-- A timer is started, within `rt_timer_check` for at least one tick. -/
theorem start (h : Armed base late r) (hlate : late ≤ 1)
    (hahead : late = 0 ∨ 1 ≤ (r.sys.timer t).initTick.toNat) : Armed base late (r.start t) := by
  have hrange : (r.sys.timer t).initTick.toNat < rtTickMax / 2 := (h.valid t).1
  have htimeout : r.sys.tick + (r.sys.timer t).initTick =
      base + BitVec.ofNat 32 (r.alarmFor t).deadline := by
    rw [h.tick, tick_add]
    rfl
  constructor
  case tick => exact h.tick
  case valid =>
    intro u
    by_cases hut : u = t
    · subst hut
      dsimp only [TimerRun.start]
      rw [TimerSystem.timer_start_self]
      exact h.valid u
    · dsimp only [TimerRun.start]
      rw [TimerSystem.timer_start_of_ne hut]
      exact h.valid u
  case flag =>
    intro u
    exact TimerSystem.flag_start h.nodup fun _ => h.flag u
  case linked =>
    intro u
    dsimp only [TimerRun.start]
    rw [TimerSystem.mem_start, h.nodup.mem_erase_iff]
    by_cases hut : u = t
    · subst hut
      simp only [true_or, Function.update_self, Option.some.injEq, exists_eq']
    · simp only [hut, false_or, ne_eq, not_false_eq_true, true_and, Function.update_of_ne]
      exact h.linked u
  case alarm =>
    intro u a ha
    dsimp only [TimerRun.start] at ha ⊢
    by_cases hut : u = t
    · subst hut
      rw [Function.update_self] at ha
      cases ha
      rw [TimerSystem.timer_start_self]
      refine ⟨htimeout, Nat.le_refl _, hrange, Nat.lt_succ_self _, ?_, ?_⟩
      · unfold Alarm.due TimerRun.alarmFor
        dsimp only
        omega
      · exact hahead.imp_right Or.inr
    · rw [Function.update_of_ne hut] at ha
      rw [TimerSystem.timer_start_of_ne hut]
      have hset := h.alarm u a ha
      exact { hset with serial := Nat.lt_succ_of_lt hset.serial }
  case sorted =>
    have hlater (u : Nat) (a : Alarm) (hu : u ∈ r.sys.list.erase t) (ha : r.alarm u = some a) :
        r.sys.later (r.sys.tick + (r.sys.timer t).initTick) u = true ↔
          (r.alarmFor t).deadline < a.deadline := by
      unfold TimerSystem.later
      rw [Bool.and_eq_true, decide_eq_true_iff, decide_eq_true_iff, htimeout]
      exact Alarm.later_iff (h.alarm u a ha) hlate hrange
    have hself {a : Alarm} (ha : (r.start t).alarm t = some a) : a = r.alarmFor t := by
      dsimp only [TimerRun.start] at ha
      rw [Function.update_self] at ha
      exact (Option.some.inj ha).symm
    have hother {u : Nat} {a : Alarm} (hu : u ∈ r.sys.list.erase t)
        (ha : (r.start t).alarm u = some a) : r.alarm u = some a := by
      dsimp only [TimerRun.start] at ha
      rwa [Function.update_of_ne (h.nodup.mem_erase_iff.mp hu).1] at ha
    apply TimerSystem.pairwise_start h.nodup
    · apply (h.sorted.sublist List.erase_sublist).imp_of_mem
      intro u v hu hv hsooner a b ha hb
      exact hsooner a b (hother hu ha) (hother hv hb)
    · intro u hu hpassed a b ha hb
      have ha := hother hu ha
      rw [hself hb]
      have hnot := mt (hlater u a hu ha).mpr (by rw [hpassed]; exact Bool.false_ne_true)
      have hserial := (h.alarm u a ha).serial
      unfold Alarm.Sooner
      dsimp only [TimerRun.alarmFor] at hnot ⊢
      omega
    · intro u hu hstopped a b ha hb
      rw [hself ha]
      exact Or.inl ((hlater u b hu (hother hu hb)).mp hstopped)
    · intro u hu v hv htu huv a b ha hb
      obtain ⟨c, hc⟩ := (h.linked u).mp (List.mem_of_mem_erase hu)
      have hc : (r.start t).alarm u = some c := by
        dsimp only [TimerRun.start]
        rwa [Function.update_of_ne (h.nodup.mem_erase_iff.mp hu).1]
      exact (htu a c ha hc).trans (huv c b hc hb)

/-- `rt_timer_control` keeps the invariant, with a valid time. -/
theorem control (h : Armed base late r) (cmd : TimerControl)
    (hvalid : ((r.sys.control t cmd).timer t).Valid) : Armed base late (r.control t cmd) := by
  have hother {u : Nat} (hut : u ≠ t) : (r.sys.control t cmd).timer u = r.sys.timer u := by
    cases cmd <;> exact TimerSystem.timer_setTimer_of_ne _ hut
  have htimeout (u : Nat) : ((r.sys.control t cmd).timer u).timeoutTick =
      (r.sys.timer u).timeoutTick := by
    by_cases hut : u = t
    · subst hut
      cases cmd <;> simp only [TimerSystem.control, TimerSystem.setTimer, Function.update_self]
    · rw [hother hut]
  constructor
  case tick =>
    refine Eq.trans ?_ h.tick
    cases cmd <;> rfl
  case valid =>
    intro u
    by_cases hut : u = t
    · subst hut
      exact hvalid
    · dsimp only [TimerRun.control]
      rw [hother hut]
      exact h.valid u
  case flag =>
    intro u
    dsimp only [TimerRun.control]
    rw [TimerSystem.control_list, TimerSystem.activated_control]
    exact h.flag u
  case linked =>
    intro u
    dsimp only [TimerRun.control]
    rw [TimerSystem.control_list]
    exact h.linked u
  case alarm =>
    intro u a ha
    have hset := h.alarm u a ha
    exact { hset with timeoutTick := (htimeout u).trans hset.timeoutTick }
  case sorted =>
    dsimp only [TimerRun.control]
    rw [TimerSystem.control_list]
    exact h.sorted

theorem stop (h : Armed base late r) (t : Nat) : Armed base late (r.stop t) := by
  unfold TimerRun.stop TimerSystem.stop
  split
  · exact h.stopped t r.ran
  · next hflag =>
    have hnone : r.alarm t = none := by
      rcases halarm : r.alarm t with _ | a
      · rfl
      · exact absurd ((h.flag t).mpr ((h.linked t).mpr ⟨a, halarm⟩)) hflag
    rw [← hnone, Function.update_eq_self]
    exact h

/-- A timer at the front is called, and started again where it is periodic. -/
theorem serve (h : Armed base 1 r) (t : Nat) :
    Armed base 1 ((r.call t).settle t) := by
  have hcalled := h.stopped t (r.call t).ran
  unfold TimerRun.settle
  split
  · next hagain =>
    refine hcalled.start (Nat.le_refl 1) (Or.inr ?_)
    simp only [TimerSystem.setActivated, TimerSystem.setTimer, Function.update_self]
    exact (h.valid t).2 hagain.1
  · exact hcalled

/-- The time goes on, and no timer is overdue by more than the tick. -/
theorem advance (h : Armed base 0 r) : Armed base 1
    { r with sys := { r.sys with tick := r.sys.tick + 1 }, now := r.now + 1 } := by
  constructor
  case tick =>
    dsimp only
    rw [h.tick, tick_succ]
  case valid => exact h.valid
  case flag => exact h.flag
  case linked => exact h.linked
  case alarm =>
    intro t a ha
    obtain ⟨htimeout, hstarted, hrange, hserial, hpending, -⟩ := h.alarm t a ha
    exact ⟨htimeout, Nat.le_succ_of_le hstarted, hrange, hserial, Nat.succ_lt_succ hpending,
      Or.inr (Or.inl (Nat.lt_succ_of_le hstarted))⟩
  case sorted => exact h.sorted

/-- Where no timer is expired, none is overdue. -/
theorem settled (h : Armed base 1 r) (hnone : ∀ t ∈ r.sys.list, r.sys.expired t = false) :
    Armed base 0 r := by
  refine { h with alarm := ?_ }
  intro t a ha
  have hmem : t ∈ r.sys.list := (h.linked t).mpr ⟨a, ha⟩
  have hnot : ¬ a.deadline ≤ r.now := by
    rw [← h.expired_iff (Nat.le_refl 1) ha, hnone t hmem]
    exact Bool.false_ne_true
  refine { h.alarm t a ha with pending := ?_, ahead := Or.inl rfl }
  unfold Alarm.due
  unfold Alarm.deadline at hnot
  omega

end Armed

/-! ## The callbacks -/

/-- The callbacks that were made: each in the tick it was due, in their order, and those of this
tick before everything that is linked. -/
structure Logged (r : TimerRun) : Prop where
  due : ∀ c ∈ r.ran, ∃ a, c.alarm = some a ∧ c.now = a.due ∧ c.now ≤ r.now ∧ a.serial < r.starts
  ahead : ∀ c ∈ r.ran, c.now = r.now → ∀ a, c.alarm = some a →
    ∀ t b, r.alarm t = some b → a.Sooner b
  ordered : r.ran.Pairwise Callback.Before

namespace Logged

variable {base : BitVec 32} {late : Nat} {r : TimerRun} {t u : Nat}

/-- Fewer alarms, and the same callbacks. -/
theorem fewer (h : Logged r) {s : TimerRun} (hran : s.ran = r.ran) (hnow : s.now = r.now)
    (hstarts : s.starts = r.starts) (halarm : ∀ t b, s.alarm t = some b → r.alarm t = some b) :
    Logged s where
  due := by
    rw [hran, hnow, hstarts]
    exact h.due
  ahead := by
    rw [hran, hnow]
    intro c hc hcnow a ha t b hb
    exact h.ahead c hc hcnow a ha t b (halarm t b hb)
  ordered := by
    rw [hran]
    exact h.ordered

/-- A callback of this tick had a deadline that has come, and an earlier start. -/
theorem start (h : Logged r) (t : Nat) : Logged (r.start t) where
  due c hc := by
    obtain ⟨a, ha, hdue, hle, hserial⟩ := h.due c hc
    exact ⟨a, ha, hdue, hle, Nat.lt_succ_of_lt hserial⟩
  ahead c hc hnow a ha u b hb := by
    dsimp only [TimerRun.start] at hnow hb
    by_cases hut : u = t
    · subst hut
      rw [Function.update_self] at hb
      cases hb
      obtain ⟨a', ha', hdue, -, hserial⟩ := h.due c hc
      cases ha.symm.trans ha'
      unfold Alarm.Sooner
      unfold Alarm.due at hdue
      dsimp only [Alarm.deadline, TimerRun.alarmFor]
      omega
    · rw [Function.update_of_ne hut] at hb
      exact h.ahead c hc hnow a ha u b hb
  ordered := h.ordered

/-- The call of the timer at the front, which is expired. -/
theorem call (h : Logged r) (harmed : Armed base 1 r) {rest : List Nat}
    (hlist : r.sys.list = t :: rest) (hexpired : r.sys.expired t = true) :
    Logged (r.call t) := by
  obtain ⟨a, ha, hset⟩ := harmed.set_of_mem (t := t) (by rw [hlist]; exact List.mem_cons_self)
  have hdue : r.now = a.due := by
    have hcome := (harmed.expired_iff (Nat.le_refl 1) ha).mp hexpired
    have hpending := hset.pending
    have hahead := hset.ahead
    unfold Alarm.deadline at hcome
    unfold Alarm.due at *
    omega
  have hfirst (u : Nat) (b : Alarm) (hut : u ≠ t) (hb : r.alarm u = some b) : a.Sooner b := by
    have hmem : u ∈ rest := by
      have hu := (harmed.linked u).mpr ⟨b, hb⟩
      rw [hlist] at hu
      exact (List.mem_cons.mp hu).resolve_left hut
    have hsorted := harmed.sorted
    rw [hlist] at hsorted
    exact (List.pairwise_cons.mp hsorted).1 u hmem a b ha hb
  have hkept {u : Nat} {b : Alarm} (hb : (r.call t).alarm u = some b) :
      u ≠ t ∧ r.alarm u = some b := by
    dsimp only [TimerRun.call] at hb
    by_cases hut : u = t
    · subst hut
      rw [Function.update_self] at hb
      cases hb
    · rw [Function.update_of_ne hut] at hb
      exact ⟨hut, hb⟩
  have hcallback {c : Callback} (hc : c ∈ (r.call t).ran) :
      c ∈ r.ran ∨ c = { timer := t, now := r.now, alarm := r.alarm t } := by
    rcases List.mem_append.mp hc with hc | hc
    · exact Or.inl hc
    · exact Or.inr (List.mem_singleton.mp hc)
  constructor
  case due =>
    intro c hc
    rcases hcallback hc with hc | rfl
    · exact h.due c hc
    · exact ⟨a, ha, hdue, Nat.le_refl _, hset.serial⟩
  case ahead =>
    intro c hc hnow b hb u d hd
    obtain ⟨hut, hd⟩ := hkept hd
    rcases hcallback hc with hc | rfl
    · exact h.ahead c hc hnow b hb u d hd
    · cases ha.symm.trans hb
      exact hfirst u d hut hd
  case ordered =>
    refine List.pairwise_append.mpr ⟨h.ordered, List.pairwise_singleton _ _, ?_⟩
    intro c hc d hd
    rw [List.mem_singleton.mp hd]
    obtain ⟨b, hb, -, hle, -⟩ := h.due c hc
    refine ⟨b, a, hb, ha, ?_⟩
    rcases Nat.lt_or_eq_of_le hle with hlt | heq
    · exact Or.inl hlt
    · exact Or.inr ⟨heq, h.ahead c hc heq b hb t a ha⟩

theorem settle (h : Logged r) (t : Nat) : Logged (r.settle t) := by
  have hcleared : Logged { r with sys := r.sys.setActivated t false } :=
    h.fewer rfl rfl rfl fun _ _ hb => hb
  unfold TimerRun.settle
  split
  · exact hcleared.start t
  · exact hcleared

end Logged

/-! ## The check -/

/-- How many linked timers are expired. -/
def TimerSystem.overdue (s : TimerSystem) : Nat := s.list.countP s.expired

namespace TimerSystem

variable {s : TimerSystem} {t u : Nat} {rest : List Nat}

theorem expired_settle_of_ne (hut : u ≠ t) : (s.settle t).expired u = s.expired u := by
  unfold settle expired
  split
  · rw [timer_start_of_ne hut, timer_setActivated_of_ne _ hut]
    rfl
  · rw [timer_setActivated_of_ne _ hut]
    rfl

/-- Behind the call the timer is linked or not, and the others are linked as they were. -/
theorem perm_settle (hnodup : s.list.Nodup) (hout : t ∉ s.list) :
    (s.settle t).list.Perm s.list ∨ (s.settle t).list.Perm (t :: s.list) := by
  unfold settle
  split
  · have hstarted := nodup_start (s := s.setActivated t false) (t := t) hnodup
    refine Or.inr ((List.perm_ext_iff_of_nodup hstarted ?_).mpr ?_)
    · exact List.nodup_cons.mpr ⟨hout, hnodup⟩
    · intro u
      rw [mem_start, List.mem_cons, setActivated_list, List.erase_of_not_mem hout]
  · exact Or.inl (List.Perm.refl _)

/-- A timer that is called and is not expired any more leaves one less. -/
theorem overdue_serve (hnodup : s.list.Nodup) (hlist : s.list = t :: rest)
    (hexpired : s.expired t = true)
    (hserved : t ∈ ((s.remove t).settle t).list → ((s.remove t).settle t).expired t = false) :
    ((s.remove t).settle t).overdue + 1 = s.overdue := by
  have hrest : (s.remove t).list = rest := by
    dsimp only [remove]
    rw [hlist, List.erase_cons_head]
  rw [hlist] at hnodup
  obtain ⟨hout, hnodup⟩ := List.nodup_cons.mp hnodup
  have hothers : rest.countP ((s.remove t).settle t).expired = rest.countP s.expired := by
    apply List.countP_congr
    intro u hu
    have hut : u ≠ t := fun heq => hout (heq ▸ hu)
    rw [expired_settle_of_ne hut]
    rfl
  have hcount : ((s.remove t).settle t).overdue = rest.countP s.expired := by
    unfold overdue
    rcases perm_settle (s := s.remove t) (t := t) (hrest ▸ hnodup) (hrest ▸ hout) with
      hperm | hperm
    · rw [hperm.countP_eq, hrest, hothers]
    · have hlinked : t ∈ ((s.remove t).settle t).list := hperm.mem_iff.mpr List.mem_cons_self
      rw [hperm.countP_eq, hrest, List.countP_cons_of_neg, hothers]
      rw [hserved hlinked]
      exact Bool.false_ne_true
  unfold overdue at hcount ⊢
  rw [hcount, hlist, List.countP_cons_of_pos hexpired]

end TimerSystem

namespace TimerRun

variable {base : BitVec 32} {r : TimerRun} {t : Nat}

/-- A periodic timer that was just called times out later. -/
theorem not_expired_serve (h : Armed base 1 r)
    (hmem : t ∈ ((r.call t).settle t).sys.list) : ((r.call t).settle t).sys.expired t = false := by
  have hserved := h.serve t
  obtain ⟨a, ha, -⟩ := hserved.set_of_mem hmem
  have hdeadline : ((r.call t).settle t).now < a.deadline := by
    unfold settle at ha ⊢
    split at ha
    · next hagain =>
      rw [if_pos hagain]
      dsimp only [start] at ha ⊢
      rw [Function.update_self] at ha
      cases ha
      have hticks := (h.valid t).2 hagain.1
      dsimp only [Alarm.deadline, alarmFor, call, TimerSystem.setActivated, TimerSystem.setTimer,
        TimerSystem.remove]
      rw [Function.update_self]
      dsimp only
      omega
    · dsimp only [call] at ha
      rw [Function.update_self] at ha
      cases ha
  have hnot := mt (hserved.expired_iff (Nat.le_refl 1) ha).mp (Nat.not_le_of_lt hdeadline)
  exact Bool.eq_false_iff.mpr hnot

/-- The loop ends with no expired timer left. -/
theorem check_settled {fuel : Nat} (harmed : Armed base 1 r) (hlogged : Logged r)
    (hfuel : r.sys.overdue ≤ fuel) : Armed base 0 (r.check fuel) ∧ Logged (r.check fuel) := by
  induction fuel generalizing r with
  | zero =>
    refine ⟨harmed.settled ?_, hlogged⟩
    intro t ht
    have hzero := List.countP_eq_zero.mp (Nat.le_zero.mp hfuel) t ht
    exact Bool.eq_false_iff.mpr hzero
  | succ fuel ih =>
    unfold check
    rcases hlist : r.sys.list with _ | ⟨t, rest⟩
    · refine ⟨harmed.settled ?_, hlogged⟩
      intro t ht
      rw [hlist] at ht
      cases ht
    · dsimp only
      split
      · next hexpired =>
        have hless : ((r.call t).settle t).sys.overdue + 1 = r.sys.overdue := by
          have hout := not_expired_serve (t := t) harmed
          rw [settle_sys] at hout ⊢
          exact TimerSystem.overdue_serve harmed.nodup hlist hexpired hout
        apply ih (harmed.serve t) ((hlogged.call harmed hlist hexpired).settle t)
        omega
      · next hexpired =>
        -- the one at the front has the first deadline
        refine ⟨harmed.settled fun u hu => ?_, hlogged⟩
        have hfirst : t ∈ r.sys.list := by
          rw [hlist]
          exact List.mem_cons_self
        obtain ⟨a, ha, -⟩ := harmed.set_of_mem hfirst
        obtain ⟨b, hb, -⟩ := harmed.set_of_mem hu
        have hle : a.deadline ≤ b.deadline := by
          have hsorted := harmed.sorted
          rw [hlist] at hsorted hu
          rcases List.mem_cons.mp hu with rfl | hu
          · cases ha.symm.trans hb
            exact Nat.le_refl _
          · have hsooner := (List.pairwise_cons.mp hsorted).1 u hu a b ha hb
            unfold Alarm.Sooner at hsooner
            omega
        rw [harmed.expired_iff (Nat.le_refl 1) ha] at hexpired
        refine Bool.eq_false_iff.mpr fun hcome => hexpired (Nat.le_trans hle ?_)
        exact (harmed.expired_iff (Nat.le_refl 1) hb).mp hcome

end TimerRun

/-! ## The runs -/

variable {tick : BitVec 32} {time : Nat → BitVec 32} {periodic : Nat → Bool}

/-- The invariant between the calls. -/
structure TimerInv (base : BitVec 32) (r : TimerRun) : Prop where
  armed : Armed base 0 r
  logged : Logged r

/-- The invariant holds at the start. -/
theorem timerInv_init (hvalid : ∀ t, (rtTimerInit (time t) (periodic t)).Valid) :
    TimerInv tick (timerMachine tick time periodic).init := by
  constructor
  · constructor
    case tick => exact (BitVec.add_zero tick).symm
    case valid => exact hvalid
    case flag => exact fun t => ⟨fun hset => (by cases hset), fun hmem => (by cases hmem)⟩
    case linked => exact fun t => ⟨fun hmem => (by cases hmem), fun ⟨a, ha⟩ => (by cases ha)⟩
    case alarm => exact fun t a ha => (by cases ha)
    case sorted => exact List.Pairwise.nil
  · constructor
    case due => exact fun c hc => (by cases hc)
    case ahead => exact fun c hc => (by cases hc)
    case ordered => exact List.Pairwise.nil

/-- A tick and its check. -/
theorem timerInv_tick {r : TimerRun} (h : TimerInv tick r) : TimerInv tick r.tick := by
  have hlogged : Logged
      { r with sys := { r.sys with tick := r.sys.tick + 1 }, now := r.now + 1 } := by
    constructor
    case due =>
      intro c hc
      obtain ⟨a, ha, hdue, hle, hserial⟩ := h.logged.due c hc
      exact ⟨a, ha, hdue, Nat.le_succ_of_le hle, hserial⟩
    case ahead =>
      -- nothing ran in this tick yet
      intro c hc hnow
      obtain ⟨-, -, -, hle, -⟩ := h.logged.due c hc
      exact absurd hnow (Nat.ne_of_lt (Nat.lt_succ_of_le hle))
    case ordered => exact h.logged.ordered
  obtain ⟨harmed, hlogged⟩ :=
    TimerRun.check_settled h.armed.advance hlogged (List.countP_le_length)
  exact ⟨harmed, hlogged⟩

theorem timerInv_step {r s : TimerRun} {a : TimerAction} (h : TimerInv tick r)
    (hstep : (timerMachine tick time periodic).step r a = some s) : TimerInv tick s := by
  cases a with
  | start t =>
    cases hstep
    exact ⟨h.armed.start (Nat.zero_le 1) (Or.inl rfl), h.logged.start t⟩
  | stop t =>
    cases hstep
    refine ⟨h.armed.stop t, h.logged.fewer rfl rfl rfl ?_⟩
    intro u b hb
    dsimp only [TimerRun.stop] at hb
    by_cases hut : u = t
    · subst hut
      rw [Function.update_self] at hb
      cases hb
    · rwa [Function.update_of_ne hut] at hb
  | control t cmd =>
    obtain ⟨hvalid, ⟨⟩⟩ := Option.ite_none_right_eq_some.mp hstep
    exact ⟨h.armed.control cmd hvalid, h.logged.fewer rfl rfl rfl fun _ _ hb => hb⟩
  | tick =>
    cases hstep
    exact timerInv_tick h

/-- What the invariant says in the words of the source. -/
theorem TimerInv.punctual {r : TimerRun} (h : TimerInv tick r) : Punctual r := by
  have hremaining {t : Nat} {a : Alarm} (ha : r.alarm t = some a) :
      r.sys.remaining t = a.deadline - r.now ∧ r.now ≤ a.deadline := by
    unfold TimerSystem.remaining
    rw [h.armed.tick]
    exact Alarm.remaining_eq (h.armed.alarm t a ha)
  constructor
  case sorted =>
    apply h.armed.sorted.imp_of_mem
    intro t u ht hu hsooner
    obtain ⟨a, ha⟩ := (h.armed.linked t).mp ht
    obtain ⟨b, hb⟩ := (h.armed.linked u).mp hu
    refine ⟨a, b, ha, hb, ?_⟩
    obtain ⟨hta, hna⟩ := hremaining ha
    obtain ⟨hub, hnb⟩ := hremaining hb
    have hsooner := hsooner a b ha hb
    unfold Alarm.Sooner at hsooner
    omega
  case linked =>
    intro t
    rw [h.armed.linked, Option.isSome_iff_exists]
  case pending =>
    intro t a ha
    exact (h.armed.alarm t a ha).pending
  case due =>
    intro c hc
    obtain ⟨a, ha, hdue, -⟩ := h.logged.due c hc
    exact ⟨a, ha, hdue⟩
  case ordered => exact h.logged.ordered

/-- **Timers are punctual.** In every run of valid timers, at any tick, the list is in the order of
the remaining ticks, every callback is made when its alarm is due and in the order of the
deadlines, and no alarm that is due is left over. -/
theorem timers_punctual (tick : BitVec 32) (time : Nat → BitVec 32) (periodic : Nat → Bool)
    (hvalid : ∀ t, (rtTimerInit (time t) (periodic t)).Valid) (r : TimerRun)
    (h : (timerMachine tick time periodic).Reach Machine.any r) : Punctual r := by
  have hinv : TimerInv tick r :=
    h.invariant (timerInv_init hvalid) fun _ _ _ hr _ hstep => timerInv_step hr hstep
  exact hinv.punctual

/-- Two timers with one deadline beyond the end of the tick counter, and a periodic one. -/
theorem timers_punctual_wrap :
    ∃ r, (timerMachine 0xfffffffe (fun t => if t = 2 then 2 else 3) fun t => t == 2).Reach
        Machine.any r ∧
      r.ran.map (fun c => (c.timer, c.now)) = [(2, 2), (1, 3), (0, 3), (2, 4)] ∧ Punctual r := by
  obtain ⟨r, hreach, hran⟩ := Machine.exists_reach_of_run
    (timerMachine 0xfffffffe (fun t => if t = 2 then 2 else 3) fun t => t == 2) Machine.any
    [.start 1, .start 0, .start 2, .tick, .tick, .tick, .tick]
    (fun r => r.ran.map (fun c => (c.timer, c.now)) = [(2, 2), (1, 3), (0, 3), (2, 4)]) (by decide)
  refine ⟨r, hreach, hran, timers_punctual _ _ _ ?_ r hreach⟩
  intro t
  by_cases ht : t = 2
  · subst ht
    decide
  · simp only [ht, if_false, rtTimerInit, beq_eq_false_iff_ne.mpr, ne_eq, not_false_eq_true]
    decide

/-- A timer that is started for no ticks runs in the next tick, when one has elapsed. -/
theorem timer_zero_late :
    ¬ ∀ tick time periodic, (∀ t, (rtTimerInit (time t) (periodic t)).Valid) →
      ∀ r, (timerMachine tick time periodic).Reach Machine.any r →
        ∀ c ∈ r.ran, ∃ a, c.alarm = some a ∧ c.now = a.start + a.ticks := by
  intro hall
  obtain ⟨r, hreach, hran⟩ := Machine.exists_reach_of_run
    (timerMachine 0 (fun _ => 0) fun _ => false) Machine.any [.start 0, .tick]
    (fun r => { timer := 0, now := 1, alarm := some { start := 0, ticks := 0, serial := 0 } } ∈
      r.ran) (by decide)
  obtain ⟨a, ha, hnow⟩ := hall 0 (fun _ => 0) (fun _ => false) (fun _ => by decide) r hreach _ hran
  cases ha
  cases hnow

end RtVcom.Kernel
