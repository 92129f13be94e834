import Mathlib.Data.Rat.Floor
import RtVcom.Kernel.Scheduler
import RtVcom.Kernel.Timer

/-!
# Delays in milliseconds

`rt_thread_mdelay` turns milliseconds into ticks with `rt_tick_from_millisecond` and sleeps for
that many: it suspends the running thread and starts its timer. The number of ticks is to be
`ms * RT_TICK_PER_SECOND / 1000`, rounded up (`ceilTicks`), for every `ms` up to `0x7fffffff`.

The product is an `int`. From 21474827 milliseconds on (not quite six hours) it is none, and the
ticks are wrong for all of them (`mdelay_ticks_iff`); the thread timer is started with them all the
same, since `RT_ASSERT` is compiled only with `RT_DEBUG`.
-/

namespace RtVcom.Kernel

/-- `RT_TICK_PER_SECOND`. -/
def rtTickPerSecond : Nat := 100

/-- `RT_WAITING_FOREVER` as an `int`. -/
def waitingForever : BitVec 32 := -1

/-- `rt_tick_from_millisecond`; an `int` that overflows wraps. -/
def rtTickFromMillisecond (ms : BitVec 32) : BitVec 32 :=
  if ms.toInt < 0 then waitingForever
  else (BitVec.ofNat 32 rtTickPerSecond * ms + 999).sdiv 1000

/-! ## Sleeping -/

/-- The scheduler and the timers; thread `t` has timer `t` as its `thread_timer`. -/
structure ThreadSystem (n : Nat) where
  sched : Sched n
  timers : TimerSystem

namespace ThreadSystem

variable {n : Nat}

/-- `rt_thread_suspend`. -/
def rtThreadSuspend (s : ThreadSystem n) (t : Fin n) : ThreadSystem n :=
  if (s.sched.thread t).stat ≠ .ready then s
  else ⟨(s.sched.suspend t).1, (s.timers.stop t).1⟩

/-- `rt_timer_start(&(thread->thread_timer))`. -/
def startThreadTimer (s : ThreadSystem n) (t : Fin n) : ThreadSystem n :=
  ⟨s.sched.setTimer t true, s.timers.start t⟩

/-- `rt_thread_sleep` of the running thread, up to its `rt_schedule`. -/
def rtThreadSleep (s : ThreadSystem n) (t : Fin n) (tick : BitVec 32) : ThreadSystem n :=
  let s := s.rtThreadSuspend t
  { s with timers := s.timers.control t (.setTime tick) }.startThreadTimer t

/-- `rt_thread_mdelay`, which sleeps. -/
def rtThreadMdelay (s : ThreadSystem n) (t : Fin n) (ms : BitVec 32) : ThreadSystem n :=
  s.rtThreadSleep t (rtTickFromMillisecond ms)

/-- What `rt_schedule` then makes of the scheduler is `Sched.sleep`. -/
theorem rtThreadSleep_schedule (s : ThreadSystem n) (t : Fin n) (tick : BitVec 32) :
    (s.rtThreadSleep t tick).sched.schedule = s.sched.sleep t := by
  unfold rtThreadSleep rtThreadSuspend Sched.sleep
  split
  case isTrue h =>
    have hsuspend : (s.sched.suspend t).1 = s.sched := by
      rw [Sched.suspend, if_pos h]
    rw [hsuspend]
    rfl
  case isFalse => rfl

/-- The thread timer runs, from this tick on and for that number of ticks. -/
structure Started (s : ThreadSystem n) (t : Fin n) (ticks : Nat) : Prop where
  linked : t.val ∈ s.timers.list
  activated : (s.timers.timer t).activated = true
  initTick : (s.timers.timer t).initTick.toNat = ticks
  timeoutTick : (s.timers.timer t).timeoutTick = s.timers.tick + BitVec.ofNat 32 ticks

/-- The timer is started with the ticks the thread sleeps for. -/
theorem initTick_rtThreadSleep (s : ThreadSystem n) (t : Fin n) (tick : BitVec 32) :
    ((s.rtThreadSleep t tick).timers.timer t).initTick = tick := by
  simp only [rtThreadSleep, startThreadTimer, TimerSystem.start, TimerSystem.insert,
    TimerSystem.control, TimerSystem.remove, TimerSystem.setActivated, TimerSystem.setTimer,
    Function.update_self]

/-- The timer of a sleep runs out its ticks later. -/
theorem timeoutTick_rtThreadSleep (s : ThreadSystem n) (t : Fin n) (tick : BitVec 32) :
    ((s.rtThreadSleep t tick).timers.timer t).timeoutTick =
      (s.rtThreadSleep t tick).timers.tick + tick := by
  simp only [rtThreadSleep, startThreadTimer, TimerSystem.start, TimerSystem.insert,
    TimerSystem.control, TimerSystem.remove, TimerSystem.setActivated, TimerSystem.setTimer,
    Function.update_self]

/-- It is started with that number and no other one. -/
theorem started_rtThreadSleep_iff (s : ThreadSystem n) (t : Fin n) (tick : BitVec 32)
    (ticks : Nat) : (s.rtThreadSleep t tick).Started t ticks ↔ tick.toNat = ticks := by
  constructor
  · intro h
    rw [← initTick_rtThreadSleep s t tick]
    exact h.initTick
  · rintro rfl
    constructor
    case linked => exact TimerSystem.mem_start.mpr (.inl rfl)
    case activated => exact TimerSystem.activated_start
    case initTick => rw [initTick_rtThreadSleep]
    case timeoutTick => rw [timeoutTick_rtThreadSleep, BitVec.ofNat_toNat, BitVec.setWidth_eq]

end ThreadSystem

/-! ## The number of ticks -/

/-- The ticks of so many milliseconds, rounded up. -/
def ceilTicks (ms : Nat) : Nat := ⌈(ms * rtTickPerSecond / 1000 : ℚ)⌉₊

/-- The ticks that a time takes, rounded up. -/
theorem ceilTicks_eq (ms : Nat) : ceilTicks ms = (100 * ms + 999) / 1000 := by
  have hcast : (ms * rtTickPerSecond / 1000 : ℚ) = ((ms * 100 : Nat) : ℚ) / ((1000 : Nat) : ℚ) := by
    push_cast [rtTickPerSecond]
    rfl
  have hceil : ⌈((ms * 100 : Nat) : ℚ) / ((1000 : Nat) : ℚ)⌉ =
      -(-((ms * 100 : Nat) : Int) / 1000) :=
    Rat.ceil_natCast_div_natCast _ _
  rw [ceilTicks, hcast, ← Int.ceil_toNat, hceil]
  omega

/-- More milliseconds are not fewer ticks. -/
theorem ceilTicks_mono {ms ms' : Nat} (h : ms ≤ ms') : ceilTicks ms ≤ ceilTicks ms' := by
  rw [ceilTicks_eq, ceilTicks_eq]
  omega

section Ticks

variable {ms : BitVec 32}

/-- The product with what rounds it up, as an `int`. -/
def product (ms : BitVec 32) : Int := ((100 * ms.toNat + 999 : Nat) : Int).bmod (2 ^ 32)

/-- What the conversion gives is the product that wraps, divided. -/
theorem toInt_ticks (hms : 0 ≤ ms.toInt) :
    (rtTickFromMillisecond ms).toInt = (product ms).tdiv 1000 := by
  have hproduct : (BitVec.ofNat 32 rtTickPerSecond * ms + 999).toInt = product ms := by
    have hsum : (BitVec.ofNat 32 rtTickPerSecond * ms + 999).toNat =
        (100 * ms.toNat + 999) % 2 ^ 32 := by
      simp [rtTickPerSecond, BitVec.toNat_add, BitVec.toNat_mul]
    rw [BitVec.toInt_eq_toNat_bmod, hsum, Int.natCast_emod]
    exact Int.emod_bmod ..
  rw [rtTickFromMillisecond, if_neg (by omega),
    BitVec.toInt_sdiv_of_ne_or_ne _ _ (.inr (by decide)), hproduct]
  rfl

/-- The product fits up to 21474826 milliseconds. -/
theorem product_fits (h : ms.toNat ≤ 21474826) : product ms = 100 * ms.toNat + 999 := by
  unfold product
  exact (Int.bmod_eq_of_le (by omega) (by omega)).trans (by omega)

/-- From there on it is too small. -/
theorem product_wraps (h : 21474826 < ms.toNat) : product ms ≤ 100 * ms.toNat + 999 - 2 ^ 32 := by
  have hbmod := Int.bmod_def ((100 * ms.toNat + 999 : Nat) : Int) (2 ^ 32)
  unfold product
  split at hbmod <;> omega

/-- The ticks are right where the product fits, and nowhere else. -/
theorem ticks_iff (hms : 0 ≤ ms.toInt) :
    (rtTickFromMillisecond ms).toInt = ceilTicks ms.toNat ↔ ms.toNat ≤ 21474826 := by
  rw [toInt_ticks hms, ceilTicks_eq]
  constructor
  · intro hticks
    by_contra hlong
    have hwraps := product_wraps (Nat.lt_of_not_le hlong)
    by_cases hsign : 0 ≤ product ms
    · rw [Int.tdiv_eq_ediv_of_nonneg hsign] at hticks
      omega
    · have hnone : (product ms).tdiv 1000 ≤ 0 := by
        rw [← Int.neg_neg (product ms), Int.neg_tdiv]
        have hneg := @Int.tdiv_nonneg (-product ms) 1000 (by omega) (by omega)
        omega
      omega
  · intro hfits
    rw [product_fits hfits, Int.tdiv_eq_ediv_of_nonneg (by omega)]
    omega

/-- A small number is the same as an `int` and as a `rt_tick_t`. -/
theorem toNat_eq_iff_toInt {tick : BitVec 32} {ticks : Nat} (h : ticks < 0x80000000) :
    tick.toNat = ticks ↔ tick.toInt = ticks := by
  have hlt := tick.isLt
  rw [BitVec.toInt_eq_toNat_cond]
  split <;> omega

/-- The ticks of a time fit an `int`. -/
theorem ceilTicks_lt (ms : BitVec 32) : ceilTicks ms.toNat < 0x80000000 := by
  have hlt := ms.isLt
  rw [ceilTicks_eq]
  omega

/-- The thread timer is started with the right number where the number is right. -/
theorem started_rtThreadMdelay_iff (hms : 0 ≤ ms.toInt) {n : Nat} (s : ThreadSystem n)
    (t : Fin n) :
    (s.rtThreadMdelay t ms).Started t (ceilTicks ms.toNat) ↔ ms.toNat ≤ 21474826 := by
  rw [ThreadSystem.rtThreadMdelay, ThreadSystem.started_rtThreadSleep_iff,
    toNat_eq_iff_toInt (ceilTicks_lt ms), ticks_iff hms]

/-- A time that is not negative, as a number. -/
theorem toInt_toNat (hms : 0 ≤ ms.toInt) : ms.toInt = ms.toNat := by
  have hlt := ms.isLt
  rw [BitVec.toInt_eq_toNat_cond] at hms ⊢
  split at hms <;> split <;> omega

/-- As far as the product fits, the ticks grow with the milliseconds; one more millisecond, and they
are negative. -/
theorem ticks_mono_iff (hms : 0 ≤ ms.toInt) :
    (∀ a b : BitVec 32, 0 ≤ a.toInt → a.toInt ≤ b.toInt → b.toInt ≤ ms.toInt →
      (rtTickFromMillisecond a).toInt ≤ (rtTickFromMillisecond b).toInt) ↔
        ms.toNat ≤ 21474826 := by
  rw [toInt_toNat hms]
  constructor
  · intro hmono
    by_contra hlong
    have hlast := hmono 21474826#32 21474827#32 (by decide) (by decide)
      (by rw [show (21474827#32).toInt = 21474827 by decide]; omega)
    exact absurd hlast (by decide)
  · intro hfits a b ha hab hb
    have hanat := toInt_toNat ha
    have hbnat := toInt_toNat (Int.le_trans ha hab)
    have haticks := (ticks_iff ha).mpr (by omega)
    have hbticks := (ticks_iff (Int.le_trans ha hab)).mpr (by omega)
    have hmono := @ceilTicks_mono a.toNat b.toNat (by omega)
    omega

end Ticks

/-- **Milliseconds to ticks.** For every `ms` that is not negative: the ticks are
`ms * RT_TICK_PER_SECOND / 1000` rounded up, every `rt_thread_mdelay` starts the thread timer with
that number, and the ticks are monotone up to `ms`, each exactly if `ms` is at most 21474826. -/
theorem mdelay_ticks_iff (ms : BitVec 32) (hms : 0 ≤ ms.toInt) :
    ((rtTickFromMillisecond ms).toInt = ceilTicks ms.toNat ↔ ms.toNat ≤ 21474826) ∧
      (∀ (n : Nat) (s : ThreadSystem n) (t : Fin n),
        (s.rtThreadMdelay t ms).Started t (ceilTicks ms.toNat) ↔ ms.toNat ≤ 21474826) ∧
      ((∀ a b : BitVec 32, 0 ≤ a.toInt → a.toInt ≤ b.toInt → b.toInt ≤ ms.toInt →
        (rtTickFromMillisecond a).toInt ≤ (rtTickFromMillisecond b).toInt) ↔
          ms.toNat ≤ 21474826) :=
  ⟨ticks_iff hms, fun _ s t => started_rtThreadMdelay_iff hms s t, ticks_mono_iff hms⟩

/-- A second: a hundred ticks. -/
theorem mdelay_ticks_second :
    ((rtTickFromMillisecond 1000).toInt = ceilTicks 1000 ↔ 1000 ≤ 21474826) ∧
      (∀ (n : Nat) (s : ThreadSystem n) (t : Fin n),
        (s.rtThreadMdelay t 1000).Started t (ceilTicks 1000) ↔ 1000 ≤ 21474826) ∧
      ((∀ a b : BitVec 32, 0 ≤ a.toInt → a.toInt ≤ b.toInt → b.toInt ≤ 1000 →
        (rtTickFromMillisecond a).toInt ≤ (rtTickFromMillisecond b).toInt) ↔
          1000 ≤ 21474826) :=
  mdelay_ticks_iff 1000 (by decide)

/-- The longest delay there is does not sleep at all. -/
theorem ticks_longest :
    (rtTickFromMillisecond 0x7fffffff).toInt = 0 ∧
      (rtTickFromMillisecond 0x7fffffff).toInt ≠ ceilTicks 0x7fffffff := by
  rw [ceilTicks_eq]
  decide

end RtVcom.Kernel
