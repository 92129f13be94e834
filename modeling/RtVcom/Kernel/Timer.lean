import Mathlib.Logic.Function.Basic
import RtVcom.Lib.Machine
import RtVcom.Lib.Insertion
import RtVcom.Kernel.Ipc

/-!
# Timers and their activation flag

The timers of `src/timer.c`, which live in one list that is ordered by the tick they time out at
(`RT_TIMER_SKIP_LIST_LEVEL` is 1). `rt_timer_check` walks it from the front: it takes an expired
timer out, calls its function, and starts a periodic timer again.

`RT_TIMER_FLAG_ACTIVATED` should say whether a timer is in the list, and `rt_timer_stop` believes
it (`Truthful`). While a timer's function runs the flag may say more than the list does, and
`rt_timer_check` sets that right behind the function, by the flags the timer has then. It clears
the flag of a one-shot timer, also where the function has started that timer again: the timer is
linked and cannot be stopped (`timer_flag_lost`). In every run without such a function the flag is
truthful whenever nobody is in `rt_timer_check` (`timer_flag_truthful`).
-/

namespace RtVcom.Kernel

open RtVcom.Lib

/-! ## The timers -/

/-- `RT_TICK_MAX`. -/
def rtTickMax : Nat := 0xffffffff

/-- `struct rt_timer`, with the bits `RT_TIMER_FLAG_ACTIVATED` and `RT_TIMER_FLAG_PERIODIC` of its
flag. -/
structure RtTimer where
  activated : Bool
  periodic : Bool
  initTick : BitVec 32
  timeoutTick : BitVec 32
deriving Repr, DecidableEq

/-- `_rt_timer_init`. -/
def rtTimerInit (time : BitVec 32) (periodic : Bool) : RtTimer :=
  { activated := false, periodic, initTick := time, timeoutTick := 0 }

/-- `rt_tick`, the timers, and `rt_timer_list`. -/
structure TimerSystem where
  tick : BitVec 32
  timer : Nat → RtTimer
  list : List Nat

/-- The commands of `rt_timer_control` that change a timer. -/
inductive TimerControl
  | setTime (tick : BitVec 32)
  | setOneshot
  | setPeriodic
deriving Repr, DecidableEq

namespace TimerSystem

def setTimer (s : TimerSystem) (t : Nat) (x : RtTimer) : TimerSystem :=
  { s with timer := Function.update s.timer t x }

/-- `_rt_timer_remove`. -/
def remove (s : TimerSystem) (t : Nat) : TimerSystem :=
  { s with list := s.list.erase t }

/-- `timer->parent.flag &= ~RT_TIMER_FLAG_ACTIVATED`, or `|=`. -/
def setActivated (s : TimerSystem) (t : Nat) (activated : Bool) : TimerSystem :=
  s.setTimer t { s.timer t with activated }

/-- Whether the walk of `rt_timer_start` stops in front of `u`: it times out later, by less than
half the range of the tick. -/
def later (s : TimerSystem) (timeoutTick : BitVec 32) (u : Nat) : Bool :=
  decide ((s.timer u).timeoutTick - timeoutTick ≠ 0) &&
    decide (((s.timer u).timeoutTick - timeoutTick).toNat < rtTickMax / 2)

/-- The insertion of `rt_timer_start`. -/
def insert (s : TimerSystem) (t : Nat) : TimerSystem :=
  { s with list := insertBefore (s.later (s.timer t).timeoutTick) t s.list }

/-- `rt_timer_start`. -/
def start (s : TimerSystem) (t : Nat) : TimerSystem :=
  let s := (s.remove t).setActivated t false
  let s := s.setTimer t { s.timer t with timeoutTick := s.tick + (s.timer t).initTick }
  (s.insert t).setActivated t true

/-- `rt_timer_stop`. -/
def stop (s : TimerSystem) (t : Nat) : TimerSystem × Int :=
  if (s.timer t).activated then ((s.remove t).setActivated t false, rtEok) else (s, -rtError)

/-- `rt_timer_control`. -/
def control (s : TimerSystem) (t : Nat) : TimerControl → TimerSystem
  | .setTime tick => s.setTimer t { s.timer t with initTick := tick }
  | .setOneshot => s.setTimer t { s.timer t with periodic := false }
  | .setPeriodic => s.setTimer t { s.timer t with periodic := true }

/-- Whether `rt_timer_check` finds a timer expired. -/
def expired (s : TimerSystem) (t : Nat) : Bool :=
  decide ((s.tick - (s.timer t).timeoutTick).toNat < rtTickMax / 2)

/-- `rt_timer_check` behind the call of the timeout function: a periodic timer that its function
has not stopped is started again. -/
def settle (s : TimerSystem) (t : Nat) : TimerSystem :=
  if (s.timer t).periodic ∧ (s.timer t).activated then (s.setActivated t false).start t
  else s.setActivated t false

/-! ## What the functions do with the list and the flags -/

variable {s : TimerSystem} {t u : Nat}

@[simp] theorem setTimer_list (x : RtTimer) : (s.setTimer t x).list = s.list := rfl

@[simp] theorem setActivated_list (activated : Bool) :
    (s.setActivated t activated).list = s.list := rfl

theorem activated_setActivated (activated : Bool) :
    ((s.setActivated t activated).timer t).activated = activated := by
  simp only [setActivated, setTimer, Function.update_self]

theorem timer_setTimer_of_ne (x : RtTimer) (h : u ≠ t) : (s.setTimer t x).timer u = s.timer u :=
  Function.update_of_ne h ..

theorem timer_setActivated_of_ne (activated : Bool) (h : u ≠ t) :
    (s.setActivated t activated).timer u = s.timer u :=
  timer_setTimer_of_ne _ h

/-- The walk changes where a timer goes, never whether it does. -/
theorem insert_perm (s : TimerSystem) (t : Nat) : (s.insert t).list.Perm (t :: s.list) :=
  insertBefore_perm

/-- Starting a timer puts it into the list. -/
theorem mem_start : u ∈ (s.start t).list ↔ u = t ∨ u ∈ s.list.erase t := by
  unfold start
  rw [setActivated_list, (insert_perm _ t).mem_iff, List.mem_cons]
  rfl

theorem activated_start : ((s.start t).timer t).activated = true :=
  activated_setActivated true

theorem timer_start_of_ne (h : u ≠ t) : (s.start t).timer u = s.timer u := by
  unfold start insert
  rw [timer_setActivated_of_ne _ h]
  change ((_ : TimerSystem).setTimer t _).timer u = _
  rw [timer_setTimer_of_ne _ h, timer_setActivated_of_ne _ h]
  rfl

end TimerSystem

/-! ## The system -/

/-- Where `rt_timer_check` is. -/
inductive CheckPhase
  | idle
  | looking
  | calling (t : Nat)
deriving Repr, DecidableEq

/-- The timer whose function runs. -/
def CheckPhase.callee : CheckPhase → Option Nat
  | .calling t => some t
  | _ => none

/-- The timers, and where the check is. -/
structure CheckSystem where
  sys : TimerSystem
  phase : CheckPhase

/-- The calls of the threads and of the timeout functions, the tick, and the steps of
`rt_timer_check`: it begins, looks at the front of the list, and goes on behind a timeout function
that has returned. -/
inductive CheckAction
  | start (t : Nat)
  | stop (t : Nat)
  | control (t : Nat) (cmd : TimerControl)
  | tick
  | check
  | look
  | returned
deriving Repr, DecidableEq

namespace CheckSystem

/-- Whether a thread or a timeout function runs, and not the check itself. -/
def Calls (c : CheckSystem) : Prop := c.phase ≠ .looking

instance (c : CheckSystem) : Decidable c.Calls := inferInstanceAs (Decidable (_ ≠ _))

/-- One look of `rt_timer_check` at the front of the list. -/
def look (c : CheckSystem) : CheckSystem :=
  match c.sys.list with
  | [] => { c with phase := .idle }
  | t :: _ =>
    if c.sys.expired t then { sys := c.sys.remove t, phase := .calling t }
    else { c with phase := .idle }

end CheckSystem

/-- Timers after `rt_timer_init`, at any tick, and every sequence of calls, ticks and checks. A
timeout function makes any calls before it returns. -/
def checkMachine (tick : BitVec 32) (time : Nat → BitVec 32) (periodic : Nat → Bool) :
    Machine CheckSystem CheckAction where
  init :=
    { sys := { tick, timer := fun t => rtTimerInit (time t) (periodic t), list := [] }
      phase := .idle }
  step c
    | .start t => if c.Calls then some { c with sys := c.sys.start t } else none
    | .stop t => if c.Calls then some { c with sys := (c.sys.stop t).1 } else none
    | .control t cmd => if c.Calls then some { c with sys := c.sys.control t cmd } else none
    | .tick =>
      if c.phase = .idle then some { c with sys := { c.sys with tick := c.sys.tick + 1 } } else none
    | .check => if c.phase = .idle then some { c with phase := .looking } else none
    | .look => if c.phase = .looking then some c.look else none
    | .returned =>
      match c.phase with
      | .calling t => some { sys := c.sys.settle t, phase := .looking }
      | _ => none

/-- The law of the flag. -/
def Truthful (s : TimerSystem) : Prop := ∀ t, (s.timer t).activated = true ↔ t ∈ s.list

/-- A timeout function does not leave its own timer linked, unless that is periodic. -/
def LeavesStopped (c : CheckSystem) : CheckAction → Prop
  | .returned => ∀ t ∈ c.phase.callee, (c.sys.timer t).periodic = true ∨ t ∉ c.sys.list
  | _ => True

/-! ## The invariant -/

/-- Each timer is in the list once, and its flag is truthful. While its function runs the flag
may be set although it is not in the list. -/
structure FlagInv (c : CheckSystem) : Prop where
  nodup : c.sys.list.Nodup
  flag : ∀ t, c.phase ≠ .calling t → ((c.sys.timer t).activated = true ↔ t ∈ c.sys.list)
  linked : ∀ t ∈ c.sys.list, (c.sys.timer t).activated = true

namespace TimerSystem

variable {s : TimerSystem} {t u : Nat}

/-- A timer that is started is truthful, and the others stay what they were. -/
theorem flag_start (hnodup : s.list.Nodup)
    (hflag : u ≠ t → ((s.timer u).activated = true ↔ u ∈ s.list)) :
    ((s.start t).timer u).activated = true ↔ u ∈ (s.start t).list := by
  by_cases hu : u = t
  · subst hu
    simp only [activated_start, mem_start, true_or]
  · rw [timer_start_of_ne hu, hflag hu, mem_start, hnodup.mem_erase_iff]
    simp only [hu, ne_eq, not_false_eq_true, true_and, false_or]

/-- No timer is in the list twice. -/
theorem nodup_start (hnodup : s.list.Nodup) : (s.start t).list.Nodup := by
  unfold start
  rw [setActivated_list, (insert_perm _ t).nodup_iff, List.nodup_cons]
  exact ⟨fun hmem => (hnodup.mem_erase_iff.mp hmem).1 rfl, hnodup.erase t⟩

/-- A timer that leaves the list with its flag cleared is truthful, and so are the others. -/
theorem flag_stopped (hnodup : s.list.Nodup)
    (hflag : u ≠ t → ((s.timer u).activated = true ↔ u ∈ s.list)) :
    (((s.remove t).setActivated t false).timer u).activated = true ↔
      u ∈ ((s.remove t).setActivated t false).list := by
  rw [setActivated_list, show (s.remove t).list = s.list.erase t from rfl, hnodup.mem_erase_iff]
  by_cases hu : u = t
  · subst hu
    simp only [activated_setActivated, Bool.false_eq_true, ne_eq, not_true_eq_false, false_and]
  · rw [timer_setActivated_of_ne _ hu, show (s.remove t).timer u = s.timer u from rfl, hflag hu]
    simp only [ne_eq, hu, not_false_eq_true, true_and]

theorem control_list (cmd : TimerControl) : (s.control t cmd).list = s.list := by
  cases cmd <;> rfl

theorem activated_control (cmd : TimerControl) (u : Nat) :
    ((s.control t cmd).timer u).activated = (s.timer u).activated := by
  have hset (x : RtTimer) (hx : x.activated = (s.timer t).activated) :
      ((s.setTimer t x).timer u).activated = (s.timer u).activated := by
    by_cases hu : u = t
    · subst hu
      simp only [setTimer, Function.update_self, hx]
    · rw [timer_setTimer_of_ne _ hu]
  cases cmd <;> exact hset _ rfl

/-- What `rt_timer_check` does behind the function of a periodic timer, or of one that is not
linked. -/
theorem flag_settle (hnodup : s.list.Nodup)
    (hflag : ∀ u, u ≠ t → ((s.timer u).activated = true ↔ u ∈ s.list))
    (hlinked : t ∈ s.list → (s.timer t).activated = true)
    (hok : (s.timer t).periodic = true ∨ t ∉ s.list) (u : Nat) :
    ((s.settle t).timer u).activated = true ↔ u ∈ (s.settle t).list := by
  unfold settle
  by_cases hagain : (s.timer t).periodic = true ∧ (s.timer t).activated = true
  · rw [if_pos hagain]
    apply flag_start
    · exact hnodup
    · intro hu
      rw [timer_setActivated_of_ne _ hu]
      exact hflag u hu
  · rw [if_neg hagain, setActivated_list]
    by_cases hu : u = t
    · subst hu
      have hout : u ∉ s.list := by
        intro hmem
        rcases hok with hperiodic | hout
        · exact hagain ⟨hperiodic, hlinked hmem⟩
        · exact hout hmem
      simp only [activated_setActivated, Bool.false_eq_true, hout]
    · rw [timer_setActivated_of_ne _ hu]
      exact hflag u hu

theorem nodup_settle (hnodup : s.list.Nodup) : (s.settle t).list.Nodup := by
  unfold settle
  split
  · exact nodup_start (s := s.setActivated t false) hnodup
  · exact hnodup

end TimerSystem

namespace CheckSystem

open TimerSystem

variable {c : CheckSystem} {t : Nat}

/-- A start keeps the invariant of the flags. -/
theorem flagInv_start (h : FlagInv c) (t : Nat) :
    FlagInv { c with sys := c.sys.start t } where
  nodup := nodup_start h.nodup
  flag u hu := flag_start h.nodup fun _ => h.flag u hu
  linked u hu := by
    rw [mem_start] at hu
    by_cases hut : u = t
    · subst hut
      exact activated_start
    · dsimp only
      rw [timer_start_of_ne hut]
      exact h.linked u (List.mem_of_mem_erase (hu.resolve_left hut))

theorem flagInv_stop (h : FlagInv c) (t : Nat) :
    FlagInv { c with sys := (c.sys.stop t).1 } := by
  unfold stop
  split
  · constructor
    case nodup => exact h.nodup.erase t
    case flag =>
      intro u hu
      exact flag_stopped h.nodup fun _ => h.flag u hu
    case linked =>
      intro u hu
      obtain ⟨hut, hmem⟩ := h.nodup.mem_erase_iff.mp hu
      dsimp only
      rw [timer_setActivated_of_ne _ hut]
      exact h.linked u hmem
  · exact h

theorem flagInv_control (h : FlagInv c) (t : Nat) (cmd : TimerControl) :
    FlagInv { c with sys := c.sys.control t cmd } where
  nodup := by
    rw [control_list]
    exact h.nodup
  flag u hu := by
    dsimp only
    rw [control_list, activated_control]
    exact h.flag u hu
  linked u hu := by
    rw [control_list] at hu
    dsimp only
    rw [activated_control]
    exact h.linked u hu

theorem flagInv_look (h : FlagInv c) (hphase : c.phase = .looking) : FlagInv c.look := by
  have hflag (u : Nat) : (c.sys.timer u).activated = true ↔ u ∈ c.sys.list := by
    apply h.flag
    rw [hphase]
    exact fun hcalling => by cases hcalling
  unfold look
  split
  · exact ⟨h.nodup, fun u _ => hflag u, h.linked⟩
  · next t rest hlist =>
    split
    · constructor
      case nodup => exact h.nodup.erase t
      case flag =>
        intro u hu
        have hut : u ≠ t := fun heq => hu (heq ▸ rfl)
        exact (hflag u).trans (List.mem_erase_of_ne hut).symm
      case linked =>
        intro u hu
        exact h.linked u (List.mem_of_mem_erase hu)
    · exact ⟨h.nodup, fun u _ => hflag u, h.linked⟩

/-- The return of a callback keeps it where the callback did not start its own one-shot timer. -/
theorem flagInv_returned (h : FlagInv c) (hphase : c.phase = .calling t)
    (hok : (c.sys.timer t).periodic = true ∨ t ∉ c.sys.list) :
    FlagInv { sys := c.sys.settle t, phase := .looking } := by
  have hflag := flag_settle h.nodup (t := t)
    (fun u hu => h.flag u fun heq => hu (CheckPhase.calling.inj (heq.symm.trans hphase)))
    (h.linked t) hok
  exact ⟨nodup_settle h.nodup, fun u _ => hflag u, fun u hu => (hflag u).mpr hu⟩

end CheckSystem

/-- Every step in which no one-shot timer is left linked by its function keeps the invariant. -/
theorem flagInv_step {tick : BitVec 32} {time : Nat → BitVec 32} {periodic : Nat → Bool}
    {c d : CheckSystem} {a : CheckAction} (h : FlagInv c) (hok : LeavesStopped c a)
    (hstep : (checkMachine tick time periodic).step c a = some d) : FlagInv d := by
  cases a with
  | start t =>
    obtain ⟨-, ⟨⟩⟩ := Option.ite_none_right_eq_some.mp hstep
    exact CheckSystem.flagInv_start h t
  | stop t =>
    obtain ⟨-, ⟨⟩⟩ := Option.ite_none_right_eq_some.mp hstep
    exact CheckSystem.flagInv_stop h t
  | control t cmd =>
    obtain ⟨-, ⟨⟩⟩ := Option.ite_none_right_eq_some.mp hstep
    exact CheckSystem.flagInv_control h t cmd
  | tick =>
    obtain ⟨-, ⟨⟩⟩ := Option.ite_none_right_eq_some.mp hstep
    exact ⟨h.nodup, h.flag, h.linked⟩
  | check =>
    obtain ⟨hidle, ⟨⟩⟩ := Option.ite_none_right_eq_some.mp hstep
    refine ⟨h.nodup, fun u _ => h.flag u ?_, h.linked⟩
    rw [hidle]
    exact fun hcalling => by cases hcalling
  | look =>
    obtain ⟨hlooking, ⟨⟩⟩ := Option.ite_none_right_eq_some.mp hstep
    exact CheckSystem.flagInv_look h hlooking
  | returned =>
    simp only [checkMachine] at hstep
    split at hstep
    · next t hcalling =>
      cases hstep
      exact CheckSystem.flagInv_returned h hcalling (hok t (by rw [hcalling]; rfl))
    · cases hstep

/-- **The flag is truthful.** In every run in which no timeout function returns with its own
one-shot timer linked, outside `rt_timer_check` the flag of every timer says whether it is in the
list, and `rt_timer_stop` takes out every timer that is. -/
theorem timer_flag_truthful (tick : BitVec 32) (time : Nat → BitVec 32) (periodic : Nat → Bool)
    (c : CheckSystem) (h : (checkMachine tick time periodic).Reach LeavesStopped c)
    (hidle : c.phase = .idle) :
    Truthful c.sys ∧
      ∀ t ∈ c.sys.list, (c.sys.stop t).2 = rtEok ∧ t ∉ (c.sys.stop t).1.list := by
  have hinv : FlagInv c := by
    refine h.invariant ?_ fun _ _ _ hc hok hstep => flagInv_step hc hok hstep
    exact ⟨List.nodup_nil, fun t _ => ⟨fun hset => (by cases hset), fun hmem => (by cases hmem)⟩,
      fun t hmem => (by cases hmem)⟩
  constructor
  · intro t
    apply hinv.flag
    rw [hidle]
    exact fun hcalling => by cases hcalling
  · intro t ht
    unfold TimerSystem.stop
    rw [if_pos (hinv.linked t ht)]
    exact ⟨rfl, fun hmem => (hinv.nodup.mem_erase_iff.mp hmem).1 rfl⟩

instance : DecidableRel LeavesStopped := fun c a => by
  cases a <;> unfold LeavesStopped <;> infer_instance

/-- A periodic timer whose function stops it, and starts another one. -/
theorem timer_flag_truthful_stopped :
    ∃ c, (checkMachine 0xffffffff (fun _ => 1) (fun t => t == 0)).Reach LeavesStopped c ∧
      c.phase = .idle ∧ c.sys.list = [1] ∧ Truthful c.sys := by
  obtain ⟨c, hreach, hc⟩ := Machine.exists_reach_of_run
    (checkMachine 0xffffffff (fun _ => 1) (fun t => t == 0)) LeavesStopped
    [.start 0, .tick, .check, .look, .stop 0, .start 1, .returned, .look]
    (fun c => c.phase = .idle ∧ c.sys.list = [1]) (by decide)
  exact ⟨c, hreach, hc.1, hc.2, (timer_flag_truthful _ _ _ c hreach hc.1).1⟩

/-- A one-shot timer whose function starts it again: it is linked, its flag is cleared, and
`rt_timer_stop` refuses it. -/
theorem timer_flag_lost :
    ¬ ∀ tick time periodic c, (checkMachine tick time periodic).Reach Machine.any c →
      c.phase = .idle → Truthful c.sys := by
  intro hall
  obtain ⟨c, hreach, hidle, hlinked, hflag⟩ := Machine.exists_reach_of_run
    (checkMachine 0 (fun _ => 1) fun _ => false) Machine.any
    [.start 0, .tick, .check, .look, .start 0, .returned, .look]
    (fun c => c.phase = .idle ∧ 0 ∈ c.sys.list ∧ (c.sys.timer 0).activated = false) (by decide)
  have htruth := (hall _ _ _ c hreach hidle 0).mpr hlinked
  rw [hflag] at htruth
  cases htruth

end RtVcom.Kernel
