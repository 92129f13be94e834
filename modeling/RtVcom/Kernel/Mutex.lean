import Mathlib.Logic.Function.Basic
import RtVcom.Lib.Machine
import RtVcom.Kernel.Ipc

/-!
# Mutexes — recursion, hand-over and priority inheritance

`rt_mutex_take` and `rt_mutex_release` of `src/ipc.c` over any number of mutexes and threads.
A mutex counts the nested takes of its owner in the 8-bit `hold`, saves the priority its owner
had when it became the owner, and lends the owner the priority of a more urgent thread that
comes to wait. A release that ends the outermost take restores the saved priority and hands
the mutex over to the first waiter, which from then on is the owner, before it runs.

Beside the code the system counts, for each mutex and thread, the takes that succeeded and
are not yet matched by a release (`depth`). `Owned` compares the mutex with that count:
exactly one thread has takes outstanding while the mutex is owned, and `hold` is their number.
It holds in every run whose nesting stays within 255 (`rtMutex_owned`). At the 256th nested
take `hold` is 0 again (`rtMutex_hold_wraps`).
-/

namespace RtVcom.Kernel

open RtVcom.Lib

/-! ## The objects -/

/-- `struct rt_mutex`: `value` is 16 bits wide, `original_priority` and `hold` are 8. -/
structure RtMutex where
  value : Nat
  originalPriority : Nat
  hold : Nat
  owner : Option Nat
  suspendThread : List Nat
  flag : IpcFlag
deriving Repr, DecidableEq

/-- `rt_mutex_init`. -/
def rtMutexInit (flag : IpcFlag) : RtMutex :=
  { value := 1
    originalPriority := 0xff
    hold := 0
    owner := none
    suspendThread := []
    flag := flag }

/-- The values of the 16-bit `value` and of the 8-bit `hold`. -/
def rtMutexValueMod : Nat := 0x10000
def rtMutexHoldMod : Nat := 0x100

/-- What the mutex functions use of a thread: its priority and error number, the mutex in
whose suspend list it is, and whether its thread timer runs. -/
structure ThreadBlock (ι : Type) where
  currentPriority : Nat
  error : Int
  suspendedOn : Option ι
  timer : Bool

/-- The mutexes, the threads, and the takes outstanding. -/
structure MutexSystem (ι : Type) where
  mutex : ι → RtMutex
  thread : Nat → ThreadBlock ι
  depth : ι → Nat → Nat

/-- The calls of the threads, with the waiting time of a take, and the expiry of a thread
timer. -/
inductive MutexAction (ι : Type)
  | take (t : Nat) (m : ι) (time : Int)
  | release (t : Nat) (m : ι)
  | timeout (t : Nat)

namespace MutexSystem

variable {ι : Type} [DecidableEq ι]

/-! ## The functions -/

def priority (s : MutexSystem ι) (t : Nat) : Nat := (s.thread t).currentPriority

def setMutex (s : MutexSystem ι) (m : ι) (x : RtMutex) : MutexSystem ι :=
  { s with mutex := Function.update s.mutex m x }

def setThread (s : MutexSystem ι) (t : Nat) (b : ThreadBlock ι) : MutexSystem ι :=
  { s with thread := Function.update s.thread t b }

def setDepth (s : MutexSystem ι) (m : ι) (t n : Nat) : MutexSystem ι :=
  { s with depth := Function.update s.depth m (Function.update (s.depth m) t n) }

/-- `thread->error = err`. -/
def setError (s : MutexSystem ι) (t : Nat) (err : Int) : MutexSystem ι :=
  s.setThread t { s.thread t with error := err }

/-- `rt_thread_control(thread, RT_THREAD_CTRL_CHANGE_PRIORITY, &priority)`. A suspended
thread keeps its place in the suspend list. -/
def changePriority (s : MutexSystem ι) (t priority : Nat) : MutexSystem ι :=
  s.setThread t { s.thread t with currentPriority := priority }

/-- The loan of `rt_mutex_take`: an owner that is less urgent than the new waiter gets its
priority. A mutex that is not available has an owner. -/
def lend (s : MutexSystem ι) (t : Nat) : Option Nat → MutexSystem ι
  | some o => if s.priority t < s.priority o then s.changePriority o (s.priority t) else s
  | none => s

/-- `rt_ipc_list_suspend`, with the priorities the threads have now. -/
def enqueue (priority : Nat → Nat) (list : List Nat) (t : Nat) (flag : IpcFlag) : List Nat :=
  (rtIpcListSuspend (list.map fun w => ⟨w, priority w⟩) ⟨t, priority t⟩ flag).map RtThread.id

/-- The caller goes into the suspend list; a positive waiting time starts its timer. -/
def wait (s : MutexSystem ι) (t : Nat) (m : ι) (time : Int) : MutexSystem ι :=
  let x := s.mutex m
  (s.setMutex m { x with suspendThread := enqueue s.priority x.suspendThread t x.flag }).setThread t
    { s.thread t with suspendedOn := some m, timer := decide (0 < time) }

/-- `rt_mutex_take` up to the point where it returns or gives up the processor. -/
def take (s : MutexSystem ι) (t : Nat) (m : ι) (time : Int) : MutexSystem ι :=
  let s := s.setError t rtEok
  let x := s.mutex m
  if x.owner = some t then
    (s.setMutex m { x with hold := (x.hold + 1) % rtMutexHoldMod }).setDepth m t (s.depth m t + 1)
  else if 0 < x.value then
    (s.setMutex m
      { x with
          value := x.value - 1
          owner := some t
          originalPriority := s.priority t
          hold := (x.hold + 1) % rtMutexHoldMod }).setDepth m t (s.depth m t + 1)
  else if time = 0 then s.setError t (-rtEtimeout)
  else (s.lend t x.owner).wait t m time

/-- `rt_thread_resume`: the thread leaves the suspend list and its timer is stopped. -/
def resume (s : MutexSystem ι) (t : Nat) : MutexSystem ι :=
  s.setThread t { s.thread t with suspendedOn := none, timer := false }

/-- The owner's priority restored, then the hand-over to the first waiter, or the mutex made
free. `hold` is 0 here. -/
def giveUp (s : MutexSystem ι) (t : Nat) (m : ι) : MutexSystem ι :=
  let x := s.mutex m
  let s := if x.originalPriority ≠ s.priority t then s.changePriority t x.originalPriority else s
  match x.suspendThread with
  | w :: rest =>
    ((s.setMutex m
      { x with
          owner := some w
          originalPriority := s.priority w
          hold := (x.hold + 1) % rtMutexHoldMod
          suspendThread := rest }).resume w).setDepth m w (s.depth m w + 1)
  | [] =>
    s.setMutex m
      { x with value := (x.value + 1) % rtMutexValueMod, owner := none, originalPriority := 0xff }

/-- `rt_mutex_release`. The matching of releases to takes looks at the caller alone. -/
def release (s : MutexSystem ι) (t : Nat) (m : ι) : MutexSystem ι :=
  let x := s.mutex m
  let s := s.setDepth m t (s.depth m t - 1)
  if x.owner ≠ some t then s.setError t (-rtError)
  else
    let hold := (x.hold + (rtMutexHoldMod - 1)) % rtMutexHoldMod
    let s := s.setMutex m { x with hold := hold }
    if hold = 0 then s.giveUp t m else s

/-- `rt_thread_timeout`. -/
def timeout (s : MutexSystem ι) (t : Nat) (m : ι) : MutexSystem ι :=
  let x := s.mutex m
  ((s.setMutex m { x with suspendThread := x.suspendThread.erase t }).resume t).setError t
    (-rtEtimeout)

end MutexSystem

/-- The mutexes after `rt_mutex_init` and the threads with their priorities, and every
interleaving of their calls. A suspended thread makes none. -/
def mutexMachine {ι : Type} [DecidableEq ι] (flag : ι → IpcFlag) (base : Nat → Nat) :
    Machine (MutexSystem ι) (MutexAction ι) where
  init :=
    { mutex := fun m => rtMutexInit (flag m)
      thread := fun t => ⟨base t, rtEok, none, false⟩
      depth := fun _ _ => 0 }
  step s
    | .take t m time => if (s.thread t).suspendedOn = none then some (s.take t m time) else none
    | .release t m => if (s.thread t).suspendedOn = none then some (s.release t m) else none
    | .timeout t =>
      match (s.thread t).suspendedOn, (s.thread t).timer with
      | some m, true => some (s.timeout t m)
      | _, _ => none

/-! ## What a step can do -/

namespace MutexSystem

variable {ι : Type} [DecidableEq ι]

def suspendedOn (s : MutexSystem ι) (t : Nat) : Option ι := (s.thread t).suspendedOn

/-- The priorities behind the loan of `rt_mutex_take`. -/
def lent (priority : Nat → Nat) (t : Nat) : Option Nat → Nat → Nat
  | some o => if priority t < priority o then Function.update priority o (priority t) else priority
  | none => priority

/-- The parts of a system the laws speak of, each given. -/
structure Looks (s : MutexSystem ι) (mutex : ι → RtMutex) (priority : Nat → Nat)
    (suspendedOn : Nat → Option ι) (depth : ι → Nat → Nat) : Prop where
  mutex : s.mutex = mutex
  priority : s.priority = priority
  suspendedOn : s.suspendedOn = suspendedOn
  depth : s.depth = depth

omit [DecidableEq ι] in
theorem looks_self (s : MutexSystem ι) : s.Looks s.mutex s.priority s.suspendedOn s.depth :=
  ⟨rfl, rfl, rfl, rfl⟩

section Frames

variable {s : MutexSystem ι} {mutex : ι → RtMutex} {priority : Nat → Nat}
  {suspended : Nat → Option ι} {depth : ι → Nat → Nat}

/-- Writing a mutex changes what the mutexes look like. -/
theorem Looks.setMutex (h : s.Looks mutex priority suspended depth) (m : ι) (x : RtMutex) :
    (s.setMutex m x).Looks (Function.update mutex m x) priority suspended depth := by
  refine ⟨?_, h.priority, h.suspendedOn, h.depth⟩
  rw [← h.mutex]
  rfl

/-- Counting a depth changes the depths. -/
theorem Looks.setDepth (h : s.Looks mutex priority suspended depth) (m : ι) (t n : Nat) :
    (s.setDepth m t n).Looks mutex priority suspended
      (Function.update depth m (Function.update (depth m) t n)) := by
  refine ⟨h.mutex, h.priority, h.suspendedOn, ?_⟩
  rw [← h.depth]
  rfl

omit [DecidableEq ι] in
/-- Writing a thread changes its priority and what it waits for. -/
theorem Looks.setThread (h : s.Looks mutex priority suspended depth) {t p : Nat} {o : Option ι}
    {b : ThreadBlock ι} (hp : b.currentPriority = p) (ho : b.suspendedOn = o) :
    (s.setThread t b).Looks mutex (Function.update priority t p) (Function.update suspended t o)
      depth := by
  refine ⟨h.mutex, ?_, ?_, h.depth⟩
  · ext u
    rw [← h.priority, ← hp]
    by_cases hu : u = t
    · subst hu
      simp only [MutexSystem.priority, MutexSystem.setThread, Function.update_self]
    · simp only [MutexSystem.priority, MutexSystem.setThread, Function.update_of_ne hu]
  · funext u
    rw [← h.suspendedOn, ← ho]
    by_cases hu : u = t
    · subst hu
      simp only [MutexSystem.suspendedOn, MutexSystem.setThread, Function.update_self]
    · simp only [MutexSystem.suspendedOn, MutexSystem.setThread, Function.update_of_ne hu]

omit [DecidableEq ι] in
theorem Looks.setError (h : s.Looks mutex priority suspended depth) (t : Nat) (err : Int) :
    (s.setError t err).Looks mutex priority suspended depth := by
  have hset := h.setThread (t := t) (b := { s.thread t with error := err })
    (congrFun h.priority t) (congrFun h.suspendedOn t)
  rwa [Function.update_eq_self, Function.update_eq_self] at hset

omit [DecidableEq ι] in
/-- A change of a priority changes that only. -/
theorem Looks.changePriority (h : s.Looks mutex priority suspended depth) (t p : Nat) :
    (s.changePriority t p).Looks mutex (Function.update priority t p) suspended depth := by
  have hset := h.setThread (t := t) (b := { s.thread t with currentPriority := p })
    rfl (congrFun h.suspendedOn t)
  rwa [Function.update_eq_self] at hset

omit [DecidableEq ι] in
/-- A resumed thread waits for nothing. -/
theorem Looks.resume (h : s.Looks mutex priority suspended depth) (t : Nat) :
    (s.resume t).Looks mutex priority (Function.update suspended t none) depth := by
  have hset := h.setThread (t := t) (b := { s.thread t with suspendedOn := none, timer := false })
    (congrFun h.priority t) rfl
  rwa [Function.update_eq_self] at hset

omit [DecidableEq ι] in
/-- A loan changes the priority of the owner. -/
theorem Looks.lend (h : s.Looks mutex priority suspended depth) (t : Nat) (o : Option Nat) :
    (s.lend t o).Looks mutex (lent priority t o) suspended depth := by
  cases o with
  | none => exact h
  | some o =>
    unfold MutexSystem.lend lent
    simp only [h.priority]
    split
    · exact h.changePriority o (priority t)
    · exact h

/-- A thread that waits is put into the list, with its priority or behind all others. -/
theorem Looks.wait (h : s.Looks mutex priority suspended depth) (t : Nat) (m : ι) (time : Int) :
    (s.wait t m time).Looks
      (Function.update mutex m
        { mutex m with
            suspendThread := enqueue priority (mutex m).suspendThread t (mutex m).flag })
      priority (Function.update suspended t (some m)) depth := by
  have hset := (h.setMutex m
    { s.mutex m with
        suspendThread :=
          enqueue s.priority (s.mutex m).suspendThread t (s.mutex m).flag }).setThread
    (t := t) (b := { s.thread t with suspendedOn := some m, timer := decide (0 < time) })
    (congrFun h.priority t) rfl
  rw [Function.update_eq_self] at hset
  simp only [h.mutex, h.priority] at hset
  unfold MutexSystem.wait
  simp only [h.mutex, h.priority]
  exact hset

end Frames

/-- What a step does, by the branch of the source it takes. -/
inductive Effect (s : MutexSystem ι) : MutexAction ι → MutexSystem ι → Prop
  | nested {t m time s'} (howner : (s.mutex m).owner = some t)
      (h : s'.Looks
        (Function.update s.mutex m
          { s.mutex m with hold := ((s.mutex m).hold + 1) % rtMutexHoldMod })
        s.priority s.suspendedOn
        (Function.update s.depth m (Function.update (s.depth m) t (s.depth m t + 1)))) :
      Effect s (.take t m time) s'
  | granted {t m time s'} (howner : (s.mutex m).owner ≠ some t) (hvalue : 0 < (s.mutex m).value)
      (h : s'.Looks
        (Function.update s.mutex m
          { s.mutex m with
              value := (s.mutex m).value - 1
              owner := some t
              originalPriority := s.priority t
              hold := ((s.mutex m).hold + 1) % rtMutexHoldMod })
        s.priority s.suspendedOn
        (Function.update s.depth m (Function.update (s.depth m) t (s.depth m t + 1)))) :
      Effect s (.take t m time) s'
  | refused {t m time s'} (howner : (s.mutex m).owner ≠ some t)
      (h : s'.Looks s.mutex s.priority s.suspendedOn s.depth) :
      Effect s (.take t m time) s'
  | waits {t m time s'} (hrun : s.suspendedOn t = none) (howner : (s.mutex m).owner ≠ some t)
      (hvalue : (s.mutex m).value = 0)
      (h : s'.Looks
        (Function.update s.mutex m
          { s.mutex m with
              suspendThread :=
                enqueue (lent s.priority t (s.mutex m).owner) (s.mutex m).suspendThread t
                  (s.mutex m).flag })
        (lent s.priority t (s.mutex m).owner)
        (Function.update s.suspendedOn t (some m)) s.depth) :
      Effect s (.take t m time) s'
  | foreign {t m s'} (howner : (s.mutex m).owner ≠ some t)
      (h : s'.Looks s.mutex s.priority s.suspendedOn
        (Function.update s.depth m (Function.update (s.depth m) t (s.depth m t - 1)))) :
      Effect s (.release t m) s'
  | unnested {t m s'} (howner : (s.mutex m).owner = some t)
      (hhold : ((s.mutex m).hold + (rtMutexHoldMod - 1)) % rtMutexHoldMod ≠ 0)
      (h : s'.Looks
        (Function.update s.mutex m
          { s.mutex m with
              hold := ((s.mutex m).hold + (rtMutexHoldMod - 1)) % rtMutexHoldMod })
        s.priority s.suspendedOn
        (Function.update s.depth m (Function.update (s.depth m) t (s.depth m t - 1)))) :
      Effect s (.release t m) s'
  | handed {t m w rest s'} (hrun : s.suspendedOn t = none) (howner : (s.mutex m).owner = some t)
      (hhold : ((s.mutex m).hold + (rtMutexHoldMod - 1)) % rtMutexHoldMod = 0)
      (hlist : (s.mutex m).suspendThread = w :: rest)
      (h : s'.Looks
        (Function.update s.mutex m
          { s.mutex m with
              owner := some w
              originalPriority := Function.update s.priority t (s.mutex m).originalPriority w
              hold := 1
              suspendThread := rest })
        (Function.update s.priority t (s.mutex m).originalPriority)
        (Function.update s.suspendedOn w none)
        (Function.update s.depth m
          (Function.update (Function.update (s.depth m) t (s.depth m t - 1)) w
            (Function.update (s.depth m) t (s.depth m t - 1) w + 1)))) :
      Effect s (.release t m) s'
  | freed {t m s'} (howner : (s.mutex m).owner = some t)
      (hhold : ((s.mutex m).hold + (rtMutexHoldMod - 1)) % rtMutexHoldMod = 0)
      (hlist : (s.mutex m).suspendThread = [])
      (h : s'.Looks
        (Function.update s.mutex m
          { s.mutex m with
              value := ((s.mutex m).value + 1) % rtMutexValueMod
              hold := 0
              owner := none
              suspendThread := []
              originalPriority := 0xff })
        (Function.update s.priority t (s.mutex m).originalPriority) s.suspendedOn
        (Function.update s.depth m (Function.update (s.depth m) t (s.depth m t - 1)))) :
      Effect s (.release t m) s'
  | expired {t m s'} (hwait : s.suspendedOn t = some m)
      (h : s'.Looks
        (Function.update s.mutex m
          { s.mutex m with suspendThread := (s.mutex m).suspendThread.erase t })
        s.priority (Function.update s.suspendedOn t none) s.depth) :
      Effect s (.timeout t) s'

/-- `rt_mutex_take` has one of its effects. -/
theorem effect_take {s : MutexSystem ι} {t : Nat} (hrun : s.suspendedOn t = none) (m : ι)
    (time : Int) : Effect s (.take t m time) (s.take t m time) := by
  have h := s.looks_self.setError t rtEok
  unfold take
  simp only [show (s.setError t rtEok).mutex = s.mutex from rfl,
    show (s.setError t rtEok).depth = s.depth from rfl, h.priority]
  split
  · next howner => exact .nested howner ((h.setMutex m _).setDepth m t _)
  · next howner =>
    split
    · next hvalue => exact .granted howner hvalue ((h.setMutex m _).setDepth m t _)
    · next hvalue =>
      split
      · exact .refused howner (h.setError t _)
      · exact .waits hrun howner (Nat.eq_zero_of_not_pos hvalue) ((h.lend t _).wait t m time)

/-- The outermost release: `giveUp` behind the count of `hold`. -/
theorem effect_giveUp {s s₁ : MutexSystem ι} {t : Nat} {m : ι} (hrun : s.suspendedOn t = none)
    (howner : (s.mutex m).owner = some t)
    (hhold : ((s.mutex m).hold + (rtMutexHoldMod - 1)) % rtMutexHoldMod = 0)
    (h : s₁.Looks
      (Function.update s.mutex m
        { s.mutex m with hold := ((s.mutex m).hold + (rtMutexHoldMod - 1)) % rtMutexHoldMod })
      s.priority s.suspendedOn
      (Function.update s.depth m (Function.update (s.depth m) t (s.depth m t - 1)))) :
    Effect s (.release t m) (s₁.giveUp t m) := by
  have hx : s₁.mutex m = { s.mutex m with hold := 0 } := by
    rw [h.mutex, Function.update_self, hhold]
  -- the restored priority, written or already there
  have hrestore : (if (s₁.mutex m).originalPriority ≠ s₁.priority t then
      s₁.changePriority t (s₁.mutex m).originalPriority else s₁).Looks
      (Function.update s.mutex m { s.mutex m with hold := 0 })
      (Function.update s.priority t (s.mutex m).originalPriority) s.suspendedOn
      (Function.update s.depth m (Function.update (s.depth m) t (s.depth m t - 1))) := by
    rw [hhold] at h
    rw [hx]
    split
    · exact h.changePriority t _
    · next hsame =>
      have hsame : (s.mutex m).originalPriority = s.priority t := by
        rw [← h.priority]
        exact Decidable.of_not_not hsame
      rw [hsame, Function.update_eq_self]
      exact h
  unfold giveUp
  simp only [hx] at hrestore ⊢
  cases hlist : (s.mutex m).suspendThread with
  | nil =>
    simp only
    have hend := hrestore.setMutex m
      { s.mutex m with
          value := ((s.mutex m).value + 1) % rtMutexValueMod
          hold := 0
          owner := none
          suspendThread := []
          originalPriority := 0xff }
    rw [Function.update_idem] at hend
    exact .freed howner hhold hlist hend
  | cons w rest =>
    simp only
    have hend := ((hrestore.setMutex m
      { s.mutex m with
          owner := some w
          originalPriority := Function.update s.priority t (s.mutex m).originalPriority w
          hold := 1
          suspendThread := rest }).resume w).setDepth m w
      (Function.update (s.depth m) t (s.depth m t - 1) w + 1)
    rw [Function.update_idem, Function.update_idem, Function.update_self] at hend
    refine .handed hrun howner hhold hlist ?_
    simp only [hrestore.priority, hrestore.depth, Function.update_self]
    exact hend

/-- `rt_mutex_release` has one of its effects. -/
theorem effect_release {s : MutexSystem ι} {t : Nat} (hrun : s.suspendedOn t = none) (m : ι) :
    Effect s (.release t m) (s.release t m) := by
  have h := s.looks_self.setDepth m t (s.depth m t - 1)
  unfold release
  simp only
  split
  · next howner => exact .foreign howner (h.setError t _)
  · next howner =>
    have howner : (s.mutex m).owner = some t := Decidable.of_not_not howner
    have h := h.setMutex m
      { s.mutex m with hold := ((s.mutex m).hold + (rtMutexHoldMod - 1)) % rtMutexHoldMod }
    split
    · next hhold => exact effect_giveUp hrun howner hhold h
    · next hhold => exact .unnested howner hhold h

theorem effect_timeout {s : MutexSystem ι} {t : Nat} {m : ι} (hwait : s.suspendedOn t = some m) :
    Effect s (.timeout t) (s.timeout t m) :=
  .expired hwait (((s.looks_self.setMutex m _).resume t).setError t _)

end MutexSystem

/-- Every step is one of the branches. -/
theorem mutex_effect {ι : Type} [DecidableEq ι] {flag : ι → IpcFlag} {base : Nat → Nat}
    {s s' : MutexSystem ι} {a : MutexAction ι}
    (h : (mutexMachine flag base).step s a = some s') : s.Effect a s' := by
  cases a with
  | take t m time =>
    simp only [mutexMachine] at h
    split at h
    · next hrun =>
      cases h
      exact MutexSystem.effect_take hrun m time
    · cases h
  | release t m =>
    simp only [mutexMachine] at h
    split at h
    · next hrun =>
      cases h
      exact MutexSystem.effect_release hrun m
    · cases h
  | timeout t =>
    simp only [mutexMachine] at h
    split at h
    · next m hwait _ =>
      cases h
      exact MutexSystem.effect_timeout hwait
    · cases h

/-! ## Ownership -/

/-- A mutex and the takes outstanding on it: who owns it, that nobody else has any, and that
`hold` counts the owner's. -/
structure Owned (x : RtMutex) (depth : Nat → Nat) : Prop where
  value_one_iff : x.value = 1 ↔ x.owner = none
  value_zero : x.owner ≠ none → x.value = 0
  hold_free : x.owner = none → x.hold = 0
  hold_owner : ∀ t, x.owner = some t → x.hold = depth t
  others : ∀ t, x.owner ≠ some t → depth t = 0
  waiting : x.suspendThread ≠ [] → x.owner ≠ none

/-- How ownership leaves a thread in a step: on the release that matches its outermost take,
and to the first waiter. -/
def HandsOver {ι : Type} (s : MutexSystem ι) (a : MutexAction ι) (s' : MutexSystem ι) : Prop :=
  ∀ m t, (s.mutex m).owner = some t → (s'.mutex m).owner ≠ some t →
    a = .release t m ∧ s.depth m t = 1 ∧
      (s'.mutex m).owner = (s.mutex m).suspendThread.head?

/-- A mutex is free and unused, or it is owned by a thread that does not wait for it. -/
structure Shaped (x : RtMutex) : Prop where
  free : x.owner = none → x.value = 1 ∧ x.suspendThread = []
  held : x.owner ≠ none → x.value = 0
  apart : ∀ o, x.owner = some o → o ∉ x.suspendThread
  nodup : x.suspendThread.Nodup

/-- `hold` is the number of the owner's takes outstanding, at least one and no more than it
can count, and nobody else has any. -/
structure Counted (x : RtMutex) (depth : Nat → Nat) : Prop where
  free : x.owner = none → x.hold = 0 ∧ ∀ t, depth t = 0
  held : ∀ o, x.owner = some o →
    x.hold = depth o ∧ 0 < depth o ∧ depth o < rtMutexHoldMod ∧ ∀ t, t ≠ o → depth t = 0

namespace Shaped

variable {x : RtMutex} {t : Nat}

theorem owner_none (h : Shaped x) (hvalue : 0 < x.value) : x.owner = none := by
  cases howner : x.owner with
  | none => rfl
  | some o =>
    have : x.value = 0 := h.held (by rw [howner]; exact Option.some_ne_none o)
    omega

theorem granted (h : Shaped x) (hvalue : 0 < x.value) (priority hold : Nat) :
    Shaped
      { x with
          value := x.value - 1
          owner := some t
          originalPriority := priority
          hold := hold } := by
  obtain ⟨hone, hlist⟩ := h.free (h.owner_none hvalue)
  refine ⟨fun hfree => (by cases hfree), fun _ => ?_, fun o _ => ?_, h.nodup⟩
  · change x.value - 1 = 0
    rw [hone]
  · change o ∉ x.suspendThread
    rw [hlist]
    exact List.not_mem_nil

theorem enqueued (h : Shaped x) {list : List Nat} (hvalue : x.value = 0)
    (howner : x.owner ≠ some t) (ht : t ∉ x.suspendThread)
    (hperm : list.Perm (t :: x.suspendThread)) : Shaped { x with suspendThread := list } := by
  refine ⟨fun hfree => ?_, h.held, fun o ho hmem => ?_, ?_⟩
  · have : x.value = 1 := (h.free hfree).1
    omega
  · rcases List.mem_cons.mp (hperm.mem_iff.mp hmem) with rfl | hmem
    · exact howner ho
    · exact h.apart o ho hmem
  · exact hperm.nodup_iff.mpr (List.nodup_cons.mpr ⟨ht, h.nodup⟩)

theorem dequeued (h : Shaped x) : Shaped { x with suspendThread := x.suspendThread.erase t } := by
  refine ⟨fun hfree => ⟨(h.free hfree).1, ?_⟩, h.held, fun o ho hmem => ?_, h.nodup.erase t⟩
  · change x.suspendThread.erase t = []
    rw [(h.free hfree).2]
    rfl
  · exact h.apart o ho (List.mem_of_mem_erase hmem)

/-- The mutex goes from its owner to the first waiter. -/
theorem handed (h : Shaped x) {w : Nat} {rest : List Nat} (howner : x.owner = some t)
    (hlist : x.suspendThread = w :: rest) (priority : Nat) :
    Shaped
      { x with
          owner := some w
          originalPriority := priority
          hold := 1
          suspendThread := rest } := by
  have hnodup := h.nodup
  rw [hlist, List.nodup_cons] at hnodup
  refine ⟨fun hfree => (by cases hfree), fun _ => h.held ?_, fun o ho => ?_, hnodup.2⟩
  · rw [howner]
    exact Option.some_ne_none t
  · cases ho
    exact hnodup.1

theorem freed (h : Shaped x) (howner : x.owner = some t) :
    Shaped
      { x with
          value := (x.value + 1) % rtMutexValueMod
          hold := 0
          owner := none
          suspendThread := []
          originalPriority := 0xff } := by
  refine ⟨fun _ => ⟨?_, rfl⟩, fun hne => absurd rfl hne, fun o ho => (by cases ho), List.nodup_nil⟩
  change (x.value + 1) % rtMutexValueMod = 1
  rw [h.held (by rw [howner]; exact Option.some_ne_none t)]
  rfl

end Shaped

namespace Counted

variable {x : RtMutex} {depth : Nat → Nat} {t : Nat}

/-- A mutex whose depth is counted has an owner where it is taken. -/
theorem owned (h : Counted x depth) (hx : Shaped x) : Owned x depth where
  value_one_iff := by
    refine ⟨fun hone => hx.owner_none (by omega), fun howner => (hx.free howner).1⟩
  value_zero := hx.held
  hold_free howner := (h.free howner).1
  hold_owner t howner := (h.held t howner).1
  others t ht := by
    cases howner : x.owner with
    | none => exact (h.free howner).2 t
    | some o =>
      apply (h.held o howner).2.2.2
      rintro rfl
      exact ht howner
  waiting hne howner := hne (hx.free howner).2

/-- The suspend list has no part in the count. -/
theorem requeued (h : Counted x depth) (list : List Nat) :
    Counted { x with suspendThread := list } depth :=
  ⟨h.free, h.held⟩

/-- One thread with `n` takes outstanding, and nobody else with any. -/
theorem of_owner {y : RtMutex} {n : Nat} (howner : y.owner = some t) (hhold : y.hold = n)
    (hpos : 0 < n) (hlt : n < rtMutexHoldMod) (hothers : ∀ u, u ≠ t → depth u = 0) :
    Counted y (Function.update depth t n) := by
  refine ⟨fun hfree => ?_, fun o ho => ?_⟩
  · rw [howner] at hfree
    cases hfree
  · obtain rfl : t = o := Option.some.inj (howner.symm.trans ho)
    rw [Function.update_self]
    refine ⟨hhold, hpos, hlt, fun u hu => ?_⟩
    rw [Function.update_of_ne hu]
    exact hothers u hu

/-- The counter wraps at the 256th take, not before. -/
theorem nested (h : Counted x depth) (howner : x.owner = some t)
    (hroom : x.hold + 1 < rtMutexHoldMod) :
    Counted { x with hold := (x.hold + 1) % rtMutexHoldMod }
      (Function.update depth t (depth t + 1)) := by
  obtain ⟨hhold, _, _, hothers⟩ := h.held t howner
  refine of_owner howner ?_ (Nat.succ_pos _) (hhold ▸ hroom) hothers
  rw [← hhold]
  exact Nat.mod_eq_of_lt hroom

theorem granted (h : Counted x depth) (hfree : x.owner = none) (value priority : Nat) :
    Counted
      { x with
          value := value
          owner := some t
          originalPriority := priority
          hold := (x.hold + 1) % rtMutexHoldMod }
      (Function.update depth t (depth t + 1)) := by
  obtain ⟨hhold, hdepth⟩ := h.free hfree
  rw [hdepth t, hhold]
  exact of_owner rfl rfl (by decide) (by decide) fun u _ => hdepth u

/-- `hold` after the release of an owner: its takes without the one that is matched. -/
theorem hold_release (h : Counted x depth) (howner : x.owner = some t) :
    (x.hold + (rtMutexHoldMod - 1)) % rtMutexHoldMod = depth t - 1 := by
  obtain ⟨hhold, hpos, hlt, _⟩ := h.held t howner
  have hsplit : depth t + (rtMutexHoldMod - 1) = depth t - 1 + rtMutexHoldMod := by
    unfold rtMutexHoldMod
    omega
  rw [hhold, hsplit, Nat.add_mod_right, Nat.mod_eq_of_lt (by omega)]

theorem unnested (h : Counted x depth) (howner : x.owner = some t)
    (hhold : (x.hold + (rtMutexHoldMod - 1)) % rtMutexHoldMod ≠ 0) :
    Counted { x with hold := (x.hold + (rtMutexHoldMod - 1)) % rtMutexHoldMod }
      (Function.update depth t (depth t - 1)) := by
  rw [h.hold_release howner] at hhold ⊢
  obtain ⟨_, _, hlt, hothers⟩ := h.held t howner
  exact of_owner howner rfl (Nat.pos_of_ne_zero hhold) (by omega) hothers

/-- The release of the outermost take leaves nobody with a take outstanding. -/
theorem outermost (h : Counted x depth) (howner : x.owner = some t)
    (hhold : (x.hold + (rtMutexHoldMod - 1)) % rtMutexHoldMod = 0) :
    depth t = 1 ∧ ∀ u, Function.update depth t (depth t - 1) u = 0 := by
  obtain ⟨_, hpos, _, hothers⟩ := h.held t howner
  have hone : depth t - 1 = 0 := by rw [← h.hold_release howner, hhold]
  refine ⟨by omega, fun u => ?_⟩
  by_cases hu : u = t
  · rw [hu, Function.update_self, hone]
  · rw [Function.update_of_ne hu]
    exact hothers u hu

theorem handed (h : Counted x depth) {w : Nat} (howner : x.owner = some t)
    (hhold : (x.hold + (rtMutexHoldMod - 1)) % rtMutexHoldMod = 0) (priority : Nat)
    (rest : List Nat) :
    Counted
      { x with owner := some w, originalPriority := priority, hold := 1, suspendThread := rest }
      (Function.update (Function.update depth t (depth t - 1)) w
        (Function.update depth t (depth t - 1) w + 1)) := by
  have hzero := (h.outermost howner hhold).2
  rw [hzero w]
  exact of_owner rfl rfl (by decide) (by decide) fun u _ => hzero u

theorem freed (h : Counted x depth) (howner : x.owner = some t)
    (hhold : (x.hold + (rtMutexHoldMod - 1)) % rtMutexHoldMod = 0) {y : RtMutex}
    (hy : y.hold = 0) (hfree : y.owner = none) :
    Counted y (Function.update depth t (depth t - 1)) := by
  refine ⟨fun _ => ⟨hy, (h.outermost howner hhold).2⟩, fun o ho => ?_⟩
  rw [hfree] at ho
  cases ho

/-- A release by a thread that does not own the mutex matches no take. -/
theorem foreign (h : Counted x depth) (hx : Shaped x) (howner : x.owner ≠ some t) :
    Function.update depth t (depth t - 1) = depth := by
  have hnone : depth t = 0 := (h.owned hx).others t howner
  rw [hnone, Nat.zero_sub, ← hnone, Function.update_eq_self]

end Counted

/-- The invariant of every run: every mutex has its shape, and a thread is in the suspend list
of the mutex it waits for and in no other. -/
structure MutexInv {ι : Type} (s : MutexSystem ι) : Prop where
  shaped : ∀ m, Shaped (s.mutex m)
  listed : ∀ m t, t ∈ (s.mutex m).suspendThread ↔ s.suspendedOn t = some m

/-- A nested take finds room in the 8-bit counter. -/
def NestsWithin {ι : Type} (s : MutexSystem ι) : MutexAction ι → Prop
  | .take t m _ => (s.mutex m).owner = some t → (s.mutex m).hold + 1 < rtMutexHoldMod
  | _ => True

instance {ι : Type} : DecidableRel (@NestsWithin ι) := fun s a => by
  cases a <;> unfold NestsWithin <;> infer_instance

namespace MutexSystem

variable {ι : Type} [DecidableEq ι] {s s' : MutexSystem ι}

/-- Joining a list is a permutation of it with the thread in front. -/
theorem enqueue_perm {priority : Nat → Nat} {list : List Nat} {t : Nat} {flag : IpcFlag} :
    (enqueue priority list t flag).Perm (t :: list) := by
  refine ((rtIpcListSuspend_perm _ _ flag).map RtThread.id).trans ?_
  rw [List.map_cons, List.map_map,
    show (RtThread.id ∘ fun w => (⟨w, priority w⟩ : RtThread)) = id from rfl, List.map_id]

/-- A new record for one mutex. -/
theorem shaped_update (h : ∀ m, Shaped (s.mutex m)) {m : ι} {x : RtMutex} (hx : Shaped x)
    (m' : ι) : Shaped (Function.update s.mutex m x m') := by
  by_cases hm : m' = m
  · rw [hm, Function.update_self]
    exact hx
  · rw [Function.update_of_ne hm]
    exact h m'

/-- A new record for one mutex, and a new count on it. -/
theorem counted_update (h : ∀ m, Counted (s.mutex m) (s.depth m)) {m : ι} {x : RtMutex}
    {depth : Nat → Nat} (hx : Counted x depth) (m' : ι) :
    Counted (Function.update s.mutex m x m') (Function.update s.depth m depth m') := by
  by_cases hm : m' = m
  · rw [hm, Function.update_self, Function.update_self]
    exact hx
  · rw [Function.update_of_ne hm, Function.update_of_ne hm]
    exact h m'

/-- A field that the new record of one mutex keeps is kept everywhere. -/
theorem field_update {β : Type} (f : RtMutex → β) {m : ι} {x : RtMutex}
    (hx : f x = f (s.mutex m)) (m' : ι) : f (Function.update s.mutex m x m') = f (s.mutex m') := by
  by_cases hm : m' = m
  · rw [hm, Function.update_self, hx]
  · rw [Function.update_of_ne hm]

/-- A change of a mutex that keeps its list keeps who is listed. -/
theorem listed_update (h : MutexInv s) {m : ι} {x : RtMutex}
    (hx : x.suspendThread = (s.mutex m).suspendThread) (m' : ι) (t : Nat) :
    t ∈ (Function.update s.mutex m x m').suspendThread ↔ s.suspendedOn t = some m' := by
  rw [field_update RtMutex.suspendThread hx]
  exact h.listed m' t

/-- One thread enters a suspend list. -/
theorem listed_enter (h : MutexInv s) {m : ι} {x : RtMutex} {t : Nat}
    (hrun : s.suspendedOn t = none) (hx : x.suspendThread.Perm (t :: (s.mutex m).suspendThread))
    (m' : ι) (u : Nat) :
    u ∈ (Function.update s.mutex m x m').suspendThread ↔
      Function.update s.suspendedOn t (some m) u = some m' := by
  by_cases hm : m' = m
  · subst hm
    rw [Function.update_self, hx.mem_iff, List.mem_cons]
    by_cases hu : u = t
    · simp only [hu, Function.update_self, true_or]
    · simp only [hu, false_or, Function.update_of_ne hu]
      exact h.listed m' u
  · rw [Function.update_of_ne hm, h.listed m' u]
    by_cases hu : u = t
    · subst hu
      rw [Function.update_self, hrun]
      exact ⟨fun hne => (by cases hne), fun heq => absurd (Option.some.inj heq).symm hm⟩
    · rw [Function.update_of_ne hu]

/-- One thread leaves a suspend list. -/
theorem listed_leave (h : MutexInv s) {m : ι} {x : RtMutex} {t : Nat}
    (hwait : s.suspendedOn t = some m)
    (hx : ∀ u, u ∈ x.suspendThread ↔ u ≠ t ∧ u ∈ (s.mutex m).suspendThread) (m' : ι) (u : Nat) :
    u ∈ (Function.update s.mutex m x m').suspendThread ↔
      Function.update s.suspendedOn t none u = some m' := by
  by_cases hu : u = t
  · subst hu
    rw [Function.update_self]
    refine ⟨fun hmem => ?_, fun hne => (by cases hne)⟩
    by_cases hm : m' = m
    · rw [hm, Function.update_self] at hmem
      exact absurd rfl ((hx u).mp hmem).1
    · rw [Function.update_of_ne hm, h.listed m' u, hwait] at hmem
      exact absurd (Option.some.inj hmem).symm hm
  · rw [Function.update_of_ne hu]
    by_cases hm : m' = m
    · rw [hm, Function.update_self, hx]
      simp only [ne_eq, hu, not_false_eq_true, true_and]
      exact h.listed m u
    · rw [Function.update_of_ne hm]
      exact h.listed m' u

omit [DecidableEq ι] in
/-- A step that leaves the mutexes and their waiters alone. -/
theorem inv_same (h : MutexInv s) (hmutex : s'.mutex = s.mutex)
    (hsuspended : s'.suspendedOn = s.suspendedOn) : MutexInv s' := by
  constructor
  · rw [hmutex]
    exact h.shaped
  · rw [hmutex, hsuspended]
    exact h.listed

/-- A step that gives one mutex a new record with the same waiters. -/
theorem inv_record (h : MutexInv s) {m : ι} {x : RtMutex}
    (hmutex : s'.mutex = Function.update s.mutex m x)
    (hsuspended : s'.suspendedOn = s.suspendedOn) (hx : Shaped x)
    (hlist : x.suspendThread = (s.mutex m).suspendThread) : MutexInv s' := by
  constructor
  · rw [hmutex]
    exact shaped_update h.shaped hx
  · rw [hmutex, hsuspended]
    exact listed_update h hlist

/-- Every step keeps the invariant. -/
theorem inv_step (h : MutexInv s) {a : MutexAction ι} (heffect : s.Effect a s') :
    MutexInv s' := by
  cases heffect with
  | @nested t m time _ _ hlooks =>
    have hm := h.shaped m
    exact inv_record h hlooks.mutex hlooks.suspendedOn ⟨hm.free, hm.held, hm.apart, hm.nodup⟩ rfl
  | @granted t m time _ _ hvalue hlooks =>
    exact inv_record h hlooks.mutex hlooks.suspendedOn ((h.shaped m).granted hvalue _ _) rfl
  | refused _ hlooks => exact inv_same h hlooks.mutex hlooks.suspendedOn
  | @waits t m time _ hrun howner hvalue hlooks =>
    have hfresh : t ∉ (s.mutex m).suspendThread := by
      rw [h.listed, hrun]
      exact fun hne => by cases hne
    constructor
    · rw [hlooks.mutex]
      exact shaped_update h.shaped ((h.shaped m).enqueued hvalue howner hfresh enqueue_perm)
    · rw [hlooks.mutex, hlooks.suspendedOn]
      exact listed_enter h hrun enqueue_perm
  | foreign _ hlooks => exact inv_same h hlooks.mutex hlooks.suspendedOn
  | @unnested t m _ _ _ hlooks =>
    have hm := h.shaped m
    exact inv_record h hlooks.mutex hlooks.suspendedOn ⟨hm.free, hm.held, hm.apart, hm.nodup⟩ rfl
  | @handed t m w rest _ _ howner _ hlist hlooks =>
    constructor
    · rw [hlooks.mutex]
      exact shaped_update h.shaped ((h.shaped m).handed howner hlist _)
    · rw [hlooks.mutex, hlooks.suspendedOn]
      have hnodup := (h.shaped m).nodup
      rw [hlist, List.nodup_cons] at hnodup
      have hwait : s.suspendedOn w = some m := by
        rw [← h.listed, hlist]
        exact List.mem_cons_self
      refine listed_leave h hwait fun u => ?_
      rw [hlist, List.mem_cons]
      constructor
      · intro hu
        exact ⟨fun heq => hnodup.1 (heq ▸ hu), .inr hu⟩
      · rintro ⟨hne, hu⟩
        exact hu.resolve_left hne
  | @freed t m _ howner _ hlist hlooks =>
    exact inv_record h hlooks.mutex hlooks.suspendedOn ((h.shaped m).freed howner) hlist.symm
  | @expired t m _ hwait hlooks =>
    constructor
    · rw [hlooks.mutex]
      exact shaped_update h.shaped (h.shaped m).dequeued
    · rw [hlooks.mutex, hlooks.suspendedOn]
      exact listed_leave h hwait fun u => (h.shaped m).nodup.mem_erase_iff

/-- Every step within the range of `hold` keeps the counts. -/
theorem counted_step (h : MutexInv s) (hc : ∀ m, Counted (s.mutex m) (s.depth m))
    {a : MutexAction ι} (hok : NestsWithin s a) (heffect : s.Effect a s') (m' : ι) :
    Counted (s'.mutex m') (s'.depth m') := by
  cases heffect with
  | @nested t m time _ howner hlooks =>
    rw [hlooks.mutex, hlooks.depth]
    exact counted_update hc ((hc m).nested howner (hok howner)) m'
  | @granted t m time _ _ hvalue hlooks =>
    rw [hlooks.mutex, hlooks.depth]
    exact counted_update hc ((hc m).granted ((h.shaped m).owner_none hvalue) _ _) m'
  | refused _ hlooks =>
    rw [hlooks.mutex, hlooks.depth]
    exact hc m'
  | @waits t m time _ _ _ _ hlooks =>
    rw [hlooks.mutex, hlooks.depth, ← Function.update_eq_self m s.depth]
    exact counted_update hc ((hc m).requeued _) m'
  | @foreign t m _ howner hlooks =>
    rw [hlooks.mutex, hlooks.depth, (hc m).foreign (h.shaped m) howner, Function.update_eq_self]
    exact hc m'
  | @unnested t m _ howner hhold hlooks =>
    rw [hlooks.mutex, hlooks.depth]
    exact counted_update hc ((hc m).unnested howner hhold) m'
  | @handed t m w rest _ _ howner hhold _ hlooks =>
    rw [hlooks.mutex, hlooks.depth]
    exact counted_update hc ((hc m).handed howner hhold _ rest) m'
  | @freed t m _ howner hhold _ hlooks =>
    rw [hlooks.mutex, hlooks.depth]
    exact counted_update hc ((hc m).freed howner hhold rfl rfl) m'
  | @expired t m _ _ hlooks =>
    rw [hlooks.mutex, hlooks.depth, ← Function.update_eq_self m s.depth]
    exact counted_update hc ((hc m).requeued _) m'

/-- The outermost release of one mutex, as `HandsOver` asks for it. -/
theorem handsOver_release (hc : ∀ m, Counted (s.mutex m) (s.depth m)) {t : Nat} {m : ι}
    {x : RtMutex}
    (howner : (s.mutex m).owner = some t)
    (hhold : ((s.mutex m).hold + (rtMutexHoldMod - 1)) % rtMutexHoldMod = 0)
    (hx : x.owner = (s.mutex m).suspendThread.head?)
    (hmutex : s'.mutex = Function.update s.mutex m x) : HandsOver s (.release t m) s' := by
  intro m' u hu hne
  rw [hmutex] at hne ⊢
  by_cases hm : m' = m
  · subst hm
    obtain rfl : t = u := Option.some.inj (howner.symm.trans hu)
    rw [Function.update_self]
    exact ⟨rfl, ((hc m').outermost howner hhold).1, hx⟩
  · rw [Function.update_of_ne hm] at hne
    exact absurd hu hne

/-- Ownership leaves a thread in one branch of the source alone. -/
theorem handsOver (h : MutexInv s) (hc : ∀ m, Counted (s.mutex m) (s.depth m))
    {a : MutexAction ι} (heffect : s.Effect a s') : HandsOver s a s' := by
  -- in the other branches the owner stays
  have hstays {m : ι} {x : RtMutex} {a : MutexAction ι} {s' : MutexSystem ι}
      (hmutex : s'.mutex = Function.update s.mutex m x) (hx : x.owner = (s.mutex m).owner) :
      HandsOver s a s' := by
    intro m' u hu hne
    rw [hmutex, field_update RtMutex.owner hx] at hne
    exact absurd hu hne
  cases heffect with
  | nested _ hlooks => exact hstays hlooks.mutex rfl
  | @granted t m time _ howner hvalue hlooks =>
    intro m' u hu hne
    by_cases hm : m' = m
    · subst hm
      rw [(h.shaped m').owner_none hvalue] at hu
      cases hu
    · rw [hlooks.mutex, Function.update_of_ne hm] at hne
      exact absurd hu hne
  | refused _ hlooks =>
    intro m' u hu hne
    rw [hlooks.mutex] at hne
    exact absurd hu hne
  | waits _ _ _ hlooks => exact hstays hlooks.mutex rfl
  | foreign _ hlooks =>
    intro m' u hu hne
    rw [hlooks.mutex] at hne
    exact absurd hu hne
  | unnested _ _ hlooks => exact hstays hlooks.mutex rfl
  | handed _ howner hhold hlist hlooks =>
    exact handsOver_release hc howner hhold (by rw [hlist]; rfl) hlooks.mutex
  | freed howner hhold hlist hlooks =>
    exact handsOver_release hc howner hhold (by rw [hlist]; rfl) hlooks.mutex
  | expired _ hlooks => exact hstays hlooks.mutex rfl

end MutexSystem

/-- The invariant holds at the start. -/
theorem mutexInv_init {ι : Type} [DecidableEq ι] (flag : ι → IpcFlag) (base : Nat → Nat) :
    MutexInv (mutexMachine flag base).init where
  shaped m := ⟨fun _ => ⟨rfl, rfl⟩, fun hne => absurd rfl hne, fun o ho => (by cases ho),
    List.nodup_nil⟩
  listed m t := ⟨fun hmem => absurd hmem List.not_mem_nil, fun hwait => (by cases hwait)⟩

theorem mutexInv_reach {ι : Type} [DecidableEq ι] {flag : ι → IpcFlag} {base : Nat → Nat}
    {ok : MutexSystem ι → MutexAction ι → Prop} {s : MutexSystem ι}
    (h : (mutexMachine flag base).Reach ok s) : MutexInv s :=
  h.invariant (mutexInv_init flag base) fun _ _ _ hs _ hstep =>
    MutexSystem.inv_step hs (mutex_effect hstep)

/-- The depth is counted where takes do not nest too deep. -/
theorem counted_reach {ι : Type} [DecidableEq ι] {flag : ι → IpcFlag} {base : Nat → Nat}
    {s : MutexSystem ι} (h : (mutexMachine flag base).Reach NestsWithin s) (m : ι) :
    Counted (s.mutex m) (s.depth m) := by
  induction h generalizing m with
  | init => exact ⟨fun _ => ⟨rfl, fun _ => rfl⟩, fun o ho => (by cases ho)⟩
  | step hreach hok hstep ih =>
    exact MutexSystem.counted_step (mutexInv_reach hreach) ih hok (mutex_effect hstep) m

/-- **Ownership.** In every run whose nesting the 8-bit counter can count, each mutex agrees
with the takes outstanding on it, and ownership leaves a thread only with its outermost
release, to the first waiter. -/
theorem rtMutex_owned {ι : Type} [DecidableEq ι] (flag : ι → IpcFlag) (base : Nat → Nat)
    (s : MutexSystem ι) (h : (mutexMachine flag base).Reach NestsWithin s) :
    (∀ m, Owned (s.mutex m) (s.depth m)) ∧
      ∀ a s', (mutexMachine flag base).step s a = some s' → HandsOver s a s' := by
  have hinv := mutexInv_reach h
  have hcount := counted_reach h
  exact ⟨fun m => (hcount m).owned (hinv.shaped m),
    fun a s' hstep => MutexSystem.handsOver hinv hcount (mutex_effect hstep)⟩

/-- Two threads and one mutex: the second waits, and owns the mutex as soon as the first has
released it. -/
theorem rtMutex_owned_handover :
    ∃ s, (mutexMachine (fun _ : Unit => .prio) fun _ => 10).Reach NestsWithin s ∧
      (s.mutex ()).owner = some 1 ∧ ∀ m, Owned (s.mutex m) (s.depth m) := by
  obtain ⟨s, hreach, howner⟩ := Machine.exists_reach_of_run
    (mutexMachine (fun _ : Unit => .prio) fun _ => 10) NestsWithin
    [.take 0 () (-1), .take 1 () 5, .release 0 ()] (fun s => (s.mutex ()).owner = some 1)
    (by decide)
  exact ⟨s, hreach, howner, (rtMutex_owned _ _ s hreach).1⟩

/-- A thread that takes one mutex again and again. -/
theorem nested_takes (n : Nat) :
    ∃ s, (mutexMachine (fun _ : Unit => .prio) fun _ => 10).Reach Machine.any s ∧
      s.suspendedOn 0 = none ∧ (s.mutex ()).owner = some 0 ∧
      (s.mutex ()).hold = (n + 1) % rtMutexHoldMod ∧ s.depth () 0 = n + 1 := by
  induction n with
  | zero =>
    refine ⟨_, .step (a := .take 0 () 0) .init trivial rfl, rfl, rfl, rfl, rfl⟩
  | succ n ih =>
    obtain ⟨s, hreach, hrun, howner, hhold, hdepth⟩ := ih
    have hstep : (mutexMachine (fun _ : Unit => .prio) fun _ => 10).step s (.take 0 () 0) =
        some (s.take 0 () 0) := if_pos hrun
    refine ⟨s.take 0 () 0, .step hreach trivial hstep, ?_⟩
    cases MutexSystem.effect_take hrun () 0 with
    | nested _ hlooks =>
      rw [hlooks.suspendedOn, hlooks.mutex, hlooks.depth]
      simp only [Function.update_self, hrun, howner, hhold, hdepth, true_and, and_true]
      exact Nat.mod_add_mod (n + 1) rtMutexHoldMod 1
    | granted hother => exact absurd howner hother
    | refused hother => exact absurd howner hother
    | waits _ hother => exact absurd howner hother

/-- At the 256th nested take `hold` is 0 while its owner has 256 takes outstanding. -/
theorem rtMutex_hold_wraps :
    ¬ ∀ (flag : Unit → IpcFlag) base s, (mutexMachine flag base).Reach Machine.any s →
      ∀ m, Owned (s.mutex m) (s.depth m) := by
  intro hall
  obtain ⟨s, hreach, _, howner, hhold, hdepth⟩ := nested_takes 255
  have hcount := (hall _ _ s hreach ()).hold_owner 0 howner
  rw [hhold, hdepth] at hcount
  cases hcount

end RtVcom.Kernel
