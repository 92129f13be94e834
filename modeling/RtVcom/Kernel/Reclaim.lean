import Mathlib.Logic.Function.Iterate
import RtVcom.Kernel.Scheduler

/-!
# The reclamation of threads

How threads come and go: `rt_thread_init` and `rt_thread_create`, `rt_thread_exit`,
`rt_thread_detach` and `rt_thread_delete` of `src/thread.c`, the objects of `src/object.c` behind
them, and `rt_thread_idle_excute` of `src/idle.c`, which runs the cleanup hooks of the defunct
threads and gives their memory back.

The idle thread tells a thread on the heap from a static one by the type of its object, which
`rt_object_detach` resets. So a static thread that is queued after it was detached is given back to
a heap that it does not come from. The runs without such a thread free what was allocated.

A started thread is `ready`: whether it is suspended makes no difference to any function here, and
of the lists it can be in only the one of the defunct threads is kept.
-/

namespace RtVcom.Kernel

open RtVcom.Lib

/-! ## Objects -/

/-- `RT_Object_Class_Null`, `RT_Object_Class_Thread` and `RT_Object_Class_Static`. -/
def rtObjectClassNull : BitVec 8 := 0
def rtObjectClassThread : BitVec 8 := 1
def rtObjectClassStatic : BitVec 8 := 0x80

/-- `struct rt_thread`, as far as its end depends on it: the type of the object, and whether there
is a cleanup hook. -/
structure ThreadObject where
  type : BitVec 8
  stat : ThreadStat
  cleanup : Bool
deriving Repr, DecidableEq

/-- `rt_object_is_systemobject`. -/
def ThreadObject.rtObjectIsSystemobject (thread : ThreadObject) : Bool :=
  decide (thread.type &&& rtObjectClassStatic ≠ 0)

/-- `rt_object_detach`, and `rt_object_delete` before it frees the object. -/
def ThreadObject.rtObjectDetach (thread : ThreadObject) : ThreadObject :=
  { thread with type := rtObjectClassNull }

/-- The memory of a thread. -/
inductive ThreadMemory
  | object (thread : Nat)
  | stack (thread : Nat)
deriving Repr, DecidableEq

def ThreadMemory.thread : ThreadMemory → Nat
  | .object t => t
  | .stack t => t

/-! ## Threads -/

/-- The threads, by the order they came in; the one that runs, if it is not the idle thread; the
defunct ones; and the one whose memory the idle thread is about to free. The rest is what happened:
what `rt_thread_create` obtained, what was freed, and whose cleanup hooks ran. -/
structure Threads where
  thread : Nat → ThreadObject
  count : Nat
  current : Option Nat
  defunct : List Nat
  inHand : Option Nat
  allocated : List ThreadMemory
  freed : List ThreadMemory
  cleaned : List Nat

namespace Threads

def setThread (s : Threads) (t : Nat) (thread : ThreadObject) : Threads :=
  { s with thread := Function.update s.thread t thread }

/-- `_rt_thread_init` of a new thread. -/
def add (s : Threads) (type : BitVec 8) : Threads :=
  { s.setThread s.count ⟨type, .init, false⟩ with count := s.count + 1 }

/-- `rt_thread_init`. -/
def rtThreadInit (s : Threads) : Threads := s.add (rtObjectClassThread ||| rtObjectClassStatic)

/-- `rt_thread_create`, by whether there is memory for the object and for the stack. -/
def rtThreadCreate (s : Threads) (objectRoom stackRoom : Bool) : Threads :=
  if !objectRoom then s
  else if !stackRoom then
    { s.setThread s.count ⟨rtObjectClassNull, .close, false⟩ with
        count := s.count + 1
        allocated := s.allocated ++ [.object s.count]
        freed := s.freed ++ [.object s.count] }
  else
    { s.add rtObjectClassThread with
        allocated := s.allocated ++ [.object s.count, .stack s.count] }

/-- `rt_thread_startup`. -/
def rtThreadStartup (s : Threads) (t : Nat) : Threads :=
  s.setThread t { s.thread t with stat := .ready }

/-- `rt_schedule_remove_thread`: the thread leaves the list it is in. -/
def rtScheduleRemoveThread (s : Threads) (t : Nat) : Threads :=
  { s with defunct := s.defunct.erase t }

/-- `rt_list_insert_after(&rt_thread_defunct, &(thread->tlist))`. -/
def insertDefunct (s : Threads) (t : Nat) : Threads := { s with defunct := t :: s.defunct }

/-- `thread->stat = RT_THREAD_CLOSE`. -/
def close (s : Threads) (t : Nat) : Threads := s.setThread t { s.thread t with stat := .close }

/-- `rt_object_detach`. -/
def detachObject (s : Threads) (t : Nat) : Threads :=
  s.setThread t (s.thread t).rtObjectDetach

/-- `rt_thread_exit` of the thread that runs. -/
def rtThreadExit (s : Threads) (t : Nat) : Threads :=
  let s := (s.rtScheduleRemoveThread t).close t
  if (s.thread t).rtObjectIsSystemobject ∧ !(s.thread t).cleanup then s.detachObject t
  else s.insertDefunct t

/-- `rt_thread_detach`. -/
def rtThreadDetach (s : Threads) (t : Nat) : Threads :=
  let s := if (s.thread t).stat ≠ .init then s.rtScheduleRemoveThread t else s
  let s := (s.close t).detachObject t
  if (s.thread t).cleanup then s.insertDefunct t else s

/-- `rt_thread_delete`. -/
def rtThreadDelete (s : Threads) (t : Nat) : Threads :=
  let s := if (s.thread t).stat ≠ .init then s.rtScheduleRemoveThread t else s
  (s.close t).insertDefunct t

/-! ## The idle thread -/

/-- One turn of the loop of `rt_thread_idle_excute`, up to the end of its critical section: where
the thread is no system object the loop goes on to free its memory. -/
def idleTake (s : Threads) : Threads :=
  match s.defunct with
  | [] => s
  | t :: rest =>
    let s := { s with
      defunct := rest
      cleaned := if (s.thread t).cleanup then s.cleaned ++ [t] else s.cleaned }
    if (s.thread t).rtObjectIsSystemobject then s else { s with inHand := some t }

/-- The rest of the turn: `RT_KERNEL_FREE(thread->stack_addr)` and `rt_object_delete`. -/
def idleRelease (s : Threads) (t : Nat) : Threads :=
  { s.detachObject t with
      inHand := none
      freed := s.freed ++ [.stack t, .object t] }

/-- The loop of `rt_thread_idle_excute`, for so many turns at most. -/
def idleLoop : Nat → Threads → Threads
  | 0, s => s
  | fuel + 1, s =>
    match s.idleTake.inHand with
    | some t => idleLoop fuel (s.idleTake.idleRelease t)
    | none => s.idleTake

/-- `rt_thread_idle_excute` without an interruption: the call that was interrupted, or a new one. -/
def rtThreadIdleExcute (s : Threads) : Threads :=
  match s.inHand with
  | some t => idleLoop s.defunct.length (s.idleRelease t)
  | none => idleLoop s.defunct.length s

end Threads

/-! ## The machine -/

/-- The calls, the choice of the thread that runs (none for the idle thread), and the two halves of
a turn of the idle thread. -/
inductive ThreadCall
  | init
  | create (objectRoom stackRoom : Bool)
  | setCleanup (t : Nat)
  | startup (t : Nat)
  | switch (next : Option Nat)
  | exit
  | detach (t : Nat)
  | delete (t : Nat)
  | take
  | release
deriving Repr, DecidableEq

/-- A thread of the heap is deleted as long as its memory is there. A static one may be detached at
any time. -/
def threadStep (s : Threads) : ThreadCall → Option Threads
  | .init => some s.rtThreadInit
  | .create objectRoom stackRoom => some (s.rtThreadCreate objectRoom stackRoom)
  | .setCleanup t =>
    if t < s.count ∧ (s.thread t).stat ≠ .close then
      some (s.setThread t { s.thread t with cleanup := true })
    else none
  | .startup t =>
    if t < s.count ∧ (s.thread t).stat = .init then some (s.rtThreadStartup t) else none
  | .switch none => some { s with current := none }
  | .switch (some t) =>
    if t < s.count ∧ (s.thread t).stat = .ready then some { s with current := some t } else none
  | .exit => s.current.map fun t => { s.rtThreadExit t with current := none }
  | .detach t =>
    if t < s.count ∧ .object t ∉ s.allocated then some (s.rtThreadDetach t) else none
  | .delete t =>
    if .object t ∈ s.allocated ∧ ((s.thread t).stat ≠ .close ∨ t ∈ s.defunct) then
      some (s.rtThreadDelete t)
    else none
  | .take => if s.current = none ∧ s.inHand = none then some s.idleTake else none
  | .release => if s.current = none then s.inHand.map s.idleRelease else none

/-- No thread yet. -/
def threadMachine : Machine Threads ThreadCall where
  init :=
    { thread := fun _ => ⟨rtObjectClassNull, .init, false⟩
      count := 0
      current := none
      defunct := []
      inHand := none
      allocated := []
      freed := []
      cleaned := [] }
  step := threadStep

/-! ## The law -/

namespace Threads

/-- The memory of the thread is in use: it has not ended, or the idle thread has yet to free it. -/
def Pending (s : Threads) (t : Nat) : Prop :=
  (s.thread t).stat ≠ .close ∨ t ∈ s.defunct ∨ s.inHand = some t

/-- The cleanup hook of the thread is due, or has run. -/
def Hooked (s : Threads) (t : Nat) : Prop :=
  (s.thread t).cleanup = true ∧ (s.thread t).stat = .close ∧ t ∉ s.defunct

instance (s : Threads) (t : Nat) : Decidable (s.Hooked t) :=
  inferInstanceAs (Decidable (_ ∧ _ ∧ _))

/-- What is to hold of the reclamation: freed is what `rt_thread_create` obtained for threads that
ended, once each, and nothing else; the hook of a thread runs once, when it has left the list of the
defunct threads; and as many calls of `rt_thread_idle_excute` as there are defunct threads empty
their list. -/
structure Reclaimed (s : Threads) : Prop where
  freed : ∀ m, m ∈ s.freed ↔ m ∈ s.allocated ∧ ¬s.Pending m.thread
  once : s.freed.Nodup
  cleaned : ∀ t, s.cleaned.count t = if s.Hooked t then 1 else 0
  drained : ∀ n, s.defunct.length ≤ n → (rtThreadIdleExcute^[n] s).defunct = []

/-- No thread with a cleanup hook is detached, and none returns after it was detached. -/
def InOrder (s : Threads) : ThreadCall → Prop
  | .detach t => (s.thread t).cleanup = false
  | .exit => ∀ t, s.current = some t → (s.thread t).type ≠ rtObjectClassNull
  | .init => True
  | .create _ _ => True
  | .setCleanup _ => True
  | .startup _ => True
  | .switch _ => True
  | .delete _ => True
  | .take => True
  | .release => True

instance : DecidableRel InOrder := fun s call =>
  match call with
  | .detach t => inferInstanceAs (Decidable ((s.thread t).cleanup = false))
  | .exit =>
    match h : s.current with
    | none => isTrue fun t ht => by rw [h] at ht; cases ht
    | some u =>
      if hnull : (s.thread u).type = rtObjectClassNull then
        isFalse fun hall => hall u h hnull
      else isTrue fun t ht => by rw [h] at ht; cases ht; exact hnull
  | .init => isTrue trivial
  | .create _ _ => isTrue trivial
  | .setCleanup _ => isTrue trivial
  | .startup _ => isTrue trivial
  | .switch _ => isTrue trivial
  | .delete _ => isTrue trivial
  | .take => isTrue trivial
  | .release => isTrue trivial

/-! ## Whole calls of `rt_thread_idle_excute` -/

/-- The first of the defunct threads is taken. -/
theorem defunct_idleTake (s : Threads) : s.idleTake.defunct = s.defunct.tail := by
  unfold Threads.idleTake
  split
  · next hnil => rw [hnil, List.tail_nil]
  · next u rest hcons =>
    dsimp only
    split <;> rw [hcons, List.tail_cons]

/-- A loop with enough turns ends with the list empty or shorter. -/
theorem length_idleLoop (fuel : Nat) (s : Threads) (hfuel : s.defunct.length ≤ fuel) :
    (idleLoop fuel s).defunct.length ≤ s.defunct.length - 1 := by
  induction fuel generalizing s with
  | zero => exact Nat.le_of_eq (by rw [idleLoop, Nat.le_zero.mp hfuel])
  | succ fuel ih =>
    have hlength : s.idleTake.defunct.length = s.defunct.length - 1 := by
      rw [defunct_idleTake, List.length_tail]
    rw [idleLoop]
    split
    · next u _ =>
      refine (ih (s.idleTake.idleRelease u) (hlength.le.trans (by omega))).trans ?_
      exact (Nat.sub_le _ _).trans hlength.le
    · exact hlength.le

/-- Every pass of the idle thread leaves one less. -/
theorem length_idleExcute (s : Threads) :
    s.rtThreadIdleExcute.defunct.length ≤ s.defunct.length - 1 := by
  unfold rtThreadIdleExcute
  split
  · exact length_idleLoop _ _ (Nat.le_refl _)
  · exact length_idleLoop _ _ (Nat.le_refl _)

/-- So many calls empty the list. -/
theorem drained (n : Nat) (s : Threads) (hn : s.defunct.length ≤ n) :
    (rtThreadIdleExcute^[n] s).defunct = [] := by
  induction n generalizing s with
  | zero => exact List.length_eq_zero_iff.mp (Nat.le_zero.mp hn)
  | succ n ih =>
    rw [Function.iterate_succ_apply]
    exact ih _ ((length_idleExcute s).trans (by omega))

end Threads

end RtVcom.Kernel
