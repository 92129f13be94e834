import RtVcom.Lib.Machine
import RtVcom.Kernel.Ipc

/-!
# Token conservation of a semaphore

One semaphore and any number of threads and interrupts that use it. A take that cannot be
served puts its thread into the suspend list, a release hands its token to the first of them
or counts it, and a thread timer takes a waiter out again. A thread that was resumed holds
its answer until it runs, so a token is at any time in one of three places: counted in
`value`, promised to a resumed thread, or taken.

`Conserved` says that the three add up to the initial value and the releases. It is an
invariant of every run in which the 16-bit counter does not wrap (`rtSem_conserves`): no
release meets the value 65535 with nobody waiting, and the initial value is one the field
can hold. `rtSem_loses_tokens` is the run of one release that breaks it.
-/

namespace RtVcom.Kernel

open RtVcom.Lib

/-! ## The system -/

/-- A semaphore and what the threads on it wait for: whose thread timer runs, who was
resumed and has not run since, the takes that returned `RT_EOK`, and the releases. -/
structure SemSystem where
  sem : RtSem
  timers : List RtThread
  resumed : List (RtThread × Wakeup)
  taken : Nat
  released : Nat
deriving Repr, DecidableEq

/-- The critical sections of the callers, the expiry of a thread timer, and a resumed thread
that runs again and returns from its take. -/
inductive SemAction
  | take (thread : RtThread) (time : Int)
  | release
  | timeout (thread : RtThread)
  | run (thread : RtThread) (wakeup : Wakeup)
deriving Repr, DecidableEq

namespace SemSystem

/-- A thread inside `rt_sem_take` makes no further call. -/
def Busy (s : SemSystem) (thread : RtThread) : Prop :=
  thread ∈ s.sem.suspendThread ∨ thread ∈ s.resumed.map Prod.fst

instance (s : SemSystem) (thread : RtThread) : Decidable (s.Busy thread) :=
  inferInstanceAs (Decidable (_ ∨ _))

/-- A take that returned `err`. -/
def returned (s : SemSystem) (err : Int) : SemSystem :=
  if err = rtEok then { s with taken := s.taken + 1 } else s

/-- `rt_sem_take`; a positive waiting time starts the thread timer. -/
def take (s : SemSystem) (thread : RtThread) (time : Int) : SemSystem :=
  match rtSemTake s.sem thread time with
  | (sem, .returns err) => { s with sem }.returned err
  | (sem, .suspends) =>
    { s with sem, timers := if 0 < time then thread :: s.timers else s.timers }

/-- `rt_sem_release`; `rt_thread_resume` stops the timer of the thread it resumes. -/
def release (s : SemSystem) : SemSystem :=
  match rtSemRelease s.sem with
  | (sem, some thread) =>
    { s with
        sem
        timers := s.timers.erase thread
        resumed := s.resumed ++ [(thread, .token)]
        released := s.released + 1 }
  | (sem, none) => { s with sem, released := s.released + 1 }

/-- `rt_thread_timeout`. -/
def timeout (s : SemSystem) (thread : RtThread) : SemSystem :=
  { s with
      sem := rtSemTimeout s.sem thread
      timers := s.timers.erase thread
      resumed := s.resumed ++ [(thread, .timeout)] }

/-- A resumed thread runs: its take returns `thread->error`. -/
def run (s : SemSystem) (thread : RtThread) (wakeup : Wakeup) : SemSystem :=
  { s with resumed := s.resumed.erase (thread, wakeup) }.returned wakeup.error

/-- The tokens on their way to a resumed thread. -/
def promised (s : SemSystem) : Nat := s.resumed.countP fun r => r.2 == .token

/-- No resumed thread is still to run. -/
def Quiescent (s : SemSystem) : Prop := s.resumed = []

end SemSystem

/-- The semaphore after `rt_sem_init`, and every interleaving of its users. -/
def semMachine (value : Nat) (flag : IpcFlag) : Machine SemSystem SemAction where
  init := { sem := rtSemInit value flag, timers := [], resumed := [], taken := 0, released := 0 }
  step s
    | .take thread time => if s.Busy thread then none else some (s.take thread time)
    | .release => some s.release
    | .timeout thread =>
      if thread ∈ s.sem.suspendThread ∧ thread ∈ s.timers then some (s.timeout thread) else none
    | .run thread wakeup =>
      if (thread, wakeup) ∈ s.resumed then some (s.run thread wakeup) else none

/-- The counter has room for the token of a release that finds nobody waiting. -/
def CountsRelease (s : SemSystem) : SemAction → Prop
  | .release => s.sem.suspendThread = [] → s.sem.value + 1 < rtSemValueMod
  | _ => True

instance : DecidableRel CountsRelease := fun s a => by
  cases a <;> unfold CountsRelease <;> infer_instance

/-! ## The law -/

/-- Every token of the initial value and of the releases is counted, promised or taken, and
a thread waits only where none is counted. -/
structure Conserved (initial : Nat) (s : SemSystem) : Prop where
  tokens : s.taken + s.promised + s.sem.value = initial + s.released
  waiting : s.sem.suspendThread ≠ [] → s.sem.value = 0

/-- What the law says of a semaphore that was made with `initial` tokens. -/
structure TokensKept (initial : Nat) (s : SemSystem) : Prop where
  bounded : s.taken ≤ initial + s.released
  quiescent : s.Quiescent → s.sem.value = initial + s.released - s.taken
  waiting : s.sem.suspendThread ≠ [] → s.sem.value = 0
  lossless : s.taken + s.promised + s.sem.value = initial + s.released

namespace SemSystem

variable {initial : Nat} {s : SemSystem}

/-- The tokens promised, with one more thread resumed. -/
@[simp] theorem promised_append (s : SemSystem) (r : RtThread × Wakeup) :
    (s.resumed ++ [r]).countP (fun r => r.2 == .token) =
      s.promised + if r.2 == .token then 1 else 0 := by
  rw [List.countP_append, List.countP_singleton, promised]

/-- A resumed thread that leaves the list takes its promise with it. -/
theorem promised_erase {thread : RtThread} {wakeup : Wakeup} (h : (thread, wakeup) ∈ s.resumed) :
    (s.resumed.erase (thread, wakeup)).countP (fun r => r.2 == .token) +
      (if wakeup == .token then 1 else 0) = s.promised := by
  rw [promised, (List.perm_cons_erase h).countP_eq, List.countP_cons]

/-- A take is served from the counter, answered with a timeout, or becomes the wait of a
thread while nothing is counted. -/
theorem take_cases (s : SemSystem) (thread : RtThread) (time : Int) :
    (0 < s.sem.value ∧
        s.take thread time =
          { s with sem := { s.sem with value := s.sem.value - 1 }, taken := s.taken + 1 }) ∨
      (s.sem.value = 0 ∧ s.take thread time = s) ∨
      (s.sem.value = 0 ∧ ∃ list timers,
        s.take thread time =
          { s with sem := { s.sem with suspendThread := list }, timers := timers }) := by
  unfold take rtSemTake
  by_cases hv : 0 < s.sem.value
  · left
    refine ⟨hv, ?_⟩
    simp only [if_pos hv, returned]
    rfl
  · right
    have hv0 : s.sem.value = 0 := by omega
    by_cases ht : time = 0
    · left
      refine ⟨hv0, ?_⟩
      simp only [if_neg hv, if_pos ht, returned]
      rfl
    · right
      refine ⟨hv0, rtIpcListSuspend s.sem.suspendThread thread s.sem.flag,
        if 0 < time then thread :: s.timers else s.timers, ?_⟩
      simp only [if_neg hv, if_neg ht]

/-- A token of a release is promised to the first waiter, or counted. -/
theorem release_cases (s : SemSystem) :
    (∃ thread rest, s.sem.suspendThread = thread :: rest ∧
        s.release =
          { s with
              sem := { s.sem with suspendThread := rest }
              timers := s.timers.erase thread
              resumed := s.resumed ++ [(thread, .token)]
              released := s.released + 1 }) ∨
      (s.sem.suspendThread = [] ∧
        s.release =
          { s with
              sem := { s.sem with value := (s.sem.value + 1) % rtSemValueMod }
              released := s.released + 1 }) := by
  cases h : s.sem.suspendThread with
  | nil =>
    right
    simp only [release, rtSemRelease, h, and_self]
  | cons thread rest =>
    left
    refine ⟨thread, rest, rfl, ?_⟩
    simp only [release, rtSemRelease, h]

/-- `rt_sem_take` keeps the tokens. -/
theorem conserved_take (h : Conserved initial s) (thread : RtThread) (time : Int) :
    Conserved initial (s.take thread time) := by
  have htok := h.tokens
  rcases s.take_cases thread time with ⟨hv, heq⟩ | ⟨hv, heq⟩ | ⟨hv, list, timers, heq⟩
  · rw [heq]
    constructor
    · change s.taken + 1 + s.promised + (s.sem.value - 1) = initial + s.released
      omega
    · intro hw
      have hzero : s.sem.value = 0 := h.waiting hw
      omega
  · rw [heq]
    exact h
  · rw [heq]
    exact ⟨htok, fun _ => hv⟩

/-- `rt_sem_release` keeps the ledger where the value does not wrap. -/
theorem conserved_release (h : Conserved initial s) (hok : CountsRelease s .release) :
    Conserved initial s.release := by
  have htok := h.tokens
  rcases s.release_cases with ⟨thread, rest, hlist, heq⟩ | ⟨hlist, heq⟩
  · rw [heq]
    constructor
    · have hp : promised { s with resumed := s.resumed ++ [(thread, Wakeup.token)] } =
          s.promised + 1 := promised_append s (thread, .token)
      change s.taken + promised { s with resumed := s.resumed ++ [(thread, Wakeup.token)] } +
        s.sem.value = initial + (s.released + 1)
      omega
    · intro _
      apply h.waiting
      rw [hlist]
      exact List.cons_ne_nil _ _
  · have hroom : (s.sem.value + 1) % rtSemValueMod = s.sem.value + 1 :=
      Nat.mod_eq_of_lt (hok hlist)
    rw [heq]
    constructor
    · change s.taken + s.promised + (s.sem.value + 1) % rtSemValueMod =
        initial + (s.released + 1)
      omega
    · intro hw
      exact absurd hlist hw

theorem conserved_timeout (h : Conserved initial s) {thread : RtThread}
    (hmem : thread ∈ s.sem.suspendThread) : Conserved initial (s.timeout thread) := by
  have htok := h.tokens
  constructor
  · have hp : (s.timeout thread).promised = s.promised := promised_append s (thread, .timeout)
    rw [hp]
    exact htok
  · intro _
    exact h.waiting (List.ne_nil_of_mem hmem)

theorem conserved_run (h : Conserved initial s) {thread : RtThread} {wakeup : Wakeup}
    (hmem : (thread, wakeup) ∈ s.resumed) : Conserved initial (s.run thread wakeup) := by
  have htok := h.tokens
  have hp := promised_erase hmem
  cases wakeup with
  | token =>
    constructor
    · change s.taken + 1 + (s.resumed.erase (thread, .token)).countP (fun r => r.2 == .token) +
        s.sem.value = initial + s.released
      simp only [BEq.rfl, if_true] at hp
      omega
    · exact h.waiting
  | timeout =>
    constructor
    · change s.taken + (s.resumed.erase (thread, .timeout)).countP (fun r => r.2 == .token) +
        s.sem.value = initial + s.released
      have : (Wakeup.timeout == Wakeup.token) = false := rfl
      simp only [this, Bool.false_eq_true, if_false] at hp
      omega
    · exact h.waiting

end SemSystem

/-- Every step that does not wrap the counter keeps the law. -/
theorem conserved_step {initial value : Nat} {flag : IpcFlag} {s t : SemSystem} {a : SemAction}
    (h : Conserved initial s) (hok : CountsRelease s a)
    (hstep : (semMachine value flag).step s a = some t) : Conserved initial t := by
  cases a with
  | take thread time =>
    simp only [semMachine] at hstep
    split at hstep
    · cases hstep
    · cases hstep
      exact SemSystem.conserved_take h thread time
  | release =>
    cases hstep
    exact SemSystem.conserved_release h hok
  | timeout thread =>
    simp only [semMachine] at hstep
    split at hstep
    · next hmem =>
      cases hstep
      exact SemSystem.conserved_timeout h hmem.1
    · cases hstep
  | run thread wakeup =>
    simp only [semMachine] at hstep
    split at hstep
    · next hmem =>
      cases hstep
      exact SemSystem.conserved_run h hmem
    · cases hstep

/-- The invariant says what the law does. -/
theorem Conserved.kept {initial : Nat} {s : SemSystem} (h : Conserved initial s) :
    TokensKept initial s := by
  have htok := h.tokens
  refine ⟨by omega, ?_, h.waiting, htok⟩
  intro hq
  have hp : s.promised = 0 := by
    rw [SemSystem.promised, hq]
    rfl
  omega

/-- **Token conservation.** In every run that starts with a value the counter can hold and
never wraps it, tokens are neither made nor lost, and threads wait only for want of one. -/
theorem rtSem_conserves (value : Nat) (flag : IpcFlag) (hvalue : value < rtSemValueMod)
    (s : SemSystem) (h : (semMachine value flag).Reach CountsRelease s) : TokensKept value s := by
  apply Conserved.kept
  refine h.invariant ?_ fun s a t hs hok hstep => conserved_step hs hok hstep
  constructor
  · change 0 + 0 + value % rtSemValueMod = value + 0
    rw [Nat.mod_eq_of_lt hvalue]
    omega
  · intro hw
    exact absurd rfl hw

/-- The first thread of a run that takes, waits, is released and runs again. -/
def waiter : RtThread := { id := 1, currentPriority := 10 }

/-- A take that waits for the release after it, and returns. -/
theorem rtSem_conserves_handover :
    ∃ s, (semMachine 0 .fifo).Reach CountsRelease s ∧
      (s.taken = 1 ∧ s.released = 1 ∧ s.Quiescent) ∧ TokensKept 0 s := by
  have hrun : (semMachine 0 .fifo).runFrom CountsRelease (semMachine 0 .fifo).init
      [.take waiter (-1), .release, .run waiter .token] =
      some
        { sem := rtSemInit 0 .fifo
          timers := []
          resumed := []
          taken := 1
          released := 1 } := by
    decide
  have hreach := Machine.reach_of_run hrun
  exact ⟨_, hreach, ⟨rfl, rfl, rfl⟩, rtSem_conserves 0 .fifo (by decide) _ hreach⟩

/-- One release on a semaphore made with 65535 tokens: the counter is 0 afterwards, and
65536 tokens are gone. -/
theorem rtSem_loses_tokens :
    ¬ ∀ value, ∀ flag, ∀ s, (semMachine value flag).Reach Machine.any s → TokensKept value s := by
  intro hall
  obtain ⟨s, hreach, hs⟩ := Machine.exists_reach_of_run (semMachine 0xffff .fifo) Machine.any
    [.release] (fun s => s.sem.value = 0 ∧ s.released = 1 ∧ s.resumed = [] ∧ s.taken = 0)
    (by decide)
  have hkept := (hall _ _ s hreach).quiescent hs.2.2.1
  rw [hs.1, hs.2.1, hs.2.2.2] at hkept
  cases hkept

end RtVcom.Kernel
