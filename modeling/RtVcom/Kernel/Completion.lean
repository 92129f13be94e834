import RtVcom.Lib.Machine
import RtVcom.Kernel.Ipc

/-!
# Completions

`components/drivers/src/completion.c` with one waiter, any number of threads and interrupts that
call `rt_completion_done`, and the timer of the waiter. A step is one critical section, or the test
that `rt_completion_done` makes in front of its own.

What a completion is for is said on the log of what happened to it: `pending` is whether there was
a done since the last wait that succeeded. The waiter cleans the flag whatever woke it, so that a
done between the end of its waiting time and its running again leaves no trace. In the runs without
such a done the flag is `pending`.
-/

namespace RtVcom.Kernel

open RtVcom.Lib

/-! ## What a completion is for -/

/-- What happens to a completion: `rt_completion_init`, `rt_completion_done`, and a return of
`rt_completion_wait`. -/
inductive CompletionEvent
  | init
  | done
  | returned (err : Int)
deriving Repr, DecidableEq

/-- One more event. -/
def CompletionEvent.note (pending : Bool) : CompletionEvent → Bool
  | .init => false
  | .done => true
  | .returned err => if err = rtEok then false else pending

/-- Whether there was a done since the last wait that succeeded, or the last initialisation. -/
def pending (log : List CompletionEvent) : Bool := log.foldl CompletionEvent.note false

@[simp] theorem pending_append (log : List CompletionEvent) (event : CompletionEvent) :
    pending (log ++ [event]) = event.note (pending log) := by
  rw [pending, List.foldl_append]
  rfl

/-! ## The machine -/

/-- The critical section of `rt_completion_done`. -/
def rtCompletionSignal (c : RtCompletion) : RtCompletion × Option RtThread :=
  match c.suspendedList with
  | thread :: rest => ({ flag := true, suspendedList := rest }, some thread)
  | [] => ({ c with flag := true }, none)

/-- Without an interleaving `rt_completion_done` is its test and its critical section. -/
theorem rtCompletionDone_eq (c : RtCompletion) :
    rtCompletionDone c = if c.flag then (c, none) else rtCompletionSignal c := rfl

/-- Where the waiter is: outside of `rt_completion_wait`, suspended in it with its timer started or
not, or ready to run its second critical section. -/
inductive CompletionWaiter
  | running
  | suspended (timed : Bool)
  | ready
deriving Repr, DecidableEq

/-- A completion, its waiter with its `thread->error`, the calls of `rt_completion_done` between
their test and their critical section, and the log. -/
structure CompletionSystem where
  completion : RtCompletion
  waiter : CompletionWaiter
  error : Int
  entering : Nat
  log : List CompletionEvent
deriving Repr, DecidableEq

/-- The steps, in any order. -/
inductive CompletionCall
  | wait (timeout : Int)
  | timeout
  | run
  | done
  | enter
  | init
deriving Repr, DecidableEq

def completionStep (thread : RtThread) (s : CompletionSystem) :
    CompletionCall → Option CompletionSystem
  | .wait timeout =>
    if s.waiter = .running then
      match rtCompletionWait s.completion thread timeout with
      | (completion, .returns err) =>
        some { s with completion, log := s.log ++ [.returned err] }
      | (completion, .suspends) =>
        some { s with completion, waiter := .suspended (decide (0 < timeout)), error := rtEok }
    else none
  | .timeout =>
    if s.waiter = .suspended true then
      some { s with
        completion := rtCompletionTimeout s.completion thread
        waiter := .ready
        error := -rtEtimeout }
    else none
  | .run =>
    if s.waiter = .ready then
      some { s with
        completion := rtCompletionResume s.completion
        waiter := .running
        log := s.log ++ [.returned s.error] }
    else none
  | .done =>
    if s.completion.flag then some { s with log := s.log ++ [.done] }
    else some { s with entering := s.entering + 1 }
  | .enter =>
    if 0 < s.entering then
      match rtCompletionSignal s.completion with
      | (completion, resumed) =>
        some { s with
          completion
          waiter := if resumed.isSome then .ready else s.waiter
          entering := s.entering - 1
          log := s.log ++ [.done] }
    else none
  | .init => some { s with completion := rtCompletionInit, log := s.log ++ [.init] }

/-- A completion behind `rt_completion_init`. -/
def completionMachine (thread : RtThread) : Machine CompletionSystem CompletionCall where
  init := ⟨rtCompletionInit, .running, rtEok, 0, []⟩
  step := completionStep thread

/-- What one step does. -/
inductive CompletionEffect (thread : RtThread) (s : CompletionSystem) :
    CompletionCall → CompletionSystem → Prop
  | found {timeout} (hwaiter : s.waiter = .running) (hflag : s.completion.flag = true) :
      CompletionEffect thread s (.wait timeout) { s with
        completion := { s.completion with flag := false }, log := s.log ++ [.returned rtEok] }
  | polled (hwaiter : s.waiter = .running) (hflag : s.completion.flag = false) :
      CompletionEffect thread s (.wait 0) { s with log := s.log ++ [.returned (-rtEtimeout)] }
  | slept {timeout} (hwaiter : s.waiter = .running) (hflag : s.completion.flag = false)
      (htimeout : timeout ≠ 0) :
      CompletionEffect thread s (.wait timeout) { s with
        completion := { s.completion with suspendedList := s.completion.suspendedList ++ [thread] }
        waiter := .suspended (decide (0 < timeout))
        error := rtEok }
  | expired (hwaiter : s.waiter = .suspended true) :
      CompletionEffect thread s .timeout { s with
        completion := rtCompletionTimeout s.completion thread
        waiter := .ready
        error := -rtEtimeout }
  | ran (hwaiter : s.waiter = .ready) :
      CompletionEffect thread s .run { s with
        completion := rtCompletionResume s.completion
        waiter := .running
        log := s.log ++ [.returned s.error] }
  | counted (hflag : s.completion.flag = true) :
      CompletionEffect thread s .done { s with log := s.log ++ [.done] }
  | tested (hflag : s.completion.flag = false) :
      CompletionEffect thread s .done { s with entering := s.entering + 1 }
  | woke {first : RtThread} {rest : List RtThread} (hentering : 0 < s.entering)
      (hlist : s.completion.suspendedList = first :: rest) :
      CompletionEffect thread s .enter { s with
        completion := ⟨true, rest⟩
        waiter := .ready
        entering := s.entering - 1
        log := s.log ++ [.done] }
  | stored (hentering : 0 < s.entering) (hlist : s.completion.suspendedList = []) :
      CompletionEffect thread s .enter { s with
        completion := ⟨true, []⟩
        entering := s.entering - 1
        log := s.log ++ [.done] }
  | reset : CompletionEffect thread s .init { s with
      completion := rtCompletionInit, log := s.log ++ [.init] }

/-- Every step has one of the effects. -/
theorem completionStep_effect {thread : RtThread} {s t : CompletionSystem} {call : CompletionCall}
    (hstep : completionStep thread s call = some t) : CompletionEffect thread s call t := by
  cases call with
  | wait timeout =>
    obtain ⟨hwaiter, hsome⟩ := Option.ite_none_right_eq_some.mp hstep
    rw [rtCompletionWait] at hsome
    split at hsome
    next completion err hwait =>
      cases hsome
      split at hwait
      · next hflag => cases hwait; exact .found hwaiter hflag
      · next hflag =>
        split at hwait
        · next hzero =>
          cases hwait
          subst hzero
          exact .polled hwaiter (Bool.eq_false_iff.mpr hflag)
        · cases hwait
    next completion hwait =>
      cases hsome
      split at hwait
      · cases hwait
      · next hflag =>
        split at hwait
        · cases hwait
        · next hzero => cases hwait; exact .slept hwaiter (Bool.eq_false_iff.mpr hflag) hzero
  | timeout =>
    obtain ⟨hwaiter, hsome⟩ := Option.ite_none_right_eq_some.mp hstep
    cases hsome
    exact .expired hwaiter
  | run =>
    obtain ⟨hwaiter, hsome⟩ := Option.ite_none_right_eq_some.mp hstep
    cases hsome
    exact .ran hwaiter
  | done =>
    change (if s.completion.flag then _ else _) = some t at hstep
    split at hstep
    · next hflag => cases hstep; exact .counted hflag
    · next hflag => cases hstep; exact .tested (Bool.eq_false_iff.mpr hflag)
  | enter =>
    obtain ⟨hentering, hsome⟩ := Option.ite_none_right_eq_some.mp hstep
    cases hlist : s.completion.suspendedList with
    | nil =>
      simp only [hlist] at hsome
      cases hsome
      exact .stored hentering hlist
    | cons first rest =>
      simp only [hlist] at hsome
      cases hsome
      exact .woke hentering hlist
  | init =>
    cases hstep
    exact .reset

/-! ## Runs in which no done is lost -/

namespace CompletionSystem

/-- What is to hold of a completion: a wait finds a done that is pending, at once; a wait succeeds
only where one is pending; and a done ends the wait that is under way. -/
structure Observed (thread : RtThread) (s : CompletionSystem) : Prop where
  found : s.waiter = .running → pending s.log = true → ∀ timeout,
    ∃ t, completionStep thread s (.wait timeout) = some t ∧ t.waiter = .running ∧
      t.log = s.log ++ [.returned rtEok]
  sound : ∀ call t, completionStep thread s call = some t → t.log = s.log ++ [.returned rtEok] →
    pending s.log = true
  ends : ∀ timed, s.waiter = .suspended timed → pending s.log = false

/-- The wait that is under way, if any, is one that a done ends: its thread is in the suspend list,
or was woken by a done already. -/
def DoneReaches (s : CompletionSystem) : Prop :=
  (∀ timed, s.waiter = .suspended timed → s.completion.suspendedList ≠ []) ∧
    (s.waiter = .ready → s.error = rtEok)

instance : DecidablePred DoneReaches := fun _ => inferInstanceAs (Decidable (_ ∧ _))

/-- The flag is what the log says, in every state of the waiter. -/
def Tracks (thread : RtThread) (s : CompletionSystem) : Prop :=
  s.completion.flag = pending s.log ∧
    match s.waiter with
    | .running => s.completion.suspendedList = []
    | .suspended _ => s.completion.flag = false ∧ s.error = rtEok ∧
        (s.completion.suspendedList = [] ∨ s.completion.suspendedList = [thread])
    | .ready => s.completion.suspendedList = [] ∧
        s.error = if s.completion.flag then rtEok else -rtEtimeout

/-- Every done reaches the wait that is under way, and the completion is not initialised between a
done and the return of the wait that it ended. -/
def InTime (s : CompletionSystem) : CompletionCall → Prop
  | .enter => s.DoneReaches
  | .init => s.waiter = .ready → s.error ≠ rtEok
  | .wait _ => True
  | .timeout => True
  | .run => True
  | .done => True

instance : DecidableRel InTime := fun s call =>
  match call with
  | .enter => inferInstanceAs (Decidable s.DoneReaches)
  | .init => inferInstanceAs (Decidable (s.waiter = .ready → s.error ≠ rtEok))
  | .wait _ => isTrue trivial
  | .timeout => isTrue trivial
  | .run => isTrue trivial
  | .done => isTrue trivial

variable {thread : RtThread} {s t : CompletionSystem} {call : CompletionCall}

/-- Nobody is suspended while the thread runs. -/
theorem Tracks.running (h : s.Tracks thread) (hwaiter : s.waiter = .running) :
    s.completion.suspendedList = [] := by
  have hwaiting := h.2
  rw [hwaiter] at hwaiting
  exact hwaiting

/-- While the thread is suspended there is no done, and no error yet. -/
theorem Tracks.suspended (h : s.Tracks thread) {timed : Bool}
    (hwaiter : s.waiter = .suspended timed) : s.completion.flag = false ∧ s.error = rtEok ∧
      (s.completion.suspendedList = [] ∨ s.completion.suspendedList = [thread]) := by
  have hwaiting := h.2
  rw [hwaiter] at hwaiting
  exact hwaiting

/-- Behind a wake-up the error tells a done from a timeout. -/
theorem Tracks.ready (h : s.Tracks thread) (hwaiter : s.waiter = .ready) :
    s.completion.suspendedList = [] ∧
      s.error = if s.completion.flag then rtEok else -rtEtimeout := by
  have hwaiting := h.2
  rw [hwaiter] at hwaiting
  exact hwaiting

/-- A thread in the list is suspended, and the only one. -/
theorem Tracks.listed (h : s.Tracks thread) {first : RtThread} {rest : List RtThread}
    (hlist : s.completion.suspendedList = first :: rest) : s.error = rtEok ∧ rest = [] := by
  cases hwaiter : s.waiter with
  | running => rw [h.running hwaiter] at hlist; cases hlist
  | suspended timed =>
    obtain ⟨-, herror, hnil | hone⟩ := h.suspended hwaiter
    · rw [hnil] at hlist; cases hlist
    · rw [hone] at hlist
      cases hlist
      exact ⟨herror, rfl⟩
  | ready => rw [(h.ready hwaiter).1] at hlist; cases hlist

/-- One step keeps the flag in line with the log. -/
theorem Tracks.step (h : s.Tracks thread) (hok : s.InTime call)
    (heffect : CompletionEffect thread s call t) : t.Tracks thread := by
  have hflag : s.completion.flag = pending s.log := h.1
  cases heffect with
  | found hwaiter _ =>
    refine ⟨by rw [pending_append]; rfl, ?_⟩
    dsimp only
    rw [hwaiter]
    exact h.running hwaiter
  | polled hwaiter _ =>
    refine ⟨by rw [pending_append]; exact hflag, ?_⟩
    dsimp only
    rw [hwaiter]
    exact h.running hwaiter
  | slept hwaiter hclear _ =>
    refine ⟨hflag, hclear, rfl, .inr ?_⟩
    dsimp only
    rw [h.running hwaiter, List.nil_append]
  | expired hwaiter =>
    obtain ⟨hclear, -, hlist⟩ := h.suspended hwaiter
    refine ⟨hflag, ?_, ?_⟩
    · rcases hlist with hlist | hlist
      · rw [rtCompletionTimeout, hlist, List.erase_nil]
      · rw [rtCompletionTimeout, hlist, List.erase_cons_head]
    · dsimp only
      rw [rtCompletionTimeout, hclear]
      rfl
  | ran hwaiter =>
    obtain ⟨hlist, herror⟩ := h.ready hwaiter
    refine ⟨?_, hlist⟩
    -- the flag that is cleaned is set only where the wait succeeds
    cases hset : s.completion.flag with
    | true => rw [pending_append, herror, hset]; rfl
    | false => rw [pending_append, herror, hset, ← hflag, hset]; rfl
  | counted hset =>
    refine ⟨by rw [pending_append]; exact hset, h.2⟩
  | tested _ => exact ⟨hflag, h.2⟩
  | woke _ hlist =>
    obtain ⟨herror, hrest⟩ := h.listed hlist
    refine ⟨by rw [pending_append]; rfl, hrest, ?_⟩
    dsimp only
    rw [herror]
    rfl
  | stored _ hlist =>
    refine ⟨by rw [pending_append]; rfl, ?_⟩
    obtain ⟨hlisted, hawake⟩ := hok
    cases hwaiter : s.waiter with
    | running => rfl
    | suspended timed => exact absurd hlist (hlisted timed hwaiter)
    | ready => exact ⟨rfl, hawake hwaiter⟩
  | reset =>
    refine ⟨by rw [pending_append]; rfl, ?_⟩
    cases hwaiter : s.waiter with
    | running => rfl
    | suspended timed => exact ⟨rfl, (h.suspended hwaiter).2.1, .inl rfl⟩
    | ready =>
      have herror := (h.ready hwaiter).2
      cases hset : s.completion.flag with
      | true => exact absurd (by rw [herror, hset]; rfl) (hok hwaiter)
      | false => exact ⟨rfl, by rw [herror, hset]; rfl⟩

/-- The invariant holds in every state that is reached in time. -/
theorem tracks_of_reach (h : (completionMachine thread).Reach InTime s) : s.Tracks thread :=
  h.invariant (P := Tracks thread) ⟨rfl, rfl⟩
    fun _ _ _ hs hok hstep => hs.step hok (completionStep_effect hstep)

/-- Where the flag is in line with the log the completion is as it is to be. -/
theorem Tracks.observed (h : s.Tracks thread) : s.Observed thread where
  found := by
    intro hwaiter hpending timeout
    rw [← h.1] at hpending
    have hwait : rtCompletionWait s.completion thread timeout =
        ({ s.completion with flag := false }, .returns rtEok) := if_pos hpending
    refine ⟨{ s with
      completion := { s.completion with flag := false }
      log := s.log ++ [.returned rtEok] }, ?_, hwaiter, rfl⟩
    rw [completionStep, if_pos hwaiter, hwait]
  sound := by
    intro call t hstep hlog
    have hevent {event : CompletionEvent} (he : s.log ++ [event] = s.log ++ [.returned rtEok]) :
        event = .returned rtEok := List.singleton_inj.mp (List.append_cancel_left he)
    have hnone (he : s.log = s.log ++ [.returned rtEok]) : False :=
      List.cons_ne_nil _ _ (List.self_eq_append_right.mp he)
    cases completionStep_effect hstep with
    | found _ hset => rw [← h.1, hset]
    | polled _ _ => cases hevent hlog
    | slept _ _ _ => exact (hnone hlog).elim
    | expired _ => exact (hnone hlog).elim
    | ran hwaiter =>
      have herror := (h.ready hwaiter).2
      have hsuccess : s.error = rtEok := by injection hevent hlog
      rw [← h.1]
      cases hset : s.completion.flag with
      | true => rfl
      | false => rw [hset, hsuccess] at herror; cases herror
    | counted _ => cases hevent hlog
    | tested _ => exact (hnone hlog).elim
    | woke _ _ => cases hevent hlog
    | stored _ _ => cases hevent hlog
    | reset => cases hevent hlog
  ends := by
    intro timed hwaiter
    rw [← h.1]
    exact (h.suspended hwaiter).1

/-- A done that does not reach the wait leaves its thread asleep, or is lost when it runs. -/
theorem Tracks.lost_done (h : s.Tracks thread) (hmiss : ¬s.DoneReaches)
    (heffect : CompletionEffect thread s .enter t) :
    ¬t.Observed thread ∨ ∃ u, completionStep thread t .run = some u ∧ ¬u.Observed thread := by
  have hlist : s.completion.suspendedList = [] := by
    cases hlist : s.completion.suspendedList with
    | nil => rfl
    | cons first rest =>
      refine absurd ⟨fun timed _ hnil => ?_, fun hwaiter => ?_⟩ hmiss
      · rw [hlist] at hnil
        cases hnil
      · rw [(h.ready hwaiter).1] at hlist
        cases hlist
  cases heffect with
  | woke _ hcons => rw [hlist] at hcons; cases hcons
  | stored _ _ =>
    cases hwaiter : s.waiter with
    | running =>
      refine absurd ⟨fun timed hs => ?_, fun hs => ?_⟩ hmiss
      · rw [hwaiter] at hs
        cases hs
      · rw [hwaiter] at hs
        cases hs
    | suspended timed =>
      left
      intro hobserved
      have hends := hobserved.ends timed rfl
      rw [pending_append] at hends
      cases hends
    | ready =>
      right
      have herror : s.error ≠ rtEok := by
        intro hsuccess
        refine absurd ⟨fun timed hs => ?_, fun _ => hsuccess⟩ hmiss
        rw [hwaiter] at hs
        cases hs
      refine ⟨_, rfl, ?_⟩
      intro hobserved
      have hpending : pending ((s.log ++ [.done]) ++ [.returned s.error]) = true := by
        rw [pending_append, pending_append]
        exact if_neg herror
      obtain ⟨u, hstep, -, hlog⟩ := hobserved.found rfl hpending 0
      cases hstep
      cases List.singleton_inj.mp (List.append_cancel_left hlog)

/-- An initialisation behind a done that ended a wait lets the wait succeed without a done. -/
theorem Tracks.lost_init (hwaiter : s.waiter = .ready) (herror : s.error = rtEok)
    (heffect : CompletionEffect thread s .init t) : ¬t.Observed thread := by
  intro hobserved
  cases heffect with
  | reset =>
    have hpending := hobserved.sound .run _ (if_pos hwaiter) (by rw [herror])
    rw [pending_append] at hpending
    cases hpending

end CompletionSystem

open CompletionSystem

/-- In every run in which each done reaches the wait that is under way, and no initialisation comes
between a done and the return of the wait that it ended, completions are not lost. The next step
meets this exactly if they are not lost behind it either, nor when the waiter runs on from there. -/
theorem completion_observed (thread : RtThread) {s : CompletionSystem}
    (h : (completionMachine thread).Reach InTime s) :
    s.Observed thread ∧ ∀ call t, completionStep thread s call = some t →
      (s.InTime call ↔ t.Observed thread ∧
        ∀ u, completionStep thread t .run = some u → u.Observed thread) := by
  have htracks := tracks_of_reach h
  refine ⟨htracks.observed, fun call t hstep => ⟨fun hok => ?_, fun ⟨hobserved, hnext⟩ => ?_⟩⟩
  · have hreach := h.step hok hstep
    exact ⟨(tracks_of_reach hreach).observed,
      fun u hrun => (tracks_of_reach (hreach.step (a := .run) trivial hrun)).observed⟩
  · have heffect := completionStep_effect hstep
    cases call with
    | enter =>
      refine Decidable.byContradiction fun hmiss => ?_
      rcases htracks.lost_done hmiss heffect with hlost | ⟨u, hrun, hlost⟩
      · exact hlost hobserved
      · exact hlost (hnext u hrun)
    | init => exact fun hwaiter herror => Tracks.lost_init hwaiter herror heffect hobserved
    | wait _ => exact trivial
    | timeout => exact trivial
    | run => exact trivial
    | done => exact trivial

/-- A wait that expires, and then a done: the next wait finds it. -/
theorem completion_observed_late :
    ∃ s, (completionMachine ⟨1, 10⟩).Reach InTime s ∧
      (s.waiter = .running ∧ s.log = [.returned (-rtEtimeout), .done, .done]) ∧
      s.Observed ⟨1, 10⟩ := by
  obtain ⟨s, hreach, hstate⟩ := Machine.exists_reach_of_run (completionMachine ⟨1, 10⟩) InTime
    [.wait 5, .timeout, .done, .run, .enter, .done]
    (fun s => s.waiter = .running ∧ s.log = [.returned (-rtEtimeout), .done, .done])
    (by decide +kernel)
  exact ⟨s, hreach, hstate, (completion_observed ⟨1, 10⟩ hreach).1⟩

/-- A done between the end of the waiting time and the return of the wait is lost: the waiter cleans
the flag, and the next wait expires. -/
theorem completion_lost :
    ¬∀ s, (completionMachine ⟨1, 10⟩).Reach Machine.any s → s.Observed ⟨1, 10⟩ := by
  intro hall
  obtain ⟨s, hreach, hwaiter, hpending, hlost⟩ :=
    Machine.exists_reach_of_run (completionMachine ⟨1, 10⟩) Machine.any
      [.wait 5, .timeout, .done, .enter, .run]
      (fun s => s.waiter = .running ∧ pending s.log = true ∧
        (completionStep ⟨1, 10⟩ s (.wait 0)).any
          (fun t => decide (t.log = s.log ++ [CompletionEvent.returned (-rtEtimeout)])) = true)
      (by decide +kernel)
  obtain ⟨t, hstep, -, hlog⟩ := (hall s hreach).found hwaiter hpending 0
  rw [hstep, Option.any_some, decide_eq_true_eq, hlog] at hlost
  cases List.singleton_inj.mp (List.append_cancel_left hlost)

end RtVcom.Kernel
