import Mathlib.Data.List.Nodup

/-!
# Histories of a double-ended queue

What happens to a queue that takes elements at its back and at its front, gives them at its front,
and may be emptied. `replay` runs a history: it fails where something is given that is not at the
front, so that a history that does not fail gives its elements in the order of the queue. Nothing
is lost or made up (`replay_conserves`): what was taken was given, or discarded, or is there.
-/

namespace RtVcom.Lib

/-- What happens to a queue. -/
inductive DequeEvent (α : Type*)
  | pushBack (a : α)
  | pushFront (a : α)
  | popFront (a : α)
  | clear
deriving Repr, DecidableEq

namespace DequeEvent

variable {α : Type*}

/-- The element that is taken. -/
def taken : DequeEvent α → Option α
  | pushBack a => some a
  | pushFront a => some a
  | _ => none

/-- The element that is given. -/
def given : DequeEvent α → Option α
  | popFront a => some a
  | _ => none

variable [DecidableEq α]

/-- The queue behind an event. -/
def step (queue : List α) : DequeEvent α → Option (List α)
  | pushBack a => some (queue ++ [a])
  | pushFront a => some (a :: queue)
  | popFront a => if queue.head? = some a then some queue.tail else none
  | clear => some []

/-- The queue behind a history. -/
def replay : List α → List (DequeEvent α) → Option (List α)
  | queue, [] => some queue
  | queue, e :: history => (step queue e).bind fun queue => replay queue history

/-- One more event at the end of a history. -/
theorem replay_concat {queue queue' : List α} {history : List (DequeEvent α)}
    (h : replay queue history = some queue') (e : DequeEvent α) :
    replay queue (history ++ [e]) = step queue' e := by
  induction history generalizing queue with
  | nil =>
    obtain rfl : queue = queue' := Option.some.inj h
    change (step queue e).bind some = step queue e
    cases step queue e <;> rfl
  | cons d history ih =>
    obtain ⟨middle, hd, hrest⟩ := Option.bind_eq_some_iff.mp h
    change (step queue d).bind _ = _
    rw [hd]
    exact ih hrest

/-- What was there and what was taken is given, discarded, or there. -/
theorem replay_conserves {queue queue' : List α} {history : List (DequeEvent α)}
    (h : replay queue history = some queue') :
    ∃ discarded, (history.filterMap given ++ discarded ++ queue').Perm
      (queue ++ history.filterMap taken) := by
  induction history generalizing queue with
  | nil =>
    cases h
    refine ⟨[], ?_⟩
    simp only [List.filterMap_nil, List.nil_append, List.append_nil, List.Perm.refl]
  | cons e history ih =>
    obtain ⟨middle, he, hrest⟩ := Option.bind_eq_some_iff.mp h
    obtain ⟨discarded, hperm⟩ := ih hrest
    cases e with
    | pushBack a =>
      cases he
      refine ⟨discarded, hperm.trans ?_⟩
      rw [List.append_assoc]
      exact List.Perm.refl _
    | pushFront a =>
      cases he
      refine ⟨discarded, hperm.trans ?_⟩
      exact List.perm_middle.symm
    | popFront a =>
      obtain ⟨hfront, hmiddle⟩ := Option.ite_none_right_eq_some.mp he
      cases hmiddle
      obtain ⟨rest, hqueue⟩ := List.head?_eq_some_iff.mp hfront
      refine ⟨discarded, ?_⟩
      rw [hqueue] at hperm ⊢
      exact hperm.cons a
    | clear =>
      cases he
      refine ⟨queue ++ discarded, ?_⟩
      have hmoved := hperm.append_left queue
      refine List.Perm.trans ?_ hmoved
      change (history.filterMap given ++ (queue ++ discarded) ++ queue').Perm _
      rw [List.perm_iff_count]
      intro a
      simp only [List.count_append]
      omega

end DequeEvent

end RtVcom.Lib
