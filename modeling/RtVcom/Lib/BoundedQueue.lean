import RtVcom.Lib.Circular

/-!
# Bounded queues

A queue of at most `capacity` elements, oldest first, as what a ring buffer or a message store
stands for. An element that finds no room is refused (`offer`), or pushes out the oldest one
(`force`); of a block, `offerAll` takes the part that fits and `forceAll` keeps the newest
elements. The bound is part of the queue, so that no operation has to be shown to keep it again.
-/

namespace RtVcom.Lib

/-- A queue of at most `capacity` elements, oldest first. -/
structure BoundedQueue (α : Type) (capacity : Nat) where
  items : List α
  bounded : items.length ≤ capacity

namespace BoundedQueue

variable {α : Type} {capacity : Nat}

/-- Queues with the same items are equal. -/
@[ext] theorem ext {q q' : BoundedQueue α capacity} (h : q.items = q'.items) : q = q' := by
  cases q
  cases h
  rfl

/-- The queue without elements. -/
def empty : BoundedQueue α capacity := ⟨[], Nat.zero_le capacity⟩

/-- How many more elements there is room for. -/
def room (q : BoundedQueue α capacity) : Nat := capacity - q.items.length

/-- One element at the back, where there is room. -/
def offer (q : BoundedQueue α capacity) (x : α) : BoundedQueue α capacity :=
  if h : q.items.length < capacity then
    ⟨q.items ++ [x], by
      rw [List.length_append, List.length_singleton]
      omega⟩
  else q

/-- As much of a block at the back as there is room for. -/
def offerAll (q : BoundedQueue α capacity) (xs : List α) : BoundedQueue α capacity :=
  ⟨q.items ++ xs.take q.room, by
    have hbounded := q.bounded
    rw [List.length_append, List.length_take, room]
    omega⟩

/-- A block at the back, which pushes out the oldest elements. -/
def forceAll (q : BoundedQueue α capacity) (xs : List α) : BoundedQueue α capacity :=
  ⟨keepLast capacity (q.items ++ xs), by
    rw [length_keepLast]
    exact Nat.min_le_left _ _⟩

/-- One element at the back, which pushes out the oldest one of a full queue. -/
def force (q : BoundedQueue α capacity) (x : α) : BoundedQueue α capacity := q.forceAll [x]

/-- The queue without its oldest `n` elements. -/
def dropFront (q : BoundedQueue α capacity) (n : Nat) : BoundedQueue α capacity :=
  ⟨q.items.drop n, by
    have hbounded := q.bounded
    rw [List.length_drop]
    omega⟩

variable (q : BoundedQueue α capacity)

@[simp] theorem items_empty : (empty : BoundedQueue α capacity).items = [] := rfl

@[simp] theorem items_offerAll (xs : List α) :
    (q.offerAll xs).items = q.items ++ xs.take q.room := rfl

@[simp] theorem items_forceAll (xs : List α) :
    (q.forceAll xs).items = keepLast capacity (q.items ++ xs) := rfl

@[simp] theorem items_force (x : α) : (q.force x).items = keepLast capacity (q.items ++ [x]) := rfl

@[simp] theorem items_dropFront (n : Nat) : (q.dropFront n).items = q.items.drop n := rfl

/-- What is offered is accepted where there is room. -/
theorem items_offer (x : α) :
    (q.offer x).items = if q.items.length < capacity then q.items ++ [x] else q.items := by
  unfold offer
  split <;> rfl

/-- A forced block is its elements forced one by one. -/
theorem foldl_force (xs : List α) : xs.foldl force q = q.forceAll xs := by
  induction xs generalizing q with
  | nil =>
    ext1
    rw [List.foldl_nil, items_forceAll, List.append_nil, keepLast_of_length_le q.bounded]
  | cons x xs ih =>
    rw [List.foldl_cons, ih]
    ext1
    rw [items_forceAll, items_force, keepLast_append_keepLast, List.append_assoc,
      List.singleton_append, items_forceAll]

end BoundedQueue

end RtVcom.Lib
