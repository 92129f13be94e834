import Mathlib.Data.List.Nodup
import Mathlib.Logic.Function.Basic

/-!
# Singly linked lists

Cells with a `next` pointer each, and the lists that are linked through them. A list is known by
the pointer to its first cell. The rules say what the updates of one pointer do: a cell outside
does not matter (`Linked.update`), a new first cell (`Linked.push`), the list behind the first
(`Linked.pop`), and a new last one (`Linked.append`).
-/

namespace RtVcom.Lib

variable {α : Type*}

/-- The cells of `list` are linked in this order, from the pointer `start` on. -/
def Linked (next : α → Option α) : Option α → List α → Prop
  | start, [] => start = none
  | start, a :: rest => start = some a ∧ Linked next (next a) rest

namespace Linked

variable {next : α → Option α} {start : Option α} {list : List α} {a : α} {p : Option α}

/-- The start is the head of the list. -/
theorem head (h : Linked next start list) : start = list.head? := by
  cases list with
  | nil => exact h
  | cons a rest => exact h.1

theorem eq_nil_iff (h : Linked next start list) : list = [] ↔ start = none := by
  rw [h.head, List.head?_eq_none_iff]

/-- The list behind its first cell. -/
theorem pop (h : Linked next (some a) list) :
    ∃ rest, list = a :: rest ∧ Linked next (next a) rest := by
  cases list with
  | nil => cases h
  | cons b rest =>
    obtain ⟨hb, hrest⟩ := h
    cases hb
    exact ⟨rest, rfl, hrest⟩

/-- Where a pointer leads there is one list. -/
theorem unique {other : List α} (h : Linked next start list) (h' : Linked next start other) :
    list = other := by
  induction list generalizing start other with
  | nil =>
    cases h
    exact ((h'.eq_nil_iff).mpr rfl).symm
  | cons a rest ih =>
    obtain ⟨rfl, hrest⟩ := h
    obtain ⟨rest', rfl, hrest'⟩ := h'.pop
    rw [ih hrest hrest']

variable [DecidableEq α]

/-- A pointer outside the list. -/
theorem update (h : Linked next start list) (hout : a ∉ list) :
    Linked (Function.update next a p) start list := by
  induction list generalizing start with
  | nil => exact h
  | cons b rest ih =>
    obtain ⟨hb, hrest⟩ := h
    obtain ⟨hab, hout⟩ := not_or.mp (mt List.mem_cons.mpr hout)
    refine ⟨hb, ?_⟩
    rw [Function.update_of_ne (Ne.symm hab)]
    exact ih hrest hout

/-- A new first cell. -/
theorem push (h : Linked next start list) (hout : a ∉ list) :
    Linked (Function.update next a start) (some a) (a :: list) := by
  refine ⟨rfl, ?_⟩
  rw [Function.update_self]
  exact h.update hout

/-- A new last cell: the last pointer is set to it. -/
theorem append {last : α} {front : List α} (h : Linked next start (front ++ [last]))
    (hlast : last ∉ front) (hout : a ∉ front ++ [last]) (hnext : next a = none) :
    Linked (Function.update next last (some a)) start (front ++ [last, a]) := by
  have hne : a ≠ last := fun heq => hout (heq ▸ List.mem_append_right front List.mem_cons_self)
  induction front generalizing start with
  | nil =>
    refine ⟨h.1, ?_⟩
    rw [Function.update_self]
    refine ⟨rfl, ?_⟩
    rw [Function.update_of_ne hne]
    exact hnext
  | cons b rest ih =>
    obtain ⟨hb, hrest⟩ := h
    obtain ⟨hlb, hlast⟩ := not_or.mp (mt List.mem_cons.mpr hlast)
    refine ⟨hb, ?_⟩
    rw [Function.update_of_ne (Ne.symm hlb)]
    exact ih hrest hlast (fun hmem => hout (List.mem_cons_of_mem b hmem))

omit [DecidableEq α] in
/-- Cells in a row, each with a pointer to the next one, and none in the last. -/
theorem row {f : Nat → α} {first count : Nat}
    (hnext : ∀ i < count, next (f (first + i)) = some (f (first + i + 1)))
    (hlast : next (f (first + count)) = none) :
    Linked next (some (f first)) ((List.range' first (count + 1)).map f) := by
  induction count generalizing first with
  | zero => exact ⟨rfl, hlast⟩
  | succ count ih =>
    refine ⟨rfl, ?_⟩
    rw [show next (f first) = some (f (first + 1)) from hnext 0 (Nat.succ_pos count)]
    refine ih (fun i hi => ?_) ?_
    · rw [Nat.add_right_comm]
      exact hnext (i + 1) (Nat.succ_lt_succ hi)
    · rw [Nat.add_right_comm]
      exact hlast

end Linked

end RtVcom.Lib
