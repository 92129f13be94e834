import Mathlib.Data.List.Destutter

/-!
# The most recent entries

A memory for a bounded number of entries that does not take the same entry twice in a row. It is
kept entry by entry, either by filling it or by giving up the oldest (`push`), and what it holds is
a function of all entries there were: the last ones of the list without its repetitions
(`push_recent`).
-/

namespace RtVcom.Lib

variable {α : Type} {k : Nat}

/-- The last `k` elements. -/
def recent (k : Nat) (l : List α) : List α := l.drop (l.length - k)

theorem length_recent (k : Nat) (l : List α) : (recent k l).length = min k l.length := by
  rw [recent, List.length_drop]
  omega

theorem recent_of_le {l : List α} (h : l.length ≤ k) : recent k l = l := by
  rw [recent, Nat.sub_eq_zero_of_le h, List.drop_zero]

theorem getLast?_recent (hk : 0 < k) (l : List α) : (recent k l).getLast? = l.getLast? := by
  rw [recent, List.getLast?_drop]
  split
  · next h =>
    have hnil : l.length = 0 := by omega
    rw [List.eq_nil_of_length_eq_zero hnil]
    rfl
  · rfl

/-- With an element more the oldest of `k` is given up. -/
theorem recent_concat_of_full {l : List α} (h : k ≤ l.length) (a : α) (hk : 0 < k) :
    recent k (l ++ [a]) = (recent k l).tail ++ [a] := by
  have hdrop : l.length + 1 - k = l.length - k + 1 := by omega
  rw [recent, recent, List.length_append, List.length_singleton, List.tail_drop, hdrop,
    List.drop_append_of_le_length (by omega)]

variable [DecidableEq α]

/-- The elements without repetitions in a row. -/
def distinct (l : List α) : List α := l.destutter (· ≠ ·)

/-- A repeated last element is left out. -/
theorem destutter'_concat (a b : α) (l : List α) :
    (l ++ [b]).destutter' (· ≠ ·) a =
      if (l.destutter' (· ≠ ·) a).getLast? = some b then l.destutter' (· ≠ ·) a
      else l.destutter' (· ≠ ·) a ++ [b] := by
  induction l generalizing a with
  | nil =>
    rw [List.nil_append, List.destutter'_singleton, List.destutter'_nil, List.getLast?_singleton]
    by_cases hab : a = b
    · rw [if_neg (not_not_intro hab), if_pos (congrArg some hab)]
    · rw [if_pos hab, if_neg fun h => hab (Option.some.inj h)]
      rfl
  | cons c l ih =>
    rw [List.cons_append]
    by_cases hac : a ≠ c
    · obtain ⟨d, rest, hrest⟩ := List.exists_cons_of_ne_nil (List.destutter'_ne_nil l (· ≠ ·) (a := c))
      rw [List.destutter'_cons_pos _ hac, List.destutter'_cons_pos _ hac, ih, hrest,
        List.getLast?_cons_cons, apply_ite (List.cons a)]
      rfl
    · rw [List.destutter'_cons_neg _ hac, List.destutter'_cons_neg _ hac, ih]

/-- An element more, unless it is the last one. -/
theorem distinct_concat (l : List α) (b : α) :
    distinct (l ++ [b]) =
      if (distinct l).getLast? = some b then distinct l else distinct l ++ [b] := by
  cases l with
  | nil => exact (if_neg (Option.some_ne_none b).symm).symm
  | cons a l => exact destutter'_concat a b l

/-- An entry comes to a memory for `k` of them. -/
def push (k : Nat) (entries : List α) (a : α) : List α :=
  if entries.getLast? = some a then entries
  else if entries.length < k then entries ++ [a]
  else entries.tail ++ [a]

/-- What the memory holds of all entries. -/
theorem push_recent (hk : 0 < k) (l : List α) (a : α) :
    push k (recent k (distinct l)) a = recent k (distinct (l ++ [a])) := by
  rw [push, getLast?_recent hk, distinct_concat, length_recent]
  by_cases hlast : (distinct l).getLast? = some a
  · rw [if_pos hlast, if_pos hlast]
  rw [if_neg hlast, if_neg hlast]
  by_cases hroom : min k (distinct l).length < k
  · have hle : (distinct l ++ [a]).length ≤ k := by
      rw [List.length_append, List.length_singleton]
      omega
    rw [if_pos hroom, recent_of_le (by omega), recent_of_le hle]
  · rw [if_neg hroom, recent_concat_of_full (by omega) a hk]

end RtVcom.Lib
