import Mathlib.Data.List.Basic

/-!
# Insertion where a walk stops

A list is walked from its front to the first element at which the walk stops, and a new element is
put there, or at the end. That is how ordered queues are kept without sorting. The laws: nothing
is lost (`insertBefore_perm`), and a list in order stays so where the walk stops at the elements
that belong behind the new one (`pairwise_insertBefore`).
-/

namespace RtVcom.Lib

variable {α : Type*}

/-- The list with `a` in front of the first element at which the walk stops. -/
def insertBefore (stops : α → Bool) (a : α) : List α → List α
  | [] => [a]
  | b :: rest => if stops b then a :: b :: rest else b :: insertBefore stops a rest

variable {stops : α → Bool} {a b : α} {list : List α}

/-- The element goes before the first that stops it. -/
theorem insertBefore_eq_append : insertBefore stops a list =
    list.takeWhile (fun b => !stops b) ++ a :: list.dropWhile fun b => !stops b := by
  induction list with
  | nil => rfl
  | cons b rest ih =>
    unfold insertBefore
    cases hstops : stops b with
    | true => simp only [if_true, List.takeWhile_cons, List.dropWhile_cons, hstops, Bool.not_true,
        Bool.false_eq_true, if_false, List.nil_append]
    | false => simp only [Bool.false_eq_true, if_false, List.takeWhile_cons, List.dropWhile_cons,
        hstops, Bool.not_false, if_true, ih, List.cons_append]

/-- The walk asks the elements of the list and no others. -/
theorem insertBefore_congr {stops' : α → Bool} (h : ∀ b ∈ list, stops b = stops' b) :
    insertBefore stops a list = insertBefore stops' a list := by
  induction list with
  | nil => rfl
  | cons b rest ih =>
    rw [insertBefore, insertBefore, h b List.mem_cons_self,
      ih fun c hc => h c (List.mem_cons_of_mem b hc)]

/-- The walk goes over what does not stop it. -/
theorem insertBefore_passed {front rest : List α} (hfront : ∀ c ∈ front, stops c = false) :
    insertBefore stops a (front ++ rest) = front ++ insertBefore stops a rest := by
  induction front with
  | nil => rfl
  | cons c front ih =>
    have hc : ¬stops c = true := by
      rw [hfront c List.mem_cons_self]
      exact Bool.false_ne_true
    rw [List.cons_append, insertBefore, if_neg hc, List.cons_append,
      ih fun d hd => hfront d (List.mem_cons_of_mem c hd)]

/-- Where the walk stops. -/
theorem insertBefore_append {front rest : List α} (hfront : ∀ c ∈ front, stops c = false)
    (hb : stops b = true) :
    insertBefore stops a (front ++ b :: rest) = front ++ a :: b :: rest := by
  rw [insertBefore_passed hfront, insertBefore, if_pos hb]

/-- Where it does not stop. -/
theorem insertBefore_of_passed (hlist : ∀ b ∈ list, stops b = false) :
    insertBefore stops a list = list ++ [a] := by
  have hwalk := @insertBefore_passed α stops a list [] hlist
  rwa [List.append_nil] at hwalk

theorem insertBefore_perm : (insertBefore stops a list).Perm (a :: list) := by
  rw [insertBefore_eq_append]
  refine List.perm_middle.trans ?_
  rw [List.takeWhile_append_dropWhile]

theorem mem_insertBefore : b ∈ insertBefore stops a list ↔ b = a ∨ b ∈ list := by
  rw [insertBefore_perm.mem_iff, List.mem_cons]

/-- An order that is kept: every element the walk passes comes before the new one, and the new one
before every element at which it stops, and before what such an element comes before. -/
theorem pairwise_insertBefore {r : α → α → Prop} (h : list.Pairwise r)
    (hpassed : ∀ b ∈ list, stops b = false → r b a)
    (hstopped : ∀ b ∈ list, stops b = true → r a b)
    (hbehind : ∀ b ∈ list, ∀ c ∈ list, r a b → r b c → r a c) :
    (insertBefore stops a list).Pairwise r := by
  induction list with
  | nil => exact List.pairwise_singleton r a
  | cons b rest ih =>
    obtain ⟨hfirst, hrest⟩ := List.pairwise_cons.mp h
    have hb : b ∈ b :: rest := List.mem_cons_self
    have htail {c : α} (hc : c ∈ rest) : c ∈ b :: rest := List.mem_cons_of_mem b hc
    unfold insertBefore
    cases hstops : stops b with
    | true =>
      have hab := hstopped b hb hstops
      refine List.pairwise_cons.mpr ⟨?_, h⟩
      intro c hc
      rcases List.mem_cons.mp hc with rfl | hc
      · exact hab
      · exact hbehind b hb c (htail hc) hab (hfirst c hc)
    | false =>
      refine List.pairwise_cons.mpr ⟨?_, ?_⟩
      · intro c hc
        rcases mem_insertBefore.mp hc with rfl | hc
        · exact hpassed b hb hstops
        · exact hfirst c hc
      · exact ih hrest (fun c hc => hpassed c (htail hc)) (fun c hc => hstopped c (htail hc))
          fun c hc d hd => hbehind c (htail hc) d (htail hd)

end RtVcom.Lib
