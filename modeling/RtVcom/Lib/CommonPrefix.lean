import Mathlib.Data.List.Basic

/-!
# What lists begin with

The longest list that two lists begin with (`commonPrefix`), which is their meet in the order of the
prefixes (`prefix_commonPrefix_iff`), and the longest one that all lists of a list begin with
(`LongestPrefix`). Code that keeps one of the lists and a length is followed by
`LongestPrefix.concat`: a list more makes it the shorter of two lengths.
-/

namespace RtVcom.Lib

variable {α : Type}

/-- What two lists begin with. -/
def commonPrefix [DecidableEq α] : List α → List α → List α
  | [], _ => []
  | _ :: _, [] => []
  | a :: as, b :: bs => if a = b then a :: commonPrefix as bs else []

/-- A list begins the common prefix when it begins both lists. -/
theorem prefix_commonPrefix_iff [DecidableEq α] {v as bs : List α} :
    v <+: commonPrefix as bs ↔ v <+: as ∧ v <+: bs := by
  induction as, bs using commonPrefix.induct generalizing v with
  | case1 bs =>
    rw [commonPrefix, List.prefix_nil]
    refine ⟨?_, And.left⟩
    rintro rfl
    exact ⟨rfl, List.nil_prefix⟩
  | case2 a as =>
    rw [commonPrefix, List.prefix_nil]
    refine ⟨?_, And.right⟩
    rintro rfl
    exact ⟨List.nil_prefix, rfl⟩
  | case3 as b bs ih =>
    rw [commonPrefix, if_pos rfl]
    cases v with
    | nil => exact iff_of_true List.nil_prefix ⟨List.nil_prefix, List.nil_prefix⟩
    | cons c v =>
      rw [List.cons_prefix_cons, List.cons_prefix_cons, List.cons_prefix_cons, ih]
      exact and_and_left
  | case4 a as b bs hne =>
    rw [commonPrefix, if_neg hne, List.prefix_nil]
    constructor
    · rintro rfl
      exact ⟨List.nil_prefix, List.nil_prefix⟩
    · rintro ⟨ha, hb⟩
      cases v with
      | nil => rfl
      | cons c v =>
        have hca := (List.cons_prefix_cons.mp ha).1
        have hcb := (List.cons_prefix_cons.mp hb).1
        exact absurd (hca.symm.trans hcb) hne

theorem commonPrefix_begins [DecidableEq α] (as bs : List α) :
    commonPrefix as bs <+: as ∧ commonPrefix as bs <+: bs :=
  prefix_commonPrefix_iff.mp (List.prefix_refl _)

theorem commonPrefix_self [DecidableEq α] (as : List α) : commonPrefix as as = as :=
  (commonPrefix_begins as as).1.eq_of_length_le
    (prefix_commonPrefix_iff.mpr ⟨List.prefix_refl _, List.prefix_refl _⟩).length_le

/-- The longest list that all lists of a list begin with. -/
def LongestPrefix (lists : List (List α)) (u : List α) : Prop :=
  (∀ as ∈ lists, u <+: as) ∧ ∀ v, (∀ as ∈ lists, v <+: as) → v.length ≤ u.length

variable {as bs : List α} {lists : List (List α)} {k : Nat}

theorem longestPrefix_singleton (as : List α) : LongestPrefix [as] as :=
  ⟨fun _ h => List.mem_singleton.mp h ▸ List.prefix_refl _,
    fun _ h => (h as List.mem_cons_self).length_le⟩

/-- It is the only one. -/
theorem LongestPrefix.unique {u v : List α} (hu : LongestPrefix lists u)
    (hv : LongestPrefix lists v) (has : as ∈ lists) : u = v :=
  List.IsPrefix.eq_of_length (List.prefix_of_prefix_length_le (hu.1 as has) (hv.1 as has)
    (hv.2 u hu.1)) (Nat.le_antisymm (hv.2 u hu.1) (hu.2 v hv.1))

/-- Some lists more, taken in one after the other. -/
theorem LongestPrefix.foldl [DecidableEq α] {u : List α} (h : LongestPrefix lists u)
    (has : as ∈ lists) (more : List (List α)) :
    LongestPrefix (lists ++ more) (more.foldl commonPrefix u) := by
  induction more generalizing lists u with
  | nil => rwa [List.append_nil]
  | cons bs more ih =>
    have hboth := commonPrefix_begins u bs
    rw [List.append_cons, List.foldl_cons]
    refine ih ⟨fun cs hcs => ?_, fun v hv => ?_⟩ (List.mem_append_left _ has)
    · rcases List.mem_append.mp hcs with hcs | hcs
      · exact hboth.1.trans (h.1 cs hcs)
      · exact List.mem_singleton.mp hcs ▸ hboth.2
    · have hlists : ∀ cs ∈ lists, v <+: cs := fun cs hcs => hv cs (List.mem_append_left _ hcs)
      have hvu := List.prefix_of_prefix_length_le (hlists as has) (h.1 as has) (h.2 v hlists)
      have hvbs := hv bs (List.mem_append_right _ List.mem_cons_self)
      exact (prefix_commonPrefix_iff.mpr ⟨hvu, hvbs⟩).length_le

/-- A list more. -/
theorem LongestPrefix.concat [DecidableEq α] (h : LongestPrefix lists (as.take k))
    (has : as ∈ lists) (bs : List α) :
    LongestPrefix (lists ++ [bs]) (as.take (min k (commonPrefix as bs).length)) := by
  obtain ⟨hleft, hright⟩ := commonPrefix_begins as bs
  have hcommon : as.take (commonPrefix as bs).length = commonPrefix as bs :=
    (List.prefix_iff_eq_take.mp hleft).symm
  constructor
  · intro cs hcs
    cases List.mem_append.mp hcs with
    | inl hcs => exact (List.take_prefix_take_left (Nat.min_le_left _ _)).trans (h.1 cs hcs)
    | inr hcs =>
      rw [List.mem_singleton.mp hcs]
      refine (List.take_prefix_take_left (Nat.min_le_right k _)).trans ?_
      rw [hcommon]
      exact hright
  · intro v hv
    have hlists : ∀ cs ∈ lists, v <+: cs := fun cs hcs => hv cs (List.mem_append_left _ hcs)
    have hbs : v <+: bs := hv bs (List.mem_append_right _ List.mem_cons_self)
    have hfirst := h.2 v hlists
    have hsecond := (prefix_commonPrefix_iff.mpr ⟨hlists as has, hbs⟩).length_le
    have hle := hleft.length_le
    rw [List.length_take] at hfirst ⊢
    omega

end RtVcom.Lib
