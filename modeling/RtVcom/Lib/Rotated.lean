/-!
# Rotated orders

Entries that are placed one behind another in a ring of addresses, where the next one goes to the
begin of the ring when nothing is left at its end: their list is in order up to one wrap. `Wrapped`
tells the order of each part from the order across the wrap, for entries that may be empty and then
are before themselves; `Rotated` has one order for both. Entries may leave from anywhere
(`sublist`); a new one comes behind the last (`append_behind`), at the begin (`append_begin`) or,
once the list is wrapped, between the last and the first (`append_between`). Whichever way it grew,
two of its entries are apart (`apart`).
-/

namespace RtVcom.Lib

/-- The list is in order, or it is two parts in order of which the second is before the first. -/
def Wrapped {α : Type} (R S : α → α → Prop) (l : List α) : Prop :=
  ∃ front back, l = front ++ back ∧ front.Pairwise R ∧ back.Pairwise R ∧
    ∀ b ∈ back, ∀ a ∈ front, S b a

/-- The list is sorted when its second part is put first. -/
def Rotated {α : Type} (R : α → α → Prop) (l : List α) : Prop :=
  ∃ front back, l = front ++ back ∧ (back ++ front).Pairwise R

variable {α : Type} {R S R' S' : α → α → Prop} {l l' : List α} {a z s x : α}

/-- A rotation wraps by its own order. -/
theorem rotated_iff_wrapped : Rotated R l ↔ Wrapped R R l := by
  simp only [Rotated, Wrapped, List.pairwise_append]
  constructor
  · rintro ⟨front, back, hl, hback, hfront, hbetween⟩
    exact ⟨front, back, hl, hfront, hback, hbetween⟩
  · rintro ⟨front, back, hl, hfront, hback, hbetween⟩
    exact ⟨front, back, hl, hback, hfront, hbetween⟩

/-! ## The ends of a sorted list -/

/-- The head is before the others. -/
theorem head_or_before (h : l.Pairwise R) (ha : l.head? = some a) (hx : x ∈ l) :
    x = a ∨ R a x := by
  cases l with
  | nil => cases hx
  | cons b rest =>
    cases ha
    rcases List.mem_cons.mp hx with rfl | hx
    · exact .inl rfl
    · exact .inr ((List.pairwise_cons.mp h).1 x hx)

theorem last_or_behind (h : l.Pairwise R) (hz : l.getLast? = some z) (hx : x ∈ l) :
    x = z ∨ R x z := by
  rcases List.eq_nil_or_concat l with rfl | ⟨rest, b, rfl⟩
  · cases hx
  · rw [List.concat_eq_append, List.getLast?_concat] at hz
    cases hz
    rw [List.concat_eq_append] at h hx
    obtain ⟨-, -, hbetween⟩ := List.pairwise_append.mp h
    rcases List.mem_append.mp hx with hx | hx
    · exact .inr (hbetween x hx z (List.mem_singleton_self z))
    · exact .inl (List.mem_singleton.mp hx)

/-- Two entries of a list in order are ordered one way or the other. -/
theorem apart_of_pairwise (h : l.Pairwise R) (ha : a ∈ l) (hx : x ∈ l) (hne : a ≠ x) :
    R a x ∨ R x a := by
  induction l with
  | nil => cases ha
  | cons b rest ih =>
    obtain ⟨hbefore, hsorted⟩ := List.pairwise_cons.mp h
    rcases List.mem_cons.mp ha with rfl | harest
    · rcases List.mem_cons.mp hx with rfl | hxrest
      · exact absurd rfl hne
      · exact .inl (hbefore x hxrest)
    · rcases List.mem_cons.mp hx with rfl | hxrest
      · exact .inr (hbefore a harest)
      · exact ih hsorted harest hxrest

/-! ## One order in each part, one across the wrap -/

namespace Wrapped

theorem of_pairwise (h : l.Pairwise R) : Wrapped R S l :=
  ⟨l, [], (List.append_nil l).symm, h, .nil, fun _ hb => absurd hb List.not_mem_nil⟩

/-- Entries may leave from anywhere. -/
theorem sublist (h : Wrapped R S l) (hsub : l'.Sublist l) : Wrapped R S l' := by
  obtain ⟨front, back, rfl, hfront, hback, hbetween⟩ := h
  obtain ⟨f, b, rfl, hf, hb⟩ := List.sublist_append_iff.mp hsub
  exact ⟨f, b, rfl, hfront.sublist hf, hback.sublist hb,
    fun y hy w hw => hbetween y (hb.subset hy) w (hf.subset hw)⟩

/-- Other orders of the same entries. -/
theorem congr (h : Wrapped R S l) (hR : ∀ a ∈ l, ∀ b ∈ l, R a b → R' a b)
    (hS : ∀ a ∈ l, ∀ b ∈ l, S a b → S' a b) : Wrapped R' S' l := by
  obtain ⟨front, back, rfl, hfront, hback, hbetween⟩ := h
  refine ⟨front, back, rfl, ?_, ?_, ?_⟩
  · exact hfront.imp_of_mem fun ha hb =>
      hR _ (List.mem_append_left _ ha) _ (List.mem_append_left _ hb)
  · exact hback.imp_of_mem fun ha hb =>
      hR _ (List.mem_append_right _ ha) _ (List.mem_append_right _ hb)
  · intro b hb a ha
    exact hS _ (List.mem_append_right _ hb) _ (List.mem_append_left _ ha) (hbetween b hb a ha)

/-- Two entries are ordered one way or the other. -/
theorem apart (h : Wrapped R S l) (hSR : ∀ {a b}, S a b → R a b) (ha : a ∈ l) (hx : x ∈ l)
    (hne : a ≠ x) : R a x ∨ R x a := by
  obtain ⟨front, back, rfl, hfront, hback, hbetween⟩ := h
  have hsorted : (back ++ front).Pairwise R :=
    List.pairwise_append.mpr ⟨hback, hfront, fun b hb a ha => hSR (hbetween b hb a ha)⟩
  exact apart_of_pairwise hsorted (List.mem_append.mpr (List.mem_append.mp ha).symm)
    (List.mem_append.mpr (List.mem_append.mp hx).symm) hne

/-- A list whose last entry is not before its first one, across the wrap, is in order. -/
theorem pairwise (h : Wrapped R S l) (ha : l.head? = some a) (hz : l.getLast? = some z)
    (hnot : ¬S z a) : l.Pairwise R := by
  obtain ⟨front, back, rfl, hfront, hback, hbetween⟩ := h
  rcases front with _ | ⟨b, front⟩
  · exact hback
  rcases List.eq_nil_or_concat back with rfl | ⟨back, c, rfl⟩
  · rwa [List.append_nil]
  rw [List.cons_append, List.head?_cons, Option.some.injEq] at ha
  rw [List.concat_eq_append, ← List.append_assoc, List.getLast?_concat, Option.some.injEq] at hz
  subst ha hz
  refine absurd (hbetween c ?_ b List.mem_cons_self) hnot
  rw [List.concat_eq_append]
  exact List.mem_append_right _ (List.mem_singleton_self c)

/-- A new entry behind the last one. -/
theorem append_behind (trans : ∀ {a b c : α}, R a b → R b c → R a c) (h : l.Pairwise R)
    (hz : l.getLast? = some z) (hs : R z s) : Wrapped R S (l ++ [s]) := by
  apply of_pairwise
  refine List.pairwise_append.mpr ⟨h, List.pairwise_singleton R s, ?_⟩
  intro x hx y hy
  obtain rfl := List.mem_singleton.mp hy
  rcases last_or_behind h hz hx with rfl | hxz
  · exact hs
  · exact trans hxz hs

section

variable (transSR : ∀ {a b c : α}, S a b → R b c → S a c)

include transSR

/-- A new entry at the begin. -/
theorem append_begin (h : l.Pairwise R) (ha : l.head? = some a) (hs : S s a) :
    Wrapped R S (l ++ [s]) := by
  refine ⟨l, [s], rfl, h, List.pairwise_singleton R s, ?_⟩
  intro y hy x hx
  obtain rfl := List.mem_singleton.mp hy
  rcases head_or_before h ha hx with rfl | hax
  · exact hs
  · exact transSR hs hax

/-- A new entry between the last and the first one of a list that is wrapped. -/
theorem append_between (trans : ∀ {a b c : α}, R a b → R b c → R a c)
    (asymm : ∀ {a b : α}, S a b → a ≠ b ∧ ¬R b a) (h : Wrapped R S l) (ha : l.head? = some a)
    (hz : l.getLast? = some z) (hza : S z a) (hzs : R z s) (hsa : S s a) :
    Wrapped R S (l ++ [s]) := by
  -- a list that is in order has its first entry before its last one
  have hnot : ¬l.Pairwise R := by
    intro hsorted
    rcases last_or_behind hsorted hz (List.mem_of_head? ha) with rfl | haz
    · exact (asymm hza).1 rfl
    · exact (asymm hza).2 haz
  obtain ⟨front, back, rfl, hfront, hback, hbetween⟩ := h
  rcases front with _ | ⟨b, front⟩
  · exact absurd hback hnot
  rcases back with _ | ⟨c, back⟩
  · rw [List.append_nil] at hnot
    exact absurd hfront hnot
  rw [List.getLast?_append, List.getLast?_cons, Option.some_or, ← List.getLast?_cons] at hz
  refine ⟨b :: front, c :: back ++ [s], List.append_assoc _ _ _, hfront, ?_, ?_⟩
  · refine List.pairwise_append.mpr ⟨hback, List.pairwise_singleton R s, ?_⟩
    intro x hx y hy
    obtain rfl := List.mem_singleton.mp hy
    rcases last_or_behind hback hz hx with rfl | hxz
    · exact hzs
    · exact trans hxz hzs
  · intro x hx y hy
    rcases List.mem_append.mp hx with hx | hx
    · exact hbetween x hx y hy
    · obtain rfl := List.mem_singleton.mp hx
      rcases head_or_before hfront ha hy with rfl | hay
      · exact hsa
      · exact transSR hsa hay

end

end Wrapped

/-! ## One order -/

namespace Rotated

theorem of_pairwise (h : l.Pairwise R) : Rotated R l :=
  rotated_iff_wrapped.mpr (.of_pairwise h)

/-- Entries may leave from anywhere. -/
theorem sublist (h : Rotated R l) (hsub : l'.Sublist l) : Rotated R l' :=
  rotated_iff_wrapped.mpr ((rotated_iff_wrapped.mp h).sublist hsub)

/-- Another order of the same entries. -/
theorem congr (h : Rotated R l) (hRS : ∀ a ∈ l, ∀ b ∈ l, R a b → S a b) : Rotated S l :=
  rotated_iff_wrapped.mpr ((rotated_iff_wrapped.mp h).congr hRS hRS)

/-- Two entries are ordered one way or the other. -/
theorem apart (h : Rotated R l) (ha : a ∈ l) (hx : x ∈ l) (hne : a ≠ x) : R a x ∨ R x a :=
  (rotated_iff_wrapped.mp h).apart (fun hab => hab) ha hx hne

/-- A list whose last entry is not before its first one is sorted. -/
theorem pairwise (h : Rotated R l) (ha : l.head? = some a) (hz : l.getLast? = some z)
    (hnot : ¬R z a) : l.Pairwise R :=
  (rotated_iff_wrapped.mp h).pairwise ha hz hnot

section

variable (trans : ∀ {a b c : α}, R a b → R b c → R a c)

include trans

/-- A new entry behind the last one. -/
theorem append_behind (h : l.Pairwise R) (hz : l.getLast? = some z) (hs : R z s) :
    Rotated R (l ++ [s]) :=
  rotated_iff_wrapped.mpr (.append_behind trans h hz hs)

/-- A new entry at the begin. -/
theorem append_begin (h : l.Pairwise R) (ha : l.head? = some a) (hs : R s a) :
    Rotated R (l ++ [s]) :=
  rotated_iff_wrapped.mpr (.append_begin trans h ha hs)

/-- A new entry between the last and the first one of a list that is rotated. -/
theorem append_between (irrefl : ∀ a, ¬R a a) (h : Rotated R l) (ha : l.head? = some a)
    (hz : l.getLast? = some z) (hza : R z a) (hzs : R z s) (hsa : R s a) :
    Rotated R (l ++ [s]) := by
  have asymm {a b : α} (hab : R a b) : a ≠ b ∧ ¬R b a := by
    constructor
    · rintro rfl
      exact irrefl a hab
    · intro hba
      exact irrefl a (trans hab hba)
  exact rotated_iff_wrapped.mpr
    (.append_between trans trans asymm (rotated_iff_wrapped.mp h) ha hz hza hzs hsa)

end

end Rotated

end RtVcom.Lib
