import Mathlib.Data.List.Nodup
import Mathlib.Data.Sum.Basic
import Mathlib.Logic.Function.Basic

/-!
# Rings — circular doubly linked lists

Nodes with a `next` and a `prev` each, and the three updates that kernels make with them
(`Links.insertBefore`, `Links.insertAfter`, `Links.remove`), in the order of their stores. A list
is a ring through a head. Items and heads share one kind of node, so that any item may be in any
list, and an item that is in none is a ring of its own.

`Rings k q` says that the links `k` are the lists `q`: `q h` behind each head `h`, no item twice.
Each update has one rule that says what it does to the lists (`Rings.remove`, `Rings.pushBack`,
`Rings.insert`, `Rings.pushFront`). All but the first ask that the item is loose: an item that is
linked a second time takes the ring it was in with it.
-/

namespace RtVcom.Lib

/-- The links of a set of nodes. -/
structure Links (ν : Type*) where
  next : ν → ν
  prev : ν → ν

namespace Links

variable {ν : Type*} [DecidableEq ν]

/-- `n` is linked in front of `l`. -/
def insertBefore (k : Links ν) (l n : ν) : Links ν :=
  let next := Function.update k.next (k.prev l) n
  let prev := Function.update k.prev n (k.prev l)
  { next := Function.update next n l, prev := Function.update prev l n }

/-- `n` is linked behind `l`. -/
def insertAfter (k : Links ν) (l n : ν) : Links ν :=
  let prev := Function.update k.prev (k.next l) n
  let next := Function.update k.next n (k.next l)
  { next := Function.update next l n, prev := Function.update prev n l }

/-- `n` is taken out of its list. -/
def remove (k : Links ν) (n : ν) : Links ν :=
  let prev := Function.update k.prev (k.next n) (k.prev n)
  let next := Function.update k.next (prev n) (k.next n)
  { next := Function.update next n n, prev := Function.update prev n n }

/-- `n` is passed over; its own links stay as they are. -/
def bypass (k : Links ν) (n : ν) : Links ν where
  next := Function.update k.next (k.prev n) (k.next n)
  prev := Function.update k.prev (k.next n) (k.prev n)

end Links

/-! ## Segments -/

section

variable {ν : Type*}

/-- From `a` the links lead through `list` to `b`, and back. -/
def Segment (k : Links ν) : ν → List ν → ν → Prop
  | a, [], b => k.next a = b ∧ k.prev b = a
  | a, x :: list, b => (k.next a = x ∧ k.prev x = a) ∧ Segment k x list b

namespace Segment

variable {k k' : Links ν} {a b x y n : ν} {list front rest : List ν}

/-- A segment is cut at any node of it. -/
theorem append_iff : Segment k a (front ++ x :: rest) b ↔
    Segment k a front x ∧ Segment k x rest b := by
  induction front generalizing a with
  | nil => exact Iff.rfl
  | cons z front ih =>
    change _ ∧ Segment k z (front ++ x :: rest) b ↔ (_ ∧ Segment k z front x) ∧ _
    rw [ih]
    exact and_assoc.symm

/-- Links that agree on the nodes of a segment. -/
theorem congr (h : Segment k a list b) (hnext : ∀ z ∈ a :: list, k'.next z = k.next z)
    (hprev : ∀ z ∈ list ++ [b], k'.prev z = k.prev z) : Segment k' a list b := by
  induction list generalizing a with
  | nil =>
    refine ⟨(hnext a List.mem_cons_self).trans h.1, ?_⟩
    exact (hprev b (List.mem_singleton_self b)).trans h.2
  | cons x list ih =>
    refine ⟨⟨(hnext a List.mem_cons_self).trans h.1.1, ?_⟩, ih h.2 ?_ ?_⟩
    · exact (hprev x List.mem_cons_self).trans h.1.2
    · exact fun z hz => hnext z (List.mem_cons_of_mem a hz)
    · exact fun z hz => hprev z (List.mem_cons_of_mem x hz)

/-- The links of a segment do not leave it. -/
theorem next_mem (h : Segment k a list b) {z : ν} (hz : z ∈ a :: list) :
    k.next z ∈ list ++ [b] := by
  induction list generalizing a with
  | nil =>
    obtain rfl := List.mem_singleton.mp hz
    rw [h.1]
    exact List.mem_singleton_self b
  | cons x list ih =>
    rcases List.mem_cons.mp hz with rfl | hz
    · rw [h.1.1]
      exact List.mem_cons_self
    · exact List.mem_cons_of_mem x (ih h.2 hz)

/-- The links behind a segment stay in it. -/
theorem prev_mem (h : Segment k a list b) {z : ν} (hz : z ∈ list ++ [b]) :
    k.prev z ∈ a :: list := by
  induction list generalizing a with
  | nil =>
    obtain rfl := List.mem_singleton.mp hz
    rw [h.2]
    exact List.mem_singleton_self a
  | cons x list ih =>
    rcases List.mem_cons.mp hz with rfl | hz
    · rw [h.1.2]
      exact List.mem_cons_self
    · exact List.mem_cons_of_mem a (ih h.2 hz)

/-- The last link of a segment is led to another node. -/
theorem retarget (h : Segment k a list x) (hnodup : (a :: list).Nodup)
    (hnext : ∀ z ∈ a :: list, z ≠ k.prev x → k'.next z = k.next z)
    (hprev : ∀ z ∈ list, k'.prev z = k.prev z) (hto : k'.next (k.prev x) = y)
    (hback : k'.prev y = k.prev x) : Segment k' a list y := by
  induction list generalizing a with
  | nil =>
    rw [h.2] at hto hback
    exact ⟨hto, hback⟩
  | cons z list ih =>
    obtain ⟨hout, hnodup⟩ := List.nodup_cons.mp hnodup
    have hlast : k.prev x ∈ z :: list :=
      h.2.prev_mem (List.mem_append_right list (List.mem_singleton_self x))
    have hne : a ≠ k.prev x := fun heq => hout (heq ▸ hlast)
    refine ⟨⟨(hnext a List.mem_cons_self hne).trans h.1.1, ?_⟩, ih h.2 hnodup ?_ ?_⟩
    · exact (hprev z List.mem_cons_self).trans h.1.2
    · exact fun v hv => hnext v (List.mem_cons_of_mem a hv)
    · exact fun v hv => hprev v (List.mem_cons_of_mem z hv)

variable [DecidableEq ν]

/-- A node unlinked leaves the others a segment. -/
theorem remove (h : Segment k a (front ++ x :: rest) b)
    (hnodup : (a :: (front ++ x :: rest)).Nodup) (hb : b ∉ front ++ x :: rest) :
    Segment (k.remove x) a (front ++ rest) b := by
  obtain ⟨hfront, hrest⟩ := append_iff.mp h
  have hsplit : ((a :: front) ++ x :: rest).Nodup := hnodup
  obtain ⟨hfrontNodup, hrestNodup, hdisjoint⟩ := List.nodup_append.mp hsplit
  have hxfront : ∀ z ∈ a :: front, z ≠ x := fun z hz => hdisjoint z hz x List.mem_cons_self
  have hp : k.prev x ∈ a :: front :=
    hfront.prev_mem (List.mem_append_right front (List.mem_singleton_self x))
  have hbx : b ≠ x := fun heq => hb (heq ▸ List.mem_append_right front List.mem_cons_self)
  -- what the links are afterwards
  have hself : Function.update k.prev (k.next x) (k.prev x) x = k.prev x := by
    by_cases heq : x = k.next x
    · rw [← heq, Function.update_self]
    · rw [Function.update_of_ne heq]
  have hnext {z : ν} (hz : z ≠ x) (hzp : z ≠ k.prev x) : (k.remove x).next z = k.next z := by
    dsimp only [Links.remove]
    rw [hself, Function.update_of_ne hz, Function.update_of_ne hzp]
  have hto : (k.remove x).next (k.prev x) = k.next x := by
    dsimp only [Links.remove]
    rw [hself, Function.update_of_ne (hxfront _ hp), Function.update_self]
  have hprev {z : ν} (hz : z ≠ x) (hzn : z ≠ k.next x) : (k.remove x).prev z = k.prev z := by
    dsimp only [Links.remove]
    rw [Function.update_of_ne hz, Function.update_of_ne hzn]
  have hback (hne : k.next x ≠ x) : (k.remove x).prev (k.next x) = k.prev x := by
    dsimp only [Links.remove]
    rw [Function.update_of_ne hne, Function.update_self]
  cases rest with
  | nil =>
    rw [List.append_nil]
    have hx : k.next x = b := hrest.1
    refine hfront.retarget hfrontNodup (fun z hz => hnext (hxfront z hz)) ?_ (hto.trans hx) ?_
    · intro z hz
      have hzb : z ≠ k.next x := by
        rintro rfl
        exact hb (List.mem_append_left _ (hx ▸ hz))
      exact hprev (hxfront z (List.mem_cons_of_mem a hz)) hzb
    · rw [← hx]
      exact hback (hx ▸ hbx)
  | cons y rest =>
    have hx : k.next x = y := hrest.1.1
    have hyx : y ≠ x := fun heq =>
      (List.nodup_cons.mp hrestNodup).1 (heq ▸ List.mem_cons_self)
    have hyfront : ∀ z ∈ a :: front, z ≠ y := fun z hz =>
      hdisjoint z hz y (List.mem_cons_of_mem x List.mem_cons_self)
    refine append_iff.mpr ⟨?_, hrest.2.congr ?_ ?_⟩
    · refine hfront.retarget hfrontNodup (fun z hz => hnext (hxfront z hz)) ?_ (hto.trans hx) ?_
      · intro z hz
        have hz := List.mem_cons_of_mem a hz
        exact hprev (hxfront z hz) (hx ▸ hyfront z hz)
      · rw [← hx]
        exact hback (hx ▸ hyx)
    · intro z hz
      have hzrest : z ∈ x :: y :: rest := List.mem_cons_of_mem x hz
      refine hnext ?_ ?_
      · exact fun heq => (List.nodup_cons.mp hrestNodup).1 (heq ▸ hz)
      · exact fun heq => hdisjoint _ hp z hzrest heq.symm
    · intro z hz
      rcases List.mem_append.mp hz with hz | hz
      · have hnotx : z ≠ x := fun heq =>
          (List.nodup_cons.mp hrestNodup).1 (heq ▸ List.mem_cons_of_mem y hz)
        have hnoty : z ≠ y := fun heq =>
          (List.nodup_cons.mp (List.nodup_cons.mp hrestNodup).2).1 (heq ▸ hz)
        exact hprev hnotx (hx ▸ hnoty)
      · obtain rfl := List.mem_singleton.mp hz
        have hnoty : z ≠ y := fun heq => hb (List.mem_append_right front
          (List.mem_cons_of_mem x (heq ▸ List.mem_cons_self)))
        exact hprev hbx (hx ▸ hnoty)

/-- A new node in front of the end. -/
theorem insertBefore_end (h : Segment k a list b) (hnodup : (a :: list).Nodup) (hb : b ∉ list)
    (hn : n ∉ a :: list) (hnb : n ≠ b) : Segment (k.insertBefore b n) a (list ++ [n]) b := by
  have hp : k.prev b ∈ a :: list :=
    h.prev_mem (List.mem_append_right list (List.mem_singleton_self b))
  have hpn : k.prev b ≠ n := fun heq => hn (heq ▸ hp)
  have hout {z : ν} (hz : z ∈ a :: list) : z ≠ n := fun heq => hn (heq ▸ hz)
  refine append_iff.mpr ⟨h.retarget hnodup ?_ ?_ ?_ ?_, ?_, ?_⟩
  · intro z hz hzp
    exact (Function.update_of_ne (hout hz) ..).trans (Function.update_of_ne hzp ..)
  · intro z hz
    have hzb : z ≠ b := fun heq => hb (heq ▸ hz)
    refine (Function.update_of_ne hzb ..).trans (Function.update_of_ne ?_ ..)
    exact hout (List.mem_cons_of_mem a hz)
  · exact (Function.update_of_ne hpn ..).trans (Function.update_self ..)
  · exact (Function.update_of_ne hnb ..).trans (Function.update_self ..)
  · exact Function.update_self ..
  · exact Function.update_self ..

/-- A new node in front of one that is there. -/
theorem insertBefore (h : Segment k a (front ++ x :: rest) b)
    (hnodup : (a :: (front ++ x :: rest)).Nodup) (hb : b ∉ front ++ x :: rest)
    (hn : n ∉ a :: (front ++ x :: rest)) (hnb : n ≠ b) :
    Segment (k.insertBefore x n) a (front ++ n :: x :: rest) b := by
  obtain ⟨hfront, hrest⟩ := append_iff.mp h
  have hsplit : ((a :: front) ++ x :: rest).Nodup := hnodup
  obtain ⟨hfrontNodup, hrestNodup, hdisjoint⟩ := List.nodup_append.mp hsplit
  have hxfront : x ∉ front := fun hmem =>
    hdisjoint x (List.mem_cons_of_mem a hmem) x List.mem_cons_self rfl
  have hnsplit : n ∉ (a :: front) ++ x :: rest := hn
  have hnfront : n ∉ a :: front := fun hmem => hnsplit (List.mem_append_left _ hmem)
  have hnrest {z : ν} (hz : z ∈ x :: rest) : z ≠ n := fun heq =>
    hnsplit (List.mem_append_right _ (heq ▸ hz))
  have hnx : n ≠ x := (hnrest List.mem_cons_self).symm
  have hp : k.prev x ∈ a :: front :=
    hfront.prev_mem (List.mem_append_right front (List.mem_singleton_self x))
  -- up to `x` it is a new node in front of the end
  have hend := hfront.insertBefore_end hfrontNodup hxfront hnfront hnx
  have hjoined : Segment (k.insertBefore x n) a ((front ++ [n]) ++ x :: rest) b := by
    refine append_iff.mpr ⟨hend, hrest.congr ?_ ?_⟩
    · intro z hz
      refine (Function.update_of_ne (hnrest hz) ..).trans (Function.update_of_ne ?_ ..)
      exact fun heq => hdisjoint _ hp z hz heq.symm
    · intro z hz
      have hzx : z ≠ x := by
        rcases List.mem_append.mp hz with hz | hz
        · exact fun heq => (List.nodup_cons.mp hrestNodup).1 (heq ▸ hz)
        · obtain rfl := List.mem_singleton.mp hz
          exact fun heq => hb (heq ▸ List.mem_append_right front List.mem_cons_self)
      have hzn : z ≠ n := by
        rcases List.mem_append.mp hz with hz | hz
        · exact hnrest (List.mem_cons_of_mem x hz)
        · obtain rfl := List.mem_singleton.mp hz
          exact hnb.symm
      exact (Function.update_of_ne hzx ..).trans (Function.update_of_ne hzn ..)
  rwa [List.append_assoc] at hjoined

/-- A new node behind the start is one in front of the node that follows. -/
theorem insertAfter_eq (h : Segment k a list b) (hn : n ∉ a :: list) (hnb : n ≠ b) :
    k.insertAfter a n = k.insertBefore (k.next a) n := by
  have hback : k.prev (k.next a) = a := by
    cases list with
    | nil =>
      rw [h.1]
      exact h.2
    | cons x list =>
      rw [h.1.1]
      exact h.1.2
  have hna : n ≠ a := fun heq => hn (heq ▸ List.mem_cons_self)
  have hnext : n ≠ k.next a := by
    intro heq
    rcases List.mem_append.mp (h.next_mem List.mem_cons_self) with hmem | hmem
    · exact hn (List.mem_cons_of_mem a (heq ▸ hmem))
    · exact hnb (heq.trans (List.mem_singleton.mp hmem))
  unfold Links.insertAfter Links.insertBefore
  dsimp only
  rw [hback, Function.update_comm hna, Function.update_comm hnext]

/-- A new node behind the start. -/
theorem insertAfter (h : Segment k a list b) (hnodup : (a :: list).Nodup) (hb : b ∉ list)
    (hn : n ∉ a :: list) (hnb : n ≠ b) : Segment (k.insertAfter a n) a (n :: list) b := by
  rw [h.insertAfter_eq hn hnb]
  cases list with
  | nil =>
    have hnext : k.next a = b := h.1
    rw [hnext]
    exact h.insertBefore_end hnodup hb hn hnb
  | cons x list =>
    have hnext : k.next a = x := h.1.1
    rw [hnext]
    have hfirst : Segment k a ([] ++ x :: list) b := h
    exact hfirst.insertBefore hnodup hb hn hnb

/-- A node is passed over. Outside of it the links are those of one that is taken out. -/
theorem bypass (h : Segment k a (front ++ x :: rest) b)
    (hnodup : (a :: (front ++ x :: rest)).Nodup) (hb : b ∉ front ++ x :: rest) :
    Segment (k.bypass x) a (front ++ rest) b := by
  have hperm : (a :: (front ++ x :: rest)).Perm (x :: a :: (front ++ rest)) :=
    (List.perm_middle.cons a).trans (.swap x a _)
  have hout := (List.nodup_cons.mp (hperm.nodup_iff.mp hnodup)).1
  have hbx : b ≠ x := fun heq => hb (heq ▸ List.mem_append_right front List.mem_cons_self)
  have hself : Function.update k.prev (k.next x) (k.prev x) x = k.prev x := by
    by_cases heq : x = k.next x
    · rw [← heq, Function.update_self]
    · rw [Function.update_of_ne heq]
  refine (h.remove hnodup hb).congr (fun z hz => ?_) fun z hz => ?_
  · have hzx : z ≠ x := fun heq => hout (heq ▸ hz)
    dsimp only [Links.remove, Links.bypass]
    rw [hself, Function.update_of_ne hzx]
  · have hzx : z ≠ x := by
      rcases List.mem_append.mp hz with hz | hz
      · exact fun heq => hout (heq ▸ List.mem_cons_of_mem a hz)
      · exact List.mem_singleton.mp hz ▸ hbx
    dsimp only [Links.remove, Links.bypass]
    rw [Function.update_of_ne hzx]

/-- A new node behind one that is there. -/
theorem insertAfter_mid (h : Segment k a (front ++ x :: rest) b)
    (hnodup : (a :: (front ++ x :: rest)).Nodup) (hb : b ∉ front ++ x :: rest)
    (hn : n ∉ a :: (front ++ x :: rest)) (hnb : n ≠ b) :
    Segment (k.insertAfter x n) a (front ++ x :: n :: rest) b := by
  obtain ⟨hfront, hrest⟩ := append_iff.mp h
  have hsplit : ((a :: front) ++ x :: rest).Nodup := hnodup
  obtain ⟨-, hrestNodup, hdisjoint⟩ := List.nodup_append.mp hsplit
  have hnsplit : n ∉ (a :: front) ++ x :: rest := hn
  have hbrest : b ∉ rest := fun hmem =>
    hb (List.mem_append_right front (List.mem_cons_of_mem x hmem))
  have hnrest : n ∉ x :: rest := fun hmem => hnsplit (List.mem_append_right _ hmem)
  have hnext : k.next x ∈ rest ++ [b] := hrest.next_mem List.mem_cons_self
  refine append_iff.mpr ⟨hfront.congr (fun z hz => ?_) fun z hz => ?_,
    hrest.insertAfter hrestNodup hbrest hnrest hnb⟩
  · have hzx : z ≠ x := hdisjoint z hz x List.mem_cons_self
    have hzn : z ≠ n := fun heq => hnsplit (List.mem_append_left _ (heq ▸ hz))
    exact (Function.update_of_ne hzx ..).trans (Function.update_of_ne hzn ..)
  · have hmem : z ∈ front ++ x :: rest := by
      rcases List.mem_append.mp hz with hz | hz
      · exact List.mem_append_left _ hz
      · exact List.mem_append_right _ (List.mem_singleton.mp hz ▸ List.mem_cons_self)
    have hzn : z ≠ n := fun heq => hn (List.mem_cons_of_mem a (heq ▸ hmem))
    have hznext : z ≠ k.next x := by
      intro heq
      rw [← heq] at hnext
      rcases List.mem_append.mp hnext with hin | hin
      · rcases List.mem_append.mp hz with hz | hz
        · exact hdisjoint z (List.mem_cons_of_mem a hz) z (List.mem_cons_of_mem x hin) rfl
        · exact (List.nodup_cons.mp hrestNodup).1 (List.mem_singleton.mp hz ▸ hin)
      · exact hb (List.mem_singleton.mp hin ▸ hmem)
    exact (Function.update_of_ne hzn ..).trans (Function.update_of_ne hznext ..)

end Segment

end

/-! ## Rings -/

section

variable {η τ : Type*}

/-- The links are the lists: a ring through each head, and every other item a ring of its own. -/
structure Rings (k : Links (η ⊕ τ)) (q : η → List τ) : Prop where
  ring : ∀ h, Segment k (.inl h) ((q h).map .inr) (.inl h)
  nodup : ∀ h, (q h).Nodup
  apart : ∀ h h' t, t ∈ q h → t ∈ q h' → h = h'
  loose : ∀ t, (∀ h, t ∉ q h) → k.next (.inr t) = .inr t ∧ k.prev (.inr t) = .inr t

/-- What a walk along the links from a head finds. -/
inductive Listed (k : Links (η ⊕ τ)) (h : η) : τ → Prop
  | first {t : τ} : k.next (.inl h) = .inr t → Listed k h t
  | next {t u : τ} : Listed k h t → k.next (.inr t) = .inr u → Listed k h u

namespace Rings

variable {k k' : Links (η ⊕ τ)} {q : η → List τ} {h : η} {t u : τ} {front rest : List τ}

/-- The nodes of a ring. -/
def nodes (h : η) (list : List τ) : List (η ⊕ τ) := .inl h :: list.map .inr

/-- The only head of a list is its own. -/
theorem mem_nodes_inl {list : List τ} {h' : η} :
    (.inl h' : η ⊕ τ) ∈ nodes h list ↔ h' = h := by
  simp only [nodes, List.mem_cons, Sum.inl.injEq, List.mem_map, reduceCtorEq, and_false,
    exists_false, or_false]

theorem mem_nodes_inr {list : List τ} : (.inr t : η ⊕ τ) ∈ nodes h list ↔ t ∈ list := by
  simp only [nodes, List.mem_cons, reduceCtorEq, List.mem_map, Sum.inr.injEq, exists_eq_right,
    false_or]

theorem nodup_nodes {list : List τ} (hnodup : list.Nodup) : (nodes h list).Nodup := by
  refine List.nodup_cons.mpr ⟨?_, hnodup.map Sum.inr_injective⟩
  simp only [List.mem_map, reduceCtorEq, and_false, exists_false, not_false_eq_true]

theorem head_not_mem (list : List τ) : (.inl h : η ⊕ τ) ∉ list.map .inr := by
  simp only [List.mem_map, reduceCtorEq, and_false, exists_false, not_false_eq_true]

/-- The first item behind a head. -/
theorem next_head (hr : Rings k q) (h : η) :
    k.next (.inl h) = ((q h).head?.map .inr).getD (.inl h) := by
  have hring := hr.ring h
  cases hq : q h with
  | nil =>
    rw [hq] at hring
    exact hring.1
  | cons t rest =>
    rw [hq] at hring
    exact hring.1.1

/-- A head that points to itself has an empty list. -/
theorem isEmpty_iff (hr : Rings k q) : k.next (.inl h) = .inl h ↔ q h = [] := by
  rw [hr.next_head]
  cases hq : q h with
  | nil => exact iff_of_true rfl rfl
  | cons t rest =>
    refine iff_of_false ?_ (List.cons_ne_nil t rest)
    exact fun heq => by cases heq

/-- A ring does not lead out of its nodes. -/
theorem next_mem (hr : Rings k q) {v : η ⊕ τ} (hv : v ∈ nodes h (q h)) :
    k.next v ∈ nodes h (q h) := by
  rcases List.mem_append.mp ((hr.ring h).next_mem hv) with hmem | hmem
  · exact List.mem_cons_of_mem _ hmem
  · rw [List.mem_singleton.mp hmem]
    exact List.mem_cons_self

/-- The links of a list stay in it. -/
theorem prev_mem (hr : Rings k q) {v : η ⊕ τ} (hv : v ∈ nodes h (q h)) :
    k.prev v ∈ nodes h (q h) := by
  apply (hr.ring h).prev_mem
  rcases List.mem_cons.mp hv with rfl | hmem
  · exact List.mem_append_right _ (List.mem_singleton_self _)
  · exact List.mem_append_left _ hmem

/-- Along a ring a walk finds what is in it. -/
theorem listed_of_segment {b : η ⊕ τ} {list : List τ}
    (hseg : Segment k (.inr u) (list.map .inr) b) (hu : Listed k h u) (ht : t ∈ list) :
    Listed k h t := by
  induction list generalizing u with
  | nil => cases ht
  | cons v list ih =>
    have hv : Listed k h v := .next hu hseg.1.1
    rcases List.mem_cons.mp ht with rfl | ht
    · exact hv
    · exact ih hseg.2 hv ht

/-- What a walk from a head finds is its list. -/
theorem listed_iff (hr : Rings k q) : Listed k h t ↔ t ∈ q h := by
  constructor
  · intro hlisted
    induction hlisted with
    | first hnext =>
      have hmem := hr.next_mem (h := h) List.mem_cons_self
      rw [hnext] at hmem
      exact mem_nodes_inr.mp hmem
    | next _ hnext ih =>
      have hmem := hr.next_mem (mem_nodes_inr.mpr ih)
      rw [hnext] at hmem
      exact mem_nodes_inr.mp hmem
  · intro ht
    have hring := hr.ring h
    cases hq : q h with
    | nil =>
      rw [hq] at ht
      cases ht
    | cons u rest =>
      rw [hq] at ht hring
      have hu : Listed k h u := .first hring.1.1
      rcases List.mem_cons.mp ht with rfl | ht
      · exact hu
      · exact listed_of_segment hring.2 hu ht

/-- An item that points to itself is in no list. -/
theorem next_self_iff (hr : Rings k q) : k.next (.inr t) = .inr t ↔ ∀ h, t ∉ q h := by
  refine ⟨fun hself h hmem => ?_, fun ht => (hr.loose t ht).1⟩
  obtain ⟨front, rest, hq⟩ := List.append_of_mem hmem
  have hring := hr.ring h
  have hnodup := hr.nodup h
  rw [hq, List.map_append, List.map_cons] at hring
  rw [hq] at hnodup
  have hnext := (Segment.append_iff.mp hring).2
  cases rest with
  | nil =>
    rw [hnext.1] at hself
    cases hself
  | cons u rest =>
    rw [hnext.1.1] at hself
    obtain rfl := Sum.inr.inj hself
    exact (List.nodup_cons.mp (List.nodup_append.mp hnodup).2.1).1 List.mem_cons_self

/-- A change of one list by one item: the new ring, and links that are what they were elsewhere. -/
theorem replace [DecidableEq η] (hr : Rings k q) {list : List τ}
    (hring : Segment k' (.inl h) (list.map .inr) (.inl h)) (hnodup : list.Nodup)
    (hmem : ∀ u, u ≠ t → (u ∈ list ↔ u ∈ q h)) (hapart : ∀ h', h' ≠ h → t ∉ q h')
    (hout : ∀ v, v ∉ nodes h (q h) → v ≠ .inr t → k'.next v = k.next v ∧ k'.prev v = k.prev v)
    (hloose : t ∉ list → k'.next (.inr t) = .inr t ∧ k'.prev (.inr t) = .inr t) :
    Rings k' (Function.update q h list) := by
  have helsewhere {h' : η} (hne : h' ≠ h) {v : η ⊕ τ} (hv : v ∈ nodes h' (q h')) :
      k'.next v = k.next v ∧ k'.prev v = k.prev v := by
    cases v with
    | inl h'' =>
      obtain rfl := mem_nodes_inl.mp hv
      exact hout _ (mt mem_nodes_inl.mp hne) (fun heq => by cases heq)
    | inr u =>
      have hu := mem_nodes_inr.mp hv
      refine hout _ (fun hu' => hne (hr.apart _ _ u hu (mem_nodes_inr.mp hu'))) ?_
      rintro heq
      cases heq
      exact hapart h' hne hu
  have hlists (h' : η) (u : τ) (hu : u ∈ Function.update q h list h') :
      h' = h ∧ u ∈ list ∨ h' ≠ h ∧ u ∈ q h' := by
    by_cases hh : h' = h
    · subst hh
      rw [Function.update_self] at hu
      exact Or.inl ⟨rfl, hu⟩
    · rw [Function.update_of_ne hh] at hu
      exact Or.inr ⟨hh, hu⟩
  have hnot {h' : η} {u : τ} (hh : h' ≠ h) (hu : u ∈ q h') (hlist : u ∈ list) : False := by
    by_cases hut : u = t
    · subst hut
      exact hapart h' hh hu
    · exact hh (hr.apart _ _ u hu ((hmem u hut).mp hlist))
  constructor
  case ring =>
    intro h'
    by_cases hh : h' = h
    · subst hh
      rw [Function.update_self]
      exact hring
    · rw [Function.update_of_ne hh]
      refine (hr.ring h').congr (fun v hv => (helsewhere hh hv).1) fun v hv => ?_
      refine (helsewhere hh ?_).2
      rcases List.mem_append.mp hv with hv | hv
      · exact List.mem_cons_of_mem _ hv
      · rw [List.mem_singleton.mp hv]
        exact List.mem_cons_self
  case nodup =>
    intro h'
    by_cases hh : h' = h
    · subst hh
      rw [Function.update_self]
      exact hnodup
    · rw [Function.update_of_ne hh]
      exact hr.nodup h'
  case apart =>
    intro h₁ h₂ u hu₁ hu₂
    rcases hlists h₁ u hu₁ with ⟨heq₁, hin₁⟩ | ⟨hh₁, hin₁⟩
    · rcases hlists h₂ u hu₂ with ⟨heq₂, -⟩ | ⟨hh₂, hin₂⟩
      · exact heq₁.trans heq₂.symm
      · exact (hnot hh₂ hin₂ hin₁).elim
    · rcases hlists h₂ u hu₂ with ⟨-, hin₂⟩ | ⟨-, hin₂⟩
      · exact (hnot hh₁ hin₁ hin₂).elim
      · exact hr.apart _ _ u hin₁ hin₂
  case loose =>
    intro u hu
    have hulist : u ∉ list := by
      have hh := hu h
      rwa [Function.update_self] at hh
    by_cases hut : u = t
    · subst hut
      exact hloose hulist
    · have huq : ∀ h', u ∉ q h' := by
        intro h' hmem'
        by_cases hh : h' = h
        · subst hh
          exact hulist ((hmem u hut).mpr hmem')
        · have hh' := hu h'
          rw [Function.update_of_ne hh] at hh'
          exact hh' hmem'
      have hsame := hout (.inr u) (fun hmem' => huq h (mem_nodes_inr.mp hmem'))
        (fun heq => hut (Sum.inr.inj heq))
      exact ⟨hsame.1.trans (hr.loose u huq).1, hsame.2.trans (hr.loose u huq).2⟩

variable [DecidableEq η] [DecidableEq τ]

/-- An item in no list may be taken out again. -/
theorem remove_loose (hr : Rings k q) (ht : ∀ h, t ∉ q h) : k.remove (.inr t) = k := by
  obtain ⟨hnext, hprev⟩ := hr.loose t ht
  have hself (f : η ⊕ τ → η ⊕ τ) (hf : f (.inr t) = .inr t) :
      Function.update f (.inr t) (.inr t) = f := by
    conv_lhs => rw [← hf]
    rw [hf, Function.update_eq_self_iff]
    exact hf.symm
  unfold Links.remove
  dsimp only
  rw [hnext, hprev, hself k.prev hprev, hprev, hself k.next hnext, hself k.next hnext,
    hself k.prev hprev]

/-- An item is taken out of the list it is in. -/
theorem remove (hr : Rings k q) (t : τ) :
    Rings (k.remove (.inr t)) fun h => (q h).erase t := by
  by_cases hin : ∃ h, t ∈ q h
  · obtain ⟨h, ht⟩ := hin
    have helse : ∀ h', h' ≠ h → t ∉ q h' := fun h' hne hmem => hne (hr.apart _ _ t hmem ht)
    have herase : (fun h => (q h).erase t) = Function.update q h ((q h).erase t) := by
      funext h'
      by_cases hh : h' = h
      · subst hh
        rw [Function.update_self]
      · rw [Function.update_of_ne hh, List.erase_of_not_mem (helse h' hh)]
    rw [herase]
    have hnodup := hr.nodup h
    obtain ⟨front, rest, hq⟩ := List.append_of_mem ht
    have hring := hr.ring h
    have hnodes := nodup_nodes (h := h) hnodup
    have hhead : (.inl h : η ⊕ τ) ∉ (q h).map .inr := head_not_mem (q h)
    have hout : t ∉ front := by
      intro hmem
      rw [hq] at hnodup
      exact (List.nodup_append.mp hnodup).2.2 t hmem t List.mem_cons_self rfl
    have hlist : (q h).erase t = front ++ rest := by
      rw [hq, List.erase_append_right _ hout, List.erase_cons_head]
    refine hr.replace (t := t) ?_ (hnodup.erase t) ?_ helse ?_ ?_
    · rw [hlist, List.map_append]
      unfold nodes at hnodes
      rw [hq, List.map_append, List.map_cons] at hring hnodes hhead
      exact hring.remove hnodes hhead
    · exact fun u hu => List.mem_erase_of_ne hu
    · intro v hv hvt
      have htnode : (.inr t : η ⊕ τ) ∈ nodes h (q h) := mem_nodes_inr.mpr ht
      have hvnext : v ≠ k.next (.inr t) := fun heq => hv (heq ▸ hr.next_mem htnode)
      have hvprev : v ≠ k.prev (.inr t) := fun heq => hv (heq ▸ hr.prev_mem htnode)
      constructor
      · refine (Function.update_of_ne hvt ..).trans (Function.update_of_ne ?_ ..)
        by_cases hself : (.inr t : η ⊕ τ) = k.next (.inr t)
        · rw [← hself, Function.update_self]
          exact hvprev
        · rw [Function.update_of_ne hself]
          exact hvprev
      · exact (Function.update_of_ne hvt ..).trans (Function.update_of_ne hvnext ..)
    · exact fun _ => ⟨Function.update_self .., Function.update_self ..⟩
  · have hloose : ∀ h, t ∉ q h := fun h hmem => hin ⟨h, hmem⟩
    have herase : (fun h => (q h).erase t) = q :=
      funext fun h => List.erase_of_not_mem (hloose h)
    rw [herase, hr.remove_loose hloose]
    exact hr

/-- What an insertion in front of a node of a ring leaves as it is. -/
theorem insertBefore_out (hr : Rings k q) {x v : η ⊕ τ} (hx : x ∈ nodes h (q h))
    (hv : v ∉ nodes h (q h)) (hvt : v ≠ .inr t) :
    (k.insertBefore x (.inr t)).next v = k.next v ∧
      (k.insertBefore x (.inr t)).prev v = k.prev v := by
  have hvx : v ≠ x := fun heq => hv (heq ▸ hx)
  have hvprev : v ≠ k.prev x := fun heq => hv (heq ▸ hr.prev_mem hx)
  constructor
  · exact (Function.update_of_ne hvt ..).trans (Function.update_of_ne hvprev ..)
  · exact (Function.update_of_ne hvx ..).trans (Function.update_of_ne hvt ..)

/-- A loose item is put in front of an item of a list. -/
theorem insert (hr : Rings k q) (ht : ∀ h, t ∉ q h) (hq : q h = front ++ u :: rest) :
    Rings (k.insertBefore (.inr u) (.inr t)) (Function.update q h (front ++ t :: u :: rest)) := by
  have hnodup := hr.nodup h
  have hring := hr.ring h
  have hnodes := nodup_nodes (h := h) hnodup
  have hhead : (.inl h : η ⊕ τ) ∉ (q h).map .inr := head_not_mem (q h)
  have hnew : (.inr t : η ⊕ τ) ∉ nodes h (q h) := mt mem_nodes_inr.mp (ht h)
  have hu : (.inr u : η ⊕ τ) ∈ nodes h (q h) :=
    mem_nodes_inr.mpr (hq ▸ List.mem_append_right front List.mem_cons_self)
  have hperm : (front ++ t :: u :: rest).Perm (t :: q h) := by
    rw [hq]
    exact List.perm_middle
  refine hr.replace (t := t) ?_ ?_ ?_ (fun h' _ => ht h') ?_ ?_
  · unfold nodes at hnodes hnew
    rw [hq, List.map_append, List.map_cons] at hring hnodes hhead hnew
    rw [List.map_append, List.map_cons, List.map_cons]
    exact hring.insertBefore hnodes hhead hnew (fun heq => by cases heq)
  · exact hperm.nodup_iff.mpr (List.nodup_cons.mpr ⟨ht h, hnodup⟩)
  · intro v hv
    rw [hperm.mem_iff, List.mem_cons]
    exact or_iff_right hv
  · exact fun v hv hvt => hr.insertBefore_out hu hv hvt
  · exact fun hout => absurd (hperm.mem_iff.mpr List.mem_cons_self) hout

/-- A loose item is put at the end of a list. -/
theorem pushBack (hr : Rings k q) (ht : ∀ h, t ∉ q h) (h : η) :
    Rings (k.insertBefore (.inl h) (.inr t)) (Function.update q h (q h ++ [t])) := by
  have hnew : (.inr t : η ⊕ τ) ∉ nodes h (q h) := mt mem_nodes_inr.mp (ht h)
  have hperm : (q h ++ [t]).Perm (t :: q h) := List.perm_append_singleton t (q h)
  refine hr.replace (t := t) ?_ ?_ ?_ (fun h' _ => ht h') ?_ ?_
  · rw [List.map_append, List.map_singleton]
    exact (hr.ring h).insertBefore_end (nodup_nodes (hr.nodup h)) (head_not_mem (q h)) hnew
      (fun heq => by cases heq)
  · exact hperm.nodup_iff.mpr (List.nodup_cons.mpr ⟨ht h, hr.nodup h⟩)
  · intro v hv
    rw [hperm.mem_iff, List.mem_cons]
    exact or_iff_right hv
  · exact fun v hv hvt => hr.insertBefore_out List.mem_cons_self hv hvt
  · exact fun hout => absurd (hperm.mem_iff.mpr List.mem_cons_self) hout

/-- A loose item is put at the front of a list. -/
theorem pushFront (hr : Rings k q) (ht : ∀ h, t ∉ q h) (h : η) :
    Rings (k.insertAfter (.inl h) (.inr t)) (Function.update q h (t :: q h)) := by
  have hnew : (.inr t : η ⊕ τ) ∉ nodes h (q h) := mt mem_nodes_inr.mp (ht h)
  have hhead : (.inr t : η ⊕ τ) ≠ .inl h := fun heq => by cases heq
  refine hr.replace (t := t) ?_ ?_ ?_ (fun h' _ => ht h') ?_ ?_
  · exact (hr.ring h).insertAfter (nodup_nodes (hr.nodup h)) (head_not_mem (q h)) hnew hhead
  · exact List.nodup_cons.mpr ⟨ht h, hr.nodup h⟩
  · intro v hv
    rw [List.mem_cons]
    exact or_iff_right hv
  · intro v hv hvt
    rw [(hr.ring h).insertAfter_eq hnew hhead]
    exact hr.insertBefore_out (hr.next_mem List.mem_cons_self) hv hvt
  · exact fun hout => absurd List.mem_cons_self hout

end Rings

end

end RtVcom.Lib
