/-!
# Objects — calls with answers, and refinement

An object is an initial state and a function that says, for each call, what the call answers and
what it leaves. A run is a list of calls; it answers the list of their answers. `Meets` says that
every call of a run meets a condition in the state it is made in.

One rule relates two objects with the same calls and answers: where a relation of their states is
kept by every call that meets the condition, and such calls answer the same, all runs answer the
same (`run_refines`). Where the abstract object is a queue, a map or a set, this is what it means
that the concrete one is such a container.
-/

namespace RtVcom.Lib

/-- A state and what each call makes of it. -/
structure Object (σ ι ο : Type) where
  init : σ
  call : σ → ι → σ × ο

namespace Object

variable {σ τ ι ο : Type}

/-- The state behind a run and its answers. -/
def run (O : Object σ ι ο) : σ → List ι → σ × List ο
  | s, [] => (s, [])
  | s, i :: is => ((O.run (O.call s i).1 is).1, (O.call s i).2 :: (O.run (O.call s i).1 is).2)

/-- There is an output for each input. -/
theorem length_run (O : Object σ ι ο) (s : σ) (is : List ι) :
    (O.run s is).2.length = is.length := by
  induction is generalizing s with
  | nil => rfl
  | cons i is ih => simp only [run, List.length_cons, ih]

/-- A run is a run and then another. -/
theorem run_append (O : Object σ ι ο) (s : σ) (is js : List ι) :
    O.run s (is ++ js) =
      ((O.run (O.run s is).1 js).1, (O.run s is).2 ++ (O.run (O.run s is).1 js).2) := by
  induction is generalizing s with
  | nil => rfl
  | cons i is ih => simp only [List.cons_append, run, ih]

/-- What a run answers behind its first part. -/
theorem drop_run_append (O : Object σ ι ο) (s : σ) (is js : List ι) :
    (O.run s (is ++ js)).2.drop is.length = (O.run (O.run s is).1 js).2 := by
  rw [run_append, List.drop_left' (O.length_run s is)]

/-- Every call of a run meets `ok` in the state it is made in. -/
def Meets (O : Object σ ι ο) (ok : σ → ι → Prop) : σ → List ι → Prop
  | _, [] => True
  | s, i :: is => ok s i ∧ O.Meets ok (O.call s i).1 is

/-- The condition that every call meets. -/
def anyCall : σ → ι → Prop := fun _ _ => True

/-- Where every call is allowed every run is. -/
theorem meets_anyCall (O : Object σ ι ο) (s : σ) (is : List ι) : O.Meets anyCall s is := by
  induction is generalizing s with
  | nil => trivial
  | cons i is ih => exact ⟨trivial, ih _⟩

instance decidableMeets (O : Object σ ι ο) (ok : σ → ι → Prop) [DecidableRel ok] :
    ∀ (s : σ) (is : List ι), Decidable (O.Meets ok s is)
  | _, [] => isTrue trivial
  | s, i :: is =>
    have := decidableMeets O ok (O.call s i).1 is
    inferInstanceAs (Decidable (ok s i ∧ O.Meets ok (O.call s i).1 is))

/-- The run law: what relates two states, is kept by every call that meets `ok` and makes these
calls answer the same relates the states behind a run, and the runs answer the same. -/
theorem run_refines {O : Object σ ι ο} {A : Object τ ι ο} {ok : σ → ι → Prop} {R : σ → τ → Prop}
    (hcall : ∀ s t i, R s t → ok s i →
      (O.call s i).2 = (A.call t i).2 ∧ R (O.call s i).1 (A.call t i).1)
    {s : σ} {t : τ} (hR : R s t) {is : List ι} (hok : O.Meets ok s is) :
    (O.run s is).2 = (A.run t is).2 ∧ R (O.run s is).1 (A.run t is).1 := by
  induction is generalizing s t with
  | nil => exact ⟨rfl, hR⟩
  | cons i is ih =>
    obtain ⟨hi, hrest⟩ := hok
    obtain ⟨hanswer, hnext⟩ := hcall s t i hR hi
    obtain ⟨hanswers, hlast⟩ := ih hnext hrest
    refine ⟨?_, hlast⟩
    simp only [run, hanswer, hanswers]

/-- The rule for what holds in every state of a run: where the invariant gives it, and a call made
under the invariant keeps both exactly if it meets `ok`, it holds behind every first part of a run
exactly if every call meets `ok`. -/
theorem forall_prefix_iff_meets {O : Object σ ι ο} {ok : σ → ι → Prop} {I P : σ → Prop}
    (hholds : ∀ s, I s → P s) (hcall : ∀ s i, I s → (P (O.call s i).1 ↔ ok s i))
    (hkeeps : ∀ s i, I s → ok s i → I (O.call s i).1) {s : σ} (hinv : I s) (is : List ι) :
    (∀ before, before <+: is → P (O.run s before).1) ↔ O.Meets ok s is := by
  induction is generalizing s with
  | nil =>
    refine iff_of_true (fun before hbefore => ?_) trivial
    rw [List.prefix_nil.mp hbefore]
    exact hholds s hinv
  | cons i is ih =>
    constructor
    · intro hall
      have hok : ok s i := (hcall s i hinv).mp (hall [i] ⟨is, rfl⟩)
      refine ⟨hok, (ih (hkeeps s i hinv hok)).mp fun before hbefore => ?_⟩
      exact hall (i :: before) (List.cons_prefix_cons.mpr ⟨rfl, hbefore⟩)
    · rintro ⟨hok, hrest⟩ before hbefore
      cases before with
      | nil => exact hholds s hinv
      | cons j rest =>
        obtain ⟨rfl, hrestBefore⟩ := List.cons_prefix_cons.mp hbefore
        exact (ih (hkeeps s j hinv hok)).mpr hrest rest hrestBefore

end Object

end RtVcom.Lib
