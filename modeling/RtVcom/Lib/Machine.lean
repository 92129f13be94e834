/-!
# Machines — computed transition systems and their runs

A machine is an initial state and a step function that answers `none` where an
action is not enabled. A run is a list of actions; a state is reached when some
run leads to it. The reach relation takes a side condition `ok` on the steps, so
that "every run" and "every run whose steps all meet a condition" are one notion:
the first is reach under `Machine.any`.

Two rules carry every safety result built on this module. `Reach.invariant`
proves a state property of all reached states from one step, and `reach_of_run`
turns a computed run into a reached state, which is how a concrete schedule is
exhibited.
-/

namespace RtVcom.Lib

/-- A labelled transition system whose steps are computed. -/
structure Machine (σ : Type) (α : Type) where
  init : σ
  step : σ → α → Option σ

namespace Machine

variable {σ α : Type} {M : Machine σ α}

/-- The side condition that every step meets. -/
def any : σ → α → Prop := fun _ _ => True

instance : DecidableRel (any : σ → α → Prop) := fun _ _ => isTrue trivial

/-- The states reached by steps that all meet `ok`, each judged in the state it
is taken in. -/
inductive Reach (M : Machine σ α) (ok : σ → α → Prop) : σ → Prop
  | init : Reach M ok M.init
  | step {s t : σ} {a : α} : Reach M ok s → ok s a → M.step s a = some t → Reach M ok t

/-- The invariant rule: what holds initially and is kept by every step that meets
`ok` holds in every reached state. -/
theorem Reach.invariant {ok : σ → α → Prop} {P : σ → Prop} (hinit : P M.init)
    (hstep : ∀ s a t, P s → ok s a → M.step s a = some t → P t) {s : σ}
    (h : M.Reach ok s) : P s := by
  induction h with
  | init => exact hinit
  | step _ hok hs ih => exact hstep _ _ _ ih hok hs

/-- The invariant rule for an invariant that rests on earlier ones: the state a step is taken in is
a reached one. -/
theorem Reach.invariant_of_reach {ok : σ → α → Prop} {P : σ → Prop} (hinit : P M.init)
    (hstep : ∀ s a t, M.Reach ok s → P s → ok s a → M.step s a = some t → P t) {s : σ}
    (h : M.Reach ok s) : P s := by
  induction h with
  | init => exact hinit
  | step hreach hok hs ih => exact hstep _ _ _ hreach ih hok hs

/-- A weaker side condition reaches more. -/
theorem Reach.mono {ok ok' : σ → α → Prop} (hle : ∀ s a, ok s a → ok' s a) {s : σ}
    (h : M.Reach ok s) : M.Reach ok' s := by
  induction h with
  | init => exact .init
  | step _ hok hs ih => exact .step ih (hle _ _ hok) hs

/-- One action, refused where it does not meet the side condition. -/
def stepIf (M : Machine σ α) (ok : σ → α → Prop) [DecidableRel ok] (s : σ) (a : α) :
    Option σ :=
  if ok s a then M.step s a else none

/-- A run from a given state: the actions in order, stopping at the first one that
is not enabled or does not meet the side condition. -/
def runFrom (M : Machine σ α) (ok : σ → α → Prop) [DecidableRel ok] : σ → List α → Option σ
  | s, [] => some s
  | s, a :: as => (M.stepIf ok s a).bind fun t => M.runFrom ok t as

/-- A guarded step is a step whose guard holds. -/
theorem stepIf_eq_some {ok : σ → α → Prop} [DecidableRel ok] {s t : σ} {a : α} :
    M.stepIf ok s a = some t ↔ ok s a ∧ M.step s a = some t := by
  unfold stepIf
  split
  · next h => simp only [h, true_and]
  · next h => simp only [h, false_and, reduceCtorEq]

/-- A run that starts in a reached state ends in one. -/
theorem Reach.runFrom {ok : σ → α → Prop} [DecidableRel ok] :
    ∀ {as : List α} {s t : σ}, M.Reach ok s → M.runFrom ok s as = some t → M.Reach ok t
  | [], s, t, h, hr => by
    cases hr
    exact h
  | a :: as, s, t, h, hr => by
    obtain ⟨m, hm, hr⟩ := Option.bind_eq_some_iff.mp hr
    obtain ⟨hok, hs⟩ := stepIf_eq_some.mp hm
    exact Reach.runFrom (.step h hok hs) hr

/-- A computed run from the initial state exhibits a reached state. -/
theorem reach_of_run {ok : σ → α → Prop} [DecidableRel ok] {as : List α} {t : σ}
    (h : M.runFrom ok M.init as = some t) : M.Reach ok t :=
  Reach.runFrom .init h

/-- The same for a property that a computed run's last state is checked to have. -/
theorem exists_reach_of_run (M : Machine σ α) (ok : σ → α → Prop) [DecidableRel ok] (as : List α)
    (P : σ → Prop) [DecidablePred P]
    (h : (M.runFrom ok M.init as).any (fun t => decide (P t)) = true) :
    ∃ t, M.Reach ok t ∧ P t := by
  obtain ⟨t, ht, hp⟩ := (Option.any_eq_true _ _).mp h
  exact ⟨t, reach_of_run ht, of_decide_eq_true hp⟩

/-- The rule for what holds in every state of a run: where the invariant gives it, and a step taken
under the invariant leads to it exactly if it meets `ok` and then keeps the invariant, it holds all
along a run exactly if every step of the run meets `ok`. -/
theorem forall_prefix_iff {ok : σ → α → Prop} [DecidableRel ok] {I P : σ → Prop}
    (hholds : ∀ s, I s → P s) (hstep : ∀ s a t, I s → M.step s a = some t → (P t ↔ ok s a))
    (hkeeps : ∀ s a t, I s → ok s a → M.step s a = some t → I t) {as : List α} {s t : σ}
    (hinv : I s) (hrun : M.runFrom any s as = some t) :
    (∀ before u, before <+: as → M.runFrom any s before = some u → P u) ↔
      M.runFrom ok s as = some t := by
  induction as generalizing s with
  | nil =>
    refine iff_of_true (fun before u hbefore hu => ?_) hrun
    rw [List.prefix_nil.mp hbefore] at hu
    cases hu
    exact hholds s hinv
  | cons a as ih =>
    obtain ⟨m, hm, hrest⟩ := Option.bind_eq_some_iff.mp hrun
    obtain ⟨-, hma⟩ := stepIf_eq_some.mp hm
    constructor
    · intro hall
      have hP : P m := hall [a] m ⟨as, rfl⟩ (Option.bind_eq_some_iff.mpr ⟨m, hm, rfl⟩)
      have hok := (hstep s a m hinv hma).mp hP
      refine Option.bind_eq_some_iff.mpr ⟨m, stepIf_eq_some.mpr ⟨hok, hma⟩, ?_⟩
      refine (ih (hkeeps s a m hinv hok hma) hrest).mp fun before u hbefore hu => ?_
      exact hall (a :: before) u (List.cons_prefix_cons.mpr ⟨rfl, hbefore⟩)
        (Option.bind_eq_some_iff.mpr ⟨m, hm, hu⟩)
    · intro hokRun before u hbefore hu
      obtain ⟨m', hm', hokRest⟩ := Option.bind_eq_some_iff.mp hokRun
      obtain ⟨hok, hma'⟩ := stepIf_eq_some.mp hm'
      obtain rfl : m = m' := Option.some.inj (hma.symm.trans hma')
      cases before with
      | nil =>
        cases hu
        exact hholds s hinv
      | cons b rest =>
        obtain ⟨rfl, hrestBefore⟩ := List.cons_prefix_cons.mp hbefore
        obtain ⟨m'', hm'', hu⟩ := Option.bind_eq_some_iff.mp hu
        obtain rfl : m = m'' := Option.some.inj (hm.symm.trans hm'')
        exact (ih (hkeeps s b m hinv hok hma) hrest).mpr hokRest rest u hrestBefore hu

/-- The progress rule: where each state of an invariant is a final one or has a step that keeps the
invariant and lowers a rank, a run leads to a final state. -/
theorem exists_run_of_rank {ok : σ → α → Prop} [DecidableRel ok] {I final : σ → Prop}
    (rank : σ → Nat)
    (hnext : ∀ s, I s → final s ∨
      ∃ a t, ok s a ∧ M.step s a = some t ∧ I t ∧ rank t < rank s) {s : σ} (h : I s) :
    ∃ as t, M.runFrom ok s as = some t ∧ final t := by
  induction hrank : rank s using Nat.strongRecOn generalizing s with
  | ind r ih =>
    rcases hnext s h with hfinal | ⟨a, m, hok, hstep, hm, hlt⟩
    · exact ⟨[], s, rfl, hfinal⟩
    · obtain ⟨as, t, hrun, hfinal⟩ := ih (rank m) (hrank ▸ hlt) hm rfl
      refine ⟨a :: as, t, ?_, hfinal⟩
      rw [runFrom, stepIf_eq_some.mpr ⟨hok, hstep⟩]
      exact hrun

end Machine

end RtVcom.Lib
