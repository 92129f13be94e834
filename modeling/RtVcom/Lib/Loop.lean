/-!
# Loops

A loop as one pass: from a state it goes on in another one, or it is over with a result. `run` is
the loop for as many passes as its fuel says, and the loop ends if some fuel is enough.

A loop that ends is followed pass by pass (`run_again`, `run_leave`). For one that does not there is
a rule: an invariant under which every pass goes on says that no fuel is enough (`run_eq_none`).
-/

namespace RtVcom.Lib.Loop

/-- What a pass comes to. -/
inductive Pass (σ ρ : Type)
  | again (s : σ)
  | leave (r : ρ)

variable {σ ρ : Type} {pass : σ → Pass σ ρ}

/-- The loop from a state on. -/
def run (pass : σ → Pass σ ρ) : Nat → σ → Option ρ
  | 0, _ => none
  | fuel + 1, s =>
    match pass s with
    | .again t => run pass fuel t
    | .leave r => some r

theorem run_again {s t : σ} (h : pass s = .again t) (fuel : Nat) :
    run pass (fuel + 1) s = run pass fuel t := by
  rw [run, h]

theorem run_leave {s : σ} {r : ρ} (h : pass s = .leave r) (fuel : Nat) :
    run pass (fuel + 1) s = some r := by
  rw [run, h]

/-- A loop that goes on as long as an invariant holds, and keeps it, does not end. -/
theorem run_eq_none {I : σ → Prop} (hagain : ∀ s, I s → ∃ t, pass s = .again t ∧ I t) {s : σ}
    (hs : I s) (fuel : Nat) : run pass fuel s = none := by
  induction fuel generalizing s with
  | zero => rfl
  | succ fuel ih =>
    obtain ⟨t, hpass, ht⟩ := hagain s hs
    rw [run_again hpass]
    exact ih ht

end RtVcom.Lib.Loop
