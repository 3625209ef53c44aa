import Mathlib.Logic.Relation
import Rpld.Lib.Runs

/-!
Refinement of a relation of steps by a deterministic machine. If every input of the
machine is answered by some number of abstract steps, so is every run.
-/

namespace Simulation

open Relation Runs

section

variable {σ ε τ : Type} {step : σ → ε → σ} {meets : σ → ε → Prop} {abstract : τ → τ → Prop}
  {related : σ → τ → Prop}

theorem foldl_simulates
    (simulates : ∀ state event image, meets state event → related state image →
      ∃ next, ReflTransGen abstract image next ∧ related (step state event) next)
    {events : List ε} {state : σ} {image : τ} (start : related state image)
    (all : AllSteps step meets state events) :
    ∃ final, ReflTransGen abstract image final ∧ related (events.foldl step state) final := by
  induction events generalizing state image with
  | nil => exact ⟨image, ReflTransGen.refl, start⟩
  | cons event rest ih =>
      obtain ⟨next, first, relatedNext⟩ := simulates state event image all.1 start
      obtain ⟨final, later, relatedFinal⟩ := ih relatedNext all.2
      exact ⟨final, first.trans later, relatedFinal⟩

theorem steps_invariant {inv : τ → Prop} (keeps : ∀ state next, inv state → abstract state next → inv next)
    {start final : τ} (initial : inv start) (steps : ReflTransGen abstract start final) : inv final := by
  induction steps with
  | refl => exact initial
  | tail _ step ih => exact keeps _ _ ih step

end

end Simulation
