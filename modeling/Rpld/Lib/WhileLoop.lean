/-!
Loops `while (guard) body` whose body may also return, as their finite executions. A
derivation of `Exec` is an execution that ends, so nothing has to be said about fuel.
-/

namespace WhileLoop

section

variable {σ : Type} (guard : σ → Prop) (body : σ → Option σ)

/-- An execution from a state: the states in which its iterations begin, the state it
leaves, and whether the loop test ended it. -/
inductive Exec : σ → List σ → σ × Bool → Prop
  | ends {state : σ} (finished : ¬ guard state) : Exec state [] (state, true)
  | returns {state : σ} (more : guard state) (returned : body state = none) :
      Exec state [state] (state, false)
  | turns {state next : σ} {iterations : List σ} {result : σ × Bool} (more : guard state)
      (turned : body state = some next) (rest : Exec next iterations result) :
      Exec state (state :: iterations) result

variable {guard body}

theorem exec_unique {state : σ} {iterations others : List σ} {result other : σ × Bool}
    (one : Exec guard body state iterations result) (two : Exec guard body state others other) :
    others = iterations ∧ other = result := by
  induction one generalizing others other with
  | ends finished =>
      cases two with
      | ends _ => exact ⟨rfl, rfl⟩
      | returns more _ => exact absurd more finished
      | turns more _ _ => exact absurd more finished
  | returns more returned =>
      cases two with
      | ends finished => exact absurd more finished
      | returns _ _ => exact ⟨rfl, rfl⟩
      | turns _ turned _ =>
          rw [returned] at turned
          cases turned
  | turns more turned rest ih =>
      cases two with
      | ends finished => exact absurd more finished
      | returns _ returned =>
          rw [turned] at returned
          cases returned
      | turns _ again otherRest =>
          rw [turned, Option.some.injEq] at again
          subst again
          obtain ⟨sameIterations, sameResult⟩ := ih otherRest
          exact ⟨by rw [sameIterations], sameResult⟩

/-- A loop ends if each turn lowers a number that is positive while the loop goes on,
and that number bounds its iterations. -/
theorem exec_of_measure {inv : σ → Prop} {measure : σ → Nat}
    (positive : ∀ state, inv state → guard state → 0 < measure state)
    (keeps : ∀ state next, inv state → guard state → body state = some next → inv next)
    (lowers : ∀ state next, inv state → guard state → body state = some next → measure next < measure state)
    {state : σ} (initial : inv state) :
    ∃ iterations result, Exec guard body state iterations result ∧ iterations.length ≤ measure state := by
  generalize rank : measure state = n
  induction n using Nat.strongRecOn generalizing state with
  | ind n ih =>
      by_cases more : guard state
      · have remaining := positive state initial more
        cases turned : body state with
        | none => exact ⟨[state], (state, false), .returns more turned, by rw [List.length_singleton]; omega⟩
        | some next =>
            have lower := lowers state next initial more turned
            obtain ⟨iterations, result, rest, few⟩ :=
              ih (measure next) (by omega) (keeps state next initial more turned) rfl
            exact ⟨state :: iterations, result, .turns more turned rest, by rw [List.length_cons]; omega⟩
      · exact ⟨[], (state, true), .ends more, Nat.zero_le n⟩

theorem exec_invariant {inv : σ → Prop}
    (keeps : ∀ state next, inv state → guard state → body state = some next → inv next)
    {state : σ} {iterations : List σ} {result : σ × Bool} (initial : inv state)
    (exec : Exec guard body state iterations result) :
    (∀ later ∈ iterations, inv later ∧ guard later) ∧ inv result.1 := by
  induction exec with
  | ends finished => exact ⟨by simp, initial⟩
  | returns more returned => exact ⟨List.forall_mem_singleton.mpr ⟨initial, more⟩, initial⟩
  | turns more turned rest ih =>
      obtain ⟨others, last⟩ := ih (keeps _ _ initial more turned)
      exact ⟨List.forall_mem_cons.mpr ⟨⟨initial, more⟩, others⟩, last⟩

theorem exec_congr {other : σ → Option σ} {inv : σ → Prop}
    (keeps : ∀ state next, inv state → guard state → body state = some next → inv next)
    (same : ∀ state, inv state → guard state → body state = other state)
    {state : σ} {iterations : List σ} {result : σ × Bool} (initial : inv state)
    (exec : Exec guard body state iterations result) : Exec guard other state iterations result := by
  induction exec with
  | ends finished => exact .ends finished
  | returns more returned => exact .returns more ((same _ initial more).symm.trans returned)
  | turns more turned rest ih =>
      exact .turns more ((same _ initial more).symm.trans turned) (ih (keeps _ _ initial more turned))

end

end WhileLoop
