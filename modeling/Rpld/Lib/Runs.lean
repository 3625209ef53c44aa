/-!
Runs of a deterministic machine as left folds over a list of inputs, the conditions
that every step of a run meets, and the rules that carry an invariant or a simulation
from one step to all of them.
-/

namespace Runs

section

variable {σ ε : Type} (step : σ → ε → σ) (meets : σ → ε → Prop)

/-- Every step of the run meets a condition on the state it is taken in. -/
def AllSteps (state : σ) : List ε → Prop
  | [] => True
  | event :: rest => meets state event ∧ AllSteps (step state event) rest

variable {step meets}

theorem allSteps_append {first second : List ε} {state : σ} :
    AllSteps step meets state (first ++ second) ↔
      AllSteps step meets state first ∧ AllSteps step meets (first.foldl step state) second := by
  induction first generalizing state with
  | nil => simp [AllSteps]
  | cons event rest ih => simp [AllSteps, ih, and_assoc]

theorem allSteps_imp {weaker : σ → ε → Prop} (implies : ∀ state event, meets state event → weaker state event)
    {events : List ε} {state : σ} (all : AllSteps step meets state events) :
    AllSteps step weaker state events := by
  induction events generalizing state with
  | nil => trivial
  | cons event rest ih => exact ⟨implies state event all.1, ih all.2⟩

theorem allSteps_and {other : σ → ε → Prop} {events : List ε} {state : σ}
    (one : AllSteps step meets state events) (two : AllSteps step other state events) :
    AllSteps step (fun later event => meets later event ∧ other later event) state events := by
  induction events generalizing state with
  | nil => trivial
  | cons event rest ih => exact ⟨⟨one.1, two.1⟩, ih one.2 two.2⟩

theorem allSteps_iff {events : List ε} {state : σ} :
    AllSteps step meets state events ↔
      ∀ before event after, events = before ++ event :: after → meets (before.foldl step state) event := by
  constructor
  · intro all before event after split
    rw [split, allSteps_append] at all
    exact all.2.1
  · intro each
    induction events generalizing state with
    | nil => trivial
    | cons event rest ih =>
        refine ⟨each [] event rest rfl, ih ?_⟩
        intro before next after split
        exact each (event :: before) next after (by rw [split, List.cons_append])

/-- Where a condition on the states of a machine amounts, under an invariant, to one on what
a simpler machine has of them, it holds all along a run exactly if the other does there. -/
theorem allSteps_view_iff {τ : Type} {view : σ → τ} {move : τ → ε → τ} {other : τ → ε → Prop} {inv : σ → Prop}
    (follows : ∀ state event, view (step state event) = move (view state) event)
    (keeps : ∀ state event, inv state → inv (step state event))
    (exactly : ∀ state event, inv state → (meets state event ↔ other (view state) event))
    {events : List ε} {state : σ} (initial : inv state) :
    AllSteps step meets state events ↔ AllSteps move other (view state) events := by
  induction events generalizing state with
  | nil => rfl
  | cons event rest ih =>
      have later := ih (keeps state event initial)
      rw [follows] at later
      exact and_congr (exactly state event initial) later

variable (step) in
/-- A property holds in every state a run passes, the first and the last included. -/
def Always (prop : σ → Prop) (state : σ) : List ε → Prop
  | [] => prop state
  | event :: rest => prop state ∧ Always prop (step state event) rest

theorem always_head {prop : σ → Prop} {events : List ε} {state : σ} (always : Always step prop state events) :
    prop state := by
  cases events with
  | nil => exact always
  | cons event rest => exact always.1

theorem always_iff {prop : σ → Prop} {events : List ε} {state : σ} :
    Always step prop state events ↔ ∀ before after, events = before ++ after → prop (before.foldl step state) := by
  constructor
  · intro always before after split
    induction before generalizing events state with
    | nil => exact always_head always
    | cons event rest ih =>
        rw [split] at always
        exact ih always.2 rfl
  · intro each
    induction events generalizing state with
    | nil => exact each [] [] rfl
    | cons event rest ih =>
        refine ⟨each [] (event :: rest) rfl, ih ?_⟩
        intro before after split
        exact each (event :: before) after (by rw [split, List.cons_append])

/-- Where a step keeps a property exactly if it meets a condition, the property holds all
along a run exactly if all its steps meet the condition. -/
theorem always_iff_allSteps {prop inv : σ → Prop} (keeps : ∀ state event, inv state → inv (step state event))
    (exactly : ∀ state event, inv state → prop state → (prop (step state event) ↔ meets state event))
    {events : List ε} {state : σ} (initial : inv state) (holds : prop state) :
    Always step prop state events ↔ AllSteps step meets state events := by
  induction events generalizing state with
  | nil => exact iff_of_true holds trivial
  | cons event rest ih =>
      have here := exactly state event initial holds
      by_cases next : prop (step state event)
      · have later := ih (keeps state event initial) next
        simp only [Always, AllSteps, holds, here.mp next, true_and]
        exact later
      · refine iff_of_false (fun always => next (always_head always.2)) ?_
        intro all
        exact next (here.mpr all.1)

theorem foldl_invariant {inv : σ → Prop}
    (keeps : ∀ state event, meets state event → inv state → inv (step state event))
    {events : List ε} {state : σ} (initial : inv state) (all : AllSteps step meets state events) :
    inv (events.foldl step state) := by
  induction events generalizing state with
  | nil => exact initial
  | cons event rest ih => exact ih (keeps state event all.1 initial) all.2

theorem foldl_invariant_always {inv : σ → Prop} (keeps : ∀ state event, inv state → inv (step state event))
    (events : List ε) {state : σ} (initial : inv state) : inv (events.foldl step state) := by
  induction events generalizing state with
  | nil => exact initial
  | cons event rest ih => exact ih (keeps state event initial)

def outputs {ω : Type} (step : σ → ε → σ) (emits : σ → ε → List ω) (state : σ) : List ε → List ω
  | [] => []
  | event :: rest => emits state event ++ outputs step emits (step state event) rest

theorem mem_outputs {ω : Type} {emits : σ → ε → List ω} {events : List ε} {state : σ} {output : ω}
    (member : output ∈ outputs step emits state events) :
    ∃ before event after, events = before ++ event :: after ∧ output ∈ emits (before.foldl step state) event := by
  induction events generalizing state with
  | nil => simp [outputs] at member
  | cons event rest ih =>
      rcases List.mem_append.mp member with here | later
      · exact ⟨[], event, rest, rfl, here⟩
      · obtain ⟨before, next, after, split, emitted⟩ := ih later
        exact ⟨event :: before, next, after, by rw [split, List.cons_append], emitted⟩

/-! Inputs that a machine skips. -/

section

variable {concerns : ε → Bool} (skips : ∀ state event, concerns event = false → step state event = state)
include skips

theorem foldl_filter (events : List ε) (state : σ) :
    (events.filter concerns).foldl step state = events.foldl step state := by
  induction events generalizing state with
  | nil => rfl
  | cons event rest ih =>
      cases concerned : concerns event with
      | true => simp [concerned, ih]
      | false => simp [concerned, ih, skips state event concerned]

theorem outputs_filter {ω : Type} {emits : σ → ε → List ω}
    (quiet : ∀ state event, concerns event = false → emits state event = []) (events : List ε) (state : σ) :
    outputs step emits state (events.filter concerns) = outputs step emits state events := by
  induction events generalizing state with
  | nil => rfl
  | cons event rest ih =>
      cases concerned : concerns event with
      | true => simp [concerned, outputs, ih]
      | false => simp [concerned, outputs, ih, skips state event concerned, quiet state event concerned]

theorem allSteps_filter (harmless : ∀ state event, concerns event = false → meets state event)
    (events : List ε) (state : σ) :
    AllSteps step meets state (events.filter concerns) ↔ AllSteps step meets state events := by
  induction events generalizing state with
  | nil => rfl
  | cons event rest ih =>
      cases concerned : concerns event with
      | true => simp [concerned, AllSteps, ih]
      | false =>
          simp [concerned, AllSteps, ih, skips state event concerned, harmless state event concerned]

end

end

end Runs
