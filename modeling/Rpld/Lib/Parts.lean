import Rpld.Lib.Runs

/-!
A machine that is a family of parts. Each part is a machine of its own; the whole runs on
as long as every part does, and shows each part in the state the part would have alone.
-/

namespace Parts

open Runs

structure Part (ν ε ω : Type) where
  react : ν → ε → ν
  emits : ν → ε → List ω
  fine : ν → ε → Prop

section

variable {σ ε κ ν ω : Type}

/-- The steps of the whole, seen part by part, as long as it is running. -/
structure Splits (step : σ → ε → σ) (running inv : σ → Prop) (good : ε → Prop) (keys : κ → Prop)
    (view : σ → κ → ν) (made : σ → κ → ε → List ω) (parts : κ → Part ν ε ω) : Prop where
  keeps : ∀ state event, inv state → inv (step state event)
  stuck : ∀ state event, ¬ running state → ¬ running (step state event)
  runs : ∀ state event, inv state → good event → running state →
    (running (step state event) ↔ ∀ key, keys key → (parts key).fine (view state key) event)
  shows : ∀ state event, inv state → good event → running state → running (step state event) →
    ∀ key, keys key → view (step state event) key = (parts key).react (view state key) event ∧
      made state key event = (parts key).emits (view state key) event

variable {step : σ → ε → σ} {running inv : σ → Prop} {good : ε → Prop} {keys : κ → Prop} {view : σ → κ → ν}
  {made : σ → κ → ε → List ω} {parts : κ → Part ν ε ω}
  (splits : Splits step running inv good keys view made parts)
include splits

theorem running_of_foldl (events : List ε) (state : σ) (last : running (events.foldl step state)) :
    running state := by
  by_cases now : running state
  · exact now
  · exact absurd last (foldl_invariant_always (fun state event => splits.stuck state event) events now)

theorem foldl_shows {events : List ε} {state : σ} (initial : inv state) (all : ∀ event ∈ events, good event)
    (returns : running (events.foldl step state)) (key : κ) (known : keys key) :
    view (events.foldl step state) key = events.foldl (parts key).react (view state key) ∧
      outputs step (fun state event => made state key event) state events =
        outputs (parts key).react (parts key).emits (view state key) events := by
  induction events generalizing state with
  | nil => exact ⟨rfl, rfl⟩
  | cons event rest ih =>
      rw [List.forall_mem_cons] at all
      have first := running_of_foldl splits (event :: rest) state returns
      have next := running_of_foldl splits rest (step state event) returns
      obtain ⟨shown, emitted⟩ := splits.shows state event initial all.1 first next key known
      obtain ⟨later, outputsLater⟩ := ih (splits.keeps state event initial) all.2 returns
      rw [shown] at later outputsLater
      exact ⟨later, by simp only [outputs, emitted, outputsLater]⟩

theorem foldl_runs {events : List ε} {state : σ} (initial : inv state) (all : ∀ event ∈ events, good event)
    (now : running state) :
    running (events.foldl step state) ↔
      ∀ key, keys key → AllSteps (parts key).react (parts key).fine (view state key) events := by
  induction events generalizing state with
  | nil => exact iff_of_true now fun _ _ => trivial
  | cons event rest ih =>
      rw [List.forall_mem_cons] at all
      have here := splits.runs state event initial all.1 now
      by_cases next : running (step state event)
      · have later := ih (splits.keeps state event initial) all.2 next
        rw [List.foldl_cons, later]
        constructor
        · intro fine key known
          refine ⟨here.mp next key known, ?_⟩
          rw [← (splits.shows state event initial all.1 now next key known).1]
          exact fine key known
        · intro fine key known
          rw [(splits.shows state event initial all.1 now next key known).1]
          exact (fine key known).2
      · refine iff_of_false (fun last => next (running_of_foldl splits rest (step state event) last)) ?_
        intro fine
        exact next (here.mpr fun key known => (fine key known).1)

end

end Parts
