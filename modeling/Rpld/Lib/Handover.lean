import Rpld.Lib.Runs

/-!
Something that is handed on along a path while a machine runs: each point of the path gets
it from the one before, at some time after that one has got it. What is never lost again
and survives each handover is in the end held all along the path.
-/

namespace Handover

open Runs

section

variable {σ ε ι : Type} (step : σ → ε → σ) (hand : ι → ι → σ → List ε → Prop)

/-- The run hands on from each point of the path to the next, one after the other. -/
def Passes : List ι → σ → List ε → Prop
  | point :: next :: rest, state, events => ∃ before during after, events = before ++ (during ++ after) ∧
      hand point next (before.foldl step state) during ∧
      Passes (next :: rest) (during.foldl step (before.foldl step state)) after
  | _, _, _ => True

variable {step hand} {meets : σ → ε → Prop} {inv : σ → Prop} {holds : σ → ι → Nat → Prop}

theorem passes_holds (keeps : ∀ state event, meets state event → inv state → inv (step state event))
    (stable : ∀ state event point count, meets state event → inv state → holds state point count →
      holds (step state event) point count)
    (hands : ∀ point next state during count, inv state → AllSteps step meets state during →
      hand point next state during → holds state point count → holds (during.foldl step state) next (count + 1))
    {path : List ι} {state : σ} {events : List ε} {count : Nat} (initial : inv state)
    (all : AllSteps step meets state events) (first : ∀ point, path.head? = some point → holds state point count)
    (passes : Passes step hand path state events) {index : Nat} {point : ι} (found : path[index]? = some point) :
    holds (events.foldl step state) point (count + index) := by
  have lasts : ∀ {start : σ} {later : List ε} {point : ι} {count : Nat}, inv start → AllSteps step meets start later →
      holds start point count → inv (later.foldl step start) ∧ holds (later.foldl step start) point count := by
    intro start later point count begins every held
    refine @foldl_invariant _ _ step meets (fun state => inv state ∧ holds state point count) ?_ later start
      ⟨begins, held⟩ every
    intro state event met both
    exact ⟨keeps state event met both.1, stable state event point count met both.1 both.2⟩
  induction path generalizing state events count index with
  | nil => simp at found
  | cons current rest ih =>
      have held := first current rfl
      cases index with
      | zero =>
          rw [List.getElem?_cons_zero, Option.some.injEq] at found
          subst found
          exact (lasts initial all held).2
      | succ index =>
          rw [List.getElem?_cons_succ] at found
          cases rest with
          | nil => simp at found
          | cons next rest =>
              obtain ⟨before, during, after, rfl, handed, onward⟩ := passes
              rw [allSteps_append, allSteps_append] at all
              obtain ⟨allBefore, allDuring, allAfter⟩ := all
              obtain ⟨reached, current⟩ := lasts initial allBefore held
              have got := hands _ _ _ _ _ reached allDuring handed current
              have later := foldl_invariant keeps reached allDuring
              have begins : ∀ point, (next :: rest).head? = some point →
                  holds (during.foldl step (before.foldl step state)) point (count + 1) := by
                intro point same
                rw [List.head?_cons, Option.some.injEq] at same
                rw [← same]
                exact got
              have final := ih later allAfter begins onward found
              rw [List.foldl_append, List.foldl_append, show count + (index + 1) = count + 1 + index by omega]
              exact final

theorem passes_split {path : List ι} {state : σ} {events : List ε} (passes : Passes step hand path state events)
    {index : Nat} {point next : ι} (found : path[index]? = some point) (foundNext : path[index + 1]? = some next) :
    ∃ before during after, events = before ++ (during ++ after) ∧ hand point next (before.foldl step state) during ∧
      Passes step hand (path.take (index + 1)) state before := by
  induction path generalizing state events index with
  | nil => simp at found
  | cons current rest ih =>
      cases rest with
      | nil => simp at foundNext
      | cons second rest =>
          obtain ⟨before, during, after, rfl, handed, onward⟩ := passes
          cases index with
          | zero =>
              simp only [List.getElem?_cons_zero, List.getElem?_cons_succ, Option.some.injEq] at found foundNext
              subst found foundNext
              exact ⟨before, during, after, rfl, handed, trivial⟩
          | succ index =>
              rw [List.getElem?_cons_succ] at found foundNext
              obtain ⟨later, meanwhile, last, rfl, handedOn, first⟩ := ih onward found foundNext
              refine ⟨before ++ (during ++ later), meanwhile, last, ?_, ?_, before, during, later, rfl, handed, first⟩
              · simp only [List.append_assoc]
              · rw [List.foldl_append, List.foldl_append]
                exact handedOn

end

end Handover
