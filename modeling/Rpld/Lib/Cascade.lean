import Mathlib.Logic.Hydra

/-!
Messages that make messages. Every message has a level, and handling it makes messages of
lower levels only, in whatever number. Then deliveries alone come to an end, and whatever goes
on for ever is driven from outside again and again.
-/

namespace Cascade

open Relation

structure Config (σ μ : Type) where
  state : σ
  pending : Multiset μ

section

variable {σ μ : Type} (reacts : σ → μ → σ → Multiset μ → Prop)

/-- One message is handled, and those that this makes are under way instead, or one is lost. -/
inductive Delivers : Config σ μ → Config σ μ → Prop
  | handled {state next : σ} {message : μ} {more : Multiset μ} (rest : Multiset μ)
      (reaction : reacts state message next more) : Delivers ⟨state, message ::ₘ rest⟩ ⟨next, rest + more⟩
  | lost {state : σ} (message : μ) (rest : Multiset μ) : Delivers ⟨state, message ::ₘ rest⟩ ⟨state, rest⟩

variable {reacts} {level : μ → Nat}
  (lower : ∀ state message next more, reacts state message next more → ∀ made ∈ more, level made < level message)
include lower

theorem delivers_cutExpand {config next : Config σ μ} (delivers : Delivers reacts config next) :
    CutExpand (fun made message => level made < level message) next.pending config.pending := by
  cases delivers with
  | @handled state next message more rest reaction =>
      refine ⟨more, message, lower state message next more reaction, ?_⟩
      show rest + more + {message} = message ::ₘ rest + more
      rw [add_comm (rest + more), Multiset.singleton_add, Multiset.cons_add]
  | lost message rest =>
      refine ⟨0, message, by simp, ?_⟩
      show rest + {message} = message ::ₘ rest + 0
      rw [add_zero, add_comm, Multiset.singleton_add]

theorem delivers_wellFounded : WellFounded fun next config => Delivers reacts config next := by
  have levels : WellFounded fun made message : μ => level made < level message := (measure level).wf
  exact Subrelation.wf (delivers_cutExpand lower) (InvImage.wf Config.pending levels.cutExpand)

/-- In every endless run that is not only deliveries, the other steps are taken again and again. -/
theorem others_recur {other : Config σ μ → Config σ μ → Prop} {run : Nat → Config σ μ}
    (steps : ∀ time, Delivers reacts (run time) (run (time + 1)) ∨ other (run time) (run (time + 1))) (time : Nat) :
    ∃ later, time ≤ later ∧ other (run later) (run (later + 1)) := by
  -- induction on what is under way, along the deliveries from here on
  induction reached : run time using (delivers_wellFounded lower).induction generalizing time with
  | _ config ih =>
      rcases steps time with delivery | driven
      · rw [reached] at delivery
        obtain ⟨later, after, driven⟩ := ih (run (time + 1)) delivery (time + 1) rfl
        exact ⟨later, by omega, driven⟩
      · exact ⟨time, Nat.le_refl time, driven⟩

end

end Cascade
