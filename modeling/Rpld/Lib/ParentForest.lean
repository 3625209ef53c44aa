import Mathlib.Logic.Relation
import Mathlib.Data.List.Chain

/-!
Parent pointers as a partial function. A point from which following them comes to an end
at a root is on no cycle; pointers that are never redirected keep such points as they
grow; and a path that runs against them visits no point twice.
-/

namespace ParentForest

open Relation

section

variable {ι : Type} {parent next : ι → Option ι} {root : ι → Prop}

def Up (parent : ι → Option ι) (below above : ι) : Prop := parent below = some above

inductive Rooted (parent : ι → Option ι) (root : ι → Prop) : ι → Prop
  | top {point : ι} (isRoot : root point) (last : parent point = none) : Rooted parent root point
  | under {point above : ι} (up : parent point = some above) (rooted : Rooted parent root above) :
      Rooted parent root point

theorem rooted_reaches {point : ι} (rooted : Rooted parent root point) :
    ∃ top, root top ∧ ReflTransGen (Up parent) point top := by
  induction rooted with
  | top isRoot _ => exact ⟨_, isRoot, ReflTransGen.refl⟩
  | under up _ ih =>
      obtain ⟨top, isRoot, path⟩ := ih
      exact ⟨top, isRoot, ReflTransGen.head up path⟩

theorem rooted_acyclic {point : ι} (rooted : Rooted parent root point) :
    ¬ TransGen (Up parent) point point := by
  induction rooted with
  | top _ last =>
      intro cycle
      obtain ⟨above, up, _⟩ := TransGen.head'_iff.mp cycle
      simp [Up, last] at up
  | under up _ ih =>
      intro cycle
      obtain ⟨above, first, rest⟩ := TransGen.head'_iff.mp cycle
      have same : above = _ := Option.some.inj (first.symm.trans up)
      subst same
      exact ih (TransGen.tail' rest up)

theorem rooted_mono {point : ι} (kept : ∀ point above, parent point = some above → next point = some above)
    (tops : ∀ point, root point → parent point = none → next point = none)
    (rooted : Rooted parent root point) : Rooted next root point := by
  induction rooted with
  | top isRoot last => exact Rooted.top isRoot (tops _ isRoot last)
  | under up _ ih => exact Rooted.under (kept _ _ up) ih

/-- Two points above one another are one point unless pointers form a cycle. -/
theorem chain_nodup {path : List ι} (acyclic : ∀ point, ¬ TransGen (Up parent) point point)
    (chain : path.IsChain fun above below => parent below = some above) : path.Nodup := by
  have along : path.IsChain fun above below => TransGen (Up parent) below above := by
    refine chain.imp ?_
    intro above below up
    exact TransGen.single up
  have transitive : IsTrans ι fun above below => TransGen (Up parent) below above :=
    ⟨fun _ _ _ first second => TransGen.trans second first⟩
  refine (List.isChain_iff_pairwise.mp along).imp ?_
  intro above below up same
  subst same
  exact acyclic _ up

end

end ParentForest
