import Mathlib.Data.List.Nodup
import Rpld.Lib.UpDown
import Rpld.DodagRoutes

/-!
Forwarding in the protocol. A party that lists the target sends it down that entry and any
other party sends it up, so the entries and the parents together are what `UpDown` asks
for; no table ever has two entries for one address.
-/

namespace Rpld.Dodag

open AddNew ParentForest Relation UpDown

section

variable {ι α : Type}

def State.Entry (state : State ι α) (target : α) (party below : ι) : Prop :=
  ∃ node, state.node party = some node ∧ (target, below) ∈ node.childs

def State.Has (state : State ι α) (target : α) (party : ι) : Prop :=
  ∃ node, state.node party = some node ∧ node.self = target

def State.EntriesDistinct (state : State ι α) : Prop :=
  ∀ party node, state.node party = some node → (node.childs.map Prod.fst).Nodup

theorem entry_unique {state : State ι α} (distinct : state.EntriesDistinct) {target : α} {party first second : ι}
    (one : state.Entry target party first) (two : state.Entry target party second) : first = second := by
  obtain ⟨node, holds, firstEntry⟩ := one
  obtain ⟨other, otherHolds, secondEntry⟩ := two
  rw [holds, Option.some.injEq] at otherHolds
  subst otherHolds
  have same := List.inj_on_of_nodup_map (distinct party node holds) firstEntry secondEntry rfl
  rw [Prod.mk.injEq] at same
  exact same.2

end

section

variable {ι α : Type} [DecidableEq α] {counts : α → Prop} {root : ι → Prop} {state : State ι α}

theorem arrives_of_delivers {target : α} {party : ι} (delivers : Delivers state target party) :
    Arrives (state.Entry target) (state.Has target) party := by
  induction delivers with
  | here holds own => exact Arrives.here ⟨_, holds, own⟩
  | via hop _ ih => exact Arrives.via (hop_holds hop) ih

theorem leads_of_routeInv (inv : RouteInv counts root state) {target : α} (counted : counts target)
    {up : ι → ι → Prop} (rises : ∀ party above, up party above → state.parentOf party = some above) :
    Leads state.parentOf up (state.Entry target) (state.Has target) := by
  refine ⟨treeInv_acyclic inv.tree, rises, ?_, ?_⟩
  · rintro party below ⟨node, holds, entry⟩
    exact (inv.entries party node target below holds entry).1
  · rintro party below ⟨node, holds, entry⟩
    exact arrives_of_delivers ((inv.entries party node target below holds entry).2 counted)

end

section

variable {ι α : Type} [DecidableEq ι] [DecidableEq α] {rules : Rules ι α} {root : ι → Prop}
  {state next : State ι α}

theorem entriesDistinct_step (distinct : state.EntriesDistinct) (step : Step rules state next) :
    next.EntriesDistinct := by
  intro party node holds
  have change := step_change step party
  rw [holds] at change
  generalize before : state.node party = old at change
  cases change with
  | same => exact distinct party node before
  | joined => exact List.nodup_nil
  | @improved _ _ old => exact distinct party old before
  | @registered _ _ targets heard => exact addNews_nodup (fun _ => rfl) (distinct party _ before) targets

theorem reachable_entriesDistinct (reachable : Reachable rules root state) : state.EntriesDistinct := by
  refine reachable_invariant ?_ (fun _ _ distinct step => entriesDistinct_step distinct step) reachable
  intro start initial party node holds
  rw [initial_childs initial holds]
  exact List.nodup_nil

theorem entry_step (step : Step rules state next) {target : α} {party below : ι}
    (entry : state.Entry target party below) : next.Entry target party below := by
  obtain ⟨node, holds, listed⟩ := entry
  obtain ⟨new, newHolds, evolves⟩ := step_evolves step holds
  exact ⟨new, newHolds, evolves.childs.subset listed⟩

theorem entry_steps (steps : ReflTransGen (Step rules) state next) {target : α} {party below : ι}
    (entry : state.Entry target party below) : next.Entry target party below :=
  @Simulation.steps_invariant _ _ (·.Entry target party below) (fun _ _ held step => entry_step step held) _ _ entry steps

theorem parentOf_steps (steps : ReflTransGen (Step rules) state next) {party above : ι}
    (up : state.parentOf party = some above) : next.parentOf party = some above :=
  @Simulation.steps_invariant _ _ (·.parentOf party = some above) (fun _ _ held step => parentOf_step step held) _ _ up
    steps

end

end Rpld.Dodag
