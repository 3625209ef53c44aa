import Mathlib.Combinatorics.SimpleGraph.Metric
import Mathlib.Data.Fintype.Card
import Rpld.Dodag

/-!
Ranks in the protocol. A rank is at most the number of parties that hold the dodag, in a
node and in a DIO that is still heard, so with few enough parties none is ever reduced
modulo the size. What a rank says about the topology and about the parent depends on
which DIOs a party may hear.
-/

namespace Rpld.Dodag

section

variable {ι α : Type}

structure Ranked (bound : Nat) (node : Node ι α) : Prop where
  low : 1 ≤ node.rank
  high : node.rank ≤ bound
  next : ∀ above recorded, node.parent = some (above, recorded) → 1 ≤ recorded ∧ node.rank = recorded + 1

theorem ranked_mono {small large : Nat} (le : small ≤ large) {node : Node ι α} (ranked : Ranked small node) :
    Ranked large node := ⟨ranked.low, ranked.high.trans le, ranked.next⟩

theorem ranked_heard {bound size rank : Nat} (positive : 1 ≤ rank) (room : rank + 1 ≤ bound) (fits : bound < size)
    (above : ι) (self : α) (childs : List (α × ι)) :
    Ranked bound ⟨(rank + 1) % size, some (above, rank), self, childs⟩ := by
  have whole : (rank + 1) % size = rank + 1 := Nat.mod_eq_of_lt (by omega)
  refine ⟨?_, ?_, ?_⟩
  · simp only [whole]
    omega
  · simp only [whole]
    exact room
  · intro other recorded same
    simp only [Option.some.injEq, Prod.mk.injEq] at same
    simp only [whole, ← same.2]
    exact ⟨positive, trivial⟩

/-- A root that is reached by a walk of fewer steps than the rank. -/
def Reaches (graph : SimpleGraph ι) (root : ι → Prop) (party : ι) (rank : Nat) : Prop :=
  ∃ top, root top ∧ ∃ walk : graph.Walk party top, walk.length + 1 ≤ rank

theorem reaches_of_adj {graph : SimpleGraph ι} {root : ι → Prop} {party sender : ι} {rank : Nat}
    (adjacent : graph.Adj party sender) (reaches : Reaches graph root sender rank) :
    Reaches graph root party (rank + 1) := by
  obtain ⟨top, isRoot, walk, short⟩ := reaches
  refine ⟨top, isRoot, SimpleGraph.Walk.cons adjacent walk, ?_⟩
  rw [SimpleGraph.Walk.length_cons]
  omega

/-- The number of hops to the nearest root. -/
noncomputable def hops (graph : SimpleGraph ι) (root : ι → Prop) (party : ι) : ℕ∞ :=
  ⨅ top, ⨅ _ : root top, graph.edist party top

theorem hops_of_reaches {graph : SimpleGraph ι} {root : ι → Prop} {party : ι} {rank : Nat}
    (reaches : Reaches graph root party rank) : hops graph root party + 1 ≤ rank := by
  obtain ⟨top, isRoot, walk, short⟩ := reaches
  calc hops graph root party + 1
      ≤ graph.edist party top + 1 := by
        gcongr
        exact iInf₂_le top isRoot
    _ ≤ (walk.length : ℕ∞) + 1 := by
        gcongr
        exact SimpleGraph.edist_le walk
    _ ≤ rank := by exact_mod_cast short

/-- The rank is not below the present rank of the party's parent. -/
def State.Orderly (state : State ι α) (party : ι) (rank : Nat) : Prop :=
  ∀ above aboveNode, state.parentOf party = some above → state.node above = some aboveNode → aboveNode.rank ≤ rank

end

section

variable {ι α : Type} [Fintype ι]

def State.holders (state : State ι α) : Finset ι :=
  Finset.univ.filter fun party => (state.node party).isSome

theorem mem_holders {state : State ι α} {party : ι} :
    party ∈ state.holders ↔ ∃ node, state.node party = some node := by
  simp [State.holders, Option.isSome_iff_exists]

theorem holders_le (state : State ι α) : state.holders.card ≤ Fintype.card ι := Finset.card_le_univ _

structure RankInv (state : State ι α) : Prop where
  nodes : ∀ party node, state.node party = some node → Ranked state.holders.card node
  dios : ∀ sender rank, .dio sender rank ∈ state.sent → 1 ≤ rank ∧ rank ≤ state.holders.card

theorem rankInv_initial {root : ι → Prop} {state : State ι α} (initial : Initial root state) : RankInv state := by
  constructor
  · intro party node holds
    by_cases isRoot : root party
    · obtain ⟨own, ownHolds, first, top, _⟩ := initial.roots party isRoot
      rw [holds, Option.some.injEq] at ownHolds
      subst ownHolds
      have listed : 0 < state.holders.card := Finset.card_pos.mpr ⟨party, mem_holders.mpr ⟨node, holds⟩⟩
      refine ⟨by omega, by omega, ?_⟩
      intro above recorded under
      simp [top] at under
    · simp [initial.others party isRoot] at holds
  · intro sender rank heard
    simp [initial.sent] at heard

structure WalkInv (graph : SimpleGraph ι) (root : ι → Prop) (state : State ι α) : Prop where
  ranks : RankInv state
  nodes : ∀ party node, state.node party = some node → Reaches graph root party node.rank
  dios : ∀ sender rank, .dio sender rank ∈ state.sent → Reaches graph root sender rank

theorem walkInv_initial (graph : SimpleGraph ι) {root : ι → Prop} {state : State ι α}
    (initial : Initial root state) : WalkInv graph root state := by
  refine ⟨rankInv_initial initial, ?_, ?_⟩
  · intro party node holds
    by_cases isRoot : root party
    · have low := ((rankInv_initial initial).nodes party node holds).low
      exact ⟨party, isRoot, SimpleGraph.Walk.nil, by simpa using low⟩
    · simp [initial.others party isRoot] at holds
  · intro sender rank heard
    simp [initial.sent] at heard

structure OrderInv (root : ι → Prop) (state : State ι α) : Prop where
  tree : TreeInv root state
  ranks : RankInv state
  parents : ∀ party node above recorded aboveNode, state.node party = some node →
    node.parent = some (above, recorded) → state.node above = some aboveNode → aboveNode.rank ≤ recorded
  dios : ∀ sender rank node, .dio sender rank ∈ state.sent → state.node sender = some node → node.rank ≤ rank

theorem orderInv_initial {root : ι → Prop} {state : State ι α} (initial : Initial root state) :
    OrderInv root state := by
  refine ⟨treeInv_initial initial, rankInv_initial initial, ?_, ?_⟩
  · intro party node above recorded aboveNode holds under
    by_cases isRoot : root party
    · obtain ⟨own, ownHolds, _, top, _⟩ := initial.roots party isRoot
      rw [holds, Option.some.injEq] at ownHolds
      simp [ownHolds, top] at under
    · simp [initial.others party isRoot] at holds
  · intro sender rank node heard
    simp [initial.sent] at heard

end

section

variable {ι α : Type} [DecidableEq ι] [DecidableEq α] [Fintype ι] {rules : Rules ι α} {state next : State ι α}

theorem holders_step (step : Step rules state next) : state.holders ⊆ next.holders := by
  intro party member
  obtain ⟨node, holds⟩ := mem_holders.mp member
  obtain ⟨new, newHolds, _⟩ := step_evolves step holds
  exact mem_holders.mpr ⟨new, newHolds⟩

theorem holders_joined (step : Step rules state next) {party : ι} {node : Node ι α}
    (free : state.node party = none) (holds : next.node party = some node) :
    state.holders.card < next.holders.card := by
  apply Finset.card_lt_card
  refine Finset.ssubset_iff_of_subset (holders_step step) |>.mpr ⟨party, mem_holders.mpr ⟨node, holds⟩, ?_⟩
  intro member
  obtain ⟨old, oldHolds⟩ := mem_holders.mp member
  simp [free] at oldHolds

theorem rankInv_step (small : Fintype.card ι < rules.size) (inv : RankInv state) (step : Step rules state next) :
    RankInv next := by
  have more : state.holders.card ≤ next.holders.card := Finset.card_le_card (holders_step step)
  have fits : next.holders.card < rules.size := (holders_le next).trans_lt small
  constructor
  · intro party node holds
    have change := step_change step party
    rw [holds] at change
    generalize before : state.node party = old at change
    cases change with
    | same => exact ranked_mono more (inv.nodes party node before)
    | joined self heard _ =>
        have bounds := inv.dios _ _ heard
        have grown := holders_joined step before holds
        exact ranked_heard bounds.1 (by omega) fits _ _ _
    | @improved _ _ old _ _ self under heard _ accepted _ =>
        have bounds := inv.dios _ _ heard
        have ranked := inv.nodes party old before
        have next := ranked.next _ _ under
        have high := ranked.high
        exact ranked_heard bounds.1 (by omega) fits _ _ _
    | @registered _ old _ heard =>
        have ranked := ranked_mono more (inv.nodes party old before)
        exact ⟨ranked.low, ranked.high, ranked.next⟩
  · intro sender rank heard
    rcases step_addition step heard with old | new
    · have bounds := inv.dios sender rank old
      exact ⟨bounds.1, bounds.2.trans more⟩
    · cases new with
      | dio holds =>
          have ranked := inv.nodes _ _ holds
          exact ⟨ranked.low, ranked.high.trans more⟩

theorem reachable_rankInv {root : ι → Prop} (small : Fintype.card ι < rules.size)
    (reachable : Reachable rules root state) : RankInv state :=
  reachable_invariant (fun _ => rankInv_initial) (fun _ _ inv step => rankInv_step small inv step) reachable

theorem step_rank_le (inv : RankInv state) (stepped : RankInv next) (step : Step rules state next) {party : ι}
    {old new : Node ι α} (before : state.node party = some old) (after : next.node party = some new) :
    new.rank ≤ old.rank := by
  have ranked := stepped.nodes party new after
  have change := step_change step party
  rw [before, after] at change
  cases change with
  | same => exact le_rfl
  | improved self under _ _ accepted _ =>
      have was := (inv.nodes party old before).next _ _ under
      have is := ranked.next _ _ rfl
      omega
  | registered heard => exact le_rfl

/-! Where a DIO is heard only along the edges of a graph, a rank is more than the number of
hops to a root. -/

theorem walkInv_step {graph : SimpleGraph ι} {root : ι → Prop} (small : Fintype.card ι < rules.size)
    (along : ∀ state party sender rank, rules.allowed state party sender rank → graph.Adj party sender)
    (inv : WalkInv graph root state) (step : Step rules state next) : WalkInv graph root next := by
  have ranks := rankInv_step small inv.ranks step
  refine ⟨ranks, ?_, ?_⟩
  · intro party node holds
    have ranked := ranks.nodes party node holds
    have change := step_change step party
    rw [holds] at change
    generalize before : state.node party = old at change
    cases change with
    | same => exact inv.nodes party node before
    | joined self heard allowed =>
        rw [(ranked.next _ _ rfl).2]
        exact reaches_of_adj (along _ _ _ _ allowed) (inv.dios _ _ heard)
    | improved self under heard allowed _ _ =>
        rw [(ranked.next _ _ rfl).2]
        exact reaches_of_adj (along _ _ _ _ allowed) (inv.dios _ _ heard)
    | @registered _ old _ heard => exact inv.nodes party old before
  · intro sender rank heard
    rcases step_addition step heard with old | new
    · exact inv.dios sender rank old
    · cases new with
      | dio holds => exact inv.nodes _ _ holds

theorem reachable_walkInv {graph : SimpleGraph ι} {root : ι → Prop} (small : Fintype.card ι < rules.size)
    (along : ∀ state party sender rank, rules.allowed state party sender rank → graph.Adj party sender)
    (reachable : Reachable rules root state) : WalkInv graph root state :=
  reachable_invariant (fun _ => walkInv_initial graph) (fun _ _ inv step => walkInv_step small along inv step)
    reachable

/-! Where no party hears a rank below the present rank of its parent, ranks grow from the
parents down. -/

theorem orderInv_step {root : ι → Prop} (small : Fintype.card ι < rules.size)
    (orderly : ∀ state party sender rank, rules.allowed state party sender rank → state.Orderly party rank)
    (inv : OrderInv root state) (step : Step rules state next) : OrderInv root next := by
  have ranks := rankInv_step small inv.ranks step
  -- ranks only fall, so it is enough to bound the rank a party had before the step
  have falls : ∀ party old bound new, state.node party = some old → old.rank ≤ bound →
      next.node party = some new → new.rank ≤ bound := by
    intro party old bound new before bounded after
    exact (step_rank_le inv.ranks ranks step before after).trans bounded
  refine ⟨treeInv_step inv.tree step, ranks, ?_, ?_⟩
  · intro party node above recorded aboveNode holds under aboveHolds
    have change := step_change step party
    rw [holds] at change
    generalize before : state.node party = old at change
    have parentHolds : ∀ {old : Node ι α}, state.node party = some old →
        old.parent.map Prod.fst = some above → ∃ aboveOld, state.node above = some aboveOld := by
      intro old oldHolds up
      exact treeInv_parent_holds inv.tree ((parentOf_eq oldHolds).trans up)
    cases change with
    | same =>
        obtain ⟨aboveOld, aboveBefore⟩ := parentHolds before (by rw [under, Option.map_some])
        exact falls above aboveOld recorded aboveNode aboveBefore
          (inv.parents party node above recorded aboveOld before under aboveBefore) aboveHolds
    | joined self heard _ =>
        simp only [Option.some.injEq, Prod.mk.injEq] at under
        rw [under.1, under.2] at heard
        obtain ⟨aboveOld, aboveBefore⟩ := inv.tree.senders above recorded heard
        exact falls above aboveOld recorded aboveNode aboveBefore
          (inv.dios above recorded aboveOld heard aboveBefore) aboveHolds
    | @improved _ _ old _ _ self oldUnder heard allowed _ _ =>
        simp only [Option.some.injEq, Prod.mk.injEq] at under
        rw [under.1] at oldUnder
        rw [under.2] at allowed
        have up : old.parent.map Prod.fst = some above := by rw [oldUnder, Option.map_some]
        obtain ⟨aboveOld, aboveBefore⟩ := parentHolds before up
        exact falls above aboveOld recorded aboveNode aboveBefore
          (orderly _ _ _ _ allowed above aboveOld ((parentOf_eq before).trans up) aboveBefore) aboveHolds
    | @registered _ old _ heard =>
        have oldUnder : old.parent = some (above, recorded) := under
        obtain ⟨aboveOld, aboveBefore⟩ := parentHolds before (by rw [oldUnder, Option.map_some])
        exact falls above aboveOld recorded aboveNode aboveBefore
          (inv.parents party old above recorded aboveOld before oldUnder aboveBefore) aboveHolds
  · intro sender rank node heard holds
    rcases step_addition step heard with old | new
    · obtain ⟨oldNode, oldHolds⟩ := inv.tree.senders sender rank old
      exact falls sender oldNode rank node oldHolds (inv.dios sender rank oldNode old oldHolds) holds
    · cases new with
      | dio oldHolds => exact falls sender _ _ node oldHolds le_rfl holds

theorem reachable_orderInv {root : ι → Prop} (small : Fintype.card ι < rules.size)
    (orderly : ∀ state party sender rank, rules.allowed state party sender rank → state.Orderly party rank)
    (reachable : Reachable rules root state) : OrderInv root state :=
  reachable_invariant (fun _ => orderInv_initial) (fun _ _ inv step => orderInv_step small orderly inv step)
    reachable

end

end Rpld.Dodag
