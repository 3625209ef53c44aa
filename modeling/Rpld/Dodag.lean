import Mathlib.Logic.Function.Basic
import Mathlib.Data.Set.Insert
import Rpld.Lib.AddNew
import Rpld.Lib.ParentForest
import Rpld.Lib.Simulation

/-!
What the daemons do together, without bytes, buffers and tables: parties that hold one
dodag or do not, and the messages they have sent so far. Nothing is ever taken out of
`sent`, so a message that is lost, repeated or overtaken is one that is heard never, twice
or late. The parent of a party is the sender of the first DIO it heard; later DIOs only
lower the rank that is recorded for it.
-/

namespace Rpld.Dodag

open AddNew ParentForest Relation

structure Node (ι α : Type) where
  rank : Nat
  parent : Option (ι × Nat)
  self : α
  childs : List (α × ι)

inductive Msg (ι α : Type)
  | dio (sender : ι) (rank : Nat)
  | dao (sender receiver : ι) (targets : List α)
  | ack (sender receiver : ι)

structure State (ι α : Type) where
  node : ι → Option (Node ι α)
  sent : Set (Msg ι α)
  routes : ι → Set (α × ι)

/-- What varies between networks: ranks are computed modulo `size`, a DIO is heard only
where it is `allowed`, and a self address that `counts` is not given up. -/
structure Rules (ι α : Type) where
  size : Nat
  allowed : State ι α → ι → ι → Nat → Prop
  counts : α → Prop

section

variable {ι α : Type}

structure Initial (root : ι → Prop) (state : State ι α) : Prop where
  roots : ∀ party, root party →
    ∃ node, state.node party = some node ∧ node.rank = 1 ∧ node.parent = none ∧ node.childs = []
  others : ∀ party, ¬ root party → state.node party = none
  sent : state.sent = ∅

def State.parentOf (state : State ι α) (party : ι) : Option ι :=
  (state.node party).bind fun node => node.parent.map Prod.fst

theorem parentOf_eq {state : State ι α} {party : ι} {node : Node ι α} (holds : state.node party = some node) :
    state.parentOf party = node.parent.map Prod.fst := by
  simp [State.parentOf, holds]

theorem parentOf_holds {state : State ι α} {party parent : ι} (under : state.parentOf party = some parent) :
    ∃ node recorded, state.node party = some node ∧ node.parent = some (parent, recorded) := by
  rw [State.parentOf, Option.bind_eq_some_iff] at under
  obtain ⟨node, holds, above⟩ := under
  rw [Option.map_eq_some_iff] at above
  obtain ⟨⟨_, recorded⟩, found, rfl⟩ := above
  exact ⟨node, recorded, holds, found⟩

/-- A party keeps its parent, its children in their order, and a self address that counts. -/
structure Evolves (rules : Rules ι α) (old new : Node ι α) : Prop where
  parent : new.parent.map Prod.fst = old.parent.map Prod.fst
  childs : old.childs <+: new.childs
  self : rules.counts old.self → new.self = old.self

theorem evolves_refl (rules : Rules ι α) (node : Node ι α) : Evolves rules node node :=
  ⟨rfl, List.prefix_refl _, fun _ => rfl⟩

/-! Loop freedom. The parent of a party held the dodag before it did, so the parents lead to
a root; ranks have no part in it. -/

structure TreeInv (root : ι → Prop) (state : State ι α) : Prop where
  rooted : ∀ party node, state.node party = some node → Rooted state.parentOf root party
  parent : ∀ party node, state.node party = some node → ¬ root party →
    ∃ above recorded, node.parent = some (above, recorded)
  roots : ∀ party, root party → ∃ node, state.node party = some node ∧ node.parent = none
  senders : ∀ sender rank, .dio sender rank ∈ state.sent → ∃ node, state.node sender = some node

theorem treeInv_initial {root : ι → Prop} {state : State ι α} (initial : Initial root state) : TreeInv root state := by
  refine ⟨?_, ?_, ?_, ?_⟩
  · intro party node holds
    by_cases isRoot : root party
    · obtain ⟨own, ownHolds, _, top, _⟩ := initial.roots party isRoot
      refine Rooted.top isRoot ?_
      simp [parentOf_eq ownHolds, top]
    · simp [initial.others party isRoot] at holds
  · intro party node holds notRoot
    simp [initial.others party notRoot] at holds
  · intro party isRoot
    obtain ⟨own, ownHolds, _, top, _⟩ := initial.roots party isRoot
    exact ⟨own, ownHolds, top⟩
  · intro sender rank heard
    simp [initial.sent] at heard

theorem treeInv_parent_holds {root : ι → Prop} {state : State ι α} (inv : TreeInv root state)
    {party above : ι} (up : state.parentOf party = some above) : ∃ node, state.node above = some node := by
  obtain ⟨node, _, holds, _⟩ := parentOf_holds up
  cases inv.rooted party node holds with
  | top _ last => simp [last] at up
  | under own rooted =>
      rw [own, Option.some.injEq] at up
      subst up
      cases rooted with
      | top isRoot _ =>
          obtain ⟨aboveNode, aboveHolds, _⟩ := inv.roots _ isRoot
          exact ⟨aboveNode, aboveHolds⟩
      | under next _ =>
          obtain ⟨aboveNode, _, aboveHolds, _⟩ := parentOf_holds next
          exact ⟨aboveNode, aboveHolds⟩

theorem treeInv_acyclic {root : ι → Prop} {state : State ι α} (inv : TreeInv root state) (party : ι) :
    ¬ TransGen (Up state.parentOf) party party := by
  intro cycle
  obtain ⟨above, up, _⟩ := TransGen.head'_iff.mp cycle
  obtain ⟨node, _, holds, _⟩ := parentOf_holds up
  exact rooted_acyclic (inv.rooted party node holds) cycle

end

section

variable {ι α : Type} [DecidableEq ι]

def State.write (state : State ι α) (party : ι) (node : Node ι α) : State ι α :=
  { state with node := Function.update state.node party (some node) }

theorem write_node (state : State ι α) (party : ι) (node : Node ι α) :
    (state.write party node).node party = some node := Function.update_self ..

theorem write_holds {state : State ι α} {party other : ι} {node new : Node ι α}
    (holds : (state.write party node).node other = some new) :
    other = party ∧ node = new ∨ state.node other = some new := by
  by_cases same : other = party
  · subst same
    rw [write_node, Option.some.injEq] at holds
    exact Or.inl ⟨rfl, holds⟩
  · simp only [State.write, Function.update_of_ne same] at holds
    exact Or.inr holds

def State.send (state : State ι α) (msg : Msg ι α) : State ι α :=
  { state with sent := insert msg state.sent }

end

section

variable {ι α : Type} [DecidableEq ι] [DecidableEq α]

def Node.registers (node : Node ι α) (sender : ι) (targets : List α) : Node ι α :=
  { node with childs := addNews Prod.fst (·, sender) node.childs targets }

def State.request (state : State ι α) (party : ι) (node : Node ι α) : State ι α :=
  { state with
    routes := Function.update state.routes party (state.routes party ∪ { entry | entry ∈ node.childs }) }

inductive Step (rules : Rules ι α) : State ι α → State ι α → Prop
  | emit {state : State ι α} {party : ι} {node : Node ι α} (holds : state.node party = some node) :
      Step rules state (state.send (.dio party node.rank))
  | join {state : State ι α} {party sender : ι} {rank : Nat} (self : α)
      (free : state.node party = none) (heard : .dio sender rank ∈ state.sent)
      (allowed : rules.allowed state party sender rank) :
      Step rules state
        (state.write party ⟨(rank + 1) % rules.size, some (sender, rank), self, []⟩)
  | improve {state : State ι α} {party sender parent : ι} {node : Node ι α} {rank recorded : Nat}
      (self : α) (holds : state.node party = some node) (under : node.parent = some (parent, recorded))
      (heard : .dio sender rank ∈ state.sent) (allowed : rules.allowed state party sender rank)
      (accepted : rank ≤ recorded) (keeps : rules.counts node.self → self = node.self) :
      Step rules state
        (state.write party
          { node with rank := (rank + 1) % rules.size, parent := some (parent, rank), self := self })
  | announce {state : State ι α} {party parent : ι} {node : Node ι α} {recorded : Nat}
      (holds : state.node party = some node) (under : node.parent = some (parent, recorded)) :
      Step rules state (state.send (.dao party parent (node.self :: node.childs.map Prod.fst)))
  | register {state : State ι α} {party sender : ι} {node : Node ι α} {targets : List α}
      (holds : state.node party = some node) (heard : .dao sender party targets ∈ state.sent) :
      Step rules state
        (((state.write party (node.registers sender targets)).request party
          (node.registers sender targets)).send (.ack party sender))

def Reachable (rules : Rules ι α) (root : ι → Prop) (state : State ι α) : Prop :=
  ∃ start, Initial root start ∧ ReflTransGen (Step rules) start state

theorem reachable_invariant {rules : Rules ι α} {root : ι → Prop} {inv : State ι α → Prop}
    (initially : ∀ state, Initial root state → inv state)
    (keeps : ∀ state next, inv state → Step rules state next → inv next)
    {state : State ι α} (reachable : Reachable rules root state) : inv state := by
  obtain ⟨start, initial, steps⟩ := reachable
  exact Simulation.steps_invariant keeps (initially start initial) steps

/-! What a step does to one party, and which messages it adds. -/

inductive Change (rules : Rules ι α) (state : State ι α) (party : ι) :
    Option (Node ι α) → Option (Node ι α) → Prop
  | same (node : Option (Node ι α)) : Change rules state party node node
  | joined {sender : ι} {rank : Nat} (self : α) (heard : .dio sender rank ∈ state.sent)
      (allowed : rules.allowed state party sender rank) :
      Change rules state party none
        (some ⟨(rank + 1) % rules.size, some (sender, rank), self, []⟩)
  | improved {sender parent : ι} {node : Node ι α} {rank recorded : Nat} (self : α)
      (under : node.parent = some (parent, recorded)) (heard : .dio sender rank ∈ state.sent)
      (allowed : rules.allowed state party sender rank) (accepted : rank ≤ recorded)
      (keeps : rules.counts node.self → self = node.self) :
      Change rules state party (some node)
        (some { node with rank := (rank + 1) % rules.size, parent := some (parent, rank), self := self })
  | registered {sender : ι} {node : Node ι α} {targets : List α}
      (heard : .dao sender party targets ∈ state.sent) :
      Change rules state party (some node) (some (node.registers sender targets))

inductive Addition (state next : State ι α) : Msg ι α → Prop
  | dio {party : ι} {node : Node ι α} (holds : state.node party = some node) :
      Addition state next (.dio party node.rank)
  | dao {party parent : ι} {node : Node ι α} {recorded : Nat} (holds : state.node party = some node)
      (under : node.parent = some (parent, recorded)) :
      Addition state next (.dao party parent (node.self :: node.childs.map Prod.fst))
  | ack {party sender : ι} {node : Node ι α} {targets : List α}
      (heard : .dao sender party targets ∈ state.sent)
      (registered : next.node party = some (node.registers sender targets)) :
      Addition state next (.ack party sender)

section

variable {rules : Rules ι α} {state next : State ι α}

theorem write_change {party other : ι} {new : Node ι α}
    (change : Change rules state party (state.node party) (some new)) :
    Change rules state other (state.node other) ((state.write party new).node other) := by
  by_cases same : other = party
  · subst same
    simpa [State.write] using change
  · simpa [State.write, same] using Change.same (state.node other)

theorem step_change (step : Step rules state next) (party : ι) :
    Change rules state party (state.node party) (next.node party) := by
  cases step with
  | emit => exact Change.same _
  | announce => exact Change.same _
  | join self free heard allowed =>
      apply write_change
      rw [free]
      exact Change.joined self heard allowed
  | improve self holds under heard allowed accepted keeps =>
      apply write_change
      rw [holds]
      exact Change.improved self under heard allowed accepted keeps
  | @register registrar sender node targets holds heard =>
      have change : Change rules state registrar (state.node registrar)
          (some (node.registers sender targets)) := by
        rw [holds]
        exact Change.registered heard
      exact write_change change

theorem step_addition (step : Step rules state next) {msg : Msg ι α} (member : msg ∈ next.sent) :
    msg ∈ state.sent ∨ Addition state next msg := by
  cases step with
  | join => exact Or.inl member
  | improve => exact Or.inl member
  | emit holds =>
      rcases Set.mem_insert_iff.mp member with new | old
      · rw [new]
        exact Or.inr (Addition.dio holds)
      · exact Or.inl old
  | announce holds under =>
      rcases Set.mem_insert_iff.mp member with new | old
      · rw [new]
        exact Or.inr (Addition.dao holds under)
      · exact Or.inl old
  | register holds heard =>
      rcases Set.mem_insert_iff.mp member with new | old
      · rw [new]
        exact Or.inr (Addition.ack heard (write_node _ _ _))
      · exact Or.inl old

theorem step_evolves (step : Step rules state next) {party : ι} {node : Node ι α}
    (holds : state.node party = some node) :
    ∃ new, next.node party = some new ∧ Evolves rules node new := by
  have change := step_change step party
  rw [holds] at change
  generalize next.node party = after at change
  cases change with
  | same => exact ⟨node, rfl, evolves_refl rules node⟩
  | improved self under _ _ _ keeps =>
      refine ⟨_, rfl, ?_, List.prefix_refl _, keeps⟩
      simp [under]
  | registered heard => exact ⟨_, rfl, rfl, addNews_extends _ _, fun _ => rfl⟩

theorem step_parentOf (step : Step rules state next) {party : ι} {node : Node ι α}
    (holds : state.node party = some node) : next.parentOf party = state.parentOf party := by
  obtain ⟨new, newHolds, evolves⟩ := step_evolves step holds
  rw [parentOf_eq holds, parentOf_eq newHolds]
  exact evolves.parent

end

section

variable {rules : Rules ι α} {root : ι → Prop} {state next : State ι α}

theorem rooted_step (inv : TreeInv root state) (step : Step rules state next) {party : ι}
    (rooted : Rooted state.parentOf root party) : Rooted next.parentOf root party := by
  refine rooted_mono ?_ ?_ rooted
  · intro point above up
    obtain ⟨node, _, holds, _⟩ := parentOf_holds up
    rw [step_parentOf step holds]
    exact up
  · intro point isRoot last
    obtain ⟨node, holds, _⟩ := inv.roots point isRoot
    rw [step_parentOf step holds]
    exact last

theorem treeInv_step (inv : TreeInv root state) (step : Step rules state next) : TreeInv root next := by
  refine ⟨?_, ?_, ?_, ?_⟩
  · intro party node holds
    cases before : state.node party with
    | some old => exact rooted_step inv step (inv.rooted party old before)
    | none =>
        have change := step_change step party
        rw [before, holds] at change
        cases change with
        | joined self heard _ =>
            obtain ⟨senderNode, senderHolds⟩ := inv.senders _ _ heard
            refine Rooted.under ?_ (rooted_step inv step (inv.rooted _ senderNode senderHolds))
            rw [parentOf_eq holds]
            rfl
  · intro party node holds notRoot
    have change := step_change step party
    rw [holds] at change
    generalize before : state.node party = old at change
    cases change with
    | same => exact inv.parent party node before notRoot
    | joined self heard _ => exact ⟨_, _, rfl⟩
    | improved self under heard => exact ⟨_, _, rfl⟩
    | @registered _ old _ heard => exact inv.parent party old before notRoot
  · intro party isRoot
    obtain ⟨node, holds, top⟩ := inv.roots party isRoot
    obtain ⟨new, newHolds, evolves⟩ := step_evolves step holds
    refine ⟨new, newHolds, ?_⟩
    have same := evolves.parent
    rw [top] at same
    simpa using same
  · intro sender rank heard
    have holder : ∃ node, state.node sender = some node := by
      rcases step_addition step heard with old | new
      · exact inv.senders sender rank old
      · cases new with
        | dio holds => exact ⟨_, holds⟩
    obtain ⟨node, holds⟩ := holder
    obtain ⟨new, newHolds, _⟩ := step_evolves step holds
    exact ⟨new, newHolds⟩

theorem reachable_treeInv (reachable : Reachable rules root state) : TreeInv root state :=
  reachable_invariant (fun _ => treeInv_initial) (fun _ _ inv step => treeInv_step inv step) reachable

end

end

end Rpld.Dodag
