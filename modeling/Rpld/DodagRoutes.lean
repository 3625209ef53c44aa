import Rpld.Dodag

/-!
Routes in the protocol. A child entry was named by a DAO of the party it points to, which
was then a child of the table's owner and knew the target itself; parents, tables and
addresses that count only grow, so all of this still holds. Following the entries for a
target therefore runs against the parent pointers and ends at the party that has it.
-/

namespace Rpld.Dodag

open AddNew ParentForest Relation

section

variable {ι α : Type}

theorem initial_childs {root : ι → Prop} {state : State ι α} (initial : Initial root state) {party : ι}
    {node : Node ι α} (holds : state.node party = some node) : node.childs = [] := by
  by_cases isRoot : root party
  · obtain ⟨own, ownHolds, _, _, empty⟩ := initial.roots party isRoot
    rw [holds, Option.some.injEq] at ownHolds
    rw [ownHolds]
    exact empty
  · simp [initial.others party isRoot] at holds

def State.Distinct (counts : α → Prop) (state : State ι α) : Prop :=
  ∀ first second firstNode secondNode, state.node first = some firstNode → state.node second = some secondNode →
    counts firstNode.self → firstNode.self = secondNode.self → first = second

end

section

variable {ι α : Type} [DecidableEq α]

/-- The neighbour to which the party forwards what is for the target. -/
def State.hop (state : State ι α) (target : α) (party : ι) : Option ι :=
  (state.node party).bind fun node => (node.childs.find? (·.1 == target)).map Prod.snd

theorem hop_holds {state : State ι α} {target : α} {party below : ι}
    (hop : state.hop target party = some below) :
    ∃ node, state.node party = some node ∧ (target, below) ∈ node.childs := by
  rw [State.hop, Option.bind_eq_some_iff] at hop
  obtain ⟨node, holds, first⟩ := hop
  rw [Option.map_eq_some_iff] at first
  obtain ⟨⟨key, child⟩, found, rfl⟩ := first
  have same := List.find?_some found
  rw [beq_iff_eq] at same
  subst same
  exact ⟨node, holds, List.mem_of_find?_eq_some found⟩

theorem hop_of_entry {state : State ι α} {target : α} {party below : ι} {node : Node ι α}
    (holds : state.node party = some node) (entry : (target, below) ∈ node.childs) :
    ∃ next, state.hop target party = some next := by
  cases found : node.childs.find? (·.1 == target) with
  | none =>
      rw [List.find?_eq_none] at found
      exact absurd (beq_self_eq_true target) (found _ entry)
  | some first => exact ⟨first.2, by simp [State.hop, holds, found]⟩

/-- Forwarding from the party comes to a party that has the target. -/
inductive Delivers (state : State ι α) (target : α) : ι → Prop
  | here {party : ι} {node : Node ι α} (holds : state.node party = some node) (own : node.self = target) :
      Delivers state target party
  | via {party below : ι} (hop : state.hop target party = some below) (delivers : Delivers state target below) :
      Delivers state target party

structure RouteInv (counts : α → Prop) (root : ι → Prop) (state : State ι α) : Prop where
  tree : TreeInv root state
  daos : ∀ sender receiver targets, .dao sender receiver targets ∈ state.sent →
    state.parentOf sender = some receiver ∧ ∀ target ∈ targets, counts target → Delivers state target sender
  entries : ∀ party node target below, state.node party = some node → (target, below) ∈ node.childs →
    state.parentOf below = some party ∧ (counts target → Delivers state target below)
  routes : ∀ party node, state.node party = some node → ∀ entry ∈ node.childs, entry ∈ state.routes party

theorem routeInv_initial {root : ι → Prop} {state : State ι α} (counts : α → Prop) (initial : Initial root state) :
    RouteInv counts root state := by
  refine ⟨treeInv_initial initial, ?_, ?_, ?_⟩
  · intro sender receiver targets heard
    simp [initial.sent] at heard
  · intro party node target below holds entry
    simp [initial_childs initial holds] at entry
  · intro party node holds entry member
    simp [initial_childs initial holds] at member

section

variable {counts : α → Prop} {root : ι → Prop} {state : State ι α}

theorem delivers_under (inv : RouteInv counts root state) {target : α} {party : ι}
    (delivers : Delivers state target party) :
    ∃ last node, state.node last = some node ∧ node.self = target ∧ ReflTransGen (Up state.parentOf) last party := by
  induction delivers with
  | here holds own => exact ⟨_, _, holds, own, ReflTransGen.refl⟩
  | via hop _ ih =>
      obtain ⟨last, node, holds, own, path⟩ := ih
      obtain ⟨above, aboveHolds, entry⟩ := hop_holds hop
      exact ⟨last, node, holds, own, path.tail (inv.entries _ _ _ _ aboveHolds entry).1⟩

theorem delivers_path {target : α} {party : ι} (delivers : Delivers state target party) :
    ∃ (path : List ι) (last : ι) (node : Node ι α), path.head? = some party ∧ path.getLast? = some last ∧
      (path.IsChain fun above below => state.hop target above = some below) ∧
      state.node last = some node ∧ node.self = target := by
  induction delivers with
  | @here party node holds own => exact ⟨[party], party, node, rfl, rfl, List.isChain_singleton _, holds, own⟩
  | @via party below hop _ ih =>
      obtain ⟨path, last, node, first, final, chain, holds, own⟩ := ih
      cases path with
      | nil => simp at first
      | cons point rest =>
          rw [List.head?_cons, Option.some.injEq] at first
          subst first
          exact ⟨party :: point :: rest, last, node, rfl, final, List.isChain_cons_cons.mpr ⟨hop, chain⟩, holds, own⟩

theorem path_nodup (inv : RouteInv counts root state) {target : α} {path : List ι}
    (chain : path.IsChain fun above below => state.hop target above = some below) : path.Nodup := by
  refine chain_nodup (treeInv_acyclic inv.tree) (chain.imp ?_)
  intro above below hop
  obtain ⟨node, holds, entry⟩ := hop_holds hop
  exact (inv.entries _ _ _ _ holds entry).1

theorem no_own_entry (inv : RouteInv counts root state) (distinct : state.Distinct counts) {party : ι}
    {node : Node ι α} (holds : state.node party = some node) (counted : counts node.self) :
    state.hop node.self party = none := by
  rw [Option.eq_none_iff_forall_ne_some]
  intro below hop
  obtain ⟨own, ownHolds, entry⟩ := hop_holds hop
  rw [holds, Option.some.injEq] at ownHolds
  subst ownHolds
  obtain ⟨up, delivers⟩ := inv.entries party node node.self below holds entry
  obtain ⟨last, lastNode, lastHolds, lastOwn, path⟩ := delivers_under inv (delivers counted)
  have same := distinct party last node lastNode holds lastHolds counted lastOwn.symm
  subst same
  exact treeInv_acyclic inv.tree party (TransGen.tail' path up)

theorem entry_below (inv : RouteInv counts root state) (distinct : state.Distinct counts) {party above below : ι}
    {node aboveNode : Node ι α} (holds : state.node party = some node) (counted : counts node.self)
    (up : state.parentOf party = some above) (aboveHolds : state.node above = some aboveNode)
    (entry : (node.self, below) ∈ aboveNode.childs) : below = party := by
  obtain ⟨belowUp, delivers⟩ := inv.entries above aboveNode node.self below aboveHolds entry
  obtain ⟨last, lastNode, lastHolds, lastOwn, path⟩ := delivers_under inv (delivers counted)
  have same := distinct party last node lastNode holds lastHolds counted lastOwn.symm
  subst same
  rcases ReflTransGen.cases_head path with equal | ⟨next, first, rest⟩
  · exact equal.symm
  · -- the way up from the party passes the parent, and the entry's party is below it again
    have nextEq : next = above := Option.some.inj (first.symm.trans up)
    subst nextEq
    exact absurd (TransGen.tail' rest belowUp) (treeInv_acyclic inv.tree next)

theorem dao_delivers (inv : RouteInv counts root state) {party : ι} {node : Node ι α}
    (holds : state.node party = some node) {target : α} (named : target ∈ node.self :: node.childs.map Prod.fst)
    (counted : counts target) : Delivers state target party := by
  rcases List.mem_cons.mp named with own | listed
  · exact Delivers.here holds own.symm
  · obtain ⟨⟨key, child⟩, entry, rfl⟩ := List.mem_map.mp listed
    obtain ⟨below, hop⟩ := hop_of_entry holds entry
    obtain ⟨own, ownHolds, first⟩ := hop_holds hop
    exact Delivers.via hop ((inv.entries _ _ _ _ ownHolds first).2 counted)

/-! Where every address counts, a DAO names the address its sender has now, so the parent
that acknowledges it lists that address. -/

structure AckInv (counts : α → Prop) (root : ι → Prop) (state : State ι α) : Prop where
  routes : RouteInv counts root state
  daos : ∀ sender receiver targets, .dao sender receiver targets ∈ state.sent →
    ∃ node, state.node sender = some node ∧ node.self ∈ targets
  acks : ∀ sender receiver, .ack sender receiver ∈ state.sent →
    ∃ node above, state.node receiver = some node ∧ state.parentOf receiver = some sender ∧
      state.node sender = some above ∧ node.self ∈ above.childs.map Prod.fst

theorem ackInv_initial (initial : Initial root state) : AckInv counts root state := by
  refine ⟨routeInv_initial counts initial, ?_, ?_⟩
  · intro sender receiver targets heard
    simp [initial.sent] at heard
  · intro sender receiver heard
    simp [initial.sent] at heard

end

end

section

variable {ι α : Type} [DecidableEq ι] [DecidableEq α] {rules : Rules ι α} {root : ι → Prop}
  {state next : State ι α}

theorem hop_step (step : Step rules state next) {target : α} {party below : ι}
    (hop : state.hop target party = some below) : next.hop target party = some below := by
  rw [State.hop, Option.bind_eq_some_iff] at hop
  obtain ⟨node, holds, first⟩ := hop
  obtain ⟨new, newHolds, evolves⟩ := step_evolves step holds
  obtain ⟨more, grown⟩ := evolves.childs
  rw [Option.map_eq_some_iff] at first
  obtain ⟨entry, found, named⟩ := first
  rw [State.hop, newHolds, Option.bind_some, ← grown, List.find?_append, found, Option.some_or, Option.map_some, named]

theorem delivers_step (step : Step rules state next) {target : α} (counted : rules.counts target) {party : ι}
    (delivers : Delivers state target party) : Delivers next target party := by
  induction delivers with
  | here holds own =>
      obtain ⟨new, newHolds, evolves⟩ := step_evolves step holds
      exact Delivers.here newHolds ((evolves.self (own ▸ counted)).trans own)
  | via hop _ ih => exact Delivers.via (hop_step step hop) ih

theorem parentOf_step (step : Step rules state next) {party above : ι} (up : state.parentOf party = some above) :
    next.parentOf party = some above := by
  obtain ⟨node, _, holds, _⟩ := parentOf_holds up
  rw [step_parentOf step holds]
  exact up

theorem step_routes (step : Step rules state next) (party : ι) : state.routes party ⊆ next.routes party := by
  cases step with
  | emit => exact Set.Subset.rfl
  | join => exact Set.Subset.rfl
  | improve => exact Set.Subset.rfl
  | announce => exact Set.Subset.rfl
  | @register registrar sender node targets =>
      by_cases same : party = registrar
      · subst same
        simp only [State.send, State.request, State.write, Function.update_self]
        exact Set.subset_union_left
      · simp only [State.send, State.request, State.write, Function.update_of_ne same]
        exact Set.Subset.rfl

theorem step_requests (step : Step rules state next) {party : ι} {new : Node ι α}
    (holds : next.node party = some new) {entry : α × ι} (member : entry ∈ new.childs) :
    (∃ old, state.node party = some old ∧ entry ∈ old.childs) ∨ entry ∈ next.routes party := by
  cases step with
  | emit => exact Or.inl ⟨new, holds, member⟩
  | announce => exact Or.inl ⟨new, holds, member⟩
  | join =>
      rcases write_holds holds with ⟨_, rfl⟩ | old
      · simp at member
      · exact Or.inl ⟨new, old, member⟩
  | improve self nodeHolds =>
      rcases write_holds holds with ⟨rfl, rfl⟩ | old
      · exact Or.inl ⟨_, nodeHolds, member⟩
      · exact Or.inl ⟨new, old, member⟩
  | register =>
      rcases write_holds holds with ⟨rfl, rfl⟩ | old
      · right
        simp only [State.send, State.request, Function.update_self]
        exact Or.inr member
      · exact Or.inl ⟨new, old, member⟩

theorem routeInv_step (inv : RouteInv rules.counts root state) (step : Step rules state next) :
    RouteInv rules.counts root next := by
  refine ⟨treeInv_step inv.tree step, ?_, ?_, ?_⟩
  · intro sender receiver targets heard
    have before : state.parentOf sender = some receiver ∧
        ∀ target ∈ targets, rules.counts target → Delivers state target sender := by
      rcases step_addition step heard with old | new
      · exact inv.daos sender receiver targets old
      · cases new with
        | dao holds under =>
            refine ⟨by rw [parentOf_eq holds, under, Option.map_some], ?_⟩
            intro target named counted
            exact dao_delivers inv holds named counted
    refine ⟨parentOf_step step before.1, ?_⟩
    intro target named counted
    exact delivers_step step counted (before.2 target named counted)
  · intro party node target below holds entry
    have before : state.parentOf below = some party ∧ (rules.counts target → Delivers state target below) := by
      have change := step_change step party
      rw [holds] at change
      generalize old : state.node party = oldNode at change
      cases change with
      | same => exact inv.entries party node target below old entry
      | joined => simp at entry
      | improved => exact inv.entries party _ target below old entry
      | registered heard =>
          rcases mem_addNews entry with listed | ⟨offered, named, _, made⟩
          · exact inv.entries party _ target below old listed
          · rw [Prod.mk.injEq] at made
            rw [made.1, made.2]
            have known := inv.daos _ _ _ heard
            exact ⟨known.1, known.2 offered named⟩
    refine ⟨parentOf_step step before.1, ?_⟩
    intro counted
    exact delivers_step step counted (before.2 counted)
  · intro party node holds entry member
    rcases step_requests step holds member with ⟨old, oldHolds, oldMember⟩ | requested
    · exact step_routes step party (inv.routes party old oldHolds entry oldMember)
    · exact requested

theorem reachable_routeInv (reachable : Reachable rules root state) : RouteInv rules.counts root state :=
  reachable_invariant (fun _ => routeInv_initial rules.counts) (fun _ _ inv step => routeInv_step inv step) reachable

theorem ackInv_step (every : ∀ addr, rules.counts addr) (inv : AckInv rules.counts root state)
    (step : Step rules state next) : AckInv rules.counts root next := by
  have keeps : ∀ party node, state.node party = some node →
      ∃ new, next.node party = some new ∧ new.self = node.self ∧ node.childs <+: new.childs := by
    intro party node holds
    obtain ⟨new, newHolds, evolves⟩ := step_evolves step holds
    exact ⟨new, newHolds, evolves.self (every _), evolves.childs⟩
  refine ⟨routeInv_step inv.routes step, ?_, ?_⟩
  · intro sender receiver targets heard
    have before : ∃ node, state.node sender = some node ∧ node.self ∈ targets := by
      rcases step_addition step heard with old | new
      · exact inv.daos sender receiver targets old
      · cases new with
        | dao holds under => exact ⟨_, holds, by simp⟩
    obtain ⟨node, holds, named⟩ := before
    obtain ⟨new, newHolds, self, _⟩ := keeps sender node holds
    exact ⟨new, newHolds, self ▸ named⟩
  · intro sender receiver heard
    rcases step_addition step heard with old | new
    · obtain ⟨node, above, holds, up, aboveHolds, listed⟩ := inv.acks sender receiver old
      obtain ⟨new, newHolds, self, _⟩ := keeps receiver node holds
      obtain ⟨newAbove, newAboveHolds, _, grown⟩ := keeps sender above aboveHolds
      refine ⟨new, newAbove, newHolds, parentOf_step step up, newAboveHolds, ?_⟩
      rw [self]
      exact (grown.map Prod.fst).subset listed
    · cases new with
      | ack dao registered =>
          obtain ⟨node, holds, named⟩ := inv.daos _ _ _ dao
          obtain ⟨new, newHolds, self, _⟩ := keeps receiver node holds
          refine ⟨new, _, newHolds, parentOf_step step (inv.routes.daos _ _ _ dao).1, registered, ?_⟩
          rw [self]
          exact offered_mem_addNews (fun _ => rfl) named

theorem reachable_ackInv (every : ∀ addr, rules.counts addr) (reachable : Reachable rules root state) :
    AckInv rules.counts root state :=
  reachable_invariant (fun _ => ackInv_initial) (fun _ _ inv step => ackInv_step every inv step) reachable

end

end Rpld.Dodag
