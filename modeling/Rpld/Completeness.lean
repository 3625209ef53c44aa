import Rpld.Lib.Handover
import Rpld.Forwarding
import Rpld.Ranks

/-!
Downward routes are complete. A party that hears a DIO it accepts names all it knows to its
parent, so an address that is handed on in this way from the party that has it up a chain
of parents is in the end listed by every party of the chain, behind the one below it.
-/

namespace Rpld.Dodag

open ParentForest Relation

section

variable {ι α : Type}

def State.Names (state : State ι α) (target : α) (party : ι) : Prop :=
  state.Has target party ∨ ∃ below, state.Entry target party below

end

section

variable {ι α : Type} [DecidableEq ι] [DecidableEq α] {rules : Rules ι α} {state next : State ι α}

theorem has_steps (steps : ReflTransGen (Step rules) state next) {target : α} (counted : rules.counts target)
    {party : ι} (has : state.Has target party) : next.Has target party := by
  refine @Simulation.steps_invariant _ (Step rules) (·.Has target party) ?_ _ _ has steps
  rintro before after ⟨node, holds, rfl⟩ step
  obtain ⟨new, newHolds, evolves⟩ := step_evolves step holds
  exact ⟨new, newHolds, evolves.self counted⟩

theorem names_steps (steps : ReflTransGen (Step rules) state next) {target : α} (counted : rules.counts target)
    {party : ι} (names : state.Names target party) : next.Names target party := by
  rcases names with has | ⟨below, entry⟩
  · exact Or.inl (has_steps steps counted has)
  · exact Or.inr ⟨below, entry_steps steps entry⟩

theorem up_steps (steps : ReflTransGen (Step rules) state next) {party above : ι}
    (path : ReflTransGen (Up state.parentOf) party above) : ReflTransGen (Up next.parentOf) party above := by
  refine ReflTransGen.mono ?_ _ _ path
  intro below other up
  exact parentOf_steps steps up

end

section

variable {ι α : Type} [DecidableEq α] {counts : α → Prop} {root : ι → Prop} {state : State ι α}

/-- An entry for an address above the party that has it points to the party below on the way
up from there. -/
theorem entry_on_way (inv : RouteInv counts root state) (distinct : state.Distinct counts) {target : α}
    (counted : counts target) {leaf party above below : ι} (owner : state.Has target leaf)
    (way : ReflTransGen (Up state.parentOf) leaf party) (up : state.parentOf party = some above)
    (entry : state.Entry target above below) : below = party := by
  obtain ⟨leafNode, leafHolds, rfl⟩ := owner
  obtain ⟨node, holds, listed⟩ := entry
  obtain ⟨belowUp, delivers⟩ := inv.entries above node leafNode.self below holds listed
  obtain ⟨last, lastNode, lastHolds, lastOwn, path⟩ := delivers_under inv (delivers counted)
  have same := distinct leaf last leafNode lastNode leafHolds lastHolds counted lastOwn.symm
  subst same
  have functional : Relator.RightUnique (Up state.parentOf) := fun _ _ _ one two =>
    Option.some.inj (one.symm.trans two)
  have acyclic := treeInv_acyclic inv.tree above
  -- one of the two parties below is above the other, and its own parent comes next on that way
  have alike : ∀ {first second : ι}, state.parentOf first = some above → state.parentOf second = some above →
      ReflTransGen (Up state.parentOf) first second → first = second := by
    intro first second firstUp secondUp between
    rcases ReflTransGen.cases_head between with equal | ⟨next, step, rest⟩
    · exact equal
    · have nextEq : next = above := Option.some.inj (step.symm.trans firstUp)
      subst nextEq
      exact absurd (TransGen.tail' rest secondUp) acyclic
  rcases ReflTransGen.total_of_right_unique functional path way with upper | under
  · exact alike belowUp up upper
  · exact (alike up belowUp under).symm

theorem owner_above (inv : RouteInv counts root state) (distinct : state.Distinct counts) {target : α}
    (counted : counts target) {leaf party above : ι} (owner : state.Has target leaf)
    (way : ReflTransGen (Up state.parentOf) leaf party) (up : state.parentOf party = some above) :
    ¬ state.Has target above := by
  rintro ⟨node, holds, own⟩
  obtain ⟨leafNode, leafHolds, leafOwn⟩ := owner
  have same := distinct leaf above leafNode node leafHolds holds (leafOwn ▸ counted) (leafOwn.trans own.symm)
  subst same
  exact treeInv_acyclic inv.tree leaf (TransGen.tail' way up)

end

end Rpld.Dodag

namespace Rpld

open Dodag Memory ParentForest Relation Runs Handover

section

variable {ι : Type} [DecidableEq ι]

/-- The party announces in a DAO what it knows, on a DIO, and at the end the other hears that
very DAO. -/
def DaoHanded (key : Key) (party next : ι) (net : Net ι) (acts : List (Act ι)) : Prop :=
  ∃ dio env rest between dao later behind,
    acts = .deliver party dio env rest :: (between ++ [.deliver next dao later behind]) ∧ dio.IsDio ∧
    (net.act key (.deliver party dio env rest)).sent = net.sent ++ [dao]

end

section

variable {ι : Type}

/-- What is carried up the chain: the party knows the target, and lies on the way up from the
leaf that has it. -/
structure Net.Carries (key : Key) (target : In6Addr) (leaf : ι) (net : Net ι) (party : ι) : Prop where
  owner : net.Has key target leaf
  names : ∃ dag, (net.iface party).lookup key = some dag ∧ target ∈ dag.daoTargets
  way : ReflTransGen (net.ParentOf key) leaf party

variable {head : ι → IfaceHead} {key : Key} {counts : In6Addr → Prop} {net : Net ι} {state : State ι In6Addr}

theorem related_names (related : Related head key counts net state) {target : In6Addr} {party : ι} :
    (∃ dag, (net.iface party).lookup key = some dag ∧ target ∈ dag.daoTargets) ↔ state.Names target party := by
  constructor
  · rintro ⟨dag, found, named⟩
    obtain ⟨node, holds, held⟩ := related.held party dag found
    rcases List.mem_cons.mp named with own | listed
    · exact Or.inl ⟨node, holds, held.self.trans own.symm⟩
    · obtain ⟨child, member, rfl⟩ := List.mem_map.mp listed
      obtain ⟨below, entry, _⟩ := held_entry held member
      exact Or.inr ⟨below, node, holds, entry⟩
  · rintro (⟨node, holds, rfl⟩ | ⟨below, node, holds, entry⟩)
    · obtain ⟨dag, found, held⟩ := related_held related holds
      exact ⟨dag, found, by rw [held.self]; exact List.mem_cons_self⟩
    · obtain ⟨dag, found, held⟩ := related_held related holds
      refine ⟨dag, found, List.mem_cons_of_mem _ ?_⟩
      rw [held.childs]
      exact List.mem_map.mpr ⟨_, List.mem_map_of_mem entry, rfl⟩

theorem related_way (separate : Separate head) (related : Related head key counts net state) :
    net.ParentOf key = Up state.parentOf := by
  funext party above
  exact propext (related_parentOf separate related)

end

section

variable {ι : Type} [DecidableEq ι] {head : ι → IfaceHead} {key : Key} {root : ι → Prop} {net : Net ι}
  {target : In6Addr} {leaf party : ι}

theorem carries_act (addressed : Addressed head) (reached : net.Reached head key root) {act : Act ι}
    (enabled : net.Enabled key act) (counted : target ≠ .unspecified) (carries : net.Carries key target leaf party) :
    (net.act key act).Carries key target leaf party := by
  obtain ⟨state, reachable, related⟩ := reached
  obtain ⟨next, _, steps, after⟩ := reached_steps addressed reachable related enabled
  obtain ⟨owner, names, way⟩ := carries
  rw [related_has related] at owner
  rw [related_names related] at names
  rw [related_way addressed.separate related] at way
  refine ⟨?_, ?_, ?_⟩
  · rw [related_has after]
    exact has_steps steps counted owner
  · rw [related_names after]
    exact names_steps steps counted names
  · rw [related_way addressed.separate after]
    exact up_steps steps way

theorem carries_run (addressed : Addressed head) (reached : net.Reached head key root) {acts : List (Act ι)}
    (all : AllSteps (Net.act key) (Net.Enabled key) net acts) (counted : target ≠ .unspecified)
    (carries : net.Carries key target leaf party) : (acts.foldl (Net.act key) net).Carries key target leaf party := by
  have invariant := @foldl_invariant _ _ (Net.act key) (Net.Enabled key)
    (fun net => net.Reached head key root ∧ net.Carries key target leaf party) ?_ acts net ⟨reached, carries⟩ all
  · exact invariant.2
  · rintro net act enabled ⟨reached, carries⟩
    exact ⟨reached_act addressed reached enabled, carries_act addressed reached enabled counted carries⟩

theorem carries_entry (addressed : Addressed head) (reached : net.Reached head key root)
    (distinct : net.SelfDistinct key (· ≠ .unspecified)) (counted : target ≠ .unspecified) {above : ι}
    (carries : net.Carries key target leaf party) (up : net.ParentOf key party above)
    (names : ∃ dag, (net.iface above).lookup key = some dag ∧ target ∈ dag.daoTargets) :
    ∃ dag, (net.iface above).lookup key = some dag ∧ ⟨target, (net.iface party).ifaddr⟩ ∈ dag.childs ∧
      net.ParentOf key party above ∧ net.RouteTo target above party := by
  obtain ⟨state, reachable, related⟩ := reached
  have inv : RouteInv (· ≠ .unspecified) root state := reachable_routeInv reachable
  have apart := related_distinct related distinct
  obtain ⟨owner, _, way⟩ := carries
  rw [related_has related] at owner
  rw [related_way addressed.separate related] at way
  have parent := (related_parentOf addressed.separate related).mp up
  rw [related_names related] at names
  rcases names with has | ⟨below, entry⟩
  · exact absurd has (owner_above inv apart counted owner way parent)
  · have same := entry_on_way inv apart counted owner way parent entry
    subst same
    obtain ⟨node, holds, listed⟩ := entry
    obtain ⟨dag, found, held⟩ := related_held related holds
    refine ⟨dag, found, ?_, up, (head above).ifindex, ?_⟩
    · rw [held.childs, related_ifaddr related]
      exact List.mem_map_of_mem listed
    · rw [related_ifaddr related]
      exact related.routes above _ (inv.routes above node holds _ listed)

/-- The frame that a delivered DIO makes a party send is the DAO of the dag it has then, to
its parent. -/
theorem deliver_dao (addressed : Addressed head) (reached : net.Reached head key root) {dio dao : Frame} {env : Env}
    {rest : Nat → UInt8} (enabled : net.Enabled key (.deliver party dio env rest)) (isDio : dio.IsDio)
    (sent : (net.act key (.deliver party dio env rest)).sent = net.sent ++ [dao]) :
    let after := net.act key (.deliver party dio env rest)
    ∃ dag above, (after.iface party).lookup key = some dag ∧ after.ParentOf key party above ∧
      dao = ⟨(head party).ifaddr, (head above).ifaddr, dag.daoBytes⟩ := by
  intro after
  obtain ⟨state, reachable, related⟩ := reached
  obtain ⟨_, _, _, relatedAfter⟩ := reached_steps addressed reachable related enabled
  obtain ⟨_, member, allocs, _⟩ := enabled
  obtain ⟨msg, _, encodes⟩ := related.sent dio member
  obtain ⟨sender, dag, rfl, instanceId, dodagid, valid⟩ := encodes_isDio encodes isDio
  have silent : net.sent ≠ net.sent ++ [dao] := by simp
  cases @deliver_dio ι _ head key net _ state related party sender dag instanceId dodagid valid env allocs rest with
  | kept _ _ _ same _ => exact absurd (same.symm.trans sent) silent
  | recorded heard peer found recorded announced =>
      rcases announced with same | announced
      · exact absurd (same.symm.trans sent) silent
      · have frames := List.append_cancel_left (announced.symm.trans sent)
        rw [List.cons.injEq] at frames
        obtain ⟨above, up, address⟩ := related_default relatedAfter found recorded.under
        refine ⟨heard, above, found, (related_parentOf addressed.separate relatedAfter).mpr up, ?_⟩
        rw [← frames.1, related_ifaddr related, address]

theorem registers_names (dag : Dag) (src : In6Addr) {targets : List In6Addr} (named : target ∈ targets) :
    target ∈ (dag.registers src targets).daoTargets := by
  refine List.mem_cons_of_mem _ ?_
  exact AddNew.offered_mem_addNews (fun _ => rfl) named

theorem deliver_registers (reached : net.Reached head key root) {above : ι} {sender : Dag} {src dst : In6Addr}
    {env : Env} {rest : Nat → UInt8} (instanceId : sender.rpl.instanceId = key.instanceId)
    (dodagid : sender.dodagid = key.dodagid) (named : target ∈ sender.daoTargets) (allocs : env.AllocsSucceed)
    (up : net.ParentOf key party above) (addressed : Addressed head) :
    ∃ dag, (((net.act key (.deliver above ⟨src, dst, sender.daoBytes⟩ env rest)).iface above).lookup key = some dag ∧
      target ∈ dag.daoTargets) := by
  obtain ⟨state, reachable, related⟩ := reached
  obtain ⟨node, holds⟩ := treeInv_parent_holds (reachable_treeInv reachable)
    ((related_parentOf addressed.separate related).mp up)
  obtain ⟨dag, found, _⟩ := related_held related holds
  have long : 4 ≤ sender.daoBytes.length := by
    rw [Dag.daoBytes_length]
    omega
  obtain ⟨reads, handled⟩ := @processDao_daoBytes env (net.iface above) _ _ src sender dag allocs
    (slice_overlay sender.daoBytes rest) (by rw [instanceId, dodagid]; exact found)
  rw [(act_deliver long).1, handled, instanceId, dodagid]
  refine ⟨dag.registers src sender.daoTargets, ?_, registers_names dag src named⟩
  simp only [Net.settle, Function.update_self]
  exact dagLookup_dagWrite_const found (show dag.dodagid = key.dodagid from dagLookup_dodagid found)

theorem daoHanded_carries (addressed : Addressed head) (reached : net.Reached head key root) {next : ι}
    {acts : List (Act ι)} (all : AllSteps (Net.act key) (Net.Enabled key) net acts)
    (handed : DaoHanded key party next net acts) (counted : target ≠ .unspecified)
    (carries : net.Carries key target leaf party) :
    let after := acts.foldl (Net.act key) net
    after.Carries key target leaf next ∧ after.ParentOf key party next := by
  intro after
  obtain ⟨dio, env, rest, between, dao, later, behind, rfl, isDio, sent⟩ := handed
  obtain ⟨hears, follow⟩ := all
  rw [allSteps_append] at follow
  obtain ⟨meanwhile, delivers, _⟩ := follow
  obtain ⟨sender, above, found, up, rfl⟩ := deliver_dao addressed reached hears isDio sent
  have reachedHeard := reached_act addressed reached hears
  have named : target ∈ sender.daoTargets := by
    obtain ⟨other, otherFound, named⟩ := (carries_act addressed reached hears counted carries).names
    rw [found, Option.some.injEq] at otherFound
    rw [otherFound]
    exact named
  obtain ⟨instanceId, dodagid⟩ : sender.rpl.instanceId = key.instanceId ∧ sender.dodagid = key.dodagid := by
    obtain ⟨state, _, related⟩ := reachedHeard
    exact (lookup_key related found).2
  have before := reached_run addressed reachedHeard meanwhile
  have carriesBefore := carries_run addressed reachedHeard meanwhile counted
    (carries_act addressed reached hears counted carries)
  have upBefore := parentOf_run addressed reachedHeard meanwhile up
  have same : above = next := by
    obtain ⟨state, _, related⟩ := before
    exact addressed_receiver addressed.separate addressed.unicast related delivers.2.2.2
  subst same
  have carriesLast := carries_act addressed before delivers counted carriesBefore
  have upLast := parentOf_act addressed before delivers upBefore
  simp only [after, List.foldl_cons, List.foldl_append, List.foldl_nil]
  refine ⟨⟨carriesLast.owner, ?_, carriesLast.way.tail upLast⟩, upLast⟩
  exact deliver_registers before instanceId dodagid named delivers.2.2.1 upBefore addressed

/-- Downward routes are complete: where an address other than `::` is handed on in DAOs from
the party that has it up a chain of parties, with anything before, between and after the
handovers, and no two parties have the same self address in the end other than `::`, each party
of the chain ends with an entry for the address that points to the party below it in the chain,
and has asked for that route. -/
theorem net_routes_complete (initial : net.Initial key root) {earlier acts : List (Act ι)}
    (run : AllSteps (Net.act key) (Net.Enabled key) net (earlier ++ acts)) (counted : target ≠ .unspecified)
    (owner : (earlier.foldl (Net.act key) net).Has key target leaf) {path : List ι} (start : path.head? = some leaf)
    (passes : Passes (Net.act key) (DaoHanded key) path (earlier.foldl (Net.act key) net) acts)
    (distinct : ((earlier ++ acts).foldl (Net.act key) net).SelfDistinct key (· ≠ .unspecified))
    {index : Nat} {below above : ι} (place : path[index]? = some below) (next : path[index + 1]? = some above) :
    let final := (earlier ++ acts).foldl (Net.act key) net
    ∃ dag, (final.iface above).lookup key = some dag ∧ ⟨target, (final.iface below).ifaddr⟩ ∈ dag.childs ∧
      final.ParentOf key below above ∧ final.RouteTo target above below := by
  intro final
  have addressed := initial_addressed initial
  rw [allSteps_append] at run
  obtain ⟨runEarlier, runActs⟩ := run
  have reached := reached_run addressed (initial_reached initial) runEarlier
  obtain ⟨before, during, after, rfl, handed, first⟩ := passes_split passes place next
  rw [allSteps_append, allSteps_append] at runActs
  obtain ⟨runBefore, runDuring, runAfter⟩ := runActs
  have carriesBelow := @passes_holds _ _ _ (Net.act key) (DaoHanded key) (Net.Enabled key)
    (Net.Reached (fun party => (net.iface party).toIfaceHead) key root)
    (fun net party _ => net.Carries key target leaf party)
    (fun _ _ enabled reached => reached_act addressed reached enabled)
    (fun _ _ _ _ enabled reached carries => carries_act addressed reached enabled counted carries)
    (fun _ _ _ _ _ reached all handed carries => (daoHanded_carries addressed reached all handed counted carries).1)
    (path.take (index + 1)) (earlier.foldl (Net.act key) net) before 0 reached runBefore
    ?_ first index below (by rw [List.getElem?_take_of_lt (Nat.lt_succ_self index)]; exact place)
  · have reachedBefore := reached_run addressed reached runBefore
    obtain ⟨carriesAbove, up⟩ := daoHanded_carries addressed reachedBefore runDuring handed counted carriesBelow
    have carriesLater := carries_run addressed reachedBefore runDuring counted carriesBelow
    have reachedLater := reached_run addressed reachedBefore runDuring
    have split : final = after.foldl (Net.act key) (during.foldl (Net.act key)
        (before.foldl (Net.act key) (earlier.foldl (Net.act key) net))) := by
      simp only [final, List.foldl_append]
    rw [split]
    refine carries_entry addressed (reached_run addressed reachedLater runAfter) ?_ counted
      (carries_run addressed reachedLater runAfter counted carriesLater)
      (parentOf_run addressed reachedLater runAfter up)
      (carries_run addressed reachedLater runAfter counted carriesAbove).names
    rw [← split]
    exact distinct
  · intro party same
    have named : path.head? = some party := by
      cases path with
      | nil => simp at start
      | cons point rest => simpa using same
    rw [start, Option.some.injEq] at named
    subst named
    obtain ⟨dag, found, own⟩ := owner
    exact ⟨⟨dag, found, own⟩, ⟨dag, found, by rw [← own]; exact List.mem_cons_self⟩, ReflTransGen.refl⟩

end

/-! The leaf of the sample run is announced to the relay, and by the relay to the root. -/

def sampleRelayDao : Frame :=
  ⟨linkLocal 2, linkLocal 1,
    ({ rootDag 2 with self := sampleSelf 2, childs := [⟨sampleSelf 3, linkLocal 3⟩] } : Dag).daoBytes⟩

def sampleLeafUp : List (Act (Fin 3)) :=
  [.deliver sampleLeaf (sampleDio 2 2) .granting fun _ => 0,
    .deliver sampleRelay (sampleDao 3 2) .granting fun _ => 0]

def sampleRelayUp : List (Act (Fin 3)) :=
  [.deliver sampleRelay (sampleDio 1 1) .granting fun _ => 0,
    .deliver sampleTop sampleRelayDao .granting fun _ => 0]

theorem sampleAnnounces_enabled :
    AllSteps (Net.act sampleKey) (Net.Enabled sampleKey) sampleNet (sampleJoins ++ (sampleLeafUp ++ sampleRelayUp)) := by
  refine allSteps_append.mpr ⟨sampleJoins_enabled, ⟨rfl, ?_, Env.granting_allocs, Or.inl rfl⟩,
    ⟨rfl, ?_, Env.granting_allocs, Or.inr rfl⟩, ⟨rfl, ?_, Env.granting_allocs, Or.inl rfl⟩,
    ⟨rfl, ?_, Env.granting_allocs, Or.inr rfl⟩, trivial⟩
  · decide +kernel
  · decide +kernel
  · decide +kernel
  · decide +kernel

theorem sampleAnnounces_passes :
    Passes (Net.act sampleKey) (DaoHanded sampleKey) [2, 1, 0] (sampleJoins.foldl (Net.act sampleKey) sampleNet)
      (sampleLeafUp ++ sampleRelayUp) := by
  refine ⟨[], sampleLeafUp, sampleRelayUp, rfl,
    ⟨sampleDio 2 2, .granting, fun _ => 0, [], sampleDao 3 2, .granting, fun _ => 0, rfl, rfl, ?_⟩,
    [], sampleRelayUp, [], rfl,
    ⟨sampleDio 1 1, .granting, fun _ => 0, [], sampleRelayDao, .granting, fun _ => 0, rfl, rfl, ?_⟩, trivial⟩
  · decide +kernel
  · decide +kernel

theorem sampleAnnounces_distinct (counts : In6Addr → Prop) :
    ((sampleJoins ++ (sampleLeafUp ++ sampleRelayUp)).foldl (Net.act sampleKey) sampleNet).SelfDistinct sampleKey
      counts := by
  have apart : ∀ first second,
      (((((sampleJoins ++ (sampleLeafUp ++ sampleRelayUp)).foldl (Net.act sampleKey) sampleNet).iface first).lookup
          sampleKey).map Dag.self =
        ((((sampleJoins ++ (sampleLeafUp ++ sampleRelayUp)).foldl (Net.act sampleKey) sampleNet).iface second).lookup
          sampleKey).map Dag.self) →
      first = second := by decide +kernel
  intro first second firstDag secondDag firstFound secondFound _ same
  apply apart
  rw [firstFound, secondFound, Option.map_some, Option.map_some, same]

theorem net_routes_complete_sample :
    let final := (sampleJoins ++ (sampleLeafUp ++ sampleRelayUp)).foldl (Net.act sampleKey) sampleNet
    ∃ dag, (final.iface 0).lookup sampleKey = some dag ∧ ⟨sampleSelf 3, (final.iface 1).ifaddr⟩ ∈ dag.childs ∧
      final.ParentOf sampleKey 1 0 ∧ final.RouteTo (sampleSelf 3) 0 1 := by
  have owned : (((sampleJoins.foldl (Net.act sampleKey) sampleNet).iface 2).lookup sampleKey).map Dag.self =
      some (sampleSelf 3) := by decide +kernel
  have place : ([2, 1, 0] : List (Fin 3))[1]? = some 1 := rfl
  exact net_routes_complete sampleNet_initial sampleAnnounces_enabled (by decide) (Option.map_eq_some_iff.mp owned) rfl
    sampleAnnounces_passes (sampleAnnounces_distinct _) place rfl

end Rpld
