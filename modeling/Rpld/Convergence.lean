import Rpld.Lib.Handover
import Rpld.Reached
import Rpld.Ranks

/-!
Ranks settle. A DIO that is handed on from a root along a path leaves every party of the
path at a rank of at most its place there, and nothing that happens before, between or
after the handovers raises a rank again. Along a shortest path this is the distance.
-/

namespace Rpld

open Dodag Memory Relation Runs Handover

section

variable {ι : Type}

def Net.RankAtMost (key : Key) (net : Net ι) (party : ι) (bound : Nat) : Prop :=
  ∃ dag, (net.iface party).lookup key = some dag ∧ dag.myRank.toNat ≤ bound

variable {head : ι → IfaceHead} {key : Key} {root : ι → Prop} {net : Net ι} {party : ι}

theorem permitted_along {graph : SimpleGraph ι} {counts : In6Addr → Prop} {state : State ι In6Addr}
    (related : Related head key counts net state) {act : Act ι} (along : net.AlongEdges graph act) :
    Permitted head key (fun _ party sender _ => graph.Adj party sender) state act := by
  cases act with
  | emit => trivial
  | deliver receiver frame =>
      intro sender rank encodes
      obtain ⟨isDio, src, _⟩ := encodes_dio encodes
      exact (along isDio sender ((related_ifaddr related sender).trans src.symm)).symm

variable [DecidableEq ι]

/-- The party sends a DIO, and at the end the other hears that very DIO. -/
def DioHanded (key : Key) (party next : ι) (net : Net ι) (acts : List (Act ι)) : Prop :=
  ∃ env between frame later rest, acts = .emit party env :: (between ++ [.deliver next frame later rest]) ∧
    (net.act key (.emit party env)).sent = net.sent ++ [frame]

theorem emit_frame (reached : net.Reached head key root) {env : Env} {frame : Frame} {bound : Nat}
    (low : net.RankAtMost key party bound)
    (sent : (net.act key (.emit party env)).sent = net.sent ++ [frame]) :
    frame.IsDio ∧ frame.dioRank.toNat ≤ bound := by
  obtain ⟨state, _, related⟩ := reached
  obtain ⟨dag, found, rank⟩ := low
  obtain ⟨node, _, held⟩ := related.held party dag found
  simp only [Net.act, found, sendDio_ok env dag held.valid, Net.settle, frames_sendmsg] at sent
  have same := List.append_cancel_left sent
  rw [List.cons.injEq] at same
  rw [← same.1, dioFrame_rank]
  exact ⟨rfl, rank⟩

end

section

variable {ι : Type} [DecidableEq ι] [Fintype ι] {head : ι → IfaceHead} {key : Key} {root : ι → Prop} {net : Net ι}
  {party : ι}

theorem steps_rank_le (few : Fintype.card ι ≤ 65535) {state next : State ι In6Addr}
    (reachable : Reachable anywhere root state) (steps : ReflTransGen (Step anywhere) state next)
    {old : Node ι In6Addr} (before : state.node party = some old) :
    ∃ new, next.node party = some new ∧ new.rank ≤ old.rank := by
  have small : Fintype.card ι < (anywhere : Rules ι In6Addr).size := by
    change Fintype.card ι < 65536
    omega
  have kept : RankInv next ∧ ∃ new, next.node party = some new ∧ new.rank ≤ old.rank := by
    refine @Simulation.steps_invariant _ (Step anywhere)
      (fun later => RankInv later ∧ ∃ new, later.node party = some new ∧ new.rank ≤ old.rank) ?_ _ _
      ⟨reachable_rankInv small reachable, old, before, le_rfl⟩ steps
    rintro later after ⟨ranks, node, holds, low⟩ step
    have ranksAfter := rankInv_step small ranks step
    obtain ⟨new, newHolds, _⟩ := step_evolves step holds
    exact ⟨ranksAfter, new, newHolds, (step_rank_le ranks ranksAfter step holds newHolds).trans low⟩
  exact kept.2

theorem rankAtMost_act (few : Fintype.card ι ≤ 65535) (addressed : Addressed head)
    (reached : net.Reached head key root) {act : Act ι} (enabled : net.Enabled key act) {bound : Nat}
    (low : net.RankAtMost key party bound) : (net.act key act).RankAtMost key party bound := by
  obtain ⟨state, reachable, related⟩ := reached
  obtain ⟨dag, found, rank⟩ := low
  obtain ⟨node, holds, held⟩ := related.held party dag found
  obtain ⟨next, _, steps, after⟩ := reached_steps addressed reachable related enabled
  obtain ⟨new, newHolds, lower⟩ := steps_rank_le few reachable steps holds
  obtain ⟨newDag, newFound, newHeld⟩ := related_held after newHolds
  refine ⟨newDag, newFound, ?_⟩
  rw [← newHeld.rank]
  rw [← held.rank] at rank
  exact lower.trans rank

/-- Whoever hears a DIO has a rank of at most one more from then on: it joins, records the
rank, or had a lower one. -/
theorem deliver_rankAtMost (few : Fintype.card ι ≤ 65535) (reached : net.Reached head key root) {frame : Frame}
    {env : Env} {rest : Nat → UInt8} (enabled : net.Enabled key (.deliver party frame env rest))
    (isDio : frame.IsDio) :
    (net.act key (.deliver party frame env rest)).RankAtMost key party (frame.dioRank.toNat + 1) := by
  obtain ⟨state, reachable, related⟩ := reached
  obtain ⟨_, member, allocs, _⟩ := enabled
  obtain ⟨msg, heard, encodes⟩ := related.sent frame member
  obtain ⟨sender, dio, rfl, instanceId, dodagid, valid⟩ := encodes_isDio encodes isDio
  have carried : (Frame.mk (head sender).ifaddr allRplAddr dio.dioBytes).dioRank = dio.myRank := dioFrame_rank _ _ dio
  rw [carried]
  cases @deliver_dio ι _ head key net _ state related party sender dio instanceId dodagid valid env allocs rest with
  | kept dag found same _ why =>
      refine ⟨dag, same, ?_⟩
      rcases why with isRoot | ⟨peer, under, higher⟩
      · rw [isRoot]
        exact Nat.le_add_left 1 _
      · obtain ⟨node, holds, held⟩ := related.held party dag found
        have small : Fintype.card ι < (anywhere : Rules ι In6Addr).size := by
          change Fintype.card ι < 65536
          omega
        have ranked := (reachable_rankInv small reachable).nodes party node holds
        have record := held.parent
        rw [under] at record
        obtain ⟨⟨above, recorded⟩, parent, rfl⟩ := Option.map_eq_some_iff.mp record.symm
        have next := (ranked.next above recorded parent).2
        have bound := held.recorded _ parent
        rw [UInt16.lt_iff_toNat_lt, peerRecord, UInt16.toNat_ofNat', Nat.mod_eq_of_lt bound] at higher
        rw [← held.rank]
        omega
  | recorded dag peer found recorded _ =>
      refine ⟨dag, found, ?_⟩
      rw [recorded.rank, toNat_succ]
      exact Nat.mod_le _ _

theorem dioHanded_rank (few : Fintype.card ι ≤ 65535) (addressed : Addressed head)
    (reached : net.Reached head key root) {next : ι} {acts : List (Act ι)}
    (all : AllSteps (Net.act key) (Net.Enabled key) net acts) (handed : DioHanded key party next net acts)
    {bound : Nat} (low : net.RankAtMost key party bound) :
    (acts.foldl (Net.act key) net).RankAtMost key next (bound + 1) := by
  obtain ⟨env, between, frame, later, rest, rfl, sent⟩ := handed
  obtain ⟨isDio, rank⟩ := emit_frame reached low sent
  obtain ⟨sends, follow⟩ := all
  rw [allSteps_append] at follow
  obtain ⟨meanwhile, hears, _⟩ := follow
  have before := reached_run addressed (reached_act addressed reached sends) meanwhile
  obtain ⟨dag, found, heard⟩ := deliver_rankAtMost few before hears isDio
  rw [List.foldl_cons, List.foldl_append]
  exact ⟨dag, found, by omega⟩

/-- Where the DIO of a root is handed on along a path, in a run with at most 65535 parties
and with anything before, between and after the handovers, the party at each place of the
path ends with a rank of at most that place, counted from one. -/
theorem passes_rank (few : Fintype.card ι ≤ 65535) (initial : net.Initial key root) {acts : List (Act ι)}
    (run : AllSteps (Net.act key) (Net.Enabled key) net acts) {path : List ι}
    (top : ∀ party, path.head? = some party → root party)
    (passes : Passes (Net.act key) (DioHanded key) path net acts) {index : Nat} {party : ι}
    (place : path[index]? = some party) :
    (acts.foldl (Net.act key) net).RankAtMost key party (1 + index) := by
  have addressed := initial_addressed initial
  refine @passes_holds _ _ _ (Net.act key) (DioHanded key) (Net.Enabled key)
    (Net.Reached (fun party => (net.iface party).toIfaceHead) key root) (Net.RankAtMost key) ?_ ?_ ?_ path net acts 1
    (initial_reached initial) run ?_ passes index party place
  · intro later act enabled reached
    exact reached_act addressed reached enabled
  · intro later act party bound enabled reached low
    exact rankAtMost_act few addressed reached enabled low
  · intro party next later acts bound reached all handed low
    exact dioHanded_rank few addressed reached all handed low
  · intro party first
    obtain ⟨dag, found, configured, _⟩ := initial.roots party (top party first)
    refine ⟨dag, found, ?_⟩
    rw [configured.myRank]
    exact Nat.le_refl 1

theorem along_hops_le {graph : SimpleGraph ι} (few : Fintype.card ι ≤ 65535) (initial : net.Initial key root)
    {acts : List (Act ι)}
    (run : AllSteps (Net.act key) (fun later act => later.Enabled key act ∧ later.AlongEdges graph act) net acts)
    {dag : Dag} (found : ((acts.foldl (Net.act key) net).iface party).lookup key = some dag) :
    hops graph root party + 1 ≤ dag.myRank.toNat := by
  obtain ⟨state, reachable, related⟩ := @run_related ι _ key (· ≠ .unspecified) net
    (fun _ party sender _ => graph.Adj party sender) root initial (Net.AlongEdges graph)
    (fun _ _ _ related along => permitted_along related along) (fun counted => absurd rfl counted) acts run
  have small : Fintype.card ι < 65536 := by omega
  have inv : WalkInv graph root state := reachable_walkInv small (fun _ _ _ _ allowed => allowed) reachable
  obtain ⟨node, holds, held⟩ := related.held party dag found
  rw [← held.rank]
  exact hops_of_reaches (inv.nodes party node holds)

/-- Ranks converge to distances: with at most 65535 parties that hear the DIOs of their
neighbours, a party to which the DIO of a root was handed on along a shortest path has its
distance to the nearest root plus one as its rank, from then on. -/
theorem net_ranks_converge {graph : SimpleGraph ι} (few : Fintype.card ι ≤ 65535) (initial : net.Initial key root)
    {acts : List (Act ι)}
    (run : AllSteps (Net.act key) (fun later act => later.Enabled key act ∧ later.AlongEdges graph act) net acts)
    {path : List ι} (top : ∀ party, path.head? = some party → root party)
    (passes : Passes (Net.act key) (DioHanded key) path net acts) {index : Nat} {party : ι}
    (place : path[index]? = some party) (shortest : index ≤ hops graph root party) :
    ∃ dag, ((acts.foldl (Net.act key) net).iface party).lookup key = some dag ∧ dag.myRank.toNat = index + 1 := by
  have enabled := allSteps_imp (fun _ _ (meets : _ ∧ _) => meets.1) run
  obtain ⟨dag, found, high⟩ := passes_rank few initial enabled top passes place
  have low : (index : ℕ∞) + 1 ≤ dag.myRank.toNat := by
    calc (index : ℕ∞) + 1 ≤ hops graph root party + 1 := by gcongr
      _ ≤ dag.myRank.toNat := along_hops_le few initial run found
  have exactly : index + 1 ≤ dag.myRank.toNat := by exact_mod_cast low
  exact ⟨dag, found, by omega⟩

end

/-! The row of the sample run: the DIO goes from the root to the relay and on to the leaf. -/

theorem sampleJoins_along :
    AllSteps (Net.act sampleKey) (Net.AlongEdges (SimpleGraph.pathGraph 3)) sampleNet sampleJoins := by
  refine ⟨trivial, ?_, trivial, ?_, trivial⟩
  · intro _
    simp only [SimpleGraph.pathGraph_adj]
    decide +kernel
  · intro _
    simp only [SimpleGraph.pathGraph_adj]
    decide +kernel

theorem sampleJoins_passes : Passes (Net.act sampleKey) (DioHanded sampleKey) [0, 1, 2] sampleNet sampleJoins := by
  refine ⟨[], [.emit 0 .granting, .deliver 1 (sampleDio 1 1) .granting fun _ => 0],
    [.emit 1 .granting, .deliver 2 (sampleDio 2 2) .granting fun _ => 0], rfl,
    ⟨.granting, [], sampleDio 1 1, .granting, fun _ => 0, rfl, ?_⟩,
    [], [.emit 1 .granting, .deliver 2 (sampleDio 2 2) .granting fun _ => 0], [], rfl,
    ⟨.granting, [], sampleDio 2 2, .granting, fun _ => 0, rfl, ?_⟩, trivial⟩
  · decide +kernel
  · decide +kernel

theorem sampleRow_hops : ((2 : Nat) : ℕ∞) ≤ hops (SimpleGraph.pathGraph 3) (· = 0) 2 := by
  refine le_iInf₂ ?_
  rintro top rfl
  have apart : (2 : Fin 3) ≠ 0 := by decide
  have far : ¬ (SimpleGraph.pathGraph 3).Adj 2 0 := by
    simp [SimpleGraph.pathGraph_adj]
  have one : 1 ≤ (SimpleGraph.pathGraph 3).edist 2 0 := Order.one_le_iff_pos.mpr (SimpleGraph.edist_pos_of_ne apart)
  have other : (SimpleGraph.pathGraph 3).edist 2 0 ≠ 1 := fun same => far (SimpleGraph.edist_eq_one_iff_adj.mp same)
  exact Order.add_one_le_of_lt (lt_of_le_of_ne one other.symm)

theorem net_ranks_converge_sampleJoins :
    ∃ dag, ((sampleJoins.foldl (Net.act sampleKey) sampleNet).iface 2).lookup sampleKey = some dag ∧
      dag.myRank.toNat = 3 := by
  have top : ∀ party, ([0, 1, 2] : List (Fin 3)).head? = some party → party = 0 := fun _ first =>
    (Option.some.inj first).symm
  exact net_ranks_converge (by decide) sampleNet_initial (allSteps_and sampleJoins_enabled sampleJoins_along) top
    sampleJoins_passes rfl sampleRow_hops

end Rpld
