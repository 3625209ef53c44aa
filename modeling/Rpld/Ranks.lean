import Mathlib.Combinatorics.SimpleGraph.Hasse
import Rpld.DodagRanks
import Rpld.LoopFreedom

/-!
Ranks in the network: what bounds them, and when they grow from the parents down. A party
compares a rank with the one its parent's record holds, whoever sent it, but keeps the
parent of its first DIO.
-/

namespace Rpld

open Dodag Memory Relation

def Frame.IsDio (frame : Frame) : Prop := frame.bytes[1]? = some ndRplDagIo

def Frame.dioRank (frame : Frame) : UInt16 := ntohs (frame.bytes.getD 6 0) (frame.bytes.getD 7 0)

theorem dioFrame_rank (src dst : In6Addr) (dag : Dag) : (Frame.mk src dst dag.dioBytes).dioRank = dag.myRank :=
  ntohs_htons dag.myRank

section

variable {ι : Type} {head : ι → IfaceHead} {key : Key} {frame : Frame}

theorem encodes_dio {sender : ι} {rank : Nat} (encodes : Encodes head key frame (.dio sender rank)) :
    frame.IsDio ∧ frame.src = (head sender).ifaddr ∧ frame.dioRank.toNat = rank := by
  cases encodes with
  | @dio _ dag _ _ _ =>
      refine ⟨rfl, rfl, ?_⟩
      rw [dioFrame_rank]

theorem encodes_isDio {msg : Msg ι In6Addr} (encodes : Encodes head key frame msg) (isDio : frame.IsDio) :
    ∃ sender, ∃ dio : Dag, frame = ⟨(head sender).ifaddr, allRplAddr, dio.dioBytes⟩ ∧
      dio.rpl.instanceId = key.instanceId ∧ dio.dodagid = key.dodagid ∧ dio.dest.len.toNat ≤ 128 := by
  cases encodes with
  | @dio sender dag instanceId dodagid valid => exact ⟨sender, dag, rfl, instanceId, dodagid, valid⟩
  | dao =>
      have code : some ndRplDao = some ndRplDagIo := isDio
      exact absurd code (by decide)
  | ack =>
      have code : some ndRplDaoAck = some ndRplDagIo := isDio
      exact absurd code (by decide)

end

section

variable {ι : Type} [DecidableEq ι] [Fintype ι]

def Net.AlongEdges (graph : SimpleGraph ι) (net : Net ι) : Act ι → Prop
  | .emit _ _ => True
  | .deliver party frame _ _ => frame.IsDio → ∀ sender, (net.iface sender).ifaddr = frame.src → graph.Adj sender party

/-- With at most 65535 parties that hear the DIOs of their neighbours, the rank of a holder
below the roots is more than its distance to the nearest of them and at most the number of
parties; it is at least 2, and one above the rank in its parent record without wrapping. -/
theorem net_rank_bounds {graph : SimpleGraph ι} {key : Key} {root : ι → Prop} {net : Net ι}
    (few : Fintype.card ι ≤ 65535) (initial : net.Initial key root) {acts : List (Act ι)}
    (run : Runs.AllSteps (Net.act key) (fun later act => later.Enabled key act ∧ later.AlongEdges graph act)
      net acts) :
    let final := acts.foldl (Net.act key) net
    ∀ party dag, (final.iface party).lookup key = some dag → ¬ root party →
      hops graph root party + 1 ≤ dag.myRank.toNat ∧ dag.myRank.toNat ≤ Fintype.card ι ∧
        2 ≤ dag.myRank.toNat ∧ ∃ peer, dag.parent = some peer ∧ dag.myRank.toNat = peer.rank.toNat + 1 := by
  intro final party dag found notRoot
  have permits : ∀ later image act,
      Related (fun party => (net.iface party).toIfaceHead) key (· ≠ .unspecified) later image →
      later.AlongEdges graph act →
      Permitted (fun party => (net.iface party).toIfaceHead) key
        (fun _ party sender _ => graph.Adj party sender) image act := by
    intro later image act related along
    cases act with
    | emit => trivial
    | deliver receiver frame =>
        intro sender rank encodes
        obtain ⟨isDio, src, _⟩ := encodes_dio encodes
        exact (along isDio sender ((related_ifaddr related sender).trans src.symm)).symm
  obtain ⟨state, reachable, related⟩ := run_related initial permits (fun counted => absurd rfl counted) run
  have small : Fintype.card ι < 65536 := by omega
  have inv : WalkInv graph root state := reachable_walkInv small (fun _ _ _ _ allowed => allowed) reachable
  obtain ⟨node, holds, held⟩ := related.held party dag found
  have ranked := inv.ranks.nodes party node holds
  obtain ⟨above, recorded, under⟩ := (reachable_treeInv reachable).parent party node holds notRoot
  have next := ranked.next _ _ under
  have high := ranked.high.trans (holders_le state)
  rw [← held.rank]
  refine ⟨hops_of_reaches (inv.nodes party node holds), high, by omega, ?_⟩
  refine ⟨_, by rw [held.parent, under, Option.map_some], ?_⟩
  rw [next.2, peerRecord, UInt16.toNat_ofNat', Nat.mod_eq_of_lt (held.recorded _ under)]

end

theorem net_rank_bounds_sampleJoins :
    let final := sampleJoins.foldl (Net.act sampleKey) sampleNet
    ∃ dag, (final.iface 2).lookup sampleKey = some dag ∧
      hops (SimpleGraph.pathGraph 3) (· = 0) 2 + 1 ≤ dag.myRank.toNat := by
  intro final
  have holds : ((final.iface 2).lookup sampleKey).isSome := by decide +kernel
  obtain ⟨dag, found⟩ := Option.isSome_iff_exists.mp holds
  have along : Runs.AllSteps (Net.act sampleKey) (Net.AlongEdges (SimpleGraph.pathGraph 3)) sampleNet sampleJoins := by
    refine ⟨trivial, ?_, trivial, ?_, trivial⟩
    · intro _
      simp only [SimpleGraph.pathGraph_adj]
      decide +kernel
    · intro _
      simp only [SimpleGraph.pathGraph_adj]
      decide +kernel
  exact ⟨dag, found, (net_rank_bounds (by decide) sampleNet_initial
    (Runs.allSteps_and sampleJoins_enabled along) 2 dag found (by decide)).1⟩

end Rpld
