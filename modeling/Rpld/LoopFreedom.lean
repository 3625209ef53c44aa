import Rpld.NetworkRuns

/-!
The parents recorded by the parties of a network form a forest below the roots, in any
topology and whatever is lost, repeated or overtaken.
-/

namespace Rpld

open Dodag Relation ParentForest

section

variable {ι : Type}

def Net.ParentOf (key : Key) (net : Net ι) (party above : ι) : Prop :=
  ∃ dag peer, (net.iface party).lookup key = some dag ∧ dag.parent = some peer ∧
    peer.addr = (net.iface above).ifaddr

variable {head : ι → IfaceHead} {key : Key} {counts : In6Addr → Prop} {net : Net ι}
  {state : State ι In6Addr}

theorem related_parentOf (separate : Separate head) (related : Related head key counts net state)
    {party above : ι} : net.ParentOf key party above ↔ state.parentOf party = some above := by
  constructor
  · rintro ⟨dag, peer, found, under, named⟩
    obtain ⟨node, holds, held⟩ := related.held party dag found
    have record := held.parent
    rw [under] at record
    cases parent : node.parent with
    | none => simp [parent] at record
    | some pair =>
        simp only [parent, Option.map_some, Option.some.injEq] at record
        rw [record, related_ifaddr related] at named
        have same := separate _ _ named
        rw [parentOf_eq holds, parent, Option.map_some, same]
  · intro up
    obtain ⟨node, recorded, holds, under⟩ := parentOf_holds up
    obtain ⟨dag, found, held⟩ := related_held related holds
    refine ⟨dag, peerRecord head (above, recorded), found, ?_, ?_⟩
    · rw [held.parent, under, Option.map_some]
    · exact (related_ifaddr related above).symm

end

section

variable {ι : Type} [DecidableEq ι]

/-- In every state a network reaches, each holder that is not a root has a parent that holds
the dag too, the parent relation has no cycle, and it leads from every holder to a root. -/
theorem net_loop_free {key : Key} {root : ι → Prop} {net : Net ι} (initial : net.Initial key root)
    {acts : List (Act ι)} (run : Runs.AllSteps (Net.act key) (Net.Enabled key) net acts) :
    let final := acts.foldl (Net.act key) net
    (∀ party dag, (final.iface party).lookup key = some dag → ¬ root party →
      ∃ peer above parentDag, dag.parent = some peer ∧ peer.addr = (final.iface above).ifaddr ∧
        (final.iface above).lookup key = some parentDag) ∧
    (∀ party, ¬ TransGen (final.ParentOf key) party party) ∧
    ∀ party dag, (final.iface party).lookup key = some dag →
      ∃ top, root top ∧ ReflTransGen (final.ParentOf key) party top := by
  intro final
  obtain ⟨state, reachable, related⟩ := run_related_anywhere initial run
  have inv := reachable_treeInv reachable
  have parents : final.ParentOf key = Up state.parentOf := by
    funext party above
    exact propext (related_parentOf initial.addresses related)
  rw [parents]
  refine ⟨?_, treeInv_acyclic inv, ?_⟩
  · intro party dag found notRoot
    obtain ⟨node, holds, held⟩ := related.held party dag found
    obtain ⟨above, recorded, under⟩ := inv.parent party node holds notRoot
    have up : state.parentOf party = some above := by
      rw [parentOf_eq holds, under, Option.map_some]
    obtain ⟨aboveNode, aboveHolds⟩ := treeInv_parent_holds inv up
    obtain ⟨parentDag, parentFound, _⟩ := related_held related aboveHolds
    refine ⟨peerRecord (fun party => (net.iface party).toIfaceHead) (above, recorded), above, parentDag, ?_, ?_,
      parentFound⟩
    · rw [held.parent, under, Option.map_some]
    · exact (related_ifaddr related above).symm
  · intro party dag found
    obtain ⟨node, holds, _⟩ := related.held party dag found
    exact rooted_reaches (inv.rooted party node holds)

end

theorem net_loop_free_sampleJoins :
    let final := sampleJoins.foldl (Net.act sampleKey) sampleNet
    ((final.iface 2).lookup sampleKey).isSome ∧ ∃ top, top = 0 ∧ ReflTransGen (final.ParentOf sampleKey) 2 top := by
  intro final
  have holds : ((final.iface 2).lookup sampleKey).isSome := by decide +kernel
  obtain ⟨dag, found⟩ := Option.isSome_iff_exists.mp holds
  exact ⟨holds, (net_loop_free sampleNet_initial sampleJoins_enabled).2.2 2 dag found⟩

end Rpld
