import Rpld.DodagRoutes
import Rpld.LoopFreedom

/-!
Routes in the network: what the child tables say about the parties they name, and what a
default route at a party says about the table of its parent.
-/

namespace Rpld

open Dodag Memory Relation

theorem lookupChild_some {dag : Dag} {target : In6Addr} {child : Child}
    (found : dagLookupChild dag target = some child) : child ∈ dag.childs ∧ child.addr = target := by
  rw [dagLookupChild] at found
  have same := List.find?_some found
  rw [beq_iff_eq] at same
  exact ⟨List.mem_of_find?_eq_some found, same⟩

section

variable {ι : Type}

/-- The party forwards what is for the target to the address of the other: the first entry
of its table for the target came from there. -/
def Net.NextHop (key : Key) (target : In6Addr) (net : Net ι) (party below : ι) : Prop :=
  ∃ dag child, (net.iface party).lookup key = some dag ∧ dagLookupChild dag target = some child ∧
    child.fromAddr = (net.iface below).ifaddr

def Net.SelfDistinct (key : Key) (counts : In6Addr → Prop) (net : Net ι) : Prop :=
  ∀ first second firstDag secondDag, (net.iface first).lookup key = some firstDag →
    (net.iface second).lookup key = some secondDag → counts firstDag.self → firstDag.self = secondDag.self →
    first = second

variable {head : ι → IfaceHead} {key : Key} {counts : In6Addr → Prop} {net : Net ι}
  {state : State ι In6Addr}

theorem related_distinct (related : Related head key counts net state) {selves : In6Addr → Prop}
    (distinct : net.SelfDistinct key selves) : state.Distinct selves := by
  intro first second firstNode secondNode firstHolds secondHolds counted same
  obtain ⟨firstDag, firstFound, firstHeld⟩ := related_held related firstHolds
  obtain ⟨secondDag, secondFound, secondHeld⟩ := related_held related secondHolds
  rw [firstHeld.self] at counted same
  rw [secondHeld.self] at same
  exact distinct first second firstDag secondDag firstFound secondFound counted same

theorem lookupChild_eq {dag : Dag} {node : Node ι In6Addr} (shown : Shows head dag node) (target : In6Addr) :
    dagLookupChild dag target = (node.childs.find? (·.1 == target)).map (childEntry head) := by
  rw [dagLookupChild, shown.childs, List.find?_map]
  rfl

theorem related_hop (related : Related head key counts net state) {target : In6Addr} {party below : ι}
    (hop : state.hop target party = some below) : net.NextHop key target party below := by
  rw [State.hop, Option.bind_eq_some_iff] at hop
  obtain ⟨node, holds, first⟩ := hop
  obtain ⟨dag, found, held⟩ := related_held related holds
  rw [Option.map_eq_some_iff] at first
  obtain ⟨entry, first, named⟩ := first
  refine ⟨dag, childEntry head entry, found, ?_, ?_⟩
  · rw [lookupChild_eq held.toShows, first, Option.map_some]
  · rw [related_ifaddr related, ← named]
    rfl

theorem related_no_hop (related : Related head key counts net state) {target : In6Addr} {party : ι} {dag : Dag}
    (found : (net.iface party).lookup key = some dag) (without : state.hop target party = none) :
    dagLookupChild dag target = none := by
  obtain ⟨node, holds, held⟩ := related.held party dag found
  rw [State.hop, holds, Option.bind_some, Option.map_eq_none_iff] at without
  rw [lookupChild_eq held.toShows, without, Option.map_none]

theorem held_entry {party : ι} {dag : Dag} {node : Node ι In6Addr} (held : Held head counts party dag node)
    {child : Child} (listed : child ∈ dag.childs) :
    ∃ below, (child.addr, below) ∈ node.childs ∧ child.fromAddr = (head below).ifaddr := by
  rw [held.childs] at listed
  obtain ⟨entry, member, rfl⟩ := List.mem_map.mp listed
  exact ⟨entry.2, member, rfl⟩

section

variable {root : ι → Prop} {party : ι} {dag : Dag} {child : Child}

theorem related_entry (separate : Separate head) (related : Related head key counts net state)
    (inv : RouteInv counts root state) (found : (net.iface party).lookup key = some dag)
    (listed : child ∈ dag.childs) (counted : counts child.addr) :
    ∃ below belowDag, (net.iface below).ifaddr = child.fromAddr ∧
      (net.iface below).lookup key = some belowDag ∧ net.ParentOf key below party ∧
      (belowDag.self = child.addr ∨ ∃ entry ∈ belowDag.childs, entry.addr = child.addr) := by
  obtain ⟨node, holds, held⟩ := related.held party dag found
  obtain ⟨below, entry, origin⟩ := held_entry held listed
  obtain ⟨up, delivers⟩ := inv.entries party node child.addr below holds entry
  have named : (net.iface below).ifaddr = child.fromAddr := (related_ifaddr related below).trans origin.symm
  have parent := (related_parentOf separate related).mpr up
  cases delivers counted with
  | here belowHolds own =>
      obtain ⟨belowDag, belowFound, belowHeld⟩ := related_held related belowHolds
      exact ⟨below, belowDag, named, belowFound, parent, Or.inl (belowHeld.self.symm.trans own)⟩
  | via hop _ =>
      obtain ⟨belowDag, next, belowFound, first, _⟩ := related_hop related hop
      exact ⟨below, belowDag, named, belowFound, parent, Or.inr ⟨next, lookupChild_some first⟩⟩

theorem related_path (related : Related head key counts net state) (inv : RouteInv counts root state)
    (apart : state.Distinct counts) (found : (net.iface party).lookup key = some dag) (listed : child ∈ dag.childs)
    (counted : counts child.addr) :
    ∃ (path : List ι) (last : ι) (lastDag : Dag), path.head? = some party ∧ path.getLast? = some last ∧
      path.IsChain (net.NextHop key child.addr) ∧ path.Nodup ∧ (net.iface last).lookup key = some lastDag ∧
      lastDag.self = child.addr ∧ dagLookupChild lastDag child.addr = none := by
  obtain ⟨node, holds, held⟩ := related.held party dag found
  obtain ⟨below, entry, _⟩ := held_entry held listed
  have named : child.addr ∈ node.self :: node.childs.map Prod.fst :=
    List.mem_cons_of_mem _ (List.mem_map_of_mem entry)
  obtain ⟨path, last, lastNode, first, ends, chain, lastHolds, own⟩ :=
    delivers_path (dao_delivers inv holds named counted)
  obtain ⟨lastDag, lastFound, lastHeld⟩ := related_held related lastHolds
  refine ⟨path, last, lastDag, first, ends, ?_, path_nodup inv chain, lastFound, ?_, ?_⟩
  · refine chain.imp ?_
    intro above below hop
    exact related_hop related hop
  · exact lastHeld.self.symm.trans own
  · refine related_no_hop related lastFound ?_
    rw [← own] at counted ⊢
    exact no_own_entry inv apart lastHolds counted

theorem related_own (related : Related head key counts net state) (inv : RouteInv counts root state)
    (apart : state.Distinct counts) (found : (net.iface party).lookup key = some dag) (counted : counts dag.self)
    (listed : child ∈ dag.childs) : child.addr ≠ dag.self := by
  intro same
  obtain ⟨node, holds, held⟩ := related.held party dag found
  obtain ⟨below, entry, _⟩ := held_entry held listed
  rw [same, ← held.self] at entry
  rw [← held.self] at counted
  obtain ⟨next, hop⟩ := hop_of_entry holds entry
  rw [no_own_entry inv apart holds counted] at hop
  simp at hop

end

end

section

variable {ι : Type} [DecidableEq ι]

/-- In every state a network reaches: an entry of a child table that is not for `::` came
from a child of the table's owner, which has the address of the entry or an entry for it.
Where set self addresses are distinct, following the entries for an address ends, at no
party twice, at the party that has it, and no party has an entry for its own. -/
theorem net_routes_sound {key : Key} {root : ι → Prop} {net : Net ι} (initial : net.Initial key root)
    {acts : List (Act ι)} (run : Runs.AllSteps (Net.act key) (Net.Enabled key) net acts)
    (distinct : (acts.foldl (Net.act key) net).SelfDistinct key (· ≠ .unspecified)) :
    let final := acts.foldl (Net.act key) net
    (∀ party dag child, (final.iface party).lookup key = some dag → child ∈ dag.childs →
      child.addr ≠ .unspecified →
      ∃ below belowDag, (final.iface below).ifaddr = child.fromAddr ∧
        (final.iface below).lookup key = some belowDag ∧ final.ParentOf key below party ∧
        (belowDag.self = child.addr ∨ ∃ entry ∈ belowDag.childs, entry.addr = child.addr)) ∧
    (∀ party dag child, (final.iface party).lookup key = some dag → child ∈ dag.childs →
      child.addr ≠ .unspecified →
      ∃ (path : List ι) (last : ι) (lastDag : Dag), path.head? = some party ∧ path.getLast? = some last ∧
        path.IsChain (final.NextHop key child.addr) ∧ path.Nodup ∧
        (final.iface last).lookup key = some lastDag ∧ lastDag.self = child.addr ∧
        dagLookupChild lastDag child.addr = none) ∧
    ∀ party dag, (final.iface party).lookup key = some dag → dag.self ≠ .unspecified →
      ∀ child ∈ dag.childs, child.addr ≠ dag.self := by
  intro final
  obtain ⟨state, reachable, related⟩ := run_related_anywhere initial run
  have inv : RouteInv (· ≠ .unspecified) root state := reachable_routeInv reachable
  have apart := related_distinct related distinct
  refine ⟨?_, ?_, ?_⟩
  · intro party dag child found listed counted
    exact related_entry initial.addresses related inv found listed counted
  · intro party dag child found listed counted
    exact related_path related inv apart found listed counted
  · intro party dag found counted child listed
    exact related_own related inv apart found counted listed

end

/-! A child of the second party, in the run in which it joins and its DAO arrives. -/

def sampleSelf (host : UInt8) : In6Addr :=
  ⟨[0xfd, 0, 0, 0, 0, 0, 0, 0, 0, 0, 0, 0, 0, 0, 0, host], rfl⟩

def sampleDao (host parent : UInt8) : Frame :=
  ⟨linkLocal host, linkLocal parent, ({ rootDag host with self := sampleSelf host } : Dag).daoBytes⟩

def sampleRegisters : List (Act (Fin 3)) :=
  sampleJoins ++ [.deliver sampleRelay (sampleDao 3 2) .granting fun _ => 0]

theorem sampleRegisters_enabled :
    Runs.AllSteps (Net.act sampleKey) (Net.Enabled sampleKey) sampleNet sampleRegisters := by
  refine Runs.allSteps_append.mpr ⟨sampleJoins_enabled, ⟨rfl, ?_, Env.granting_allocs, Or.inr rfl⟩, trivial⟩
  decide +kernel

theorem sampleRegisters_distinct (counts : In6Addr → Prop) :
    (sampleRegisters.foldl (Net.act sampleKey) sampleNet).SelfDistinct sampleKey counts := by
  have apart : ∀ first second,
      (((sampleRegisters.foldl (Net.act sampleKey) sampleNet).iface first).lookup sampleKey).map Dag.self =
        (((sampleRegisters.foldl (Net.act sampleKey) sampleNet).iface second).lookup sampleKey).map Dag.self →
      first = second := by decide +kernel
  intro first second firstDag secondDag firstFound secondFound _ same
  apply apart
  rw [firstFound, secondFound, Option.map_some, Option.map_some, same]

theorem net_routes_sound_sampleRegisters :
    let final := sampleRegisters.foldl (Net.act sampleKey) sampleNet
    ∃ dag, (final.iface 1).lookup sampleKey = some dag ∧ ⟨sampleSelf 3, linkLocal 3⟩ ∈ dag.childs ∧
      ∃ below belowDag, (final.iface below).ifaddr = linkLocal 3 ∧
        (final.iface below).lookup sampleKey = some belowDag ∧ final.ParentOf sampleKey below 1 ∧
        (belowDag.self = sampleSelf 3 ∨ ∃ entry ∈ belowDag.childs, entry.addr = sampleSelf 3) := by
  intro final
  have table : ((final.iface 1).lookup sampleKey).map Dag.childs = some [⟨sampleSelf 3, linkLocal 3⟩] := by
    decide +kernel
  obtain ⟨dag, found, childs⟩ := Option.map_eq_some_iff.mp table
  have listed : ⟨sampleSelf 3, linkLocal 3⟩ ∈ dag.childs := by simp [childs]
  exact ⟨dag, found, listed, (net_routes_sound sampleNet_initial sampleRegisters_enabled
    (sampleRegisters_distinct _)).1 1 dag _ found listed (by decide)⟩

end Rpld
