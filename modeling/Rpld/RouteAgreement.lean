import Rpld.Routes

/-!
Upward and downward routes agree: a party asks for its default route when its DAO was
acknowledged, and by then its parent lists it and has asked for the route back.
-/

namespace Rpld

open Dodag Memory Relation

def Frame.IsDaoack (frame : Frame) : Prop := frame.bytes[1]? = some ndRplDaoAck

section

variable {ι : Type} {head : ι → IfaceHead} {key : Key} {frame : Frame}

theorem encodes_isDaoack {msg : Msg ι In6Addr} (encodes : Encodes head key frame msg) (isDaoack : frame.IsDaoack) :
    ∃ sender receiver, ∃ ack : Dag, msg = .ack sender receiver ∧
      frame = ⟨(head sender).ifaddr, (head receiver).ifaddr, ack.daoAckBytes⟩ ∧
      ack.rpl.instanceId = key.instanceId ∧ ack.dodagid = key.dodagid := by
  cases encodes with
  | dio =>
      have code : some ndRplDagIo = some ndRplDaoAck := isDaoack
      exact absurd code (by decide)
  | dao =>
      have code : some ndRplDao = some ndRplDaoAck := isDaoack
      exact absurd code (by decide)
  | @ack sender receiver dag instanceId dodagid =>
      exact ⟨sender, receiver, dag, rfl, rfl, instanceId, dodagid⟩

end

section

variable {ι : Type} [DecidableEq ι] {key : Key} {net : Net ι}

theorem handle_ack {party : ι} {ack : Dag} (instanceId : ack.rpl.instanceId = key.instanceId)
    (dodagid : ack.dodagid = key.dodagid) {src dst : In6Addr} {env : Env} {rest : Nat → UInt8} {effect : Effect}
    (requested : effect ∈ (net.handle party ⟨src, dst, ack.daoAckBytes⟩ env rest).effects) :
    ∃ dag peer, (net.iface party).lookup key = some dag ∧ dag.parent = some peer ∧
      effect = .nlAddRouteDefault dag.iface.ifindex peer.addr := by
  have carried : slice (overlay ack.daoAckBytes rest) 0 ack.daoAckBytes.length = ack.daoAckBytes :=
    slice_overlay _ _
  have long : 4 ≤ ack.daoAckBytes.length := by
    simp [Dag.daoAckBytes, Icmp6Hdr.bytes]
  obtain ⟨reads, handled⟩ := @processDaoack_bytes env (net.iface party) _ _ src ack carried
  rw [(@act_deliver ι _ key net party ⟨src, dst, ack.daoAckBytes⟩ env rest long).2, handled, instanceId,
    dodagid] at requested
  simp only at requested
  cases found : (net.iface party).lookup key with
  | none =>
      rw [Iface.lookup] at found
      simp [found] at requested
  | some dag =>
      rw [Iface.lookup] at found
      rw [found] at requested
      cases under : dag.parent with
      | none => simp [under] at requested
      | some peer =>
          simp only [under, List.mem_singleton] at requested
          exact ⟨dag, peer, rfl, under, requested⟩

/-- Where the first DIO of every party configures its address and self addresses are
distinct: when a DAO-ACK makes a party ask for the default route via its parent, the parent
lists the party's self address as a child behind the party's address, and has asked for the
route to it. -/
theorem net_default_route_registered {root : ι → Prop} (initial : net.Initial key root) {acts : List (Act ι)}
    (run : Runs.AllSteps (Net.act key) (fun later act => later.Enabled key act ∧ later.JoinsConfigured key act)
      net acts)
    (distinct : (acts.foldl (Net.act key) net).SelfDistinct key fun _ => True)
    {party : ι} {frame : Frame} {env : Env} {rest : Nat → UInt8}
    (enabled : (acts.foldl (Net.act key) net).Enabled key (.deliver party frame env rest))
    (isDaoack : frame.IsDaoack) {ifindex : UInt32} {via : In6Addr}
    (requested : .nlAddRouteDefault ifindex via ∈
      ((acts.foldl (Net.act key) net).handle party frame env rest).effects) :
    let final := acts.foldl (Net.act key) net
    ∃ dag peer above aboveDag, (final.iface party).lookup key = some dag ∧ dag.parent = some peer ∧
      via = peer.addr ∧ (final.iface above).ifaddr = via ∧ (final.iface above).lookup key = some aboveDag ∧
      ⟨dag.self, (final.iface party).ifaddr⟩ ∈ aboveDag.childs ∧
      .nlAddRouteVia (final.iface above).ifindex dag.self (final.iface party).ifaddr ∈ final.log above := by
  intro final
  obtain ⟨state, reachable, related⟩ :=
    @run_related ι _ key (fun _ => True) net (fun _ _ _ _ => True) root initial (Net.JoinsConfigured key)
      (fun _ _ act _ _ => by cases act <;> simp [Permitted]) (fun _ _ _ configured => configured) acts run
  have inv := reachable_ackInv (fun _ => trivial) reachable
  have apart := related_distinct related distinct
  obtain ⟨_, member, _, addressed⟩ := enabled
  obtain ⟨msg, heard, encodes⟩ := related.sent frame member
  obtain ⟨sender, receiver, ack, rfl, rfl, instanceId, dodagid⟩ := encodes_isDaoack encodes isDaoack
  have same := addressed_receiver initial.addresses
    (fun party => isLinkLocal_ne_allRpl (initial.linkLocal party)) related addressed
  subst same
  obtain ⟨dag, peer, found, under, effect⟩ := handle_ack instanceId dodagid requested
  rw [Effect.nlAddRouteDefault.injEq] at effect
  obtain ⟨node, aboveNode, holds, up, aboveHolds, listed⟩ := inv.acks sender receiver heard
  obtain ⟨other, otherFound, held⟩ := related_held related holds
  rw [found, Option.some.injEq] at otherFound
  subst otherFound
  obtain ⟨aboveDag, aboveFound, aboveHeld⟩ := related_held related aboveHolds
  -- the entry was made by whichever DAO named the address first, and still points to the party
  obtain ⟨⟨_, below⟩, entry, rfl⟩ := List.mem_map.mp listed
  have pointed := entry_below inv.routes apart holds trivial up aboveHolds entry
  subst pointed
  have parent : peer.addr = (final.iface sender).ifaddr := by
    obtain ⟨recordedNode, recorded, recordedHolds, above⟩ := parentOf_holds up
    rw [holds, Option.some.injEq] at recordedHolds
    have record := held.parent
    rw [under, recordedHolds, above, Option.map_some, Option.some.injEq] at record
    rw [record]
    exact (related_ifaddr related sender).symm
  refine ⟨dag, peer, sender, aboveDag, found, under, effect.2, ?_, aboveFound, ?_, ?_⟩
  · rw [effect.2, parent]
  · rw [aboveHeld.childs, related_ifaddr related, ← held.self]
    exact List.mem_map_of_mem entry
  · rw [related_ifaddr related, ← held.self, related.heads sender]
    exact related.routes sender _ (inv.routes.routes sender aboveNode aboveHolds _ entry)

end

theorem dioBytes_prefixlen (dag : Dag) : dag.dioBytes[30]? = some dag.dest.len := by
  rw [Dag.dioBytes_split, List.getElem?_append_right (by simp),
    List.getElem?_append_right (by simp [dag.dodagid.size])]
  simp [dag.dodagid.size]

theorem genStatelessAddr_isSome {dest : In6Prefix} {llinfo : LlInfo} (length : dest.len = 64)
    (link : llinfo.addrLen = 8) : (genStatelessAddr dest llinfo).isSome := by
  rw [genStatelessAddr, dif_pos ⟨length, link⟩]
  rfl

theorem sampleDio_configures {ι : Type} [DecidableEq ι] {net : Net ι} {party : ι} (key : Key) (host : UInt8)
    (rank : UInt16) (rest : Nat → UInt8) (link : (net.iface party).llinfo.addrLen = 8) :
    net.JoinsConfigured key (.deliver party (sampleDio host rank) .granting rest) := by
  intro _ dio same
  have length := congrArg (fun bytes => bytes[30]?) same
  simp only [sampleDio, dioBytes_prefixlen, Option.some.injEq] at length
  refine ⟨?_, Or.inl rfl, rfl⟩
  exact genStatelessAddr_isSome length.symm link

theorem net_default_route_registered_sampleRegisters :
    let final := sampleRegisters.foldl (Net.act sampleKey) sampleNet
    let ack : Frame := ⟨linkLocal 2, linkLocal 3, ({ rootDag 2 with dsn := 1 } : Dag).daoAckBytes⟩
    .nlAddRouteDefault 1 (linkLocal 2) ∈ (final.handle 2 ack .granting fun _ => 0).effects ∧
      ∃ above aboveDag, (final.iface above).ifaddr = linkLocal 2 ∧
        (final.iface above).lookup sampleKey = some aboveDag ∧ aboveDag.childs ≠ [] := by
  intro final ack
  have requested : .nlAddRouteDefault 1 (linkLocal 2) ∈ (final.handle 2 ack .granting fun _ => 0).effects := by
    decide +kernel
  have configured : Runs.AllSteps (Net.act sampleKey) (Net.JoinsConfigured sampleKey) sampleNet sampleRegisters := by
    refine Runs.allSteps_append.mpr ⟨⟨trivial, sampleDio_configures _ _ _ _ rfl, trivial,
      sampleDio_configures _ _ _ _ rfl, trivial⟩, ?_, trivial⟩
    intro missing
    have holds : (((sampleJoins.foldl (Net.act sampleKey) sampleNet).iface sampleRelay).lookup sampleKey).isSome := by
      decide +kernel
    rw [missing] at holds
    simp at holds
  have enabled : final.Enabled sampleKey (.deliver 2 ack .granting fun _ => 0) := by
    refine ⟨rfl, ?_, Env.granting_allocs, Or.inr rfl⟩
    decide +kernel
  obtain ⟨dag, peer, above, aboveDag, _, _, _, named, aboveFound, listed, _⟩ :=
    net_default_route_registered sampleNet_initial (Runs.allSteps_and sampleRegisters_enabled configured)
      (sampleRegisters_distinct _) enabled rfl requested
  exact ⟨requested, above, aboveDag, named, aboveFound, List.ne_nil_of_mem listed⟩

end Rpld
