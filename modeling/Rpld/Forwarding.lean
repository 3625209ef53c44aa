import Rpld.DodagForwarding
import Rpld.Reached
import Rpld.Routes

/-!
The data plane: what the routes that the parties ask of their kernels make of a packet. A
party sends it along the host route it asked for, without one along its default route, and
keeps it when the packet is for its own address. Every request says what a table says, so
forwarding is that of the protocol.
-/

namespace Rpld

open Dodag Memory Relation UpDown

/-- The tables bear the request out. Only routes to 64-bit prefixes are ever taken back. -/
def Iface.BearsOut (key : Key) (iface : Iface) : Effect → Prop
  | .nlAddRouteVia _ dst via => ∃ dag, iface.lookup key = some dag ∧ ⟨dst, via⟩ ∈ dag.childs
  | .nlAddRouteDefault _ via => ∃ dag peer, iface.lookup key = some dag ∧ dag.parent = some peer ∧ peer.addr = via
  | .nlDelRouteVia _ dst _ => dst.len = 64
  | _ => True

def Effect.isRoute : Effect → Bool
  | .nlAddRouteVia _ _ _ => true
  | .nlAddRouteDefault _ _ => true
  | .nlDelRouteVia _ _ _ => true
  | _ => false

theorem genStatelessAddr_len {dest : In6Prefix} {llinfo : LlInfo} {addr : In6Addr}
    (generated : genStatelessAddr dest llinfo = some addr) : dest.len = 64 := by
  unfold genStatelessAddr at generated
  split at generated
  · rename_i supported
    exact supported.1
  · simp at generated

theorem dagProcessDio_bearsOut {env : Env} {dag : Dag} {effect : Effect} (member : effect ∈ (dagProcessDio env dag).2)
    (key : Key) (iface : Iface) : iface.BearsOut key effect := by
  rcases dagProcessDio_effects member with ⟨addr, rfl⟩ | rfl
  · trivial
  · cases generated : genStatelessAddr dag.dest dag.iface.llinfo with
    | none => simp [dagProcessDio, generated] at member
    | some addr => exact genStatelessAddr_len generated

theorem dioFrame_bearsOut {env : Env} {iface : Iface} {dio : Dag} (valid : dio.dest.len.toNat ≤ 128)
    (allocs : env.AllocsSucceed) (rest : Nat → UInt8) (src : In6Addr) {effect : Effect}
    (member : effect ∈ (processIface env iface (overlay dio.dioBytes rest) (dio.dioBytes.length - 4) src).effects)
    (key : Key) (other : Iface) : other.BearsOut key effect := by
  have carries := dioFrame_carries dio valid rest
  cases found : dagLookup iface dio.rpl.instanceId dio.dodagid with
  | none =>
      obtain ⟨reads, handled⟩ := @processDio_joins env iface _ _ src dio allocs carries valid found
      rw [handled, List.mem_append, List.mem_append] at member
      rcases member with (timer | configured) | dao
      · rcases List.mem_cons.mp timer with rfl | start
        · trivial
        · rw [List.mem_singleton.mp start]
          trivial
      · exact dagProcessDio_bearsOut configured key other
      · rw [List.mem_singleton.mp dao]
        trivial
  | some dag =>
      obtain ⟨reads, handled⟩ := @processDio_known env iface _ _ src dio dag carries found
      rw [handled] at member
      by_cases root : dag.myRank = 1
      · simp [root, dropped] at member
      simp only [root, if_false] at member
      rcases processDioRank_cases (hasParent_of_allocs allocs dag) iface dio.rpl.instanceId dio.dodagid dio.myRank
        src [] reads with ⟨_, refused⟩ | ⟨_, _, exited⟩ | ⟨_, _, answered⟩
      · simp [refused] at member
      · rw [exited] at member
        exact dagProcessDio_bearsOut member key other
      · rw [answered] at member
        rcases List.mem_append.mp member with configured | dao
        · exact dagProcessDio_bearsOut configured key other
        · rw [List.mem_singleton.mp dao]
          trivial

section

variable {env : Env} {iface : Iface} {key : Key} {effect : Effect}

theorem daoFrame_bearsOut {dao : Dag} (instanceId : dao.rpl.instanceId = key.instanceId)
    (dodagid : dao.dodagid = key.dodagid) (allocs : env.AllocsSucceed) (rest : Nat → UInt8) (src : In6Addr) :
    let out := processIface env iface (overlay dao.daoBytes rest) (dao.daoBytes.length - 4) src
    effect ∈ out.effects → out.iface.BearsOut key effect := by
  intro out member
  have carried : slice (overlay dao.daoBytes rest) 0 dao.daoBytes.length = dao.daoBytes := slice_overlay _ _
  cases found : iface.lookup key with
  | none =>
      obtain ⟨reads, handled⟩ := @CarriesDao.missing env iface _ _ src _ _ _ (carriesDao_of_bytes carried)
        (by rw [instanceId, dodagid]; exact found)
      simp [out, handled, dropped] at member
  | some dag =>
      obtain ⟨reads, handled⟩ := @processDao_daoBytes env iface _ _ src dao dag allocs carried
        (by rw [instanceId, dodagid]; exact found)
      have tables : out.iface.lookup key = some (dag.registers src dao.daoTargets) := by
        simp only [out, handled, instanceId, dodagid]
        exact dagLookup_dagWrite_const found (show dag.dodagid = key.dodagid from dagLookup_dodagid found)
      simp only [out, handled, List.mem_append] at member
      rcases member with route | ack
      · obtain ⟨child, listed, rfl⟩ := List.mem_map.mp route
        exact ⟨_, tables, listed⟩
      · rw [List.mem_singleton.mp ack]
        trivial

theorem ackFrame_bearsOut {ack : Dag} (instanceId : ack.rpl.instanceId = key.instanceId)
    (dodagid : ack.dodagid = key.dodagid) (rest : Nat → UInt8) (src : In6Addr) :
    let out := processIface env iface (overlay ack.daoAckBytes rest) (ack.daoAckBytes.length - 4) src
    effect ∈ out.effects → out.iface.BearsOut key effect := by
  intro out member
  have carried : slice (overlay ack.daoAckBytes rest) 0 ack.daoAckBytes.length = ack.daoAckBytes := slice_overlay _ _
  obtain ⟨reads, handled⟩ := @processDaoack_bytes env iface _ _ src ack carried
  simp only [out, handled, instanceId, dodagid] at member ⊢
  cases found : dagLookup iface key.instanceId key.dodagid with
  | none => simp [found] at member
  | some dag =>
      cases under : dag.parent with
      | none => simp [found, under] at member
      | some peer =>
          simp only [found, under, List.mem_singleton] at member
          rw [member]
          exact ⟨dag, peer, found, under, rfl⟩

end

section

variable {ι : Type} {head : ι → IfaceHead} {key : Key} {counts : In6Addr → Prop} {net : Net ι}
  {state : State ι In6Addr}

/-- Every route that was asked for is an entry or the parent in the protocol. -/
structure Logged (head : ι → IfaceHead) (net : Net ι) (state : State ι In6Addr) : Prop where
  hosts : ∀ party ifindex dst via, .nlAddRouteVia ifindex dst via ∈ net.log party →
    ∃ below, state.Entry dst party below ∧ via = (head below).ifaddr
  defaults : ∀ party ifindex via, .nlAddRouteDefault ifindex via ∈ net.log party →
    ∃ above, state.parentOf party = some above ∧ via = (head above).ifaddr
  deletes : ∀ party ifindex dst via, .nlDelRouteVia ifindex dst via ∈ net.log party → dst.len = 64

theorem related_host (related : Related head key counts net state) {party : ι} {dag : Dag} {dst via : In6Addr}
    (found : (net.iface party).lookup key = some dag) (listed : ⟨dst, via⟩ ∈ dag.childs) :
    ∃ below, state.Entry dst party below ∧ via = (head below).ifaddr := by
  obtain ⟨node, holds, held⟩ := related.held party dag found
  obtain ⟨below, entry, origin⟩ := held_entry held listed
  exact ⟨below, ⟨node, holds, entry⟩, origin⟩

theorem related_default (related : Related head key counts net state) {party : ι} {dag : Dag} {peer : Peer}
    (found : (net.iface party).lookup key = some dag) (under : dag.parent = some peer) :
    ∃ above, state.parentOf party = some above ∧ peer.addr = (head above).ifaddr := by
  obtain ⟨node, holds, held⟩ := related.held party dag found
  have record := held.parent
  rw [under] at record
  obtain ⟨⟨above, recorded⟩, parent, rfl⟩ := Option.map_eq_some_iff.mp record.symm
  exact ⟨above, by rw [parentOf_eq holds, parent, Option.map_some], rfl⟩

end

section

variable {ι : Type} [DecidableEq ι] {head : ι → IfaceHead} {key : Key} {counts : In6Addr → Prop} {net : Net ι}
  {state : State ι In6Addr}

theorem settle_bearsOut {party : ι} {iface : Iface} {effects : List Effect} (fault : Option Fault)
    (borne : ∀ effect ∈ effects, iface.BearsOut key effect) {other : ι} {effect : Effect}
    (logged : effect ∈ (net.settle party iface effects fault).log other) :
    effect ∈ net.log other ∨ ((net.settle party iface effects fault).iface other).BearsOut key effect := by
  by_cases same : other = party
  · subst same
    simp only [Net.settle, Function.update_self, List.mem_append] at logged ⊢
    exact logged.imp id (borne effect)
  · simp only [Net.settle, Function.update_of_ne same] at logged
    exact Or.inl logged

theorem act_bearsOut (related : Related head key counts net state) {act : Act ι} (enabled : net.Enabled key act)
    {party : ι} {effect : Effect} (logged : effect ∈ (net.act key act).log party) :
    effect ∈ net.log party ∨ ((net.act key act).iface party).BearsOut key effect := by
  cases act with
  | emit sender env =>
      simp only [Net.act] at logged ⊢
      cases found : (net.iface sender).lookup key with
      | none =>
          rw [found] at logged
          exact Or.inl logged
      | some dag =>
          obtain ⟨node, _, held⟩ := related.held sender dag found
          simp only [found, sendDio_ok env dag held.valid] at logged ⊢
          refine settle_bearsOut none ?_ logged
          intro dio member
          rw [List.mem_singleton.mp member]
          trivial
  | deliver receiver frame env rest =>
      obtain ⟨_, member, allocs, addressed⟩ := enabled
      obtain ⟨msg, _, encodes⟩ := related.sent frame member
      cases encodes with
      | @dio sender dio _ _ valid =>
          rw [(act_deliver (dioBytes_long dio)).1] at logged ⊢
          exact settle_bearsOut _ (fun _ member => dioFrame_bearsOut valid allocs rest _ member key _) logged
      | @dao sender _ dao instanceId dodagid =>
          have long : 4 ≤ dao.daoBytes.length := by
            rw [Dag.daoBytes_length]
            omega
          rw [(act_deliver long).1] at logged ⊢
          exact settle_bearsOut _ (fun _ member => daoFrame_bearsOut instanceId dodagid allocs rest _ member) logged
      | @ack sender _ ack instanceId dodagid =>
          have long : 4 ≤ ack.daoAckBytes.length := by
            simp [Dag.daoAckBytes, Icmp6Hdr.bytes]
          rw [(act_deliver long).1] at logged ⊢
          exact settle_bearsOut _ (fun _ member => ackFrame_bearsOut instanceId dodagid rest _ member) logged

theorem logged_act {rules : Rules ι In6Addr} {next : State ι In6Addr} (related : Related head key counts net state)
    (logged : Logged head net state) {act : Act ι} (enabled : net.Enabled key act)
    (steps : ReflTransGen (Step rules) state next) (after : Related head key counts (net.act key act) next) :
    Logged head (net.act key act) next := by
  refine ⟨?_, ?_, ?_⟩
  · intro party ifindex dst via member
    rcases act_bearsOut related enabled member with old | ⟨dag, found, listed⟩
    · obtain ⟨below, entry, origin⟩ := logged.hosts party ifindex dst via old
      exact ⟨below, entry_steps steps entry, origin⟩
    · exact related_host after found listed
  · intro party ifindex via member
    rcases act_bearsOut related enabled member with old | ⟨dag, peer, found, under, rfl⟩
    · obtain ⟨above, up, origin⟩ := logged.defaults party ifindex via old
      exact ⟨above, parentOf_steps steps up, origin⟩
    · exact related_default after found under
  · intro party ifindex dst via member
    rcases act_bearsOut related enabled member with old | long
    · exact logged.deletes party ifindex dst via old
    · exact long

theorem run_logged {root : ι → Prop} (initial : net.Initial key root)
    (quiet : ∀ party, ∀ effect ∈ net.log party, effect.isRoute = false) {acts : List (Act ι)}
    (run : Runs.AllSteps (Net.act key) (Net.Enabled key) net acts) :
    ∃ state, Reachable anywhere root state ∧
      Related (fun party => (net.iface party).toIfaceHead) key (· ≠ .unspecified)
        (acts.foldl (Net.act key) net) state ∧
      Logged (fun party => (net.iface party).toIfaceHead) (acts.foldl (Net.act key) net) state := by
  obtain ⟨start, reachable, related⟩ := initial_reached initial
  have empty : Logged (fun party => (net.iface party).toIfaceHead) net start := by
    refine ⟨?_, ?_, ?_⟩
    · intro party ifindex dst via member
      exact absurd (quiet party _ member) (by simp [Effect.isRoute])
    · intro party ifindex via member
      exact absurd (quiet party _ member) (by simp [Effect.isRoute])
    · intro party ifindex dst via member
      exact absurd (quiet party _ member) (by simp [Effect.isRoute])
  refine @Runs.foldl_invariant _ _ (Net.act key) (Net.Enabled key) (fun later => ∃ state, Reachable anywhere root state ∧
    Related (fun party => (net.iface party).toIfaceHead) key (· ≠ .unspecified) later state ∧
    Logged (fun party => (net.iface party).toIfaceHead) later state) ?_ acts net ⟨start, reachable, related, empty⟩ run
  rintro later act enabled ⟨state, reachable, related, logged⟩
  obtain ⟨next, reachableNext, steps, after⟩ := reached_steps (initial_addressed initial) reachable related enabled
  exact ⟨next, reachableNext, after, logged_act related logged enabled steps after⟩

end

/-! Forwarding along the routes that were asked for. -/

section

variable {ι : Type}

def Net.RouteTo (target : In6Addr) (net : Net ι) (party below : ι) : Prop :=
  ∃ ifindex, .nlAddRouteVia ifindex target (net.iface below).ifaddr ∈ net.log party

def Net.DefaultTo (net : Net ι) (party above : ι) : Prop :=
  ∃ ifindex, .nlAddRouteDefault ifindex (net.iface above).ifaddr ∈ net.log party

def Net.Has (key : Key) (target : In6Addr) (net : Net ι) (party : ι) : Prop :=
  ∃ dag, (net.iface party).lookup key = some dag ∧ dag.self = target

def Net.Forwards (key : Key) (target : In6Addr) (net : Net ι) : ι → ι → Prop :=
  Forward net.DefaultTo (net.RouteTo target) (net.Has key target)

variable {head : ι → IfaceHead} {key : Key} {counts : In6Addr → Prop} {root : ι → Prop} {net : Net ι}
  {state : State ι In6Addr}

theorem logged_routeTo (separate : Separate head) (related : Related head key counts net state)
    (logged : Logged head net state) (inv : RouteInv counts root state) (target : In6Addr) :
    net.RouteTo target = state.Entry target := by
  funext party below
  refine propext ⟨?_, ?_⟩
  · rintro ⟨ifindex, asked⟩
    obtain ⟨listed, entry, origin⟩ := logged.hosts party ifindex target _ asked
    rw [related_ifaddr related] at origin
    rw [separate below listed origin]
    exact entry
  · rintro ⟨node, holds, entry⟩
    refine ⟨(head party).ifindex, ?_⟩
    rw [related_ifaddr related]
    exact related.routes party _ (inv.routes party node holds _ entry)

theorem logged_defaultTo (separate : Separate head) (related : Related head key counts net state)
    (logged : Logged head net state) {party above : ι} (asked : net.DefaultTo party above) :
    state.parentOf party = some above := by
  obtain ⟨ifindex, asked⟩ := asked
  obtain ⟨parent, up, origin⟩ := logged.defaults party ifindex _ asked
  rw [related_ifaddr related] at origin
  rw [separate above parent origin]
  exact up

theorem related_has (related : Related head key counts net state) (target : In6Addr) :
    net.Has key target = state.Has target := by
  funext party
  refine propext ⟨?_, ?_⟩
  · rintro ⟨dag, found, own⟩
    obtain ⟨node, holds, held⟩ := related.held party dag found
    exact ⟨node, holds, held.self.trans own⟩
  · rintro ⟨node, holds, own⟩
    obtain ⟨dag, found, held⟩ := related_held related holds
    exact ⟨dag, found, held.self.symm.trans own⟩

end

section

variable {ι : Type} [DecidableEq ι]

/-- In every state a network reaches from one in which no route was asked for: a party has
asked for one next hop for each address and for one default route, each of them the address
of a party, and takes none of them back. Following the routes for an address other than `::`
visits no party twice; and from a party from which the default routes lead to one with a route
for the address, it ends at a party that has it. -/
theorem net_forwarding {key : Key} {root : ι → Prop} {net : Net ι} (initial : net.Initial key root)
    (quiet : ∀ party, ∀ effect ∈ net.log party, effect.isRoute = false) {acts : List (Act ι)}
    (run : Runs.AllSteps (Net.act key) (Net.Enabled key) net acts) :
    let final := acts.foldl (Net.act key) net
    (∀ party ifindex target via, .nlAddRouteVia ifindex target via ∈ final.log party →
      ∃ below, via = (final.iface below).ifaddr) ∧
    (∀ party ifindex via, .nlAddRouteDefault ifindex via ∈ final.log party →
      ∃ above, via = (final.iface above).ifaddr) ∧
    (∀ target party below other, final.RouteTo target party below → final.RouteTo target party other →
      below = other) ∧
    (∀ party above other, final.DefaultTo party above → final.DefaultTo party other → above = other) ∧
    (∀ party ifindex dst via, .nlDelRouteVia ifindex dst via ∈ final.log party → dst.len = 64) ∧
    ∀ target, target ≠ .unspecified →
      (∀ path : List ι, path.IsChain (final.Forwards key target) → path.Nodup) ∧
      ∀ party above below, ReflTransGen final.DefaultTo party above → final.RouteTo target above below →
        ∃ last, ReflTransGen (final.Forwards key target) party last ∧ final.Has key target last := by
  intro final
  obtain ⟨state, reachable, related, logged⟩ := run_logged initial quiet run
  have inv : RouteInv (· ≠ .unspecified) root state := reachable_routeInv reachable
  have routes := logged_routeTo initial.addresses related logged inv
  have rises : ∀ party above, final.DefaultTo party above → state.parentOf party = some above := fun _ _ asked =>
    logged_defaultTo initial.addresses related logged asked
  refine ⟨?_, ?_, ?_, ?_, logged.deletes, ?_⟩
  · intro party ifindex target via asked
    obtain ⟨below, _, origin⟩ := logged.hosts party ifindex target via asked
    exact ⟨below, origin.trans (related_ifaddr related below).symm⟩
  · intro party ifindex via asked
    obtain ⟨above, _, origin⟩ := logged.defaults party ifindex via asked
    exact ⟨above, origin.trans (related_ifaddr related above).symm⟩
  · intro target party below other one two
    rw [routes] at one two
    exact entry_unique (reachable_entriesDistinct reachable) one two
  · intro party above other one two
    exact Option.some.inj ((rises party above one).symm.trans (rises party other two))
  · intro target counted
    have leads := leads_of_routeInv inv counted rises
    rw [Net.Forwards, routes, related_has related]
    refine ⟨fun path chain => forward_nodup leads chain, ?_⟩
    intro party above below up route
    exact forward_arrives leads up route

end

/-! The relay of the sample run forwards what is for the leaf. -/

theorem sampleNet_quiet : ∀ party, ∀ effect ∈ sampleNet.log party, effect.isRoute = false := by
  intro party effect member
  simp [sampleNet] at member

theorem net_forwarding_sampleRegisters :
    let final := sampleRegisters.foldl (Net.act sampleKey) sampleNet
    final.RouteTo (sampleSelf 3) 1 2 ∧
      ∃ last, ReflTransGen (final.Forwards sampleKey (sampleSelf 3)) 1 last ∧ final.Has sampleKey (sampleSelf 3) last := by
  intro final
  have asked : .nlAddRouteVia 1 (sampleSelf 3) (final.iface 2).ifaddr ∈ final.log 1 := by decide +kernel
  have route : final.RouteTo (sampleSelf 3) 1 2 := ⟨1, asked⟩
  obtain ⟨_, _, _, _, _, delivers⟩ := net_forwarding sampleNet_initial sampleNet_quiet sampleRegisters_enabled
  exact ⟨route, (delivers (sampleSelf 3) (by decide)).2 1 1 2 ReflTransGen.refl route⟩

end Rpld
