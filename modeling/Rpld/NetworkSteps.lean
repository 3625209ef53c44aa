import Rpld.Network

/-!
The network refines the protocol. One lemma for each way a party handles an event says
which protocol steps answer it; a run of the network is then answered by a run of the
protocol, in states that are related throughout.
-/

namespace Rpld

open Memory Dodag Relation

/-! Frames among the effects. -/

theorem frames_append (first second : List Effect) : frames (first ++ second) = frames first ++ frames second :=
  List.filterMap_append

theorem frames_dagInitTimer (dag : Dag) : frames (dagInitTimer dag) = [] := rfl

theorem frames_dagProcessDio (env : Env) (dag : Dag) : frames (dagProcessDio env dag).2 = [] := by
  unfold frames
  rw [List.filterMap_eq_nil_iff]
  intro effect member
  rcases dagProcessDio_effects member with ⟨addr, rfl⟩ | rfl
  · rfl
  · rfl

theorem frames_childRoutes (dag : Dag) : frames (childRoutes dag) = [] := by
  unfold frames childRoutes
  rw [List.filterMap_map, List.filterMap_eq_nil_iff]
  intro child _
  rfl

theorem frames_sendmsg (ifindex : UInt32) (src dst : In6Addr) (bytes : List UInt8) :
    frames [.sendmsg ifindex src dst bytes] = [⟨src, dst, bytes⟩] := rfl

/-! Dags before and after a DIO. -/

theorem dioBytes_long (dag : Dag) : 4 ≤ dag.dioBytes.length := by
  rw [Dag.dioBytes_split]
  simp

theorem dioFrame_carries (dag : Dag) (valid : dag.dest.len.toNat ≤ 128) (rest : Nat → UInt8) :
    CarriesDio (overlay dag.dioBytes rest) dag.dioBytes.length dag :=
  carriesDio_of_bytes (slice_overlay _ _) valid

theorem toNat_succ (rank : UInt16) : (rank + 1).toNat = (rank.toNat + 1) % 65536 := by
  rw [UInt16.toNat_add]
  rfl

theorem configuredJoin_self (env : Env) (iface : Iface) (sender : Dag) (src addr : In6Addr)
    (generated : genStatelessAddr (joinedDag env iface sender).dest iface.llinfo = some addr) :
    (configuredJoin env iface sender src).self = addr ∨
      (configuredJoin env iface sender src).self = .unspecified ∧
        ¬ Configures env ((joinedDag env iface sender).ranked sender.myRank src) := by
  by_cases configures : Configures env ((joinedDag env iface sender).ranked sender.myRank src)
  · obtain ⟨other, otherGenerated, wrote⟩ := dagProcessDio_configures configures
    left
    have same : some other = some addr := otherGenerated.symm.trans generated
    rw [Option.some.injEq] at same
    rw [configuredJoin, wrote]
    exact same
  · rcases configuredJoin_cases env iface sender src with same | ⟨other, otherGenerated, wrote⟩
    · right
      rw [same]
      exact ⟨rfl, configures⟩
    · left
      rw [generated, Option.some.injEq] at otherGenerated
      rw [wrote]
      exact otherGenerated.symm

theorem held_parent {ι : Type} {head : ι → IfaceHead} {dag : Dag} {node : Node ι In6Addr} {parent : ι}
    {recorded : Nat} (shown : Shows head dag node) (under : node.parent = some (parent, recorded)) :
    dag.parent = some ⟨(head parent).ifaddr, UInt16.ofNat recorded⟩ := by
  rw [shown.parent, under]
  rfl

theorem ranked_configured {dag : Dag} {peer : Peer} (under : dag.parent = some peer) (env : Env) (rank : UInt16)
    (src : In6Addr) :
    let configured := (dagProcessDio env (dag.ranked rank src)).1
    configured.childs = dag.childs ∧ configured.dest = dag.dest ∧ configured.myRank = rank + 1 ∧
      configured.parent = some ⟨peer.addr, rank⟩ := by
  intro configured
  rcases dagProcessDio_cases env (dag.ranked rank src) with same | ⟨_, _, wrote⟩
  · simp only [configured, same, Dag.ranked, Dag.parentOr, under, Option.getD_some, and_self]
  · simp only [configured, wrote, Dag.ranked, Dag.parentOr, under, Option.getD_some, and_self]

section

variable {ι : Type} {head : ι → IfaceHead} {key : Key} {counts : In6Addr → Prop} {net : Net ι}
  {state : State ι In6Addr}

theorem related_held (related : Related head key counts net state) {party : ι} {node : Node ι In6Addr}
    (holds : state.node party = some node) :
    ∃ dag, (net.iface party).lookup key = some dag ∧ Held head counts party dag node := by
  cases found : (net.iface party).lookup key with
  | none =>
      rw [related.missing party found] at holds
      simp at holds
  | some dag =>
      obtain ⟨other, otherHolds, held⟩ := related.held party dag found
      rw [holds, Option.some.injEq] at otherHolds
      subst otherHolds
      exact ⟨dag, rfl, held⟩

theorem lookup_key {party : ι} {dag : Dag} (related : Related head key counts net state)
    (found : (net.iface party).lookup key = some dag) :
    dag.iface = head party ∧ dag.rpl.instanceId = key.instanceId ∧ dag.dodagid = key.dodagid := by
  have refs := dagLookup_backRefs (related.refs party) found
  refine ⟨refs.1.trans (related.heads party), ?_, dagLookup_dodagid found⟩
  rw [refs.2]

theorem advert_refs {first second : Dag} (same : first.advert = second.advert) :
    first.iface = second.iface ∧ first.rpl = second.rpl :=
  ⟨congrArg Advert.iface same, congrArg Advert.rpl same⟩

theorem ranked_held {party parent : ι} {dag : Dag} {node : Node ι In6Addr} {recorded : Nat}
    (held : Held head counts party dag node) (onIface : dag.iface = head party)
    (under : node.parent = some (parent, recorded)) (env : Env) (rank : UInt16) (src : In6Addr) :
    let configured := (dagProcessDio env (dag.ranked rank src)).1
    (counts node.self → configured.self = node.self) ∧
      configured.daoTargets = configured.self :: node.childs.map Prod.fst ∧
      Held head counts party configured
        { node with
          rank := (rank.toNat + 1) % 65536, parent := some (parent, rank.toNat), self := configured.self } := by
  intro configured
  have record := held_parent held.toShows under
  have kept := ranked_configured record env rank src
  have settled : ∀ addr, genStatelessAddr dag.dest (head party).llinfo = some addr →
      dag.self = addr ∨ ¬ counts dag.self := held.settled (by simp [record])
  have self : configured.self = dag.self ∨
      genStatelessAddr dag.dest (head party).llinfo = some configured.self := by
    rcases dagProcessDio_cases env (dag.ranked rank src) with same | ⟨addr, generated, wrote⟩
    · left
      simp only [configured, same, Dag.ranked]
    · right
      simp only [configured, wrote]
      rw [← onIface]
      exact generated
  refine ⟨?_, ?_, ⟨⟨?_, ?_, ?_, rfl, ?_⟩, ?_, ?_, ?_⟩⟩
  · intro counted
    rw [held.self] at counted ⊢
    rcases self with same | generated
    · exact same
    · rcases settled _ generated with equal | uncounted
      · exact equal.symm
      · exact absurd counted uncounted
  · rw [Dag.daoTargets, kept.1, held.childs, List.map_map]
    rfl
  · rw [kept.2.2.1, toNat_succ]
  · rw [kept.2.2.2]
    simp [peerRecord]
  · intro above same
    simp only [Option.some.injEq] at same
    rw [← same]
    exact rank.toNat_lt
  · rw [kept.1]
    exact held.childs
  · rw [kept.2.1]
    exact held.valid
  · intro top
    exact absurd (kept.2.2.2.symm.trans top) (by simp)
  · intro _ addr generated
    rw [kept.2.1] at generated
    rcases self with same | own
    · rw [same]
      exact settled addr generated
    · left
      rw [generated, Option.some.injEq] at own
      exact own.symm

theorem joined_held {party sender : ι} {iface : Iface} {dio : Dag} (onIface : iface.toIfaceHead = head party)
    (valid : dio.dest.len.toNat ≤ 128) (env : Env)
    (configures : counts .unspecified →
      Configures env ((joinedDag env iface dio).ranked dio.myRank (head sender).ifaddr)) :
    let joined := configuredJoin env iface dio (head sender).ifaddr
    Held head counts party joined
      ⟨(dio.myRank.toNat + 1) % 65536, some (sender, dio.myRank.toNat), joined.self, []⟩ := by
  intro joined
  have made := configuredJoin_joinedBy env iface dio (head sender).ifaddr
  have dest : joined.dest = (joinedDag env iface dio).dest := congrArg Advert.dest made.advert
  refine ⟨⟨?_, ?_, ?_, rfl, made.childs⟩, ?_, ?_, ?_⟩
  · rw [made.myRank, toNat_succ]
  · rw [made.parent]
    simp [peerRecord]
  · intro above same
    rw [← Option.some.inj same]
    exact dio.myRank.toNat_lt
  · rw [dest]
    exact valid
  · intro top
    exact absurd (made.parent.symm.trans top) (by simp)
  · intro _ addr generated
    rw [dest, ← onIface] at generated
    rcases configuredJoin_self env iface dio (head sender).ifaddr addr generated with same | ⟨unset, failed⟩
    · exact Or.inl same
    · right
      rw [unset]
      exact fun counted => failed (configures counted)

theorem held_afterDao {party : ι} {dag : Dag} {node : Node ι In6Addr} (env : Env)
    (held : Held head counts party dag node) : Held head counts party (dag.afterDao env) node := by
  rw [Dag.afterDao_eq]
  exact ⟨⟨held.rank, held.parent, held.recorded, held.self, held.childs⟩, held.valid, held.top, held.settled⟩

end

section

variable {ι : Type} [DecidableEq ι] {head : ι → IfaceHead} {key : Key} {counts : In6Addr → Prop}
  {net : Net ι} {state next : State ι In6Addr}

theorem settle_log {party other : ι} {effect : Effect} (logged : effect ∈ net.log other) (iface : Iface)
    (effects : List Effect) (fault : Option Fault) : effect ∈ (net.settle party iface effects fault).log other := by
  by_cases same : other = party
  · subst same
    simp only [Net.settle, Function.update_self, List.mem_append]
    exact Or.inl logged
  · simp only [Net.settle, Function.update_of_ne same]
    exact logged

/-- A handler that writes the dag of one party and sends frames is answered by writing its
node and sending the messages they encode. -/
theorem related_settle (related : Related head key counts net state) {party : ι} {iface : Iface}
    {effects : List Effect} (fault : Option Fault) {dag : Dag} {node : Node ι In6Addr}
    (sameHead : iface.toIfaceHead = head party) (refs : iface.BackRefs)
    (found : iface.lookup key = some dag) (held : Held head counts party dag node)
    (nodes : next.node = Function.update state.node party (some node)) (sent : state.sent ⊆ next.sent)
    (encoded : ∀ frame ∈ frames effects, ∃ msg ∈ next.sent, Encodes head key frame msg)
    (routes : ∀ other, ∀ entry ∈ next.routes other, entry ∈ state.routes other ∨
      other = party ∧ Effect.nlAddRouteVia (head party).ifindex entry.1 (head entry.2).ifaddr ∈ effects) :
    Related head key counts (net.settle party iface effects fault) next := by
  have here : (net.settle party iface effects fault).iface party = iface := by simp [Net.settle]
  have there : ∀ other, other ≠ party →
      (net.settle party iface effects fault).iface other = net.iface other := by
    intro other different
    simp [Net.settle, different]
  refine ⟨?_, ?_, ?_, ?_, ?_, ?_⟩
  · intro other
    by_cases same : other = party
    · subst same
      rw [here]
      exact sameHead
    · rw [there other same]
      exact related.heads other
  · intro other
    by_cases same : other = party
    · subst same
      rw [here]
      exact refs
    · rw [there other same]
      exact related.refs other
  · intro other missing
    by_cases same : other = party
    · subst same
      rw [here, found] at missing
      simp at missing
    · rw [there other same] at missing
      rw [nodes, Function.update_of_ne same]
      exact related.missing other missing
  · intro other otherDag otherFound
    by_cases same : other = party
    · subst same
      rw [here, found, Option.some.injEq] at otherFound
      subst otherFound
      exact ⟨node, by rw [nodes, Function.update_self], held⟩
    · rw [there other same] at otherFound
      rw [nodes, Function.update_of_ne same]
      exact related.held other otherDag otherFound
  · intro frame member
    rcases List.mem_append.mp member with old | new
    · obtain ⟨msg, msgMember, encodes⟩ := related.sent frame old
      exact ⟨msg, sent msgMember, encodes⟩
    · exact encoded frame new
  · intro other entry member
    rcases routes other entry member with old | ⟨same, new⟩
    · exact settle_log (related.routes other entry old) _ _ _
    · subst same
      simp only [Net.settle, Function.update_self, List.mem_append]
      exact Or.inr new

theorem related_quiet (related : Related head key counts net state) (party : ι) {effects : List Effect}
    (fault : Option Fault) (silent : frames effects = []) :
    Related head key counts (net.settle party (net.iface party) effects fault) state := by
  have same : ∀ other, (net.settle party (net.iface party) effects fault).iface other = net.iface other := by
    intro other
    simp only [Net.settle, Function.update_eq_self]
  refine ⟨?_, ?_, ?_, ?_, ?_, ?_⟩
  · intro other
    rw [same other]
    exact related.heads other
  · intro other
    rw [same other]
    exact related.refs other
  · intro other missing
    rw [same other] at missing
    exact related.missing other missing
  · intro other dag found
    rw [same other] at found
    exact related.held other dag found
  · intro frame member
    simp only [Net.settle, silent, List.append_nil] at member
    exact related.sent frame member
  · intro other entry member
    exact settle_log (related.routes other entry member) _ _ _

/-! The handlers. -/

def netRules (allowed : State ι In6Addr → ι → ι → Nat → Prop) (counts : In6Addr → Prop) : Rules ι In6Addr :=
  ⟨65536, allowed, counts⟩

variable {allowed : State ι In6Addr → ι → ι → Nat → Prop}

theorem related_emit (related : Related head key counts net state) (party : ι) (env : Env) :
    ∃ next, ReflTransGen (Step (netRules allowed counts)) state next ∧
      Related head key counts (net.act key (.emit party env)) next := by
  simp only [Net.act]
  cases found : (net.iface party).lookup key with
  | none => exact ⟨state, ReflTransGen.refl, related⟩
  | some dag =>
      obtain ⟨node, holds, held⟩ := related.held party dag found
      obtain ⟨onIface, instanceId, dodagid⟩ := lookup_key related found
      simp only [sendDio_ok env dag held.valid]
      refine ⟨state.send (.dio party node.rank), ReflTransGen.single (Step.emit holds), ?_⟩
      refine related_settle related none (related.heads party)
        (dagWrite_const_backRefs (related.refs party) found ⟨rfl, rfl⟩)
        (dagLookup_dagWrite_const found dodagid) ⟨⟨held.rank, held.parent, held.recorded, held.self, held.childs⟩,
          held.valid, held.top, held.settled⟩ ?_ (Set.subset_insert _ _) ?_ ?_
      · simp [State.send, ← holds]
      · intro frame member
        rw [frames_sendmsg, List.mem_singleton] at member
        rw [member, onIface, held.rank]
        exact ⟨_, Set.mem_insert _ _, Encodes.dio instanceId dodagid held.valid⟩
      · intro other entry member
        exact Or.inl member

theorem related_join (related : Related head key counts net state) {party sender : ι} {dio : Dag}
    (instanceId : dio.rpl.instanceId = key.instanceId) (dodagid : dio.dodagid = key.dodagid)
    (valid : dio.dest.len.toNat ≤ 128) (missing : (net.iface party).lookup key = none)
    (heard : .dio sender dio.myRank.toNat ∈ state.sent)
    (permitted : allowed state party sender dio.myRank.toNat) {env : Env} (allocs : env.AllocsSucceed)
    (configures : counts .unspecified →
      Configures env ((joinedDag env (net.iface party) dio).ranked dio.myRank (head sender).ifaddr))
    (rest : Nat → UInt8) :
    ∃ next, ReflTransGen (Step (netRules allowed counts)) state next ∧
      Related head key counts
        (net.act key (.deliver party ⟨(head sender).ifaddr, allRplAddr, dio.dioBytes⟩ env rest)) next := by
  have absent : dagLookup (net.iface party) dio.rpl.instanceId dio.dodagid = none := by
    rw [instanceId, dodagid]
    exact missing
  obtain ⟨reads, handled⟩ := @processDio_joins env (net.iface party) (overlay dio.dioBytes rest)
    dio.dioBytes.length (head sender).ifaddr dio allocs (dioFrame_carries dio valid rest) valid absent
  rw [(act_deliver (dioBytes_long dio)).1, handled]
  have made := configuredJoin_joinedBy env (net.iface party) dio (head sender).ifaddr
  have held := joined_held (related.heads party) valid env configures
  generalize configuredJoin env (net.iface party) dio (head sender).ifaddr = configured at made held
  have final := (afterDao_joinedBy made env).advert
  have identity : configured.rpl.instanceId = key.instanceId ∧ configured.dodagid = key.dodagid :=
    ⟨(congrArg (fun advert => advert.rpl.instanceId) made.advert).trans instanceId,
      (congrArg Advert.dodagid made.advert).trans dodagid⟩
  have targets : configured.daoTargets = [configured.self] := by
    rw [Dag.daoTargets, made.childs, List.map_nil]
  let node : Node ι In6Addr :=
    ⟨(dio.myRank.toNat + 1) % 65536, some (sender, dio.myRank.toNat), configured.self, []⟩
  have joined : Step (netRules allowed counts) state (state.write party node) :=
    Step.join configured.self (related.missing party missing) heard permitted
  have announced : Step (netRules allowed counts) (state.write party node)
      ((state.write party node).send (.dao party sender [configured.self])) :=
    Step.announce (write_node state party node) rfl
  refine ⟨_, (ReflTransGen.single joined).tail announced, ?_⟩
  refine related_settle related none ((withDag_head _).trans (related.heads party))
    (withDag_backRefs (related.refs party) (advert_refs final)) ?_ (held_afterDao env held) rfl
    (Set.subset_insert _ _) ?_ ?_
  · rw [Iface.lookup, ← instanceId]
    exact dagLookup_withDag (by rw [instanceId]; exact missing) ((congrArg Advert.dodagid final).trans dodagid)
  · intro frame member
    rw [frames_append, frames_append, frames_dagInitTimer, frames_dagProcessDio, frames_sendmsg,
      List.nil_append, List.nil_append, List.mem_singleton] at member
    rw [member, related.heads party, ← targets]
    exact ⟨_, Set.mem_insert _ _, Encodes.dao identity.1 identity.2⟩
  · intro other entry member
    exact Or.inl member

section

variable {party sender parent : ι} {dio dag : Dag} {node : Node ι In6Addr} {recorded : Nat}

theorem step_improve (held : Held head counts party dag node) (onIface : dag.iface = head party)
    (holds : state.node party = some node) (under : node.parent = some (parent, recorded))
    (heard : .dio sender dio.myRank.toNat ∈ state.sent) (permitted : allowed state party sender dio.myRank.toNat)
    (accepted : dio.myRank.toNat ≤ recorded) (env : Env) (src : In6Addr) :
    Step (netRules allowed counts) state
      (state.write party
        { node with
          rank := (dio.myRank.toNat + 1) % 65536
          parent := some (parent, dio.myRank.toNat)
          self := (dagProcessDio env (dag.ranked dio.myRank src)).1.self }) :=
  Step.improve _ holds under heard permitted accepted (ranked_held held onIface under env dio.myRank src).1

theorem related_exited (related : Related head key counts net state)
    (found : (net.iface party).lookup key = some dag) (held : Held head counts party dag node)
    (holds : state.node party = some node) (under : node.parent = some (parent, recorded))
    (heard : .dio sender dio.myRank.toNat ∈ state.sent) (permitted : allowed state party sender dio.myRank.toNat)
    (accepted : dio.myRank.toNat ≤ recorded) (env : Env) (src : In6Addr) :
    let configured := dagProcessDio env (dag.ranked dio.myRank src)
    ∃ next, ReflTransGen (Step (netRules allowed counts)) state next ∧
      Related head key counts
        (net.settle party (dagWrite (net.iface party) key.instanceId key.dodagid fun _ => configured.1)
          configured.2 (some .exit)) next := by
  intro configured
  obtain ⟨onIface, _, dagDodagid⟩ := lookup_key related found
  have advert : configured.1.advert = dag.advert := dagProcessDio_advert env _
  obtain ⟨_, _, ranked⟩ := ranked_held held onIface under env dio.myRank src
  refine ⟨_, ReflTransGen.single (step_improve held onIface holds under heard permitted accepted env src), ?_⟩
  refine related_settle related _ (related.heads party)
    (dagWrite_const_backRefs (related.refs party) found (advert_refs advert))
    (dagLookup_dagWrite_const found ((congrArg Advert.dodagid advert).trans dagDodagid)) ranked rfl
    Set.Subset.rfl ?_ ?_
  · intro frame member
    simp [configured, frames_dagProcessDio] at member
  · intro other entry member
    exact Or.inl member

theorem related_answered (related : Related head key counts net state)
    (found : (net.iface party).lookup key = some dag) (held : Held head counts party dag node)
    (holds : state.node party = some node) (under : node.parent = some (parent, recorded))
    (heard : .dio sender dio.myRank.toNat ∈ state.sent) (permitted : allowed state party sender dio.myRank.toNat)
    (accepted : dio.myRank.toNat ≤ recorded) (env : Env) (src : In6Addr) :
    let configured := dagProcessDio env (dag.ranked dio.myRank src)
    ∃ next, ReflTransGen (Step (netRules allowed counts)) state next ∧
      Related head key counts
        (net.settle party
          (dagWrite (net.iface party) key.instanceId key.dodagid fun _ => configured.1.afterDao env)
          (configured.2 ++ [.sendmsg configured.1.iface.ifindex configured.1.iface.ifaddr
            (head parent).ifaddr configured.1.daoBytes]) none) next := by
  intro configured
  obtain ⟨onIface, dagInstance, dagDodagid⟩ := lookup_key related found
  have advert : configured.1.advert = dag.advert := dagProcessDio_advert env _
  have final : (configured.1.afterDao env).advert = dag.advert := (afterDao_advert env _).trans advert
  obtain ⟨_, targets, ranked⟩ := ranked_held held onIface under env dio.myRank src
  refine ⟨_, (ReflTransGen.single (step_improve held onIface holds under heard permitted accepted env src)).tail
    (Step.announce (write_node _ _ _) rfl), ?_⟩
  refine related_settle related _ (related.heads party)
    (dagWrite_const_backRefs (related.refs party) found (advert_refs final))
    (dagLookup_dagWrite_const found ((congrArg Advert.dodagid final).trans dagDodagid))
    (held_afterDao env ranked) rfl (Set.subset_insert _ _) ?_ ?_
  · intro frame member
    rw [frames_append, frames_dagProcessDio, frames_sendmsg, List.nil_append, List.mem_singleton] at member
    rw [member, (advert_refs advert).1, onIface]
    simp only
    rw [← targets]
    refine ⟨_, Set.mem_insert _ _, Encodes.dao ?_ ?_⟩
    · rw [(advert_refs advert).2]
      exact dagInstance
    · exact (congrArg Advert.dodagid advert).trans dagDodagid
  · intro other entry member
    exact Or.inl member

end

/-- A later DIO: a root and a party with a better parent record drop it; else the party
records the rank and announces its targets to its parent, unless that makes it exit. -/
theorem related_improve (related : Related head key counts net state) {party sender : ι} {dio dag : Dag}
    (instanceId : dio.rpl.instanceId = key.instanceId) (dodagid : dio.dodagid = key.dodagid)
    (valid : dio.dest.len.toNat ≤ 128) (found : (net.iface party).lookup key = some dag)
    (heard : .dio sender dio.myRank.toNat ∈ state.sent)
    (permitted : allowed state party sender dio.myRank.toNat) {env : Env} (allocs : env.AllocsSucceed)
    (rest : Nat → UInt8) :
    ∃ next, ReflTransGen (Step (netRules allowed counts)) state next ∧
      Related head key counts
        (net.act key (.deliver party ⟨(head sender).ifaddr, allRplAddr, dio.dioBytes⟩ env rest)) next := by
  obtain ⟨node, holds, held⟩ := related.held party dag found
  have present : dagLookup (net.iface party) dio.rpl.instanceId dio.dodagid = some dag := by
    rw [instanceId, dodagid]
    exact found
  obtain ⟨reads, handled⟩ := @processDio_known env (net.iface party) (overlay dio.dioBytes rest)
    dio.dioBytes.length (head sender).ifaddr dio dag (dioFrame_carries dio valid rest) present
  rw [(act_deliver (dioBytes_long dio)).1, handled, instanceId, dodagid]
  by_cases root : dag.myRank = 1
  · refine ⟨state, ReflTransGen.refl, ?_⟩
    simp only [root, if_true]
    exact related_quiet related party none rfl
  simp only [root, if_false]
  obtain ⟨⟨parent, recorded⟩, under⟩ : ∃ above, node.parent = some above := by
    cases above : node.parent with
    | some pair => exact ⟨pair, rfl⟩
    | none => exact absurd (held.top (by rw [held.parent, above]; rfl)) root
  have record := held_parent held.toShows under
  have compared : dag.parentOr (head sender).ifaddr = ⟨(head parent).ifaddr, UInt16.ofNat recorded⟩ := by
    simp [Dag.parentOr, record]
  have order : dio.myRank ≤ (dag.parentOr (head sender).ifaddr).rank → dio.myRank.toNat ≤ recorded := by
    intro accepted
    have small := held.recorded _ under
    rw [compared, UInt16.le_iff_toNat_le, UInt16.toNat_ofNat'] at accepted
    omega
  rcases processDioRank_cases (hasParent_of_allocs allocs dag) (net.iface party) key.instanceId key.dodagid
    dio.myRank (head sender).ifaddr [] reads with ⟨_, refused⟩ | ⟨accepted, _, exited⟩ | ⟨accepted, _, answered⟩
  · refine ⟨state, ReflTransGen.refl, ?_⟩
    have unchanged : ({ dag with parent := some (dag.parentOr (head sender).ifaddr) } : Dag) = dag := by
      rw [compared, ← record]
    rw [refused]
    simp only [unchanged]
    rw [dagWrite_of_found found]
    exact related_quiet related party none rfl
  · rw [exited]
    exact related_exited related found held holds under heard permitted (order accepted) env _
  · rw [answered, compared]
    exact related_answered related found held holds under heard permitted (order accepted) env _

theorem related_dao (related : Related head key counts net state) {party sender : ι} {dao : Dag}
    (instanceId : dao.rpl.instanceId = key.instanceId) (dodagid : dao.dodagid = key.dodagid)
    (heard : .dao sender party dao.daoTargets ∈ state.sent) {env : Env} (allocs : env.AllocsSucceed)
    (rest : Nat → UInt8) :
    ∃ next, ReflTransGen (Step (netRules allowed counts)) state next ∧
      Related head key counts
        (net.act key (.deliver party ⟨(head sender).ifaddr, (head party).ifaddr, dao.daoBytes⟩ env rest))
        next := by
  have carried : slice (overlay dao.daoBytes rest) 0 dao.daoBytes.length = dao.daoBytes := slice_overlay _ _
  have long : 4 ≤ dao.daoBytes.length := by
    rw [Dag.daoBytes_length]
    omega
  rw [(act_deliver long).1]
  cases found : (net.iface party).lookup key with
  | none =>
      obtain ⟨reads, handled⟩ := @CarriesDao.missing env (net.iface party) _ _ (head sender).ifaddr _ _ _
        (carriesDao_of_bytes carried) (by rw [instanceId, dodagid]; exact found)
      rw [handled]
      exact ⟨state, ReflTransGen.refl, related_quiet related party none rfl⟩
  | some dag =>
      obtain ⟨node, holds, held⟩ := related.held party dag found
      obtain ⟨onIface, dagInstance, dagDodagid⟩ := lookup_key related found
      obtain ⟨reads, handled⟩ := @processDao_daoBytes env (net.iface party) _ _ (head sender).ifaddr dao dag
        allocs carried (by rw [instanceId, dodagid]; exact found)
      rw [handled, instanceId, dodagid]
      have grown : (dag.registers (head sender).ifaddr dao.daoTargets).childs =
          (node.registers sender dao.daoTargets).childs.map (childEntry head) := by
        simp only [Dag.registers, Node.registers, addTargets, held.childs]
        symm
        apply AddNew.map_addNews
        · intro entry
          rfl
        · intro addr
          rfl
      have registered : Held head counts party (dag.registers (head sender).ifaddr dao.daoTargets)
          (node.registers sender dao.daoTargets) :=
        ⟨⟨held.rank, held.parent, held.recorded, held.self, grown⟩, held.valid, held.top, held.settled⟩
      refine ⟨_, ReflTransGen.single (Step.register holds heard), ?_⟩
      refine related_settle related none (related.heads party)
        (dagWrite_const_backRefs (related.refs party) found ⟨rfl, rfl⟩)
        (dagLookup_dagWrite_const found dagDodagid) registered rfl (Set.subset_insert _ _) ?_ ?_
      · intro frame member
        rw [frames_append, frames_childRoutes, frames_sendmsg, List.nil_append, List.mem_singleton] at member
        rw [member, onIface]
        exact ⟨_, Set.mem_insert _ _, Encodes.ack dagInstance dagDodagid⟩
      · intro other entry member
        by_cases same : other = party
        · subst same
          simp only [State.send, State.request, Function.update_self] at member
          rcases member with old | new
          · exact Or.inl old
          · refine Or.inr ⟨rfl, ?_⟩
            rw [List.mem_append, childRoutes, grown]
            left
            have listed := List.mem_map_of_mem (f := childEntry head) new
            exact List.mem_map.mpr ⟨_, listed, by simp only [Dag.registers, onIface]; rfl⟩
        · simp only [State.send, State.request, Function.update_of_ne same] at member
          exact Or.inl member

theorem related_ack (related : Related head key counts net state) {party sender : ι} {ack : Dag} (env : Env)
    (rest : Nat → UInt8) :
    Related head key counts
      (net.act key (.deliver party ⟨(head sender).ifaddr, (head party).ifaddr, ack.daoAckBytes⟩ env rest))
      state := by
  have carried : slice (overlay ack.daoAckBytes rest) 0 ack.daoAckBytes.length = ack.daoAckBytes :=
    slice_overlay _ _
  have long : 4 ≤ ack.daoAckBytes.length := by
    simp [Dag.daoAckBytes, Icmp6Hdr.bytes]
  obtain ⟨reads, handled⟩ := @processDaoack_bytes env (net.iface party) _ _ (head sender).ifaddr ack carried
  rw [(act_deliver long).1, handled]
  refine related_quiet related party none ?_
  simp only
  split
  · rfl
  · split <;> rfl

end

end Rpld
