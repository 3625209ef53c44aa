import Rpld.DodagForwarding
import Rpld.LoopFreedom

/-!
Networks that show a reachable state of the protocol, whatever they started from. One
enabled act leads from one to the next, and the protocol takes steps between the states
they show; what those steps keep is kept along every run.
-/

namespace Rpld

open Dodag Relation

/-- The protocol of the network without a restriction on who hears whom; every address but
`::` counts. -/
abbrev anywhere {ι : Type} [DecidableEq ι] : Rules ι In6Addr := netRules (fun _ _ _ _ => True) (· ≠ .unspecified)

/-- Link-local addresses that tell the parties apart and are no multicast address. -/
structure Addressed {ι : Type} (head : ι → IfaceHead) : Prop where
  separate : Separate head
  unicast : ∀ party, (head party).ifaddr ≠ allRplAddr

theorem initial_addressed {ι : Type} {key : Key} {root : ι → Prop} {net : Net ι} (initial : net.Initial key root) :
    Addressed fun party => (net.iface party).toIfaceHead :=
  ⟨initial.addresses, fun party => isLinkLocal_ne_allRpl (initial.linkLocal party)⟩

section

variable {ι : Type} [DecidableEq ι]

/-- The network shows a reachable state of the protocol. -/
def Net.Reached (head : ι → IfaceHead) (key : Key) (root : ι → Prop) (net : Net ι) : Prop :=
  ∃ state, Reachable anywhere root state ∧ Related head key (· ≠ .unspecified) net state

section

variable {head : ι → IfaceHead} {key : Key} {root : ι → Prop} {net : Net ι}

theorem initial_reached (initial : net.Initial key root) :
    net.Reached (fun party => (net.iface party).toIfaceHead) key root := by
  obtain ⟨start, begins, related⟩ := related_initial initial (· ≠ .unspecified)
  exact ⟨start, ⟨start, begins, ReflTransGen.refl⟩, related⟩

/-- The step of the protocol behind an act, with the states it leads from and to. -/
theorem reached_steps (addressed : Addressed head) {state : State ι In6Addr} (reachable : Reachable anywhere root state)
    (related : Related head key (· ≠ .unspecified) net state) {act : Act ι} (enabled : net.Enabled key act) :
    ∃ next, Reachable anywhere root next ∧ ReflTransGen (Step anywhere) state next ∧
      Related head key (· ≠ .unspecified) (net.act key act) next := by
  obtain ⟨next, steps, after⟩ := @related_act ι _ head key (· ≠ .unspecified) net state (fun _ _ _ _ => True)
    addressed.separate addressed.unicast related act enabled (by cases act <;> simp [Permitted]) (fun counted => absurd rfl counted)
  obtain ⟨start, begins, before⟩ := reachable
  exact ⟨next, ⟨start, begins, before.trans steps⟩, steps, after⟩

theorem reached_act (addressed : Addressed head) (reached : net.Reached head key root) {act : Act ι}
    (enabled : net.Enabled key act) : (net.act key act).Reached head key root := by
  obtain ⟨state, reachable, related⟩ := reached
  obtain ⟨next, after, _, relatedAfter⟩ := reached_steps addressed reachable related enabled
  exact ⟨next, after, relatedAfter⟩

theorem reached_run (addressed : Addressed head) (reached : net.Reached head key root) {acts : List (Act ι)}
    (run : Runs.AllSteps (Net.act key) (Net.Enabled key) net acts) :
    (acts.foldl (Net.act key) net).Reached head key root :=
  @Runs.foldl_invariant _ _ (Net.act key) (Net.Enabled key) (Net.Reached head key root)
    (fun _ _ enabled before => reached_act addressed before enabled) acts net reached run

theorem parentOf_act (addressed : Addressed head) (reached : net.Reached head key root) {act : Act ι}
    (enabled : net.Enabled key act) {party above : ι} (up : net.ParentOf key party above) :
    (net.act key act).ParentOf key party above := by
  obtain ⟨state, reachable, related⟩ := reached
  obtain ⟨next, _, steps, after⟩ := reached_steps addressed reachable related enabled
  rw [related_parentOf addressed.separate related] at up
  rw [related_parentOf addressed.separate after]
  exact parentOf_steps steps up

theorem parentOf_run (addressed : Addressed head) (reached : net.Reached head key root) {acts : List (Act ι)}
    (all : Runs.AllSteps (Net.act key) (Net.Enabled key) net acts) {party above : ι}
    (up : net.ParentOf key party above) :
    (acts.foldl (Net.act key) net).ParentOf key party above := by
  have invariant := @Runs.foldl_invariant _ _ (Net.act key) (Net.Enabled key)
    (fun net => net.Reached head key root ∧ net.ParentOf key party above) ?_ acts net ⟨reached, up⟩ all
  · exact invariant.2
  · rintro net act enabled ⟨reached, up⟩
    exact ⟨reached_act addressed reached enabled, parentOf_act addressed reached enabled up⟩

theorem afterDao_daoBytes (env : Env) (dag : Dag) : (dag.afterDao env).daoBytes = dag.daoBytes := by
  rw [Dag.afterDao_eq]
  rfl

/-- Where a dag stands after a DIO from `src`: it repeats the DIO under that source if there was
none, and is the old one otherwise; its self address is the old one or the one generated
for it. -/
structure Recorded (key : Key) (iface : Iface) (dio : Dag) (src : In6Addr) (dag : Dag) (peer : Peer) : Prop where
  rank : dag.myRank = dio.myRank + 1
  under : dag.parent = some peer
  fresh : iface.lookup key = none → dag.Repeats dio ∧ peer.addr = src
  kept : ∀ old, iface.lookup key = some old → dag.advert = old.advert
  self : dag.self = ((iface.lookup key).map Dag.self).getD .unspecified ∨
    genStatelessAddr dag.dest dag.iface.llinfo = some dag.self

/-- What a DIO does to the party it is delivered to: a root and a party with a better record
keep what they have; any other party has its rank and a parent from then on, and names its
targets to that parent in a DAO, unless the DAO is too long to be built. -/
inductive DioOutcome (key : Key) (net : Net ι) (party : ι) (dio : Dag) (src : In6Addr) (after : Net ι) : Prop
  | kept (dag : Dag) (found : (net.iface party).lookup key = some dag)
      (same : (after.iface party).lookup key = some dag) (sent : after.sent = net.sent)
      (why : dag.myRank = 1 ∨ ∃ peer, dag.parent = some peer ∧ peer.rank < dio.myRank)
  | recorded (dag : Dag) (peer : Peer) (found : (after.iface party).lookup key = some dag)
      (recorded : Recorded key (net.iface party) dio src dag peer)
      (sent : after.sent = net.sent ∨
        after.sent = net.sent ++ [⟨(net.iface party).ifaddr, peer.addr, dag.daoBytes⟩])

theorem recorded_afterDao {iface : Iface} {dio dag : Dag} {src : In6Addr} {peer : Peer}
    (recorded : Recorded key iface dio src dag peer) (env : Env) :
    Recorded key iface dio src (dag.afterDao env) peer := by
  rw [Dag.afterDao_eq]
  exact ⟨recorded.rank, recorded.under, fun missing => ⟨⟨(recorded.fresh missing).1.instanceId,
    (recorded.fresh missing).1.dodagid, (recorded.fresh missing).1.version, (recorded.fresh missing).1.destLen,
    (recorded.fresh missing).1.destBytes⟩, (recorded.fresh missing).2⟩, recorded.kept, recorded.self⟩

theorem recorded_join {iface : Iface} {dio : Dag} (missing : iface.lookup key = none)
    (valid : dio.dest.len.toNat ≤ 128) (env : Env) (src : In6Addr) :
    Recorded key iface dio src (configuredJoin env iface dio src) ⟨src, dio.myRank⟩ := by
  have made := configuredJoin_joinedBy env iface dio src
  refine ⟨made.myRank, made.parent, ?_, ?_, ?_⟩
  · intro _
    exact ⟨(Dag.Repeats.of_advert made.advert).trans (joinedDag_repeats env iface valid), rfl⟩
  · intro old found
    simp [missing] at found
  · rcases configuredJoin_cases env iface dio src with same | ⟨addr, generated, wrote⟩
    · left
      rw [same, missing]
      rfl
    · right
      rw [wrote]
      exact generated

theorem recorded_ranked {iface : Iface} {dio dag : Dag} {peer : Peer} (found : iface.lookup key = some dag)
    (under : dag.parent = some peer) (env : Env) (src : In6Addr) :
    Recorded key iface dio src (dagProcessDio env (dag.ranked dio.myRank src)).1 ⟨peer.addr, dio.myRank⟩ := by
  obtain ⟨_, _, rank, parent⟩ := ranked_configured under env dio.myRank src
  refine ⟨rank, parent, ?_, ?_, ?_⟩
  · intro missing
    simp [found] at missing
  · intro old same
    rw [found, Option.some.injEq] at same
    rw [← same]
    exact dagProcessDio_advert env _
  · rw [found, Option.map_some, Option.getD_some]
    rcases dagProcessDio_cases env (dag.ranked dio.myRank src) with same | ⟨addr, generated, wrote⟩
    · left
      rw [same]
      rfl
    · right
      rw [wrote]
      exact generated

theorem deliver_dio {counts : In6Addr → Prop} {state : State ι In6Addr} (related : Related head key counts net state)
    {party sender : ι} {dio : Dag} (instanceId : dio.rpl.instanceId = key.instanceId)
    (dodagid : dio.dodagid = key.dodagid) (valid : dio.dest.len.toNat ≤ 128) {env : Env}
    (allocs : env.AllocsSucceed) (rest : Nat → UInt8) :
    DioOutcome key net party dio (head sender).ifaddr
      (net.act key (.deliver party ⟨(head sender).ifaddr, allRplAddr, dio.dioBytes⟩ env rest)) := by
  have carries := dioFrame_carries dio valid rest
  rw [(act_deliver (dioBytes_long dio)).1]
  cases found : (net.iface party).lookup key with
  | none =>
      obtain ⟨reads, handled⟩ := @processDio_joins env (net.iface party) _ _ (head sender).ifaddr dio allocs carries
        valid (by rw [instanceId, dodagid]; exact found)
      have recorded := recorded_afterDao (recorded_join found valid env (head sender).ifaddr) env
      refine DioOutcome.recorded _ _ ?_ recorded (Or.inr ?_)
      · simp only [Net.settle, Function.update_self, handled, Iface.lookup]
        rw [← instanceId]
        exact dagLookup_withDag (by rw [instanceId]; exact found)
          ((recorded.fresh found).1.dodagid.trans dodagid)
      · simp only [Net.settle, handled, frames_append, frames_dagInitTimer, frames_dagProcessDio, frames_sendmsg,
          List.nil_append, afterDao_daoBytes]
  | some dag =>
      obtain ⟨node, holds, held⟩ := related.held party dag found
      obtain ⟨onIface, _, dagDodagid⟩ := lookup_key related found
      obtain ⟨reads, handled⟩ := @processDio_known env (net.iface party) _ _ (head sender).ifaddr dio dag carries
        (by rw [instanceId, dodagid]; exact found)
      rw [handled, instanceId, dodagid]
      by_cases isRoot : dag.myRank = 1
      · simp only [isRoot, if_true]
        refine DioOutcome.kept dag found ?_ ?_ (Or.inl isRoot)
        · simp only [Net.settle, Function.update_self, dropped, found]
        · simp [Net.settle, dropped, frames]
      simp only [isRoot, if_false]
      obtain ⟨peer, under⟩ : ∃ peer, dag.parent = some peer := by
        cases under : dag.parent with
        | some peer => exact ⟨peer, rfl⟩
        | none => exact absurd (held.top under) isRoot
      have above : dag.parentOr (head sender).ifaddr = peer := by
        simp [Dag.parentOr, under]
      have recorded := @recorded_ranked key (net.iface party) dio dag peer found under env (head sender).ifaddr
      have advert : (dagProcessDio env (dag.ranked dio.myRank (head sender).ifaddr)).1.advert = dag.advert :=
        dagProcessDio_advert env _
      have kept := (congrArg Advert.dodagid advert).trans dagDodagid
      rcases processDioRank_cases (hasParent_of_allocs allocs dag) (net.iface party) key.instanceId key.dodagid
        dio.myRank (head sender).ifaddr [] reads with ⟨higher, refused⟩ | ⟨_, _, exited⟩ | ⟨_, _, answered⟩
      · rw [above] at higher refused
        rw [refused]
        refine DioOutcome.kept dag found ?_ ?_ (Or.inr ⟨peer, under, higher⟩)
        · simp only [Net.settle, Function.update_self, ← under]
          rw [dagWrite_of_found found]
          exact found
        · simp [Net.settle, frames]
      · rw [exited]
        refine DioOutcome.recorded _ _ ?_ recorded (Or.inl ?_)
        · simp only [Net.settle, Function.update_self]
          exact dagLookup_dagWrite_const found kept
        · simp [Net.settle, frames_dagProcessDio]
      · rw [answered]
        refine DioOutcome.recorded ((dagProcessDio env (dag.ranked dio.myRank (head sender).ifaddr)).1.afterDao env)
          ⟨peer.addr, dio.myRank⟩ ?_ (recorded_afterDao recorded env) (Or.inr ?_)
        · simp only [Net.settle, Function.update_self]
          exact dagLookup_dagWrite_const found
            ((congrArg Advert.dodagid (afterDao_advert env _)).trans kept)
        · simp only [Net.settle, List.nil_append, frames_append, frames_dagProcessDio, frames_sendmsg,
            afterDao_daoBytes, above]
          rw [(advert_refs advert).1, onIface, related_ifaddr related]
end

end

end Rpld
