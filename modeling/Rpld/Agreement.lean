import Rpld.Reached
import Rpld.Ranks
import Rpld.Routes

/-!
What the parties agree on. Version and destination prefix of a dag are set once, from the
DIO that made it or from the configuration, so every holder has those of the root its
parents lead to. The self addresses below the roots are generated from the prefix and the
link-layer address of their interface, and differ where those addresses do.
-/

namespace Rpld

open Dodag Memory Relation Runs

theorem daoFrame_notDio (src dst : In6Addr) (dag : Dag) : ¬ (Frame.mk src dst dag.daoBytes).IsDio := by
  intro isDio
  have code : some ndRplDao = some ndRplDagIo := isDio
  exact absurd code (by decide)

theorem ackFrame_notDio (src dst : In6Addr) (dag : Dag) : ¬ (Frame.mk src dst dag.daoAckBytes).IsDio := by
  intro isDio
  have code : some ndRplDaoAck = some ndRplDagIo := isDio
  exact absurd code (by decide)

section

variable {ι : Type} [DecidableEq ι] {head : ι → IfaceHead} {key : Key} {root : ι → Prop} {net : Net ι}

/-! What an act makes of the dag of a party, and which DIOs it sends. -/

inductive Moves (head : ι → IfaceHead) (key : Key) (net after : Net ι) (party : ι) : Prop
  | still (same : (after.iface party).lookup key = (net.iface party).lookup key)
  | written (old dag : Dag) (before : (net.iface party).lookup key = some old)
      (found : (after.iface party).lookup key = some dag) (advert : dag.advert = old.advert)
      (self : dag.self = old.self)
  | heard (sender : ι) (dio dag : Dag) (peer : Peer) (valid : dio.dest.len.toNat ≤ 128)
      (sent : ⟨(head sender).ifaddr, allRplAddr, dio.dioBytes⟩ ∈ net.sent)
      (found : (after.iface party).lookup key = some dag)
      (recorded : Recorded key (net.iface party) dio (head sender).ifaddr dag peer)

def SentDio (head : ι → IfaceHead) (key : Key) (net : Net ι) (frame : Frame) : Prop :=
  ∃ party dag, (net.iface party).lookup key = some dag ∧ dag.dest.len.toNat ≤ 128 ∧
    frame = ⟨(head party).ifaddr, allRplAddr, dag.dioBytes⟩

theorem act_other (act : Act ι) {party : ι} (other : ∀ env, act ≠ .emit party env)
    (elsewhere : ∀ frame env rest, act ≠ .deliver party frame env rest) :
    (net.act key act).iface party = net.iface party := by
  cases act with
  | emit sender env =>
      have different : party ≠ sender := fun same => other env (by rw [same])
      simp only [Net.act]
      split
      · rfl
      · split <;> simp only [Net.settle, Function.update_of_ne different]
  | deliver receiver frame env rest =>
      have different : party ≠ receiver := fun same => elsewhere frame env rest (by rw [same])
      simp only [Net.act, Net.settle, Function.update_of_ne different]

theorem moves_receiver {receiver : ι} {frame : Frame} {env : Env} {rest : Nat → UInt8}
    (here : Moves head key net (net.act key (.deliver receiver frame env rest)) receiver) (party : ι) :
    Moves head key net (net.act key (.deliver receiver frame env rest)) party := by
  by_cases same : party = receiver
  · rw [same]
    exact here
  · refine Moves.still ?_
    rw [act_other _ (fun _ => by simp)]
    intro other otherEnv otherRest equal
    simp only [Act.deliver.injEq] at equal
    exact same equal.1.symm

theorem emit_moves (related : ∃ state, Related head key (· ≠ .unspecified) net state) {sender : ι} {env : Env}
    (enabled : net.Enabled key (.emit sender env)) :
    (∀ party, Moves head key net (net.act key (.emit sender env)) party) ∧
      ∀ frame ∈ (net.act key (.emit sender env)).sent, frame.IsDio → frame ∈ net.sent ∨ SentDio head key net frame := by
  obtain ⟨state, related⟩ := related
  obtain ⟨dag, found⟩ := Option.isSome_iff_exists.mp enabled.2
  obtain ⟨node, _, held⟩ := related.held sender dag found
  obtain ⟨onIface, _, dodagid⟩ := lookup_key related found
  constructor
  · intro party
    by_cases same : party = sender
    · subst same
      refine Moves.written dag { dag with dtsn := dag.dtsn + 1 } found ?_ rfl rfl
      simp only [Net.act, found, sendDio_ok env dag held.valid, Net.settle, Function.update_self]
      exact dagLookup_dagWrite_const found dodagid
    · refine Moves.still ?_
      rw [act_other _ ?_ (fun _ _ _ => by simp)]
      intro otherEnv equal
      simp only [Act.emit.injEq] at equal
      exact same equal.1.symm
  · intro frame member _
    simp only [Net.act, found, sendDio_ok env dag held.valid, Net.settle, frames_sendmsg, List.mem_append,
      List.mem_singleton] at member
    rcases member with old | rfl
    · exact Or.inl old
    · exact Or.inr ⟨sender, dag, found, held.valid, by rw [onIface]⟩

theorem deliver_moves (related : ∃ state, Related head key (· ≠ .unspecified) net state) {receiver : ι} {frame : Frame}
    {env : Env} {rest : Nat → UInt8} (enabled : net.Enabled key (.deliver receiver frame env rest)) :
    Moves head key net (net.act key (.deliver receiver frame env rest)) receiver ∧
      ∀ other ∈ (net.act key (.deliver receiver frame env rest)).sent, other.IsDio → other ∈ net.sent := by
  obtain ⟨state, related⟩ := related
  obtain ⟨_, member, allocs, _⟩ := enabled
  obtain ⟨msg, _, encodes⟩ := related.sent frame member
  cases encodes with
  | @dio sender dio instanceId dodagid valid =>
      cases @deliver_dio ι _ head key net _ state related receiver sender dio instanceId dodagid valid env allocs rest with
      | kept dag found same sent _ =>
          refine ⟨Moves.still (same.trans found.symm), ?_⟩
          rw [sent]
          exact fun other old _ => old
      | recorded dag peer found recorded sent =>
          refine ⟨Moves.heard sender dio dag peer valid member found recorded, ?_⟩
          intro other sentOther isDio
          rcases sent with same | announced
          · rw [same] at sentOther
            exact sentOther
          · rw [announced, List.mem_append, List.mem_singleton] at sentOther
            rcases sentOther with old | rfl
            · exact old
            · exact absurd isDio (daoFrame_notDio _ _ dag)
  | @dao sender _ dao instanceId dodagid =>
      have long : 4 ≤ dao.daoBytes.length := by
        rw [Dag.daoBytes_length]
        omega
      have carried : slice (overlay dao.daoBytes rest) 0 dao.daoBytes.length = dao.daoBytes := slice_overlay _ _
      rw [(act_deliver long).1]
      cases found : (net.iface receiver).lookup key with
      | none =>
          obtain ⟨reads, handled⟩ := @CarriesDao.missing env (net.iface receiver) _ _ (head sender).ifaddr _ _ _
            (carriesDao_of_bytes carried) (by rw [instanceId, dodagid]; exact found)
          rw [handled]
          refine ⟨Moves.still ?_, ?_⟩
          · simp only [Net.settle, Function.update_self, dropped]
          · intro other sentOther _
            simpa [Net.settle, dropped, frames] using sentOther
      | some dag =>
          obtain ⟨_, _, dagDodagid⟩ := lookup_key related found
          obtain ⟨reads, handled⟩ := @processDao_daoBytes env (net.iface receiver) _ _ (head sender).ifaddr dao dag
            allocs carried (by rw [instanceId, dodagid]; exact found)
          rw [handled, instanceId, dodagid]
          refine ⟨Moves.written dag (dag.registers (head sender).ifaddr dao.daoTargets) found ?_ rfl rfl, ?_⟩
          · simp only [Net.settle, Function.update_self]
            exact dagLookup_dagWrite_const found dagDodagid
          · intro other sentOther isDio
            simp only [Net.settle, frames_append, frames_childRoutes, frames_sendmsg, List.nil_append, List.mem_append,
              List.mem_singleton] at sentOther
            rcases sentOther with old | rfl
            · exact old
            · exact absurd isDio (ackFrame_notDio _ _ dag)
  | @ack sender _ ack instanceId dodagid =>
      have long : 4 ≤ ack.daoAckBytes.length := by
        simp [Dag.daoAckBytes, Icmp6Hdr.bytes]
      obtain ⟨reads, handled⟩ := @processDaoack_bytes env (net.iface receiver) _ _ (head sender).ifaddr ack
        (slice_overlay ack.daoAckBytes rest)
      rw [(act_deliver long).1, handled]
      refine ⟨Moves.still ?_, ?_⟩
      · simp only [Net.settle, Function.update_self]
      · intro other sentOther _
        simp only [Net.settle, List.mem_append] at sentOther
        rcases sentOther with old | new
        · exact old
        · split at new
          · simp [frames] at new
          · split at new <;> simp [frames] at new

theorem act_moves (reached : net.Reached head key root) {act : Act ι} (enabled : net.Enabled key act) :
    (∀ party, Moves head key net (net.act key act) party) ∧
      ∀ frame ∈ (net.act key act).sent, frame.IsDio → frame ∈ net.sent ∨ SentDio head key net frame := by
  obtain ⟨state, _, related⟩ := reached
  cases act with
  | emit sender env => exact emit_moves ⟨state, related⟩ enabled
  | deliver receiver frame env rest =>
      obtain ⟨here, sent⟩ := deliver_moves ⟨state, related⟩ enabled
      exact ⟨moves_receiver here, fun other member isDio => Or.inl (sent other member isDio)⟩

end

/-! Agreement with the roots. -/

theorem dioBytes_repeats {first second : Dag} (firstValid : first.dest.len.toNat ≤ 128)
    (secondValid : second.dest.len.toNat ≤ 128) (same : first.dioBytes = second.dioBytes) : first.Repeats second := by
  have one := dioFrame_carries first firstValid fun _ => 0
  have two := dioFrame_carries second secondValid fun _ => 0
  rw [same] at one
  have length := one.prefixlen.symm.trans two.prefixlen
  refine ⟨one.instanceId.symm.trans two.instanceId, one.dodagid.symm.trans two.dodagid,
    one.version.symm.trans two.version, length, ?_⟩
  have bytes := one.destination.symm
  rw [length] at bytes
  exact bytes.trans two.destination

section

variable {ι : Type}

/-- The dag repeats the one that a root started with, and the parents of the party lead to
that root. -/
def Net.Traces (key : Key) (root : ι → Prop) (net start : Net ι) (party : ι) (dag : Dag) : Prop :=
  ∃ top topDag, root top ∧ (start.iface top).lookup key = some topDag ∧ dag.Repeats topDag ∧
    ReflTransGen (net.ParentOf key) party top

structure Net.Agrees (head : ι → IfaceHead) (key : Key) (root : ι → Prop) (net start : Net ι) : Prop where
  holders : ∀ party dag, (net.iface party).lookup key = some dag → net.Traces key root start party dag
  dios : ∀ frame ∈ net.sent, frame.IsDio → ∃ sender dio, frame.src = (head sender).ifaddr ∧
    frame.bytes = dio.dioBytes ∧ dio.dest.len.toNat ≤ 128 ∧ net.Traces key root start sender dio

variable {key : Key} {root : ι → Prop} {start net : Net ι}

theorem traces_repeats {party : ι} {dag other : Dag} (repeats : other.Repeats dag)
    (traces : net.Traces key root start party dag) : net.Traces key root start party other := by
  obtain ⟨top, topDag, isRoot, found, same, path⟩ := traces
  exact ⟨top, topDag, isRoot, found, repeats.trans same, path⟩

theorem agrees_initial (initial : net.Initial key root) :
    net.Agrees (fun party => (net.iface party).toIfaceHead) key root net := by
  constructor
  · intro party dag found
    have isRoot : root party := by
      by_cases isRoot : root party
      · exact isRoot
      · simp [initial.others party isRoot] at found
    exact ⟨party, dag, isRoot, found, Dag.Repeats.refl dag, ReflTransGen.refl⟩
  · intro frame member
    simp [initial.sent] at member

end

section

variable {ι : Type} [DecidableEq ι] {head : ι → IfaceHead} {key : Key} {root : ι → Prop} {start net : Net ι}

theorem traces_act (addressed : Addressed head) (reached : net.Reached head key root) {act : Act ι}
    (enabled : net.Enabled key act) {party : ι} {dag : Dag} (traces : net.Traces key root start party dag) :
    (net.act key act).Traces key root start party dag := by
  obtain ⟨top, topDag, isRoot, found, repeats, path⟩ := traces
  refine ⟨top, topDag, isRoot, found, repeats, ReflTransGen.mono ?_ _ _ path⟩
  intro below above up
  exact parentOf_act addressed reached enabled up

theorem traces_joined (addressed : Addressed head) (reached : net.Reached head key root) {act : Act ι}
    (enabled : net.Enabled key act) (agrees : net.Agrees head key root start) {party sender : ι} {dio dag : Dag}
    {peer : Peer} (valid : dio.dest.len.toNat ≤ 128)
    (sent : ⟨(head sender).ifaddr, allRplAddr, dio.dioBytes⟩ ∈ net.sent)
    (found : ((net.act key act).iface party).lookup key = some dag) (under : dag.parent = some peer)
    (repeats : dag.Repeats dio) (source : peer.addr = (head sender).ifaddr) :
    (net.act key act).Traces key root start party dag := by
  obtain ⟨other, otherDio, src, bytes, otherValid, traces⟩ := agrees.dios _ sent rfl
  have same := addressed.separate sender other src
  subst same
  obtain ⟨top, topDag, isRoot, topFound, again, path⟩ :=
    traces_act addressed reached enabled (traces_repeats (dioBytes_repeats valid otherValid bytes) traces)
  refine ⟨top, topDag, isRoot, topFound, repeats.trans again, ReflTransGen.head ⟨dag, peer, found, under, ?_⟩ path⟩
  obtain ⟨state, _, related⟩ := reached_act addressed reached enabled
  rw [source, related_ifaddr related]

theorem agrees_act (addressed : Addressed head) (reached : net.Reached head key root) {act : Act ι}
    (enabled : net.Enabled key act) (agrees : net.Agrees head key root start) :
    (net.act key act).Agrees head key root start := by
  obtain ⟨moves, sends⟩ := act_moves reached enabled
  constructor
  · intro party dag found
    have keeps : ∀ old, (net.iface party).lookup key = some old → dag.advert = old.advert →
        (net.act key act).Traces key root start party dag := by
      intro old before advert
      exact traces_act addressed reached enabled
        (traces_repeats (Dag.Repeats.of_advert advert) (agrees.holders party old before))
    cases moves party with
    | still same => exact keeps dag (same.symm.trans found) rfl
    | written old dag' before found' advert _ =>
        rw [found, Option.some.injEq] at found'
        exact keeps old before (found' ▸ advert)
    | heard sender dio dag' peer valid sent found' recorded =>
        rw [found, Option.some.injEq] at found'
        subst found'
        cases before : (net.iface party).lookup key with
        | some old => exact keeps old before (recorded.kept old before)
        | none =>
            obtain ⟨repeats, source⟩ := recorded.fresh before
            exact traces_joined addressed reached enabled agrees valid sent found recorded.under repeats source
  · intro frame member isDio
    rcases sends frame member isDio with old | ⟨party, dag, found, valid, rfl⟩
    · obtain ⟨sender, dio, src, bytes, valid, traces⟩ := agrees.dios frame old isDio
      exact ⟨sender, dio, src, bytes, valid, traces_act addressed reached enabled traces⟩
    · exact ⟨party, dag, rfl, rfl, valid, traces_act addressed reached enabled (agrees.holders party dag found)⟩

/-- In every state a network reaches, the parents of every holder lead to a root with which
the holder agrees: its dag has the version, the prefix length and the prefix bytes that the
root was configured with. -/
theorem net_agreement (initial : net.Initial key root) {acts : List (Act ι)}
    (run : AllSteps (Net.act key) (Net.Enabled key) net acts) :
    let final := acts.foldl (Net.act key) net
    ∀ party dag, (final.iface party).lookup key = some dag →
      ∃ top topDag, root top ∧ (net.iface top).lookup key = some topDag ∧ dag.Repeats topDag ∧
        ReflTransGen (final.ParentOf key) party top := by
  intro final party dag found
  have addressed := initial_addressed initial
  have invariant := @foldl_invariant _ _ (Net.act key) (Net.Enabled key)
    (fun later => later.Reached (fun party => (net.iface party).toIfaceHead) key root ∧
      later.Agrees (fun party => (net.iface party).toIfaceHead) key root net) ?_ acts net
    ⟨initial_reached initial, agrees_initial initial⟩ run
  · exact invariant.2.holders party dag found
  · rintro later act enabled ⟨reached, agrees⟩
    exact ⟨reached_act addressed reached enabled, agrees_act addressed reached enabled agrees⟩

end

theorem net_agreement_sampleJoins :
    ∃ dag, ((sampleJoins.foldl (Net.act sampleKey) sampleNet).iface 2).lookup sampleKey = some dag ∧
      ∃ top topDag, top = 0 ∧ (sampleNet.iface top).lookup sampleKey = some topDag ∧ dag.Repeats topDag ∧
        ReflTransGen ((sampleJoins.foldl (Net.act sampleKey) sampleNet).ParentOf sampleKey) 2 top := by
  have holds : (((sampleJoins.foldl (Net.act sampleKey) sampleNet).iface 2).lookup sampleKey).isSome := by
    decide +kernel
  obtain ⟨dag, found⟩ := Option.isSome_iff_exists.mp holds
  exact ⟨dag, found, net_agreement sampleNet_initial sampleJoins_enabled 2 dag found⟩

/-! Self addresses. -/

theorem modify_flip (bytes : List UInt8) : (bytes.modify 8 (· ^^^ 0x02)).modify 8 (· ^^^ 0x02) = bytes := by
  rw [List.modify_modify_eq]
  have same : ((· ^^^ 0x02) ∘ (· ^^^ 0x02) : UInt8 → UInt8) = id := by
    funext byte
    show (byte ^^^ 0x02) ^^^ 0x02 = byte
    rw [UInt8.xor_assoc, UInt8.xor_self, UInt8.xor_zero]
  rw [same, List.modify_id]

/-- The interface part of a generated address gives the link-layer address away. -/
theorem genStatelessAddr_llinfo {first second : In6Prefix} {one two : LlInfo} {addr : In6Addr}
    (firstGenerated : genStatelessAddr first one = some addr)
    (secondGenerated : genStatelessAddr second two = some addr) : one.addr = two.addr := by
  unfold genStatelessAddr at firstGenerated secondGenerated
  split at firstGenerated
  · rename_i firstSupported
    split at secondGenerated
    · rename_i secondSupported
      rw [← secondGenerated, Option.some.injEq, In6Addr.mk.injEq] at firstGenerated
      have bytes := congrArg (·.modify 8 (· ^^^ 0x02)) firstGenerated
      simp only [modify_flip] at bytes
      rw [firstSupported.1, secondSupported.1] at bytes
      refine (List.append_inj' bytes ?_).2
      exact firstSupported.2.trans secondSupported.2.symm
    · simp at secondGenerated
  · simp at firstGenerated

section

variable {ι : Type} [DecidableEq ι] {head : ι → IfaceHead} {key : Key} {root : ι → Prop} {net : Net ι}

/-- Every self address that is set was generated for the interface of its party. -/
def Net.Generated (head : ι → IfaceHead) (key : Key) (net : Net ι) : Prop :=
  ∀ party dag, (net.iface party).lookup key = some dag →
    dag.self = .unspecified ∨ ∃ dest, genStatelessAddr dest (head party).llinfo = some dag.self

theorem generated_act (addressed : Addressed head) (reached : net.Reached head key root) {act : Act ι}
    (enabled : net.Enabled key act) (generated : net.Generated head key) : (net.act key act).Generated head key := by
  intro party dag found
  obtain ⟨moves, _⟩ := act_moves reached enabled
  cases moves party with
  | still same => exact generated party dag (same.symm.trans found)
  | written old dag' before found' _ self =>
      rw [found, Option.some.injEq] at found'
      rw [found', self]
      exact generated party old before
  | heard sender dio dag' peer _ _ found' recorded =>
      rw [found, Option.some.injEq] at found'
      subst found'
      rcases recorded.self with kept | new
      · cases before : (net.iface party).lookup key with
        | none =>
            rw [before] at kept
            exact Or.inl kept
        | some old =>
            rw [before, Option.map_some, Option.getD_some] at kept
            rw [kept]
            exact generated party old before
      · obtain ⟨state, _, related⟩ := reached_act addressed reached enabled
        rw [(lookup_key related found).1] at new
        exact Or.inr ⟨dag.dest, new⟩

/-- Self addresses are distinct where the link-layer addresses are: if every root's dodagid
was generated for its interface, as it is where none is configured, then in every state the
network reaches no two parties have one self address, other than `::`. -/
theorem net_self_distinct (initial : net.Initial key root)
    (generated : ∀ top dag, root top → (net.iface top).lookup key = some dag →
      ∃ dest, genStatelessAddr dest (net.iface top).llinfo = some dag.self)
    (links : ∀ first second, (net.iface first).llinfo.addr = (net.iface second).llinfo.addr → first = second)
    {acts : List (Act ι)} (run : AllSteps (Net.act key) (Net.Enabled key) net acts) :
    (acts.foldl (Net.act key) net).SelfDistinct key (· ≠ .unspecified) := by
  have addressed := initial_addressed initial
  have invariant := @foldl_invariant _ _ (Net.act key) (Net.Enabled key)
    (fun later => later.Reached (fun party => (net.iface party).toIfaceHead) key root ∧
      later.Generated (fun party => (net.iface party).toIfaceHead) key) ?_ acts net ⟨initial_reached initial, ?_⟩ run
  · intro first second firstDag secondDag firstFound secondFound counted same
    rcases invariant.2 first firstDag firstFound with unset | ⟨firstDest, one⟩
    · exact absurd unset counted
    rcases invariant.2 second secondDag secondFound with unset | ⟨secondDest, two⟩
    · exact absurd (same.trans unset) counted
    rw [← same] at two
    exact links first second (genStatelessAddr_llinfo one two)
  · rintro later act enabled ⟨reached, before⟩
    exact ⟨reached_act addressed reached enabled, generated_act addressed reached enabled before⟩
  · intro party dag found
    by_cases isRoot : root party
    · exact Or.inr (generated party dag isRoot found)
    · simp [initial.others party isRoot] at found

end

theorem net_self_distinct_sampleJoins :
    (sampleJoins.foldl (Net.act sampleKey) sampleNet).SelfDistinct sampleKey (· ≠ .unspecified) := by
  refine net_self_distinct sampleNet_initial ?_ (by decide) sampleJoins_enabled
  rintro top dag rfl found
  have same : rootDag 1 = dag := Option.some.inj found
  subst same
  exact ⟨⟨linkLocal 1, 64⟩, by decide⟩

end Rpld
