import Rpld.Messages
import Rpld.Tables
import Rpld.ProcessCore

/-!
What `process_dio` does with a DIO that `dag_build_dio` wrote. The receiver reads back
exactly the fields of the sender's dag; then it either joins the dag or compares the
rank with that of its parent record.
-/

namespace Rpld

open Memory

/-! The dag-level effect of an accepted or refused rank. -/

theorem dagProcessDio_cases (env : Env) (dag : Dag) :
    (dagProcessDio env dag).1 = dag ∨
      ∃ addr, genStatelessAddr dag.dest dag.iface.llinfo = some addr ∧
        (dagProcessDio env dag).1 = { dag with self := addr } := by
  unfold dagProcessDio
  split
  · exact Or.inl rfl
  · rename_i addr generated
    simp only
    split
    · split
      · exact Or.inr ⟨addr, generated, rfl⟩
      · exact Or.inl rfl
    · exact Or.inl rfl

/-- All that `dag_process_dio` asks for: an address, and the end of a route. -/
theorem dagProcessDio_effects {env : Env} {dag : Dag} {effect : Effect}
    (member : effect ∈ (dagProcessDio env dag).2) :
    (∃ addr, effect = .nlAddAddr dag.iface.ifindex addr) ∨
      effect = .nlDelRouteVia dag.iface.ifindex dag.dest none := by
  unfold dagProcessDio at member
  cases generated : genStatelessAddr dag.dest dag.iface.llinfo with
  | none => simp [generated] at member
  | some addr =>
      have requests : effect ∈ [.nlAddAddr dag.iface.ifindex addr, .nlDelRouteVia dag.iface.ifindex dag.dest none] := by
        simp only [generated] at member
        split at member
        · split at member <;> exact member
        · rw [List.mem_singleton] at member
          rw [member]
          exact List.mem_cons_self
      rcases List.mem_cons.mp requests with adds | deletes
      · exact Or.inl ⟨addr, adds⟩
      · exact Or.inr (List.mem_singleton.mp deletes)

/-- Address configuration: all three steps of `dag_process_dio` succeed. -/
def Configures (env : Env) (dag : Dag) : Prop :=
  (genStatelessAddr dag.dest dag.iface.llinfo).isSome ∧
    (env.addAddr = .ok ∨ env.addAddr = .error eexist) ∧ env.delRoute = .ok

theorem dagProcessDio_configures {env : Env} {dag : Dag} (configures : Configures env dag) :
    ∃ addr, genStatelessAddr dag.dest dag.iface.llinfo = some addr ∧
      (dagProcessDio env dag).1 = { dag with self := addr } := by
  obtain ⟨generates, adds, deletes⟩ := configures
  obtain ⟨addr, generated⟩ := Option.isSome_iff_exists.mp generates
  exact ⟨addr, generated, by simp [dagProcessDio, generated, adds, deletes]⟩

def Dag.parentOr (dag : Dag) (src : In6Addr) : Peer := dag.parent.getD ⟨src, 0xffff⟩

/-- The dag once the rank of a DIO is accepted, before its address is configured. -/
def Dag.ranked (dag : Dag) (rank : UInt16) (src : In6Addr) : Dag :=
  { dag with parent := some { dag.parentOr src with rank := rank }, myRank := rank + 1 }

def HasParent (env : Env) (dag : Dag) : Prop := dag.parent.isSome ∨ env.peerAlloc = true

theorem hasParent_of_allocs {env : Env} (allocs : env.AllocsSucceed) (dag : Dag) :
    HasParent env dag := Or.inr allocs.peer

theorem dioParent_eq_none {env : Env} {dag : Dag} {src : In6Addr} (without : ¬ HasParent env dag) :
    dioParent env dag src = none := by
  simp only [HasParent, not_or, Bool.not_eq_true, Option.isSome_eq_false_iff, Option.isNone_iff_eq_none]
    at without
  simp [dioParent, without.1, dagPeerCreate, without.2]

theorem dioParent_eq_some {env : Env} {dag : Dag} {src : In6Addr} (available : HasParent env dag) :
    dioParent env dag src = some (dag.parentOr src) := by
  unfold dioParent Dag.parentOr
  cases parent : dag.parent with
  | some peer => rfl
  | none =>
      have allocated : env.peerAlloc = true := by simpa [HasParent, parent] using available
      simp [dagPeerCreate, allocated]

structure Heard where
  dag : Dag
  effects : List Effect
  fault : Option Fault

/-- `process_dio` as far as it concerns the dag alone. -/
def Dag.hears (env : Env) (dag : Dag) (rank : UInt16) (src : In6Addr) : Heard :=
  match dioParent env dag src with
  | none => ⟨dag, [], none⟩
  | some parent =>
      if rank > parent.rank then ⟨{ dag with parent := some parent }, [], none⟩
      else
        let configured := dagProcessDio env
          { dag with parent := some { parent with rank := rank }, myRank := rank + 1 }
        match sendDao env parent.addr configured.1 with
        | .error fault => ⟨configured.1, configured.2, some fault⟩
        | .ok (sent, dao) => ⟨sent, configured.2 ++ [dao], none⟩

theorem dagProcessDio_parent (env : Env) (dag : Dag) : (dagProcessDio env dag).1.parent = dag.parent := by
  rcases dagProcessDio_cases env dag with same | ⟨addr, _, wrote⟩
  · rw [same]
  · rw [wrote]

theorem dagProcessDio_childs (env : Env) (dag : Dag) : (dagProcessDio env dag).1.childs = dag.childs := by
  rcases dagProcessDio_cases env dag with same | ⟨addr, _, wrote⟩
  · rw [same]
  · rw [wrote]

theorem processDioRank_hears {env : Env} {iface : Iface} {instanceId : UInt8} {dodagid : In6Addr} {dag : Dag}
    (held : HasParent env dag ∨ dagLookup iface instanceId dodagid = some dag) (rank : UInt16) (src : In6Addr)
    (effects : List Effect) (reads : List Nat) :
    processDioRank env iface instanceId dodagid dag rank src effects reads =
      let heard := dag.hears env rank src
      ⟨dagWrite iface instanceId dodagid fun _ => heard.dag, effects ++ heard.effects, reads, heard.fault⟩ := by
  unfold processDioRank Dag.hears
  cases recorded : dioParent env dag src with
  | none =>
      rcases held with available | found
      · simp [dioParent_eq_some available] at recorded
      · simp [dagWrite_of_found found]
  | some parent =>
      simp only
      split
      · simp
      · simp only [dagProcessDio_parent]
        cases sendDao env parent.addr (dagProcessDio env
          { dag with parent := some { parent with rank := rank }, myRank := rank + 1 }).1 with
        | error fault => rfl
        | ok sent => simp

theorem Dag.hears_cases {env : Env} {dag : Dag} (available : HasParent env dag) (rank : UInt16) (src : In6Addr) :
    let configured := dagProcessDio env (dag.ranked rank src)
    (rank > (dag.parentOr src).rank ∧
      dag.hears env rank src = ⟨{ dag with parent := some (dag.parentOr src) }, [], none⟩) ∨
    (rank ≤ (dag.parentOr src).rank ∧ safeBufferLimit < configured.1.daoBytes.length ∧
      dag.hears env rank src = ⟨configured.1, configured.2, some .exit⟩) ∨
    (rank ≤ (dag.parentOr src).rank ∧ configured.1.daoBytes.length ≤ safeBufferLimit ∧
      dag.hears env rank src = ⟨configured.1.afterDao env,
        configured.2 ++ [.sendmsg configured.1.iface.ifindex configured.1.iface.ifaddr
          (dag.parentOr src).addr configured.1.daoBytes], none⟩) := by
  intro configured
  have parent : dioParent env dag src = some (dag.parentOr src) := dioParent_eq_some available
  by_cases higher : rank > (dag.parentOr src).rank
  · left
    exact ⟨higher, by simp [Dag.hears, parent, higher]⟩
  · right
    have accepted : rank ≤ (dag.parentOr src).rank := UInt16.not_lt.mp higher
    have ranked : ({ dag with parent := some { dag.parentOr src with rank := rank }, myRank := rank + 1 } : Dag) =
        dag.ranked rank src := rfl
    simp only [Dag.hears, parent, higher, if_false, ranked]
    by_cases large : safeBufferLimit < configured.1.daoBytes.length
    · left
      refine ⟨accepted, large, ?_⟩
      simp only [sendDao_exit env _ _ large, configured]
    · right
      refine ⟨accepted, by omega, ?_⟩
      simp only [sendDao_ok env _ _ (show configured.1.daoBytes.length ≤ safeBufferLimit by omega), configured]

theorem Dag.hears_without {env : Env} {dag : Dag} (without : ¬ HasParent env dag) (rank : UInt16) (src : In6Addr) :
    dag.hears env rank src = ⟨dag, [], none⟩ := by
  simp [Dag.hears, dioParent_eq_none without]

theorem processDioRank_cases {env : Env} {dag : Dag} (available : HasParent env dag) (iface : Iface)
    (instanceId : UInt8) (dodagid : In6Addr) (rank : UInt16) (src : In6Addr)
    (effects : List Effect) (reads : List Nat) :
    let out := processDioRank env iface instanceId dodagid dag rank src effects reads
    let write := fun next => dagWrite iface instanceId dodagid fun _ => next
    let configured := dagProcessDio env (dag.ranked rank src)
    (rank > (dag.parentOr src).rank ∧
      out = ⟨write { dag with parent := some (dag.parentOr src) }, effects, reads, none⟩) ∨
    (rank ≤ (dag.parentOr src).rank ∧ safeBufferLimit < configured.1.daoBytes.length ∧
      out = ⟨write configured.1, effects ++ configured.2, reads, some .exit⟩) ∨
    (rank ≤ (dag.parentOr src).rank ∧ configured.1.daoBytes.length ≤ safeBufferLimit ∧
      out = ⟨write (configured.1.afterDao env),
        effects ++ configured.2 ++ [.sendmsg configured.1.iface.ifindex configured.1.iface.ifaddr
          (dag.parentOr src).addr configured.1.daoBytes], reads, none⟩) := by
  intro out write configured
  have heard : out = _ := processDioRank_hears (Or.inl available) rank src effects reads
  rw [heard]
  rcases Dag.hears_cases available rank src with ⟨higher, refused⟩ | ⟨accepted, large, exited⟩ | ⟨accepted, fits, sent⟩
  · exact Or.inl ⟨higher, by simp [refused, write]⟩
  · exact Or.inr (Or.inl ⟨accepted, large, by simp [exited, write, configured]⟩)
  · exact Or.inr (Or.inr ⟨accepted, fits, by simp [sent, write, configured]⟩)

theorem processDioRank_without {env : Env} {dag : Dag} (without : ¬ HasParent env dag) (iface : Iface)
    (instanceId : UInt8) (dodagid : In6Addr) (rank : UInt16) (src : In6Addr)
    (effects : List Effect) (reads : List Nat) :
    processDioRank env iface instanceId dodagid dag rank src effects reads =
      ⟨iface, effects, reads, none⟩ := by
  simp [processDioRank, dioParent_eq_none without]

theorem processDioRank_reads (env : Env) (iface : Iface) (instanceId : UInt8) (dodagid : In6Addr)
    (dag : Dag) (rank : UInt16) (src : In6Addr) (effects : List Effect) (before reads : List Nat) :
    { processDioRank env iface instanceId dodagid dag rank src effects reads with
      reads := before ++ (processDioRank env iface instanceId dodagid dag rank src effects reads).reads } =
    processDioRank env iface instanceId dodagid dag rank src effects (before ++ reads) := by
  unfold processDioRank
  dsimp only
  split
  · rfl
  · split
    · rfl
    · split
      · rfl
      · split <;> rfl

/-! Reading a DIO back. -/

structure CarriesDio (mem : Nat → UInt8) (len : Nat) (dag : Dag) : Prop where
  type : mem 0 = ndRplMessage
  code : mem 1 = ndRplDagIo
  instanceId : mem 4 = dag.rpl.instanceId
  version : mem 5 = dag.version
  rank : ntohs (mem 6) (mem 7) = dag.myRank
  dodagid : addrAt mem 12 = dag.dodagid
  option : mem 28 = 0x3
  prefixlen : mem 30 = dag.dest.len
  destination : slice mem 36 (bitsToBytes dag.dest.len).toNat =
    dag.dest.pfx.s6Addr.take (bitsToBytes dag.dest.len).toNat
  length : len = 36 + (bitsToBytes dag.dest.len).toNat

theorem Dag.dioBytes_split (dag : Dag) :
    dag.dioBytes =
      [ndRplMessage, ndRplDagIo, 0, 0, dag.rpl.instanceId, dag.version,
        UInt8.ofNat (dag.myRank.toNat / 256), UInt8.ofNat (dag.myRank.toNat % 256),
        ndRplDioGrounded ||| rplDioStoringNoMulticast <<< 3, dag.dtsn, 0, 0] ++
      (dag.dodagid.s6Addr ++
        ([0x3, 8 + bitsToBytes dag.dest.len - 2, dag.dest.len, 0, 0xff, 0xff, 0xff, 0xff] ++
          dag.dest.pfx.s6Addr.take (bitsToBytes dag.dest.len).toNat)) := by
  simp [Dag.dioBytes, Icmp6Hdr.bytes, Dag.dioHead, NdRplDio.bytes, htons, Dag.destOption,
    RplDioDestPrefix.bytes, Nat.add_comm 8]

theorem carriesDio_of_bytes {mem : Nat → UInt8} {len : Nat} {dag : Dag}
    (carried : slice mem 0 len = dag.dioBytes) (valid : dag.dest.len.toNat ≤ 128) :
    CarriesDio mem len dag := by
  have bytes := (bitsToBytes_le_sixteen dag.dest.len).mpr valid
  rw [Dag.dioBytes_split] at carried
  have size := congrArg List.length carried
  simp only [slice_length, List.length_append, List.length_cons, List.length_nil, dag.dodagid.size,
    List.length_take, dag.dest.pfx.size] at size
  obtain ⟨head, rest⟩ := slice_eq_append mem carried
  obtain ⟨dagid, rest⟩ := slice_eq_append mem rest
  obtain ⟨option, destination⟩ := slice_eq_append mem rest
  simp only [List.length_cons, List.length_nil, dag.dodagid.size, List.length_take, dag.dest.pfx.size,
    Nat.min_eq_left bytes] at head dagid option destination
  simp only [slice, List.range, List.range.loop, List.map_cons, List.map_nil, Nat.zero_add,
    List.cons.injEq, and_true] at head option
  obtain ⟨type, code, _, _, instanceId, version, high, low, _⟩ := head
  obtain ⟨kind, _, prefixlen, _⟩ := option
  refine ⟨type, code, instanceId, version, ?_, ?_, kind, prefixlen, destination, by omega⟩
  · rw [high, low, ntohs_htons]
  · apply In6Addr.ext
    exact dagid

theorem processIface_dioBody {env : Env} {iface : Iface} {mem : Nat → UInt8} {len : Nat} {src : In6Addr}
    (type : mem 0 = ndRplMessage) (code : mem 1 = ndRplDagIo) :
    processIface env iface mem len src =
      { processDio env iface mem len src with reads := [0, 1] ++ (processDio env iface mem len src).reads } := by
  simp [processIface, type, code, ndRplDagIo, ndRplDagIs]

theorem processDio_known {env : Env} {iface : Iface} {mem : Nat → UInt8} {len : Nat} {src : In6Addr}
    {sender dag : Dag} (carries : CarriesDio mem len sender)
    (found : dagLookup iface sender.rpl.instanceId sender.dodagid = some dag) :
    ∃ reads, processIface env iface mem (len - 4) src =
      if dag.myRank = 1 then dropped iface reads
      else processDioRank env iface sender.rpl.instanceId sender.dodagid dag sender.myRank src [] reads := by
  have long : ¬ len - 4 < sizeofDio := by
    have length := carries.length
    simp only [sizeofDio]
    omega
  rw [processIface_dioBody carries.type carries.code]
  simp only [processDio, long, if_false, carries.instanceId, carries.dodagid, carries.rank, found]
  by_cases root : dag.myRank = 1
  · exact ⟨_, by simp only [root, if_true]; rfl⟩
  · refine ⟨[0, 1] ++ (4 :: addrReads 12 ++ [6, 7]), ?_⟩
    simp only [root, if_false]
    exact processDioRank_reads _ _ _ _ _ _ _ _ _ _

def In6Addr.copyFront (count : Nat) (source target : In6Addr) : In6Addr :=
  ⟨source.s6Addr.take count ++ target.s6Addr.drop count, by
    simp only [List.length_append, List.length_take, List.length_drop, source.size, target.size]
    omega⟩

/-- The dag a DIO of `sender` creates: its prefix bytes lie over what the stack held. -/
def joinedDag (env : Env) (iface : Iface) (sender : Dag) : Dag :=
  freshDag iface sender.rpl.instanceId sender.dodagid defaultTickleT 0xffff sender.version
    ⟨sender.dest.pfx.copyFront (bitsToBytes sender.dest.len).toNat env.stack, sender.dest.len⟩

theorem processDio_unknown {env : Env} {iface : Iface} {mem : Nat → UInt8} {len : Nat} {src : In6Addr}
    {sender : Dag} (allocs : env.AllocsSucceed) (carries : CarriesDio mem len sender)
    (valid : sender.dest.len.toNat ≤ 128)
    (missing : dagLookup iface sender.rpl.instanceId sender.dodagid = none) :
    ∃ reads, processIface env iface mem (len - 4) src =
      processDioRank env (withDag iface sender.rpl.instanceId (joinedDag env iface sender))
        sender.rpl.instanceId sender.dodagid (joinedDag env iface sender) sender.myRank src
        (dagInitTimer (joinedDag env iface sender)) reads := by
  have bytes := (bitsToBytes_le_sixteen sender.dest.len).mpr valid
  have length := carries.length
  have long : ¬ len - 4 < sizeofDio := by simp only [sizeofDio]; omega
  have hasOption : ¬ len - 4 - sizeofDio < sizeofDiodpHead := by
    simp only [sizeofDio, sizeofDiodpHead]; omega
  have hasPrefix : ¬ len - 4 - sizeofDio - sizeofDiodpHead < (bitsToBytes sender.dest.len).toNat := by
    simp only [sizeofDio, sizeofDiodpHead]; omega
  have inside : ¬ sizeofPrefix < (bitsToBytes sender.dest.len).toNat := by
    simp only [sizeofPrefix]; omega
  rw [processIface_dioBody carries.type carries.code]
  refine ⟨[0, 1] ++ (4 :: addrReads 12 ++ [28, 30] ++
    List.range' 36 (bitsToBytes sender.dest.len).toNat ++ [5, 6, 7]), ?_⟩
  rw [← processDioRank_reads]
  simp only [processDio, long, if_false, carries.instanceId, carries.dodagid, carries.rank, missing,
    hasOption, carries.option, ne_eq, not_true_eq_false, carries.prefixlen, hasPrefix, inside,
    dif_neg, not_false_eq_true, carries.version, carries.destination, dagCreate_ok allocs missing]
  rfl

def configuredJoin (env : Env) (iface : Iface) (sender : Dag) (src : In6Addr) : Dag :=
  (dagProcessDio env ((joinedDag env iface sender).ranked sender.myRank src)).1

theorem configuredJoin_cases (env : Env) (iface : Iface) (sender : Dag) (src : In6Addr) :
    configuredJoin env iface sender src = (joinedDag env iface sender).ranked sender.myRank src ∨
      ∃ addr, genStatelessAddr (joinedDag env iface sender).dest iface.llinfo = some addr ∧
        configuredJoin env iface sender src =
          { (joinedDag env iface sender).ranked sender.myRank src with self := addr } :=
  dagProcessDio_cases env ((joinedDag env iface sender).ranked sender.myRank src)

/-- A first DIO is always accepted: a fresh parent record has the largest rank, and a
DAO without children always fits. -/
theorem processDio_joins {env : Env} {iface : Iface} {mem : Nat → UInt8} {len : Nat} {src : In6Addr}
    {sender : Dag} (allocs : env.AllocsSucceed) (carries : CarriesDio mem len sender)
    (valid : sender.dest.len.toNat ≤ 128)
    (missing : dagLookup iface sender.rpl.instanceId sender.dodagid = none) :
    let configured := configuredJoin env iface sender src
    ∃ reads, processIface env iface mem (len - 4) src =
      ⟨withDag iface sender.rpl.instanceId (configured.afterDao env),
        dagInitTimer (joinedDag env iface sender) ++
          (dagProcessDio env ((joinedDag env iface sender).ranked sender.myRank src)).2 ++
          [.sendmsg iface.ifindex iface.ifaddr src configured.daoBytes], reads, none⟩ := by
  intro configured
  have fields : configured.childs = [] ∧ configured.iface = iface.toIfaceHead := by
    rcases configuredJoin_cases env iface sender src with same | ⟨addr, _, wrote⟩
    · simp only [configured, same]
      exact ⟨rfl, rfl⟩
    · simp only [configured, wrote]
      exact ⟨rfl, rfl⟩
  have fits : configured.daoBytes.length ≤ safeBufferLimit := by
    rw [Dag.daoBytes_length, fields.1]
    decide
  obtain ⟨reads, handled⟩ := @processDio_unknown env iface mem len src sender allocs carries valid missing
  refine ⟨reads, ?_⟩
  rw [handled]
  rcases processDioRank_cases (hasParent_of_allocs allocs (joinedDag env iface sender))
    (withDag iface sender.rpl.instanceId (joinedDag env iface sender)) sender.rpl.instanceId sender.dodagid
    sender.myRank src (dagInitTimer (joinedDag env iface sender)) reads with
    ⟨higher, _⟩ | ⟨_, large, _⟩ | ⟨_, _, sent⟩
  · have largest : ((joinedDag env iface sender).parentOr src).rank = 0xffff := rfl
    have bound := sender.myRank.toNat_lt
    rw [largest] at higher
    have above := UInt16.lt_iff_toNat_lt.mp higher
    have top : (0xffff : UInt16).toNat = 65535 := rfl
    omega
  · simp only [configured, configuredJoin] at fits
    omega
  · rw [sent]
    simp only
    rw [dagWrite_withDag missing (show (joinedDag env iface sender).dodagid = sender.dodagid from rfl)]
    simp only [configured, configuredJoin] at fields
    rw [fields.2]
    rfl

end Rpld
