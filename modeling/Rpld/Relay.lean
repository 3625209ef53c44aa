import Rpld.Frames
import Rpld.DaoCodec

/-!
A DIO handed on from node to node. Each receiver that has no dag for the key creates one
with the sender's identity, version and prefix bytes, one rank further down, and every
DIO it ever sends for it repeats the one the chain started with, rank and DTSN apart.
-/

namespace Rpld

open Memory FirstMatch

/-! All dags of an interface under one key. -/

def Iface.dagsFor (iface : Iface) (instanceId : UInt8) (dodagid : In6Addr) : List Dag :=
  (iface.rpls.filter (·.instanceId == instanceId)).flatMap fun rpl =>
    rpl.dags.filter (·.dodagid == dodagid)

section

variable {iface : Iface} {instanceId : UInt8} {dodagid : In6Addr} {dag : Dag}

theorem dagLookup_of_dagsFor_nil (none : iface.dagsFor instanceId dodagid = []) :
    dagLookup iface instanceId dodagid = .none := by
  rw [dagLookup_eq]
  cases linked : iface.rpls.find? (·.instanceId == instanceId) with
  | none => rfl
  | some rpl =>
      have member : rpl ∈ iface.rpls.filter (·.instanceId == instanceId) := by
        rw [List.mem_filter]
        have accepted := List.find?_some linked
        exact ⟨List.mem_of_find?_eq_some linked, accepted⟩
      have empty := List.flatMap_eq_nil_iff.mp none rpl member
      rw [Option.bind_some, List.find?_eq_none]
      exact List.filter_eq_nil_iff.mp empty

theorem dagsFor_dagAppend {rpl : Rpl} (linked : dagLookupRpl iface instanceId = some rpl)
    (none : iface.dagsFor instanceId dodagid = []) (key : dag.dodagid = dodagid) :
    (dagAppend iface instanceId dag).dagsFor instanceId dodagid = [dag] := by
  unfold dagLookupRpl at linked
  cases matching : iface.rpls.filter (·.instanceId == instanceId) with
  | nil =>
      have missing := List.filter_eq_nil_iff.mp matching rpl (List.mem_of_find?_eq_some linked)
      exact absurd (List.find?_some linked) missing
  | cons first others =>
      rw [Iface.dagsFor, matching, List.flatMap_cons, List.append_eq_nil_iff] at none
      rw [Iface.dagsFor, dagAppend]
      simp only
      rw [filter_updateFirst (by intro rpl accepted; exact accepted) matching, List.flatMap_cons, none.2]
      simp [none.1, key]

theorem dagsFor_withDag (none : iface.dagsFor instanceId dodagid = []) (key : dag.dodagid = dodagid) :
    (withDag iface instanceId dag).dagsFor instanceId dodagid = [dag] := by
  unfold withDag
  cases linked : dagLookupRpl iface instanceId with
  | some rpl => exact dagsFor_dagAppend linked none key
  | none =>
      refine dagsFor_dagAppend (dagLookupRpl_rplAppend linked) ?_ key
      unfold Iface.dagsFor at none ⊢
      simp [rplAppend, none]

/-! The same through the fields that are written once. -/

def advertsFor (entries : List (RplHead × List Advert)) (instanceId : UInt8) (dodagid : In6Addr) :
    List Advert :=
  (entries.filter (·.1.instanceId == instanceId)).flatMap fun entry =>
    entry.2.filter (·.dodagid == dodagid)

def advertLookup (entries : List (RplHead × List Advert)) (instanceId : UInt8) (dodagid : In6Addr) :
    Option Advert :=
  (entries.find? (·.1.instanceId == instanceId)).bind fun entry => entry.2.find? (·.dodagid == dodagid)

theorem dagsFor_adverts (iface : Iface) (instanceId : UInt8) (dodagid : In6Addr) :
    (iface.dagsFor instanceId dodagid).map Dag.advert = advertsFor iface.adverts instanceId dodagid := by
  unfold Iface.dagsFor advertsFor Iface.adverts
  rw [List.filter_map, List.flatMap_map, List.map_flatMap]
  congr 1
  funext rpl
  simp only [Rpl.adverts]
  rw [List.filter_map]
  rfl

theorem dagLookup_adverts (iface : Iface) (instanceId : UInt8) (dodagid : In6Addr) :
    (dagLookup iface instanceId dodagid).map Dag.advert = advertLookup iface.adverts instanceId dodagid := by
  rw [dagLookup_eq, advertLookup, Iface.adverts, List.find?_map]
  have same : ((fun entry : RplHead × List Advert => entry.1.instanceId == instanceId) ∘ Rpl.adverts) =
      fun rpl => rpl.instanceId == instanceId := rfl
  rw [same]
  cases iface.rpls.find? (·.instanceId == instanceId) with
  | none => rfl
  | some rpl =>
      simp only [Option.bind_some, Option.map_some, Rpl.adverts]
      rw [List.find?_map]
      rfl

theorem dagsFor_eq (iface : Iface) (instanceId : UInt8) (dodagid : In6Addr) :
    iface.dagsFor instanceId dodagid =
      (iface.rpls.map fun rpl =>
        if rpl.instanceId == instanceId then rpl.dags.filter (·.dodagid == dodagid) else []).flatten := by
  unfold Iface.dagsFor
  induction iface.rpls with
  | nil => rfl
  | cons rpl rest ih =>
      by_cases same : (rpl.instanceId == instanceId) = true
      · simp only [List.filter_cons, same, if_true, List.flatMap_cons, List.map_cons, List.flatten_cons, ih]
      · simp only [List.filter_cons, same, Bool.false_eq_true, if_false, List.map_cons, List.flatten_cons,
          List.nil_append, ih]

theorem dagsFor_dagAppend_other {rpl : Rpl} {otherId : UInt8} {otherDodagid : In6Addr}
    (linked : dagLookupRpl iface instanceId = some rpl)
    (different : ¬ (otherId = instanceId ∧ otherDodagid = dag.dodagid)) :
    (dagAppend iface instanceId dag).dagsFor otherId otherDodagid = iface.dagsFor otherId otherDodagid := by
  rw [dagsFor_eq, dagsFor_eq, dagAppend]
  congr 1
  apply map_updateFirst linked
  have accepted := List.find?_some linked
  simp only [beq_iff_eq] at accepted
  by_cases sameId : otherId = instanceId
  · have otherDag : dag.dodagid ≠ otherDodagid := fun same => different ⟨sameId, same.symm⟩
    simp [otherDag]
  · simp [accepted, Ne.symm sameId]

theorem dagsFor_withDag_other {otherId : UInt8} {otherDodagid : In6Addr}
    (different : ¬ (otherId = instanceId ∧ otherDodagid = dag.dodagid)) :
    (withDag iface instanceId dag).dagsFor otherId otherDodagid = iface.dagsFor otherId otherDodagid := by
  unfold withDag
  cases linked : dagLookupRpl iface instanceId with
  | some rpl => exact dagsFor_dagAppend_other linked different
  | none =>
      simp only
      rw [dagsFor_dagAppend_other (dagLookupRpl_rplAppend linked) different, dagsFor_eq, dagsFor_eq]
      simp [rplAppend]

end

/-! Later states. -/

/-- The interface still has the dags it had, with the fields they were created with. -/
structure Keeps (before after : Iface) : Prop where
  head : after.toIfaceHead = before.toIfaceHead
  lookup : ∀ instanceId dodagid dag, dagLookup before instanceId dodagid = some dag →
    ∃ next, dagLookup after instanceId dodagid = some next ∧ next.advert = dag.advert
  all : ∀ instanceId dodagid dag, dagLookup before instanceId dodagid = some dag →
    (after.dagsFor instanceId dodagid).map Dag.advert = (before.dagsFor instanceId dodagid).map Dag.advert

theorem keeps_refl (iface : Iface) : Keeps iface iface :=
  ⟨rfl, fun _ _ dag found => ⟨dag, found, rfl⟩, fun _ _ _ _ => rfl⟩

theorem keeps_trans {first second third : Iface} (one : Keeps first second) (two : Keeps second third) :
    Keeps first third := by
  refine ⟨two.head.trans one.head, ?_, ?_⟩
  · intro instanceId dodagid dag found
    obtain ⟨middle, middleFound, same⟩ := one.lookup instanceId dodagid dag found
    obtain ⟨last, lastFound, equal⟩ := two.lookup instanceId dodagid middle middleFound
    exact ⟨last, lastFound, equal.trans same⟩
  · intro instanceId dodagid dag found
    obtain ⟨middle, middleFound, _⟩ := one.lookup instanceId dodagid dag found
    exact (two.all instanceId dodagid middle middleFound).trans (one.all instanceId dodagid dag found)

theorem keeps_of_adverts {before after : Iface} (head : after.toIfaceHead = before.toIfaceHead)
    (same : after.adverts = before.adverts) : Keeps before after := by
  refine ⟨head, ?_, ?_⟩
  · intro instanceId dodagid dag found
    have equal : (dagLookup after instanceId dodagid).map Dag.advert = some dag.advert := by
      rw [dagLookup_adverts, same, ← dagLookup_adverts, found]
      rfl
    rw [Option.map_eq_some_iff] at equal
    exact equal
  · intro instanceId dodagid dag _
    rw [dagsFor_adverts, same, ← dagsFor_adverts]

theorem keeps_withDag {iface : Iface} {instanceId : UInt8} {dag : Dag}
    (missing : dagLookup iface instanceId dag.dodagid = none) :
    Keeps iface (withDag iface instanceId dag) := by
  have different : ∀ otherId otherDodagid other, dagLookup iface otherId otherDodagid = some other →
      ¬ (otherId = instanceId ∧ otherDodagid = dag.dodagid) := by
    rintro otherId otherDodagid other found ⟨sameId, sameDodagid⟩
    rw [sameId, sameDodagid, missing] at found
    simp at found
  refine ⟨withDag_head dag, ?_, ?_⟩
  · intro otherId otherDodagid other found
    refine ⟨other, ?_, rfl⟩
    rw [dagLookup_withDag_other (different otherId otherDodagid other found)]
    exact found
  · intro otherId otherDodagid other found
    rw [dagsFor_withDag_other (different otherId otherDodagid other found)]

theorem follows_keeps {made : Advert → Prop} {before after : Iface} (follows : Follows made before after) :
    Keeps before after := by
  rcases follows.adverts with same | ⟨instanceId, dag, missing, _, _, _, same⟩
  · exact keeps_of_adverts follows.head same
  · refine keeps_trans (keeps_withDag missing) (keeps_of_adverts ?_ same)
    rw [follows.head, withDag_head]

theorem Daemon.run_keeps {daemon : Daemon} {ifindex : UInt32} {iface : Iface}
    (known : ifaceFindByIfindex daemon.ifaces ifindex = some iface) (events : List Event) :
    ∃ later, ifaceFindByIfindex (daemon.run events).ifaces ifindex = some later ∧ Keeps iface later := by
  refine @Runs.foldl_invariant_always _ _ Daemon.step
    (fun state => ∃ later, ifaceFindByIfindex state.ifaces ifindex = some later ∧ Keeps iface later)
    ?_ events daemon ⟨iface, known, keeps_refl iface⟩
  rintro state event ⟨later, found, keeps⟩
  obtain ⟨accept, change, stepped, follows⟩ := state.step_ifaces event
  have sameIndex : ∀ other, state.ifaces.find? accept = some other →
      ((change other).ifindex == ifindex) = (other.ifindex == ifindex) := by
    intro other otherFound
    have head := (follows other otherFound).head
    rw [show (change other).ifindex = other.ifindex from congrArg IfaceHead.ifindex head]
  rcases find?_updateFirst_other sameIndex found with same | ⟨rewritten, changed⟩
  · exact ⟨later, by rw [stepped]; exact same, keeps⟩
  · refine ⟨change later, by rw [stepped]; exact changed, ?_⟩
    exact keeps_trans keeps (follows_keeps (follows later rewritten))

/-! One hop. -/

def Dag.dio (env : Env) (dag : Dag) : Except Fault (List UInt8) :=
  (dagBuildDio dag (safeBufferNew env.heap)).map fun built => built.2.contents

theorem Dag.dio_ok (env : Env) (dag : Dag) (valid : dag.dest.len.toNat ≤ 128) :
    dag.dio env = .ok dag.dioBytes := by
  obtain ⟨sb, built, contents⟩ := dagBuildDio_ok dag env.heap valid
  simp [Dag.dio, built, contents, Except.map]

structure Dag.JoinedBy (dag : Dag) (fresh : Advert) (sender : Dag) (src : In6Addr) : Prop where
  advert : dag.advert = fresh
  myRank : dag.myRank = sender.myRank + 1
  parent : dag.parent = some ⟨src, sender.myRank⟩
  childs : dag.childs = []

theorem configuredJoin_joinedBy (env : Env) (iface : Iface) (sender : Dag) (src : In6Addr) :
    (configuredJoin env iface sender src).JoinedBy (joinedDag env iface sender).advert sender src := by
  rcases configuredJoin_cases env iface sender src with same | ⟨addr, _, wrote⟩
  · rw [same]
    exact ⟨rfl, rfl, rfl, rfl⟩
  · rw [wrote]
    exact ⟨rfl, rfl, rfl, rfl⟩

theorem afterDao_joinedBy {dag sender : Dag} {fresh : Advert} {src : In6Addr} (joined : dag.JoinedBy fresh sender src)
    (env : Env) : (dag.afterDao env).JoinedBy fresh sender src := by
  rw [Dag.afterDao_eq]
  exact ⟨joined.advert, joined.myRank, joined.parent, joined.childs⟩

/-- A receiver: its tables, the interface the packet arrives on, and the packet. -/
structure Hop where
  env : Env
  ifaces : List Iface
  iface : Iface
  pkt : Packet

def Hop.processed (hop : Hop) : Processed := process hop.env hop.ifaces hop.pkt

/-- The receiver has no dag for the key and gets the DIO of `sender`, from its address. -/
structure Hop.Receives (hop : Hop) (sender : Dag) : Prop where
  allocs : hop.env.AllocsSucceed
  known : ifaceFindByIfindex hop.ifaces hop.pkt.ifindex = some hop.iface
  without : hop.iface.dagsFor sender.rpl.instanceId sender.dodagid = []
  built : ∃ senderEnv, sender.dio senderEnv = .ok hop.pkt.bytes
  source : hop.pkt.src = sender.iface.ifaddr

structure Dag.Repeats (dag origin : Dag) : Prop where
  instanceId : dag.rpl.instanceId = origin.rpl.instanceId
  dodagid : dag.dodagid = origin.dodagid
  version : dag.version = origin.version
  destLen : dag.dest.len = origin.dest.len
  destBytes : dag.dest.pfx.s6Addr.take (bitsToBytes origin.dest.len).toNat =
    origin.dest.pfx.s6Addr.take (bitsToBytes origin.dest.len).toNat

theorem Dag.Repeats.refl (dag : Dag) : dag.Repeats dag := ⟨rfl, rfl, rfl, rfl, rfl⟩

theorem Dag.Repeats.trans {first second third : Dag} (one : first.Repeats second)
    (two : second.Repeats third) : first.Repeats third := by
  refine ⟨one.instanceId.trans two.instanceId, one.dodagid.trans two.dodagid, one.version.trans two.version,
    one.destLen.trans two.destLen, ?_⟩
  have bytes := one.destBytes
  rw [two.destLen] at bytes
  exact bytes.trans two.destBytes

theorem Dag.Repeats.of_advert {first second : Dag} (same : first.advert = second.advert) :
    first.Repeats second := by
  simp only [Dag.advert, Advert.mk.injEq] at same
  obtain ⟨version, dodagid, dest, _, _, rpl⟩ := same
  refine ⟨?_, dodagid, version, ?_, ?_⟩
  · rw [rpl]
  · rw [dest]
  · rw [dest]

theorem copyFront_take (count : Nat) (source target : In6Addr) (bound : count ≤ 16) :
    (source.copyFront count target).s6Addr.take count = source.s6Addr.take count := by
  have size : (source.s6Addr.take count).length = count := by
    rw [List.length_take, source.size]
    omega
  simp only [In6Addr.copyFront]
  rw [List.take_append_of_le_length (by omega), List.take_take, Nat.min_self]

theorem joinedDag_repeats (env : Env) (iface : Iface) {sender : Dag} (valid : sender.dest.len.toNat ≤ 128) :
    (joinedDag env iface sender).Repeats sender := by
  have bytes := (bitsToBytes_le_sixteen sender.dest.len).mpr valid
  refine ⟨rfl, rfl, rfl, rfl, ?_⟩
  exact copyFront_take _ _ _ bytes

theorem process_ifaceFind {env : Env} {ifaces : List Iface} {pkt : Packet} {iface : Iface}
    (long : 4 ≤ pkt.len) (known : ifaceFindByIfindex ifaces pkt.ifindex = some iface) :
    ifaceFindByIfindex (process env ifaces pkt).ifaces pkt.ifindex =
      some (processIface env iface pkt.mem (pkt.len - 4) pkt.src).iface := by
  have index := List.find?_some known
  have head := (processIface_follows env iface pkt.mem (pkt.len - 4) pkt.src).head
  rw [process_of_find long known, ifaceFindByIfindex, find?_updateFirst]
  · rw [show ifaces.find? (·.ifindex == pkt.ifindex) = some iface from known]
    rfl
  · intro other _
    rw [show (processIface env iface pkt.mem (pkt.len - 4) pkt.src).iface.ifindex = iface.ifindex from
      congrArg IfaceHead.ifindex head]
    exact index

theorem hop_joins {hop : Hop} {sender : Dag} (valid : sender.dest.len.toNat ≤ 128)
    (receives : hop.Receives sender) :
    hop.processed.fault = none ∧
      ∃ iface dag, ifaceFindByIfindex hop.processed.ifaces hop.pkt.ifindex = some iface ∧
        iface.dagsFor sender.rpl.instanceId sender.dodagid = [dag] ∧
        dagLookup iface sender.rpl.instanceId sender.dodagid = some dag ∧
        dag.Repeats sender ∧ dag.iface = hop.iface.toIfaceHead ∧ dag.myRank = sender.myRank + 1 ∧
        dag.parent = some ⟨sender.iface.ifaddr, sender.myRank⟩ := by
  obtain ⟨senderEnv, built⟩ := receives.built
  rw [Dag.dio_ok senderEnv sender valid, Except.ok.injEq] at built
  have carries : CarriesDio hop.pkt.mem hop.pkt.len sender := carriesDio_of_bytes built.symm valid
  have missing := dagLookup_of_dagsFor_nil receives.without
  have long : 4 ≤ hop.pkt.len := by
    have length := carries.length
    omega
  obtain ⟨reads, handled⟩ := @processDio_joins hop.env hop.iface hop.pkt.mem hop.pkt.len hop.pkt.src sender
    receives.allocs carries valid missing
  have result : hop.processed = _ := process_of_find long receives.known
  have found : ifaceFindByIfindex hop.processed.ifaces hop.pkt.ifindex = _ :=
    process_ifaceFind long receives.known
  rw [handled] at result found
  have made := afterDao_joinedBy (configuredJoin_joinedBy hop.env hop.iface sender hop.pkt.src) hop.env
  have repeats := (Dag.Repeats.of_advert made.advert).trans (joinedDag_repeats hop.env hop.iface valid)
  refine ⟨by rw [result], _, _, found, dagsFor_withDag receives.without repeats.dodagid,
    dagLookup_withDag missing repeats.dodagid, repeats, ?_, made.myRank, ?_⟩
  · exact congrArg Advert.iface made.advert
  · rw [made.parent, receives.source]

/-! Repeated DIOs. -/

/-- The bytes of a DIO that hold the rank and the DTSN. -/
def dioVarying : List Nat := [6, 7, 9]

def AgreeExcept (varying : List Nat) (first second : List UInt8) : Prop :=
  first.length = second.length ∧ ∀ index, index ∉ varying → first[index]? = second[index]?

theorem AgreeExcept.append {varying : List Nat} {first second : List UInt8}
    (heads : AgreeExcept varying first second) (tail : List UInt8) :
    AgreeExcept varying (first ++ tail) (second ++ tail) := by
  obtain ⟨length, same⟩ := heads
  constructor
  · simp [length]
  · intro index fixed
    by_cases inside : index < first.length
    · rw [List.getElem?_append_left inside, List.getElem?_append_left (by omega)]
      exact same index fixed
    · rw [List.getElem?_append_right (by omega), List.getElem?_append_right (by omega), length]

theorem dioBytes_agree {dag origin : Dag} (repeats : dag.Repeats origin) :
    AgreeExcept dioVarying dag.dioBytes origin.dioBytes := by
  rw [Dag.dioBytes_split, Dag.dioBytes_split, repeats.instanceId, repeats.dodagid, repeats.version,
    repeats.destLen, repeats.destBytes]
  apply AgreeExcept.append
  constructor
  · rfl
  · intro index fixed
    simp only [dioVarying, List.mem_cons, List.not_mem_nil, or_false, not_or] at fixed
    obtain ⟨notHigh, notLow, notDtsn⟩ := fixed
    match index with
    | 0 | 1 | 2 | 3 | 4 | 5 | 8 | 10 | 11 => rfl
    | 6 => exact absurd rfl notHigh
    | 7 => exact absurd rfl notLow
    | 9 => exact absurd rfl notDtsn
    | _ + 12 => rfl

theorem hop_repeats {hop : Hop} {sender origin : Dag} (valid : origin.dest.len.toNat ≤ 128)
    (repeats : sender.Repeats origin) (receives : hop.Receives sender) (log : List Effect)
    (events : List Event) (env originEnv : Env) :
    ∃ iface dag bytes original,
      ifaceFindByIfindex ((Daemon.mk hop.processed.ifaces log hop.processed.fault).run events).ifaces
        hop.pkt.ifindex = some iface ∧
      iface.dagsFor origin.rpl.instanceId origin.dodagid = [dag] ∧
      dag.dio env = .ok bytes ∧ origin.dio originEnv = .ok original ∧
      AgreeExcept dioVarying bytes original := by
  have senderValid : sender.dest.len.toNat ≤ 128 := by rw [repeats.destLen]; exact valid
  obtain ⟨_, iface, dag, known, only, found, again, _⟩ := hop_joins senderValid receives
  obtain ⟨later, laterKnown, keeps⟩ := Daemon.run_keeps
    (show ifaceFindByIfindex (Daemon.mk hop.processed.ifaces log hop.processed.fault).ifaces
      hop.pkt.ifindex = some iface from known) events
  rw [repeats.instanceId, repeats.dodagid] at found only
  have adverts := keeps.all _ _ dag found
  rw [only, List.map_singleton, List.map_eq_singleton_iff] at adverts
  obtain ⟨last, lastOnly, same⟩ := adverts
  have whole := ((Dag.Repeats.of_advert same).trans again).trans repeats
  have lastValid : last.dest.len.toNat ≤ 128 := by rw [whole.destLen]; exact valid
  exact ⟨later, last, last.dioBytes, origin.dioBytes, laterKnown, lastOnly, Dag.dio_ok env last lastValid,
    Dag.dio_ok originEnv origin valid, dioBytes_agree whole⟩

/-! Chains of hops. -/

def RelayChain (sender : Dag) : List Hop → Prop
  | [] => True
  | hop :: rest => hop.Receives sender ∧
      ∀ iface dag, ifaceFindByIfindex hop.processed.ifaces hop.pkt.ifindex = some iface →
        dagLookup iface sender.rpl.instanceId sender.dodagid = some dag → RelayChain dag rest

theorem relay_chain_along {origin sender : Dag} (repeats : sender.Repeats origin)
    (valid : origin.dest.len.toNat ≤ 128) {hops : List Hop}
    (room : sender.myRank.toNat + hops.length ≤ 65535) (chain : RelayChain sender hops)
    (index : Nat) (bound : index < hops.length) :
    ∃ before, before.Repeats origin ∧ hops[index].Receives before ∧
      before.myRank.toNat = sender.myRank.toNat + index ∧
      (sender.iface.ifaddr :: hops.map (·.iface.ifaddr))[index]? = some before.iface.ifaddr := by
  induction hops generalizing sender index with
  | nil => simp at bound
  | cons hop rest ih =>
      obtain ⟨receives, next⟩ := chain
      cases index with
      | zero => exact ⟨sender, repeats, receives, rfl, rfl⟩
      | succ index =>
          have senderValid : sender.dest.len.toNat ≤ 128 := by rw [repeats.destLen]; exact valid
          obtain ⟨_, iface, dag, known, _, found, again, onIface, rank, _⟩ := hop_joins senderValid receives
          simp only [List.length_cons] at room bound
          have one : (1 : UInt16).toNat = 1 := rfl
          have dagRank : dag.myRank.toNat = sender.myRank.toNat + 1 := by
            rw [rank, UInt16.toNat_add, one]
            omega
          obtain ⟨before, beforeRepeats, beforeReceives, beforeRank, beforeAddr⟩ :=
            ih (again.trans repeats) (by omega) (next iface dag known found) index (by omega)
          refine ⟨before, beforeRepeats, beforeReceives, by omega, ?_⟩
          rw [onIface] at beforeAddr
          exact beforeAddr

/-- Along a chain of `m` receivers without the dag, the `i`-th one ends up with a single
dag for the key: that of the origin, `i` ranks further down, under the address of its
predecessor. Every DIO it builds from then on repeats the origin's. -/
theorem relay_chain_repeats {origin : Dag} (valid : origin.dest.len.toNat ≤ 128) {hops : List Hop}
    (room : origin.myRank.toNat + hops.length ≤ 65535) (chain : RelayChain origin hops)
    (index : Nat) (bound : index < hops.length) :
    let hop := hops[index]
    (∃ iface dag, ifaceFindByIfindex hop.processed.ifaces hop.pkt.ifindex = some iface ∧
      iface.dagsFor origin.rpl.instanceId origin.dodagid = [dag] ∧
      dag.Repeats origin ∧ dag.myRank.toNat = origin.myRank.toNat + (index + 1) ∧
      ∃ parent, dag.parent = some parent ∧
        (origin.iface.ifaddr :: hops.map (·.iface.ifaddr))[index]? = some parent.addr ∧
        parent.rank.toNat = origin.myRank.toNat + index) ∧
    ∀ log events env originEnv, ∃ iface dag bytes original,
      ifaceFindByIfindex ((Daemon.mk hop.processed.ifaces log hop.processed.fault).run events).ifaces
        hop.pkt.ifindex = some iface ∧
      iface.dagsFor origin.rpl.instanceId origin.dodagid = [dag] ∧
      dag.dio env = .ok bytes ∧ origin.dio originEnv = .ok original ∧
      AgreeExcept dioVarying bytes original := by
  intro hop
  obtain ⟨sender, repeats, receives, rank, address⟩ :=
    relay_chain_along (Dag.Repeats.refl origin) valid room chain index bound
  have senderValid : sender.dest.len.toNat ≤ 128 := by rw [repeats.destLen]; exact valid
  constructor
  · obtain ⟨_, iface, dag, known, only, _, again, _, dagRank, parent⟩ := hop_joins senderValid receives
    rw [repeats.instanceId, repeats.dodagid] at only
    refine ⟨iface, dag, known, only, again.trans repeats, ?_, _, parent, address, rank⟩
    have one : (1 : UInt16).toNat = 1 := rfl
    rw [dagRank, UInt16.toNat_add, one, rank]
    omega
  · intro log events env originEnv
    exact hop_repeats valid repeats receives log events env originEnv

/-! The root fe80::1 heard by fe80::2, and that one by fe80::3. -/

def sampleHop (host : UInt8) (sender : Dag) : Hop where
  env := .granting
  ifaces := [linkIface host]
  iface := linkIface host
  pkt := ⟨overlay sender.dioBytes fun _ => 0, sender.dioBytes.length, sender.iface.ifaddr, 1⟩

theorem sampleHop_receives (host : UInt8) {sender : Dag} (valid : sender.dest.len.toNat ≤ 128) :
    (sampleHop host sender).Receives sender := by
  refine ⟨Env.granting_allocs, rfl, rfl, ⟨.granting, ?_⟩, rfl⟩
  rw [Dag.dio_ok .granting sender valid]
  exact congrArg Except.ok (slice_overlay _ _).symm

def secondDag : Dag :=
  (configuredJoin .granting (linkIface 2) (rootDag 1) (linkLocal 1)).afterDao .granting

theorem sampleHops_chain :
    RelayChain (rootDag 1) [sampleHop 2 (rootDag 1), sampleHop 3 secondDag] := by
  refine ⟨sampleHop_receives 2 (by decide), ?_⟩
  intro iface dag known found
  have evaluated : (ifaceFindByIfindex (sampleHop 2 (rootDag 1)).processed.ifaces
      (sampleHop 2 (rootDag 1)).pkt.ifindex).bind
      (fun iface => dagLookup iface (rootDag 1).rpl.instanceId (rootDag 1).dodagid) = some secondDag := by
    decide
  rw [known, Option.bind_some, found, Option.some.injEq] at evaluated
  subst evaluated
  exact ⟨sampleHop_receives 3 (by decide), fun _ _ _ _ => trivial⟩

theorem relay_chain_repeats_two :
    ∃ iface dag, ifaceFindByIfindex (sampleHop 3 secondDag).processed.ifaces 1 = some iface ∧
      iface.dagsFor 1 (linkLocal 1) = [dag] ∧ dag.myRank.toNat = 3 := by
  obtain ⟨⟨iface, dag, known, only, _, rank, _⟩, _⟩ :=
    relay_chain_repeats (show (rootDag 1).dest.len.toNat ≤ 128 by decide) (by decide) sampleHops_chain 1
      (by decide)
  exact ⟨iface, dag, known, only, rank⟩

end Rpld
