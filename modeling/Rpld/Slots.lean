import Mathlib.Data.List.Nodup
import Rpld.TableInvariant
import Rpld.Relay

/-!
A daemon as a family of slots. A slot is what `dag_lookup` finds under one key of one
interface: a dag or nothing. Every handler is told again here as what it makes of the one
slot it is about, and the tables are shown to behave, slot by slot, as these reactions say.
-/

namespace Rpld

open Memory FirstMatch

/-! Reactions of a slot. -/

structure Reaction where
  slot : Option Dag
  effects : List Effect
  fault : Option Fault

def idle (slot : Option Dag) : Reaction := ⟨slot, [], none⟩

def Dag.reacts (dag : Dag) (env : Env) (mem : Nat → UInt8) (src : In6Addr) (before : List Effect) : Reaction :=
  let heard := dag.hears env (ntohs (mem 6) (mem 7)) src
  ⟨some heard.dag, before ++ heard.effects, heard.fault⟩

/-- The dag `process_dio` creates, its prefix bytes lying over what the stack held. -/
def slotDag (env : Env) (head : IfaceHead) (mem : Nat → UInt8) : Dag :=
  dagInit head ⟨mem 4⟩ (addrAt mem 12) defaultTickleT 0xffff (mem 5)
    ⟨(addrAt mem 36).copyFront (bitsToBytes (mem 30)).toNat env.stack, mem 30⟩

def slotDio (env : Env) (head : IfaceHead) (mem : Nat → UInt8) (len : Nat) (src : In6Addr) :
    Option Dag → Reaction
  | some dag => if dag.myRank = 1 then idle (some dag) else dag.reacts env mem src []
  | none =>
      if sizeofDio + sizeofDiodpHead + (bitsToBytes (mem 30)).toNat ≤ len ∧ mem 28 = 0x3 then
        if sizeofPrefix < (bitsToBytes (mem 30)).toNat then ⟨none, [], some .overrun⟩
        else (slotDag env head mem).reacts env mem src (dagInitTimer (slotDag env head mem))
      else idle none

def slotDao (env : Env) (mem : Nat → UInt8) (len : Nat) (src : In6Addr) : Option Dag → Reaction
  | none => idle none
  | some dag =>
      let walked := daoOptions env mem src (len - sizeofDao)
        ⟨24, ((len - sizeofDao : Nat) : Int), dag, 4 :: addrReads 8⟩
      let next := walked.1.dag
      ⟨some next, if walked.2 then
        childRoutes next ++ [.sendmsg next.iface.ifindex next.iface.ifaddr src next.daoAckBytes] else [], none⟩

def slotDaoack : Option Dag → Reaction
  | none => idle none
  | some dag =>
      ⟨some dag, dag.parent.toList.map fun parent => .nlAddRouteDefault dag.iface.ifindex parent.addr, none⟩

def Dag.afterDio (dag : Dag) : Dag := { dag with dtsn := dag.dtsn + 1 }

def Dag.dioMessage (dag : Dag) : Effect :=
  .sendmsg dag.iface.ifindex dag.iface.ifaddr allRplAddr dag.dioBytes

def slotSendDio : Option Dag → Reaction
  | none => idle none
  | some dag =>
      if dag.dest.len.toNat ≤ 128 then ⟨some dag.afterDio, [dag.dioMessage], none⟩
      else ⟨some dag, [], some .overrun⟩

def isDis (mem : Nat → UInt8) : Bool := mem 0 == ndRplMessage && mem 1 == ndRplDagIs

def namedKey (mem : Nat → UInt8) (len : Nat) : Option (UInt8 × In6Addr) :=
  if mem 0 ≠ ndRplMessage then none
  else if mem 1 = ndRplDagIo ∧ sizeofDio ≤ len then some (mem 4, addrAt mem 12)
  else if mem 1 = ndRplDao ∧ sizeofDao ≤ len ∨ mem 1 = ndRplDaoAck ∧ sizeofDaoack ≤ len then
    some (mem 4, addrAt mem 8)
  else none

def slotMessage (env : Env) (head : IfaceHead) (instanceId : UInt8) (dodagid : In6Addr) (mem : Nat → UInt8)
    (len : Nat) (src : In6Addr) (slot : Option Dag) : Reaction :=
  if isDis mem then slotSendDio slot
  else if namedKey mem len = some (instanceId, dodagid) then
    if mem 1 = ndRplDagIo then slotDio env head mem len src slot
    else if mem 1 = ndRplDao then slotDao env mem len src slot
    else slotDaoack slot
  else idle slot

def Effect.carries (instanceId : UInt8) (dodagid : In6Addr) : Effect → Bool
  | .sendmsg _ _ _ bytes =>
      let mem := overlay bytes fun _ => 0
      mem 4 == instanceId && addrAt mem 12 == dodagid
  | _ => false

/-- Which effects of a message are made for a key: a DIS is answered for every dag with the
DIO that carries its key, any other message concerns the key it names only. -/
def keyEffects (instanceId : UInt8) (dodagid : In6Addr) (mem : Nat → UInt8) (len : Nat)
    (effects : List Effect) : List Effect :=
  if isDis mem then effects.filter (Effect.carries instanceId dodagid)
  else if namedKey mem len = some (instanceId, dodagid) then effects
  else []

/-! DIOs. -/

section

variable {env : Env} {iface : Iface} {mem : Nat → UInt8} {len : Nat} {src : In6Addr}

theorem processDio_joined (missing : dagLookup iface (mem 4) (addrAt mem 12) = none) (reads : List Nat) :
    let dag := slotDag env iface.toIfaceHead mem
    let out := processDioRank env (withDag iface (mem 4) dag) (mem 4) (addrAt mem 12) dag (ntohs (mem 6) (mem 7)) src
      (dagInitTimer dag) reads
    let reaction := dag.reacts env mem src (dagInitTimer dag)
    dagLookup out.iface (mem 4) (addrAt mem 12) = reaction.slot ∧ out.effects = reaction.effects ∧
      out.fault = reaction.fault := by
  intro dag out reaction
  have linked : dagLookup (withDag iface (mem 4) dag) (mem 4) (addrAt mem 12) = some dag :=
    dagLookup_withDag missing rfl
  have kept := congrArg Advert.dodagid (Dag.hears_frame env dag (ntohs (mem 6) (mem 7)) src).1
  simp only [out]
  rw [processDioRank_hears (Or.inr linked)]
  exact ⟨dagLookup_dagWrite_const linked kept, rfl, rfl⟩

theorem processDio_slot (base : sizeofDio ≤ len)
    (creates : dagLookup iface (mem 4) (addrAt mem 12) = none → Creates env iface (mem 4)) :
    let out := processDio env iface mem len src
    let reaction := slotDio env iface.toIfaceHead mem len src (dagLookup iface (mem 4) (addrAt mem 12))
    dagLookup out.iface (mem 4) (addrAt mem 12) = reaction.slot ∧ out.effects = reaction.effects ∧
      out.fault = reaction.fault := by
  intro out reaction
  have notShort : ¬ len < sizeofDio := by omega
  simp only [out, reaction, processDio, notShort, if_false]
  cases found : dagLookup iface (mem 4) (addrAt mem 12) with
  | some dag =>
      simp only [slotDio]
      split
      · exact ⟨found, rfl, rfl⟩
      · rw [processDioRank_hears (Or.inr found)]
        refine ⟨?_, rfl, rfl⟩
        refine dagLookup_dagWrite_const found ?_
        have kept := congrArg Advert.dodagid (Dag.hears_frame env dag (ntohs (mem 6) (mem 7)) src).1
        exact kept.trans (dagLookup_dodagid found)
  | none =>
      simp only [slotDio]
      by_cases head : len - sizeofDio < sizeofDiodpHead
      · have refused : ¬ sizeofDio + sizeofDiodpHead + (bitsToBytes (mem 30)).toNat ≤ len := by omega
        simp [head, refused, dropped, found, idle]
      by_cases kind : mem 28 = 0x3
      · by_cases room : len - sizeofDio - sizeofDiodpHead < (bitsToBytes (mem 30)).toNat
        · have refused : ¬ sizeofDio + sizeofDiodpHead + (bitsToBytes (mem 30)).toNat ≤ len := by omega
          simp [head, kind, room, refused, dropped, found, idle]
        · have whole : sizeofDio + sizeofDiodpHead + (bitsToBytes (mem 30)).toNat ≤ len := by omega
          by_cases exceeds : sizeofPrefix < (bitsToBytes (mem 30)).toNat
          · simp [head, kind, room, whole, exceeds, found]
          · have copied : slice mem 36 (bitsToBytes (mem 30)).toNat =
                (addrAt mem 36).s6Addr.take (bitsToBytes (mem 30)).toNat := by
              simp only [sizeofPrefix] at exceeds
              simpa [addrAt] using (slice_drop_take mem 36 16 0 (bitsToBytes (mem 30)).toNat (by omega)).symm
            simp only [head, kind, room, whole, exceeds, copied, ne_eq, not_true_eq_false, if_false, dif_neg,
              not_false_eq_true, and_self, if_true, dagCreate_creates (creates found) found]
            exact processDio_joined found _
      · simp [head, kind, dropped, found, idle]

theorem processDio_denied (missing : dagLookup iface (mem 4) (addrAt mem 12) = none)
    (denied : ¬ Creates env iface (mem 4)) :
    (processDio env iface mem len src).iface = iface ∧ (processDio env iface mem len src).effects = [] := by
  unfold processDio
  split
  · exact ⟨rfl, rfl⟩
  simp only [missing]
  split
  · exact ⟨rfl, rfl⟩
  split
  · exact ⟨rfl, rfl⟩
  split
  · exact ⟨rfl, rfl⟩
  split
  · exact ⟨rfl, rfl⟩
  · obtain ⟨none, same, quiet⟩ := dagCreate_denied denied missing defaultTickleT 0xffff (mem 5) _
    rw [none]
    exact ⟨same, quiet⟩

theorem processDio_other {otherId : UInt8} {otherDodagid : In6Addr}
    (different : ¬ (otherId = mem 4 ∧ otherDodagid = addrAt mem 12)) :
    dagLookup (processDio env iface mem len src).iface otherId otherDodagid =
      dagLookup iface otherId otherDodagid := by
  have way := processDio_case env iface mem len src
  generalize processDio env iface mem len src = out at way
  cases way with
  | drops => rfl
  | oversized => rfl
  | fails => rfl
  | known dag reads _ found =>
      have kept := congrArg Advert.dodagid (Dag.hears_frame env dag (ntohs (mem 6) (mem 7)) src).1
      rw [processDioRank_hears (Or.inr found)]
      exact dagLookup_dagWrite_other (fun _ _ => kept.trans (dagLookup_dodagid found)) different
  | joined dag pfx reads joins inside fresh =>
      have key : dag.dodagid = addrAt mem 12 := by rw [fresh]; rfl
      have kept := congrArg Advert.dodagid (Dag.hears_frame env dag (ntohs (mem 6) (mem 7)) src).1
      rw [processDioRank_hears (Or.inr (dagLookup_withDag joins.missing key))]
      simp only
      rw [dagLookup_dagWrite_other (fun _ _ => kept.trans key) different]
      exact dagLookup_withDag_other (by rw [key]; exact different)

/-! DAOs and their acknowledgements. -/

theorem processDao_slot (base : sizeofDao ≤ len) :
    let out := processDao env iface mem len src
    let reaction := slotDao env mem len src (dagLookup iface (mem 4) (addrAt mem 8))
    dagLookup out.iface (mem 4) (addrAt mem 8) = reaction.slot ∧ out.effects = reaction.effects ∧
      out.fault = reaction.fault := by
  intro out reaction
  have notShort : ¬ len < sizeofDao := by omega
  simp only [out, reaction, processDao, notShort, if_false]
  cases found : dagLookup iface (mem 4) (addrAt mem 8) with
  | none => exact ⟨found, rfl, rfl⟩
  | some dag =>
      have kept := congrArg Advert.dodagid (daoOptions_advert env mem src (len - sizeofDao)
        ⟨24, ((len - sizeofDao : Nat) : Int), dag, 4 :: addrReads 8⟩)
      have written := dagLookup_dagWrite_const found (kept.trans (dagLookup_dodagid found))
      simp only [slotDao, sendDaoAck_ok]
      split
      · exact ⟨written, rfl, rfl⟩
      · exact ⟨written, rfl, rfl⟩

theorem processDao_other {otherId : UInt8} {otherDodagid : In6Addr}
    (different : ¬ (otherId = mem 4 ∧ otherDodagid = addrAt mem 8)) :
    dagLookup (processDao env iface mem len src).iface otherId otherDodagid =
      dagLookup iface otherId otherDodagid := by
  rcases (processDao_cases env iface mem len src).2 with same | ⟨dag, found, walked⟩
  · rw [same]
  · have kept := congrArg Advert.dodagid (daoOptions_advert env mem src (len - sizeofDao)
      ⟨24, ((len - sizeofDao : Nat) : Int), dag, 4 :: addrReads 8⟩)
    rw [walked]
    exact dagLookup_dagWrite_other (fun _ _ => kept.trans (dagLookup_dodagid found)) different

theorem processDaoack_slot (base : sizeofDaoack ≤ len) :
    let out := processDaoack iface mem len
    let reaction := slotDaoack (dagLookup iface (mem 4) (addrAt mem 8))
    dagLookup out.iface (mem 4) (addrAt mem 8) = reaction.slot ∧ out.effects = reaction.effects ∧
      out.fault = reaction.fault := by
  intro out reaction
  have notShort : ¬ len < sizeofDaoack := by omega
  simp only [out, reaction, processDaoack, notShort, if_false]
  cases found : dagLookup iface (mem 4) (addrAt mem 8) with
  | none => exact ⟨found, rfl, rfl⟩
  | some dag =>
      simp only [slotDaoack]
      cases dag.parent with
      | none => exact ⟨found, rfl, rfl⟩
      | some parent => exact ⟨found, rfl, rfl⟩

end

/-! DIS. -/

def Iface.dags (iface : Iface) : List Dag := iface.rpls.flatMap (·.dags)

def Dag.key (dag : Dag) : UInt8 × In6Addr := (dag.rpl.instanceId, dag.dodagid)

/-- The loops of `process_dis` sent a DIO for each dag before the first whose prefix length
stops them. -/
structure Answered (sent left after : List Dag) (effects : List Effect) (fault : Option Fault) : Prop where
  after : after = sent.map Dag.afterDio ++ left
  effects : effects = sent.map Dag.dioMessage
  valid : ∀ dag ∈ sent, dag.dest.len.toNat ≤ 128
  ended : fault = none ∧ left = [] ∨ fault = some .overrun ∧ ∃ dag ∈ left, 128 < dag.dest.len.toNat

theorem sendDioDags_answered (env : Env) (dags : List Dag) :
    ∃ sent left, dags = sent ++ left ∧
      Answered sent left (sendDioDags env dags).1 (sendDioDags env dags).2.1 (sendDioDags env dags).2.2 := by
  induction dags with
  | nil => exact ⟨[], [], rfl, rfl, rfl, by simp, Or.inl ⟨rfl, rfl⟩⟩
  | cons dag rest ih =>
      by_cases valid : dag.dest.len.toNat ≤ 128
      · obtain ⟨sent, left, split, answered⟩ := ih
        refine ⟨dag :: sent, left, by rw [split, List.cons_append], ?_⟩
        simp only [sendDioDags, sendDio_ok env dag valid]
        refine ⟨?_, ?_, ?_, answered.ended⟩
        · simp only [answered.after, List.map_cons, List.cons_append]
          rfl
        · simp only [answered.effects, List.map_cons]
          rfl
        · simp only [List.forall_mem_cons]
          exact ⟨valid, answered.valid⟩
      · refine ⟨[], dag :: rest, rfl, ?_⟩
        simp only [sendDioDags, sendDio_overrun env dag (by omega)]
        exact ⟨rfl, rfl, by simp, Or.inr ⟨rfl, dag, by simp, by omega⟩⟩

theorem sendDioRpls_answered (env : Env) (rpls : List Rpl) :
    ∃ sent left, rpls.flatMap (·.dags) = sent ++ left ∧
      Answered sent left ((sendDioRpls env rpls).1.flatMap (·.dags)) (sendDioRpls env rpls).2.1
        (sendDioRpls env rpls).2.2 := by
  induction rpls with
  | nil => exact ⟨[], [], rfl, rfl, rfl, by simp, Or.inl ⟨rfl, rfl⟩⟩
  | cons rpl rest ih =>
      obtain ⟨sent, left, split, answered⟩ := sendDioDags_answered env rpl.dags
      simp only [sendDioRpls, List.flatMap_cons]
      rcases found : sendDioDags env rpl.dags with ⟨dags, effects, fault⟩
      rw [found] at answered
      simp only at answered
      cases fault with
      | some fault =>
          simp only [List.flatMap_cons]
          refine ⟨sent, left ++ rest.flatMap (·.dags), by rw [split, List.append_assoc], ?_⟩
          have ended := answered.ended
          simp only [reduceCtorEq, false_and, false_or] at ended
          obtain ⟨overrun, dag, member, long⟩ := ended
          refine ⟨?_, answered.effects, answered.valid, Or.inr ⟨overrun, dag, by simp [member], long⟩⟩
          rw [answered.after, List.append_assoc]
      | none =>
          obtain ⟨more, others, restSplit, restAnswered⟩ := ih
          have ended := answered.ended
          simp only [true_and, reduceCtorEq, false_and, or_false] at ended
          subst ended
          rw [List.append_nil] at split
          simp only [List.flatMap_cons]
          refine ⟨sent ++ more, others, by rw [split, restSplit, List.append_assoc], ?_, ?_, ?_, restAnswered.ended⟩
          · rw [answered.after, restAnswered.after]
            simp
          · simp [answered.effects, restAnswered.effects]
          · intro dag member
            rcases List.mem_append.mp member with here | later
            · exact answered.valid dag here
            · exact restAnswered.valid dag later

section

variable {iface : Iface}

theorem mem_dags {dag : Dag} : dag ∈ iface.dags ↔ ∃ rpl ∈ iface.rpls, dag ∈ rpl.dags := by
  simp [Iface.dags]

theorem dags_lookup (keyed : iface.Keyed) (refs : iface.BackRefs) {dag : Dag} (member : dag ∈ iface.dags) :
    dagLookup iface dag.rpl.instanceId dag.dodagid = some dag := by
  obtain ⟨rpl, inIface, inRpl⟩ := mem_dags.mp member
  rw [(refs rpl inIface dag inRpl).2]
  exact keyed_lookup keyed inIface inRpl

theorem dags_keys_nodup (keyed : iface.Keyed) (refs : iface.BackRefs) : (iface.dags.map Dag.key).Nodup := by
  rw [Iface.dags, List.map_flatMap, List.nodup_flatMap]
  constructor
  · intro rpl member
    have dodags := keyed.dodags rpl member
    apply List.Nodup.of_map Prod.snd
    rw [List.map_map]
    exact dodags
  · have instances := List.pairwise_map.mp keyed.instances
    refine List.Pairwise.imp_of_mem ?_ instances
    intro first second firstMember secondMember different key inFirst inSecond
    obtain ⟨dag, dagMember, rfl⟩ := List.mem_map.mp inFirst
    obtain ⟨other, otherMember, same⟩ := List.mem_map.mp inSecond
    have ids := congrArg Prod.fst same
    simp only [Dag.key, (refs first firstMember dag dagMember).2, (refs second secondMember other otherMember).2]
      at ids
    exact different ids.symm

theorem dagLookup_dags (keyed : iface.Keyed) (refs : iface.BackRefs) (instanceId : UInt8) (dodagid : In6Addr) :
    dagLookup iface instanceId dodagid = iface.dags.find? (fun dag => dag.key == (instanceId, dodagid)) := by
  cases found : dagLookup iface instanceId dodagid with
  | none =>
      symm
      rw [List.find?_eq_none]
      intro dag member same
      simp only [Dag.key, beq_iff_eq, Prod.mk.injEq] at same
      have looked := dags_lookup keyed refs member
      rw [same.1, same.2, found] at looked
      simp at looked
  | some dag =>
      have key : dag.key = (instanceId, dodagid) := by
        simp [Dag.key, (dagLookup_backRefs refs found).2, dagLookup_dodagid found]
      rw [dagLookup_eq, Option.bind_eq_some_iff] at found
      obtain ⟨rpl, inIface, inRpl⟩ := found
      have member := mem_dags.mpr ⟨rpl, List.mem_of_find?_eq_some inIface, List.mem_of_find?_eq_some inRpl⟩
      rw [← key]
      exact (find?_of_nodup (dags_keys_nodup keyed refs) member).symm

theorem dioMessage_carries (dag : Dag) (instanceId : UInt8) (dodagid : In6Addr) :
    dag.dioMessage.carries instanceId dodagid = (dag.key == (instanceId, dodagid)) := by
  have carried : slice (overlay dag.dioBytes fun _ => 0) 12 16 = dag.dodagid.s6Addr := by
    have whole := (slice_overlay dag.dioBytes fun _ => 0).trans dag.dioBytes_split
    have rest := (slice_eq_append _ whole).2
    have front := (slice_eq_append _ rest).1
    rw [dag.dodagid.size] at front
    exact front
  have read : addrAt (overlay dag.dioBytes fun _ => 0) 12 = dag.dodagid := In6Addr.ext carried
  simp only [Dag.dioMessage, Effect.carries, read]
  rfl

variable {env : Env} {instanceId : UInt8} {dodagid : In6Addr}

theorem slotSendDio_valid {dag : Dag} (valid : dag.dest.len.toNat ≤ 128) :
    slotSendDio (some dag) = ⟨some dag.afterDio, [dag.dioMessage], none⟩ := by
  simp [slotSendDio, valid]

theorem processDis_slot_any (keyed : iface.Keyed) (refs : iface.BackRefs) :
    let out := processDis env iface
    let slot := dagLookup iface instanceId dodagid
    (dagLookup out.iface instanceId dodagid = slot ∨
      dagLookup out.iface instanceId dodagid = (slotSendDio slot).slot) ∧
    ∀ effect ∈ out.effects.filter (Effect.carries instanceId dodagid), effect ∈ (slotSendDio slot).effects := by
  intro out slot
  have follows : Follows (fun _ => True) iface out.iface := processDis_follows env iface
  obtain ⟨sent, left, split, answered⟩ := sendDioRpls_answered env iface.rpls
  have before : slot = (sent ++ left).find? (fun dag => dag.key == (instanceId, dodagid)) := by
    rw [← split]
    exact dagLookup_dags keyed refs instanceId dodagid
  have after : dagLookup out.iface instanceId dodagid =
      (sent.map Dag.afterDio ++ left).find? (fun dag => dag.key == (instanceId, dodagid)) := by
    rw [← answered.after]
    exact dagLookup_dags (follows_keyed follows keyed) (follows_backRefs follows refs) instanceId dodagid
  constructor
  · rw [after]
    rcases @find?_map_append _ (fun dag => dag.key == (instanceId, dodagid)) Dag.afterDio (fun _ => rfl) sent left with
      same | ⟨dag, member, found, changed⟩
    · rw [same]
      exact Or.inl before.symm
    · rw [changed, before, found, slotSendDio_valid (answered.valid dag member)]
      exact Or.inr rfl
  · intro effect member
    obtain ⟨made, carries⟩ := List.mem_filter.mp member
    rw [show out.effects = sent.map Dag.dioMessage from answered.effects] at made
    obtain ⟨dag, dagMember, rfl⟩ := List.mem_map.mp made
    rw [dioMessage_carries] at carries
    simp only [Dag.key, beq_iff_eq, Prod.mk.injEq] at carries
    have listed : dag ∈ iface.dags := by
      rw [show iface.dags = sent ++ left from split]
      exact List.mem_append_left left dagMember
    have found := dags_lookup keyed refs listed
    rw [carries.1, carries.2] at found
    simp only [slot, found, slotSendDio_valid (answered.valid dag dagMember), List.mem_singleton]

theorem processDis_slot (keyed : iface.Keyed) (refs : iface.BackRefs) (returns : (processDis env iface).fault = none) :
    let out := processDis env iface
    let slot := dagLookup iface instanceId dodagid
    dagLookup out.iface instanceId dodagid = (slotSendDio slot).slot ∧
      out.effects.filter (Effect.carries instanceId dodagid) = (slotSendDio slot).effects := by
  intro out slot
  have follows : Follows (fun _ => True) iface out.iface := processDis_follows env iface
  obtain ⟨sent, left, split, answered⟩ := sendDioRpls_answered env iface.rpls
  have ended := answered.ended
  rw [show (sendDioRpls env iface.rpls).2.2 = none from returns] at ended
  simp only [true_and, reduceCtorEq, false_and, or_false] at ended
  subst ended
  rw [List.append_nil] at split
  have before : slot = sent.find? (fun dag => dag.key == (instanceId, dodagid)) := by
    rw [← split]
    exact dagLookup_dags keyed refs instanceId dodagid
  have after : dagLookup out.iface instanceId dodagid = slot.map Dag.afterDio := by
    have looked := dagLookup_dags (follows_keyed follows keyed) (follows_backRefs follows refs) instanceId dodagid
    rw [show out.iface.dags = _ from answered.after, List.append_nil, List.find?_map] at looked
    rw [looked, before]
    rfl
  have messages : out.effects.filter (Effect.carries instanceId dodagid) = slot.toList.map Dag.dioMessage := by
    have carried : (Effect.carries instanceId dodagid) ∘ Dag.dioMessage =
        fun dag => dag.key == (instanceId, dodagid) := funext fun dag => dioMessage_carries dag instanceId dodagid
    have distinct := dags_keys_nodup keyed refs
    rw [show iface.dags = sent from split] at distinct
    rw [show out.effects = sent.map Dag.dioMessage from answered.effects, List.filter_map, carried,
      filter_of_nodup distinct, ← before]
  rw [after, messages]
  cases found : slot with
  | none => exact ⟨rfl, rfl⟩
  | some dag =>
      have valid : dag.dest.len.toNat ≤ 128 := answered.valid dag (List.mem_of_find?_eq_some (before.symm.trans found))
      rw [slotSendDio_valid valid]
      exact ⟨rfl, rfl⟩

theorem processDis_fine_iff (keyed : iface.Keyed) (refs : iface.BackRefs) :
    (processDis env iface).fault = none ↔
      ∀ instanceId dodagid, (slotSendDio (dagLookup iface instanceId dodagid)).fault = none := by
  obtain ⟨sent, left, split, answered⟩ := sendDioRpls_answered env iface.rpls
  have fault : (processDis env iface).fault = (sendDioRpls env iface.rpls).2.2 := rfl
  rw [fault]
  rcases answered.ended with ⟨returns, all⟩ | ⟨overrun, dag, member, long⟩
  · refine iff_of_true returns ?_
    intro instanceId dodagid
    cases found : dagLookup iface instanceId dodagid with
    | none => rfl
    | some dag =>
        subst all
        rw [List.append_nil] at split
        rw [dagLookup_dags keyed refs, show iface.dags = sent from split] at found
        rw [slotSendDio_valid (answered.valid dag (List.mem_of_find?_eq_some found))]
  · refine iff_of_false (by simp [overrun]) ?_
    intro fine
    have listed : dag ∈ iface.dags := by
      rw [show iface.dags = sent ++ left from split]
      exact List.mem_append_right sent member
    have here := fine dag.rpl.instanceId dag.dodagid
    rw [dags_lookup keyed refs listed] at here
    simp [slotSendDio, show ¬ dag.dest.len.toNat ≤ 128 by omega] at here

end

/-! Any message. -/

theorem namedKey_dio {mem : Nat → UInt8} {len : Nat} {key : UInt8 × In6Addr} (code : mem 1 = ndRplDagIo)
    (named : namedKey mem len = some key) :
    mem 0 = ndRplMessage ∧ sizeofDio ≤ len ∧ key = (mem 4, addrAt mem 12) := by
  unfold namedKey at named
  split at named
  · simp at named
  · rename_i type
    split at named
    · rename_i whole
      simp only [Option.some.injEq] at named
      exact ⟨by simpa using type, whole.2, named.symm⟩
    · split at named
      · rename_i other
        simp [code, ndRplDagIo, ndRplDao, ndRplDaoAck] at other
      · simp at named

inductive MessageCase (env : Env) (iface : Iface) (mem : Nat → UInt8) (len : Nat) (src : In6Addr) :
    Outcome → Prop
  | ignored (notDis : isDis mem = false) (unnamed : namedKey mem len = none) :
      MessageCase env iface mem len src (dropped iface [])
  | dis (asks : isDis mem = true) : MessageCase env iface mem len src (processDis env iface)
  | dio (notDis : isDis mem = false) (code : mem 1 = ndRplDagIo) (base : sizeofDio ≤ len)
      (named : namedKey mem len = some (mem 4, addrAt mem 12)) :
      MessageCase env iface mem len src (processDio env iface mem len src)
  | dao (notDis : isDis mem = false) (code : mem 1 = ndRplDao) (base : sizeofDao ≤ len)
      (named : namedKey mem len = some (mem 4, addrAt mem 8)) :
      MessageCase env iface mem len src (processDao env iface mem len src)
  | daoack (notDis : isDis mem = false) (code : mem 1 = ndRplDaoAck) (base : sizeofDaoack ≤ len)
      (named : namedKey mem len = some (mem 4, addrAt mem 8)) :
      MessageCase env iface mem len src (processDaoack iface mem len)

section

variable {env : Env} {iface : Iface} {mem : Nat → UInt8} {len : Nat} {src : In6Addr}

theorem processIface_case (env : Env) (iface : Iface) (mem : Nat → UInt8) (len : Nat) (src : In6Addr) :
    ∃ out, MessageCase env iface mem len src out ∧
      (processIface env iface mem len src).iface = out.iface ∧
      (processIface env iface mem len src).effects = out.effects ∧
      (processIface env iface mem len src).fault = out.fault := by
  by_cases type : mem 0 = ndRplMessage
  · simp only [processIface, type, ne_eq, not_true_eq_false, if_false]
    by_cases dis : mem 1 = ndRplDagIs
    · refine ⟨processDis env iface, .dis (by simp [isDis, type, dis]), ?_⟩
      simp [dis]
    have notDis : isDis mem = false := by simp [isDis, dis]
    by_cases dio : mem 1 = ndRplDagIo
    · by_cases short : len < sizeofDio
      · have unnamed : namedKey mem len = none := by
          simp [namedKey, type, dio, short, ndRplDagIo, ndRplDao, ndRplDaoAck]
        refine ⟨_, .ignored notDis unnamed, ?_⟩
        simp [dio, processDio, short, dropped, ndRplDagIo, ndRplDagIs]
      · have base : sizeofDio ≤ len := by omega
        refine ⟨_, .dio notDis dio base (by simp [namedKey, type, dio, base]), ?_⟩
        simp [dio, ndRplDagIo, ndRplDagIs]
    by_cases dao : mem 1 = ndRplDao
    · by_cases short : len < sizeofDao
      · have unnamed : namedKey mem len = none := by
          simp [namedKey, type, dao, short, ndRplDagIo, ndRplDao, ndRplDaoAck]
        refine ⟨_, .ignored notDis unnamed, ?_⟩
        simp [dao, processDao, short, dropped, ndRplDagIo, ndRplDagIs, ndRplDao]
      · have base : sizeofDao ≤ len := by omega
        refine ⟨_, .dao notDis dao base (by simp [namedKey, type, dao, base, ndRplDagIo, ndRplDao]), ?_⟩
        simp [dao, ndRplDagIo, ndRplDagIs, ndRplDao]
    by_cases daoack : mem 1 = ndRplDaoAck
    · by_cases short : len < sizeofDaoack
      · have unnamed : namedKey mem len = none := by
          simp [namedKey, type, daoack, short, ndRplDagIo, ndRplDao, ndRplDaoAck]
        refine ⟨_, .ignored notDis unnamed, ?_⟩
        simp [daoack, processDaoack, short, dropped, ndRplDagIo, ndRplDagIs, ndRplDao, ndRplDaoAck]
      · have base : sizeofDaoack ≤ len := by omega
        refine ⟨_, .daoack notDis daoack base
          (by simp [namedKey, type, daoack, base, ndRplDagIo, ndRplDao, ndRplDaoAck]), ?_⟩
        simp [daoack, ndRplDagIo, ndRplDagIs, ndRplDao, ndRplDaoAck]
    · refine ⟨_, .ignored notDis (by simp [namedKey, type, dio, dao, daoack]), ?_⟩
      simp [dis, dio, dao, daoack, dropped]
  · refine ⟨_, .ignored (by simp [isDis, type]) (by simp [namedKey, type]), ?_⟩
    simp [processIface, type, dropped]

theorem slotMessage_idle {head : IfaceHead} {instanceId : UInt8} {dodagid : In6Addr} (notDis : isDis mem = false)
    (unnamed : namedKey mem len ≠ some (instanceId, dodagid)) (slot : Option Dag) :
    slotMessage env head instanceId dodagid mem len src slot = idle slot := by
  simp [slotMessage, notDis, unnamed]

theorem keyEffects_idle {instanceId : UInt8} {dodagid : In6Addr} (notDis : isDis mem = false)
    (unnamed : namedKey mem len ≠ some (instanceId, dodagid)) (effects : List Effect) :
    keyEffects instanceId dodagid mem len effects = [] := by
  simp [keyEffects, notDis, unnamed]

theorem processIface_named {instanceId : UInt8} {dodagid : In6Addr} (notDis : isDis mem = false)
    (named : namedKey mem len = some (instanceId, dodagid))
    (creates : dagLookup iface instanceId dodagid = none → Creates env iface instanceId) :
    let out := processIface env iface mem len src
    let reaction := slotMessage env iface.toIfaceHead instanceId dodagid mem len src
      (dagLookup iface instanceId dodagid)
    dagLookup out.iface instanceId dodagid = reaction.slot ∧ out.effects = reaction.effects ∧
      out.fault = reaction.fault := by
  intro out reaction
  obtain ⟨handled, way, sameIface, sameEffects, sameFault⟩ := processIface_case env iface mem len src
  simp only [out, reaction, sameIface, sameEffects, sameFault, slotMessage, notDis, named, Bool.false_eq_true,
    if_false, if_true]
  cases way with
  | ignored _ unnamed => simp [unnamed] at named
  | dis asks => simp [notDis] at asks
  | dio _ code base own =>
      rw [own, Option.some.injEq, Prod.mk.injEq] at named
      rw [← named.1, ← named.2] at creates ⊢
      simp only [code, if_true]
      exact processDio_slot base creates
  | dao _ code base own =>
      rw [own, Option.some.injEq, Prod.mk.injEq] at named
      rw [← named.1, ← named.2]
      have notDio : ndRplDao ≠ ndRplDagIo := by decide
      simp only [code, notDio, if_false, if_true]
      exact processDao_slot base
  | daoack _ code base own =>
      rw [own, Option.some.injEq, Prod.mk.injEq] at named
      rw [← named.1, ← named.2]
      have notDio : ndRplDaoAck ≠ ndRplDagIo := by decide
      have notDao : ndRplDaoAck ≠ ndRplDao := by decide
      simp only [code, notDio, notDao, if_false]
      exact processDaoack_slot base

theorem processIface_dio (type : mem 0 = ndRplMessage) (code : mem 1 = ndRplDagIo) (base : sizeofDio ≤ len)
    (creates : dagLookup iface (mem 4) (addrAt mem 12) = none → Creates env iface (mem 4)) :
    let out := processIface env iface mem len src
    let reaction := slotDio env iface.toIfaceHead mem len src (dagLookup iface (mem 4) (addrAt mem 12))
    dagLookup out.iface (mem 4) (addrAt mem 12) = reaction.slot ∧ out.effects = reaction.effects ∧
      out.fault = reaction.fault := by
  have notDis : isDis mem = false := by simp [isDis, code, ndRplDagIo, ndRplDagIs]
  have named : namedKey mem len = some (mem 4, addrAt mem 12) := by simp [namedKey, type, code, base]
  have handled := @processIface_named env iface mem len src _ _ notDis named creates
  simp only [slotMessage, notDis, named, code, Bool.false_eq_true, if_false, if_true] at handled
  exact handled

theorem processIface_denied {instanceId : UInt8} {dodagid : In6Addr} (notDis : isDis mem = false)
    (named : namedKey mem len = some (instanceId, dodagid)) (missing : dagLookup iface instanceId dodagid = none)
    (denied : ¬ Creates env iface instanceId) :
    (processIface env iface mem len src).iface = iface ∧ (processIface env iface mem len src).effects = [] := by
  obtain ⟨handled, way, sameIface, sameEffects, _⟩ := processIface_case env iface mem len src
  rw [sameIface, sameEffects]
  cases way with
  | ignored _ unnamed => simp [unnamed] at named
  | dis asks => simp [notDis] at asks
  | dio _ _ _ own =>
      rw [own, Option.some.injEq, Prod.mk.injEq] at named
      rw [← named.1, ← named.2] at missing
      rw [← named.1] at denied
      exact processDio_denied missing denied
  | dao _ _ _ own =>
      rw [own, Option.some.injEq, Prod.mk.injEq] at named
      rw [← named.1, ← named.2] at missing
      simp only [processDao, missing]
      split <;> exact ⟨rfl, rfl⟩
  | daoack _ _ _ own =>
      rw [own, Option.some.injEq, Prod.mk.injEq] at named
      rw [← named.1, ← named.2] at missing
      simp only [processDaoack, missing]
      split <;> exact ⟨rfl, rfl⟩

theorem processIface_unnamed {instanceId : UInt8} {dodagid : In6Addr} (notDis : isDis mem = false)
    (unnamed : namedKey mem len ≠ some (instanceId, dodagid)) :
    dagLookup (processIface env iface mem len src).iface instanceId dodagid =
      dagLookup iface instanceId dodagid := by
  obtain ⟨handled, way, sameIface, _, _⟩ := processIface_case env iface mem len src
  rw [sameIface]
  cases way with
  | ignored => rfl
  | dis asks => simp [notDis] at asks
  | dio _ _ _ own =>
      apply processDio_other
      rintro ⟨sameId, sameDodagid⟩
      exact unnamed (by rw [own, sameId, sameDodagid])
  | dao _ _ _ own =>
      apply processDao_other
      rintro ⟨sameId, sameDodagid⟩
      exact unnamed (by rw [own, sameId, sameDodagid])
  | daoack => rw [processDaoack_iface]

theorem processIface_dis (asks : isDis mem = true) :
    (processIface env iface mem len src).iface = (processDis env iface).iface ∧
      (processIface env iface mem len src).effects = (processDis env iface).effects ∧
      (processIface env iface mem len src).fault = (processDis env iface).fault := by
  simp only [isDis, Bool.and_eq_true, beq_iff_eq] at asks
  simp [processIface, asks.1, asks.2]

section

variable (keyed : iface.Keyed) (refs : iface.BackRefs) (instanceId : UInt8) (dodagid : In6Addr)
include keyed refs

/-- Whatever the system answers, a slot is left alone or reacts, and every effect made for
its key is one of the reaction. -/
theorem processIface_slot_any :
    let out := processIface env iface mem len src
    let slot := dagLookup iface instanceId dodagid
    let reaction := slotMessage env iface.toIfaceHead instanceId dodagid mem len src slot
    (dagLookup out.iface instanceId dodagid = slot ∨ dagLookup out.iface instanceId dodagid = reaction.slot) ∧
      ∀ effect ∈ keyEffects instanceId dodagid mem len out.effects, effect ∈ reaction.effects := by
  intro out slot reaction
  cases dis : isDis mem with
  | true =>
      obtain ⟨sameIface, sameEffects, _⟩ := @processIface_dis env iface mem len src dis
      simp only [out, reaction, sameIface, sameEffects, slotMessage, keyEffects, dis, if_true]
      exact processDis_slot_any keyed refs
  | false =>
      by_cases named : namedKey mem len = some (instanceId, dodagid)
      · have own : keyEffects instanceId dodagid mem len out.effects = out.effects := by
          simp [keyEffects, dis, named]
        by_cases creates : slot = none → Creates env iface instanceId
        · obtain ⟨looked, effects, _⟩ := @processIface_named env iface mem len src _ _ dis named creates
          rw [own]
          refine ⟨Or.inr looked, ?_⟩
          intro effect member
          rw [← effects]
          exact member
        · rw [Classical.not_imp] at creates
          obtain ⟨sameIface, quiet⟩ := @processIface_denied env iface mem len src _ _ dis named creates.1 creates.2
          rw [own, quiet, sameIface]
          exact ⟨Or.inl rfl, by simp⟩
      · rw [keyEffects_idle dis named]
        exact ⟨Or.inl (processIface_unnamed dis named), by simp⟩

theorem processIface_slot (allocs : env.AllocsSucceed) (returns : (processIface env iface mem len src).fault = none) :
    let out := processIface env iface mem len src
    let reaction := slotMessage env iface.toIfaceHead instanceId dodagid mem len src
      (dagLookup iface instanceId dodagid)
    dagLookup out.iface instanceId dodagid = reaction.slot ∧
      keyEffects instanceId dodagid mem len out.effects = reaction.effects := by
  intro out reaction
  cases dis : isDis mem with
  | true =>
      obtain ⟨sameIface, sameEffects, sameFault⟩ := @processIface_dis env iface mem len src dis
      rw [sameFault] at returns
      simp only [out, reaction, sameIface, sameEffects, slotMessage, keyEffects, dis, if_true]
      exact processDis_slot keyed refs returns
  | false =>
      by_cases named : namedKey mem len = some (instanceId, dodagid)
      · obtain ⟨looked, effects, _⟩ := @processIface_named env iface mem len src _ _ dis named
          (fun _ => creates_of_allocs allocs iface instanceId)
        refine ⟨looked, ?_⟩
        simpa [keyEffects, dis, named] using effects
      · simp only [reaction, keyEffects_idle dis named, slotMessage_idle dis named]
        exact ⟨processIface_unnamed dis named, rfl⟩

omit instanceId dodagid in
theorem processIface_fine_iff (allocs : env.AllocsSucceed) :
    (processIface env iface mem len src).fault = none ↔
      ∀ instanceId dodagid, (slotMessage env iface.toIfaceHead instanceId dodagid mem len src
        (dagLookup iface instanceId dodagid)).fault = none := by
  cases dis : isDis mem with
  | true =>
      rw [(@processIface_dis env iface mem len src dis).2.2, processDis_fine_iff keyed refs]
      simp only [slotMessage, dis, if_true]
  | false =>
      cases named : namedKey mem len with
      | none =>
          have returns : (processIface env iface mem len src).fault = none := by
            obtain ⟨handled, way, _, _, sameFault⟩ := processIface_case env iface mem len src
            rw [sameFault]
            cases way with
            | ignored => rfl
            | dis asks => simp [dis] at asks
            | dio _ _ _ own => simp [named] at own
            | dao _ _ _ own => simp [named] at own
            | daoack _ _ _ own => simp [named] at own
          refine iff_of_true returns ?_
          intro instanceId dodagid
          rw [slotMessage_idle dis (by simp [named])]
          rfl
      | some key =>
          obtain ⟨_, _, fault⟩ := @processIface_named env iface mem len src key.1 key.2 dis named
            (fun _ => creates_of_allocs allocs iface key.1)
          rw [fault]
          constructor
          · intro fine instanceId dodagid
            by_cases same : key = (instanceId, dodagid)
            · subst same
              exact fine
            · rw [slotMessage_idle dis (by simp [named, same])]
              rfl
          · intro fine
            exact fine key.1 key.2

end

end

/-! What is asked for other than when a rank is heard. -/

inductive Effect.Routine : Effect → Prop
  | dio (dag : Dag) : Routine dag.dioMessage
  | dis (ifindex : UInt32) (ifaddr : In6Addr) :
      Routine (.sendmsg ifindex ifaddr allRplAddr ((Icmp6Hdr.mk ndRplMessage ndRplDagIs).bytes ++ [0, 0]))
  | ack (dag : Dag) (dst : In6Addr) : Routine (.sendmsg dag.iface.ifindex dag.iface.ifaddr dst dag.daoAckBytes)
  | childRoute (ifindex : UInt32) (dst via : In6Addr) : Routine (.nlAddRouteVia ifindex dst via)
  | defaultRoute (ifindex : UInt32) (via : In6Addr) : Routine (.nlAddRouteDefault ifindex via)

section

variable {env : Env} {iface : Iface} {mem : Nat → UInt8} {len : Nat} {src : In6Addr} {effect : Effect}

theorem processDis_routine (member : effect ∈ (processDis env iface).effects) : effect.Routine := by
  obtain ⟨sent, left, _, answered⟩ := sendDioRpls_answered env iface.rpls
  rw [show (processDis env iface).effects = sent.map Dag.dioMessage from answered.effects] at member
  obtain ⟨dag, _, rfl⟩ := List.mem_map.mp member
  exact .dio dag

theorem processDao_routine (base : sizeofDao ≤ len) (member : effect ∈ (processDao env iface mem len src).effects) :
    effect.Routine := by
  rw [(processDao_slot base).2.1] at member
  cases found : dagLookup iface (mem 4) (addrAt mem 8) with
  | none => simp [found, slotDao, idle] at member
  | some dag =>
      simp only [found, slotDao] at member
      split at member
      · rcases List.mem_append.mp member with route | ack
        · obtain ⟨child, _, rfl⟩ := List.mem_map.mp route
          exact .childRoute _ child.addr child.fromAddr
        · rw [List.mem_singleton] at ack
          rw [ack]
          exact .ack _ src
      · simp at member

theorem processDaoack_routine (base : sizeofDaoack ≤ len) (member : effect ∈ (processDaoack iface mem len).effects) :
    effect.Routine := by
  rw [(processDaoack_slot base).2.1] at member
  cases found : dagLookup iface (mem 4) (addrAt mem 8) with
  | none => simp [found, slotDaoack, idle] at member
  | some dag =>
      simp only [found, slotDaoack, List.mem_map] at member
      obtain ⟨parent, _, rfl⟩ := member
      exact .defaultRoute dag.iface.ifindex parent.addr

end

end Rpld
