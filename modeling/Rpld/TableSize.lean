import Rpld.Lib.Totals
import Rpld.SlotRuns

/-!
How much the daemon remembers. Each instance, dag, parent, child and pending acknowledgement
is one allocation that no handler frees. A DIO makes at most four of them, a DAO one for every
two bytes behind its base, and nothing else makes any, be it of RPL or not.
-/

namespace Rpld

open FirstMatch
open Totals

/-- The allocations that the table holds. -/
def Dag.objects (dag : Dag) : Nat :=
  1 + (if dag.parent.isSome then 1 else 0) + dag.childs.length + dag.pendingAcks.length

def Rpl.objects (rpl : Rpl) : Nat := 1 + total Dag.objects rpl.dags

def Iface.objects (iface : Iface) : Nat := total Rpl.objects iface.rpls

def Daemon.objects (daemon : Daemon) : Nat := total Iface.objects daemon.ifaces

/-- The most that a message of RPL with this code and length can add. -/
def codeCost (code : UInt8) (len : Nat) : Nat :=
  if code = ndRplDagIo then 4 else if code = ndRplDao then (len - sizeofDao) / 2 else 0

def Event.cost : Event → Nat
  | .packet _ pkt => if 4 ≤ pkt.len ∧ pkt.mem 0 = ndRplMessage then codeCost (pkt.mem 1) (pkt.len - 4) else 0
  | _ => 0

/-- Nothing is given back, and at most so much is added. -/
def Iface.GrowsBy (iface : Iface) (most : Nat) (later : Iface) : Prop :=
  iface.objects ≤ later.objects ∧ later.objects ≤ iface.objects + most

theorem growsBy_refl (iface : Iface) (most : Nat) : iface.GrowsBy most iface :=
  ⟨Nat.le_refl _, Nat.le_add_right _ _⟩

/-! Table operations. -/

section

variable {iface : Iface} {instanceId : UInt8} {dodagid : In6Addr} {dag next : Dag}

theorem dagWrite_objects (found : dagLookup iface instanceId dodagid = some dag) :
    (dagWrite iface instanceId dodagid fun _ => next).objects + dag.objects = iface.objects + next.objects := by
  rw [dagLookup_eq, Option.bind_eq_some_iff] at found
  obtain ⟨rpl, inIface, inRpl⟩ := found
  have inner := @total_updateFirst Dag Dag.objects _ (fun _ => next) _ _ inRpl
  have outer := @total_updateFirst Rpl Rpl.objects _
    (fun rpl => { rpl with dags := updateFirst (·.dodagid == dodagid) (fun _ => next) rpl.dags }) _ _ inIface
  simp only [Rpl.objects] at outer
  simp only [Iface.objects, dagWrite]
  omega

theorem dagWrite_growsBy {most : Nat} (found : dagLookup iface instanceId dodagid = some dag)
    (grows : dag.objects ≤ next.objects ∧ next.objects ≤ dag.objects + most) :
    iface.GrowsBy most (dagWrite iface instanceId dodagid fun _ => next) := by
  have moved := @dagWrite_objects iface instanceId dodagid dag next found
  unfold Iface.GrowsBy
  omega

theorem dagAppend_objects {rpl : Rpl} (linked : dagLookupRpl iface instanceId = some rpl) (dag : Dag) :
    (dagAppend iface instanceId dag).objects = iface.objects + dag.objects := by
  have outer := @total_updateFirst Rpl Rpl.objects _ (fun rpl => { rpl with dags := rpl.dags ++ [dag] }) _ _ linked
  simp only [Rpl.objects, total_append, total] at outer
  simp only [Iface.objects, dagAppend]
  omega

theorem dagLookup_objects (found : dagLookup iface instanceId dodagid = some dag) : dag.objects ≤ iface.objects := by
  rw [dagLookup_eq, Option.bind_eq_some_iff] at found
  obtain ⟨rpl, inIface, inRpl⟩ := found
  have inner : dag.objects ≤ total Dag.objects rpl.dags := le_total_of_mem (List.mem_of_find?_eq_some inRpl)
  have outer : rpl.objects ≤ iface.objects := le_total_of_mem (List.mem_of_find?_eq_some inIface)
  rw [Rpl.objects] at outer
  omega

theorem dags_length_le (rpls : List Rpl) : (rpls.flatMap (·.dags)).length ≤ total Rpl.objects rpls := by
  induction rpls with
  | nil => exact Nat.le_refl 0
  | cons rpl rest ih =>
      have here : rpl.dags.length ≤ total Dag.objects rpl.dags :=
        length_le_total (fun dag => by simp only [Dag.objects]; omega) rpl.dags
      rw [List.flatMap_cons, List.length_append, total, Rpl.objects]
      omega

/-- A new dag comes with at most one new instance. -/
theorem withDag_growsBy (iface : Iface) (instanceId : UInt8) (dag : Dag) :
    iface.GrowsBy (dag.objects + 1) (withDag iface instanceId dag) := by
  unfold Iface.GrowsBy withDag
  cases linked : dagLookupRpl iface instanceId with
  | some rpl =>
      rw [dagAppend_objects linked]
      omega
  | none =>
      have instanced : (rplAppend iface ⟨⟨instanceId⟩, []⟩).objects = iface.objects + 1 := by
        simp [Iface.objects, rplAppend, total, Rpl.objects]
      rw [dagAppend_objects (dagLookupRpl_rplAppend linked), instanced]
      omega

end

/-! Handlers. -/

section

variable (env : Env) (mem : Nat → UInt8) (src : In6Addr)

theorem afterDao_objects (dag : Dag) :
    dag.objects ≤ (dag.afterDao env).objects ∧ (dag.afterDao env).objects ≤ dag.objects + 1 := by
  rw [Dag.afterDao_eq]
  by_cases granted : env.daoackAlloc = true
  · simp only [Dag.objects, granted, if_true, List.length_append, List.length_singleton]
    omega
  · simp only [Dag.objects, granted, if_false, Bool.false_eq_true]
    omega

/-- A DIO makes the parent and, where it is accepted, one pending acknowledgement. -/
theorem Dag.hears_objects (dag : Dag) (rank : UInt16) :
    dag.objects ≤ (dag.hears env rank src).dag.objects ∧
      (dag.hears env rank src).dag.objects ≤ dag.objects + 2 := by
  by_cases available : HasParent env dag
  · have configured : (dagProcessDio env (dag.ranked rank src)).1.objects = (dag.ranked rank src).objects := by
      rcases dagProcessDio_cases env (dag.ranked rank src) with same | ⟨addr, _, wrote⟩
      · rw [same]
      · rw [wrote]
        rfl
    have ranked : dag.objects ≤ (dag.ranked rank src).objects ∧
        (dag.ranked rank src).objects ≤ dag.objects + 1 := by
      simp only [Dag.objects, Dag.ranked, Option.isSome_some, if_true]
      split <;> omega
    rcases Dag.hears_cases available rank src with ⟨_, refused⟩ | ⟨_, _, exited⟩ | ⟨_, _, accepted⟩
    · rw [refused]
      simp only [Dag.objects, Option.isSome_some, if_true]
      split <;> omega
    · rw [exited]
      simp only
      omega
    · have pending := afterDao_objects env (dagProcessDio env (dag.ranked rank src)).1
      rw [accepted]
      simp only
      omega
  · rw [Dag.hears_without available]
    exact ⟨Nat.le_refl _, Nat.le_add_right _ _⟩

theorem processDio_growsBy (iface : Iface) (len : Nat) : iface.GrowsBy 4 (processDio env iface mem len src).iface := by
  have way := processDio_case env iface mem len src
  generalize processDio env iface mem len src = out at way
  cases way with
  | drops => exact growsBy_refl iface 4
  | oversized => exact growsBy_refl iface 4
  | fails => exact growsBy_refl iface 4
  | known dag reads _ found =>
      have heard := Dag.hears_objects env src dag (ntohs (mem 6) (mem 7))
      rw [processDioRank_hears (Or.inr found)]
      exact dagWrite_growsBy found (by omega)
  | joined dag pfx reads joins inside fresh =>
      have key : dag.dodagid = addrAt mem 12 := by rw [fresh]; rfl
      have bare : dag.objects = 1 := by rw [fresh]; rfl
      have created := withDag_growsBy iface (mem 4) dag
      have linked := dagLookup_withDag joins.missing key
      have heard := dagWrite_growsBy linked (Dag.hears_objects env src dag (ntohs (mem 6) (mem 7)))
      rw [processDioRank_hears (Or.inr linked)]
      simp only [Iface.GrowsBy] at created heard ⊢
      omega

theorem dagLookupChildOrCreate_objects (allocated : Bool) (dag : Dag) (addr fromAddr : In6Addr) :
    dag.objects ≤ (dagLookupChildOrCreate allocated dag addr fromAddr).objects ∧
      (dagLookupChildOrCreate allocated dag addr fromAddr).objects ≤ dag.objects + 1 := by
  unfold dagLookupChildOrCreate
  split
  · omega
  · split
    · simp only [Dag.objects, List.length_append, List.length_singleton]
      omega
    · omega

/-- A turn of the loop makes at most one child and takes at least two bytes off `optlen`. -/
theorem daoOption_objects {cursor next : DaoCursor} (turned : daoOption env mem src cursor = some next) :
    2 ≤ cursor.optlen ∧ next.optlen ≤ cursor.optlen - 2 ∧ cursor.dag.objects ≤ next.dag.objects ∧
      next.dag.objects ≤ cursor.dag.objects + 1 := by
  obtain ⟨header, ⟨_, rfl⟩ | ⟨_, rfl⟩⟩ := daoOption_cases turned
  · have child := dagLookupChildOrCreate_objects (env.childAlloc cursor.p) cursor.dag (addrAt mem (cursor.p + 4)) src
    simp only [sizeofOpt] at header ⊢
    omega
  · simp only [sizeofOpt] at header ⊢
    omega

theorem daoOptions_objects (turns : Nat) (cursor : DaoCursor) :
    cursor.dag.objects ≤ (daoOptions env mem src turns cursor).1.dag.objects ∧
      (daoOptions env mem src turns cursor).1.dag.objects ≤ cursor.dag.objects + cursor.optlen.toNat / 2 := by
  induction turns generalizing cursor with
  | zero =>
      simp only [daoOptions]
      omega
  | succ turns ih =>
      simp only [daoOptions]
      split
      · cases turned : daoOption env mem src cursor with
        | none =>
            simp only
            omega
        | some next =>
            have turn := daoOption_objects env mem src turned
            have others := ih next
            simp only
            omega
      · simp only
        omega

theorem processDao_growsBy (iface : Iface) (len : Nat) :
    iface.GrowsBy ((len - sizeofDao) / 2) (processDao env iface mem len src).iface := by
  rcases (processDao_cases env iface mem len src).2 with same | ⟨dag, found, walked⟩
  · rw [same]
    exact growsBy_refl iface _
  · rw [walked]
    have options := daoOptions_objects env mem src (len - sizeofDao)
      ⟨24, ((len - sizeofDao : Nat) : Int), dag, 4 :: addrReads 8⟩
    exact dagWrite_growsBy found (by simpa using options)

theorem sendDio_objects {dag next : Dag} {dio : Effect} (sent : sendDio env dag = .ok (next, dio)) :
    next.objects = dag.objects := by
  rw [sendDio_dag sent]
  rfl

theorem sendDioDags_objects (dags : List Dag) : total Dag.objects (sendDioDags env dags).1 = total Dag.objects dags := by
  induction dags with
  | nil => rfl
  | cons dag rest ih =>
      simp only [sendDioDags]
      cases sent : sendDio env dag with
      | error fault => rfl
      | ok both => simp only [total, ih, sendDio_objects env sent]

theorem processDis_objects (iface : Iface) : (processDis env iface).iface.objects = iface.objects := by
  have each : total Rpl.objects (sendDioRpls env iface.rpls).1 = total Rpl.objects iface.rpls := by
    induction iface.rpls with
    | nil => rfl
    | cons rpl rest ih =>
        have inner := sendDioDags_objects env rpl.dags
        simp only [sendDioRpls]
        split
        · rename_i dags effects fault answered
          rw [answered] at inner
          simp only [total, Rpl.objects, inner]
        · rename_i dags effects answered
          rw [answered] at inner
          simp only [total, ih, Rpl.objects, inner]
  exact each

theorem processIface_growsBy (iface : Iface) (len : Nat) :
    iface.GrowsBy (if mem 0 = ndRplMessage then codeCost (mem 1) len else 0)
      (processIface env iface mem len src).iface := by
  by_cases type : mem 0 = ndRplMessage
  swap
  · rw [processIface, if_pos type]
    exact growsBy_refl iface _
  rw [if_pos type]
  obtain ⟨handled, way, sameIface, _, _⟩ := processIface_case env iface mem len src
  rw [sameIface]
  cases way with
  | ignored => exact growsBy_refl iface _
  | dis =>
      unfold Iface.GrowsBy
      rw [processDis_objects env iface]
      omega
  | dio _ code =>
      rw [code]
      exact processDio_growsBy env mem src iface len
  | dao _ code =>
      rw [code]
      exact processDao_growsBy env mem src iface len
  | daoack =>
      rw [processDaoack_iface]
      exact growsBy_refl iface _

end

/-! What a handler asks for. -/

section

variable (env : Env) (mem : Nat → UInt8) (src : In6Addr)

theorem Dag.hears_effects_length (dag : Dag) (rank : UInt16) : (dag.hears env rank src).effects.length ≤ 3 := by
  have configured : (dagProcessDio env (dag.ranked rank src)).2.length ≤ 2 := by
    unfold dagProcessDio
    split
    · exact Nat.zero_le 2
    · simp only
      split
      · split <;> exact Nat.le_refl 2
      · exact Nat.le_succ 1
  by_cases available : HasParent env dag
  · rcases Dag.hears_cases available rank src with ⟨_, refused⟩ | ⟨_, _, exited⟩ | ⟨_, _, accepted⟩
    · rw [refused]
      exact Nat.zero_le 3
    · rw [exited]
      simp only
      omega
    · rw [accepted]
      simp only [List.length_append, List.length_singleton]
      omega
  · rw [Dag.hears_without available]
    exact Nat.zero_le 3

theorem processDio_effects_length (iface : Iface) (len : Nat) : (processDio env iface mem len src).effects.length ≤ 5 := by
  have way := processDio_case env iface mem len src
  generalize processDio env iface mem len src = out at way
  cases way with
  | drops => exact Nat.zero_le 5
  | oversized => exact Nat.zero_le 5
  | fails => exact Nat.zero_le 5
  | known dag reads _ found =>
      have heard := Dag.hears_effects_length env src dag (ntohs (mem 6) (mem 7))
      rw [processDioRank_hears (Or.inr found)]
      simp only [List.nil_append]
      omega
  | joined dag pfx reads joins inside fresh =>
      have key : dag.dodagid = addrAt mem 12 := by rw [fresh]; rfl
      have heard := Dag.hears_effects_length env src dag (ntohs (mem 6) (mem 7))
      rw [processDioRank_hears (Or.inr (dagLookup_withDag joins.missing key))]
      simp only [List.length_append, dagInitTimer, List.length_cons, List.length_nil]
      omega

/-- Every child is a route to ask for, whether the DAO named it or not. -/
theorem processDao_effects_length (iface : Iface) (len : Nat) :
    (processDao env iface mem len src).effects.length ≤ (processDao env iface mem len src).iface.objects + 1 := by
  by_cases short : len < sizeofDao
  · simp [processDao, short, dropped]
  · simp only [processDao, short, if_false]
    cases found : dagLookup iface (mem 4) (addrAt mem 8) with
    | none => exact Nat.zero_le _
    | some dag =>
        simp only [sendDaoAck_ok]
        split
        · generalize (daoOptions env mem src _ _).1.dag = next
          have held := dagLookup_objects found
          have written := @dagWrite_objects iface (mem 4) (addrAt mem 8) dag next found
          have childs : next.childs.length ≤ next.objects := by
            rw [Dag.objects]
            omega
          simp only [childRoutes, List.length_append, List.length_map, List.length_singleton]
          omega
        · exact Nat.zero_le _

theorem processDis_effects_length (iface : Iface) :
    (processDis env iface).effects.length ≤ (processDis env iface).iface.objects := by
  obtain ⟨sent, left, split, answered⟩ := sendDioRpls_answered env iface.rpls
  have dags := dags_length_le iface.rpls
  rw [split, List.length_append] at dags
  rw [processDis_objects, Iface.objects, show (processDis env iface).effects = _ from answered.effects, List.length_map]
  omega

theorem processDaoack_effects_length (iface : Iface) (len : Nat) : (processDaoack iface mem len).effects.length ≤ 1 := by
  unfold processDaoack
  split
  · exact Nat.zero_le 1
  · split
    · exact Nat.zero_le 1
    · split
      · exact Nat.zero_le 1
      · exact Nat.le_refl 1

theorem processIface_effects_length (iface : Iface) (len : Nat) :
    (processIface env iface mem len src).effects.length ≤ (processIface env iface mem len src).iface.objects + 5 := by
  obtain ⟨handled, way, sameIface, sameEffects, _⟩ := processIface_case env iface mem len src
  rw [sameIface, sameEffects]
  cases way with
  | ignored => exact Nat.zero_le _
  | dis =>
      have most := processDis_effects_length env iface
      omega
  | dio =>
      have most := processDio_effects_length env mem src iface len
      omega
  | dao =>
      have most := processDao_effects_length env mem src iface len
      omega
  | daoack =>
      have most := processDaoack_effects_length mem iface len
      omega

end

/-! Runs. -/

theorem Daemon.step_objects (daemon : Daemon) (event : Event) :
    daemon.objects ≤ (daemon.step event).objects ∧ (daemon.step event).objects ≤ daemon.objects + event.cost := by
  cases running : daemon.fault with
  | some fault =>
      simp only [Daemon.step, running]
      omega
  | none =>
      cases event with
      | packet env pkt =>
          rcases Daemon.packet_seen daemon pkt with unseen | ⟨iface, long, known⟩
          · rw [Daemon.packet_dropped running unseen]
            omega
          · have grows := processIface_growsBy env pkt.mem pkt.src iface (pkt.len - 4)
            have moved := @total_updateFirst Iface Iface.objects _
              (fun _ => (processIface env iface pkt.mem (pkt.len - 4) pkt.src).iface) _ _ known
            rw [Daemon.packet_of_find running long known]
            simp only [Iface.GrowsBy] at grows
            simp only [Daemon.objects, Event.cost, long, true_and]
            omega
      | trickle env watcher =>
          cases held : daemon.watched watcher with
          | none =>
              rw [Daemon.trickle_none running held]
              omega
          | some dag =>
              obtain ⟨iface, found, looked⟩ := Option.bind_eq_some_iff.mp held
              by_cases valid : dag.dest.len.toNat ≤ 128
              · have same : dag.afterDio.objects = dag.objects := rfl
                have written := @dagWrite_objects iface watcher.instanceId watcher.dodagid dag dag.afterDio looked
                have moved := @total_updateFirst Iface Iface.objects _
                  (fun iface => dagWrite iface watcher.instanceId watcher.dodagid fun _ => dag.afterDio) _ _ found
                rw [Daemon.trickle_sent running held valid]
                simp only [Daemon.objects]
                omega
              · rw [Daemon.trickle_overrun running held (by omega)]
                simp only [Daemon.objects]
                omega
      | dis env ptr =>
          have same : (daemon.step (.dis env ptr)).ifaces = daemon.ifaces := by
            simp only [Daemon.step, running, Daemon.dis]
            split
            · rfl
            · split <;> rfl
          simp only [Daemon.objects, same]
          omega

theorem Daemon.step_requests (daemon : Daemon) (event : Event) :
    (daemon.step event).log.length ≤ daemon.log.length + ((daemon.step event).objects + 5) := by
  cases running : daemon.fault with
  | some fault =>
      simp only [Daemon.step, running]
      omega
  | none =>
      cases event with
      | packet env pkt =>
          rcases Daemon.packet_seen daemon pkt with unseen | ⟨iface, long, known⟩
          · rw [Daemon.packet_dropped running unseen]
            omega
          · have most := processIface_effects_length env pkt.mem pkt.src iface (pkt.len - 4)
            have held : iface.objects ≤ daemon.objects := le_total_of_mem (List.mem_of_find?_eq_some known)
            have moved := @total_updateFirst Iface Iface.objects _
              (fun _ => (processIface env iface pkt.mem (pkt.len - 4) pkt.src).iface) _ _ known
            rw [Daemon.packet_of_find running long known]
            simp only [Daemon.objects, List.length_append] at held ⊢
            omega
      | trickle env watcher =>
          cases held : daemon.watched watcher with
          | none =>
              rw [Daemon.trickle_none running held]
              omega
          | some dag =>
              by_cases valid : dag.dest.len.toNat ≤ 128
              · rw [Daemon.trickle_sent running held valid]
                simp only [List.length_append, List.length_singleton]
                omega
              · rw [Daemon.trickle_overrun running held (by omega)]
                simp only
                omega
      | dis env ptr =>
          simp only [Daemon.step, running, Daemon.dis]
          split
          · omega
          · split
            · simp only
              omega
            · simp only [List.length_append, List.length_singleton]
              omega

/-- What a run costs in memory. From whatever state, with packets of arbitrary content and any
outcome of each allocation, the tables never come to hold less, and a run adds at most four
objects for each DIO, one for every two bytes behind the base of each DAO, and none for anything
else. -/
theorem run_objects (daemon : Daemon) (events : List Event) :
    daemon.objects ≤ (daemon.run events).objects ∧
      (daemon.run events).objects ≤ daemon.objects + total Event.cost events :=
  foldl_grows Daemon.step_objects events daemon

/-- What a run costs in traffic. The messages and requests of a run are at most as many for each
of its events as the tables can come to hold, and five more. -/
theorem run_requests (daemon : Daemon) (events : List Event) :
    (daemon.run events).log.length ≤
      daemon.log.length + events.length * (daemon.objects + total Event.cost events + 5) :=
  @foldl_work _ _ _ _ _ Daemon.step_objects (fun state => state.log.length) 5 Daemon.step_requests events daemon

end Rpld
