import Rpld.Lib.Runs
import Rpld.DioSteps
import Rpld.DaoWalk
import Rpld.DaemonCore

/-!
What no handler changes. The identity of a dag, its version and its destination prefix
are written when it is created; afterwards a handler either leaves all of them as they
are or adds one dag under a key that had none.
-/

namespace Rpld

open FirstMatch

structure Advert where
  version : UInt8
  dodagid : In6Addr
  dest : In6Prefix
  trickleT : EvTstamp
  iface : IfaceHead
  rpl : RplHead
deriving DecidableEq

def Dag.advert (dag : Dag) : Advert :=
  ⟨dag.version, dag.dodagid, dag.dest, dag.trickleT, dag.iface, dag.rpl⟩

def Rpl.adverts (rpl : Rpl) : RplHead × List Advert := (rpl.toRplHead, rpl.dags.map Dag.advert)

def Iface.adverts (iface : Iface) : List (RplHead × List Advert) := iface.rpls.map Rpl.adverts

/-! Single operations. -/

section

variable {iface : Iface} {instanceId : UInt8} {dodagid : In6Addr} {dag next : Dag}

theorem dagWrite_adverts (found : dagLookup iface instanceId dodagid = some dag)
    (keeps : next.advert = dag.advert) :
    (dagWrite iface instanceId dodagid fun _ => next).adverts = iface.adverts := by
  rw [dagLookup_eq, Option.bind_eq_some_iff] at found
  obtain ⟨rpl, inIface, inRpl⟩ := found
  have inner : (updateFirst (·.dodagid == dodagid) (fun _ => next) rpl.dags).map Dag.advert =
      rpl.dags.map Dag.advert := map_updateFirst inRpl keeps
  refine map_updateFirst inIface ?_
  simp only [Rpl.adverts, inner]

theorem sendDio_dag {env : Env} {dio : Effect} (sent : sendDio env dag = .ok (next, dio)) :
    next = { dag with dtsn := dag.dtsn + 1 } := by
  by_cases valid : dag.dest.len.toNat ≤ 128
  · rw [sendDio_ok env dag valid] at sent
    simp only [Except.ok.injEq, Prod.mk.injEq] at sent
    exact sent.1.symm
  · rw [sendDio_overrun env dag (by omega)] at sent
    simp at sent

theorem sendDio_advert {env : Env} {dio : Effect} (sent : sendDio env dag = .ok (next, dio)) :
    next.advert = dag.advert := by
  rw [sendDio_dag sent]
  rfl

theorem afterDao_advert (env : Env) (dag : Dag) : (dag.afterDao env).advert = dag.advert := by
  rw [Dag.afterDao_eq]
  rfl

theorem dagProcessDio_advert (env : Env) (dag : Dag) : (dagProcessDio env dag).1.advert = dag.advert := by
  rcases dagProcessDio_cases env dag with same | ⟨addr, _, wrote⟩
  · rw [same]
  · rw [wrote]
    rfl

theorem daoOptions_advert (env : Env) (mem : Nat → UInt8) (src : In6Addr) (turns : Nat)
    (cursor : DaoCursor) : (daoOptions env mem src turns cursor).1.dag.advert = cursor.dag.advert := by
  obtain ⟨targets, walked⟩ := daoOptions_registers env mem src turns cursor
  rw [walked]
  rfl

theorem sendDioDags_adverts (env : Env) (dags : List Dag) :
    (sendDioDags env dags).1.map Dag.advert = dags.map Dag.advert := by
  induction dags with
  | nil => rfl
  | cons dag rest ih =>
      simp only [sendDioDags]
      cases sent : sendDio env dag with
      | error fault => rfl
      | ok both =>
          simp only [List.map_cons, ih]
          rw [sendDio_advert sent]

theorem sendDioRpls_adverts (env : Env) (rpls : List Rpl) :
    (sendDioRpls env rpls).1.map Rpl.adverts = rpls.map Rpl.adverts := by
  induction rpls with
  | nil => rfl
  | cons rpl rest ih =>
      have inner := sendDioDags_adverts env rpl.dags
      simp only [sendDioRpls]
      split
      · rename_i dags effects fault answered
        rw [answered] at inner
        simp only [List.map_cons, Rpl.adverts, inner]
      · rename_i dags effects answered
        rw [answered] at inner
        simp only [List.map_cons, ih]
        simp only [Rpl.adverts, inner]

end

/-! Handlers. -/

/-- What a handler does to an interface: every dag keeps its creation fields, and at
most one dag, of the kind `made`, is added under a key that had none. -/
structure Follows (made : Advert → Prop) (before after : Iface) : Prop where
  head : after.toIfaceHead = before.toIfaceHead
  adverts : after.adverts = before.adverts ∨
    ∃ instanceId dag, dagLookup before instanceId dag.dodagid = none ∧
      dag.iface = before.toIfaceHead ∧ dag.rpl = ⟨instanceId⟩ ∧ made dag.advert ∧
      after.adverts = (withDag before instanceId dag).adverts

section

variable {made : Advert → Prop} {iface : Iface} {instanceId : UInt8} {dodagid : In6Addr} {dag : Dag}

theorem follows_refl (iface : Iface) : Follows made iface iface := ⟨rfl, Or.inl rfl⟩

theorem follows_dagWrite {next : Dag} (found : dagLookup iface instanceId dodagid = some dag)
    (keeps : next.advert = dag.advert) :
    Follows made iface (dagWrite iface instanceId dodagid fun _ => next) :=
  ⟨rfl, Or.inl (dagWrite_adverts found keeps)⟩

/-- A DIO that passes every test of `process_dio` for a key without a dag. -/
structure Joins (iface : Iface) (mem : Nat → UInt8) (len : Nat) : Prop where
  length : sizeofDio + sizeofDiodpHead + (bitsToBytes (mem 30)).toNat ≤ len
  option : mem 28 = 0x3
  missing : dagLookup iface (mem 4) (addrAt mem 12) = none

inductive DioCase (env : Env) (iface : Iface) (mem : Nat → UInt8) (len : Nat) (src : In6Addr) :
    Outcome → Prop
  | drops (reads : List Nat) (notNew : ¬ Joins iface mem len)
      (notKnown : sizeofDio ≤ len → ∀ dag, dagLookup iface (mem 4) (addrAt mem 12) = some dag →
        dag.myRank = 1) :
      DioCase env iface mem len src (dropped iface reads)
  | known (dag : Dag) (reads : List Nat) (base : sizeofDio ≤ len)
      (found : dagLookup iface (mem 4) (addrAt mem 12) = some dag) (notRoot : dag.myRank ≠ 1) :
      DioCase env iface mem len src
        (processDioRank env iface (mem 4) (addrAt mem 12) dag (ntohs (mem 6) (mem 7)) src [] reads)
  | oversized (reads : List Nat) (joins : Joins iface mem len)
      (exceeds : sizeofPrefix < (bitsToBytes (mem 30)).toNat) :
      DioCase env iface mem len src ⟨iface, [], reads, some .overrun⟩
  | fails (reads : List Nat) (fault : Option Fault) (kind : fault = none ∨ fault = some .dangling)
      (joins : Joins iface mem len) (inside : (bitsToBytes (mem 30)).toNat ≤ sizeofPrefix) :
      DioCase env iface mem len src ⟨iface, [], reads, fault⟩
  | joined (dag : Dag) (pfx : In6Addr) (reads : List Nat) (joins : Joins iface mem len)
      (inside : (bitsToBytes (mem 30)).toNat ≤ sizeofPrefix)
      (fresh : dag =
        freshDag iface (mem 4) (addrAt mem 12) defaultTickleT 0xffff (mem 5) ⟨pfx, mem 30⟩) :
      DioCase env iface mem len src
        (processDioRank env (withDag iface (mem 4) dag) (mem 4) (addrAt mem 12) dag
          (ntohs (mem 6) (mem 7)) src (dagInitTimer dag) reads)

theorem processDio_case (env : Env) (iface : Iface) (mem : Nat → UInt8) (len : Nat) (src : In6Addr) :
    DioCase env iface mem len src (processDio env iface mem len src) := by
  by_cases short : len < sizeofDio
  · simp only [processDio, short, if_true]
    exact .drops _ (fun joins => by have length := joins.length; omega) (by omega)
  simp only [processDio, short, if_false]
  cases found : dagLookup iface (mem 4) (addrAt mem 12) with
  | some dag =>
      simp only
      split
      · rename_i root
        refine .drops _ (fun joins => by simp [joins.missing] at found) ?_
        intro _ other otherFound
        rw [found, Option.some.injEq] at otherFound
        rw [← otherFound]
        exact root
      · rename_i notRoot
        exact .known dag _ (by omega) found notRoot
  | none =>
      have notKnown : sizeofDio ≤ len → ∀ dag, dagLookup iface (mem 4) (addrAt mem 12) = some dag →
          dag.myRank = 1 := by simp [found]
      simp only
      split
      · exact .drops _ (fun joins => by have length := joins.length; omega) notKnown
      split
      · rename_i kind
        exact .drops _ (fun joins => kind joins.option) notKnown
      split
      · exact .drops _ (fun joins => by have length := joins.length; omega) notKnown
      rename_i noHead kind noPrefix
      have joins : Joins iface mem len := ⟨by omega, by simpa using kind, found⟩
      split
      · rename_i exceeds
        exact .oversized _ joins exceeds
      · rename_i inside
        rcases dagCreate_cases env found defaultTickleT 0xffff (mem 5) _ with made | ⟨none, same, quiet⟩
        · rw [made]
          exact .joined _ _ _ joins (by omega) rfl
        · rw [none, same, quiet]
          refine .fails _ _ ?_ joins (by omega)
          split
          · exact Or.inr rfl
          · exact Or.inl rfl

theorem Dag.hears_frame (env : Env) (dag : Dag) (rank : UInt16) (src : In6Addr) :
    (dag.hears env rank src).dag.advert = dag.advert ∧ (dag.hears env rank src).dag.childs = dag.childs := by
  by_cases available : HasParent env dag
  · have advert : (dagProcessDio env (dag.ranked rank src)).1.advert = dag.advert :=
      dagProcessDio_advert env (dag.ranked rank src)
    have childs : (dagProcessDio env (dag.ranked rank src)).1.childs = dag.childs :=
      dagProcessDio_childs env (dag.ranked rank src)
    rcases Dag.hears_cases available rank src with ⟨_, refused⟩ | ⟨_, _, exited⟩ | ⟨_, _, accepted⟩
    · rw [refused]
      exact ⟨rfl, rfl⟩
    · rw [exited]
      exact ⟨advert, childs⟩
    · rw [accepted]
      refine ⟨(afterDao_advert env _).trans advert, ?_⟩
      rw [Dag.afterDao_eq]
      exact childs
  · rw [Dag.hears_without available]
    exact ⟨rfl, rfl⟩

theorem processDao_cases (env : Env) (iface : Iface) (mem : Nat → UInt8) (len : Nat) (src : In6Addr) :
    (processDao env iface mem len src).fault = none ∧
      ((processDao env iface mem len src).iface = iface ∨
        ∃ dag, dagLookup iface (mem 4) (addrAt mem 8) = some dag ∧
          (processDao env iface mem len src).iface = dagWrite iface (mem 4) (addrAt mem 8) fun _ =>
            (daoOptions env mem src (len - sizeofDao)
              ⟨24, ((len - sizeofDao : Nat) : Int), dag, 4 :: addrReads 8⟩).1.dag) := by
  by_cases short : len < sizeofDao
  · simp [processDao, short, dropped]
  · simp only [processDao, short, if_false]
    cases found : dagLookup iface (mem 4) (addrAt mem 8) with
    | none => exact ⟨rfl, Or.inl rfl⟩
    | some dag =>
        simp only [sendDaoAck_ok]
        split <;> exact ⟨rfl, Or.inr ⟨dag, rfl, rfl⟩⟩

theorem processDao_follows (env : Env) (iface : Iface) (mem : Nat → UInt8) (len : Nat) (src : In6Addr) :
    Follows made iface (processDao env iface mem len src).iface := by
  rcases (processDao_cases env iface mem len src).2 with same | ⟨dag, found, walked⟩
  · rw [same]
    exact follows_refl iface
  · rw [walked]
    exact follows_dagWrite found (daoOptions_advert _ _ _ _ _)

theorem processDaoack_iface (iface : Iface) (mem : Nat → UInt8) (len : Nat) :
    (processDaoack iface mem len).iface = iface := by
  unfold processDaoack
  split
  · rfl
  · split
    · rfl
    · split <;> rfl

theorem withDag_follows {made : Advert → Prop} {iface : Iface} {instanceId : UInt8} {dag : Dag}
    (missing : dagLookup iface instanceId dag.dodagid = none)
    (heads : dag.iface = iface.toIfaceHead ∧ dag.rpl = ⟨instanceId⟩) (kind : made dag.advert) {after : Iface}
    (head : after.toIfaceHead = iface.toIfaceHead)
    (same : after.adverts = (withDag iface instanceId dag).adverts) : Follows made iface after :=
  ⟨head, Or.inr ⟨instanceId, dag, missing, heads.1, heads.2, kind, same⟩⟩

theorem processDio_follows (env : Env) (iface : Iface) (mem : Nat → UInt8) (len : Nat) (src : In6Addr) :
    Follows (fun advert => advert.dest.len.toNat ≤ 128) iface (processDio env iface mem len src).iface := by
  have way := processDio_case env iface mem len src
  generalize processDio env iface mem len src = out at way
  cases way with
  | drops => exact follows_refl iface
  | oversized => exact follows_refl iface
  | fails => exact follows_refl iface
  | known dag reads _ found =>
      rw [processDioRank_hears (Or.inr found)]
      exact follows_dagWrite found (Dag.hears_frame env dag _ src).1
  | joined dag pfx reads joins inside fresh =>
      have valid : dag.advert.dest.len.toNat ≤ 128 := by
        rw [fresh]
        exact (bitsToBytes_le_sixteen (mem 30)).mp inside
      have key : dag.dodagid = addrAt mem 12 := by rw [fresh]; rfl
      have heads : dag.iface = iface.toIfaceHead ∧ dag.rpl = ⟨mem 4⟩ := by rw [fresh]; exact ⟨rfl, rfl⟩
      have missing : dagLookup iface (mem 4) dag.dodagid = none := by rw [key]; exact joins.missing
      have linked := dagLookup_withDag joins.missing key
      rw [processDioRank_hears (Or.inr linked)]
      exact withDag_follows missing heads valid (withDag_head _)
        (dagWrite_adverts linked (Dag.hears_frame env dag _ src).1)

theorem processDis_follows (env : Env) (iface : Iface) :
    Follows made iface (processDis env iface).iface :=
  ⟨rfl, Or.inl (sendDioRpls_adverts env iface.rpls)⟩

theorem processIface_follows (env : Env) (iface : Iface) (mem : Nat → UInt8) (len : Nat) (src : In6Addr) :
    Follows (fun advert => advert.dest.len.toNat ≤ 128) iface
      (processIface env iface mem len src).iface := by
  unfold processIface
  split
  · exact follows_refl iface
  · simp only
    split
    · exact processDis_follows env iface
    split
    · exact processDio_follows env iface mem len src
    split
    · exact processDao_follows env iface mem len src
    split
    · rw [processDaoack_iface]
      exact follows_refl iface
    · exact follows_refl iface

end

/-! Steps of the daemon. -/

/-- A step rewrites at most one interface, as `process` or a timer does. -/
theorem Daemon.step_change {related : Iface → Iface → Prop} (refl : ∀ iface, related iface iface)
    (packets : ∀ env iface mem len src, related iface (processIface env iface mem len src).iface)
    (timers : ∀ env iface instanceId dodagid dag sent dio, dagLookup iface instanceId dodagid = some dag →
      sendDio env dag = .ok (sent, dio) → related iface (dagWrite iface instanceId dodagid fun _ => sent))
    (daemon : Daemon) (event : Event) :
    ∃ accept change, (daemon.step event).ifaces = updateFirst accept change daemon.ifaces ∧
      ∀ iface, daemon.ifaces.find? accept = some iface → related iface (change iface) := by
  have unchanged : ∃ accept change, daemon.ifaces = updateFirst accept change daemon.ifaces ∧
      ∀ iface, daemon.ifaces.find? accept = some iface → related iface (change iface) :=
    ⟨fun _ => false, id, by rw [updateFirst_of_find?_eq_none]; simp, fun iface _ => refl iface⟩
  unfold Daemon.step
  cases daemon.fault with
  | some fault => exact unchanged
  | none =>
      cases event with
      | packet env pkt =>
          simp only [Daemon.packet, process]
          split
          · exact unchanged
          · split
            · exact unchanged
            · rename_i iface found
              refine ⟨_, _, rfl, ?_⟩
              intro other otherFound
              rw [show daemon.ifaces.find? (·.ifindex == pkt.ifindex) = some iface from found] at otherFound
              simp only [Option.some.injEq] at otherFound
              subst otherFound
              exact packets _ _ _ _ _
      | trickle env watcher =>
          simp only [Daemon.trickle]
          split
          · exact unchanged
          · rename_i iface found
            split
            · exact unchanged
            · rename_i dag dagFound
              split
              · exact unchanged
              · rename_i sent dio answered
                refine ⟨_, _, rfl, ?_⟩
                intro other otherFound
                rw [show daemon.ifaces.find? (·.ptr == watcher.iface) = some iface from found] at otherFound
                simp only [Option.some.injEq] at otherFound
                subst otherFound
                exact timers _ _ _ _ _ _ _ dagFound answered
      | dis env ptr =>
          simp only [Daemon.dis]
          split
          · exact unchanged
          · split <;> exact unchanged

theorem Daemon.step_ifaces (daemon : Daemon) (event : Event) :
    ∃ accept change, (daemon.step event).ifaces = updateFirst accept change daemon.ifaces ∧
      ∀ iface, daemon.ifaces.find? accept = some iface →
        Follows (fun advert => advert.dest.len.toNat ≤ 128) iface (change iface) :=
  Daemon.step_change follows_refl processIface_follows
    (fun _ _ _ _ _ _ _ found sent => follows_dagWrite found (sendDio_advert sent)) daemon event

theorem Daemon.run_forall_iface {good : Iface → Prop}
    (keeps : ∀ before after, Follows (fun advert => advert.dest.len.toNat ≤ 128) before after →
      good before → good after)
    {daemon : Daemon} (initial : ∀ iface ∈ daemon.ifaces, good iface) (events : List Event) :
    ∀ iface ∈ (daemon.run events).ifaces, good iface := by
  refine @Runs.foldl_invariant_always _ _ Daemon.step (fun state => ∀ iface ∈ state.ifaces, good iface)
    ?_ events daemon initial
  intro state event holds iface member
  obtain ⟨accept, change, stepped, follows⟩ := state.step_ifaces event
  rw [stepped] at member
  rcases mem_updateFirst member with old | ⟨old, oldMember, found, changed⟩
  · exact holds iface old
  · rw [changed]
    exact keeps old (change old) (follows old found) (holds old oldMember)

/-! What follows for every dag of an interface. -/

def Iface.AllAdverts (iface : Iface) (good : RplHead → Advert → Prop) : Prop :=
  ∀ entry ∈ iface.adverts, ∀ advert ∈ entry.2, good entry.1 advert

theorem allAdverts_iff {iface : Iface} {good : RplHead → Advert → Prop} :
    iface.AllAdverts good ↔ ∀ rpl ∈ iface.rpls, ∀ dag ∈ rpl.dags, good rpl.toRplHead dag.advert := by
  simp [Iface.AllAdverts, Iface.adverts, Rpl.adverts]

theorem withDag_allAdverts {iface : Iface} {instanceId : UInt8} {dag : Dag}
    {good : RplHead → Advert → Prop} (all : iface.AllAdverts good) (new : good ⟨instanceId⟩ dag.advert) :
    (withDag iface instanceId dag).AllAdverts good := by
  rw [allAdverts_iff] at all ⊢
  have dags : iface.AllDags fun rpl dag => good rpl dag.advert := all
  exact withDag_allDags dags new

theorem follows_allAdverts {made : Advert → Prop} {good : RplHead → Advert → Prop} {before after : Iface}
    (follows : Follows made before after)
    (new : ∀ rpl advert, advert.iface = before.toIfaceHead → advert.rpl = rpl → made advert →
      good rpl advert)
    (all : before.AllAdverts good) : after.AllAdverts good := by
  rcases follows.adverts with same | ⟨instanceId, dag, _, onIface, inRpl, kind, same⟩
  · unfold Iface.AllAdverts
    rw [same]
    exact all
  · unfold Iface.AllAdverts
    rw [same]
    exact withDag_allAdverts all (new _ _ onIface inRpl kind)

theorem backRefs_iff {iface : Iface} :
    iface.BackRefs ↔
      iface.AllAdverts fun rpl advert => advert.iface = iface.toIfaceHead ∧ advert.rpl = rpl := by
  rw [allAdverts_iff]
  rfl

theorem follows_backRefs {made : Advert → Prop} {before after : Iface} (follows : Follows made before after)
    (refs : before.BackRefs) : after.BackRefs := by
  rw [backRefs_iff] at refs ⊢
  rw [follows.head]
  exact follows_allAdverts follows (fun _ _ onIface inRpl _ => ⟨onIface, inRpl⟩) refs

theorem Daemon.run_backRefs {daemon : Daemon} (initial : ∀ iface ∈ daemon.ifaces, iface.BackRefs)
    (events : List Event) : ∀ iface ∈ (daemon.run events).ifaces, iface.BackRefs :=
  Daemon.run_forall_iface (fun _ _ follows refs => follows_backRefs follows refs) initial events

end Rpld
