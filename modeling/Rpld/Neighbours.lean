import Rpld.SelfAddress

/-!
Whom the daemon turns to. Whatever arrives, a message goes to all RPL nodes of the link or to
an address that has spoken on the same interface, and so does every route: a DAO and a default
route to the source of a DIO, a DAO-ACK and a route to a child to the source of a DAO.
-/

namespace Rpld

open FirstMatch

/-- Whom a message of RPL was heard from: the index of the interface, the message code and the
source. -/
structure Speaker where
  ifindex : UInt32
  code : UInt8
  src : In6Addr

def Event.speakers : Event → List Speaker
  | .packet _ pkt => if 4 ≤ pkt.len ∧ pkt.mem 0 = ndRplMessage then [⟨pkt.ifindex, pkt.mem 1, pkt.src⟩] else []
  | .trickle _ _ => []
  | .dis _ _ => []

/-- The dag has its parent from a DIO and its next hops from DAOs. -/
structure Dag.Attributed (spoke : UInt8 → In6Addr → Prop) (dag : Dag) : Prop where
  parent : ∀ parent, dag.parent = some parent → spoke ndRplDagIo parent.addr
  childs : ∀ child ∈ dag.childs, spoke ndRplDao child.fromAddr

/-- Whom an effect may name, on an interface on which `spoke` holds of the messages heard. -/
def Effect.Attributed (head : IfaceHead) (spoke : UInt8 → In6Addr → Prop) : Effect → Prop
  | .sendmsg ifindex src dst bytes =>
      ifindex = head.ifindex ∧ src = head.ifaddr ∧
        ((bytes[1]? = some ndRplDagIs ∨ bytes[1]? = some ndRplDagIo) ∧ dst = allRplAddr ∨
          bytes[1]? = some ndRplDao ∧ spoke ndRplDagIo dst ∨ bytes[1]? = some ndRplDaoAck ∧ spoke ndRplDao dst)
  | .nlAddRouteVia ifindex _ via => ifindex = head.ifindex ∧ spoke ndRplDao via
  | .nlAddRouteDefault ifindex via => ifindex = head.ifindex ∧ spoke ndRplDagIo via
  | .nlAddAddr ifindex _ => ifindex = head.ifindex
  | .nlDelRouteVia ifindex _ _ => ifindex = head.ifindex
  | .evTimerInit watcher _ => watcher.iface = head.ptr
  | .evTimerStart watcher => watcher.iface = head.ptr

/-! One dag. -/

section

variable {spoke : UInt8 → In6Addr → Prop} {dag : Dag} {src : In6Addr}

theorem dioMessage_attributed (dag : Dag) : dag.dioMessage.Attributed dag.iface spoke :=
  ⟨rfl, rfl, Or.inl ⟨Or.inr rfl, rfl⟩⟩

theorem dagInitTimer_attributed (dag : Dag) : ∀ effect ∈ dagInitTimer dag, effect.Attributed dag.iface spoke := by
  intro effect member
  simp only [dagInitTimer, List.mem_cons, List.not_mem_nil, or_false] at member
  rcases member with rfl | rfl
  · exact rfl
  · exact rfl

theorem dagProcessDio_attributed (env : Env) (dag : Dag) :
    ∀ effect ∈ (dagProcessDio env dag).2, effect.Attributed dag.iface spoke := by
  intro effect member
  unfold dagProcessDio at member
  split at member
  · simp at member
  · simp only at member
    split at member
    · split at member <;>
      · simp only [List.mem_cons, List.not_mem_nil, or_false] at member
        rcases member with rfl | rfl <;> exact rfl
    · simp only [List.mem_singleton] at member
      rw [member]
      exact rfl

theorem parentOr_attributed (attributed : dag.Attributed spoke) (heard : spoke ndRplDagIo src) :
    spoke ndRplDagIo (dag.parentOr src).addr := by
  unfold Dag.parentOr
  cases held : dag.parent with
  | some parent => exact attributed.parent parent held
  | none => exact heard

theorem hears_attributed (env : Env) (rank : UInt16) (attributed : dag.Attributed spoke) (heard : spoke ndRplDagIo src) :
    (dag.hears env rank src).dag.Attributed spoke ∧
      ∀ effect ∈ (dag.hears env rank src).effects, effect.Attributed dag.iface spoke := by
  by_cases available : HasParent env dag
  · have named := parentOr_attributed attributed heard
    have ranked : (dag.ranked rank src).Attributed spoke := by
      refine ⟨?_, attributed.childs⟩
      intro parent held
      simp only [Dag.ranked, Option.some.injEq] at held
      rw [← held]
      exact named
    have configured : (dagProcessDio env (dag.ranked rank src)).1.Attributed spoke := by
      refine ⟨?_, ?_⟩
      · rw [dagProcessDio_parent]
        exact ranked.parent
      · rw [dagProcessDio_childs]
        exact ranked.childs
    have asked : ∀ effect ∈ (dagProcessDio env (dag.ranked rank src)).2, effect.Attributed dag.iface spoke :=
      dagProcessDio_attributed env (dag.ranked rank src)
    have onIface : (dagProcessDio env (dag.ranked rank src)).1.iface = dag.iface := by
      have advert := congrArg Advert.iface (dagProcessDio_advert env (dag.ranked rank src))
      exact advert
    rcases Dag.hears_cases available rank src with ⟨_, refused⟩ | ⟨_, _, exited⟩ | ⟨_, _, sent⟩
    · rw [refused]
      refine ⟨⟨?_, attributed.childs⟩, by simp⟩
      intro parent held
      simp only [Option.some.injEq] at held
      rw [← held]
      exact named
    · rw [exited]
      exact ⟨configured, asked⟩
    · rw [sent, Dag.afterDao_eq]
      refine ⟨⟨configured.parent, configured.childs⟩, ?_⟩
      intro effect member
      rcases List.mem_append.mp member with request | dao
      · exact asked effect request
      · rw [List.mem_singleton] at dao
        rw [dao, onIface]
        exact ⟨rfl, rfl, Or.inr (Or.inl ⟨rfl, named⟩)⟩
  · rw [Dag.hears_without available]
    exact ⟨attributed, by simp⟩

theorem registers_attributed (attributed : dag.Attributed spoke) (heard : spoke ndRplDao src) (targets : List In6Addr) :
    (dag.registers src targets).Attributed spoke := by
  refine ⟨attributed.parent, ?_⟩
  intro child member
  rcases AddNew.mem_addNews member with old | ⟨target, _, _, rfl⟩
  · exact attributed.childs child old
  · exact heard

end

/-! One interface. -/

theorem dagWrite_allDags {good : RplHead → Dag → Prop} {iface : Iface} {instanceId : UInt8} {dodagid : In6Addr}
    {next : Dag} (all : iface.AllDags good) (new : good ⟨instanceId⟩ next) :
    (dagWrite iface instanceId dodagid fun _ => next).AllDags good := by
  intro rpl member other otherMember
  simp only [dagWrite] at member
  rcases mem_updateFirst member with old | ⟨old, oldMember, oldFound, same⟩
  · exact all rpl old other otherMember
  · subst same
    have accepted := List.find?_some oldFound
    rw [beq_iff_eq] at accepted
    rcases mem_updateFirst otherMember with kept | ⟨before, _, _, changed⟩
    · exact all old oldMember other kept
    · rw [changed]
      rw [← accepted] at new
      exact new

def Iface.Attributed (spoke : UInt8 → In6Addr → Prop) (iface : Iface) : Prop :=
  iface.AllDags fun _ dag => dag.Attributed spoke

/-- What a handler leaves of an interface on which all dags were attributed. -/
structure Outcome.Attributed (out : Outcome) (head : IfaceHead) (spoke : UInt8 → In6Addr → Prop) : Prop where
  iface : out.iface.Attributed spoke
  effects : ∀ effect ∈ out.effects, effect.Attributed head spoke

section

variable {env : Env} {iface : Iface} {mem : Nat → UInt8} {len : Nat} {src : In6Addr} {spoke : UInt8 → In6Addr → Prop}

theorem attributed_quiet (all : iface.Attributed spoke) {out : Outcome} (same : out.iface = iface) (quiet : out.effects = []) :
    out.Attributed iface.toIfaceHead spoke :=
  ⟨by rw [same]; exact all, by rw [quiet]; simp⟩

theorem processDis_attributed (refs : iface.BackRefs) (all : iface.Attributed spoke) :
    (processDis env iface).Attributed iface.toIfaceHead spoke := by
  obtain ⟨sent, left, split, answered⟩ := sendDioRpls_answered env iface.rpls
  have attributed : ∀ dag ∈ sent ++ left, dag.Attributed spoke := by
    intro dag member
    rw [← split, List.mem_flatMap] at member
    obtain ⟨rpl, inIface, inRpl⟩ := member
    exact all rpl inIface dag inRpl
  refine ⟨?_, ?_⟩
  · intro rpl inIface dag inRpl
    have member : dag ∈ (sendDioRpls env iface.rpls).1.flatMap (·.dags) := List.mem_flatMap.mpr ⟨rpl, inIface, inRpl⟩
    rw [answered.after] at member
    rcases List.mem_append.mp member with bumped | kept
    · obtain ⟨old, oldMember, rfl⟩ := List.mem_map.mp bumped
      have before := attributed old (List.mem_append_left _ oldMember)
      exact ⟨before.parent, before.childs⟩
    · exact attributed dag (List.mem_append_right _ kept)
  · intro effect member
    rw [show (processDis env iface).effects = sent.map Dag.dioMessage from answered.effects] at member
    obtain ⟨dag, dagMember, rfl⟩ := List.mem_map.mp member
    have listed : dag ∈ iface.rpls.flatMap (·.dags) := by
      rw [split]
      exact List.mem_append_left _ dagMember
    obtain ⟨rpl, inIface, inRpl⟩ := List.mem_flatMap.mp listed
    rw [← (refs rpl inIface dag inRpl).1]
    exact dioMessage_attributed dag

theorem processDio_attributed (refs : iface.BackRefs) (all : iface.Attributed spoke) (heard : spoke ndRplDagIo src) :
    (processDio env iface mem len src).Attributed iface.toIfaceHead spoke := by
  have way := processDio_case env iface mem len src
  generalize processDio env iface mem len src = out at way
  cases way with
  | drops => exact attributed_quiet all rfl rfl
  | oversized => exact attributed_quiet all rfl rfl
  | fails => exact attributed_quiet all rfl rfl
  | known dag reads _ found =>
      obtain ⟨next, asked⟩ := hears_attributed env (ntohs (mem 6) (mem 7)) (dagLookup_allDags all found) heard
      rw [(dagLookup_backRefs refs found).1] at asked
      rw [processDioRank_hears (Or.inr found)]
      exact ⟨dagWrite_allDags all next, by simpa using asked⟩
  | joined dag pfx reads joins inside fresh =>
      have bare : dag.Attributed spoke := by
        rw [fresh]
        exact ⟨by simp [freshDag, dagInit], by simp [freshDag, dagInit]⟩
      have onIface : dag.iface = iface.toIfaceHead := by
        rw [fresh]
        rfl
      have linked := dagLookup_withDag joins.missing (show dag.dodagid = addrAt mem 12 by rw [fresh]; rfl)
      obtain ⟨next, asked⟩ := hears_attributed env (ntohs (mem 6) (mem 7)) bare heard
      rw [onIface] at asked
      rw [processDioRank_hears (Or.inr linked)]
      refine ⟨dagWrite_allDags (withDag_allDags all bare) next, ?_⟩
      intro effect member
      rcases List.mem_append.mp member with timer | request
      · rw [← onIface]
        exact dagInitTimer_attributed dag effect timer
      · exact asked effect request

theorem processDao_attributed (refs : iface.BackRefs) (all : iface.Attributed spoke) (heard : spoke ndRplDao src) :
    (processDao env iface mem len src).Attributed iface.toIfaceHead spoke := by
  by_cases short : len < sizeofDao
  · simp only [processDao, short, if_true]
    exact attributed_quiet all rfl rfl
  cases found : dagLookup iface (mem 4) (addrAt mem 8) with
  | none =>
      simp only [processDao, short, if_false, found]
      exact attributed_quiet all rfl rfl
  | some dag =>
      obtain ⟨targets, walked⟩ := daoOptions_registers env mem src (len - sizeofDao)
        ⟨24, ((len - sizeofDao : Nat) : Int), dag, 4 :: addrReads 8⟩
      have next := registers_attributed (dagLookup_allDags all found) heard targets
      have onIface : (dag.registers src targets).iface = iface.toIfaceHead := (dagLookup_backRefs refs found).1
      simp only [processDao, short, if_false, found, walked, sendDaoAck_ok]
      split
      · refine ⟨dagWrite_allDags all next, ?_⟩
        intro effect member
        rcases List.mem_append.mp member with route | ack
        · obtain ⟨child, childMember, rfl⟩ := List.mem_map.mp route
          exact ⟨congrArg IfaceHead.ifindex onIface, next.childs child childMember⟩
        · rw [List.mem_singleton] at ack
          rw [ack, onIface]
          exact ⟨rfl, rfl, Or.inr (Or.inr ⟨rfl, heard⟩)⟩
      · exact ⟨dagWrite_allDags all next, by simp⟩

theorem processDaoack_attributed (refs : iface.BackRefs) (all : iface.Attributed spoke) :
    (processDaoack iface mem len).Attributed iface.toIfaceHead spoke := by
  refine ⟨by rw [processDaoack_iface]; exact all, ?_⟩
  intro effect member
  unfold processDaoack at member
  split at member
  · simp [dropped] at member
  · split at member
    · simp [dropped] at member
    · rename_i dag found
      split at member
      · simp [dropped] at member
      · rename_i parent held
        rw [List.mem_singleton] at member
        rw [member]
        have attributed : dag.Attributed spoke := dagLookup_allDags all found
        exact ⟨congrArg IfaceHead.ifindex (dagLookup_backRefs refs found).1, attributed.parent parent held⟩

theorem processIface_attributed (refs : iface.BackRefs) (all : iface.Attributed spoke)
    (heard : mem 0 = ndRplMessage → spoke (mem 1) src) :
    (processIface env iface mem len src).Attributed iface.toIfaceHead spoke := by
  by_cases type : mem 0 = ndRplMessage
  swap
  · rw [processIface, if_pos type]
    exact attributed_quiet all rfl rfl
  have heard := heard type
  obtain ⟨out, way, sameIface, sameEffects, -⟩ := processIface_case env iface mem len src
  have handled : out.Attributed iface.toIfaceHead spoke := by
    cases way with
    | ignored => exact attributed_quiet all rfl rfl
    | dis => exact processDis_attributed refs all
    | dio _ code =>
        rw [code] at heard
        exact processDio_attributed refs all heard
    | dao _ code =>
        rw [code] at heard
        exact processDao_attributed refs all heard
    | daoack => exact processDaoack_attributed refs all
  exact ⟨by rw [sameIface]; exact handled.iface, by rw [sameEffects]; exact handled.effects⟩

end

/-! The daemon. -/

def Spoke (speakers : List Speaker) (ifindex : UInt32) (code : UInt8) (src : In6Addr) : Prop :=
  ⟨ifindex, code, src⟩ ∈ speakers

theorem Dag.Attributed.mono {spoke later : UInt8 → In6Addr → Prop} (more : ∀ code src, spoke code src → later code src)
    {dag : Dag} (attributed : dag.Attributed spoke) : dag.Attributed later :=
  ⟨fun parent held => more _ _ (attributed.parent parent held), fun child member => more _ _ (attributed.childs child member)⟩

theorem Effect.Attributed.mono {spoke later : UInt8 → In6Addr → Prop}
    (more : ∀ code src, spoke code src → later code src) {head : IfaceHead} {effect : Effect}
    (attributed : effect.Attributed head spoke) : effect.Attributed head later := by
  cases effect with
  | sendmsg ifindex src dst bytes =>
      obtain ⟨index, source, multicast | ⟨code, spoken⟩ | ⟨code, spoken⟩⟩ := attributed
      · exact ⟨index, source, Or.inl multicast⟩
      · exact ⟨index, source, Or.inr (Or.inl ⟨code, more _ _ spoken⟩)⟩
      · exact ⟨index, source, Or.inr (Or.inr ⟨code, more _ _ spoken⟩)⟩
  | nlAddRouteVia ifindex dst via => exact ⟨attributed.1, more _ _ attributed.2⟩
  | nlAddRouteDefault ifindex via => exact ⟨attributed.1, more _ _ attributed.2⟩
  | nlAddAddr => exact attributed
  | nlDelRouteVia => exact attributed
  | evTimerInit => exact attributed
  | evTimerStart => exact attributed

structure Daemon.Attributed (heads : List IfaceHead) (speakers : List Speaker) (daemon : Daemon) : Prop where
  fixed : daemon.Over heads
  ifaces : ∀ iface ∈ daemon.ifaces, iface.Attributed (Spoke speakers iface.ifindex)
  log : ∀ effect ∈ daemon.log, ∃ head ∈ heads, effect.Attributed head (Spoke speakers head.ifindex)

section

variable {heads : List IfaceHead} {speakers : List Speaker} {daemon : Daemon}

theorem Daemon.Over.head_mem (fixed : daemon.Over heads) {iface : Iface} (member : iface ∈ daemon.ifaces) :
    iface.toIfaceHead ∈ heads := by
  rw [← fixed.heads]
  exact List.mem_map_of_mem member

theorem Daemon.Attributed.mono (attributed : daemon.Attributed heads speakers) (more : List Speaker) :
    daemon.Attributed heads (speakers ++ more) := by
  have wider (ifindex) : ∀ code src, Spoke speakers ifindex code src → Spoke (speakers ++ more) ifindex code src :=
    fun _ _ => List.mem_append_left more
  refine ⟨attributed.fixed, ?_, ?_⟩
  · intro iface member rpl inIface dag inRpl
    exact (attributed.ifaces iface member rpl inIface dag inRpl).mono (wider iface.ifindex)
  · intro effect member
    obtain ⟨head, known, allowed⟩ := attributed.log effect member
    exact ⟨head, known, allowed.mono (wider head.ifindex)⟩

/-- One interface is rewritten and what was asked for concerns that interface. -/
theorem Daemon.Attributed.change (attributed : daemon.Attributed heads speakers) {next : Daemon} (fixed : next.Over heads)
    {accept : Iface → Bool} {iface changed : Iface} (found : daemon.ifaces.find? accept = some iface)
    (ifaces : next.ifaces = updateFirst accept (fun _ => changed) daemon.ifaces)
    (same : changed.toIfaceHead = iface.toIfaceHead) (all : changed.Attributed (Spoke speakers iface.ifindex))
    {effects : List Effect} (log : next.log = daemon.log ++ effects)
    (asked : ∀ effect ∈ effects, effect.Attributed iface.toIfaceHead (Spoke speakers iface.ifindex)) :
    next.Attributed heads speakers := by
  refine ⟨fixed, ?_, ?_⟩
  · intro other member
    rw [ifaces] at member
    rcases mem_updateFirst member with old | ⟨_, _, _, rfl⟩
    · exact attributed.ifaces other old
    · rw [show other.ifindex = iface.ifindex from congrArg IfaceHead.ifindex same]
      exact all
  · intro effect member
    rw [log] at member
    rcases List.mem_append.mp member with old | new
    · exact attributed.log effect old
    · exact ⟨iface.toIfaceHead, attributed.fixed.head_mem (List.mem_of_find?_eq_some found), asked effect new⟩

theorem Daemon.packet_attributed (attributed : daemon.Attributed heads speakers) (running : daemon.fault = none)
    (env : Env) (pkt : Packet) :
    (daemon.step (.packet env pkt)).Attributed heads (speakers ++ (Event.packet env pkt).speakers) := by
  have before := attributed.mono (Event.packet env pkt).speakers
  by_cases short : pkt.len < 4
  · rw [Daemon.packet_dropped running (Or.inl short)]
    exact before
  cases found : ifaceFindByIfindex daemon.ifaces pkt.ifindex with
  | none =>
      rw [Daemon.packet_dropped running (Or.inr found)]
      exact before
  | some iface =>
      have long : 4 ≤ pkt.len := by omega
      have index := List.find?_some found
      rw [beq_iff_eq] at index
      have member := List.mem_of_find?_eq_some found
      have heard : pkt.mem 0 = ndRplMessage →
          Spoke (speakers ++ (Event.packet env pkt).speakers) iface.ifindex (pkt.mem 1) pkt.src := by
        intro type
        simp [Spoke, Event.speakers, long, type, index]
      have stepped := @Daemon.packet_of_find daemon env pkt iface running long found
      have out := @processIface_attributed env iface pkt.mem (pkt.len - 4) pkt.src _
        (before.fixed.sound.refs iface member) (before.ifaces iface member) heard
      have fixed := Daemon.step_over (.packet env pkt) before.fixed
      refine before.change fixed found (by rw [stepped]) ?_ out.iface (by rw [stepped]) out.effects
      exact (processIface_follows env iface pkt.mem (pkt.len - 4) pkt.src).head

theorem Daemon.trickle_attributed (attributed : daemon.Attributed heads speakers) (running : daemon.fault = none)
    (env : Env) (watcher : WatcherRef) : (daemon.step (.trickle env watcher)).Attributed heads speakers := by
  cases held : daemon.watched watcher with
  | none =>
      rw [Daemon.trickle_none running held]
      exact attributed
  | some dag =>
      by_cases valid : dag.dest.len.toNat ≤ 128
      · obtain ⟨iface, found, looked⟩ := Option.bind_eq_some_iff.mp held
        have member := List.mem_of_find?_eq_some found
        have stepped := @Daemon.trickle_sent daemon env watcher dag running held valid
        have fixed := Daemon.step_over (.trickle env watcher) attributed.fixed
        have kept : dag.Attributed (Spoke speakers iface.ifindex) := dagLookup_allDags (attributed.ifaces iface member) looked
        have sent : dag.afterDio.Attributed (Spoke speakers iface.ifindex) := ⟨kept.parent, kept.childs⟩
        have ifaces : (daemon.step (.trickle env watcher)).ifaces = updateFirst (·.ptr == watcher.iface)
            (fun _ => dagWrite iface watcher.instanceId watcher.dodagid fun _ => dag.afterDio) daemon.ifaces := by
          rw [stepped]
          exact updateFirst_congr found rfl
        refine attributed.change fixed found ifaces rfl (dagWrite_allDags (attributed.ifaces iface member) sent)
          (by rw [stepped]) ?_
        intro effect asked
        rw [List.mem_singleton] at asked
        rw [asked, ← (dagLookup_backRefs (attributed.fixed.sound.refs iface member) looked).1]
        exact dioMessage_attributed dag
      · have fixed := Daemon.step_over (.trickle env watcher) attributed.fixed
        rw [Daemon.trickle_overrun running held (by omega)] at fixed ⊢
        exact ⟨fixed, attributed.ifaces, attributed.log⟩

theorem Daemon.dis_attributed (attributed : daemon.Attributed heads speakers) (running : daemon.fault = none)
    (env : Env) (ptr : Nat) : (daemon.step (.dis env ptr)).Attributed heads speakers := by
  have fixed := Daemon.step_over (.dis env ptr) attributed.fixed
  cases found : ifaceFindByPtr daemon.ifaces ptr with
  | none =>
      have still : daemon.step (.dis env ptr) = daemon := by
        simp only [Daemon.step, running, Daemon.dis, found]
      rw [still]
      exact attributed
  | some iface =>
      refine ⟨fixed, ?_, ?_⟩
      · rw [(Daemon.dis_step running).1]
        exact attributed.ifaces
      · intro effect member
        simp only [Daemon.step, running, Daemon.dis, found, sendDis_ok, List.mem_append, List.mem_singleton] at member
        rcases member with old | new
        · exact attributed.log effect old
        · refine ⟨iface.toIfaceHead, attributed.fixed.head_mem (List.mem_of_find?_eq_some found), ?_⟩
          rw [new]
          exact ⟨rfl, rfl, Or.inl ⟨Or.inl rfl, rfl⟩⟩

theorem Daemon.step_attributed (attributed : daemon.Attributed heads speakers) (event : Event) :
    (daemon.step event).Attributed heads (speakers ++ event.speakers) := by
  cases running : daemon.fault with
  | some fault =>
      have still : daemon.step event = daemon := by simp [Daemon.step, running]
      rw [still]
      exact attributed.mono _
  | none =>
      cases event with
      | packet env pkt => exact Daemon.packet_attributed attributed running env pkt
      | trickle env watcher =>
          simp only [Event.speakers, List.append_nil]
          exact Daemon.trickle_attributed attributed running env watcher
      | dis env ptr =>
          simp only [Event.speakers, List.append_nil]
          exact Daemon.dis_attributed attributed running env ptr

theorem Daemon.run_attributed (attributed : daemon.Attributed heads speakers) (events : List Event) :
    (daemon.run events).Attributed heads (speakers ++ events.flatMap Event.speakers) := by
  induction events generalizing daemon speakers with
  | nil =>
      rw [List.flatMap_nil, List.append_nil]
      exact attributed
  | cons event rest ih =>
      rw [List.flatMap_cons, ← List.append_assoc]
      exact ih (Daemon.step_attributed attributed event)

end

/-! Start. -/

section

variable {inetPton : List Char → Option In6Addr} {confs : List IfaceConf} {daemon : Daemon}

theorem boot_log (booted : Daemon.boot inetPton confs = .ok daemon) :
    ∃ effects, configLoad inetPton confs = .ok (daemon.ifaces, effects) ∧
      daemon.log = effects ++ rpldSetup daemon.ifaces := by
  unfold Daemon.boot at booted
  cases loaded : configLoad inetPton confs with
  | error reason => simp [loaded, Bind.bind, Except.bind] at booted
  | ok both =>
      simp only [loaded, Bind.bind, Except.bind, Pure.pure, Except.pure, Except.ok.injEq] at booted
      rw [← booted]
      exact ⟨both.2, rfl, rfl⟩

theorem configLoad_attributed {ifaces : List Iface} {effects : List Effect} {speakers : List Speaker}
    (accepted : configLoad inetPton confs = .ok (ifaces, effects)) :
    ∀ effect ∈ effects, ∃ iface ∈ ifaces, effect.Attributed iface.toIfaceHead (Spoke speakers iface.ifindex) := by
  have keeps : LoadKeeps inetPton (fun iface own => ∀ effect ∈ own,
      effect.Attributed iface.toIfaceHead (Spoke speakers iface.ifindex)) (fun _ => True) := by
    intro iface instanceId conf dest dodagid own _ _ _ before dag effect member
    have head := @withDag_head iface instanceId dag
    rw [head]
    rcases List.mem_append.mp member with old | new
    · exact before effect old
    · exact dagInitTimer_attributed dag effect new
  intro effect member
  obtain ⟨iface, inIfaces, own, inOwn, held⟩ := (configLoad_keeps keeps (fun head effect none => by simp at none)
    (fun _ _ _ _ => trivial) accepted).2 effect member
  exact ⟨iface, inIfaces, held effect inOwn⟩

theorem boot_attributed (booted : Daemon.boot inetPton confs = .ok daemon) :
    daemon.Attributed (daemon.ifaces.map (·.toIfaceHead)) [] := by
  obtain ⟨effects, loaded, log⟩ := boot_log booted
  refine ⟨boot_over booted, ?_, ?_⟩
  · intro iface member rpl inIface dag inRpl
    have configured := boot_configured booted iface member rpl inIface dag inRpl
    exact ⟨by simp [configured.parent], by simp [configured.childs]⟩
  · intro effect member
    rw [log] at member
    rcases List.mem_append.mp member with load | setup
    · obtain ⟨iface, inIfaces, allowed⟩ := configLoad_attributed loaded effect load
      exact ⟨iface.toIfaceHead, List.mem_map_of_mem inIfaces, allowed⟩
    · simp only [rpldSetup, List.mem_flatMap, List.mem_append] at setup
      obtain ⟨iface, inIfaces, rpl, inIface, dag, inRpl, timer | address⟩ := setup
      · refine ⟨iface.toIfaceHead, List.mem_map_of_mem inIfaces, ?_⟩
        rw [← (boot_backRefs booted iface inIfaces rpl inIface dag inRpl).1]
        exact dagInitTimer_attributed dag effect timer
      · refine ⟨iface.toIfaceHead, List.mem_map_of_mem inIfaces, ?_⟩
        split at address
        · rw [List.mem_singleton] at address
          rw [address]
          exact rfl
        · simp at address

/-- In every run from a configuration that loads, whatever arrives and whatever the system
answers, each message and each request is made on one of the configured interfaces, with its
own link-local address as the source. A DIS or a DIO goes to all RPL nodes; a DAO and a default
route go to an address from which a DIO has come on that interface; a DAO-ACK and the route to
a child go to one from which a DAO has come there. -/
theorem run_turns_to_speakers (booted : Daemon.boot inetPton confs = .ok daemon) (events : List Event) :
    ∀ effect ∈ (daemon.run events).log, ∃ iface ∈ daemon.ifaces,
      effect.Attributed iface.toIfaceHead (Spoke (events.flatMap Event.speakers) iface.ifindex) := by
  intro effect member
  obtain ⟨head, known, allowed⟩ := (Daemon.run_attributed (boot_attributed booted) events).log effect member
  obtain ⟨iface, inIfaces, rfl⟩ := List.mem_map.mp known
  exact ⟨iface, inIfaces, allowed⟩

end

theorem run_turns_to_speakers_foreignDio :
    ∃ daemon, Daemon.boot sampleInetPton [sampleConf "fd00::/64"] = .ok daemon ∧
      ∀ effect ∈ (daemon.run [.packet .granting foreignDioPacket]).log, ∃ iface ∈ daemon.ifaces,
        effect.Attributed iface.toIfaceHead (Spoke [⟨1, ndRplDagIo, linkLocal 9⟩] iface.ifindex) := by
  obtain ⟨daemon, booted⟩ := boot_sample
  exact ⟨daemon, booted, run_turns_to_speakers booted [.packet .granting foreignDioPacket]⟩

end Rpld
