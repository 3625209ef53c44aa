import Rpld.Lib.Growth
import Rpld.DestLength

/-!
The tables over whole runs. No list of the program enforces that its keys are distinct; the
lookups in front of every insertion do. Instances, dags and children are only ever appended,
and what is in a list stays at its place.
-/

namespace Rpld

open FirstMatch Growth AddNew

/-! Distinct keys. -/

/-- Every instance and every dag of the interface is the one a lookup finds, and no instance
is empty. -/
structure Iface.Keyed (iface : Iface) : Prop where
  instances : (iface.rpls.map (·.instanceId)).Nodup
  inhabited : ∀ rpl ∈ iface.rpls, rpl.dags ≠ []
  dodags : ∀ rpl ∈ iface.rpls, (rpl.dags.map (·.dodagid)).Nodup

theorem keyed_empty (head : IfaceHead) : (Iface.mk head []).Keyed := ⟨by simp, by simp, by simp⟩

theorem keyed_of_adverts {before after : Iface} (same : after.adverts = before.adverts) (keyed : before.Keyed) :
    after.Keyed := by
  have entry : ∀ rpl ∈ after.rpls, ∃ old ∈ before.rpls, old.adverts = rpl.adverts := by
    intro rpl member
    have listed : rpl.adverts ∈ after.adverts := List.mem_map_of_mem member
    rw [same] at listed
    exact List.mem_map.mp listed
  refine ⟨?_, ?_, ?_⟩
  · have heads : ∀ iface : Iface, iface.rpls.map (·.instanceId) = iface.adverts.map (·.1.instanceId) := by
      intro iface
      simp [Iface.adverts, Rpl.adverts, Function.comp_def]
    rw [heads, same, ← heads]
    exact keyed.instances
  · intro rpl member
    obtain ⟨old, oldMember, equal⟩ := entry rpl member
    have sizes := congrArg (fun view => view.2.length) equal
    simp only [Rpl.adverts, List.length_map] at sizes
    have some := keyed.inhabited old oldMember
    rw [← List.length_pos_iff] at some ⊢
    omega
  · intro rpl member
    obtain ⟨old, oldMember, equal⟩ := entry rpl member
    have ids := congrArg (fun view => view.2.map Advert.dodagid) equal
    simp only [Rpl.adverts, List.map_map] at ids
    have distinct := keyed.dodags old oldMember
    rw [show old.dags.map (·.dodagid) = rpl.dags.map (·.dodagid) from ids] at distinct
    exact distinct

section

variable {iface : Iface} {instanceId : UInt8} {dodagid : In6Addr} {dag : Dag}

theorem withDag_of_new (missing : dagLookupRpl iface instanceId = none) :
    withDag iface instanceId dag = { iface with rpls := iface.rpls ++ [⟨⟨instanceId⟩, [dag]⟩] } := by
  simp only [withDag, missing, dagAppend, rplAppend]
  rw [updateFirst_append missing (by simp)]
  rfl

theorem withDag_keyed (keyed : iface.Keyed) (missing : dagLookup iface instanceId dag.dodagid = none) :
    (withDag iface instanceId dag).Keyed := by
  cases linked : dagLookupRpl iface instanceId with
  | none =>
      have newId : instanceId ∉ iface.rpls.map (·.instanceId) := by
        simpa [dagLookupRpl, List.find?_eq_none] using linked
      rw [withDag_of_new linked]
      refine ⟨?_, ?_, ?_⟩
      · simpa using nodup_concat keyed.instances newId
      · intro rpl member
        rcases List.mem_append.mp member with old | added
        · exact keyed.inhabited rpl old
        · rw [List.mem_singleton.mp added]
          simp
      · intro rpl member
        rcases List.mem_append.mp member with old | added
        · exact keyed.dodags rpl old
        · rw [List.mem_singleton.mp added]
          simp
  | some found =>
      have absent : dagLookupDodag found dag.dodagid = none := by simpa [dagLookup, linked] using missing
      have newDag : dag.dodagid ∉ found.dags.map (·.dodagid) := by
        simpa [dagLookupDodag, List.find?_eq_none] using absent
      have grown : withDag iface instanceId dag = dagAppend iface instanceId dag := by simp [withDag, linked]
      rw [grown]
      refine ⟨?_, ?_, ?_⟩
      · rw [dagAppend, map_updateFirst linked rfl]
        exact keyed.instances
      · intro rpl member
        rcases mem_updateFirst member with old | ⟨old, oldMember, _, changed⟩
        · exact keyed.inhabited rpl old
        · rw [changed]
          simp
      · intro rpl member
        rcases mem_updateFirst member with old | ⟨old, oldMember, oldFound, changed⟩
        · exact keyed.dodags rpl old
        · have same : old = found := by
            rw [show iface.rpls.find? (·.instanceId == instanceId) = some found from linked] at oldFound
            simpa using oldFound.symm
          rw [changed, same]
          simpa using nodup_concat (keyed.dodags found (same ▸ oldMember)) newDag

theorem follows_keyed {made : Advert → Prop} {before after : Iface} (follows : Follows made before after)
    (keyed : before.Keyed) : after.Keyed := by
  rcases follows.adverts with same | ⟨instanceId, dag, missing, _, _, _, same⟩
  · exact keyed_of_adverts same keyed
  · exact keyed_of_adverts same (withDag_keyed keyed missing)

theorem keyed_lookup (keyed : iface.Keyed) {rpl : Rpl} (member : rpl ∈ iface.rpls) (dagMember : dag ∈ rpl.dags) :
    dagLookup iface rpl.instanceId dag.dodagid = some dag := by
  have inIface : iface.rpls.find? (·.instanceId == rpl.instanceId) = some rpl :=
    find?_of_nodup keyed.instances member
  have inRpl : rpl.dags.find? (·.dodagid == dag.dodagid) = some dag :=
    find?_of_nodup (keyed.dodags rpl member) dagMember
  rw [dagLookup_eq, inIface, Option.bind_some, inRpl]

end

/-! Growth. -/

/-- A dag keeps what it was created with, and its children are extended at the end by
addresses that are not among them. -/
structure Dag.Extends (before after : Dag) : Prop where
  advert : after.advert = before.advert
  childs : before.childs <+: after.childs
  distinct : (before.childs.map (·.addr)).Nodup → (after.childs.map (·.addr)).Nodup

structure Rpl.Extends (before after : Rpl) : Prop where
  head : after.toRplHead = before.toRplHead
  dags : Grows Dag.Extends (fun dag => dag.childs = []) before.dags after.dags

structure Iface.Extends (before after : Iface) : Prop where
  head : after.toIfaceHead = before.toIfaceHead
  rpls : Grows Rpl.Extends (fun rpl => ∀ dag ∈ rpl.dags, dag.childs = []) before.rpls after.rpls

theorem Dag.extends_of_childs {before after : Dag} (advert : after.advert = before.advert)
    (childs : after.childs = before.childs) : before.Extends after := by
  refine ⟨advert, ⟨[], by rw [List.append_nil, childs]⟩, ?_⟩
  intro distinct
  rw [childs]
  exact distinct

theorem Dag.extends_registers (dag : Dag) (src : In6Addr) (targets : List In6Addr) :
    dag.Extends (dag.registers src targets) := by
  refine ⟨rfl, addNews_extends dag.childs targets, ?_⟩
  intro distinct
  exact addNews_nodup (fun _ => rfl) distinct targets

theorem Dag.extends_refl (dag : Dag) : dag.Extends dag := Dag.extends_of_childs rfl rfl

theorem Rpl.extends_refl (rpl : Rpl) : rpl.Extends rpl := ⟨rfl, grows_refl Dag.extends_refl rpl.dags⟩

theorem Iface.extends_refl (iface : Iface) : iface.Extends iface :=
  ⟨rfl, grows_refl Rpl.extends_refl iface.rpls⟩

section

variable {iface : Iface} {instanceId : UInt8} {dodagid : In6Addr} {dag next : Dag}

theorem dagWrite_extends (found : dagLookup iface instanceId dodagid = some dag) (keeps : dag.Extends next) :
    iface.Extends (dagWrite iface instanceId dodagid fun _ => next) := by
  rw [dagLookup_eq, Option.bind_eq_some_iff] at found
  obtain ⟨rpl, inIface, inRpl⟩ := found
  refine ⟨rfl, grows_updateFirst Rpl.extends_refl ?_⟩
  intro other otherFound
  rw [inIface, Option.some.injEq] at otherFound
  subst otherFound
  refine ⟨rfl, grows_updateFirst Dag.extends_refl ?_⟩
  intro old oldFound
  rw [inRpl, Option.some.injEq] at oldFound
  rw [← oldFound]
  exact keeps

theorem withDag_extends (childs : dag.childs = []) : iface.Extends (withDag iface instanceId dag) := by
  refine ⟨withDag_head dag, ?_⟩
  cases linked : dagLookupRpl iface instanceId with
  | none =>
      rw [withDag_of_new linked]
      exact grows_append Rpl.extends_refl iface.rpls (by simpa using childs)
  | some found =>
      have grown : withDag iface instanceId dag = dagAppend iface instanceId dag := by simp [withDag, linked]
      rw [grown]
      refine grows_updateFirst Rpl.extends_refl ?_
      intro rpl _
      exact ⟨rfl, grows_append Dag.extends_refl rpl.dags childs⟩

end

theorem sendDioDags_extends (env : Env) (dags : List Dag) :
    Grows Dag.Extends (fun dag => dag.childs = []) dags (sendDioDags env dags).1 := by
  induction dags with
  | nil => exact .added (by simp [sendDioDags])
  | cons dag rest ih =>
      simp only [sendDioDags]
      cases sent : sendDio env dag with
      | error fault => exact grows_refl Dag.extends_refl _
      | ok both =>
          refine .kept ?_ ih
          rw [sendDio_dag sent]
          exact Dag.extends_of_childs rfl rfl

theorem sendDioRpls_extends (env : Env) (rpls : List Rpl) :
    Grows Rpl.Extends (fun rpl => ∀ dag ∈ rpl.dags, dag.childs = []) rpls (sendDioRpls env rpls).1 := by
  induction rpls with
  | nil => exact .added (by simp [sendDioRpls])
  | cons rpl rest ih =>
      have here := sendDioDags_extends env rpl.dags
      simp only [sendDioRpls]
      split
      · rename_i dags effects fault answered
        rw [answered] at here
        exact .kept ⟨rfl, here⟩ (grows_refl Rpl.extends_refl rest)
      · rename_i dags effects answered
        rw [answered] at here
        exact .kept ⟨rfl, here⟩ ih

theorem processDio_extends (env : Env) (iface : Iface) (mem : Nat → UInt8) (len : Nat) (src : In6Addr) :
    iface.Extends (processDio env iface mem len src).iface := by
  have way := processDio_case env iface mem len src
  generalize processDio env iface mem len src = out at way
  cases way with
  | drops => exact Iface.extends_refl iface
  | oversized => exact Iface.extends_refl iface
  | fails => exact Iface.extends_refl iface
  | known dag reads _ found =>
      obtain ⟨advert, childs⟩ := Dag.hears_frame env dag (ntohs (mem 6) (mem 7)) src
      rw [processDioRank_hears (Or.inr found)]
      exact dagWrite_extends found (Dag.extends_of_childs advert childs)
  | joined dag pfx reads joins inside fresh =>
      have key : dag.dodagid = addrAt mem 12 := by rw [fresh]; rfl
      obtain ⟨_, childs⟩ := Dag.hears_frame env dag (ntohs (mem 6) (mem 7)) src
      rw [processDioRank_hears (Or.inr (dagLookup_withDag joins.missing key))]
      simp only
      rw [dagWrite_withDag joins.missing key]
      refine withDag_extends ?_
      rw [childs, fresh]
      rfl

theorem processDao_extends (env : Env) (iface : Iface) (mem : Nat → UInt8) (len : Nat) (src : In6Addr) :
    iface.Extends (processDao env iface mem len src).iface := by
  rcases (processDao_cases env iface mem len src).2 with same | ⟨dag, found, walked⟩
  · rw [same]
    exact Iface.extends_refl iface
  · obtain ⟨targets, offered⟩ := daoOptions_registers env mem src (len - sizeofDao)
      ⟨24, ((len - sizeofDao : Nat) : Int), dag, 4 :: addrReads 8⟩
    rw [walked, offered]
    exact dagWrite_extends found (Dag.extends_registers dag src targets)

theorem processIface_extends (env : Env) (iface : Iface) (mem : Nat → UInt8) (len : Nat) (src : In6Addr) :
    iface.Extends (processIface env iface mem len src).iface := by
  unfold processIface
  split
  · exact Iface.extends_refl iface
  · simp only
    split
    · exact ⟨rfl, sendDioRpls_extends env iface.rpls⟩
    split
    · exact processDio_extends env iface mem len src
    split
    · exact processDao_extends env iface mem len src
    split
    · rw [processDaoack_iface]
      exact Iface.extends_refl iface
    · exact Iface.extends_refl iface

theorem Daemon.step_extends (daemon : Daemon) (event : Event) :
    Grows Iface.Extends (fun _ => False) daemon.ifaces (daemon.step event).ifaces := by
  have changes := Daemon.step_change Iface.extends_refl processIface_extends
    (fun _ _ _ _ _ _ _ found sent =>
      dagWrite_extends found (Dag.extends_of_childs (sendDio_advert sent) (by rw [sendDio_dag sent]))) daemon event
  obtain ⟨accept, change, stepped, extended⟩ := changes
  rw [stepped]
  exact grows_updateFirst Iface.extends_refl extended

/-! Whole runs. -/

def Iface.ChildsDistinct (iface : Iface) : Prop :=
  ∀ rpl ∈ iface.rpls, ∀ dag ∈ rpl.dags, (dag.childs.map (·.addr)).Nodup

theorem extends_childsDistinct {before after : Iface} (extended : before.Extends after)
    (distinct : before.ChildsDistinct) : after.ChildsDistinct := by
  have none : ∀ dag : Dag, dag.childs = [] → (dag.childs.map (·.addr)).Nodup := by
    intro dag childs
    simp [childs]
  refine grows_forall ?_ ?_ extended.rpls distinct
  · intro rpl later same old
    exact grows_forall (fun _ _ dag => dag.distinct) none same.dags old
  · intro rpl fresh dag member
    exact none dag (fresh dag member)

structure Daemon.Sound (daemon : Daemon) : Prop where
  ptrs : (daemon.ifaces.map (·.ptr)).Nodup
  keyed : ∀ iface ∈ daemon.ifaces, iface.Keyed
  refs : ∀ iface ∈ daemon.ifaces, iface.BackRefs
  childs : ∀ iface ∈ daemon.ifaces, iface.ChildsDistinct

theorem grows_heads {before after : List Iface} (grows : Grows Iface.Extends (fun _ => False) before after) :
    after.map (·.toIfaceHead) = before.map (·.toIfaceHead) := by
  induction grows with
  | added new =>
      rename_i more
      cases more with
      | nil => rfl
      | cons iface rest => exact absurd (new iface (by simp)) id
  | kept same _ ih => simp [same.head, ih]

theorem Daemon.step_heads (daemon : Daemon) (event : Event) :
    (daemon.step event).ifaces.map (·.toIfaceHead) = daemon.ifaces.map (·.toIfaceHead) :=
  grows_heads (daemon.step_extends event)

theorem Daemon.step_sound {daemon : Daemon} (event : Event) (sound : daemon.Sound) : (daemon.step event).Sound := by
  refine ⟨?_, ?_, ?_, ?_⟩
  · have ptrs : ∀ ifaces : List Iface, ifaces.map (·.ptr) = (ifaces.map (·.toIfaceHead)).map (·.ptr) := by simp
    rw [ptrs, Daemon.step_heads, ← ptrs]
    exact sound.ptrs
  · exact Daemon.run_forall_iface (fun _ _ => follows_keyed) sound.keyed [event]
  · exact Daemon.run_backRefs sound.refs [event]
  · refine grows_forall ?_ ?_ (daemon.step_extends event) sound.childs
    · intro before after extended
      exact extends_childsDistinct extended
    · exact fun _ => False.elim

section

variable {inetPton : List Char → Option In6Addr}

theorem configLoadIface_head {ptr : Nat} {conf : IfaceConf} {loaded : Iface} {effects : List Effect}
    (accepted : configLoadIface inetPton ptr conf = .ok (loaded, effects)) :
    loaded.ptr = ptr ∧ loaded.ifindex = conf.index := by
  obtain ⟨head, same, loads⟩ := configLoadIface_ok accepted
  have kept : loaded.toIfaceHead = head := by
    refine @configLoadInstances_keeps inetPton (fun iface _ => iface.toIfaceHead = head) (fun _ => True) ?_ _
      (by simp) _ loaded [] effects rfl loads
    intro iface instanceId conf dest dodagid _ _ _ _ before
    exact (withDag_head _).trans before
  rw [kept]
  exact same

theorem configLoadIfaces_ptrs {ptr : Nat} {confs : List IfaceConf} {ifaces : List Iface} {effects : List Effect}
    (accepted : configLoadIfaces inetPton ptr confs = .ok (ifaces, effects)) :
    ifaces.map (·.ptr) = List.range' ptr ifaces.length := by
  induction confs generalizing ptr ifaces effects with
  | nil =>
      simp only [configLoadIfaces, Except.ok.injEq, Prod.mk.injEq] at accepted
      rw [← accepted.1]
      rfl
  | cons conf rest ih =>
      obtain ⟨one, more, _, _, loads, others, rfl, _⟩ := configLoadIfaces_cons accepted
      rw [List.map_cons, (configLoadIface_head loads).1, ih others]
      rfl

theorem boot_sound {confs : List IfaceConf} {daemon : Daemon} (booted : Daemon.boot inetPton confs = .ok daemon) :
    daemon.Sound := by
  obtain ⟨_, effects, loaded⟩ := boot_ifaces booted
  refine ⟨?_, ?_, boot_backRefs booted, ?_⟩
  · rw [configLoadIfaces_ptrs loaded]
    exact List.nodup_range'
  · refine @configLoad_forall inetPton Iface.Keyed (fun _ => True) keyed_empty ?_ confs (fun _ _ _ _ => trivial)
      daemon.ifaces effects loaded
    intro iface instanceId conf dest dodagid _ _ missing keyed
    exact withDag_keyed keyed missing
  · intro iface member rpl rplMember dag dagMember
    rw [(boot_configured booted iface member rpl rplMember dag dagMember).childs]
    simp

/-- In every run from a configuration that loads, whatever arrives and whatever the system
answers: on each interface the instances have distinct ids and at least one dag each, the
dags of an instance have distinct dodagids, every dag points back to the instance and the
interface that list it, and the children of a dag have distinct addresses. Each step leaves
all entries of all lists at their places, with their keys and, for a child, its next hop,
and adds new ones behind them. -/
theorem run_tables_sound {confs : List IfaceConf} {daemon : Daemon}
    (booted : Daemon.boot inetPton confs = .ok daemon) (events : List Event) :
    (daemon.run events).Sound ∧
      Runs.AllSteps Daemon.step
        (fun state event => Grows Iface.Extends (fun _ => False) state.ifaces (state.step event).ifaces)
        daemon events := by
  refine ⟨Runs.foldl_invariant_always (fun _ event => Daemon.step_sound event) events (boot_sound booted), ?_⟩
  rw [Runs.allSteps_iff]
  intro before event after _
  exact Daemon.step_extends _ event

end

theorem run_tables_sound_foreignDio :
    ∃ daemon, Daemon.boot sampleInetPton [sampleConf "fd00::/64"] = .ok daemon ∧
      (daemon.run [.packet .granting foreignDioPacket]).Sound := by
  obtain ⟨daemon, booted⟩ := boot_sample
  exact ⟨daemon, booted, (run_tables_sound booted _).1⟩

end Rpld
