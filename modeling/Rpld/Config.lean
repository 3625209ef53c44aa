import Rpld.ConfigCore
import Rpld.Frames

/-!
What `config_load` leaves in the tables: only dags of rank 1 without parent and
children, each under a key of its own in its instance.
-/

namespace Rpld

section

variable {inetPton : List Char → Option In6Addr}

def configuredDag (iface : Iface) (instanceId : UInt8) (conf : DagConf) (dest : In6Prefix)
    (dodagid : In6Addr) : Dag :=
  { freshDag iface instanceId dodagid (conf.trickleT.getD defaultTickleT) 1
      (conf.version.getD defaultDagVersion) dest with
    self := dodagid }

theorem configLoadDag_ok {iface loaded : Iface} {instanceId : UInt8} {conf : DagConf}
    {effects : List Effect} (accepted : configLoadDag inetPton iface instanceId conf = .ok (loaded, effects)) :
    ∃ dest dodagid, configDest inetPton conf = .ok dest ∧ dagLookup iface instanceId dodagid = none ∧
      loaded = withDag iface instanceId (configuredDag iface instanceId conf dest dodagid) ∧
      effects = dagInitTimer (configuredDag iface instanceId conf dest dodagid) := by
  unfold configLoadDag at accepted
  cases parsed : configDest inetPton conf with
  | error reason => simp [parsed, Bind.bind, Except.bind] at accepted
  | ok dest =>
      cases named : configDodagid inetPton iface conf dest with
      | error reason => simp [parsed, named, Bind.bind, Except.bind] at accepted
      | ok dodagid =>
          simp only [parsed, named, Bind.bind, Except.bind] at accepted
          refine ⟨dest, dodagid, rfl, ?_⟩
          cases missing : dagLookup iface instanceId dodagid with
          | some dag => simp [dagCreate_of_found missing] at accepted
          | none =>
              rcases dagCreate_cases conf.env missing (conf.trickleT.getD defaultTickleT) 1
                (conf.version.getD defaultDagVersion) dest with made | ⟨failed, _⟩
              · simp only [made, Pure.pure, Except.pure, Except.ok.injEq, Prod.mk.injEq] at accepted
                rw [dagWrite_withDag missing rfl] at accepted
                exact ⟨rfl, accepted.1.symm, accepted.2.symm⟩
              · simp [failed] at accepted

/-! The loops, one turn at a time. -/

theorem configLoadDags_cons {iface loaded : Iface} {instanceId : UInt8} {conf : DagConf} {rest : List DagConf}
    {effects : List Effect} (accepted : configLoadDags inetPton iface instanceId (conf :: rest) = .ok (loaded, effects)) :
    ∃ next first others, configLoadDag inetPton iface instanceId conf = .ok (next, first) ∧
      configLoadDags inetPton next instanceId rest = .ok (loaded, others) ∧ effects = first ++ others := by
  simp only [configLoadDags, Bind.bind, Except.bind] at accepted
  cases first : configLoadDag inetPton iface instanceId conf with
  | error reason => simp [first] at accepted
  | ok one =>
      cases others : configLoadDags inetPton one.1 instanceId rest with
      | error reason => simp [first, others] at accepted
      | ok more =>
          simp only [first, others, Pure.pure, Except.pure, Except.ok.injEq, Prod.mk.injEq] at accepted
          exact ⟨one.1, one.2, more.2, rfl, by rw [others, ← accepted.1], accepted.2.symm⟩

theorem configLoadInstances_cons {iface loaded : Iface} {conf : RplConf} {rest : List RplConf} {effects : List Effect}
    (accepted : configLoadInstances inetPton iface (conf :: rest) = .ok (loaded, effects)) :
    ∃ instanceId next first others,
      configLoadDags inetPton iface instanceId (conf.dags.getD []) = .ok (next, first) ∧
      configLoadInstances inetPton next rest = .ok (loaded, others) ∧ effects = first ++ others := by
  unfold configLoadInstances at accepted
  split at accepted
  · rename_i instanceId dags idGiven dagsGiven
    simp only [Bind.bind, Except.bind] at accepted
    cases first : configLoadDags inetPton iface instanceId dags with
    | error reason => simp [first] at accepted
    | ok one =>
        cases others : configLoadInstances inetPton one.1 rest with
        | error reason => simp [first, others] at accepted
        | ok more =>
            simp only [first, others, Pure.pure, Except.pure, Except.ok.injEq, Prod.mk.injEq] at accepted
            exact ⟨instanceId, one.1, one.2, more.2, by rw [dagsGiven, Option.getD_some, first],
              by rw [others, ← accepted.1], accepted.2.symm⟩
  · simp at accepted

/-- The instances an interface is loaded with: only a root reads its `rpls`. -/
def IfaceConf.rplConfs (conf : IfaceConf) : List RplConf :=
  if conf.dodagRoot = some true then conf.rpls.getD [] else []

def IfaceConf.dagConfs (conf : IfaceConf) : List DagConf :=
  if conf.dodagRoot = some true then (conf.rpls.getD []).flatMap fun rpl => rpl.dags.getD [] else []

theorem IfaceConf.dagConfs_eq (conf : IfaceConf) :
    conf.dagConfs = conf.rplConfs.flatMap fun rpl => rpl.dags.getD [] := by
  unfold IfaceConf.dagConfs IfaceConf.rplConfs
  split <;> rfl

/-- The index the kernel gives the interface an entry names. -/
def IfaceConf.index (conf : IfaceConf) : UInt32 := conf.ifindex ((conf.ifname.getD []).take 16)

theorem configLoadIface_ok {ptr : Nat} {conf : IfaceConf} {loaded : Iface} {effects : List Effect}
    (accepted : configLoadIface inetPton ptr conf = .ok (loaded, effects)) :
    ∃ head : IfaceHead, (head.ptr = ptr ∧ head.ifindex = conf.index) ∧
      configLoadInstances inetPton ⟨head, []⟩ conf.rplConfs = .ok (loaded, effects) := by
  unfold configLoadIface at accepted
  split at accepted
  · rename_i ifname _ named _
    simp only at accepted
    split at accepted
    · simp at accepted
    · split at accepted
      · rename_i ifaddr dodagRoot _ rootGiven
        let ifindex := conf.ifindex (ifname.take 16)
        have index : ifindex = conf.index := by rw [IfaceConf.index, named, Option.getD_some]
        refine ⟨⟨ptr, ifindex, conf.llinfo ifindex, ifaddr, dodagRoot⟩, ⟨rfl, index⟩, ?_⟩
        split at accepted
        · rename_i isRoot
          split at accepted
          · simp at accepted
          · rename_i rpls rplsGiven
            simp only [IfaceConf.rplConfs, rootGiven, isRoot, if_true, rplsGiven, Option.getD_some]
            rw [← isRoot]
            exact accepted
        · rename_i notRoot
          have none : conf.rplConfs = [] := by simp [IfaceConf.rplConfs, rootGiven, notRoot]
          rw [none]
          exact accepted
      · simp at accepted
  · simp at accepted

theorem configLoadIfaces_cons {ptr : Nat} {conf : IfaceConf} {rest : List IfaceConf} {ifaces : List Iface}
    {effects : List Effect} (accepted : configLoadIfaces inetPton ptr (conf :: rest) = .ok (ifaces, effects)) :
    ∃ iface others first later, configLoadIface inetPton ptr conf = .ok (iface, first) ∧
      configLoadIfaces inetPton (ptr + 1) rest = .ok (others, later) ∧ ifaces = iface :: others ∧
      effects = first ++ later := by
  simp only [configLoadIfaces, Bind.bind, Except.bind] at accepted
  cases first : configLoadIface inetPton ptr conf with
  | error reason => simp [first] at accepted
  | ok one =>
      cases others : configLoadIfaces inetPton (ptr + 1) rest with
      | error reason => simp [first, others] at accepted
      | ok more =>
          simp only [first, others, Pure.pure, Except.pure, Except.ok.injEq, Prod.mk.injEq] at accepted
          exact ⟨one.1, more.1, one.2, more.2, rfl, rfl, accepted.1.symm, accepted.2.symm⟩

/-- The loading of one entry of `dags` keeps `good`, which relates an interface to what was
requested while it was loaded. -/
def LoadKeeps (inetPton : List Char → Option In6Addr) (good : Iface → List Effect → Prop) (wanted : DagConf → Prop) :
    Prop :=
  ∀ iface instanceId conf dest dodagid effects, wanted conf → configDest inetPton conf = .ok dest →
    dagLookup iface instanceId dodagid = none → good iface effects →
    let dag := configuredDag iface instanceId conf dest dodagid
    good (withDag iface instanceId dag) (effects ++ dagInitTimer dag)

section

variable {good : Iface → List Effect → Prop} {wanted : DagConf → Prop} (keeps : LoadKeeps inetPton good wanted)
include keeps

theorem configLoadDags_keeps {instanceId : UInt8} {confs : List DagConf} (entries : ∀ conf ∈ confs, wanted conf)
    {iface loaded : Iface} {before effects : List Effect} (initial : good iface before)
    (accepted : configLoadDags inetPton iface instanceId confs = .ok (loaded, effects)) :
    good loaded (before ++ effects) := by
  induction confs generalizing iface loaded before effects with
  | nil =>
      simp only [configLoadDags, Except.ok.injEq, Prod.mk.injEq] at accepted
      rw [← accepted.1, ← accepted.2, List.append_nil]
      exact initial
  | cons conf rest ih =>
      rw [List.forall_mem_cons] at entries
      obtain ⟨next, first, others, loads, later, rfl⟩ := configLoadDags_cons accepted
      obtain ⟨dest, dodagid, parsed, missing, rfl, rfl⟩ := configLoadDag_ok loads
      rw [← List.append_assoc]
      exact ih entries.2 (keeps iface instanceId conf dest dodagid before entries.1 parsed missing initial) later

theorem configLoadInstances_keeps {confs : List RplConf}
    (entries : ∀ conf ∈ confs.flatMap fun rpl => rpl.dags.getD [], wanted conf)
    {iface loaded : Iface} {before effects : List Effect} (initial : good iface before)
    (accepted : configLoadInstances inetPton iface confs = .ok (loaded, effects)) :
    good loaded (before ++ effects) := by
  induction confs generalizing iface loaded before effects with
  | nil =>
      simp only [configLoadInstances, Except.ok.injEq, Prod.mk.injEq] at accepted
      rw [← accepted.1, ← accepted.2, List.append_nil]
      exact initial
  | cons conf rest ih =>
      rw [List.flatMap_cons, List.forall_mem_append] at entries
      obtain ⟨instanceId, next, first, others, loads, later, rfl⟩ := configLoadInstances_cons accepted
      rw [← List.append_assoc]
      exact ih entries.2 (configLoadDags_keeps keeps entries.1 initial loads) later

theorem configLoadIface_keeps (empty : ∀ head, good ⟨head, []⟩ []) {ptr : Nat} {conf : IfaceConf}
    (entries : ∀ dagConf ∈ conf.dagConfs, wanted dagConf) {loaded : Iface} {effects : List Effect}
    (accepted : configLoadIface inetPton ptr conf = .ok (loaded, effects)) : good loaded effects := by
  obtain ⟨head, _, loads⟩ := configLoadIface_ok accepted
  rw [IfaceConf.dagConfs_eq] at entries
  exact configLoadInstances_keeps keeps entries (empty head) loads

/-- What holds of an empty interface and survives the loading of every entry of `dags`
that is wanted holds of every interface of a configuration of such entries, with its part of
what the configuration requests. -/
theorem configLoad_keeps (empty : ∀ head, good ⟨head, []⟩ []) {confs : List IfaceConf}
    (entries : ∀ conf ∈ confs, ∀ dagConf ∈ conf.dagConfs, wanted dagConf)
    {ifaces : List Iface} {effects : List Effect}
    (accepted : configLoad inetPton confs = .ok (ifaces, effects)) :
    (∀ iface ∈ ifaces, ∃ own, own ⊆ effects ∧ good iface own) ∧
      ∀ effect ∈ effects, ∃ iface ∈ ifaces, ∃ own, effect ∈ own ∧ good iface own := by
  have each : ∀ ptr, configLoadIfaces inetPton ptr confs = .ok (ifaces, effects) →
      (∀ iface ∈ ifaces, ∃ own, own ⊆ effects ∧ good iface own) ∧
        ∀ effect ∈ effects, ∃ iface ∈ ifaces, ∃ own, effect ∈ own ∧ good iface own := by
    clear accepted
    induction confs generalizing ifaces effects with
    | nil =>
        intro ptr accepted
        simp only [configLoadIfaces, Except.ok.injEq, Prod.mk.injEq] at accepted
        rw [← accepted.1, ← accepted.2]
        simp
    | cons conf rest ih =>
        intro ptr accepted
        rw [List.forall_mem_cons] at entries
        obtain ⟨one, more, first, later, loads, others, rfl, rfl⟩ := configLoadIfaces_cons accepted
        have here : good one first := configLoadIface_keeps keeps empty entries.1 loads
        obtain ⟨held, owned⟩ := ih entries.2 (ptr + 1) others
        rw [List.forall_mem_cons, List.forall_mem_append]
        refine ⟨⟨⟨first, by simp, here⟩, ?_⟩, ?_, ?_⟩
        · intro iface member
          obtain ⟨own, part, kept⟩ := held iface member
          exact ⟨own, List.subset_append_of_subset_right _ part, kept⟩
        · intro effect member
          exact ⟨one, by simp, first, member, here⟩
        · intro effect member
          obtain ⟨iface, inRest, own, inOwn, kept⟩ := owned effect member
          exact ⟨iface, by simp [inRest], own, inOwn, kept⟩
  exact each 0 accepted

end

theorem configLoad_forall {good : Iface → Prop} {wanted : DagConf → Prop} (empty : ∀ head, good ⟨head, []⟩)
    (grows : ∀ iface instanceId conf dest dodagid, wanted conf → configDest inetPton conf = .ok dest →
      dagLookup iface instanceId dodagid = none → good iface →
      good (withDag iface instanceId (configuredDag iface instanceId conf dest dodagid)))
    {confs : List IfaceConf} (entries : ∀ conf ∈ confs, ∀ dagConf ∈ conf.dagConfs, wanted dagConf)
    {ifaces : List Iface} {effects : List Effect}
    (accepted : configLoad inetPton confs = .ok (ifaces, effects)) : ∀ iface ∈ ifaces, good iface := by
  have keeps : LoadKeeps inetPton (fun iface _ => good iface) wanted := by
    intro iface instanceId conf dest dodagid _ required parsed missing before
    exact grows iface instanceId conf dest dodagid required parsed missing before
  intro iface member
  obtain ⟨_, _, held⟩ := (configLoad_keeps keeps empty entries accepted).1 iface member
  exact held

theorem boot_ifaces {confs : List IfaceConf} {daemon : Daemon}
    (booted : Daemon.boot inetPton confs = .ok daemon) :
    daemon.fault = none ∧ ∃ effects, configLoad inetPton confs = .ok (daemon.ifaces, effects) := by
  unfold Daemon.boot at booted
  cases loaded : configLoad inetPton confs with
  | error reason => simp [loaded, Bind.bind, Except.bind] at booted
  | ok both =>
      simp only [loaded, Bind.bind, Except.bind, Pure.pure, Except.pure, Except.ok.injEq] at booted
      rw [← booted]
      exact ⟨rfl, both.2, rfl⟩

/-- A dag as `config_load` leaves it. -/
structure Dag.Configured (dag : Dag) : Prop where
  myRank : dag.myRank = 1
  parent : dag.parent = none
  childs : dag.childs = []
  self : dag.self = dag.dodagid

theorem boot_configured {confs : List IfaceConf} {daemon : Daemon}
    (booted : Daemon.boot inetPton confs = .ok daemon) :
    ∀ iface ∈ daemon.ifaces, iface.AllDags fun _ dag => dag.Configured := by
  obtain ⟨_, effects, loaded⟩ := boot_ifaces booted
  refine @configLoad_forall inetPton (fun iface => iface.AllDags fun _ dag => dag.Configured) (fun _ => True)
    ?_ ?_ confs (fun _ _ _ _ => trivial) daemon.ifaces effects loaded
  · intro head rpl member
    simp at member
  · intro iface instanceId conf dest dodagid _ _ _ all
    exact withDag_allDags all ⟨rfl, rfl, rfl, rfl⟩

theorem boot_backRefs {confs : List IfaceConf} {daemon : Daemon}
    (booted : Daemon.boot inetPton confs = .ok daemon) : ∀ iface ∈ daemon.ifaces, iface.BackRefs := by
  obtain ⟨_, effects, loaded⟩ := boot_ifaces booted
  refine @configLoad_forall inetPton Iface.BackRefs (fun _ => True) ?_ ?_ confs (fun _ _ _ _ => trivial)
    daemon.ifaces effects loaded
  · intro head rpl member
    simp at member
  · intro iface instanceId conf dest dodagid _ _ _ refs
    exact withDag_backRefs refs ⟨rfl, rfl⟩

end

end Rpld
