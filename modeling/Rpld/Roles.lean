import Rpld.SlotRuns

/-!
The two roles of a dag. No field tells a root from a member: `process_dio` takes a dag of
rank 1 for a root and computes the rank of every other from the 16 bits a DIO carries.
-/

namespace Rpld

open Memory FirstMatch Runs

/-! Messages by their bytes. -/

def Effect.bytes : Effect → List UInt8
  | .sendmsg _ _ _ bytes => bytes
  | _ => []

/-- The ICMPv6 code of a message, which tells the four kinds of RPL message apart. -/
def Effect.code (effect : Effect) : Option UInt8 := effect.bytes[1]?

def Effect.dioRank (effect : Effect) : UInt16 := ntohs (effect.bytes.getD 6 0) (effect.bytes.getD 7 0)

theorem dioMessage_code (dag : Dag) : dag.dioMessage.code = some ndRplDagIo := rfl

theorem dioMessage_rank (dag : Dag) : dag.dioMessage.dioRank = dag.myRank := ntohs_htons dag.myRank

theorem dioMessage_carriesDio {dag : Dag} (valid : dag.dest.len.toNat ≤ 128) :
    CarriesDio (overlay dag.dioMessage.bytes fun _ => 0) dag.dioMessage.bytes.length dag :=
  carriesDio_of_bytes (slice_overlay dag.dioBytes fun _ => 0) valid

theorem code_of_bytes {effect : Effect} (none : effect.bytes = []) (code : UInt8) : effect.code ≠ some code := by
  simp [Effect.code, none]

theorem childRoutes_bytes {dag : Dag} {effect : Effect} (member : effect ∈ childRoutes dag) :
    effect.bytes = [] ∧ ∃ dst via, effect = .nlAddRouteVia dag.iface.ifindex dst via := by
  obtain ⟨child, _, rfl⟩ := List.mem_map.mp member
  exact ⟨rfl, child.addr, child.fromAddr, rfl⟩

theorem dagInitTimer_bytes {dag : Dag} {effect : Effect} (member : effect ∈ dagInitTimer dag) :
    effect.bytes = [] := by
  simp only [dagInitTimer, List.mem_cons, List.not_mem_nil, or_false] at member
  rcases member with rfl | rfl <;> rfl

theorem dagProcessDio_bytes {env : Env} {dag : Dag} {effect : Effect} (member : effect ∈ (dagProcessDio env dag).2) :
    effect.bytes = [] := by
  rcases dagProcessDio_effects member with ⟨addr, rfl⟩ | rfl
  · rfl
  · rfl

theorem hears_code {env : Env} {dag : Dag} {rank : UInt16} {src : In6Addr} {effect : Effect}
    (member : effect ∈ (dag.hears env rank src).effects) : effect.code ≠ some ndRplDagIo := by
  by_cases available : HasParent env dag
  · rcases Dag.hears_cases available rank src with ⟨_, heard⟩ | ⟨_, _, heard⟩ | ⟨_, _, heard⟩
    · simp [heard] at member
    · rw [heard] at member
      exact code_of_bytes (dagProcessDio_bytes member) _
    · simp only [heard, List.mem_append, List.mem_singleton] at member
      rcases member with request | dao
      · exact code_of_bytes (dagProcessDio_bytes request) _
      · have code : effect.code = some ndRplDao := by rw [dao]; rfl
        rw [code]
        decide
  · simp [Dag.hears_without available] at member

theorem reaction_dio {key : SlotKey} {event : Event} {slot : Option Dag} {effect : Effect}
    (member : effect ∈ (event.reaction key slot).effects) (dio : effect.code = some ndRplDagIo) :
    ∃ dag, slot = some dag ∧ effect = dag.dioMessage := by
  have way := reaction_case key event slot
  generalize event.reaction key slot = reaction at way member
  cases way with
  | idle => simp [idle] at member
  | stops => simp at member
  | sends dag => exact ⟨dag, rfl, by simpa using member⟩
  | heard dag env mem src => exact absurd dio (hears_code (by simpa [Dag.reacts] using member))
  | joined env mem src =>
      simp only [Dag.reacts, List.mem_append] at member
      rcases member with timer | request
      · exact absurd dio (code_of_bytes (dagInitTimer_bytes timer) _)
      · exact absurd dio (hears_code request)
  | registers dag src targets effects answer =>
      rcases answer with none | all
      · simp [none] at member
      · simp only [all, List.mem_append, List.mem_singleton] at member
        rcases member with route | ack
        · exact absurd dio (code_of_bytes (childRoutes_bytes route).1 _)
        · have code : effect.code = some ndRplDaoAck := by rw [ack]; rfl
          rw [code] at dio
          exact absurd dio (by decide)
  | acknowledged dag =>
      simp only [slotDaoack, List.mem_map, Option.mem_toList] at member
      obtain ⟨parent, _, rfl⟩ := member
      simp [Effect.code, Effect.bytes] at dio

theorem Daemon.made_dio {daemon : Daemon} {key : SlotKey} (sound : daemon.Sound) (known : daemon.Knows key)
    {event : Event} {effect : Effect} (member : effect ∈ daemon.made key event)
    (dio : effect.code = some ndRplDagIo) : ∃ dag, daemon.slot key = some dag ∧ effect = dag.dioMessage :=
  reaction_dio ((Daemon.step_slot_any sound known event).2 effect member) dio

/-! Roots. -/

structure Dag.RootOf (configured dag : Dag) : Prop where
  myRank : dag.myRank = 1
  parent : dag.parent = none
  self : dag.self = configured.self
  dsn : dag.dsn = configured.dsn
  advert : dag.advert = configured.advert

/-- What may be sent and requested for a root: no DAO, no default route, and as DIOs only
those with rank 1 and the configured version and prefix. -/
structure Effect.ForRoot (configured : Dag) (effect : Effect) : Prop where
  notDao : effect.code ≠ some ndRplDao
  notDefault : ∀ ifindex via, effect ≠ .nlAddRouteDefault ifindex via
  dio : effect.code = some ndRplDagIo →
    CarriesDio (overlay effect.bytes fun _ => 0) effect.bytes.length configured ∧ effect.dioRank = 1

theorem dioMessage_forRoot {configured dag : Dag} (rank : configured.myRank = 1) (root : configured.RootOf dag)
    (valid : dag.dest.len.toNat ≤ 128) : dag.dioMessage.ForRoot configured := by
  refine ⟨by rw [dioMessage_code]; decide, by simp [Dag.dioMessage], ?_⟩
  intro _
  have carries := dioMessage_carriesDio valid
  have same := root.advert
  simp only [Dag.advert, Advert.mk.injEq] at same
  obtain ⟨version, dodagid, dest, _, _, rpl⟩ := same
  refine ⟨⟨carries.type, carries.code, ?_, ?_, ?_, ?_, carries.option, ?_, ?_, ?_⟩, ?_⟩
  · rw [carries.instanceId, rpl]
  · rw [carries.version, version]
  · rw [carries.rank, root.myRank, rank]
  · rw [carries.dodagid, dodagid]
  · rw [carries.prefixlen, dest]
  · rw [← dest]
    exact carries.destination
  · rw [carries.length, dest]
  · rw [dioMessage_rank, root.myRank]

theorem reaction_root {configured dag : Dag} (rank : configured.myRank = 1) (root : configured.RootOf dag)
    (key : SlotKey) (event : Event) :
    let reaction := event.reaction key (some dag)
    (∃ next, reaction.slot = some next ∧ configured.RootOf next) ∧
      ∀ effect ∈ reaction.effects, effect.ForRoot configured := by
  intro reaction
  have way := reaction_case key event (some dag)
  generalize same : event.reaction key (some dag) = found at way
  rw [show reaction = found from same]
  cases way with
  | idle => exact ⟨⟨dag, rfl, root⟩, by simp [idle]⟩
  | stops => exact ⟨⟨dag, rfl, root⟩, by simp⟩
  | sends _ valid =>
      refine ⟨⟨dag.afterDio, rfl, root.myRank, root.parent, root.self, root.dsn, root.advert⟩, ?_⟩
      intro effect member
      rw [List.mem_singleton] at member
      rw [member]
      exact dioMessage_forRoot rank root valid
  | heard _ env mem src notRoot => exact absurd root.myRank notRoot
  | registers _ src targets effects answer =>
      refine ⟨⟨dag.registers src targets, rfl, root.myRank, root.parent, root.self, root.dsn, root.advert⟩, ?_⟩
      intro effect member
      rcases answer with none | all
      · simp [none] at member
      · simp only [all, List.mem_append, List.mem_singleton] at member
        rcases member with route | ack
        · obtain ⟨bytes, dst, via, rfl⟩ := childRoutes_bytes route
          exact ⟨code_of_bytes bytes _, by simp, fun isDio => absurd isDio (code_of_bytes bytes _)⟩
        · have code : effect.code = some ndRplDaoAck := by rw [ack]; rfl
          refine ⟨?_, by simp [ack], ?_⟩
          · rw [code]
            decide
          · rw [code]
            intro isDio
            exact absurd isDio (by decide)
  | acknowledged =>
      refine ⟨⟨dag, rfl, root⟩, ?_⟩
      simp [slotDaoack, root.parent]

section

variable {inetPton : List Char → Option In6Addr} {confs : List IfaceConf} {daemon : Daemon}

/-- In every run from a configuration that loads, whatever is received: a dag that the
configuration created keeps rank 1, no parent, and its address, key, prefix, version and DAO
sequence number; no DAO is sent and no default route requested for it, and every DIO sent
for it carries rank 1 and the configured version and prefix. -/
theorem run_root_stays (booted : Daemon.boot inetPton confs = .ok daemon) {iface : Iface}
    (listed : iface ∈ daemon.ifaces) {rpl : Rpl} (inIface : rpl ∈ iface.rpls) {dag : Dag} (inRpl : dag ∈ rpl.dags)
    (events : List Event) :
    let key : SlotKey := ⟨iface.toIfaceHead, rpl.instanceId, dag.dodagid⟩
    (∃ later, (daemon.run events).slot key = some later ∧ later.myRank = 1 ∧ later.parent = none ∧
      later.self = dag.self ∧ later.self = later.dodagid ∧ later.dodagid = dag.dodagid ∧ later.dest = dag.dest ∧
      later.version = dag.version ∧ later.dsn = dag.dsn) ∧
    ∀ effect ∈ daemon.madeOver key events, effect.ForRoot dag := by
  intro key
  have fixed := boot_over booted
  have configured := boot_configured booted iface listed rpl inIface dag inRpl
  have start : daemon.slot key = some dag := by
    rw [Daemon.slot_of_find fixed.sound listed rfl]
    exact keyed_lookup (fixed.sound.keyed iface listed) inIface inRpl
  have known : key.head ∈ daemon.ifaces.map (·.toIfaceHead) := List.mem_map_of_mem listed
  obtain ⟨⟨later, held, root⟩, allowed⟩ := @Daemon.run_slot _ key known
    (fun slot => ∃ later, slot = some later ∧ dag.RootOf later) (fun effect => effect.ForRoot dag)
    (by
      rintro _ event ⟨later, rfl, root⟩
      exact reaction_root configured.myRank root key event)
    daemon fixed ⟨dag, start, configured.myRank, configured.parent, rfl, rfl, rfl⟩ events
  refine ⟨⟨later, held, root.myRank, root.parent, root.self, ?_, ?_, ?_, ?_, root.dsn⟩, allowed⟩
  · rw [root.self, configured.self]
    exact (congrArg Advert.dodagid root.advert).symm
  · exact congrArg Advert.dodagid root.advert
  · exact congrArg Advert.dest root.advert
  · exact congrArg Advert.version root.advert

end

theorem run_root_stays_foreignDio :
    ∃ daemon, Daemon.boot sampleInetPton [sampleConf "fd00::/64"] = .ok daemon ∧
      ∃ iface ∈ daemon.ifaces, ∃ rpl ∈ iface.rpls, ∃ dag ∈ rpl.dags,
        ∃ later, (daemon.run [.packet .granting foreignDioPacket]).slot
          ⟨iface.toIfaceHead, rpl.instanceId, dag.dodagid⟩ = some later ∧ later.myRank = 1 := by
  obtain ⟨daemon, booted⟩ := boot_sample
  have evaluated : ((Daemon.boot sampleInetPton [sampleConf "fd00::/64"]).toOption.bind fun daemon =>
      daemon.ifaces.head?.bind fun iface => iface.rpls.head?.bind fun rpl =>
        rpl.dags.head?.map fun dag => dag.myRank) = some 1 := by decide
  rw [booted, Except.toOption, Option.bind_some] at evaluated
  obtain ⟨iface, listed, evaluated⟩ := Option.bind_eq_some_iff.mp evaluated
  obtain ⟨rpl, inIface, evaluated⟩ := Option.bind_eq_some_iff.mp evaluated
  obtain ⟨dag, inRpl, _⟩ := Option.map_eq_some_iff.mp evaluated
  have listed := List.mem_of_head? listed
  have inIface := List.mem_of_head? inIface
  have inRpl := List.mem_of_head? inRpl
  obtain ⟨⟨later, held, rank, _⟩, _⟩ :=
    run_root_stays booted listed inIface inRpl [.packet .granting foreignDioPacket]
  exact ⟨daemon, booted, iface, listed, rpl, inIface, dag, inRpl, later, held, rank⟩

end Rpld
