import Rpld.Acceptance
import Rpld.MessageSize

/-!
The address a node advertises. `dag_process_dio` sets the self address of a dag once it has
been added to the interface, and returns early wherever a step of that fails; `process_dio`
does not learn of it and sends a DAO that names the self address whatever it is.
-/

namespace Rpld

open Memory FirstMatch Runs

/-- The dag advertises an address of its own: the one generated for it, which was added to
its interface. `added` lists the addresses that were, with the index of the interface. -/
structure Dag.HasAddress (dag : Dag) (added : List (UInt32 × In6Addr)) (addr : In6Addr) : Prop where
  generated : genStatelessAddr dag.dest dag.iface.llinfo = some addr
  specified : addr ≠ .unspecified
  added : (dag.iface.ifindex, addr) ∈ added

def Effect.addedAddr : Effect → Option (UInt32 × In6Addr)
  | .nlAddAddr ifindex addr => some (ifindex, addr)
  | _ => none

/-- `nl_add_addr` succeeds, or there is the address already. -/
def Env.AddsAddr (env : Env) : Prop := env.addAddr = .ok ∨ env.addAddr = .error eexist

instance (env : Env) : Decidable env.AddsAddr := inferInstanceAs (Decidable (_ ∨ _))

def addedAddrs (env : Env) (effects : List Effect) : List (UInt32 × In6Addr) :=
  if env.AddsAddr then effects.filterMap Effect.addedAddr else []

/-- The first target of a DAO: its option header stands behind the base of 24 bytes. -/
def Effect.firstTarget (effect : Effect) : In6Addr := addrAt (overlay effect.bytes fun _ => 0) 28

/-- All targets of a DAO: each is an option of 20 bytes with the address behind four of them. -/
def Effect.targets (effect : Effect) : List In6Addr :=
  (List.range ((effect.bytes.length - 24) / 20)).map fun index =>
    addrAt (overlay effect.bytes fun _ => 0) (28 + 20 * index)

/-- Neither a DAO nor a request for an address. -/
def Effect.Silent (effect : Effect) : Prop := effect.code ≠ some ndRplDao ∧ effect.addedAddr = none

/-! A dag that hears a rank. -/

theorem split_at_last {effects earlier later : List Effect} {last effect : Effect} {code : Option UInt8}
    (other : ∀ effect ∈ effects, effect.code ≠ code) (own : effect.code = code)
    (split : effects ++ [last] = earlier ++ effect :: later) : earlier = effects ∧ effect = last := by
  rcases List.append_eq_append_iff.mp split with ⟨rest, longer, tail⟩ | ⟨rest, shorter, tail⟩
  · cases rest with
    | nil =>
        simp only [List.nil_append, List.cons.injEq] at tail
        exact ⟨by rw [longer, List.append_nil], tail.1.symm⟩
    | cons first more => simp at tail
  · cases rest with
    | nil =>
        simp only [List.nil_append, List.cons.injEq] at tail
        exact ⟨by rw [shorter, List.append_nil], tail.1⟩
    | cons first more =>
        rw [List.cons_append, List.cons.injEq] at tail
        exact absurd own (other effect (by rw [shorter, tail.1]; simp))

theorem firstTarget_daoBytes {effect : Effect} {dag : Dag} (bytes : effect.bytes = dag.daoBytes) :
    effect.firstTarget = dag.self := by
  have split : dag.daoBytes = dag.daoBase ++ ([rplDaoRpltarget, 18, 0, 128] ++
      (dag.self.s6Addr ++ (dag.childs.map (·.addr)).flatMap targetBytes)) := by
    simp [Dag.daoBytes, Dag.daoTargets, targetBytes, RplDaoTarget.bytes]
  have base : dag.daoBase.length = 24 := by
    simp [Dag.daoBase, Icmp6Hdr.bytes, NdRplDaoack.bytes, dag.daoHead.rplDagid.size]
  have whole := (slice_overlay effect.bytes fun _ => 0).trans (bytes.trans split)
  have rest := (slice_eq_append _ whole).2
  rw [base] at rest
  have address := (slice_eq_append _ (slice_eq_append _ rest).2).1
  rw [dag.self.size] at address
  exact In6Addr.ext address

theorem addrs_of_targetBytes {mem : Nat → UInt8} {offset count : Nat} {addrs : List In6Addr}
    (whole : slice mem offset count = addrs.flatMap targetBytes) :
    ((List.range addrs.length).map fun index => addrAt mem (offset + 4 + 20 * index)) = addrs := by
  induction addrs generalizing offset count with
  | nil => rfl
  | cons addr rest ih =>
      rw [List.flatMap_cons] at whole
      obtain ⟨option, later⟩ := slice_eq_append mem whole
      rw [targetBytes_length] at option later
      have split : targetBytes addr = [rplDaoRpltarget, 18, 0, 128] ++ addr.s6Addr := rfl
      have address := (slice_eq_append mem (option.trans split)).2
      rw [addr.size] at address
      rw [List.length_cons, List.range_succ_eq_map, List.map_cons, List.map_map]
      congr 1
      · exact In6Addr.ext address
      · refine (List.map_congr_left fun index _ => ?_).trans (ih later)
        simp only [Function.comp_apply]
        rw [show offset + 4 + 20 * index.succ = offset + 20 + 4 + 20 * index by omega]

theorem targets_daoBytes {effect : Effect} {dag : Dag} (bytes : effect.bytes = dag.daoBytes) :
    effect.targets = dag.daoTargets := by
  have whole := (slice_overlay effect.bytes fun _ => 0).trans bytes
  have options := (slice_eq_append _ whole).2
  have size := congrArg List.length bytes
  rw [Dag.daoBytes, List.length_append, Dag.daoBase_length, flatMap_targetBytes_length] at size
  rw [Dag.daoBase_length] at options
  rw [Effect.targets, show (effect.bytes.length - 24) / 20 = dag.daoTargets.length by omega]
  simpa using addrs_of_targetBytes options

section

variable {env : Env} {dag : Dag} {rank : UInt16} {src : In6Addr}

theorem dagProcessDio_spec (env : Env) (dag : Dag) :
    (Configures env dag ∧ ∃ addr, genStatelessAddr dag.dest dag.iface.llinfo = some addr ∧
      dagProcessDio env dag = ({ dag with self := addr },
        [.nlAddAddr dag.iface.ifindex addr, .nlDelRouteVia dag.iface.ifindex dag.dest none])) ∨
    (¬ Configures env dag ∧ (dagProcessDio env dag).1 = dag) := by
  by_cases configures : Configures env dag
  · refine Or.inl ⟨configures, ?_⟩
    obtain ⟨generates, adds, deletes⟩ := configures
    obtain ⟨addr, generated⟩ := Option.isSome_iff_exists.mp generates
    exact ⟨addr, generated, by simp [dagProcessDio, generated, adds, deletes]⟩
  · refine Or.inr ⟨configures, ?_⟩
    unfold dagProcessDio
    split
    · rfl
    · rename_i addr generated
      simp only
      split
      · rename_i adds
        split
        · rename_i deletes
          exact absurd ⟨by simp [generated], adds, deletes⟩ configures
        · rfl
      · rfl

theorem configured_advert (env : Env) (dag : Dag) (rank : UInt16) (src : In6Addr) :
    (dag.configured env rank src).advert = dag.advert := dagProcessDio_advert env (dag.ranked rank src)

/-- What is left of the self address: the new one where everything succeeded, else the old one. -/
theorem configured_self (env : Env) (dag : Dag) (rank : UInt16) (src : In6Addr) :
    (Configures env dag ∧
      genStatelessAddr dag.dest dag.iface.llinfo = some (dag.configured env rank src).self ∧
      .nlAddAddr dag.iface.ifindex (dag.configured env rank src).self ∈ (dagProcessDio env (dag.ranked rank src)).2) ∨
    (¬ Configures env dag ∧ (dag.configured env rank src).self = dag.self) := by
  rcases dagProcessDio_spec env (dag.ranked rank src) with ⟨configures, addr, generated, result⟩ | ⟨fails, same⟩
  · refine Or.inl ⟨configures, ?_⟩
    simp only [Dag.configured, result]
    exact ⟨generated, by simp [Dag.ranked]⟩
  · refine Or.inr ⟨fails, ?_⟩
    rw [Dag.configured, same]
    rfl

theorem configured_self_of_ready {addr : In6Addr} (generated : genStatelessAddr dag.dest dag.iface.llinfo = some addr)
    (ready : dag.self = addr ∨ Configures env dag) : (dag.configured env rank src).self = addr := by
  rcases configured_self env dag rank src with ⟨_, computed, _⟩ | ⟨fails, same⟩
  · rw [generated, Option.some.injEq] at computed
    exact computed.symm
  · rcases ready with already | configures
    · exact same.trans already
    · exact absurd configures fails

theorem hears_advert (env : Env) (dag : Dag) (rank : UInt16) (src : In6Addr) :
    (dag.hears env rank src).dag.advert = (dag.configured env rank src).advert := by
  rw [(Dag.hears_frame env dag rank src).1, configured_advert]

theorem hears_heard (available : HasParent env dag) (accepted : rank ≤ (dag.parentOr src).rank) :
    (dag.hears env rank src).dag.self = (dag.configured env rank src).self ∧
      ∀ effect ∈ (dagProcessDio env (dag.ranked rank src)).2, effect ∈ (dag.hears env rank src).effects := by
  rcases Dag.hears_cases available rank src with ⟨higher, _⟩ | ⟨_, _, heard⟩ | ⟨_, _, heard⟩
  · exact absurd accepted (UInt16.not_le.mpr higher)
  · rw [heard]
    exact ⟨rfl, fun _ member => member⟩
  · rw [heard, Dag.afterDao_eq]
    exact ⟨rfl, fun _ member => List.mem_append_left _ member⟩

end

/-! Interfaces. -/

/-- The part of a dag that its address depends on. -/
def Dag.addrView (dag : Dag) : Advert × In6Addr × UInt16 := (dag.advert, dag.self, dag.myRank)

/-- What a handler does to the addresses of an interface: nothing, or a dag hears the rank of
a DIO. -/
inductive AddrCase (env : Env) (iface : Iface) (mem : Nat → UInt8) (len : Nat) (out : Outcome) : Prop
  | silent (effects : ∀ effect ∈ out.effects, effect.Silent)
      (same : ∀ instanceId dodagid, (dagLookup out.iface instanceId dodagid).map Dag.addrView =
        (dagLookup iface instanceId dodagid).map Dag.addrView)
  | heard (dag : Dag) (type : mem 0 = ndRplMessage) (code : mem 1 = ndRplDagIo)
      (compares : Compares env iface mem len dag)

section

variable {env : Env} {iface : Iface} {mem : Nat → UInt8} {len : Nat} {src : In6Addr}

theorem silent_request {effect : Effect} (empty : effect.bytes = []) (other : effect.addedAddr = none) :
    effect.Silent := ⟨code_of_bytes empty _, other⟩

theorem dagInitTimer_silent (dag : Dag) : ∀ effect ∈ dagInitTimer dag, effect.Silent := by
  intro effect member
  simp only [dagInitTimer, List.mem_cons, List.not_mem_nil, or_false] at member
  rcases member with rfl | rfl
  · exact silent_request rfl rfl
  · exact silent_request rfl rfl

theorem routine_silent {effect : Effect} (routine : effect.Routine) : effect.Silent :=
  ⟨(routine_small routine).2, by cases routine <;> rfl⟩

theorem addrCase_unchanged {out : Outcome} (same : out.iface = iface) (quiet : out.effects = []) :
    AddrCase env iface mem len out := by
  refine .silent ?_ ?_
  · rw [quiet]
    simp
  · intro instanceId dodagid
    rw [same]

theorem processDio_addr (type : mem 0 = ndRplMessage) (code : mem 1 = ndRplDagIo) :
    AddrCase env iface mem len (processDio env iface mem len src) := by
  by_cases creates : dagLookup iface (mem 4) (addrAt mem 12) = none → Creates env iface (mem 4)
  · have way := processDio_case env iface mem len src
    generalize processDio env iface mem len src = out at way
    cases way with
    | drops => exact addrCase_unchanged rfl rfl
    | oversized => exact addrCase_unchanged rfl rfl
    | fails => exact addrCase_unchanged rfl rfl
    | known dag reads base found notRoot => exact .heard dag type code (.known base found notRoot)
    | joined dag pfx reads joins inside =>
        exact .heard _ type code (.joined joins inside (creates joins.missing))
  · rw [Classical.not_imp] at creates
    obtain ⟨same, quiet⟩ := @processDio_denied env iface mem len src creates.1 creates.2
    exact addrCase_unchanged same quiet

theorem processDao_addr (base : sizeofDao ≤ len) :
    AddrCase env iface mem len (processDao env iface mem len src) := by
  refine .silent (fun effect member => routine_silent (processDao_routine base member)) ?_
  intro instanceId dodagid
  by_cases own : instanceId = mem 4 ∧ dodagid = addrAt mem 8
  · rw [own.1, own.2, (processDao_slot base).1]
    cases found : dagLookup iface (mem 4) (addrAt mem 8) with
    | none => rfl
    | some dag =>
        obtain ⟨targets, walked⟩ := daoOptions_registers env mem src (len - sizeofDao)
          ⟨24, ((len - sizeofDao : Nat) : Int), dag, 4 :: addrReads 8⟩
        simp only [slotDao, walked]
        rfl
  · rw [processDao_other own]

theorem processDis_addr (keyed : iface.Keyed) (refs : iface.BackRefs) :
    AddrCase env iface mem len (processDis env iface) := by
  refine .silent (fun effect member => routine_silent (processDis_routine member)) ?_
  intro instanceId dodagid
  rcases (@processDis_slot_any iface env instanceId dodagid keyed refs).1 with same | changed
  · rw [same]
  · rw [changed]
    cases dagLookup iface instanceId dodagid with
    | none => rfl
    | some dag =>
        simp only [slotSendDio]
        split <;> rfl

theorem processDaoack_addr (base : sizeofDaoack ≤ len) :
    AddrCase env iface mem len (processDaoack iface mem len) :=
  .silent (fun _ member => routine_silent (processDaoack_routine base member))
    (fun _ _ => by rw [processDaoack_iface])

theorem processIface_addr (keyed : iface.Keyed) (refs : iface.BackRefs) :
    AddrCase env iface mem len (processIface env iface mem len src) := by
  obtain ⟨out, way, sameIface, sameEffects, _⟩ := processIface_case env iface mem len src
  have handled : AddrCase env iface mem len out := by
    cases way with
    | ignored => exact addrCase_unchanged rfl rfl
    | dis => exact processDis_addr keyed refs
    | dio _ code _ named => exact processDio_addr (namedKey_dio code named).1 code
    | dao _ _ base => exact processDao_addr base
    | daoack _ _ base => exact processDaoack_addr base
  rcases handled with ⟨effects, same⟩ | ⟨dag, type, code, compares⟩
  · exact .silent (by rw [sameEffects]; exact effects) (by rw [sameIface]; exact same)
  · exact .heard dag type code compares

end

/-! Runs with the addresses that were added. -/

/-- The daemon with the addresses that `nl_add_addr` has added for it, or found there. -/
structure AddressedDaemon where
  daemon : Daemon
  added : List (UInt32 × In6Addr)

def AddressedDaemon.step (state : AddressedDaemon) (event : Event) : AddressedDaemon :=
  ⟨state.daemon.step event, state.added ++ addedAddrs event.env (state.daemon.news event)⟩

/-- Every DAO that the step sends has as its first target the address generated for the dag
it is sent for, which was added to the interface of the dag before, and no target of it is the
unspecified address. -/
def AddressedDaemon.Advertises (state : AddressedDaemon) (event : Event) : Prop :=
  ∀ earlier effect later, state.daemon.news event = earlier ++ effect :: later → effect.code = some ndRplDao →
    .unspecified ∉ effect.targets ∧ ∃ env pkt iface dag, event = .packet env pkt ∧
      ifaceFindByIfindex (state.daemon.step event).ifaces pkt.ifindex = some iface ∧
      dagLookup iface (pkt.mem 4) (addrAt pkt.mem 12) = some dag ∧
      dag.HasAddress (state.added ++ addedAddrs env earlier) effect.firstTarget

/-- A DIO is received whose rank is compared with that of the parent of the dag. -/
structure Daemon.ComparesDio (daemon : Daemon) (env : Env) (pkt : Packet) (iface : Iface) (dag : Dag) : Prop where
  running : daemon.fault = none
  long : 4 ≤ pkt.len
  known : ifaceFindByIfindex daemon.ifaces pkt.ifindex = some iface
  type : pkt.mem 0 = ndRplMessage
  code : pkt.mem 1 = ndRplDagIo
  compares : Compares env iface pkt.mem (pkt.len - 4) dag

/-- A DIO is received that makes the daemon send a DAO for the dag. -/
structure Daemon.DaoDue (daemon : Daemon) (env : Env) (pkt : Packet) (iface : Iface) (dag : Dag) : Prop
    extends daemon.ComparesDio env pkt iface dag where
  parent : HasParent env dag
  accepted : ntohs (pkt.mem 6) (pkt.mem 7) ≤ (dag.parentOr pkt.src).rank
  few : dag.childs.length < overfullChilds

/-- Wherever a DAO is due there is an address to advertise: one can be generated, it is not
the unspecified one, and the dag has it already or its configuration succeeds now. And no DAO
has made the unspecified address a child of the dag. -/
def Daemon.AddressReady (daemon : Daemon) : Event → Prop
  | .packet env pkt => ∀ iface dag, daemon.DaoDue env pkt iface dag →
      .unspecified ∉ dag.childs.map (·.addr) ∧
        ∃ addr, genStatelessAddr dag.dest dag.iface.llinfo = some addr ∧ addr ≠ .unspecified ∧
          (dag.self = addr ∨ Configures env dag)
  | .trickle _ _ => True
  | .dis _ _ => True

/-- The self address of a dag that is no root is unset, or generated for it and added. -/
def Dag.Addressed (dag : Dag) (added : List (UInt32 × In6Addr)) : Prop :=
  dag.self = .unspecified ∨
    genStatelessAddr dag.dest dag.iface.llinfo = some dag.self ∧ (dag.iface.ifindex, dag.self) ∈ added

structure AddressedDaemon.Good (state : AddressedDaemon) : Prop where
  sound : state.daemon.Sound
  addressed : ∀ watcher dag, state.daemon.watched watcher = some dag → dag.myRank ≠ 1 → dag.Addressed state.added

theorem addressed_mono {dag : Dag} {added more : List (UInt32 × In6Addr)} (grown : added ⊆ more)
    (addressed : dag.Addressed added) : dag.Addressed more := by
  rcases addressed with unset | ⟨generated, member⟩
  · exact Or.inl unset
  · exact Or.inr ⟨generated, grown member⟩

theorem addressed_congr {dag next : Dag} {added : List (UInt32 × In6Addr)} (advert : next.advert = dag.advert)
    (self : next.self = dag.self) (addressed : dag.Addressed added) : next.Addressed added := by
  have dest : next.dest = dag.dest := congrArg Advert.dest advert
  have head : next.iface = dag.iface := congrArg Advert.iface advert
  rw [Dag.Addressed, dest, head, self]
  exact addressed

theorem hasAddress_of_addressed {dag : Dag} {added : List (UInt32 × In6Addr)} (addressed : dag.Addressed added)
    (specified : dag.self ≠ .unspecified) : dag.HasAddress added dag.self := by
  rcases addressed with unset | ⟨generated, member⟩
  · exact absurd unset specified
  · exact ⟨generated, specified, member⟩

theorem hasAddress_congr {dag next : Dag} {added : List (UInt32 × In6Addr)} {addr : In6Addr}
    (advert : next.advert = dag.advert) (address : dag.HasAddress added addr) : next.HasAddress added addr := by
  have dest : next.dest = dag.dest := congrArg Advert.dest advert
  have head : next.iface = dag.iface := congrArg Advert.iface advert
  refine ⟨?_, address.specified, ?_⟩
  · rw [dest, head]
    exact address.generated
  · rw [head]
    exact address.added

theorem mem_addedAddrs {env : Env} {effects : List Effect} {ifindex : UInt32} {addr : In6Addr} (adds : env.AddsAddr)
    (member : .nlAddAddr ifindex addr ∈ effects) : (ifindex, addr) ∈ addedAddrs env effects := by
  rw [addedAddrs, if_pos adds]
  exact List.mem_filterMap.mpr ⟨_, member, rfl⟩

section

variable {env : Env} {dag : Dag} {rank : UInt16} {src : In6Addr} {added : List (UInt32 × In6Addr)}

theorem configured_addressed (addressed : dag.Addressed added) {effects : List Effect}
    (requested : ∀ effect ∈ (dagProcessDio env (dag.ranked rank src)).2, effect ∈ effects) :
    (dag.configured env rank src).Addressed (added ++ addedAddrs env effects) := by
  have advert := configured_advert env dag rank src
  rcases configured_self env dag rank src with ⟨configures, generated, request⟩ | ⟨_, same⟩
  · right
    rw [show (dag.configured env rank src).dest = dag.dest from congrArg Advert.dest advert,
      show (dag.configured env rank src).iface = dag.iface from congrArg Advert.iface advert]
    exact ⟨generated, List.mem_append_right _ (mem_addedAddrs configures.2.1 (requested _ request))⟩
  · exact addressed_mono (List.subset_append_left _ _) (addressed_congr advert same addressed)

theorem hears_addressed (addressed : dag.Addressed added) {effects : List Effect}
    (made : ∀ effect ∈ (dag.hears env rank src).effects, effect ∈ effects) :
    (dag.hears env rank src).dag.Addressed (added ++ addedAddrs env effects) := by
  by_cases accepts : HasParent env dag ∧ rank ≤ (dag.parentOr src).rank
  · obtain ⟨self, requests⟩ := hears_heard accepts.1 accepts.2
    have configured := @configured_addressed env dag rank src added addressed effects
      fun effect member => made effect (requests effect member)
    exact addressed_congr (hears_advert env dag rank src) self configured
  · rw [Dag.hears_refused accepts]
    exact addressed_mono (List.subset_append_left _ _) addressed

end

/-! Steps. -/

section

variable {daemon : Daemon} {env : Env} {pkt : Packet} {iface : Iface} {dag : Dag}

theorem Daemon.ComparesDio.news (heard : daemon.ComparesDio env pkt iface dag) :
    ∃ before, daemon.news (.packet env pkt) =
        before ++ (dag.hears env (ntohs (pkt.mem 6) (pkt.mem 7)) pkt.src).effects ∧
      ∀ effect ∈ before, effect.Silent := by
  obtain ⟨before, fresh, _, effects⟩ :=
    @processIface_compares env iface pkt.mem (pkt.len - 4) pkt.src heard.type heard.code dag heard.compares
  refine ⟨before, ?_, ?_⟩
  · rw [Daemon.news, Daemon.packet_effects heard.running heard.long heard.known, effects]
    rfl
  · rcases fresh with rfl | rfl
    · simp
    · exact dagInitTimer_silent dag

theorem Daemon.DaoDue.news_split (due : daemon.DaoDue env pkt iface dag) :
    ∃ earlier effect, daemon.news (.packet env pkt) = earlier ++ [effect] ∧
      (∀ other ∈ earlier, other.code ≠ some ndRplDao) ∧ effect.code = some ndRplDao ∧
      effect.bytes = (dag.configured env (ntohs (pkt.mem 6) (pkt.mem 7)) pkt.src).daoBytes ∧
      ∀ request ∈ (dagProcessDio env (dag.ranked (ntohs (pkt.mem 6) (pkt.mem 7)) pkt.src)).2, request ∈ earlier := by
  obtain ⟨before, news, quiet⟩ := due.news
  obtain ⟨effect, made, dao, bytes⟩ := hears_sends due.parent due.accepted due.few
  refine ⟨before ++ (dagProcessDio env (dag.ranked _ pkt.src)).2, effect, by rw [news, made, List.append_assoc], ?_,
    dao, bytes, fun request member => List.mem_append_right _ member⟩
  intro other member
  rcases List.mem_append.mp member with timer | request
  · exact (quiet other timer).1
  · exact code_of_bytes (dagProcessDio_bytes request) _

theorem Daemon.ComparesDio.lookup (heard : daemon.ComparesDio env pkt iface dag) :
    let out := processIface env iface pkt.mem (pkt.len - 4) pkt.src
    ifaceFindByIfindex (daemon.step (.packet env pkt)).ifaces pkt.ifindex = some out.iface ∧
      dagLookup out.iface (pkt.mem 4) (addrAt pkt.mem 12) =
        some (dag.hears env (ntohs (pkt.mem 6) (pkt.mem 7)) pkt.src).dag := by
  intro out
  obtain ⟨before, _, slot, _⟩ :=
    @processIface_compares env iface pkt.mem (pkt.len - 4) pkt.src heard.type heard.code dag heard.compares
  refine ⟨?_, slot⟩
  simp only [Daemon.step, heard.running, Daemon.packet]
  exact process_ifaceFind heard.long heard.known

theorem Daemon.ComparesDio.watched (heard : daemon.ComparesDio env pkt iface dag) (sound : daemon.Sound)
    (watcher : WatcherRef) :
    (daemon.step (.packet env pkt)).watched watcher =
      if watcher = ⟨iface.ptr, pkt.mem 4, addrAt pkt.mem 12⟩ then
        some (dag.hears env (ntohs (pkt.mem 6) (pkt.mem 7)) pkt.src).dag
      else daemon.watched watcher := by
  rw [Daemon.packet_watched sound heard.running heard.long heard.known]
  by_cases here : iface.ptr = watcher.iface
  · simp only [here, beq_self_eq_true, if_true]
    by_cases own : watcher.instanceId = pkt.mem 4 ∧ watcher.dodagid = addrAt pkt.mem 12
    · rw [own.1, own.2, heard.lookup.2, if_pos]
      rw [← own.1, ← own.2]
    · have other : watcher ≠ ⟨watcher.iface, pkt.mem 4, addrAt pkt.mem 12⟩ := by
        intro same
        exact own ⟨congrArg WatcherRef.instanceId same, congrArg WatcherRef.dodagid same⟩
      have notDis : isDis pkt.mem = false := by simp [isDis, heard.code, ndRplDagIo, ndRplDagIs]
      rw [if_neg other, Daemon.watched_of_find sound (List.mem_of_find?_eq_some heard.known) here]
      apply processIface_unnamed notDis
      intro named
      obtain ⟨_, _, key⟩ := namedKey_dio heard.code named
      simp only [Prod.mk.injEq] at key
      exact own key
  · have other : watcher ≠ ⟨iface.ptr, pkt.mem 4, addrAt pkt.mem 12⟩ := by
      intro same
      exact here (congrArg WatcherRef.iface same).symm
    simp [here, other]

theorem Daemon.step_addr (sound : daemon.Sound) (event : Event) :
    ((∀ effect ∈ daemon.news event, effect.Silent) ∧
      ∀ watcher, ((daemon.step event).watched watcher).map Dag.addrView =
        (daemon.watched watcher).map Dag.addrView) ∨
    ∃ env pkt iface dag, event = .packet env pkt ∧ daemon.ComparesDio env pkt iface dag := by
  have still : daemon.step event = daemon → (∀ effect ∈ daemon.news event, effect.Silent) ∧
      ∀ watcher, ((daemon.step event).watched watcher).map Dag.addrView =
        (daemon.watched watcher).map Dag.addrView := by
    intro same
    simp [Daemon.news, same]
  cases failed : daemon.fault with
  | some fault => exact Or.inl (still (by simp [Daemon.step, failed]))
  | none =>
      cases event with
      | dis env ptr =>
          refine Or.inl ⟨fun effect member => routine_silent (Daemon.timer_routine (by simp) member), ?_⟩
          intro watcher
          simp only [Daemon.watched, (Daemon.dis_step failed).1]
      | trickle env sender =>
          refine Or.inl ⟨fun effect member => routine_silent (Daemon.timer_routine (by simp) member), ?_⟩
          exact Daemon.trickle_map (fun _ => rfl) sound failed
      | packet env pkt =>
          rcases Daemon.packet_seen daemon pkt with unseen | ⟨iface, long, found⟩
          · exact Or.inl (still (Daemon.packet_dropped failed unseen))
          · have member := List.mem_of_find?_eq_some found
            rcases @processIface_addr env iface pkt.mem (pkt.len - 4) pkt.src (sound.keyed iface member)
              (sound.refs iface member) with ⟨effects, same⟩ | ⟨dag, type, code, compares⟩
            · refine Or.inl ⟨by rw [Daemon.news, Daemon.packet_effects failed long found]; exact effects, ?_⟩
              intro watcher
              rw [Daemon.packet_watched sound failed long found]
              split
              · rename_i here
                rw [same, Daemon.watched_of_find sound member (beq_iff_eq.mp here)]
              · rfl
            · exact Or.inr ⟨env, pkt, iface, dag, rfl, failed, long, found, type, code, compares⟩

end

section

variable {state : AddressedDaemon}

theorem Daemon.boot_addressed {inetPton : List Char → Option In6Addr} {confs : List IfaceConf} {daemon : Daemon}
    (booted : Daemon.boot inetPton confs = .ok daemon) : (AddressedDaemon.mk daemon []).Good := by
  refine ⟨boot_sound booted, ?_⟩
  intro watcher dag held notRoot
  obtain ⟨iface, found, looked⟩ := Option.bind_eq_some_iff.mp held
  have configured := dagLookup_allDags (boot_configured booted iface (List.mem_of_find?_eq_some found)) looked
  exact absurd configured.myRank notRoot

theorem AddressedDaemon.Good.compares (good : state.Good) {env : Env} {pkt : Packet} {iface : Iface} {dag : Dag}
    (heard : state.daemon.ComparesDio env pkt iface dag) : dag.Addressed state.added := by
  have member := List.mem_of_find?_eq_some heard.known
  cases heard.compares with
  | known _ found notRoot =>
      refine good.addressed ⟨iface.ptr, pkt.mem 4, addrAt pkt.mem 12⟩ dag ?_ notRoot
      rw [Daemon.watched_of_find good.sound member rfl]
      exact found
  | joined _ _ _ => exact Or.inl rfl

theorem AddressedDaemon.Good.heard (good : state.Good) {env : Env} {pkt : Packet} {iface : Iface} {dag : Dag}
    (heard : state.daemon.ComparesDio env pkt iface dag) :
    (dag.hears env (ntohs (pkt.mem 6) (pkt.mem 7)) pkt.src).dag.Addressed (state.step (.packet env pkt)).added := by
  obtain ⟨before, news, _⟩ := heard.news
  refine hears_addressed (good.compares heard) ?_
  intro effect member
  rw [news]
  exact List.mem_append_right _ member

theorem AddressedDaemon.step_good (good : state.Good) (event : Event) : (state.step event).Good := by
  refine ⟨Daemon.step_sound event good.sound, ?_⟩
  have older : state.added ⊆ (state.step event).added := List.subset_append_left _ _
  intro watcher next held notRoot
  rcases Daemon.step_addr good.sound event with ⟨_, same⟩ | ⟨env, pkt, iface, dag, rfl, heard⟩
  · have views := same watcher
    rw [show (state.daemon.step event).watched watcher = some next from held, Option.map_some, eq_comm,
      Option.map_eq_some_iff] at views
    obtain ⟨dag, before, view⟩ := views
    simp only [Dag.addrView, Prod.mk.injEq] at view
    obtain ⟨advert, self, myRank⟩ := view
    have addressed := good.addressed watcher dag before (by rw [myRank]; exact notRoot)
    exact addressed_mono older (addressed_congr advert.symm self.symm addressed)
  · have after := heard.watched good.sound watcher
    rw [show (state.daemon.step (.packet env pkt)).watched watcher = some next from held] at after
    split at after
    · rw [Option.some.injEq] at after
      rw [after]
      exact good.heard heard
    · exact addressed_mono older (good.addressed watcher next after.symm notRoot)

theorem Daemon.news_dao {daemon : Daemon} (sound : daemon.Sound) {event : Event} {effect : Effect}
    (member : effect ∈ daemon.news event) (dao : effect.code = some ndRplDao) :
    ∃ env pkt iface dag, event = .packet env pkt ∧ daemon.DaoDue env pkt iface dag := by
  rcases Daemon.step_addr sound event with ⟨silent, _⟩ | ⟨env, pkt, iface, dag, rfl, heard⟩
  · exact absurd dao (silent effect member).1
  · refine ⟨env, pkt, iface, dag, rfl, ?_⟩
    obtain ⟨before, news, quiet⟩ := heard.news
    rw [news, List.mem_append] at member
    rcases member with timer | made
    · exact absurd dao (quiet effect timer).1
    · rcases hears_messages made with none | ⟨_, available, accepted, few⟩
      · exact absurd dao (code_of_bytes none _)
      · exact ⟨heard, available, accepted, few⟩

theorem AddressedDaemon.advertises_iff (good : state.Good) (event : Event) :
    state.Advertises event ↔ state.daemon.AddressReady event := by
  constructor
  · intro advertises
    cases event with
    | trickle env watcher => trivial
    | dis env ptr => trivial
    | packet env pkt =>
        intro iface dag due
        obtain ⟨earlier, effect, news, _, dao, bytes, _⟩ := due.news_split
        obtain ⟨named, _, _, later, next, ⟨⟩, found, looked, address⟩ := advertises earlier effect [] news dao
        rw [targets_daoBytes bytes, Dag.daoTargets, configured_childs, List.mem_cons, not_or] at named
        obtain ⟨outFound, outLooked⟩ := due.lookup
        rw [outFound, Option.some.injEq] at found
        rw [← found, outLooked, Option.some.injEq] at looked
        rw [← looked] at address
        have own := hasAddress_congr (Dag.hears_frame env dag _ pkt.src).1.symm address
        refine ⟨named.2, effect.firstTarget, own.generated, own.specified, ?_⟩
        rcases configured_self env dag (ntohs (pkt.mem 6) (pkt.mem 7)) pkt.src with ⟨configures, _⟩ | ⟨_, same⟩
        · exact Or.inr configures
        · exact Or.inl (same.symm.trans (firstTarget_daoBytes bytes).symm)
  · intro ready earlier effect later split dao
    obtain ⟨env, pkt, iface, dag, rfl, due⟩ :=
      Daemon.news_dao good.sound (by rw [split]; exact List.mem_append_right _ (.head _)) dao
    obtain ⟨unlisted, addr, generated, specified, ready⟩ := ready iface dag due
    obtain ⟨front, sent, news, other, _, bytes, requests⟩ := due.news_split
    -- the DAO is the last effect of the step, so what is earlier includes all its requests
    obtain ⟨rfl, rfl⟩ := split_at_last other dao (news.symm.trans split)
    obtain ⟨found, looked⟩ := due.lookup
    have self := @configured_self_of_ready env dag (ntohs (pkt.mem 6) (pkt.mem 7)) pkt.src addr generated ready
    constructor
    · rw [targets_daoBytes bytes, Dag.daoTargets, configured_childs, self, List.mem_cons, not_or]
      exact ⟨specified.symm, unlisted⟩
    · refine ⟨env, pkt, _, _, rfl, found, looked, ?_⟩
      apply hasAddress_congr (hears_advert env dag _ pkt.src)
      rw [firstTarget_daoBytes bytes]
      apply hasAddress_of_addressed (configured_addressed (good.compares due.toComparesDio) requests)
      rw [self]
      exact specified

end

/-! The receiver. -/

/-- A peer that receives the packet has the unspecified address as a child only if it had it
before. -/
def SparesUnspecified (pkt : Packet) : Prop :=
  ∀ env ifaces iface later instanceId dodagid next,
    ifaceFindByIfindex ifaces pkt.ifindex = some iface →
    ifaceFindByIfindex (process env ifaces pkt).ifaces pkt.ifindex = some later →
    dagLookup later instanceId dodagid = some next → .unspecified ∈ next.childs.map (·.addr) →
    ∃ dag, dagLookup iface instanceId dodagid = some dag ∧ .unspecified ∈ dag.childs.map (·.addr)

section

variable {env : Env} {iface : Iface} {mem : Nat → UInt8} {len : Nat} {src : In6Addr}

/-- A DAO leaves alone what is found under another key. -/
theorem processIface_otherDao {instanceId named : UInt8} {dodagid addr : In6Addr} {options : List RplOption}
    (carries : CarriesDao mem len named addr options) (other : ¬ (instanceId = named ∧ dodagid = addr)) :
    dagLookup (processIface env iface mem (len - 4) src).iface instanceId dodagid = dagLookup iface instanceId dodagid := by
  have length := carries.length
  have base : sizeofDao ≤ len - 4 := by simp only [sizeofDao]; omega
  have notDis : isDis mem = false := by simp [isDis, carries.code, ndRplDao, ndRplDagIs]
  have key : namedKey mem (len - 4) = some (named, addr) := by
    simp [namedKey, carries.type, carries.code, carries.instanceId, carries.dodagid, base, ndRplDagIo, ndRplDao]
  refine processIface_unnamed notDis ?_
  rw [key]
  intro same
  simp only [Option.some.injEq, Prod.mk.injEq] at same
  exact other ⟨same.1.symm, same.2.symm⟩

/-- The children of the dag that a DAO is for were there before or are its targets. -/
theorem processIface_daoChilds {sender : Dag}
    (carries : CarriesDao mem len sender.rpl.instanceId sender.dodagid (sender.daoTargets.map targetOption)) {next : Dag}
    (looked : dagLookup (processIface env iface mem (len - 4) src).iface sender.rpl.instanceId sender.dodagid = some next)
    {addr : In6Addr} (child : addr ∈ next.childs.map (·.addr)) :
    (∃ dag, dagLookup iface sender.rpl.instanceId sender.dodagid = some dag ∧ addr ∈ dag.childs.map (·.addr)) ∨
      addr ∈ sender.daoTargets := by
  cases held : dagLookup iface sender.rpl.instanceId sender.dodagid with
  | none =>
      obtain ⟨reads, handled⟩ := @CarriesDao.missing env iface mem len src _ _ _ carries held
      rw [handled, show (dropped iface reads).iface = iface from rfl, held] at looked
      simp at looked
  | some dag =>
      have wellFormed : ∀ option ∈ sender.daoTargets.map targetOption, option.WellFormed := by
        intro option member
        obtain ⟨target, _, same⟩ := List.mem_map.mp member
        rw [← same]
        exact targetOption_wellFormed target
      obtain ⟨reads, handled⟩ := processDao_options env src carries wellFormed held
      have key : dag.dodagid = sender.dodagid := dagLookup_dodagid held
      rw [handled] at looked
      have stored := (dagLookup_dagWrite_const held
        (show (dag.registers src _).dodagid = sender.dodagid from key)).symm.trans looked
      rw [Option.some.injEq] at stored
      rw [← stored, registers_addrs] at child
      rcases child with old | target
      · exact Or.inl ⟨dag, rfl, old⟩
      · have named := grantedTargets_subset env 24 _ _ target
        rw [filterMap_targetOption] at named
        exact Or.inr named

end

theorem sparesUnspecified_of_bytes {sender : Dag} {pkt : Packet} (specified : .unspecified ∉ sender.daoTargets)
    (carried : pkt.bytes = sender.daoBytes) : SparesUnspecified pkt := by
  intro env ifaces iface later instanceId dodagid next known found looked child
  have carries := carriesDao_of_bytes carried
  have length := carries.length
  rw [process_ifaceFind (by omega) known, Option.some.injEq] at found
  rw [← found] at looked
  by_cases own : instanceId = sender.rpl.instanceId ∧ dodagid = sender.dodagid
  · rw [own.1, own.2] at looked ⊢
    rcases processIface_daoChilds carries looked child with before | named
    · exact before
    · exact absurd named specified
  · rw [processIface_otherDao carries own] at looked
    exact ⟨next, looked, child⟩

/-- No DAO of the step makes the unspecified address a child of whoever receives it whole. -/
def Daemon.Specifies (daemon : Daemon) (event : Event) : Prop :=
  ∀ effect ∈ daemon.news event, effect.code = some ndRplDao →
    ∀ pkt : Packet, pkt.bytes = effect.bytes → SparesUnspecified pkt

theorem AddressedDaemon.Advertises.specifies {state : AddressedDaemon} {event : Event}
    (advertises : state.Advertises event) : state.daemon.Specifies event := by
  intro effect member dao
  obtain ⟨earlier, later, split⟩ := List.append_of_mem member
  rcases Daemon.news_messages member with ⟨_, other⟩ | ⟨sender, bytes, _⟩
  · exact absurd dao other
  · intro pkt carried
    refine sparesUnspecified_of_bytes ?_ (carried.trans bytes)
    rw [← targets_daoBytes bytes]
    exact (advertises earlier effect later split dao).1

section

variable {inetPton : List Char → Option In6Addr} {confs : List IfaceConf} {daemon : Daemon}

/-- In every run in which there is an address to advertise wherever a DAO is due, no child is
the unspecified address there, and no DIO offers a new dag more than 128 bits of prefix, each
DAO has as its first target the address that is generated for its dag and was added to the
interface before, names no unspecified address, and gives none as a child to a peer that
receives it whole. Where the last part of the condition holds, the others do exactly if the
DAOs are so. -/
theorem run_dao_addresses_iff (booted : Daemon.boot inetPton confs = .ok daemon) (events : List Event) :
    (AllSteps Daemon.step (fun state event => ¬ state.Oversized event ∧ state.AddressReady event) daemon events →
      AllSteps AddressedDaemon.step AddressedDaemon.Advertises ⟨daemon, []⟩ events ∧
        AllSteps Daemon.step Daemon.Specifies daemon events) ∧
    (AllSteps Daemon.step (fun state event => ¬ state.Oversized event) daemon events →
      AllSteps AddressedDaemon.step AddressedDaemon.Advertises ⟨daemon, []⟩ events →
        AllSteps Daemon.step (fun state event => ¬ state.Oversized event ∧ state.AddressReady event) daemon events) := by
  have viewed : ∀ {meets : AddressedDaemon → Event → Prop} {other : Daemon → Event → Prop},
      (∀ state event, state.Good → (meets state event ↔ other state.daemon event)) →
      (AllSteps AddressedDaemon.step meets ⟨daemon, []⟩ events ↔ AllSteps Daemon.step other daemon events) :=
    fun same => allSteps_view_iff (fun _ _ => rfl) (fun _ event good => AddressedDaemon.step_good good event) same
      (Daemon.boot_addressed booted)
  have exactly := viewed fun _ event good => AddressedDaemon.advertises_iff good event
  refine ⟨?_, fun small advertises => allSteps_and small (exactly.mp advertises)⟩
  intro ready
  have advertises := exactly.mpr (allSteps_imp (fun _ _ => And.right) ready)
  have specified := allSteps_imp (fun _ _ => AddressedDaemon.Advertises.specifies) advertises
  exact ⟨advertises, (viewed fun _ _ _ => Iff.rfl).mp specified⟩

end

theorem run_dao_addresses_foreignDio :
    ∃ daemon, Daemon.boot sampleInetPton [sampleConf "fd00::/64"] = .ok daemon ∧
      (∃ effect ∈ daemon.news (.packet .granting foreignDioPacket), effect.code = some ndRplDao) ∧
      AllSteps AddressedDaemon.step AddressedDaemon.Advertises ⟨daemon, []⟩ [.packet .granting foreignDioPacket] := by
  obtain ⟨daemon, booted⟩ := boot_sample
  have evaluated : ((Daemon.boot sampleInetPton [sampleConf "fd00::/64"]).toOption.bind fun daemon =>
      (ifaceFindByIfindex daemon.ifaces 1).map fun iface =>
        ((daemon.news (.packet .granting foreignDioPacket)).any fun effect => effect.code == some ndRplDao,
          (dagLookup iface 1 (linkLocal 9)).isSome, iface.llinfo)) =
      some (true, false, ⟨[2, 0, 0, 0, 0, 0, 0, 1], by simp⟩) := by decide
  rw [booted, Except.toOption, Option.bind_some, Option.map_eq_some_iff] at evaluated
  obtain ⟨iface, known, outcome⟩ := evaluated
  simp only [Prod.mk.injEq, List.any_eq_true, beq_iff_eq, Option.isSome_eq_false_iff,
    Option.isNone_iff_eq_none] at outcome
  obtain ⟨sent, missing, llinfo⟩ := outcome
  refine ⟨daemon, booted, sent,
    ((run_dao_addresses_iff booted [.packet .granting foreignDioPacket]).1
      ⟨⟨Daemon.not_oversized (by decide), ?_⟩, trivial⟩).1⟩
  intro other dag due
  have same : iface = other := Option.some.inj (known.symm.trans due.known)
  subst same
  cases due.compares with
  | known _ found _ =>
      rw [show dagLookup iface (foreignDioPacket.mem 4) (addrAt foreignDioPacket.mem 12) = none from missing] at found
      simp at found
  | joined _ _ _ =>
      have generated : genStatelessAddr (slotDag .granting iface.toIfaceHead foreignDioPacket.mem).dest iface.llinfo =
          some ⟨[0, 0, 0, 0, 0, 0, 0, 0, 0, 0, 0, 0, 0, 0, 0, 1], rfl⟩ := by
        rw [llinfo]
        change genStatelessAddr (slotDag .granting (linkIface 1).toIfaceHead foreignDioPacket.mem).dest _ = _
        decide
      refine ⟨by simp [slotDag, dagInit], _, generated, by decide, Or.inr ⟨?_, Or.inl rfl, rfl⟩⟩
      rw [Option.isSome_iff_exists]
      exact ⟨_, generated⟩

/-- A DIO with a destination prefix of 48 bits, for which no address can be generated. -/
def shortPrefixPacket : Packet :=
  ⟨overlay ([ndRplMessage, ndRplDagIo, 0, 0, 1, 1, 0, 1, 0, 0, 0, 0] ++ (linkLocal 9).s6Addr ++
    [0x3, 14, 48, 0, 0, 0, 0, 0]) fun _ => 0, 44, linkLocal 9, 1⟩

theorem short_prefix_advertises_unspecified :
    ∃ daemon, Daemon.boot sampleInetPton [sampleConf "fd00::/64"] = .ok daemon ∧
      (∃ effect ∈ daemon.news (.packet .granting shortPrefixPacket),
        effect.code = some ndRplDao ∧ effect.firstTarget = .unspecified) ∧
      ¬ AllSteps AddressedDaemon.step AddressedDaemon.Advertises ⟨daemon, []⟩
        [.packet .granting shortPrefixPacket] := by
  obtain ⟨daemon, booted⟩ := boot_sample
  have evaluated : ((Daemon.boot sampleInetPton [sampleConf "fd00::/64"]).toOption.map fun daemon =>
      (daemon.news (.packet .granting shortPrefixPacket)).any fun effect =>
        effect.code == some ndRplDao && effect.firstTarget == .unspecified) = some true := by decide
  rw [booted, Except.toOption, Option.map_some, Option.some.injEq, List.any_eq_true] at evaluated
  obtain ⟨effect, sent, holds⟩ := evaluated
  rw [Bool.and_eq_true, beq_iff_eq, beq_iff_eq] at holds
  refine ⟨daemon, booted, ⟨effect, sent, holds⟩, ?_⟩
  intro all
  obtain ⟨earlier, later, split⟩ := List.append_of_mem sent
  obtain ⟨_, env, pkt, iface, dag, _, _, _, address⟩ := all.1 earlier effect later split holds.1
  exact address.specified holds.2

end Rpld
