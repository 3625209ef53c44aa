import Rpld.DaoMeaning
import Rpld.Relay

/-!
Next hops over a sequence of DAOs. `dag_lookup_child_or_create` looks at the source of a DAO
only when it makes a new entry, so a target stays with the neighbour that named it first, and
every later DAO asks for the route through that neighbour again.
-/

namespace Rpld

open Memory AddNew

/-- A DAO with its options, and what the system answers while it is handled. -/
structure Arrival where
  env : Env
  pkt : Packet
  options : List RplOption

structure Arrival.For (dao : Arrival) (ifindex : UInt32) (instanceId : UInt8) (dodagid : In6Addr) : Prop where
  ifindex : dao.pkt.ifindex = ifindex
  carries : CarriesDao dao.pkt.mem dao.pkt.len instanceId dodagid dao.options
  wellFormed : ∀ option ∈ dao.options, option.WellFormed

def Arrival.names (dao : Arrival) (addr : In6Addr) : Bool := addr ∈ dao.options.filterMap RplOption.target

/-- The DAO names the address, and there is memory for an entry if one has to be made. -/
def Arrival.grants (dao : Arrival) (addr : In6Addr) : Bool := addr ∈ grantedTargets dao.env 24 dao.options

def Arrival.handled (ifaces : List Iface) (dao : Arrival) : List Iface := (process dao.env ifaces dao.pkt).ifaces

def handledAll (ifaces : List Iface) (daos : List Arrival) : List Iface := daos.foldl Arrival.handled ifaces

/-- The tables hold this dag under the key. -/
def Holds (ifaces : List Iface) (ifindex : UInt32) (instanceId : UInt8) (dodagid : In6Addr) (dag : Dag) : Prop :=
  ∃ iface, ifaceFindByIfindex ifaces ifindex = some iface ∧ dagLookup iface instanceId dodagid = some dag

section

variable {ifaces : List Iface} {ifindex : UInt32} {instanceId : UInt8} {dodagid : In6Addr} {dag : Dag}

theorem grants_names {dao : Arrival} {addr : In6Addr} (grants : dao.grants addr = true) : dao.names addr = true := by
  simp only [Arrival.grants, decide_eq_true_eq] at grants
  simp only [Arrival.names, decide_eq_true_eq]
  exact grantedTargets_subset dao.env 24 dao.options addr grants

theorem registers_lookupChild (dag : Dag) (src : In6Addr) (targets : List In6Addr) (addr : In6Addr) :
    dagLookupChild (dag.registers src targets) addr =
      (dagLookupChild dag addr).or (if addr ∈ targets then some ⟨addr, src⟩ else none) :=
  find?_addNews (fun _ => rfl) dag.childs targets addr

theorem handled_holds {dao : Arrival} (own : dao.For ifindex instanceId dodagid)
    (held : Holds ifaces ifindex instanceId dodagid dag) :
    let next := dag.registers dao.pkt.src (grantedTargets dao.env 24 dao.options)
    Holds (dao.handled ifaces) ifindex instanceId dodagid next ∧
      (process dao.env ifaces dao.pkt).effects =
        childRoutes next ++ [.sendmsg dag.iface.ifindex dag.iface.ifaddr dao.pkt.src dag.daoAckBytes] := by
  intro next
  obtain ⟨iface, known, found⟩ := held
  rw [← own.ifindex] at known
  have long : 4 ≤ dao.pkt.len := by
    have length := own.carries.length
    omega
  obtain ⟨reads, result⟩ := processDao_options dao.env dao.pkt.src own.carries own.wellFormed found
  constructor
  · refine ⟨dagWrite iface instanceId dodagid fun _ => next, ?_, ?_⟩
    · rw [← own.ifindex, Arrival.handled, process_ifaceFind long known, result]
    · have key : dag.dodagid = dodagid := dagLookup_dodagid found
      exact dagLookup_dagWrite_const found key
  · rw [process_of_find long known, result]

theorem handled_lookupChild (dao : Arrival) (dag : Dag) (addr : In6Addr) :
    dagLookupChild (dag.registers dao.pkt.src (grantedTargets dao.env 24 dao.options)) addr =
      (dagLookupChild dag addr).or (if dao.grants addr then some ⟨addr, dao.pkt.src⟩ else none) := by
  rw [registers_lookupChild]
  simp only [Arrival.grants, decide_eq_true_eq]

/-- After any sequence of DAOs the entry of an address is the one it had, or else the one
the first DAO that grants it made. -/
theorem handledAll_holds {daos : List Arrival} (each : ∀ dao ∈ daos, dao.For ifindex instanceId dodagid)
    (held : Holds ifaces ifindex instanceId dodagid dag) :
    ∃ later, Holds (handledAll ifaces daos) ifindex instanceId dodagid later ∧ later.iface = dag.iface ∧
      ∀ addr, dagLookupChild later addr =
        (dagLookupChild dag addr).or ((daos.find? (·.grants addr)).map fun dao => ⟨addr, dao.pkt.src⟩) := by
  induction daos generalizing ifaces dag with
  | nil => exact ⟨dag, held, rfl, by simp⟩
  | cons dao rest ih =>
      rw [List.forall_mem_cons] at each
      obtain ⟨later, kept, head, entries⟩ := ih each.2 (handled_holds each.1 held).1
      refine ⟨later, kept, head, ?_⟩
      intro addr
      rw [entries, handled_lookupChild, Option.or_assoc]
      congr 1
      rw [List.find?_cons]
      cases dao.grants addr with
      | true => rfl
      | false => rfl

theorem childRoutes_lookup {dag : Dag} {child : Child} {addr : In6Addr} (found : dagLookupChild dag addr = some child) :
    Effect.nlAddRouteVia dag.iface.ifindex addr child.fromAddr ∈ childRoutes dag := by
  have own := List.find?_some found
  rw [beq_iff_eq] at own
  rw [← own]
  exact List.mem_map_of_mem (List.mem_of_find?_eq_some found)

/-- After any sequence of well-formed DAOs for a dag, the entry of an address is the one it
had before the sequence or else has as its next hop the source of the first DAO that names
it with memory at hand; and the routes requested by the last DAO that names it go through
the next hop of its entry. -/
theorem process_daos_first_source {daos : List Arrival} (each : ∀ dao ∈ daos, dao.For ifindex instanceId dodagid)
    (held : Holds ifaces ifindex instanceId dodagid dag) :
    ∃ later, Holds (handledAll ifaces daos) ifindex instanceId dodagid later ∧
      ∀ addr,
        dagLookupChild later addr =
          (dagLookupChild dag addr).or ((daos.find? (·.grants addr)).map fun dao => ⟨addr, dao.pkt.src⟩) ∧
        ∀ before last after child, daos = before ++ last :: after → last.names addr = true →
          (∀ dao ∈ after, dao.names addr = false) → dagLookupChild later addr = some child →
          .nlAddRouteVia dag.iface.ifindex addr child.fromAddr ∈
            (process last.env (handledAll ifaces before) last.pkt).effects := by
  obtain ⟨later, kept, _, entries⟩ := handledAll_holds each held
  refine ⟨later, kept, fun addr => ⟨entries addr, ?_⟩⟩
  intro before last after child split _ silent entry
  rw [split, List.forall_mem_append, List.forall_mem_cons] at each
  obtain ⟨earlier, now, following⟩ := each
  obtain ⟨middle, middleHeld, middleHead, middleEntries⟩ := handledAll_holds earlier held
  obtain ⟨nextHeld, effects⟩ := handled_holds now middleHeld
  -- nobody behind `last` names the address, so its entry is there once `last` is handled
  have unnamed : after.find? (·.grants addr) = none := by
    rw [List.find?_eq_none]
    intro dao member grants
    have named := grants_names grants
    rw [silent dao member] at named
    exact absurd named (by decide)
  have present : dagLookupChild (middle.registers last.pkt.src (grantedTargets last.env 24 last.options)) addr =
      some child := by
    rw [handled_lookupChild, middleEntries, ← entry, entries, split, List.find?_append, List.find?_cons, unnamed,
      Option.or_assoc]
    congr 1
    cases before.find? (·.grants addr) with
    | some first => simp
    | none =>
        cases last.grants addr with
        | true => rfl
        | false => rfl
  have route := childRoutes_lookup present
  rw [effects]
  refine List.mem_append_left _ ?_
  rw [← middleHead]
  exact route

end

/-! A target that moves from one neighbour to another. -/

def movedDao (source : In6Addr) : Arrival :=
  ⟨.granting, ⟨overlay ([ndRplMessage, ndRplDao, 0, 0, 1, rplDaoDMask, 0, 0] ++ (linkLocal 1).s6Addr ++
    (targetOption (linkLocal 5)).bytes) fun _ => 0, 44, source, 1⟩, [targetOption (linkLocal 5)]⟩

theorem movedDao_for (source : In6Addr) : (movedDao source).For 1 1 (linkLocal 1) := by
  refine ⟨rfl, ⟨rfl, rfl, rfl, rfl, rfl, rfl⟩, ?_⟩
  intro option member
  rw [List.mem_singleton.mp member]
  exact targetOption_wellFormed _

def movedDaos : List Arrival := [movedDao (linkLocal 2), movedDao (linkLocal 3)]

theorem movedDaos_for : ∀ dao ∈ movedDaos, dao.For 1 1 (linkLocal 1) := by
  simp only [movedDaos, List.forall_mem_cons, List.not_mem_nil, false_implies, implies_true, and_true]
  exact ⟨movedDao_for _, movedDao_for _⟩

theorem rootIface_holds : Holds [rootIface 1] 1 1 (linkLocal 1) (rootDag 1) := ⟨rootIface 1, rfl, rfl⟩

theorem process_daos_first_source_moved :
    ∃ later, Holds (handledAll [rootIface 1] movedDaos) 1 1 (linkLocal 1) later ∧
      dagLookupChild later (linkLocal 5) = some ⟨linkLocal 5, linkLocal 2⟩ := by
  obtain ⟨later, held, entries⟩ := process_daos_first_source movedDaos_for rootIface_holds
  refine ⟨later, held, (entries (linkLocal 5)).1.trans ?_⟩
  decide

/-- The next hop follows the latest DAO: after the sequence the entry of each address has as
its next hop the source of the last DAO that names it, through which that DAO asked for a
route. -/
def FollowsLatest (ifaces : List Iface) (ifindex : UInt32) (instanceId : UInt8) (dodagid : In6Addr)
    (daos : List Arrival) : Prop :=
  ∀ before last after addr, daos = before ++ last :: after → last.names addr = true →
    (∀ dao ∈ after, dao.names addr = false) →
    ∃ later, Holds (handledAll ifaces daos) ifindex instanceId dodagid later ∧
      dagLookupChild later addr = some ⟨addr, last.pkt.src⟩ ∧
      .nlAddRouteVia later.iface.ifindex addr last.pkt.src ∈
        (process last.env (handledAll ifaces before) last.pkt).effects

theorem process_daos_not_latest :
    (∀ dao ∈ movedDaos, dao.For 1 1 (linkLocal 1)) ∧ Holds [rootIface 1] 1 1 (linkLocal 1) (rootDag 1) ∧
      ¬ FollowsLatest [rootIface 1] 1 1 (linkLocal 1) movedDaos := by
  refine ⟨movedDaos_for, rootIface_holds, ?_⟩
  intro follows
  obtain ⟨later, ⟨iface, known, found⟩, entry, _⟩ := follows [movedDao (linkLocal 2)] (movedDao (linkLocal 3)) []
    (linkLocal 5) rfl (by decide) (by simp)
  obtain ⟨other, ⟨otherIface, otherKnown, otherFound⟩, _, entries⟩ := handledAll_holds movedDaos_for rootIface_holds
  rw [known, Option.some.injEq] at otherKnown
  rw [← otherKnown, found, Option.some.injEq] at otherFound
  rw [otherFound, entries] at entry
  exact absurd entry (by decide)

end Rpld
