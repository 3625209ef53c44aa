import Rpld.DaoLimit
import Rpld.Roles

/-!
Sender and receiver size limits. A DAO names every child of its dag and is built up to the
64 KiB of the send buffer, while `recv_rs_ra` reads into a buffer of 1500 bytes and does not
tell a message that was cut from one that was not.
-/

namespace Rpld

open Memory FirstMatch Runs AddNew

/-- From this many children on a DAO is longer than the buffer it is received in. -/
def crowdedChilds : Nat := 73

theorem daoBytes_crowded (dag : Dag) :
    msgSizeRecv < dag.daoBytes.length ↔ crowdedChilds ≤ dag.childs.length := by
  rw [Dag.daoBytes_length]
  simp only [msgSizeRecv, crowdedChilds]
  omega

theorem dioBytes_length_le (dag : Dag) : dag.dioBytes.length ≤ 52 := by
  simp only [Dag.dioBytes, List.length_append, List.length_take, Icmp6Hdr.bytes, NdRplDio.bytes_length,
    RplDioDestPrefix.bytes_length, List.length_cons, List.length_nil]
  omega

theorem daoAckBytes_length (dag : Dag) : dag.daoAckBytes.length = 24 := by
  simp [Dag.daoAckBytes, Icmp6Hdr.bytes]

/-! What the handlers send. -/

section

variable {env : Env} {dag : Dag} {rank : UInt16} {src : In6Addr}

/-- The dag that an accepted rank leaves, before its DAO is built. -/
def Dag.configured (env : Env) (dag : Dag) (rank : UInt16) (src : In6Addr) : Dag :=
  (dagProcessDio env (dag.ranked rank src)).1

theorem configured_childs (env : Env) (dag : Dag) (rank : UInt16) (src : In6Addr) :
    (dag.configured env rank src).childs = dag.childs := dagProcessDio_childs env (dag.ranked rank src)

theorem hears_messages {effect : Effect} (member : effect ∈ (dag.hears env rank src).effects) :
    effect.bytes = [] ∨ effect.bytes = (dag.configured env rank src).daoBytes ∧
      HasParent env dag ∧ rank ≤ (dag.parentOr src).rank ∧ dag.childs.length < overfullChilds := by
  by_cases available : HasParent env dag
  · rcases Dag.hears_cases available rank src with ⟨_, heard⟩ | ⟨_, _, heard⟩ | ⟨accepted, fits, heard⟩
    · simp [heard] at member
    · rw [heard] at member
      exact Or.inl (dagProcessDio_bytes member)
    · simp only [heard, List.mem_append, List.mem_singleton] at member
      rcases member with request | dao
      · exact Or.inl (dagProcessDio_bytes request)
      · have few : dag.childs.length < overfullChilds := by
          have small : ¬ overfullChilds ≤ (dag.configured env rank src).childs.length := by
            rw [← daoBytes_overfull, Dag.configured]
            omega
          rw [configured_childs] at small
          omega
        exact Or.inr ⟨by rw [dao]; rfl, available, accepted, few⟩
  · simp [Dag.hears_without available] at member

theorem hears_sends (available : HasParent env dag) (accepted : rank ≤ (dag.parentOr src).rank)
    (few : dag.childs.length < overfullChilds) :
    ∃ effect, (dag.hears env rank src).effects = (dagProcessDio env (dag.ranked rank src)).2 ++ [effect] ∧
      effect.code = some ndRplDao ∧ effect.bytes = (dag.configured env rank src).daoBytes := by
  have childs := configured_childs env dag rank src
  rcases Dag.hears_cases available rank src with ⟨higher, _⟩ | ⟨_, large, _⟩ | ⟨_, _, heard⟩
  · exact absurd accepted (UInt16.not_le.mpr higher)
  · rw [daoBytes_overfull, ← Dag.configured, childs] at large
    omega
  · exact ⟨_, by rw [heard], rfl, rfl⟩

end

structure AcceptedFor (env : Env) (iface : Iface) (mem : Nat → UInt8) (len : Nat) (src : In6Addr) (dag : Dag) :
    Prop where
  type : mem 0 = ndRplMessage
  code : mem 1 = ndRplDagIo
  base : sizeofDio ≤ len
  found : dagLookup iface (mem 4) (addrAt mem 12) = some dag
  notRoot : dag.myRank ≠ 1
  parent : HasParent env dag
  accepted : ntohs (mem 6) (mem 7) ≤ (dag.parentOr src).rank

section

variable {env : Env} {iface : Iface} {mem : Nat → UInt8} {len : Nat} {src : In6Addr}

theorem processDio_messages (type : mem 0 = ndRplMessage) (code : mem 1 = ndRplDagIo) {effect : Effect}
    (member : effect ∈ (processDio env iface mem len src).effects) :
    effect.bytes = [] ∨ ∃ sender : Dag, effect.bytes = sender.daoBytes ∧ (sender.childs = [] ∨
      ∃ dag, AcceptedFor env iface mem len src dag ∧ sender.childs = dag.childs ∧
        dag.childs.length < overfullChilds) := by
  have way := processDio_case env iface mem len src
  generalize processDio env iface mem len src = out at way member
  cases way with
  | drops => simp [dropped] at member
  | oversized => simp at member
  | fails => simp at member
  | known dag reads base found notRoot =>
      rw [processDioRank_hears (Or.inr found)] at member
      rcases hears_messages (by simpa using member) with none | ⟨bytes, available, accepted, few⟩
      · exact Or.inl none
      · have accepts : AcceptedFor env iface mem len src dag :=
          ⟨type, code, base, found, notRoot, available, accepted⟩
        exact Or.inr ⟨_, bytes, Or.inr ⟨dag, accepts, configured_childs env dag _ src, few⟩⟩
  | joined dag pfx reads joins inside fresh =>
      have key : dag.dodagid = addrAt mem 12 := by rw [fresh]; rfl
      have empty : dag.childs = [] := by rw [fresh]; rfl
      rw [processDioRank_hears (Or.inr (dagLookup_withDag joins.missing key))] at member
      rcases List.mem_append.mp member with timer | heard
      · exact Or.inl (dagInitTimer_bytes timer)
      · rcases hears_messages heard with none | ⟨bytes, _⟩
        · exact Or.inl none
        · exact Or.inr ⟨_, bytes, Or.inl ((configured_childs env dag _ src).trans empty)⟩

theorem routine_small {effect : Effect} (routine : effect.Routine) :
    effect.bytes.length ≤ 52 ∧ effect.code ≠ some ndRplDao := by
  cases routine with
  | dio dag =>
      refine ⟨dioBytes_length_le dag, ?_⟩
      rw [dioMessage_code]
      decide
  | dis ifindex ifaddr => simp [Effect.code, Effect.bytes, Icmp6Hdr.bytes, ndRplDagIs, ndRplDao]
  | ack dag dst =>
      refine ⟨by simp [Effect.bytes, daoAckBytes_length], ?_⟩
      simp [Effect.code, Effect.bytes, Dag.daoAckBytes, Icmp6Hdr.bytes, ndRplDaoAck, ndRplDao]
  | childRoute ifindex dst via => exact ⟨by simp [Effect.bytes], code_of_bytes rfl _⟩
  | defaultRoute ifindex via => exact ⟨by simp [Effect.bytes], code_of_bytes rfl _⟩

theorem processIface_messages {effect : Effect} (member : effect ∈ (processIface env iface mem len src).effects) :
    (effect.bytes.length ≤ 52 ∧ effect.code ≠ some ndRplDao) ∨
      ∃ sender : Dag, effect.bytes = sender.daoBytes ∧ (sender.childs = [] ∨
        ∃ dag, AcceptedFor env iface mem len src dag ∧ sender.childs = dag.childs ∧
          dag.childs.length < overfullChilds) := by
  obtain ⟨handled, way, _, sameEffects, _⟩ := processIface_case env iface mem len src
  rw [sameEffects] at member
  cases way with
  | ignored => simp [dropped] at member
  | dis asks => exact Or.inl (routine_small (processDis_routine member))
  | dio _ code base named =>
      rcases processDio_messages (namedKey_dio code named).1 code member with none | dao
      · exact Or.inl ⟨by simp [none], code_of_bytes none _⟩
      · exact Or.inr dao
  | dao _ code base named => exact Or.inl (routine_small (processDao_routine base member))
  | daoack _ code base named => exact Or.inl (routine_small (processDaoack_routine base member))

theorem processIface_sends {dag : Dag} (accepted : AcceptedFor env iface mem len src dag)
    (few : dag.childs.length < overfullChilds) :
    ∃ effect ∈ (processIface env iface mem len src).effects, effect.bytes.length = 44 + 20 * dag.childs.length := by
  rw [(processIface_dio accepted.type accepted.code accepted.base (by simp [accepted.found])).2.1, accepted.found]
  simp only [slotDio, accepted.notRoot, if_false, Dag.reacts, List.nil_append]
  obtain ⟨effect, made, _, bytes⟩ := hears_sends accepted.parent accepted.accepted few
  refine ⟨effect, by rw [made]; exact List.mem_append_right _ (List.mem_singleton_self _), ?_⟩
  rw [bytes, Dag.daoBytes_length, configured_childs]

end

/-! Whole runs. -/

def Daemon.news (daemon : Daemon) (event : Event) : List Effect := (daemon.step event).log.drop daemon.log.length

/-- The daemon is running and accepts a DIO for a dag with so many children that its DAO is
still built but no longer fits a receive buffer. -/
def Daemon.Crowded (daemon : Daemon) (event : Event) : Prop :=
  daemon.fault = none ∧ ∃ env pkt iface dag, event = .packet env pkt ∧
    ifaceFindByIfindex daemon.ifaces pkt.ifindex = some iface ∧
    AcceptedFor env iface pkt.mem (pkt.len - 4) pkt.src dag ∧
    crowdedChilds ≤ dag.childs.length ∧ dag.childs.length < overfullChilds

section

variable {daemon : Daemon} {event : Event}

theorem Daemon.news_packet {env : Env} {pkt : Packet} {effect : Effect}
    (member : effect ∈ daemon.news (.packet env pkt)) :
    daemon.fault = none ∧ ∃ iface, ifaceFindByIfindex daemon.ifaces pkt.ifindex = some iface ∧
      effect ∈ (processIface env iface pkt.mem (pkt.len - 4) pkt.src).effects := by
  cases failed : daemon.fault with
  | some fault => simp [Daemon.news, Daemon.step, failed] at member
  | none =>
      rcases Daemon.packet_seen daemon pkt with unseen | ⟨iface, long, found⟩
      · simp [Daemon.news, Daemon.packet_dropped failed unseen] at member
      · rw [Daemon.news, Daemon.packet_effects failed long found] at member
        exact ⟨rfl, iface, found, member⟩

theorem Daemon.news_messages {effect : Effect} (member : effect ∈ daemon.news event) :
    (effect.bytes.length ≤ 52 ∧ effect.code ≠ some ndRplDao) ∨
      ∃ sender : Dag, effect.bytes = sender.daoBytes ∧
        (crowdedChilds ≤ sender.childs.length → daemon.Crowded event) := by
  cases event with
  | packet env pkt =>
      obtain ⟨running, iface, found, made⟩ := Daemon.news_packet member
      rcases processIface_messages made with small | ⟨sender, bytes, childs⟩
      · exact Or.inl small
      · refine Or.inr ⟨sender, bytes, ?_⟩
        intro many
        rcases childs with none | ⟨dag, accepted, same, few⟩
        · simp [none, crowdedChilds] at many
        · rw [same] at many
          exact ⟨running, env, pkt, iface, dag, rfl, found, accepted, many, few⟩
  | trickle env watcher => exact Or.inl (routine_small (Daemon.timer_routine (by simp) member))
  | dis env ptr => exact Or.inl (routine_small (Daemon.timer_routine (by simp) member))

theorem Daemon.news_fit_iff :
    (∀ effect ∈ daemon.news event, effect.bytes.length ≤ msgSizeRecv) ↔ ¬ daemon.Crowded event := by
  constructor
  · rintro fit ⟨running, env, pkt, iface, dag, rfl, found, accepted, many, few⟩
    have long : 4 ≤ pkt.len := by
      have base := accepted.base
      simp only [sizeofDio] at base
      omega
    obtain ⟨effect, made, size⟩ := processIface_sends accepted few
    have small := fit effect (by rw [Daemon.news, Daemon.packet_effects running long found]; exact made)
    rw [size] at small
    simp only [msgSizeRecv, crowdedChilds] at small many
    omega
  · intro uncrowded effect member
    rcases Daemon.news_messages member with ⟨small, _⟩ | ⟨sender, bytes, crowds⟩
    · simp only [msgSizeRecv]
      omega
    · have few := mt crowds uncrowded
      rw [bytes]
      have fits := mt (daoBytes_crowded sender).mp few
      omega

end

/-! The receiver. -/

/-- `recv_rs_ra` on a message: what exceeds the buffer is lost, and the length is that of
the rest. `buffer` is what the buffer held before. -/
def recvRsRa (buffer : Nat → UInt8) (bytes : List UInt8) (src : In6Addr) (ifindex : UInt32) : Packet where
  mem := overlay (bytes.take msgSizeRecv) buffer
  len := (bytes.take msgSizeRecv).length
  src := src
  ifindex := ifindex

theorem recvRsRa_bytes (buffer : Nat → UInt8) {bytes : List UInt8} (fits : bytes.length ≤ msgSizeRecv)
    (src : In6Addr) (ifindex : UInt32) : (recvRsRa buffer bytes src ifindex).bytes = bytes := by
  have whole : bytes.take msgSizeRecv = bytes := List.take_of_length_le fits
  simp only [Packet.bytes, recvRsRa, whole]
  exact slice_overlay bytes buffer

/-- A peer that has the dag of the sender and receives the packet has, afterwards, the
children it had and those the sender names. -/
def Registers (sender : Dag) (pkt : Packet) : Prop :=
  ∀ env ifaces iface dag, env.AllocsSucceed → ifaceFindByIfindex ifaces pkt.ifindex = some iface →
    dagLookup iface sender.rpl.instanceId sender.dodagid = some dag →
    ∃ later next, ifaceFindByIfindex (process env ifaces pkt).ifaces pkt.ifindex = some later ∧
      dagLookup later sender.rpl.instanceId sender.dodagid = some next ∧
      ∀ addr, addr ∈ next.childs.map (·.addr) ↔
        addr ∈ dag.childs.map (·.addr) ∨ addr ∈ sender.self :: sender.childs.map (·.addr)

theorem registers_addrs (dag : Dag) (src : In6Addr) (targets : List In6Addr) (addr : In6Addr) :
    addr ∈ (dag.registers src targets).childs.map (·.addr) ↔ addr ∈ dag.childs.map (·.addr) ∨ addr ∈ targets := by
  constructor
  · intro member
    obtain ⟨child, childMember, rfl⟩ := List.mem_map.mp member
    rcases mem_addNews childMember with old | ⟨offered, offeredMember, _, rfl⟩
    · exact Or.inl (List.mem_map_of_mem old)
    · exact Or.inr offeredMember
  · rintro (old | offered)
    · exact ((addNews_extends dag.childs targets).map _).subset old
    · exact offered_mem_addNews (fun _ => rfl) offered

theorem registers_of_bytes {sender : Dag} {pkt : Packet} (carried : pkt.bytes = sender.daoBytes) :
    Registers sender pkt := by
  intro env ifaces iface dag allocs known found
  obtain ⟨reads, handled⟩ := processDao_daoBytes pkt.src allocs carried found
  have long : 4 ≤ pkt.len := by
    have size := congrArg List.length carried
    rw [Packet.bytes, slice_length, Dag.daoBytes_length] at size
    omega
  refine ⟨_, _, process_ifaceFind long known, ?_, registers_addrs dag pkt.src sender.daoTargets⟩
  have key : dag.dodagid = sender.dodagid := dagLookup_dodagid found
  rw [handled]
  exact dagLookup_dagWrite_const found key

/-- Every message the step builds is at most 1500 bytes long. -/
def Daemon.Fits (daemon : Daemon) (event : Event) : Prop :=
  ∀ effect ∈ daemon.news event, effect.bytes.length ≤ msgSizeRecv

/-- In every run in which no DIO is accepted for a dag that lists between 73 and 3274 children
and none offers a new dag more than 128 bits of prefix, the messages that the steps build are
at most 1500 bytes long, a peer receives each of them whole, and one that has the dag registers
exactly the targets of a DAO. Where the second part of the condition holds, the first does
exactly if the messages are no longer. -/
theorem run_messages_fit_iff (daemon : Daemon) (events : List Event) :
    (AllSteps Daemon.step (fun state event => ¬ state.Oversized event ∧ ¬ state.Crowded event) daemon events →
      AllSteps Daemon.step Daemon.Fits daemon events ∧
        AllSteps Daemon.step
          (fun state event => ∀ effect ∈ state.news event, ∀ buffer src ifindex,
            (recvRsRa buffer effect.bytes src ifindex).bytes = effect.bytes ∧
              (effect.code = some ndRplDao → ∃ sender : Dag, effect.bytes = sender.daoBytes ∧
                Registers sender (recvRsRa buffer effect.bytes src ifindex)))
          daemon events) ∧
    (AllSteps Daemon.step (fun state event => ¬ state.Oversized event) daemon events →
      AllSteps Daemon.step Daemon.Fits daemon events →
        AllSteps Daemon.step (fun state event => ¬ state.Oversized event ∧ ¬ state.Crowded event) daemon events) := by
  constructor
  · intro uncrowded
    have fit : AllSteps Daemon.step Daemon.Fits daemon events :=
      allSteps_imp (fun _ _ both => Daemon.news_fit_iff.mpr both.2) uncrowded
    refine ⟨fit, allSteps_imp ?_ fit⟩
    intro state event fits effect member buffer src ifindex
    have whole := recvRsRa_bytes buffer (fits effect member) src ifindex
    refine ⟨whole, ?_⟩
    intro dao
    rcases Daemon.news_messages member with ⟨_, other⟩ | ⟨sender, bytes, _⟩
    · exact absurd dao other
    · exact ⟨sender, bytes, registers_of_bytes (whole.trans bytes)⟩
  · intro small fit
    exact allSteps_and small (allSteps_imp (fun _ _ => Daemon.news_fit_iff.mp) fit)

theorem joined_crowded {count : Nat} {daemon : Daemon} {iface : Iface} {dag : Dag}
    (full : Joined count daemon iface dag) (many : crowdedChilds ≤ count) (few : count < overfullChilds) :
    daemon.Crowded (.packet .granting foreignDioPacket) := by
  have recorded : dag.parentOr foreignDioPacket.src = ⟨linkLocal 9, 1⟩ := by simp [Dag.parentOr, full.parent]
  have size : dag.childs.length = count := by simp [full.childs, hostChilds]
  refine ⟨full.running, .granting, foreignDioPacket, iface, dag, rfl, full.known, ?_, by omega, by omega⟩
  refine ⟨rfl, rfl, by decide, full.found, by rw [full.rank]; decide, Or.inr rfl, ?_⟩
  rw [recorded]
  decide

theorem floodEvents_too_long :
    ∃ daemon, Daemon.boot sampleInetPton [sampleConf "fd00::/64"] = .ok daemon ∧
      ¬ AllSteps Daemon.step Daemon.Fits daemon (floodEvents 73) := by
  obtain ⟨daemon, booted⟩ := boot_sample
  refine ⟨daemon, booted, ?_⟩
  intro fit
  obtain ⟨_, _, start⟩ := joined_foreignDio booted
  obtain ⟨iface, dag, full⟩ := joined_run 73 (by decide) start
  rw [floodEvents, allSteps_append, List.foldl_append] at fit
  exact Daemon.news_fit_iff.mp fit.2.1 (joined_crowded full (by decide) (by decide))

end Rpld
