import Rpld.DestLength

/-!
The 64 KiB limit of the send buffer over whole runs. Only the DAO grows with the state: it
names every child. A daemon ends with `exit(1)` exactly when it accepts a DIO for a dag
that lists 3275 children or more, and nothing bounds the child table.
-/

namespace Rpld

open Memory AddNew

theorem run_of_fault {daemon : Daemon} {fault : Fault} (failed : daemon.fault = some fault)
    (events : List Event) : daemon.run events = daemon := by
  induction events with
  | nil => rfl
  | cons event rest ih =>
      have stays : daemon.step event = daemon := by simp [Daemon.step, failed]
      simpa [Daemon.run, stays] using ih

def Daemon.Safe (daemon : Daemon) (event : Event) : Prop := daemon.fault = none → ¬ daemon.Overfull event

theorem allSteps_safe_of_fault {daemon : Daemon} {fault : Fault} (failed : daemon.fault = some fault)
    (events : List Event) : Runs.AllSteps Daemon.step Daemon.Safe daemon events := by
  induction events with
  | nil => trivial
  | cons event rest ih =>
      have stays : daemon.step event = daemon := by simp [Daemon.step, failed]
      refine ⟨by simp [Daemon.Safe, failed], ?_⟩
      rw [stays]
      exact ih

theorem run_exits_iff {daemon : Daemon} (running : daemon.fault = none) (events : List Event) :
    (daemon.run events).fault ≠ some .exit ↔ Runs.AllSteps Daemon.step Daemon.Safe daemon events := by
  induction events generalizing daemon with
  | nil => simp [Daemon.run, running, Runs.AllSteps]
  | cons event rest ih =>
      have unfolded : daemon.run (event :: rest) = (daemon.step event).run rest := rfl
      have here : daemon.Safe event ↔ (daemon.step event).fault ≠ some .exit := by
        rw [Ne, Daemon.step_exit_iff running]
        simp [Daemon.Safe, running]
      rw [unfolded, Runs.AllSteps, here]
      cases next : (daemon.step event).fault with
      | none =>
          have later := ih next
          simp only [ne_eq, reduceCtorEq, not_false_eq_true, true_and]
          exact later
      | some fault =>
          rw [run_of_fault next, next]
          simp [allSteps_safe_of_fault next]

/-- From every configuration, a run ends without `exit(1)` in which no DIO is accepted for a dag
that lists 3275 children or more and none offers a new dag more than 128 bits of prefix. Where
the second part of the condition holds, the first does exactly if the run ends so. -/
theorem run_never_exits_iff {inetPton : List Char → Option In6Addr} {confs : List IfaceConf}
    {daemon : Daemon} (booted : Daemon.boot inetPton confs = .ok daemon) (events : List Event) :
    (Runs.AllSteps Daemon.step (fun state event => ¬ state.Oversized event ∧ state.Safe event) daemon events →
      (daemon.run events).fault ≠ some .exit) ∧
    (Runs.AllSteps Daemon.step (fun state event => ¬ state.Oversized event) daemon events →
      (daemon.run events).fault ≠ some .exit →
        Runs.AllSteps Daemon.step (fun state event => ¬ state.Oversized event ∧ state.Safe event) daemon events) := by
  have exactly := run_exits_iff (boot_ifaces booted).1 events
  constructor
  · intro safe
    exact exactly.mpr (Runs.allSteps_imp (fun _ _ => And.right) safe)
  · intro small returns
    exact Runs.allSteps_and small (exactly.mp returns)

/-! A daemon that is made to exit by 44-byte packets. -/

def msgSizeRecv : Nat := 1500

def hostAddr (host : Nat) : In6Addr :=
  ⟨[0xfd, 0, 0, 0, 0, 0, 0, 0, 0, 0, 0, 0, 0, 0, UInt8.ofNat (host / 256), UInt8.ofNat (host % 256)], rfl⟩

theorem hostAddr_inj {first second : Nat} (firstBound : first < 65536) (secondBound : second < 65536)
    (same : hostAddr first = hostAddr second) : first = second := by
  simp only [hostAddr, In6Addr.mk.injEq, List.cons.injEq, and_true, true_and] at same
  have high := congrArg UInt8.toNat same.1
  have low := congrArg UInt8.toNat same.2
  simp only [UInt8.toNat_ofNat'] at high low
  omega

def hostDag (host : Nat) : Dag :=
  { freshDag (linkIface 3) 1 (linkLocal 9) defaultTickleT 3 1 sampleDest with self := hostAddr host }

def hostPacket (host : Nat) : Packet :=
  ⟨overlay (hostDag host).daoBytes fun _ => 0, (hostDag host).daoBytes.length, linkLocal 3, 1⟩

theorem run_never_exits_iff_hostPacket :
    ∃ daemon, Daemon.boot sampleInetPton [sampleConf "fd00::/64"] = .ok daemon ∧
      (daemon.run [.packet .granting (hostPacket 0)]).fault ≠ some .exit := by
  obtain ⟨daemon, booted⟩ := boot_sample
  refine ⟨daemon, booted, (run_never_exits_iff booted _).1 ⟨⟨Daemon.not_oversized (by decide), ?_⟩, trivial⟩⟩
  rintro _ ⟨iface, dag, _, overfull⟩
  exact absurd overfull.code (by decide)

def hostChilds (count : Nat) : List Child := (List.range count).map fun host => ⟨hostAddr host, linkLocal 3⟩

structure Joined (count : Nat) (daemon : Daemon) (iface : Iface) (dag : Dag) : Prop where
  running : daemon.fault = none
  known : ifaceFindByIfindex daemon.ifaces 1 = some iface
  found : dagLookup iface 1 (linkLocal 9) = some dag
  rank : dag.myRank = 2
  parent : dag.parent = some ⟨linkLocal 9, 1⟩
  childs : dag.childs = hostChilds count

theorem joined_step {count : Nat} {daemon : Daemon} {iface : Iface} {dag : Dag} (bound : count < 65536)
    (joined : Joined count daemon iface dag) :
    ∃ next nextDag, Joined (count + 1) (daemon.step (.packet .granting (hostPacket count))) next nextDag := by
  have bytes : slice (hostPacket count).mem 0 (hostPacket count).len = (hostDag count).daoBytes :=
    slice_overlay _ _
  have found : dagLookup iface (hostDag count).rpl.instanceId (hostDag count).dodagid = some dag :=
    joined.found
  obtain ⟨reads, handled⟩ := processDao_daoBytes (linkLocal 3) Env.granting_allocs bytes found
  have long : 4 ≤ (hostPacket count).len := by
    simp only [hostPacket, Dag.daoBytes_length]
    omega
  have stepped : daemon.step (.packet .granting (hostPacket count)) =
      daemon.packet .granting (hostPacket count) := by simp [Daemon.step, joined.running]
  have fresh : hostAddr count ∉ dag.childs.map (·.addr) := by
    rw [joined.childs]
    simp only [hostChilds, List.map_map, List.mem_map, List.mem_range, Function.comp_def, not_exists, not_and]
    intro host below same
    have equal := hostAddr_inj (by omega) bound same
    omega
  have grown : (dag.registers (linkLocal 3) (hostDag count).daoTargets).childs = hostChilds (count + 1) := by
    have targets : (hostDag count).daoTargets = [hostAddr count] := rfl
    simp only [Dag.registers, targets, addTargets, addNews_cons, addNews_nil, addNew]
    rw [if_neg fresh, joined.childs]
    simp [hostChilds, List.range_succ]
  rw [stepped, Daemon.packet, process_of_find long joined.known]
  simp only [hostPacket] at handled ⊢
  rw [handled]
  refine ⟨dagWrite iface 1 (linkLocal 9) fun _ => dag.registers (linkLocal 3) (hostDag count).daoTargets,
    dag.registers (linkLocal 3) (hostDag count).daoTargets, rfl, ?_, ?_, joined.rank, joined.parent, grown⟩
  · rw [ifaceFindByIfindex, FirstMatch.find?_updateFirst]
    · rw [show daemon.ifaces.find? (·.ifindex == 1) = some iface from joined.known]
      rfl
    · intro other _
      have index := List.find?_some joined.known
      exact index
  · have key : dag.dodagid = linkLocal 9 := dagLookup_dodagid joined.found
    exact dagLookup_dagWrite_const joined.found key

theorem joined_run (count : Nat) (bound : count ≤ 65536) {daemon : Daemon} {iface : Iface} {dag : Dag}
    (joined : Joined 0 daemon iface dag) :
    ∃ next nextDag, Joined count
      (daemon.run ((List.range count).map fun host => .packet .granting (hostPacket host))) next nextDag := by
  induction count with
  | zero => exact ⟨iface, dag, joined⟩
  | succ count ih =>
      obtain ⟨next, nextDag, before⟩ := ih (by omega)
      rw [List.range_succ, List.map_append, Daemon.run, List.foldl_append]
      exact joined_step (by omega) before

theorem joined_foreignDio {daemon : Daemon}
    (booted : Daemon.boot sampleInetPton [sampleConf "fd00::/64"] = .ok daemon) :
    ∃ iface dag, Joined 0 (daemon.run [.packet .granting foreignDioPacket]) iface dag := by
  have evaluated : ((Daemon.boot sampleInetPton [sampleConf "fd00::/64"]).toOption.bind fun daemon =>
      (ifaceFindByIfindex (daemon.run [.packet .granting foreignDioPacket]).ifaces 1).bind fun iface =>
        (dagLookup iface 1 (linkLocal 9)).map fun dag =>
          ((daemon.run [.packet .granting foreignDioPacket]).fault, dag.myRank, dag.parent, dag.childs)) =
      some (none, 2, some ⟨linkLocal 9, 1⟩, []) := by decide
  rw [booted, Except.toOption, Option.bind_some, Option.bind_eq_some_iff] at evaluated
  obtain ⟨iface, known, looked⟩ := evaluated
  rw [Option.map_eq_some_iff] at looked
  obtain ⟨dag, found, fields⟩ := looked
  simp only [Prod.mk.injEq] at fields
  exact ⟨iface, dag, fields.1, known, found, fields.2.1, fields.2.2.1, fields.2.2.2⟩

theorem joined_exits {count : Nat} {daemon : Daemon} {iface : Iface} {dag : Dag}
    (full : Joined count daemon iface dag) (many : overfullChilds ≤ count) :
    (daemon.step (.packet .granting foreignDioPacket)).fault = some .exit := by
  refine (Daemon.step_exit_iff full.running _).mpr ⟨iface, dag, full.known, ?_⟩
  have recorded : dag.parentOr foreignDioPacket.src = ⟨linkLocal 9, 1⟩ := by
    simp [Dag.parentOr, full.parent]
  refine ⟨rfl, rfl, by decide, full.found, by rw [full.rank]; decide, ?_, ?_, ?_⟩
  · exact Or.inl (by rw [full.parent]; rfl)
  · rw [recorded]
    decide
  · rw [full.childs]
    simpa [hostChilds] using many

/-- The daemon joins, is offered `count` children, and hears a DIO again. -/
def floodEvents (count : Nat) : List Event :=
  [.packet .granting foreignDioPacket] ++
    (List.range count).map (fun host => .packet .granting (hostPacket host)) ++
    [.packet .granting foreignDioPacket]

theorem floodEvents_received (count : Nat) :
    ∀ event ∈ floodEvents count, ∃ env pkt, event = .packet env pkt ∧ pkt.len ≤ msgSizeRecv := by
  intro event member
  simp only [floodEvents, List.mem_append, List.mem_singleton, List.mem_map, List.mem_range] at member
  rcases member with (first | ⟨host, _, rfl⟩) | last
  · exact ⟨_, _, first, by decide⟩
  · refine ⟨_, _, rfl, ?_⟩
    simp [hostPacket, Dag.daoBytes_length, hostDag, freshDag, dagInit, msgSizeRecv]
  · exact ⟨_, _, last, by decide⟩

theorem floodEvents_exit {daemon : Daemon}
    (booted : Daemon.boot sampleInetPton [sampleConf "fd00::/64"] = .ok daemon) {count : Nat}
    (many : overfullChilds ≤ count) (bound : count ≤ 65536) :
    (daemon.run (floodEvents count)).fault = some .exit := by
  obtain ⟨_, _, start⟩ := joined_foreignDio booted
  obtain ⟨iface, dag, full⟩ := joined_run count bound start
  have split : daemon.run (floodEvents count) =
      ((daemon.run [.packet .granting foreignDioPacket]).run
        ((List.range count).map fun host => .packet .granting (hostPacket host))).step
        (.packet .granting foreignDioPacket) := by
    simp only [floodEvents, Daemon.run, List.foldl_append, List.foldl_cons, List.foldl_nil]
  rw [split]
  exact joined_exits full many

theorem run_floodEvents_exits :
    ∃ daemon, Daemon.boot sampleInetPton [sampleConf "fd00::/64"] = .ok daemon ∧
      (∀ event ∈ floodEvents 3275, ∃ env pkt, event = .packet env pkt ∧ pkt.len ≤ msgSizeRecv) ∧
      (daemon.run (floodEvents 3275)).fault = some .exit := by
  obtain ⟨daemon, booted⟩ := boot_sample
  exact ⟨daemon, booted, floodEvents_received 3275, floodEvents_exit booted (by decide) (by decide)⟩

end Rpld
