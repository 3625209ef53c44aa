import Rpld.SlotRuns

/-!
Which interface a packet finds. `config_load` appends one interface for each entry and
asks the kernel for its index, but never whether an earlier entry has the same one;
`iface_find_by_ifindex` returns the first. So every interface hears its own packets, in
every state of every run, exactly when no two entries of the configuration name the same
interface.
-/

namespace Rpld

open FirstMatch Runs

/-- What arrives on the interface is looked up in the tables that the timers of its dags
send from. -/
structure Daemon.Reached (daemon : Daemon) (iface : Iface) : Prop where
  found : ifaceFindByIfindex daemon.ifaces iface.ifindex = some iface
  tables : ∀ instanceId dodagid,
    ((ifaceFindByIfindex daemon.ifaces iface.ifindex).bind fun heard => dagLookup heard instanceId dodagid) =
      daemon.watched ⟨iface.ptr, instanceId, dodagid⟩

section

variable {daemon : Daemon}

theorem Daemon.reached_of_find {iface : Iface} (sound : daemon.Sound) (member : iface ∈ daemon.ifaces)
    (found : ifaceFindByIfindex daemon.ifaces iface.ifindex = some iface) : daemon.Reached iface := by
  refine ⟨found, ?_⟩
  intro instanceId dodagid
  rw [found, Option.bind_some, Daemon.watched_of_find sound member rfl]

theorem Daemon.reached_iff (sound : daemon.Sound) :
    (∀ iface ∈ daemon.ifaces, daemon.Reached iface) ↔ (daemon.ifaces.map (·.ifindex)).Nodup := by
  have objects : daemon.ifaces.Nodup := List.Nodup.of_map _ sound.ptrs
  constructor
  · intro reached
    rw [List.nodup_map_iff_inj_on objects]
    intro one oneMember two twoMember same
    have first := (reached one oneMember).found
    have second := (reached two twoMember).found
    rw [same, second, Option.some.injEq] at first
    exact first.symm
  · intro distinct iface member
    exact Daemon.reached_of_find sound member (find?_of_nodup distinct member)

end

section

variable {inetPton : List Char → Option In6Addr} {confs : List IfaceConf} {daemon : Daemon}

theorem configLoadIfaces_indexes {ptr : Nat} {ifaces : List Iface} {effects : List Effect}
    (accepted : configLoadIfaces inetPton ptr confs = .ok (ifaces, effects)) :
    ifaces.map (·.ifindex) = confs.map IfaceConf.index := by
  induction confs generalizing ptr ifaces effects with
  | nil =>
      simp only [configLoadIfaces, Except.ok.injEq, Prod.mk.injEq] at accepted
      rw [← accepted.1]
      rfl
  | cons conf rest ih =>
      obtain ⟨one, more, _, _, loads, others, rfl, _⟩ := configLoadIfaces_cons accepted
      rw [List.map_cons, List.map_cons, (configLoadIface_head loads).2, ih others]

theorem boot_indexes (booted : Daemon.boot inetPton confs = .ok daemon) :
    daemon.ifaces.map (·.ifindex) = confs.map IfaceConf.index := by
  obtain ⟨_, effects, loaded⟩ := boot_ifaces booted
  exact configLoadIfaces_indexes loaded

theorem Daemon.Over.indexes {heads : List IfaceHead} (fixed : daemon.Over heads) :
    daemon.ifaces.map (·.ifindex) = heads.map (·.ifindex) := by
  rw [← fixed.heads, List.map_map]
  rfl

/-- Every configured interface is reached by its packets all along a run exactly when the
entries of the configuration name interfaces with different indexes. -/
theorem run_reached_iff_indexes (booted : Daemon.boot inetPton confs = .ok daemon) (events : List Event) :
    Always Daemon.step (fun state => ∀ iface ∈ state.ifaces, state.Reached iface) daemon events ↔
      (confs.map IfaceConf.index).Nodup := by
  rw [← boot_indexes booted]
  constructor
  · intro always
    exact (Daemon.reached_iff (boot_sound booted)).mp (always_head always)
  · intro distinct
    rw [always_iff]
    intro before after _
    have fixed : (before.foldl Daemon.step daemon).Over (daemon.ifaces.map (·.toIfaceHead)) :=
      foldl_invariant_always (fun state event => Daemon.step_over event) before (boot_over booted)
    rw [Daemon.reached_iff fixed.sound, fixed.indexes, ← (boot_over booted).indexes]
    exact distinct

end

theorem run_reached_iff_indexes_sample :
    ∃ daemon, Daemon.boot sampleInetPton [sampleConf "fd00::/64"] = .ok daemon ∧
      Always Daemon.step (fun state => ∀ iface ∈ state.ifaces, state.Reached iface) daemon
        [.packet .granting foreignDioPacket] := by
  obtain ⟨daemon, booted⟩ := boot_sample
  exact ⟨daemon, booted, (run_reached_iff_indexes booted _).mpr (by decide)⟩

/-- Two entries for one interface are both accepted, and the second is never found. -/
theorem duplicate_iface_never_found :
    ∃ ifaces effects,
      configLoad sampleInetPton [sampleConf "fd00::/64", sampleConf "fd00::/64"] = .ok (ifaces, effects) ∧
        ¬ ∀ iface ∈ ifaces, ifaceFindByIfindex ifaces iface.ifindex = some iface := by
  refine ⟨_, _, rfl, ?_⟩
  decide

end Rpld
