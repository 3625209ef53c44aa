import Rpld.Faults
import Rpld.DaoCodec

/-!
Prefix lengths over whole runs. Neither `parse_ipv6_prefix` nor `process_dio` compares a
length with 128. A run that is never offered a larger one keeps every dag's length valid
and never copies past an address.
-/

namespace Rpld

open Memory

/-- The number behind the slash of a prefix in the configuration. -/
def prefixNumber (text : List Char) : Nat := strtoul ((text.dropWhile (· ≠ '/')).drop 1)

def DagConf.Valid (conf : DagConf) : Prop :=
  ∀ text, conf.destPrefix = some text → prefixNumber text ≤ 128

theorem parseIpv6Prefix_len {inetPton : List Char → Option In6Addr} {text : List Char} {dest : In6Prefix}
    (parsed : parseIpv6Prefix inetPton text = .ok dest) : dest.len = UInt8.ofNat (prefixNumber text) := by
  unfold parseIpv6Prefix at parsed
  unfold prefixNumber
  split at parsed
  · simp at parsed
  · rename_i slash tail split
    rw [split, List.drop_one, List.tail_cons]
    split at parsed
    · simp at parsed
    · simp only at parsed
      split at parsed
      · simp at parsed
      · split at parsed
        · simp at parsed
        · split at parsed
          · simp at parsed
          · simp only [Except.ok.injEq] at parsed
            rw [← parsed]

theorem configDest_len {inetPton : List Char → Option In6Addr} {conf : DagConf} {dest : In6Prefix}
    (valid : conf.Valid) (parsed : configDest inetPton conf = .ok dest) : dest.len.toNat ≤ 128 := by
  unfold configDest at parsed
  split at parsed
  · rename_i text given
    have bound := valid text given
    rw [parseIpv6Prefix_len parsed, UInt8.toNat_ofNat']
    omega
  · simp only [Except.ok.injEq] at parsed
    have default : (genRandomPrivateUlaPfx conf.random).len.toNat = 64 := rfl
    rw [← parsed, default]
    decide

theorem boot_destValid {inetPton : List Char → Option In6Addr} {confs : List IfaceConf} {daemon : Daemon}
    (booted : Daemon.boot inetPton confs = .ok daemon)
    (configured : ∀ conf ∈ confs, ∀ dagConf ∈ conf.dagConfs, dagConf.Valid) :
    ∀ iface ∈ daemon.ifaces, iface.DestValid := by
  obtain ⟨_, effects, loaded⟩ := boot_ifaces booted
  refine configLoad_forall ?_ ?_ configured loaded
  · intro head entry member
    simp [Iface.adverts] at member
  · intro iface instanceId conf dest dodagid valid parsed _ before
    exact withDag_allAdverts before (configDest_len valid parsed)

theorem follows_destValid {before after : Iface}
    (follows : Follows (fun advert => advert.dest.len.toNat ≤ 128) before after)
    (valid : before.DestValid) : after.DestValid :=
  follows_allAdverts follows (fun _ _ _ _ made => made) valid

/-- In a run from a configuration whose prefix lengths are at most 128, to which no DIO
offers a new dag with a larger one, every dag always has a valid prefix length, and no
copy of a prefix goes past its object. -/
theorem run_dest_len_valid {inetPton : List Char → Option In6Addr} {confs : List IfaceConf}
    {daemon : Daemon} (booted : Daemon.boot inetPton confs = .ok daemon)
    (configured : ∀ conf ∈ confs, ∀ dagConf ∈ conf.dagConfs, dagConf.Valid) {events : List Event}
    (received : Runs.AllSteps Daemon.step (fun state event => ¬ state.Oversized event) daemon events) :
    (∀ iface ∈ (daemon.run events).ifaces, ∀ rpl ∈ iface.rpls, ∀ dag ∈ rpl.dags,
      dag.dest.len.toNat ≤ 128) ∧
      (daemon.run events).fault ≠ some .overrun := by
  have start := boot_destValid booted configured
  constructor
  · intro iface member
    exact allAdverts_iff.mp
      (Daemon.run_forall_iface (fun _ _ => follows_destValid) start events iface member)
  · have both := @Runs.foldl_invariant _ _ Daemon.step (fun state event => ¬ state.Oversized event)
      (fun state => (∀ iface ∈ state.ifaces, iface.DestValid) ∧ state.fault ≠ some .overrun) ?_ events
      daemon ⟨start, by simp [(boot_ifaces booted).1]⟩ received
    · exact both.2
    · rintro state event small ⟨valid, intact⟩
      refine ⟨Daemon.run_forall_iface (fun _ _ => follows_destValid) valid [event], ?_⟩
      cases running : state.fault with
      | some fault =>
          simp only [Daemon.step, running]
          rwa [running] at intact
      | none =>
          intro exceeds
          exact small (Daemon.step_overrun running valid exceeds)

/-! A border router with one interface and one dag. -/

def sampleInetPton (text : List Char) : Option In6Addr :=
  if text = "fd00::".toList then some sampleDest.pfx
  else if text = "fe80::1".toList then some (linkLocal 1)
  else none

def sampleConf (destPrefix : String) : IfaceConf where
  ifname := some "lowpan0".toList
  dodagRoot := some true
  rpls := some [⟨some 1, some [⟨some destPrefix.toList, none, some "fe80::1".toList, none, fun _ => 0,
    .granting⟩]⟩]
  allocated := true
  forwarding := true
  ifindex := fun _ => 1
  llinfo := fun _ => ⟨[2, 0, 0, 0, 0, 0, 0, 1], by simp⟩
  linkLocal := fun _ => some (linkLocal 1)

theorem boot_sample : ∃ daemon, Daemon.boot sampleInetPton [sampleConf "fd00::/64"] = .ok daemon := ⟨_, rfl⟩

def foreignDioPacket : Packet :=
  ⟨overlay ([ndRplMessage, ndRplDagIo, 0, 0, 1, 1, 0, 1, 0, 0, 0, 0] ++ (linkLocal 9).s6Addr ++
    [0x3, 14, 64, 0, 0, 0, 0, 0]) fun _ => 0, 44, linkLocal 9, 1⟩

theorem run_dest_len_valid_foreignDio :
    ∃ daemon, Daemon.boot sampleInetPton [sampleConf "fd00::/64"] = .ok daemon ∧
      (daemon.run [.packet .granting foreignDioPacket]).fault ≠ some .overrun := by
  refine ⟨_, rfl, ?_⟩
  refine (@run_dest_len_valid sampleInetPton [sampleConf "fd00::/64"] _ rfl ?_
    [.packet .granting foreignDioPacket] ⟨?_, trivial⟩).2
  · intro conf member dagConf dagMember text given
    simp only [List.mem_singleton] at member
    subst member
    simp only [IfaceConf.dagConfs, sampleConf, if_true, Option.getD_some, List.flatMap_cons,
      List.flatMap_nil, List.append_nil, List.mem_singleton] at dagMember
    subst dagMember
    simp only [Option.some.injEq] at given
    subst given
    decide
  · rintro ⟨iface, _, oversized⟩
    exact absurd oversized.prefixlen (by decide)

def longPrefixPacket : Packet :=
  ⟨overlay ([ndRplMessage, ndRplDagIo, 0, 0, 1, 1, 0, 1, 0, 0, 0, 0] ++ (linkLocal 9).s6Addr ++
    [0x3, 31, 200, 0, 0, 0, 0, 0]) fun _ => 0, 61, linkLocal 9, 1⟩

theorem run_dest_len_too_long :
    (∃ daemon, Daemon.boot sampleInetPton [sampleConf "fd00::/200"] = .ok daemon ∧
      ∃ iface ∈ daemon.ifaces, ∃ rpl ∈ iface.rpls, ∃ dag ∈ rpl.dags, dag.dest.len = 200 ∧
        (daemon.run [.trickle .granting dag.watcher]).fault = some .overrun) ∧
    ∃ daemon, Daemon.boot sampleInetPton [sampleConf "fd00::/64"] = .ok daemon ∧
      (daemon.run [.packet .granting longPrefixPacket]).fault = some .overrun := by
  refine ⟨⟨_, rfl, _, .head _, _, .head _, _, .head _, rfl, ?_⟩, _, rfl, ?_⟩
  · rfl
  · rfl

end Rpld
