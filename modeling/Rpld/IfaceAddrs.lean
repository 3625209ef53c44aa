import Rpld.Lib.ByteOrder
import Rpld.Neighbours

/-!
The addresses of an interface: `get_iface_addrs` over the list that the system gives, in
whatever order. The addresses come out sorted, so their order does not depend on that of the
list; the link-local address that all messages are sent from is the first one in the list.
-/

namespace Rpld

open ByteOrder

inductive Sockaddr
  | inet6 (addr : In6Addr)
  | other

structure Ifaddrs where
  ifaName : List Char
  ifaAddr : Option Sockaddr

def cmpIfaceAddrs (a b : In6Addr) : Int := memcmp a.s6Addr b.s6Addr

structure IfaceAddrs where
  ifAddr : In6Addr
  ifAddrs : List In6Addr
  linkLocalSet : Bool

def ifaceAddrsTurn (name : List Char) (got : IfaceAddrs) (ifa : Ifaddrs) : IfaceAddrs :=
  match ifa.ifaAddr with
  | none => got
  | some .other => got
  | some (.inet6 addr) =>
      if ifa.ifaName ≠ name then got
      else if got.linkLocalSet ∨ addr.isLinkLocal = false then { got with ifAddrs := got.ifAddrs ++ [addr] }
      else ⟨addr, got.ifAddrs ++ [addr], true⟩

structure GotAddrs where
  result : Int
  ifAddr : In6Addr
  ifAddrs : List In6Addr

/-- Where `getifaddrs` fails there are no entries. `ifAddr` is what the caller had there, and
`*if_addrs` is `NULL`. The terminator is not sorted. -/
def getIfaceAddrs (getifaddrs : Option (List Ifaddrs)) (name : List Char) (ifAddr : In6Addr) : GotAddrs :=
  let got := (getifaddrs.getD []).foldl (ifaceAddrsTurn name) ⟨ifAddr, [], false⟩
  { result := if got.linkLocalSet then got.ifAddrs.length else -1
    ifAddr := got.ifAddr
    ifAddrs := got.ifAddrs.mergeSort (fun a b => decide (cmpIfaceAddrs a b ≤ 0)) ++ [.unspecified] }

/-! The order of the addresses. -/

def In6Addr.value (addr : In6Addr) : Nat := bigEndian 0 addr.s6Addr

theorem In6Addr.value_inj {a b : In6Addr} (same : a.value = b.value) : a = b :=
  In6Addr.ext (bigEndian_inj (a.size.trans b.size.symm) same)

theorem cmpIfaceAddrs_le_iff (a b : In6Addr) : cmpIfaceAddrs a b ≤ 0 ↔ a.value ≤ b.value :=
  memcmp_le_iff (a.size.trans b.size.symm) 0

theorem sorted_pairwise (addrs : List In6Addr) :
    (addrs.mergeSort fun a b => decide (cmpIfaceAddrs a b ≤ 0)).Pairwise fun a b => a.value ≤ b.value := by
  have sorted := @List.pairwise_mergeSort In6Addr (fun a b => decide (cmpIfaceAddrs a b ≤ 0)) ?trans ?total addrs
  case trans =>
    intro a b c first second
    rw [decide_eq_true_eq, cmpIfaceAddrs_le_iff] at *
    omega
  case total =>
    intro a b
    rw [Bool.or_eq_true, decide_eq_true_eq, decide_eq_true_eq, cmpIfaceAddrs_le_iff, cmpIfaceAddrs_le_iff]
    omega
  refine sorted.imp ?_
  intro a b le
  rwa [decide_eq_true_eq, cmpIfaceAddrs_le_iff] at le

theorem sorted_perm {first second : List In6Addr} (same : first.Perm second) :
    first.mergeSort (fun a b => decide (cmpIfaceAddrs a b ≤ 0)) =
      second.mergeSort fun a b => decide (cmpIfaceAddrs a b ≤ 0) := by
  refine List.Perm.eq_of_pairwise ?_ (sorted_pairwise first) (sorted_pairwise second) ?_
  · intro a b _ _ le ge
    exact In6Addr.value_inj (Nat.le_antisymm le ge)
  · exact (List.mergeSort_perm first _).trans (same.trans (List.mergeSort_perm second _).symm)

/-! The loop. -/

def Ifaddrs.own (name : List Char) (ifa : Ifaddrs) : Option In6Addr :=
  match ifa.ifaAddr with
  | some (.inet6 addr) => if ifa.ifaName = name then some addr else none
  | _ => none

theorem ifaceAddrsTurn_own (name : List Char) (got : IfaceAddrs) (ifa : Ifaddrs) :
    ifaceAddrsTurn name got ifa = match ifa.own name with
      | none => got
      | some addr =>
          if got.linkLocalSet ∨ addr.isLinkLocal = false then { got with ifAddrs := got.ifAddrs ++ [addr] }
          else ⟨addr, got.ifAddrs ++ [addr], true⟩ := by
  unfold ifaceAddrsTurn Ifaddrs.own
  split
  · rename_i none
    simp [none]
  · rename_i other
    simp [other]
  · rename_i addr inet
    by_cases named : ifa.ifaName = name
    · simp [inet, named]
    · simp [inet, named]

theorem foldl_turns (name : List Char) (listed : List Ifaddrs) (got : IfaceAddrs) :
    let own := listed.filterMap (Ifaddrs.own name)
    listed.foldl (ifaceAddrsTurn name) got =
      { ifAddr := if got.linkLocalSet then got.ifAddr else (own.find? In6Addr.isLinkLocal).getD got.ifAddr
        ifAddrs := got.ifAddrs ++ own
        linkLocalSet := got.linkLocalSet || (own.find? In6Addr.isLinkLocal).isSome } := by
  induction listed generalizing got with
  | nil => simp
  | cons ifa rest ih =>
      rw [List.foldl_cons, ih, ifaceAddrsTurn_own]
      cases mine : ifa.own name with
      | none => rw [List.filterMap_cons_none mine]
      | some addr =>
          rw [List.filterMap_cons_some mine]
          cases set : got.linkLocalSet with
          | true => simp
          | false =>
              cases linkLocal : addr.isLinkLocal with
              | true => simp [linkLocal]
              | false => simp [linkLocal]

section

variable (listed : Option (List Ifaddrs)) (name : List Char) (ifAddr : In6Addr)

def ownAddrs : List In6Addr := (listed.getD []).filterMap (Ifaddrs.own name)

theorem getIfaceAddrs_result :
    (getIfaceAddrs listed name ifAddr).result =
      if (ownAddrs listed name).any In6Addr.isLinkLocal then ((ownAddrs listed name).length : Int) else -1 := by
  simp only [getIfaceAddrs, foldl_turns, List.nil_append, Bool.false_or, List.isSome_find?]
  rfl

theorem getIfaceAddrs_ifAddr :
    (getIfaceAddrs listed name ifAddr).ifAddr = ((ownAddrs listed name).find? In6Addr.isLinkLocal).getD ifAddr := by
  simp only [getIfaceAddrs, foldl_turns, Bool.false_eq_true, if_false]
  rfl

theorem getIfaceAddrs_ifAddrs :
    (getIfaceAddrs listed name ifAddr).ifAddrs =
      (ownAddrs listed name).mergeSort (fun a b => decide (cmpIfaceAddrs a b ≤ 0)) ++ [.unspecified] := by
  simp only [getIfaceAddrs, foldl_turns, List.nil_append]
  rfl

/-- Whatever the system lists in whatever order: the addresses come out as all those of the
interface in ascending order with `::` after them, the result is their number, or -1 where
none is link-local, and the link-local address is the first one listed, or untouched where
there is none. A listing of the same addresses in another order gives the same addresses and
the same result. -/
theorem getIfaceAddrs_contract :
    let own := ownAddrs listed name
    let got := getIfaceAddrs listed name ifAddr
    (∃ sorted, got.ifAddrs = sorted ++ [.unspecified] ∧ sorted.Perm own ∧
      sorted.Pairwise fun a b => a.value ≤ b.value) ∧
    (got.result = if own.any In6Addr.isLinkLocal then (own.length : Int) else -1) ∧
    (got.ifAddr = (own.find? In6Addr.isLinkLocal).getD ifAddr) ∧
    ∀ other, (ownAddrs other name).Perm own →
      (getIfaceAddrs other name ifAddr).ifAddrs = got.ifAddrs ∧
        (getIfaceAddrs other name ifAddr).result = got.result := by
  intro own got
  have addrs := getIfaceAddrs_ifAddrs listed name ifAddr
  refine ⟨⟨_, addrs, List.mergeSort_perm own _, sorted_pairwise own⟩, getIfaceAddrs_result listed name ifAddr,
    getIfaceAddrs_ifAddr listed name ifAddr, ?_⟩
  intro other same
  refine ⟨?_, ?_⟩
  · rw [getIfaceAddrs_ifAddrs, sorted_perm same]
    exact addrs.symm
  · rw [getIfaceAddrs_result, same.length_eq, same.any_eq]
    exact (getIfaceAddrs_result listed name ifAddr).symm

end

/-! The source of every message. -/

/-- `config_load` takes the link-local address, or fails where there is none. -/
def linkLocalOf (listed : Option (List Ifaddrs)) (name : List Char) : Option In6Addr :=
  let got := getIfaceAddrs listed name .unspecified
  if got.result = -1 then none else some got.ifAddr

theorem linkLocalOf_eq (listed : Option (List Ifaddrs)) (name : List Char) :
    linkLocalOf listed name = (ownAddrs listed name).find? In6Addr.isLinkLocal := by
  simp only [linkLocalOf, getIfaceAddrs_result, getIfaceAddrs_ifAddr, ← List.isSome_find?]
  cases found : (ownAddrs listed name).find? In6Addr.isLinkLocal with
  | none => simp
  | some addr =>
      have number : ((ownAddrs listed name).length : Int) ≠ -1 := by omega
      simp [number]

section

variable {inetPton : List Char → Option In6Addr} {confs : List IfaceConf}

theorem configLoadInstances_head {iface loaded : Iface} {entries : List RplConf} {effects : List Effect}
    (accepted : configLoadInstances inetPton iface entries = .ok (loaded, effects)) :
    loaded.toIfaceHead = iface.toIfaceHead := by
  refine @configLoadInstances_keeps inetPton (fun other _ => other.toIfaceHead = iface.toIfaceHead) (fun _ => True) ?_ _
    (by simp) _ loaded [] effects rfl accepted
  intro other instanceId conf dest dodagid _ _ _ _ before
  exact (withDag_head _).trans before

/-- The interface is one of the configuration, under the index and with the address that the
system has for its name, and with the link-layer address that it has for the index. -/
structure IfaceConf.Names (conf : IfaceConf) (ifname : List Char) (head : IfaceHead) : Prop where
  named : conf.ifname = some ifname
  index : head.ifindex = conf.ifindex (ifname.take 16)
  addressed : conf.linkLocal (ifname.take 16) = some head.ifaddr
  linked : head.llinfo = conf.llinfo head.ifindex

theorem configLoadIface_names {ptr : Nat} {conf : IfaceConf} {loaded : Iface} {effects : List Effect}
    (accepted : configLoadIface inetPton ptr conf = .ok (loaded, effects)) :
    ∃ ifname, conf.Names ifname loaded.toIfaceHead := by
  unfold configLoadIface at accepted
  split at accepted
  · rename_i ifname _ named _
    simp only at accepted
    split at accepted
    · simp at accepted
    · split at accepted
      · rename_i ifaddr dodagRoot addressed _
        split at accepted
        · split at accepted
          · simp at accepted
          · have head := configLoadInstances_head accepted
            rw [head]
            exact ⟨ifname, named, rfl, addressed, rfl⟩
        · simp only [Except.ok.injEq, Prod.mk.injEq] at accepted
          rw [← accepted.1]
          exact ⟨ifname, named, rfl, addressed, rfl⟩
      · simp at accepted
  · simp at accepted

theorem configLoadIfaces_names {ptr : Nat} {ifaces : List Iface} {effects : List Effect}
    (accepted : configLoadIfaces inetPton ptr confs = .ok (ifaces, effects)) :
    ∀ iface ∈ ifaces, ∃ conf ∈ confs, ∃ ifname, conf.Names ifname iface.toIfaceHead := by
  induction confs generalizing ptr ifaces effects with
  | nil =>
      simp only [configLoadIfaces, Except.ok.injEq, Prod.mk.injEq] at accepted
      rw [← accepted.1]
      simp
  | cons conf rest ih =>
      obtain ⟨one, more, _, _, loads, others, rfl, _⟩ := configLoadIfaces_cons accepted
      intro iface member
      rcases List.mem_cons.mp member with rfl | later
      · exact ⟨conf, by simp, configLoadIface_names loads⟩
      · obtain ⟨other, inRest, names⟩ := ih others iface later
        exact ⟨other, List.mem_cons_of_mem _ inRest, names⟩

theorem boot_names {daemon : Daemon} (booted : Daemon.boot inetPton confs = .ok daemon) :
    ∀ iface ∈ daemon.ifaces, ∃ conf ∈ confs, ∃ ifname, conf.Names ifname iface.toIfaceHead := by
  obtain ⟨_, effects, loaded⟩ := boot_ifaces booted
  exact configLoadIfaces_names loaded

/-- In every run, whatever arrives, each message is sent on an interface of the configuration,
from the first link-local address that the system listed under its name when it was loaded. -/
theorem run_sources_linkLocal {listed : IfaceConf → Option (List Ifaddrs)}
    (asked : ∀ conf ∈ confs, conf.linkLocal = linkLocalOf (listed conf)) {daemon : Daemon}
    (booted : Daemon.boot inetPton confs = .ok daemon) (events : List Event) :
    ∀ ifindex src dst bytes, .sendmsg ifindex src dst bytes ∈ (daemon.run events).log →
      ∃ conf ∈ confs, ∃ ifname, conf.ifname = some ifname ∧ ifindex = conf.ifindex (ifname.take 16) ∧
        (ownAddrs (listed conf) (ifname.take 16)).find? In6Addr.isLinkLocal = some src ∧ src.isLinkLocal = true := by
  intro ifindex src dst bytes member
  obtain ⟨head, known, allowed⟩ := (Daemon.run_attributed (boot_attributed booted) events).log _ member
  obtain ⟨iface, inIfaces, rfl⟩ := List.mem_map.mp known
  obtain ⟨rfl, rfl, _⟩ := allowed
  obtain ⟨conf, inConfs, ifname, names⟩ := boot_names booted iface inIfaces
  have addressed := names.addressed
  rw [asked conf inConfs, linkLocalOf_eq] at addressed
  exact ⟨conf, inConfs, ifname, names.named, names.index, addressed, List.find?_some addressed⟩

end

def sampleListing : List Ifaddrs :=
  [⟨"lo".toList, some .other⟩, ⟨"lowpan0".toList, some (.inet6 sampleDest.pfx)⟩,
    ⟨"lowpan0".toList, some (.inet6 (linkLocal 1))⟩]

def listedConf : IfaceConf := { sampleConf "fd00::/64" with linkLocal := linkLocalOf (some sampleListing) }

theorem run_sources_linkLocal_listedConf :
    ∃ daemon, Daemon.boot sampleInetPton [listedConf] = .ok daemon ∧
      ∀ ifindex src dst bytes,
        .sendmsg ifindex src dst bytes ∈ (daemon.run [.packet .granting foreignDioPacket]).log →
          src.isLinkLocal = true := by
  obtain ⟨daemon, booted⟩ : ∃ daemon, Daemon.boot sampleInetPton [listedConf] = .ok daemon := ⟨_, rfl⟩
  refine ⟨daemon, booted, ?_⟩
  intro ifindex src dst bytes member
  have asked : ∀ conf ∈ [listedConf], conf.linkLocal = linkLocalOf (some sampleListing) := by
    intro conf inConfs
    rw [List.mem_singleton.mp inConfs]
    rfl
  obtain ⟨_, _, _, _, _, _, isLinkLocal⟩ := run_sources_linkLocal asked booted _ ifindex src dst bytes member
  exact isLinkLocal

end Rpld
