import Rpld.DaoLimit

/-!
The receive path of `recv.c` and the callback around it. The control messages of a datagram
are read in order: one that is bogus makes the datagram fail, whatever was read before it,
and of several that name an interface the last one counts.
-/

namespace Rpld

structure In6Pktinfo where
  addr : In6Addr
  ifindex : UInt32

/-- A control message, as `CMSG_FIRSTHDR` and `CMSG_NXTHDR` lead to it. Its data is given as
what it is when read as an `int` and when read as a `struct in6_pktinfo`. -/
structure Cmsghdr where
  cmsgLen : Nat
  cmsgLevel : Nat
  cmsgType : Nat
  asInt : Int
  asPktinfo : In6Pktinfo

def ipprotoIpv6 : Nat := 41
def ipv6Pktinfo : Nat := 50
def ipv6Hoplimit : Nat := 52

def cmsgLenInt : Nat := 16 + 4

def cmsgLenPktinfo : Nat := 16 + 20

structure Recvmsg where
  len : Int
  msg : Nat → UInt8
  addr : In6Addr
  control : List Cmsghdr

structure Received where
  len : Int
  pktInfo : Option In6Pktinfo
  hoplimit : Option Int

/-- The loop over the control messages. A return of -1 leaves the out parameters as they are. -/
def recvControl (got : Received) : List Cmsghdr → Received
  | [] => got
  | cmsg :: rest =>
      if cmsg.cmsgLevel ≠ ipprotoIpv6 then recvControl got rest
      else if cmsg.cmsgType = ipv6Hoplimit then
        if cmsg.cmsgLen = cmsgLenInt ∧ 0 ≤ cmsg.asInt ∧ cmsg.asInt < 256 then
          recvControl { got with hoplimit := some cmsg.asInt } rest
        else { got with len := -1 }
      else if cmsg.cmsgType = ipv6Pktinfo then
        if cmsg.cmsgLen = cmsgLenPktinfo ∧ cmsg.asPktinfo.ifindex ≠ 0 then
          recvControl { got with pktInfo := some cmsg.asPktinfo } rest
        else { got with len := -1 }
      else recvControl got rest

/-- `recv_rs_ra`. The caller has `pkt_info` at `NULL` and `hoplimit` unset. -/
def Recvmsg.recvRsRa (got : Recvmsg) : Received :=
  if got.len < 0 then ⟨got.len, none, none⟩
  else recvControl ⟨got.len, none, some 255⟩ got.control

/-- `icmpv6_cb`. `process` takes `hoplimit` and does not use it. -/
def icmpv6Cb (daemon : Daemon) (env : Env) (got : Recvmsg) : Daemon :=
  let received := got.recvRsRa
  if received.len > 0 then
    match received.pktInfo with
    | some info => daemon.packet env ⟨got.msg, received.len.toNat, got.addr, info.ifindex⟩
    | none => daemon
  else daemon

inductive Wakeup
  | readable (env : Env) (got : Recvmsg)
  | trickle (env : Env) (watcher : WatcherRef)
  | dis (env : Env) (iface : Nat)

def Daemon.wake (daemon : Daemon) (wakeup : Wakeup) : Daemon :=
  match daemon.fault with
  | some _ => daemon
  | none =>
      match wakeup with
      | .readable env got => icmpv6Cb daemon env got
      | .trickle env watcher => daemon.trickle env watcher
      | .dis env ptr => daemon.dis env ptr

/-! What is accepted. -/

def Cmsghdr.isPktinfo (cmsg : Cmsghdr) : Bool :=
  cmsg.cmsgLevel == ipprotoIpv6 && cmsg.cmsgType == ipv6Pktinfo

def Cmsghdr.Fine (cmsg : Cmsghdr) : Prop :=
  cmsg.cmsgLevel = ipprotoIpv6 →
    (cmsg.cmsgType = ipv6Hoplimit → cmsg.cmsgLen = cmsgLenInt ∧ 0 ≤ cmsg.asInt ∧ cmsg.asInt < 256) ∧
    (cmsg.cmsgType = ipv6Pktinfo → cmsg.cmsgLen = cmsgLenPktinfo ∧ cmsg.asPktinfo.ifindex ≠ 0)

instance : DecidablePred Cmsghdr.Fine := fun cmsg =>
  inferInstanceAs (Decidable (cmsg.cmsgLevel = ipprotoIpv6 → (cmsg.cmsgType = ipv6Hoplimit → _) ∧ (_ → _)))

/-- The interface that a datagram arrived on, where it is to be handled: it is not empty, none
of its control messages is bogus, and one of them names an interface. -/
def Recvmsg.accepted (got : Recvmsg) : Option In6Pktinfo :=
  if 0 < got.len ∧ ∀ cmsg ∈ got.control, cmsg.Fine then
    (got.control.filter Cmsghdr.isPktinfo).getLast?.map Cmsghdr.asPktinfo
  else none

def Wakeup.event : Wakeup → Option Event
  | .readable env got =>
      got.accepted.map fun info => .packet env ⟨got.msg, got.len.toNat, got.addr, info.ifindex⟩
  | .trickle env watcher => some (.trickle env watcher)
  | .dis env ptr => some (.dis env ptr)

theorem recvControl_fine {control : List Cmsghdr} (fine : ∀ cmsg ∈ control, cmsg.Fine) (got : Received) :
    (recvControl got control).len = got.len ∧
      (recvControl got control).pktInfo =
        ((control.filter Cmsghdr.isPktinfo).getLast?.map Cmsghdr.asPktinfo).or got.pktInfo := by
  induction control generalizing got with
  | nil => exact ⟨rfl, rfl⟩
  | cons cmsg rest ih =>
      rw [List.forall_mem_cons] at fine
      obtain ⟨here, later⟩ := fine
      have skipped (next : Received) (sameLen : next.len = got.len) (sameInfo : next.pktInfo = got.pktInfo)
          (other : cmsg.isPktinfo = false) (passes : recvControl got (cmsg :: rest) = recvControl next rest) :
          (recvControl got (cmsg :: rest)).len = got.len ∧
            (recvControl got (cmsg :: rest)).pktInfo =
              (((cmsg :: rest).filter Cmsghdr.isPktinfo).getLast?.map Cmsghdr.asPktinfo).or got.pktInfo := by
        rw [passes, List.filter_cons_of_neg (by simp [other]), ← sameLen, ← sameInfo]
        exact ih later next
      by_cases level : cmsg.cmsgLevel = ipprotoIpv6
      · by_cases hoplimit : cmsg.cmsgType = ipv6Hoplimit
        · have valid := (here level).1 hoplimit
          refine skipped { got with hoplimit := some cmsg.asInt } rfl rfl ?_ ?_
          · simp [Cmsghdr.isPktinfo, hoplimit, ipv6Hoplimit, ipv6Pktinfo]
          · simp [recvControl, level, hoplimit, valid]
        · by_cases pktinfo : cmsg.cmsgType = ipv6Pktinfo
          · have valid := (here level).2 pktinfo
            have passes : recvControl got (cmsg :: rest) =
                recvControl { got with pktInfo := some cmsg.asPktinfo } rest := by
              simp [recvControl, level, pktinfo, valid, ipv6Hoplimit, ipv6Pktinfo]
            obtain ⟨len, info⟩ := ih later { got with pktInfo := some cmsg.asPktinfo }
            have counts : cmsg.isPktinfo = true := by simp [Cmsghdr.isPktinfo, level, pktinfo]
            rw [passes, List.filter_cons_of_pos counts, List.getLast?_cons]
            refine ⟨len, info.trans ?_⟩
            cases (rest.filter Cmsghdr.isPktinfo).getLast? with
            | none => rfl
            | some last => rfl
          · refine skipped got rfl rfl ?_ ?_
            · simp [Cmsghdr.isPktinfo, pktinfo]
            · simp [recvControl, level, hoplimit, pktinfo]
      · refine skipped got rfl rfl ?_ ?_
        · simp [Cmsghdr.isPktinfo, level]
        · simp [recvControl, level]

theorem recvControl_bogus {control : List Cmsghdr} (bogus : ∃ cmsg ∈ control, ¬ cmsg.Fine) (got : Received) :
    (recvControl got control).len = -1 := by
  induction control generalizing got with
  | nil => simp at bogus
  | cons cmsg rest ih =>
      have later : cmsg.Fine → ∃ cmsg ∈ rest, ¬ cmsg.Fine := by
        intro fine
        obtain ⟨other, member, wrong⟩ := bogus
        rcases List.mem_cons.mp member with rfl | inRest
        · exact absurd fine wrong
        · exact ⟨other, inRest, wrong⟩
      unfold recvControl
      split
      · rename_i level
        exact ih (later fun same => absurd same level) _
      · rename_i level
        rw [ne_eq, Decidable.not_not] at level
        split
        · rename_i hoplimit
          split
          · rename_i valid
            refine ih (later fun _ => ⟨fun _ => valid, fun pktinfo => ?_⟩) _
            simp [hoplimit, ipv6Hoplimit, ipv6Pktinfo] at pktinfo
          · rfl
        · rename_i hoplimit
          split
          · split
            · rename_i valid
              exact ih (later fun _ => ⟨fun same => absurd same hoplimit, fun _ => valid⟩) _
            · rfl
          · rename_i pktinfo
            exact ih (later fun _ => ⟨fun same => absurd same hoplimit, fun same => absurd same pktinfo⟩) _

theorem icmpv6Cb_accepted (daemon : Daemon) (env : Env) (got : Recvmsg) :
    icmpv6Cb daemon env got =
      match got.accepted with
      | some info => daemon.packet env ⟨got.msg, got.len.toNat, got.addr, info.ifindex⟩
      | none => daemon := by
  by_cases failed : got.len < 0
  · have empty : ¬ 0 < got.len := by omega
    simp [icmpv6Cb, Recvmsg.recvRsRa, Recvmsg.accepted, failed, empty]
  · by_cases fine : ∀ cmsg ∈ got.control, cmsg.Fine
    · obtain ⟨len, info⟩ := recvControl_fine fine ⟨got.len, none, some 255⟩
      simp only [icmpv6Cb, Recvmsg.recvRsRa, if_neg failed, len, info, Option.or_none, gt_iff_lt, Recvmsg.accepted]
      by_cases some : 0 < got.len
      · rw [if_pos some, if_pos ⟨some, fine⟩]
      · rw [if_neg some, if_neg fun both => some both.1]
    · have bogus : ∃ cmsg ∈ got.control, ¬ cmsg.Fine := by simpa using fine
      simp [icmpv6Cb, Recvmsg.recvRsRa, Recvmsg.accepted, failed, fine, recvControl_bogus bogus]

theorem Daemon.wake_event (daemon : Daemon) (wakeup : Wakeup) :
    daemon.wake wakeup = match wakeup.event with
      | some event => daemon.step event
      | none => daemon := by
  cases running : daemon.fault with
  | some fault =>
      simp only [Daemon.wake, Daemon.step, running]
      split <;> rfl
  | none =>
      cases wakeup with
      | readable env got =>
          simp only [Daemon.wake, Daemon.step, running, icmpv6Cb_accepted, Wakeup.event]
          cases got.accepted <;> rfl
      | trickle env watcher => simp [Daemon.wake, Daemon.step, running, Wakeup.event]
      | dis env ptr => simp [Daemon.wake, Daemon.step, running, Wakeup.event]

theorem accepted_cases {got : Recvmsg} {info : In6Pktinfo} (accepted : got.accepted = some info) :
    0 < got.len ∧ info.ifindex ≠ 0 := by
  unfold Recvmsg.accepted at accepted
  split at accepted
  · rename_i both
    obtain ⟨cmsg, last, rfl⟩ := Option.map_eq_some_iff.mp accepted
    obtain ⟨member, counts⟩ := List.mem_filter.mp (List.mem_of_getLast? last)
    simp only [Cmsghdr.isPktinfo, Bool.and_eq_true, beq_iff_eq] at counts
    exact ⟨both.1, ((both.2 cmsg member counts.1).2 counts.2).2⟩
  · simp at accepted

theorem Daemon.foldl_wake (daemon : Daemon) (wakeups : List Wakeup) :
    wakeups.foldl Daemon.wake daemon = daemon.run (wakeups.filterMap Wakeup.event) := by
  rw [Daemon.run, List.foldl_filterMap]
  congr 1
  funext state wakeup
  rw [state.wake_event wakeup]
  cases wakeup.event <;> rfl

/-- However the wakeups come and whatever control messages a datagram carries, the daemon
goes through the run of the events they amount to: a datagram is handled as a packet on the
interface its last `IPV6_PKTINFO` names if it is not empty, carries one and carries no bogus
control message, and else leaves no trace. Where `recvmsg` keeps to the buffer, so does
every packet of the run. -/
theorem wakeups_run (daemon : Daemon) (wakeups : List Wakeup) :
    wakeups.foldl Daemon.wake daemon = daemon.run (wakeups.filterMap Wakeup.event) ∧
      ((∀ env got, Wakeup.readable env got ∈ wakeups → got.len ≤ (msgSizeRecv : Int)) →
        ∀ env pkt, .packet env pkt ∈ wakeups.filterMap Wakeup.event →
          0 < pkt.len ∧ pkt.len ≤ msgSizeRecv ∧ pkt.ifindex ≠ 0) := by
  refine ⟨daemon.foldl_wake wakeups, ?_⟩
  intro bounded env pkt member
  obtain ⟨wakeup, woken, amounts⟩ := List.mem_filterMap.mp member
  cases wakeup with
  | readable env got =>
      obtain ⟨info, accepted, same⟩ := Option.map_eq_some_iff.mp amounts
      obtain ⟨rfl, rfl⟩ := Event.packet.inj same
      obtain ⟨some, index⟩ := accepted_cases accepted
      have fits := bounded _ got woken
      refine ⟨?_, ?_, index⟩
      · show 0 < got.len.toNat
        omega
      · show got.len.toNat ≤ msgSizeRecv
        omega
  | trickle env watcher => simp [Wakeup.event] at amounts
  | dis env ptr => simp [Wakeup.event] at amounts

def sampleWakeups : List Wakeup :=
  let pktinfo : Cmsghdr := ⟨36, 41, 50, 0, ⟨allRplAddr, 1⟩⟩
  let hoplimit (limit : Int) : Cmsghdr := ⟨20, 41, 52, limit, ⟨.unspecified, 0⟩⟩
  let datagram (control : List Cmsghdr) : Recvmsg :=
    ⟨foreignDioPacket.len, foreignDioPacket.mem, foreignDioPacket.src, control⟩
  [.readable .granting (datagram [pktinfo, hoplimit 256]), .readable .granting (datagram [hoplimit 64, pktinfo])]

theorem wakeups_run_sampleWakeups :
    ∃ daemon, Daemon.boot sampleInetPton [sampleConf "fd00::/64"] = .ok daemon ∧
      sampleWakeups.foldl Daemon.wake daemon = daemon.run [.packet .granting foreignDioPacket] ∧
      ∀ env pkt, .packet env pkt ∈ sampleWakeups.filterMap Wakeup.event →
        0 < pkt.len ∧ pkt.len ≤ msgSizeRecv ∧ pkt.ifindex ≠ 0 := by
  obtain ⟨daemon, booted⟩ := boot_sample
  have bounded : ∀ env got, Wakeup.readable env got ∈ sampleWakeups → got.len ≤ (msgSizeRecv : Int) := by
    intro env got member
    simp only [sampleWakeups, List.mem_cons, List.not_mem_nil, or_false, Wakeup.readable.injEq] at member
    rcases member with ⟨_, rfl⟩ | ⟨_, rfl⟩ <;> decide
  obtain ⟨same, fits⟩ := wakeups_run daemon sampleWakeups
  exact ⟨daemon, booted, same, fits bounded⟩

end Rpld
