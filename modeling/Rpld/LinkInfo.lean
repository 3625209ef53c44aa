import Rpld.IfaceAddrs
import Rpld.SelfAddress

/-!
The link-layer address of an interface, out of the kernel's reply to `nl_get_llinfo`. Of several
addresses in a reply the last one counts, but the callbacks stop at the first attribute that
libmnl does not validate, and what came before it is used as if nothing had happened.
-/

namespace Rpld

structure LinkAttr where
  type : Nat
  payload : List UInt8
deriving DecidableEq

inductive MnlType
  | u32
  | binary

def iflaAddress : Nat := 1
def iflaLink : Nat := 5

section

variable (iflaMax : Nat) (mnlAttrValidate : LinkAttr → MnlType → Bool)

abbrev LinkTable := Nat → Option (List UInt8)

/-- `data_attr_cb`; `none` is the error that ends `mnl_attr_parse`. -/
def dataAttrCb (tb : LinkTable) (attr : LinkAttr) : Option LinkTable :=
  let stored : LinkTable := fun type => if type = attr.type then some attr.payload else tb type
  if iflaMax < attr.type then some tb
  else if attr.type = iflaLink then if mnlAttrValidate attr .u32 then some stored else none
  else if attr.type = iflaAddress then if mnlAttrValidate attr .binary then some stored else none
  else some stored

/-- The table as `mnl_attr_parse` leaves it. Its result is not looked at. -/
def linkTable (tb : LinkTable) : List LinkAttr → LinkTable
  | [] => tb
  | attr :: rest =>
      match dataAttrCb iflaMax mnlAttrValidate tb attr with
      | none => tb
      | some next => linkTable next rest

theorem addrLen_unset : ([] : List UInt8).length < 256 := Nat.zero_lt_succ 255

theorem addrLen_bound (payload : List UInt8) : (payload.take (payload.length % 256)).length < 256 := by
  rw [List.length_take]
  omega

def LlInfo.unset : LlInfo := ⟨[], addrLen_unset⟩

/-- What `data_cb` leaves in a zeroed `struct iface_llinfo`. The length is a `uint8_t`. -/
def dataCb (attrs : List LinkAttr) : LlInfo :=
  match linkTable iflaMax mnlAttrValidate (fun _ => none) attrs iflaAddress with
  | none => .unset
  | some payload => ⟨payload.take (payload.length % 256), addrLen_bound payload⟩

/-- The link-layer address of an interface. `config_load` does not learn whether there was a
reply with the attributes of a link. -/
def llinfoOf (reply : Option (List LinkAttr)) : LlInfo := (reply.map (dataCb iflaMax mnlAttrValidate)).getD .unset

def LinkAttr.passes (attr : LinkAttr) : Bool := (dataAttrCb iflaMax mnlAttrValidate (fun _ => none) attr).isSome

def linkAddrs (attrs : List LinkAttr) : List LinkAttr :=
  (attrs.takeWhile (LinkAttr.passes iflaMax mnlAttrValidate)).filter fun attr =>
    attr.type = iflaAddress ∧ iflaAddress ≤ iflaMax

variable {iflaMax mnlAttrValidate}

theorem dataAttrCb_eq (tb : LinkTable) (attr : LinkAttr) :
    dataAttrCb iflaMax mnlAttrValidate tb attr =
      if attr.passes iflaMax mnlAttrValidate then
        some (if iflaMax < attr.type then tb else fun type => if type = attr.type then some attr.payload else tb type)
      else none := by
  unfold LinkAttr.passes dataAttrCb
  by_cases unknown : iflaMax < attr.type
  · simp [unknown]
  · simp only [unknown, if_false]
    by_cases link : attr.type = iflaLink
    · by_cases valid : mnlAttrValidate attr .u32 = true <;> simp [link, valid]
    · by_cases address : attr.type = iflaAddress
      · have other : iflaAddress ≠ iflaLink := by decide
        by_cases valid : mnlAttrValidate attr .binary = true <;> simp [address, valid, other]
      · simp [link, address]

theorem linkAddrs_cons {attr : LinkAttr} (passes : attr.passes iflaMax mnlAttrValidate = true) (rest : List LinkAttr) :
    linkAddrs iflaMax mnlAttrValidate (attr :: rest) =
      if attr.type = iflaAddress ∧ iflaAddress ≤ iflaMax then attr :: linkAddrs iflaMax mnlAttrValidate rest
      else linkAddrs iflaMax mnlAttrValidate rest := by
  rw [linkAddrs, List.takeWhile_cons_of_pos passes, List.filter_cons]
  simp [linkAddrs]

theorem linkTable_address (tb : LinkTable) (attrs : List LinkAttr) :
    linkTable iflaMax mnlAttrValidate tb attrs iflaAddress =
      ((linkAddrs iflaMax mnlAttrValidate attrs).getLast?.map LinkAttr.payload).or (tb iflaAddress) := by
  induction attrs generalizing tb with
  | nil => simp [linkTable, linkAddrs]
  | cons attr rest ih =>
      rw [linkTable, dataAttrCb_eq]
      by_cases passes : attr.passes iflaMax mnlAttrValidate = true
      · rw [if_pos passes, linkAddrs_cons passes]
        simp only
        rw [ih]
        by_cases address : attr.type = iflaAddress ∧ iflaAddress ≤ iflaMax
        · have known : ¬ iflaMax < attr.type := by omega
          rw [if_pos address, if_neg known, List.getLast?_cons, address.1]
          cases (linkAddrs iflaMax mnlAttrValidate rest).getLast? <;> simp
        · rw [if_neg address]
          congr 1
          split
          · rfl
          · have other : iflaAddress ≠ attr.type := by omega
            simp only [other, if_false]
      · have stopped : linkAddrs iflaMax mnlAttrValidate (attr :: rest) = [] := by
          rw [linkAddrs, List.takeWhile_cons_of_neg passes, List.filter_nil]
        rw [if_neg passes, stopped]
        rfl

/-- Whatever the reply, the last address before the first attribute that fails counts, as far as
its length fits a byte. -/
theorem llinfoOf_addr (reply : Option (List LinkAttr)) :
    (llinfoOf iflaMax mnlAttrValidate reply).addr =
      (((linkAddrs iflaMax mnlAttrValidate (reply.getD [])).getLast?.map LinkAttr.payload).map fun payload =>
        payload.take (payload.length % 256)).getD [] := by
  cases reply with
  | none => rfl
  | some attrs =>
      have table := @linkTable_address iflaMax mnlAttrValidate (fun _ => none) attrs
      rw [Option.or_none] at table
      rw [llinfoOf, Option.map_some, Option.getD_some, Option.getD_some, dataCb, ← table]
      split
      · rename_i missing
        rw [missing]
        rfl
      · rename_i payload found
        rw [found]
        rfl

/-! What the self addresses are made of. -/

theorem genStatelessAddr_bytes {dest : In6Prefix} {llinfo : LlInfo} {addr : In6Addr}
    (generated : genStatelessAddr dest llinfo = some addr) :
    dest.len = 64 ∧ llinfo.addr.length = 8 ∧
      addr.s6Addr = (dest.pfx.s6Addr.take 8 ++ llinfo.addr).modify 8 (· ^^^ 0x02) := by
  unfold genStatelessAddr at generated
  split at generated
  · rename_i supported
    refine ⟨supported.1, supported.2, ?_⟩
    rw [Option.some.injEq] at generated
    rw [← generated]
    show (dest.pfx.s6Addr.take (bitsToBytes dest.len).toNat ++ llinfo.addr).modify 8 (· ^^^ 0x02) = _
    rw [supported.1]
    rfl
  · simp at generated

variable {inetPton : List Char → Option In6Addr} {confs : List IfaceConf} {daemon : Daemon}

theorem run_names (booted : Daemon.boot inetPton confs = .ok daemon) (events : List Event) {watcher : WatcherRef}
    {dag : Dag} (held : (daemon.run events).watched watcher = some dag) :
    ∃ conf ∈ confs, ∃ ifname, conf.Names ifname dag.iface := by
  have reached : (daemon.run events).Over (daemon.ifaces.map (·.toIfaceHead)) :=
    Runs.foldl_invariant_always (fun _ event => Daemon.step_over event) events (boot_over booted)
  obtain ⟨iface, found, looked⟩ := Option.bind_eq_some_iff.mp held
  have member := List.mem_of_find?_eq_some found
  have head : dag.iface = iface.toIfaceHead := (dagLookup_backRefs (reached.sound.refs iface member) looked).1
  have known : iface.toIfaceHead ∈ daemon.ifaces.map (·.toIfaceHead) := by
    rw [← reached.heads]
    exact List.mem_map_of_mem member
  obtain ⟨first, inIfaces, same⟩ := List.mem_map.mp known
  rw [head, ← same]
  exact boot_names booted first inIfaces

/-- What a self address is made of. In every run with packets of arbitrary content, the self
address of a dag that is no root is unset, or it has the eight bytes of the dag's 64-bit prefix,
and behind them, with one bit flipped, the last link-layer address in the kernel's reply for
the interface, of those before the first attribute that was not valid; that has eight bytes. -/
theorem run_self_linked {link : IfaceConf → UInt32 → Option (List LinkAttr)}
    (asked : ∀ conf ∈ confs, conf.llinfo = fun ifindex => llinfoOf iflaMax mnlAttrValidate (link conf ifindex))
    (booted : Daemon.boot inetPton confs = .ok daemon) (events : List Event) :
    ∀ watcher dag, (daemon.run events).watched watcher = some dag → dag.myRank ≠ 1 → dag.self ≠ .unspecified →
      ∃ conf ∈ confs, ∃ ifname, conf.ifname = some ifname ∧ dag.iface.ifindex = conf.ifindex (ifname.take 16) ∧
        ∃ attr, (linkAddrs iflaMax mnlAttrValidate ((link conf dag.iface.ifindex).getD [])).getLast? = some attr ∧
          attr.payload.length % 256 = 8 ∧ dag.dest.len = 64 ∧
          dag.self.s6Addr = (dag.dest.pfx.s6Addr.take 8 ++ attr.payload.take 8).modify 8 (· ^^^ 0x02) := by
  intro watcher dag held notRoot specified
  have tracked : (events.foldl AddressedDaemon.step ⟨daemon, []⟩).daemon = daemon.run events :=
    (List.foldl_hom AddressedDaemon.daemon fun _ _ => rfl).symm
  have good : (events.foldl AddressedDaemon.step ⟨daemon, []⟩).Good :=
    @Runs.foldl_invariant_always _ _ _ AddressedDaemon.Good (fun _ event good => AddressedDaemon.step_good good event)
      events _ (Daemon.boot_addressed booted)
  rcases good.addressed watcher dag (by rw [tracked]; exact held) notRoot with unset | ⟨generated, _⟩
  · exact absurd unset specified
  · obtain ⟨conf, inConfs, ifname, names⟩ := run_names booted events held
    obtain ⟨length, eight, bytes⟩ := genStatelessAddr_bytes generated
    have linked : dag.iface.llinfo = llinfoOf iflaMax mnlAttrValidate (link conf dag.iface.ifindex) := by
      rw [names.linked, asked conf inConfs]
    have addr := congrArg LlInfo.addr linked
    rw [llinfoOf_addr] at addr
    refine ⟨conf, inConfs, ifname, names.named, names.index, ?_⟩
    cases last : (linkAddrs iflaMax mnlAttrValidate ((link conf dag.iface.ifindex).getD [])).getLast? with
    | none =>
        rw [addr, last] at eight
        simp at eight
    | some attr =>
        rw [last] at addr
        simp only [Option.map_some, Option.getD_some] at addr
        rw [addr, List.length_take] at eight
        have fits : attr.payload.length % 256 = 8 := by omega
        rw [addr, fits] at bytes
        exact ⟨attr, rfl, fits, length, bytes⟩

end

def sampleReply : List LinkAttr :=
  [⟨iflaAddress, [1, 2, 3, 4, 5, 6]⟩, ⟨iflaAddress, [2, 0, 0, 0, 0, 0, 0, 1]⟩, ⟨iflaLink, [0]⟩, ⟨iflaAddress, []⟩]

def sampleValidate (attr : LinkAttr) : MnlType → Bool
  | .u32 => 4 ≤ attr.payload.length
  | .binary => true

def linkedConf : IfaceConf :=
  { sampleConf "fd00::/64" with llinfo := fun _ => llinfoOf 60 sampleValidate (some sampleReply) }

theorem run_self_linked_linkedConf :
    ∃ daemon, Daemon.boot sampleInetPton [linkedConf] = .ok daemon ∧
      ∃ watcher dag, (daemon.run [.packet .granting foreignDioPacket]).watched watcher = some dag ∧
        dag.self.s6Addr = (dag.dest.pfx.s6Addr.take 8 ++ [2, 0, 0, 0, 0, 0, 0, 1]).modify 8 (· ^^^ 0x02) := by
  obtain ⟨daemon, booted⟩ : ∃ daemon, Daemon.boot sampleInetPton [linkedConf] = .ok daemon := ⟨_, rfl⟩
  have evaluated : ((Daemon.boot sampleInetPton [linkedConf]).toOption.bind fun daemon =>
      ((daemon.run [.packet .granting foreignDioPacket]).watched ⟨0, 1, linkLocal 9⟩).map fun dag =>
        (decide (dag.myRank = 1), decide (dag.self = .unspecified))) = some (false, false) := by decide
  rw [booted, Except.toOption, Option.bind_some, Option.map_eq_some_iff] at evaluated
  obtain ⟨dag, held, outcome⟩ := evaluated
  simp only [Prod.mk.injEq, decide_eq_false_iff_not] at outcome
  have asked : ∀ conf ∈ [linkedConf], conf.llinfo = fun _ => llinfoOf 60 sampleValidate (some sampleReply) := by
    intro conf inConfs
    rw [List.mem_singleton.mp inConfs]
    rfl
  obtain ⟨notRoot, specified⟩ := outcome
  obtain ⟨_, _, _, _, _, attr, last, _, _, bytes⟩ :=
    @run_self_linked 60 sampleValidate _ _ _ (fun _ _ => some sampleReply) asked booted _ _ dag held notRoot specified
  have counted : (linkAddrs 60 sampleValidate sampleReply).getLast? = some ⟨iflaAddress, [2, 0, 0, 0, 0, 0, 0, 1]⟩ := by
    decide
  rw [Option.getD_some, counted, Option.some.injEq] at last
  refine ⟨daemon, booted, _, dag, held, ?_⟩
  rw [bytes, ← last]
  rfl

end Rpld
