import Rpld.DaoWalk

/-!
A DAO is read back as it was written. The sender lays out its base as a
`struct nd_rpl_daoack` and the receiver reads a `struct nd_rpl_dao`, but the instance
and the dodagid lie at the same offsets in both, and every target the sender appends
is an option of the length its length byte says.
-/

namespace Rpld

open Memory AddNew

/-- The fields `process` and `process_dao` read from a message: a DAO for the key whose
options are `options`. -/
structure CarriesDao (mem : Nat → UInt8) (len : Nat) (instanceId : UInt8) (dodagid : In6Addr)
    (options : List RplOption) : Prop where
  type : mem 0 = ndRplMessage
  code : mem 1 = ndRplDao
  instanceId : mem 4 = instanceId
  dodagid : addrAt mem 8 = dodagid
  body : slice mem 24 (options.flatMap RplOption.bytes).length = options.flatMap RplOption.bytes
  length : len = 24 + (options.flatMap RplOption.bytes).length

theorem processIface_daoBody {env : Env} {iface : Iface} {mem : Nat → UInt8} {len : Nat} {src : In6Addr}
    (type : mem 0 = ndRplMessage) (code : mem 1 = ndRplDao) :
    processIface env iface mem len src =
      { processDao env iface mem len src with reads := [0, 1] ++ (processDao env iface mem len src).reads } := by
  simp [processIface, type, code, ndRplDagIo, ndRplDagIs, ndRplDao]

theorem processDao_options (env : Env) {iface : Iface} {mem : Nat → UInt8} {len : Nat}
    (src : In6Addr) {instanceId : UInt8} {dodagid : In6Addr} {options : List RplOption} {dag : Dag}
    (carries : CarriesDao mem len instanceId dodagid options)
    (wellFormed : ∀ option ∈ options, option.WellFormed)
    (found : dagLookup iface instanceId dodagid = some dag) :
    let next := dag.registers src (grantedTargets env 24 options)
    ∃ reads, processIface env iface mem (len - 4) src =
      ⟨dagWrite iface instanceId dodagid fun _ => next,
        childRoutes next ++ [.sendmsg dag.iface.ifindex dag.iface.ifaddr src dag.daoAckBytes],
        reads, none⟩ := by
  intro next
  have length := carries.length
  have long : ¬ len - 4 < sizeofDao := by simp only [sizeofDao]; omega
  have optlen : len - 4 - sizeofDao = (options.flatMap RplOption.bytes).length := by
    simp only [sizeofDao]; omega
  obtain ⟨p, reads, walked⟩ := @daoOptions_wellFormed mem env src options wellFormed
    (options.flatMap RplOption.bytes).length
    ⟨24, (options.flatMap RplOption.bytes).length, dag, 4 :: addrReads 8⟩
    carries.body rfl (Nat.le_refl _)
  refine ⟨[0, 1] ++ reads, ?_⟩
  rw [processIface_daoBody carries.type carries.code]
  simp only [processDao, long, if_false, carries.instanceId, carries.dodagid, found, optlen, walked,
    sendDaoAck_ok, if_true]
  rfl

theorem processDao_wellFormed {env : Env} {iface : Iface} {mem : Nat → UInt8} {len : Nat}
    (src : In6Addr) {instanceId : UInt8} {dodagid : In6Addr} {options : List RplOption} {dag : Dag}
    (granted : ∀ offset, env.childAlloc offset = true)
    (carries : CarriesDao mem len instanceId dodagid options)
    (wellFormed : ∀ option ∈ options, option.WellFormed)
    (found : dagLookup iface instanceId dodagid = some dag) :
    let next := dag.registers src (options.filterMap RplOption.target)
    ∃ reads, processIface env iface mem (len - 4) src =
      ⟨dagWrite iface instanceId dodagid fun _ => next,
        childRoutes next ++ [.sendmsg dag.iface.ifindex dag.iface.ifaddr src dag.daoAckBytes],
        reads, none⟩ := by
  have handled := processDao_options env src carries wellFormed found
  rw [grantedTargets_of_allocs granted] at handled
  exact handled

def targetOption (addr : In6Addr) : RplOption :=
  ⟨rplDaoRpltarget, [0, 128] ++ addr.s6Addr, by simp [addr.size]⟩

theorem targetOption_bytes (addr : In6Addr) : (targetOption addr).bytes = targetBytes addr := by
  simp [targetOption, RplOption.bytes, targetBytes, RplDaoTarget.bytes, addr.size]

theorem targetOption_wellFormed (addr : In6Addr) : (targetOption addr).WellFormed := by
  intro _
  simp [targetOption, addr.size]

theorem targetOption_target (addr : In6Addr) : (targetOption addr).target = some addr := by
  have exactly : addr.s6Addr.take 16 = addr.s6Addr := List.take_of_length_le (by simp [addr.size])
  simp [targetOption, RplOption.target, addr.size, exactly]

theorem flatMap_targetOption (addrs : List In6Addr) :
    (addrs.map targetOption).flatMap RplOption.bytes = addrs.flatMap targetBytes := by
  induction addrs with
  | nil => rfl
  | cons addr rest ih => simp [ih, targetOption_bytes]

theorem filterMap_targetOption (addrs : List In6Addr) :
    (addrs.map targetOption).filterMap RplOption.target = addrs := by
  induction addrs with
  | nil => rfl
  | cons addr rest ih => simp [ih, targetOption_target]

theorem carriesDao_of_bytes {mem : Nat → UInt8} {len : Nat} {sender : Dag}
    (carried : slice mem 0 len = sender.daoBytes) :
    CarriesDao mem len sender.rpl.instanceId sender.dodagid (sender.daoTargets.map targetOption) := by
  have split : sender.daoBytes =
      [ndRplMessage, ndRplDao, 0, 0, sender.rpl.instanceId, rplDaoDMask, 0, 0] ++
        (sender.dodagid.s6Addr ++ sender.daoTargets.flatMap targetBytes) := by
    simp [Dag.daoBytes, Dag.daoBase, Icmp6Hdr.bytes, Dag.daoHead, NdRplDaoack.bytes]
  rw [split] at carried
  have size := congrArg List.length carried
  simp only [slice_length, List.length_append, List.length_cons, List.length_nil,
    sender.dodagid.size] at size
  obtain ⟨head, rest⟩ := slice_eq_append mem carried
  obtain ⟨dagid, options⟩ := slice_eq_append mem rest
  simp only [List.length_cons, List.length_nil, sender.dodagid.size] at head dagid options
  simp only [slice, List.range, List.range.loop, List.map_cons, List.map_nil, Nat.zero_add,
    List.cons.injEq, and_true] at head
  obtain ⟨type, code, _, _, instanceId, _⟩ := head
  refine ⟨type, code, instanceId, In6Addr.ext dagid, ?_, ?_⟩
  · rw [flatMap_targetOption]
    exact options
  · rw [flatMap_targetOption]
    omega

theorem processDao_daoBytes {env : Env} {iface : Iface} {mem : Nat → UInt8} {len : Nat}
    (src : In6Addr) {sender dag : Dag} (allocs : env.AllocsSucceed)
    (carried : slice mem 0 len = sender.daoBytes)
    (found : dagLookup iface sender.rpl.instanceId sender.dodagid = some dag) :
    let next := dag.registers src sender.daoTargets
    ∃ reads, processIface env iface mem (len - 4) src =
      ⟨dagWrite iface sender.rpl.instanceId sender.dodagid fun _ => next,
        childRoutes next ++ [.sendmsg dag.iface.ifindex dag.iface.ifaddr src dag.daoAckBytes],
        reads, none⟩ := by
  have handled := processDao_wellFormed src allocs.child (carriesDao_of_bytes carried)
    (by intro option member
        obtain ⟨addr, _, same⟩ := List.mem_map.mp member
        rw [← same]
        exact targetOption_wellFormed addr) found
  rw [filterMap_targetOption] at handled
  exact handled

theorem processDao_missing {env : Env} {iface : Iface} {mem : Nat → UInt8} {len : Nat} {src : In6Addr}
    (type : mem 0 = ndRplMessage) (code : mem 1 = ndRplDao) (base : sizeofDao ≤ len)
    (missing : dagLookup iface (mem 4) (addrAt mem 8) = none) :
    ∃ reads, processIface env iface mem len src = dropped iface reads := by
  refine ⟨[0, 1] ++ (4 :: addrReads 8), ?_⟩
  rw [processIface_daoBody type code]
  simp only [processDao, Nat.not_lt.mpr base, if_false, missing]
  rfl

theorem CarriesDao.missing {env : Env} {iface : Iface} {mem : Nat → UInt8} {len : Nat} {src : In6Addr}
    {instanceId : UInt8} {dodagid : In6Addr} {options : List RplOption}
    (carries : CarriesDao mem len instanceId dodagid options) (missing : dagLookup iface instanceId dodagid = none) :
    ∃ reads, processIface env iface mem (len - 4) src = dropped iface reads := by
  have length := carries.length
  refine processDao_missing carries.type carries.code (by simp only [sizeofDao]; omega) ?_
  rw [carries.instanceId, carries.dodagid]
  exact missing

theorem processDaoack_bytes {env : Env} {iface : Iface} {mem : Nat → UInt8} {len : Nat} (src : In6Addr)
    {sender : Dag} (carried : slice mem 0 len = sender.daoAckBytes) :
    ∃ reads, processIface env iface mem (len - 4) src =
      ⟨iface, match dagLookup iface sender.rpl.instanceId sender.dodagid with
        | none => []
        | some dag => match dag.parent with
          | none => []
          | some parent => [.nlAddRouteDefault dag.iface.ifindex parent.addr], reads, none⟩ := by
  have split : sender.daoAckBytes =
      [ndRplMessage, ndRplDaoAck, 0, 0, sender.rpl.instanceId, rplDaoKMask ||| rplDaoDMask, sender.dsn, 0] ++
        sender.dodagid.s6Addr := by
    simp [Dag.daoAckBytes, Icmp6Hdr.bytes, Dag.daoAckHead, NdRplDaoack.bytes]
  rw [split] at carried
  have size := congrArg List.length carried
  simp only [slice_length, List.length_append, List.length_cons, List.length_nil,
    sender.dodagid.size] at size
  obtain ⟨head, dagid⟩ := slice_eq_append mem carried
  simp only [List.length_cons, List.length_nil, sender.dodagid.size] at head dagid
  simp only [slice, List.range, List.range.loop, List.map_cons, List.map_nil, Nat.zero_add,
    List.cons.injEq, and_true] at head
  obtain ⟨type, code, _, _, instanceId, _⟩ := head
  have key : addrAt mem 8 = sender.dodagid := In6Addr.ext dagid
  have long : ¬ len - 4 < sizeofDaoack := by simp only [sizeofDaoack]; omega
  refine ⟨[0, 1] ++ (4 :: addrReads 8), ?_⟩
  have body : processIface env iface mem (len - 4) src =
      { processDaoack iface mem (len - 4) with
        reads := [0, 1] ++ (processDaoack iface mem (len - 4)).reads } := by
    simp [processIface, type, code, ndRplDagIo, ndRplDagIs, ndRplDao, ndRplDaoAck]
  rw [body]
  simp only [processDaoack, long, if_false, instanceId, key]
  cases dagLookup iface sender.rpl.instanceId sender.dodagid with
  | none => rfl
  | some dag =>
      simp only
      cases dag.parent <;> rfl

theorem process_of_find {env : Env} {ifaces : List Iface} {pkt : Packet} {iface : Iface}
    (long : 4 ≤ pkt.len) (found : ifaceFindByIfindex ifaces pkt.ifindex = some iface) :
    process env ifaces pkt =
      let out := processIface env iface pkt.mem (pkt.len - 4) pkt.src
      ⟨FirstMatch.updateFirst (·.ifindex == pkt.ifindex) (fun _ => out.iface) ifaces,
        out.effects, out.reads, out.fault⟩ := by
  have notShort : ¬ pkt.len < 4 := by omega
  simp [process, notShort, found]

/-- Handling the DAO a sender built extends the receiver's child table by the targets
that are not in it, each once and in order of first occurrence, all via the source of
the packet; nothing else of any table changes. One host route is requested for each
entry of the table, then one DAO-ACK for the same key is sent to the source. -/
theorem process_dao_registers {senderEnv env : Env} {sender sent dag : Dag} {sb : SafeBuffer}
    {ifaces : List Iface} {iface : Iface} {pkt : Packet} (allocs : env.AllocsSucceed)
    (built : dagBuildDao senderEnv sender (safeBufferNew senderEnv.heap) = .ok (sent, sb))
    (carried : pkt.bytes = sb.contents)
    (known : ifaceFindByIfindex ifaces pkt.ifindex = some iface) (refs : iface.BackRefs)
    (found : dagLookup iface sender.rpl.instanceId sender.dodagid = some dag) :
    let out := process env ifaces pkt
    let fresh := ((sender.self :: sender.childs.map (·.addr)).filter fun addr =>
      decide (addr ∉ dag.childs.map (·.addr))).eraseDups
    let table := dag.childs ++ fresh.map fun addr => ⟨addr, pkt.src⟩
    out.fault = none ∧
      out.ifaces = FirstMatch.updateFirst (·.ifindex == pkt.ifindex)
        (fun iface => dagWrite iface sender.rpl.instanceId sender.dodagid
          fun dag => { dag with childs := table }) ifaces ∧
      ∃ flags daoseq, out.effects =
        table.map (fun child => .nlAddRouteVia iface.ifindex child.addr child.fromAddr) ++
          [.sendmsg iface.ifindex iface.ifaddr pkt.src
            ([ndRplMessage, ndRplDaoAck, 0, 0] ++ [sender.rpl.instanceId, flags, daoseq, 0] ++
              sender.dodagid.s6Addr)] := by
  intro out fresh table
  have contents : sb.contents = sender.daoBytes := by
    rcases dagBuildDao_cases senderEnv sender with ⟨_, exits⟩ | ⟨_, other, wrote, contents⟩
    · simp [exits] at built
    · rw [wrote] at built
      simp only [Except.ok.injEq, Prod.mk.injEq] at built
      rw [← built.2, contents]
  have bytes : slice pkt.mem 0 pkt.len = sender.daoBytes := carried.trans contents
  have long : 4 ≤ pkt.len := by
    have size := congrArg List.length bytes
    rw [slice_length, Dag.daoBytes_length] at size
    omega
  obtain ⟨reads, handled⟩ := processDao_daoBytes pkt.src allocs bytes found
  have heads := dagLookup_backRefs refs found
  have dodagid := dagLookup_dodagid found
  have grown : (dag.registers pkt.src sender.daoTargets).childs = table :=
    addNews_eq (fun _ => rfl) dag.childs sender.daoTargets
  have result : out = _ := process_of_find long known
  rw [handled] at result
  refine ⟨by rw [result], ?_, rplDaoKMask ||| rplDaoDMask, dag.dsn, ?_⟩
  · rw [result]
    refine FirstMatch.updateFirst_congr known (dagWrite_congr found ?_)
    rw [← grown]
    rfl
  · rw [result]
    have routes : childRoutes (dag.registers pkt.src sender.daoTargets) =
        table.map (fun child => .nlAddRouteVia iface.ifindex child.addr child.fromAddr) := by
      rw [childRoutes, grown, ← heads.1]
      rfl
    simp [routes, heads.1, heads.2, dodagid, Dag.daoAckBytes, Dag.daoAckHead, Icmp6Hdr.bytes,
      NdRplDaoack.bytes]

/-! A root with address fe80::1 and a node below it, for the places where a statement
is applied to a run of its own. -/

def linkLocal (host : UInt8) : In6Addr :=
  ⟨[0xfe, 0x80, 0, 0, 0, 0, 0, 0, 0, 0, 0, 0, 0, 0, 0, host], rfl⟩

def Env.granting : Env :=
  ⟨true, true, true, true, fun _ => true, fun _ => 0, .unspecified, .ok, .ok⟩

theorem Env.granting_allocs : Env.granting.AllocsSucceed := ⟨rfl, rfl, rfl, rfl, fun _ => rfl⟩

def linkIface (host : UInt8) : Iface :=
  ⟨⟨host.toNat, 1, ⟨[2, 0, 0, 0, 0, 0, 0, host], by simp⟩, linkLocal host, false⟩, []⟩

def sampleDest : In6Prefix := ⟨⟨[0xfd, 0, 0, 0, 0, 0, 0, 0, 0, 0, 0, 0, 0, 0, 0, 0], rfl⟩, 64⟩

def rootDag (host : UInt8) : Dag :=
  { freshDag (linkIface host) 1 (linkLocal 1) defaultTickleT 1 1 sampleDest with self := linkLocal 1 }

def rootIface (host : UInt8) : Iface := withDag (linkIface host) 1 (rootDag host)

theorem rootIface_backRefs (host : UInt8) : (rootIface host).BackRefs :=
  withDag_backRefs (by intro rpl member; simp [linkIface] at member) ⟨rfl, rfl⟩

def leafDag : Dag :=
  { freshDag (linkIface 2) 1 (linkLocal 1) defaultTickleT 2 1 sampleDest with
    self := linkLocal 22
    childs := [⟨linkLocal 33, linkLocal 3⟩] }

theorem process_dao_registers_leafDag :
    let pkt : Packet := ⟨overlay leafDag.daoBytes fun _ => 0, leafDag.daoBytes.length, linkLocal 2, 1⟩
    (process .granting [rootIface 1] pkt).fault = none ∧
      (process .granting [rootIface 1] pkt).effects.length = 3 := by
  intro pkt
  obtain ⟨sb, built, contents⟩ := dagBuildDao_ok .granting leafDag (by decide)
  have carried : pkt.bytes = sb.contents := by
    rw [contents]
    exact slice_overlay _ _
  obtain ⟨returns, _, flags, daoseq, effects⟩ := process_dao_registers Env.granting_allocs built carried
    (show ifaceFindByIfindex [rootIface 1] pkt.ifindex = some (rootIface 1) from rfl)
    (rootIface_backRefs 1)
    (show dagLookup (rootIface 1) leafDag.rpl.instanceId leafDag.dodagid = some (rootDag 1) from rfl)
  refine ⟨returns, ?_⟩
  rw [effects]
  rfl

end Rpld
