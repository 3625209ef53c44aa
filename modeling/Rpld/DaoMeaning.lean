import Rpld.DaoCodec

/-!
What a well-formed DAO means to its receiver, whoever wrote it and whatever other options
it carries: the child table takes up the targets it does not have, every entry of the table
gets its host route again, and the sender gets one acknowledgement. A second copy of the
packet changes no table.
-/

namespace Rpld

open Memory AddNew

theorem registers_known {dag : Dag} {src : In6Addr} {targets : List In6Addr}
    (known : ∀ addr ∈ targets, addr ∈ dag.childs.map (·.addr)) : dag.registers src targets = dag := by
  unfold Dag.registers addTargets
  rw [addNews_of_known known]

theorem registers_childs (dag : Dag) (src : In6Addr) (targets : List In6Addr) :
    (dag.registers src targets).childs =
      dag.childs ++ ((targets.filter fun addr => decide (addr ∉ dag.childs.map (·.addr))).eraseDups).map
        (⟨·, src⟩) :=
  addNews_eq (fun _ => rfl) dag.childs targets

theorem registers_again (dag : Dag) (src : In6Addr) (env : Env) (options : List RplOption) :
    let next := dag.registers src (options.filterMap RplOption.target)
    next.registers src (grantedTargets env 24 options) = next := by
  intro next
  refine registers_known ?_
  intro addr member
  exact offered_mem_addNews (fun _ => rfl) (grantedTargets_subset env 24 options addr member)

/-- Handling a DAO whose options are well formed makes the child table the old one followed
by the target addresses not in it, each once and in order of first occurrence, all via the
source of the packet, and changes nothing else; it requests one host route for each entry of
the new table and sends one DAO-ACK to the source. Handling the packet again, whatever the
system answers then, leaves every table as it is. -/
theorem process_dao_meaning {env : Env} {ifaces : List Iface} {iface : Iface} {pkt : Packet}
    {instanceId : UInt8} {dodagid : In6Addr} {options : List RplOption} {dag : Dag}
    (granted : ∀ offset, env.childAlloc offset = true)
    (carries : CarriesDao pkt.mem pkt.len instanceId dodagid options)
    (wellFormed : ∀ option ∈ options, option.WellFormed)
    (known : ifaceFindByIfindex ifaces pkt.ifindex = some iface)
    (found : dagLookup iface instanceId dodagid = some dag) :
    let out := process env ifaces pkt
    let fresh := ((options.filterMap RplOption.target).filter fun addr =>
      decide (addr ∉ dag.childs.map (·.addr))).eraseDups
    let table := dag.childs ++ fresh.map fun addr => ⟨addr, pkt.src⟩
    out.fault = none ∧
      out.ifaces = FirstMatch.updateFirst (·.ifindex == pkt.ifindex)
        (fun iface => dagWrite iface instanceId dodagid fun dag => { dag with childs := table }) ifaces ∧
      out.effects =
        table.map (fun child => .nlAddRouteVia dag.iface.ifindex child.addr child.fromAddr) ++
          [.sendmsg dag.iface.ifindex dag.iface.ifaddr pkt.src dag.daoAckBytes] ∧
      ∀ again : Env, (process again out.ifaces pkt).ifaces = out.ifaces := by
  intro out fresh table
  have long : 4 ≤ pkt.len := by
    have length := carries.length
    omega
  obtain ⟨next, nextEq⟩ : ∃ next, next = dag.registers pkt.src (options.filterMap RplOption.target) :=
    ⟨_, rfl⟩
  have grown : next.childs = table := by
    rw [nextEq]
    exact registers_childs dag pkt.src _
  have kept : next = { dag with childs := table } := by
    rw [← grown, nextEq]
    rfl
  obtain ⟨reads, handled⟩ := processDao_wellFormed pkt.src granted carries wellFormed found
  rw [← nextEq] at handled
  have result : out = _ := process_of_find long known
  rw [handled] at result
  have tables : out.ifaces = FirstMatch.updateFirst (·.ifindex == pkt.ifindex)
      (fun _ => dagWrite iface instanceId dodagid fun _ => next) ifaces := by rw [result]
  refine ⟨by rw [result], ?_, ?_, ?_⟩
  · rw [tables]
    exact FirstMatch.updateFirst_congr known (dagWrite_congr found kept)
  · rw [result, childRoutes, grown, kept]
  · intro again
    have key : dag.dodagid = dodagid := dagLookup_dodagid found
    have nextKey : next.dodagid = dodagid := by rw [kept]; exact key
    have nextFound := dagLookup_dagWrite_const found nextKey
    have nextKnown : ifaceFindByIfindex out.ifaces pkt.ifindex =
        some (dagWrite iface instanceId dodagid fun _ => next) := by
      rw [tables, ifaceFindByIfindex, FirstMatch.find?_updateFirst]
      · rw [show ifaces.find? (·.ifindex == pkt.ifindex) = some iface from known]
        rfl
      · intro _ _
        exact (List.find?_some known :)
    obtain ⟨moreReads, repeated⟩ := processDao_options again pkt.src carries wellFormed nextFound
    have same : next.registers pkt.src (grantedTargets again 24 options) = next := by
      rw [nextEq]
      exact registers_again dag pkt.src again options
    rw [same, dagWrite_of_found nextFound] at repeated
    rw [process_of_find long nextKnown, repeated]
    exact FirstMatch.updateFirst_of_fixed nextKnown rfl

def paddingOption : RplOption := ⟨1, [0, 0, 0], by decide⟩

def mixedOptions : List RplOption :=
  [paddingOption, targetOption (linkLocal 5), paddingOption, targetOption (linkLocal 6), targetOption (linkLocal 5)]

def mixedDaoPacket : Packet :=
  ⟨overlay ([ndRplMessage, ndRplDao, 0, 0, 1, rplDaoDMask, 0, 7] ++ (linkLocal 1).s6Addr ++
    mixedOptions.flatMap RplOption.bytes) fun _ => 0, 94, linkLocal 2, 1⟩

theorem mixedDaoPacket_carries : CarriesDao mixedDaoPacket.mem mixedDaoPacket.len 1 (linkLocal 1) mixedOptions :=
  ⟨rfl, rfl, rfl, rfl, by decide, by decide⟩

theorem process_dao_meaning_mixed :
    (process .granting [rootIface 1] mixedDaoPacket).fault = none ∧
      (process .granting [rootIface 1] mixedDaoPacket).effects =
        [.nlAddRouteVia 1 (linkLocal 5) (linkLocal 2), .nlAddRouteVia 1 (linkLocal 6) (linkLocal 2),
          .sendmsg 1 (linkLocal 1) (linkLocal 2) (rootDag 1).daoAckBytes] := by
  have formed : ∀ option ∈ mixedOptions, option.WellFormed := by
    intro option member
    simp only [mixedOptions, List.mem_cons, List.not_mem_nil, or_false] at member
    rcases member with rfl | rfl | rfl | rfl | rfl
    · exact fun padding => absurd padding (by decide)
    · exact targetOption_wellFormed _
    · exact fun padding => absurd padding (by decide)
    · exact targetOption_wellFormed _
    · exact targetOption_wellFormed _
  obtain ⟨returns, _, effects, _⟩ := process_dao_meaning Env.granting_allocs.child mixedDaoPacket_carries formed
    (show ifaceFindByIfindex [rootIface 1] mixedDaoPacket.ifindex = some (rootIface 1) from rfl)
    (show dagLookup (rootIface 1) 1 (linkLocal 1) = some (rootDag 1) from rfl)
  refine ⟨returns, ?_⟩
  rw [effects]
  decide

end Rpld
