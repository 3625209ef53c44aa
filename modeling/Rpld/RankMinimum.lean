import Rpld.Acceptance
import Rpld.DioBounds

/-!
The rank a dag settles on. `process_dio` keeps a running minimum in the record of the parent:
it starts from a record of the largest rank, takes every rank that is not above the one it
has, and stops listening at rank 1. Over a whole run that is the least rank heard.
-/

namespace Rpld

open Memory FirstMatch Runs

/-- What a DIO brings to the dag it is for. -/
structure HeardDio where
  rank : UInt16
  src : In6Addr
deriving DecidableEq

def Packet.isDioFor (pkt : Packet) (key : SlotKey) : Prop :=
  pkt.ifindex = key.head.ifindex ∧ 28 ≤ pkt.len ∧ pkt.mem 0 = ndRplMessage ∧ pkt.mem 1 = ndRplDagIo ∧
    pkt.mem 4 = key.instanceId ∧ addrAt pkt.mem 12 = key.dodagid

instance (pkt : Packet) (key : SlotKey) : Decidable (pkt.isDioFor key) :=
  inferInstanceAs (Decidable (_ ∧ _))

def Event.dio (key : SlotKey) : Event → Option HeardDio
  | .packet _ pkt => if pkt.isDioFor key then some ⟨ntohs (pkt.mem 6) (pkt.mem 7), pkt.src⟩ else none
  | .trickle _ _ => none
  | .dis _ _ => none

/-- The DIOs for the key that are handled in a run, in order. -/
def Daemon.diosOver (daemon : Daemon) (key : SlotKey) (events : List Event) : List HeardDio :=
  outputs Daemon.step (fun state event => if state.fault = none then (event.dio key).toList else []) daemon events

/-- The parent is the source of the first DIO, with the least rank of all, and the own rank
is the one above it. -/
structure Dag.Chose (dag : Dag) (dios : List HeardDio) (rank : UInt16) : Prop where
  among : rank ∈ dios.map (·.rank)
  least : ∀ dio ∈ dios, rank ≤ dio.rank
  parent : dag.parent = dios.head?.map fun first => ⟨first.src, rank⟩
  myRank : dag.myRank = rank + 1

theorem chose_unique {dag other : Dag} {dios others : List HeardDio} {rank otherRank : UInt16}
    (chose : dag.Chose dios rank) (otherChose : other.Chose others otherRank) (perm : others.Perm dios) :
    otherRank = rank := by
  obtain ⟨dio, member, own⟩ := List.mem_map.mp chose.among
  obtain ⟨second, secondMember, secondOwn⟩ := List.mem_map.mp otherChose.among
  apply UInt16.le_antisymm
  · rw [← own]
    exact otherChose.least dio (perm.mem_iff.mpr member)
  · rw [← secondOwn]
    exact chose.least second (perm.mem_iff.mp secondMember)

theorem Dag.Chose.parentRank {dag : Dag} {dios : List HeardDio} {rank : UInt16} (chose : dag.Chose dios rank) :
    dag.parent.map (·.rank) = some rank := by
  cases dios with
  | nil => simpa using chose.among
  | cons first rest => rw [chose.parent, List.head?_cons, Option.map_some, Option.map_some]

theorem chose_congr {dag next : Dag} {dios : List HeardDio} {rank : UInt16} (same : next.ranks = dag.ranks)
    (chose : dag.Chose dios rank) : next.Chose dios rank := by
  simp only [Dag.ranks, Prod.mk.injEq] at same
  exact ⟨chose.among, chose.least, same.2.trans chose.parent, same.1.trans chose.myRank⟩

/-- What a dag with a parent record makes of a rank. -/
theorem hears_chose {env : Env} {dag : Dag} {dios : List HeardDio} {least : UInt16} (chose : dag.Chose dios least)
    (dio : HeardDio) :
    let next := if dag.myRank = 1 then dag else (dag.hears env dio.rank dio.src).dag
    ∃ rank, next.Chose (dios ++ [dio]) rank := by
  intro next
  have some : dios ≠ [] := by
    rintro rfl
    simpa using chose.among
  obtain ⟨first, rest, rfl⟩ := List.exists_cons_of_ne_nil some
  have parent : dag.parent = Option.some ⟨first.src, least⟩ := chose.parent
  have recorded : dag.parentOr dio.src = ⟨first.src, least⟩ := by simp [Dag.parentOr, parent]
  have kept : least ≤ dio.rank → dag.Chose (first :: rest ++ [dio]) least := by
    intro above
    refine ⟨?_, ?_, parent, chose.myRank⟩
    · rw [List.map_append]
      exact List.mem_append_left _ chose.among
    · rw [List.forall_mem_append, List.forall_mem_singleton]
      exact ⟨chose.least, above⟩
  by_cases root : dag.myRank = 1
  · -- only a dag that has heard rank 0 is at rank 1, and nothing is below
    have zero : least = 0 := rank_add_one_eq_one.mp (chose.myRank.symm.trans root)
    refine ⟨least, ?_⟩
    simp only [next, root, if_true]
    refine kept ?_
    rw [zero]
    exact UInt16.le_iff_toNat_le.mpr (Nat.zero_le _)
  · have available : HasParent env dag := Or.inl (by simp [parent])
    simp only [next, root, if_false]
    by_cases accepted : dio.rank ≤ least
    · obtain ⟨myRank, changed⟩ := Dag.hears_accepted available (by rw [recorded]; exact accepted)
      rw [recorded] at changed
      refine ⟨dio.rank, ?_, ?_, changed, myRank⟩
      · simp
      · rw [List.forall_mem_append, List.forall_mem_singleton]
        refine ⟨?_, UInt16.le_refl _⟩
        intro other member
        exact UInt16.le_trans accepted (chose.least other member)
    · rw [Dag.hears_refused (by rw [recorded]; exact fun both => accepted both.2)]
      refine ⟨least, kept ?_⟩
      exact UInt16.le_of_lt (UInt16.not_le.mp accepted)

theorem hears_first {env : Env} {dag : Dag} (available : HasParent env dag) (without : dag.parent = none)
    (dio : HeardDio) : (dag.hears env dio.rank dio.src).dag.Chose [dio] dio.rank := by
  have recorded : dag.parentOr dio.src = ⟨dio.src, 0xffff⟩ := by simp [Dag.parentOr, without]
  have accepted : dio.rank ≤ (dag.parentOr dio.src).rank := by
    rw [recorded, UInt16.le_iff_toNat_le]
    exact Nat.le_of_lt_succ dio.rank.toNat_lt
  obtain ⟨myRank, parent⟩ := Dag.hears_accepted available accepted
  rw [recorded] at parent
  exact ⟨by simp, by simp, parent, myRank⟩

/-! Steps. -/

/-- Packets that carry the index of the interface of the key are delivered to it. -/
def Daemon.Fronts (daemon : Daemon) (key : SlotKey) : Prop :=
  (daemon.ifaces.map (·.toIfaceHead)).find? (·.ifindex == key.head.ifindex) = some key.head

section

variable {daemon : Daemon} {key : SlotKey}

theorem Daemon.step_fronts (fronts : daemon.Fronts key) (event : Event) : (daemon.step event).Fronts key := by
  rw [Daemon.Fronts, Daemon.step_heads]
  exact fronts

theorem Daemon.Fronts.knows (fronts : daemon.Fronts key) : daemon.Knows key := List.mem_of_find?_eq_some fronts

theorem Daemon.Fronts.iface (fronts : daemon.Fronts key) :
    ∃ iface, ifaceFindByIfindex daemon.ifaces key.head.ifindex = some iface ∧ iface.toIfaceHead = key.head := by
  rw [Daemon.Fronts, List.find?_map, Option.map_eq_some_iff] at fronts
  exact fronts

theorem isDioFor_of_named {pkt : Packet} (index : pkt.ifindex = key.head.ifindex) (code : pkt.mem 1 = ndRplDagIo)
    (named : namedKey pkt.mem (pkt.len - 4) = some (key.instanceId, key.dodagid)) : pkt.isDioFor key := by
  obtain ⟨type, base, own⟩ := namedKey_dio code named
  simp only [Prod.mk.injEq] at own
  simp only [sizeofDio] at base
  exact ⟨index, by omega, type, code, own.1.symm, own.2.symm⟩

/-- Whatever is not a DIO for the key leaves its rank and its parent alone. -/
theorem Daemon.step_unheard (sound : daemon.Sound) (known : daemon.Knows key) {event : Event}
    (unheard : event.dio key = none) :
    ((daemon.step event).slot key).map Dag.ranks = (daemon.slot key).map Dag.ranks := by
  cases failed : daemon.fault with
  | some fault => simp [Daemon.step, failed]
  | none =>
      cases event with
      | dis env ptr => rw [Daemon.slot, (Daemon.dis_step failed).1, Daemon.slot]
      | trickle env watcher =>
          rw [(Daemon.trickle_view sound failed).1, Event.reaction]
          split
          · exact slotSendDio_ranks _
          · rfl
      | packet env pkt =>
          rcases Daemon.packet_seen daemon pkt with unseen | ⟨iface, long, found⟩
          · rw [Daemon.packet_dropped failed unseen]
          · have member := List.mem_of_find?_eq_some found
            rw [(Daemon.packet_view sound failed long found).1]
            by_cases own : iface.ptr = key.head.ptr
            · have index : pkt.ifindex = key.head.ifindex := by
                have accepted := List.find?_some found
                rw [beq_iff_eq] at accepted
                rw [← accepted, ← Daemon.head_of_ptr sound known member own]
              have notDio : ¬ (isDis pkt.mem = false ∧
                  namedKey pkt.mem (pkt.len - 4) = some (key.instanceId, key.dodagid) ∧ pkt.mem 1 = ndRplDagIo) := by
                rintro ⟨_, named, code⟩
                simp [Event.dio, isDioFor_of_named index code named] at unheard
              rw [Daemon.slot_of_find sound member own]
              simp only [own, beq_self_eq_true, if_true]
              rcases (@processIface_slot_any env iface pkt.mem (pkt.len - 4) pkt.src (sound.keyed iface member)
                (sound.refs iface member) key.instanceId key.dodagid).1 with same | changed
              · rw [same]
              · rw [changed]
                exact slotMessage_ranks notDio _
            · simp [own]

theorem Daemon.step_dio {env : Env} {pkt : Packet} (sound : daemon.Sound) (fronts : daemon.Fronts key)
    (running : daemon.fault = none) (allocs : env.AllocsSucceed) (own : pkt.isDioFor key) :
    let reaction := slotDio env key.head pkt.mem (pkt.len - 4) pkt.src (daemon.slot key)
    (daemon.step (.packet env pkt)).slot key = reaction.slot ∧
      (daemon.step (.packet env pkt)).fault = reaction.fault := by
  intro reaction
  obtain ⟨index, length, type, code, sameId, sameDodagid⟩ := own
  obtain ⟨iface, found, head⟩ := fronts.iface
  rw [← index] at found
  have member := List.mem_of_find?_eq_some found
  have ptr : iface.ptr = key.head.ptr := congrArg IfaceHead.ptr head
  have base : sizeofDio ≤ pkt.len - 4 := by
    simp only [sizeofDio]
    omega
  obtain ⟨looked, _, fault⟩ := @processIface_dio env iface pkt.mem (pkt.len - 4) pkt.src type code base
    fun _ => creates_of_allocs allocs iface _
  rw [sameId, sameDodagid, head, ← Daemon.slot_of_find sound member ptr] at looked fault
  constructor
  · rw [(Daemon.packet_view sound running (by omega) found).1]
    simp only [ptr, beq_self_eq_true, if_true]
    exact looked
  · rw [Daemon.packet_of_find running (by omega) found]
    exact fault

theorem Event.dio_some {event : Event} {dio : HeardDio} (heard : event.dio key = some dio) :
    ∃ env pkt, event = .packet env pkt ∧ pkt.isDioFor key ∧ dio = ⟨ntohs (pkt.mem 6) (pkt.mem 7), pkt.src⟩ := by
  cases event with
  | trickle env watcher => simp [Event.dio] at heard
  | dis env ptr => simp [Event.dio] at heard
  | packet env pkt =>
      simp only [Event.dio] at heard
      split at heard
      · rename_i own
        simp only [Option.some.injEq] at heard
        exact ⟨env, pkt, rfl, own, heard.symm⟩
      · simp at heard

theorem Daemon.running_of_created {event : Event} (missing : daemon.slot key = none)
    (created : (daemon.step event).slot key ≠ none) : daemon.fault = none := by
  cases failed : daemon.fault with
  | none => rfl
  | some fault => simp [Daemon.step, failed, missing] at created

/-- A key under which a step creates a dag is one whose interface is found by its index, and
the step handles a DIO for it. -/
theorem Daemon.created_dio (sound : daemon.Sound) (known : daemon.Knows key) {event : Event}
    (missing : daemon.slot key = none) (created : (daemon.step event).slot key ≠ none) :
    daemon.Fronts key ∧ ∃ dio, event.dio key = some dio := by
  have running := Daemon.running_of_created missing created
  cases heard : event.dio key with
  | none =>
      have same := Daemon.step_unheard sound known heard
      rw [missing, Option.map_none, Option.map_eq_none_iff] at same
      exact absurd same created
  | some dio =>
      refine ⟨?_, dio, rfl⟩
      obtain ⟨env, pkt, rfl, own, _⟩ := Event.dio_some heard
      rcases Daemon.packet_seen daemon pkt with unseen | ⟨iface, long, found⟩
      · rw [Daemon.packet_dropped running unseen] at created
        exact absurd missing created
      · rw [(Daemon.packet_view sound running long found).1] at created
        by_cases ptr : iface.ptr = key.head.ptr
        · have head := Daemon.head_of_ptr sound known (List.mem_of_find?_eq_some found) ptr
          rw [Daemon.Fronts, List.find?_map, ← own.1]
          exact Option.map_eq_some_iff.mpr ⟨iface, found, head⟩
        · simp [ptr, missing] at created

theorem Daemon.step_chose_first (sound : daemon.Sound) (known : daemon.Knows key) {event : Event}
    (allocs : event.env.AllocsSucceed) (missing : daemon.slot key = none)
    (created : (daemon.step event).slot key ≠ none) :
    ∃ dio next, event.dio key = some dio ∧ (daemon.step event).slot key = some next ∧ next.Chose [dio] dio.rank := by
  obtain ⟨fronts, dio, heard⟩ := Daemon.created_dio sound known missing created
  refine ⟨dio, ?_⟩
  obtain ⟨env, pkt, rfl, own, rfl⟩ := Event.dio_some heard
  have granted : env.AllocsSucceed := allocs
  have stepped := (Daemon.step_dio sound fronts (Daemon.running_of_created missing created) granted own).1
  rw [missing] at stepped
  simp only [slotDio] at stepped
  split at stepped
  · split at stepped
    · rw [stepped] at created
      exact absurd rfl created
    · refine ⟨_, heard, stepped, ?_⟩
      exact hears_first (hasParent_of_allocs allocs _) rfl ⟨ntohs (pkt.mem 6) (pkt.mem 7), pkt.src⟩
  · rw [stepped] at created
    exact absurd rfl created

theorem Daemon.step_chose (sound : daemon.Sound) (fronts : daemon.Fronts key) (running : daemon.fault = none)
    {event : Event} (allocs : event.env.AllocsSucceed) {dag : Dag} (held : daemon.slot key = some dag)
    {dios : List HeardDio} {least : UInt16} (chose : dag.Chose dios least) :
    ∃ next rank, (daemon.step event).slot key = some next ∧ next.Chose (dios ++ (event.dio key).toList) rank := by
  cases heard : event.dio key with
  | none =>
      have same := Daemon.step_unheard sound fronts.knows heard
      rw [held, Option.map_some, Option.map_eq_some_iff] at same
      obtain ⟨next, later, ranks⟩ := same
      refine ⟨next, least, later, ?_⟩
      rw [Option.toList_none, List.append_nil]
      exact chose_congr ranks chose
  | some dio =>
      obtain ⟨env, pkt, rfl, own, rfl⟩ := Event.dio_some heard
      have granted : env.AllocsSucceed := allocs
      have stepped := (Daemon.step_dio sound fronts running granted own).1
      obtain ⟨rank, after⟩ := @hears_chose env dag dios least chose ⟨ntohs (pkt.mem 6) (pkt.mem 7), pkt.src⟩
      refine ⟨_, rank, ?_, after⟩
      rw [stepped, held]
      simp only [slotDio]
      split <;> rfl

theorem Daemon.run_chose {daemon : Daemon} (sound : daemon.Sound) (fronts : daemon.Fronts key) {events : List Event}
    (granted : ∀ event ∈ events, event.env.AllocsSucceed) {dag : Dag} (held : daemon.slot key = some dag)
    {dios : List HeardDio} {least : UInt16} (chose : dag.Chose dios least) :
    ∃ next rank, (daemon.run events).slot key = some next ∧ next.Chose (dios ++ daemon.diosOver key events) rank := by
  induction events generalizing daemon dag dios least with
  | nil => exact ⟨dag, least, held, by rw [Daemon.diosOver, outputs, List.append_nil]; exact chose⟩
  | cons event rest ih =>
      rw [List.forall_mem_cons] at granted
      have onward := @ih (daemon.step event) (Daemon.step_sound event sound) (Daemon.step_fronts fronts event) granted.2
      rw [Daemon.diosOver, outputs]
      cases running : daemon.fault with
      | some fault =>
          have still : daemon.step event = daemon := by simp [Daemon.step, running]
          obtain ⟨next, rank, later, final⟩ := onward (by rw [still]; exact held) chose
          refine ⟨next, rank, later, ?_⟩
          simp only [reduceCtorEq, if_false, List.nil_append]
          exact final
      | none =>
          obtain ⟨middle, middleRank, stepped, now⟩ := Daemon.step_chose sound fronts running granted.1 held chose
          obtain ⟨next, rank, later, final⟩ := onward stepped now
          refine ⟨next, rank, later, ?_⟩
          simp only [if_true]
          rw [← List.append_assoc]
          exact final

/-! Sequences of DIOs that could each create the dag. -/

/-- A DIO for the key with a whole destination prefix of at most 128 bits. -/
def Event.ValidDio (key : SlotKey) : Event → Prop
  | .packet _ pkt => pkt.isDioFor key ∧ CarriesPrefix pkt.mem pkt.len ∧ (pkt.mem 30).toNat ≤ 128
  | .trickle _ _ => False
  | .dis _ _ => False

theorem hears_childless (env : Env) {dag : Dag} (childless : dag.childs = []) (rank : UInt16) (src : In6Addr) :
    (dag.hears env rank src).fault = none := by
  by_cases available : HasParent env dag
  · rcases Dag.hears_cases available rank src with ⟨_, refused⟩ | ⟨_, large, _⟩ | ⟨_, _, accepted⟩
    · rw [refused]
    · have none : (dagProcessDio env (dag.ranked rank src)).1.childs = [] :=
        (dagProcessDio_childs env (dag.ranked rank src)).trans childless
      rw [Dag.daoBytes_length, none] at large
      exact absurd large (by decide)
    · rw [accepted]
  · rw [Dag.hears_without available]

theorem Daemon.step_validDio (sound : daemon.Sound) (fronts : daemon.Fronts key) (running : daemon.fault = none)
    {event : Event} (allocs : event.env.AllocsSucceed) (valid : event.ValidDio key)
    (childless : ∀ dag, daemon.slot key = some dag → dag.childs = []) :
    (daemon.step event).fault = none ∧ ∃ next, (daemon.step event).slot key = some next ∧ next.childs = [] := by
  cases event with
  | trickle env watcher => exact valid.elim
  | dis env ptr => exact valid.elim
  | packet env pkt =>
      have granted : env.AllocsSucceed := allocs
      obtain ⟨own, carries, bound⟩ := valid
      obtain ⟨stepped, fault⟩ := Daemon.step_dio sound fronts running granted own
      have heard : ∀ dag : Dag, dag.childs = [] →
          (dag.hears env (ntohs (pkt.mem 6) (pkt.mem 7)) pkt.src).dag.childs = [] := by
        intro dag none
        exact (Dag.hears_frame env dag _ _).2.trans none
      rw [stepped, fault]
      cases held : daemon.slot key with
      | some dag =>
          have none := childless dag held
          simp only [slotDio]
          split
          · exact ⟨rfl, dag, rfl, none⟩
          · exact ⟨hears_childless env none _ _, _, rfl, heard dag none⟩
      | none =>
          rw [carries.slotDio bound]
          exact ⟨hears_childless env rfl _ _, _, rfl, heard _ rfl⟩

theorem Daemon.diosOver_valid {daemon : Daemon} (sound : daemon.Sound) (fronts : daemon.Fronts key)
    (running : daemon.fault = none) {events : List Event} (granted : ∀ event ∈ events, event.env.AllocsSucceed)
    (valid : ∀ event ∈ events, event.ValidDio key)
    (childless : ∀ dag, daemon.slot key = some dag → dag.childs = []) :
    daemon.diosOver key events = events.filterMap (Event.dio key) := by
  induction events generalizing daemon with
  | nil => rfl
  | cons event rest ih =>
      rw [List.forall_mem_cons] at granted valid
      obtain ⟨returns, next, held, none⟩ :=
        Daemon.step_validDio sound fronts running granted.1 valid.1 childless
      have later := ih (Daemon.step_sound event sound) (Daemon.step_fronts fronts event) returns granted.2 valid.2
        (by rw [held]; rintro dag ⟨⟩; exact none)
      have split : event :: rest = [event] ++ rest := rfl
      rw [Daemon.diosOver, outputs, running, if_pos rfl, split, List.filterMap_append]
      have first : (event.dio key).toList = [event].filterMap (Event.dio key) := by
        cases heard : event.dio key with
        | none => simp [heard]
        | some dio => simp [heard]
      rw [first, ← later]
      rfl

theorem Daemon.run_valid_chose (sound : daemon.Sound) (fronts : daemon.Fronts key) (running : daemon.fault = none)
    (missing : daemon.slot key = none) {events : List Event} (some : events ≠ [])
    (granted : ∀ event ∈ events, event.env.AllocsSucceed) (valid : ∀ event ∈ events, event.ValidDio key) :
    ∃ dag rank, (daemon.run events).slot key = Option.some dag ∧
      dag.Chose (events.filterMap (Event.dio key)) rank := by
  have dios := Daemon.diosOver_valid sound fronts running granted valid (by simp [missing])
  obtain ⟨first, rest, rfl⟩ := List.exists_cons_of_ne_nil some
  rw [List.forall_mem_cons] at granted valid
  obtain ⟨_, next, held, _⟩ :=
    Daemon.step_validDio sound fronts running granted.1 valid.1 (by simp [missing])
  obtain ⟨dio, made, heard, stepped, chose⟩ :=
    Daemon.step_chose_first sound fronts.knows granted.1 missing (by rw [held]; simp)
  obtain ⟨dag, rank, final, settled⟩ := Daemon.run_chose (Daemon.step_sound first sound)
    (Daemon.step_fronts fronts first) granted.2 stepped chose
  refine ⟨dag, rank, final, ?_⟩
  rw [← dios, Daemon.diosOver, outputs, running, if_pos rfl, heard]
  exact settled

end

section

variable {inetPton : List Char → Option In6Addr} {confs : List IfaceConf} {daemon : Daemon}

/-- In every run, a dag that a received DIO creates has at any later point as its parent the
source of that DIO with the least of the ranks of all DIOs handled for its key since, that one
included, and as its own rank this least rank plus 1 in 16 bits. DIOs that each carry a valid
destination prefix lead to the same ranks in whatever order they are received. -/
theorem run_rank_minimum (booted : Daemon.boot inetPton confs = .ok daemon) {key : SlotKey} (known : daemon.Knows key)
    (before after : List Event) (create : Event) (missing : (daemon.run before).slot key = none)
    (created : ((daemon.run before).step create).slot key ≠ none)
    (granted : ∀ event ∈ create :: after, event.env.AllocsSucceed) :
    (∃ dag rank, ((daemon.run before).run (create :: after)).slot key = some dag ∧
      dag.Chose ((daemon.run before).diosOver key (create :: after)) rank) ∧
    ∀ others, others.Perm (create :: after) → (∀ event ∈ create :: after, event.ValidDio key) →
      ∃ dag other, ((daemon.run before).run (create :: after)).slot key = some dag ∧
        ((daemon.run before).run others).slot key = some other ∧ other.myRank = dag.myRank ∧
        other.parent.map (·.rank) = dag.parent.map (·.rank) := by
  have fixed := foldl_invariant_always (fun _ event => Daemon.step_over event) before (boot_over booted)
  have sound : (daemon.run before).Sound := fixed.sound
  have knows : (daemon.run before).Knows key := fixed.knows known
  obtain ⟨fronts, _⟩ := Daemon.created_dio sound knows missing created
  have running := Daemon.running_of_created missing created
  constructor
  · rw [List.forall_mem_cons] at granted
    obtain ⟨dio, next, heard, stepped, chose⟩ := Daemon.step_chose_first sound knows granted.1 missing created
    obtain ⟨dag, rank, final, settled⟩ := Daemon.run_chose (Daemon.step_sound create sound)
      (Daemon.step_fronts fronts create) granted.2 stepped chose
    refine ⟨dag, rank, final, ?_⟩
    rw [Daemon.diosOver, outputs, running, if_pos rfl, heard]
    exact settled
  · intro others perm valid
    have some : others ≠ [] := by
      rintro rfl
      exact absurd perm.length_eq (by simp)
    obtain ⟨dag, rank, held, chose⟩ :=
      Daemon.run_valid_chose sound fronts running missing (List.cons_ne_nil create after) granted valid
    obtain ⟨other, otherRank, otherHeld, otherChose⟩ := Daemon.run_valid_chose sound fronts running missing some
      (fun event member => granted event (perm.mem_iff.mp member))
      (fun event member => valid event (perm.mem_iff.mp member))
    have same := chose_unique chose otherChose (perm.filterMap (Event.dio key))
    refine ⟨dag, other, held, otherHeld, by rw [otherChose.myRank, chose.myRank, same], ?_⟩
    rw [otherChose.parentRank, chose.parentRank, same]

end

def rankedDio (high low : UInt8) : Event := .packet .granting (rankedDioPacket high low)

theorem run_rank_minimum_three :
    ∃ daemon iface dag, Daemon.boot sampleInetPton [sampleConf "fd00::/64"] = .ok daemon ∧ iface ∈ daemon.ifaces ∧
      (daemon.run [rankedDio 3 0, rankedDio 0 2, rankedDio 4 0]).slot ⟨iface.toIfaceHead, 1, linkLocal 9⟩ = some dag ∧
      dag.Chose [⟨0x300, linkLocal 9⟩, ⟨2, linkLocal 9⟩, ⟨0x400, linkLocal 9⟩] 2 := by
  obtain ⟨daemon, booted⟩ := boot_sample
  have evaluated : ((Daemon.boot sampleInetPton [sampleConf "fd00::/64"]).toOption.bind fun daemon =>
      daemon.ifaces.head?.map fun iface => (daemon.slot ⟨iface.toIfaceHead, 1, linkLocal 9⟩,
        ((daemon.step (rankedDio 3 0)).slot ⟨iface.toIfaceHead, 1, linkLocal 9⟩).isSome,
        daemon.diosOver ⟨iface.toIfaceHead, 1, linkLocal 9⟩ [rankedDio 3 0, rankedDio 0 2, rankedDio 4 0])) =
      some (none, true, [⟨0x300, linkLocal 9⟩, ⟨2, linkLocal 9⟩, ⟨0x400, linkLocal 9⟩]) := by decide
  rw [booted, Except.toOption, Option.bind_some, Option.map_eq_some_iff] at evaluated
  obtain ⟨iface, listed, outcome⟩ := evaluated
  simp only [Prod.mk.injEq] at outcome
  obtain ⟨missing, created, dios⟩ := outcome
  have member := List.mem_of_head? listed
  obtain ⟨⟨dag, rank, held, chose⟩, _⟩ := run_rank_minimum booted (List.mem_map_of_mem member) []
    [rankedDio 0 2, rankedDio 4 0] (rankedDio 3 0) missing (Option.isSome_iff_ne_none.mp created) (by
      simp only [List.forall_mem_cons, List.not_mem_nil, false_implies, implies_true, and_true]
      exact ⟨Env.granting_allocs, Env.granting_allocs, Env.granting_allocs⟩)
  rw [show (daemon.run []).diosOver _ _ = _ from dios] at chose
  have least : rank = 2 := by
    have among := chose.among
    have below := chose.least ⟨2, linkLocal 9⟩ (by simp)
    simp only [List.map_cons, List.map_nil, List.mem_cons, List.not_mem_nil, or_false] at among
    rcases among with rfl | rfl | rfl
    · exact absurd below (by decide)
    · rfl
    · exact absurd below (by decide)
  rw [least] at chose
  exact ⟨daemon, iface, dag, booted, member, held, chose⟩

end Rpld
