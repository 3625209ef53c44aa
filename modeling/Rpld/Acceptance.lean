import Rpld.Roles

/-!
Accepted ranks. A dag is given a rank when a DIO is accepted for it and at no other time:
the rank of the DIO goes into the record of its parent and the 16-bit sum with 1 becomes its
own. Two values of the rank on the wire break what the sum is meant to keep.
-/

namespace Rpld

open Memory FirstMatch Runs

/-! A dag that hears a rank. -/

theorem Dag.hears_refused {env : Env} {dag : Dag} {rank : UInt16} {src : In6Addr}
    (refused : ¬ (HasParent env dag ∧ rank ≤ (dag.parentOr src).rank)) :
    dag.hears env rank src = ⟨dag, [], none⟩ := by
  by_cases available : HasParent env dag
  · rcases Dag.hears_cases available rank src with ⟨higher, heard⟩ | ⟨accepted, _⟩ | ⟨accepted, _⟩
    · rw [heard]
      cases parent : dag.parent with
      | none =>
          -- a new parent record has the largest rank, so nothing is refused
          rw [show dag.parentOr src = ⟨src, 0xffff⟩ by simp [Dag.parentOr, parent]] at higher
          have above := UInt16.lt_iff_toNat_lt.mp higher
          have bound := rank.toNat_lt
          have top : (0xffff : UInt16).toNat = 65535 := rfl
          simp only at above
          omega
      | some peer =>
          have same : dag.parentOr src = peer := by simp [Dag.parentOr, parent]
          rw [same, ← parent]
    · exact absurd ⟨available, accepted⟩ refused
    · exact absurd ⟨available, accepted⟩ refused
  · exact Dag.hears_without available rank src

theorem Dag.hears_accepted {env : Env} {dag : Dag} {rank : UInt16} {src : In6Addr} (available : HasParent env dag)
    (accepted : rank ≤ (dag.parentOr src).rank) :
    (dag.hears env rank src).dag.myRank = rank + 1 ∧
      (dag.hears env rank src).dag.parent = some ⟨(dag.parentOr src).addr, rank⟩ := by
  have configured : (dagProcessDio env (dag.ranked rank src)).1.myRank = rank + 1 ∧
      (dagProcessDio env (dag.ranked rank src)).1.parent = some ⟨(dag.parentOr src).addr, rank⟩ := by
    rcases dagProcessDio_cases env (dag.ranked rank src) with same | ⟨addr, _, wrote⟩
    · rw [same]
      exact ⟨rfl, rfl⟩
    · rw [wrote]
      exact ⟨rfl, rfl⟩
  rcases Dag.hears_cases available rank src with ⟨higher, _⟩ | ⟨_, _, heard⟩ | ⟨_, _, heard⟩
  · exact absurd accepted (UInt16.not_le.mpr higher)
  · rw [heard]
    exact configured
  · rw [heard, Dag.afterDao_eq]
    exact configured

/-! Acceptance by an interface. -/

/-- The dag whose parent record `process_dio` compares the rank with: one that is known and
no root, or the one it creates. -/
inductive Compares (env : Env) (iface : Iface) (mem : Nat → UInt8) (len : Nat) : Dag → Prop
  | known {dag : Dag} (base : sizeofDio ≤ len) (found : dagLookup iface (mem 4) (addrAt mem 12) = some dag)
      (notRoot : dag.myRank ≠ 1) : Compares env iface mem len dag
  | joined (joins : Joins iface mem len) (inside : (bitsToBytes (mem 30)).toNat ≤ sizeofPrefix)
      (creates : Creates env iface (mem 4)) : Compares env iface mem len (slotDag env iface.toIfaceHead mem)

structure AcceptsDio (env : Env) (iface : Iface) (mem : Nat → UInt8) (len : Nat) (src : In6Addr) (rank : UInt16) :
    Prop where
  type : mem 0 = ndRplMessage
  code : mem 1 = ndRplDagIo
  carried : ntohs (mem 6) (mem 7) = rank
  accepted : ∃ dag, Compares env iface mem len dag ∧ HasParent env dag ∧ rank ≤ (dag.parentOr src).rank

def Dag.Ranked (dag : Dag) (rank : UInt16) : Prop :=
  dag.myRank = rank + 1 ∧ ∃ addr, dag.parent = some ⟨addr, rank⟩

def Dag.ranks (dag : Dag) : UInt16 × Option Peer := (dag.myRank, dag.parent)

section

variable {env : Env} {iface : Iface} {mem : Nat → UInt8} {len : Nat} {src : In6Addr}

theorem slotDio_ranks (type : mem 0 = ndRplMessage) (code : mem 1 = ndRplDagIo) (base : sizeofDio ≤ len)
    (creates : dagLookup iface (mem 4) (addrAt mem 12) = none → Creates env iface (mem 4)) :
    let slot := dagLookup iface (mem 4) (addrAt mem 12)
    let later := (slotDio env iface.toIfaceHead mem len src slot).slot
    (∃ rank next, AcceptsDio env iface mem len src rank ∧ later = some next ∧ next.Ranked rank) ∨
      later.map Dag.ranks = slot.map Dag.ranks ∨
      (slot = none ∧ ∃ next, later = some next ∧ next.ranks = (0xffff, none)) := by
  intro slot later
  have compared : ∀ dag, Compares env iface mem len dag →
      (∃ rank next, AcceptsDio env iface mem len src rank ∧
        (dag.hears env (ntohs (mem 6) (mem 7)) src).dag = next ∧ next.Ranked rank) ∨
      (dag.hears env (ntohs (mem 6) (mem 7)) src).dag = dag := by
    intro dag compares
    by_cases accepts : HasParent env dag ∧ ntohs (mem 6) (mem 7) ≤ (dag.parentOr src).rank
    · obtain ⟨myRank, parent⟩ := Dag.hears_accepted accepts.1 accepts.2
      exact Or.inl ⟨_, _, ⟨type, code, rfl, dag, compares, accepts⟩, rfl, myRank, _, parent⟩
    · rw [Dag.hears_refused accepts]
      exact Or.inr rfl
  cases found : dagLookup iface (mem 4) (addrAt mem 12) with
  | some dag =>
      simp only [later, slot, found, slotDio]
      split
      · exact Or.inr (Or.inl rfl)
      · rename_i notRoot
        rcases compared dag (.known base found notRoot) with ⟨rank, next, accepts, heard, ranked⟩ | same
        · exact Or.inl ⟨rank, next, accepts, by simp [Dag.reacts, heard], ranked⟩
        · exact Or.inr (Or.inl (by simp [Dag.reacts, same]))
  | none =>
      simp only [later, slot, found, slotDio]
      split
      · rename_i whole
        split
        · exact Or.inr (Or.inl rfl)
        · rename_i inside
          have joins : Joins iface mem len := ⟨whole.1, whole.2, found⟩
          rcases compared _ (.joined joins (by omega) (creates found)) with ⟨rank, next, accepts, heard, ranked⟩ | same
          · exact Or.inl ⟨rank, next, accepts, by simp [Dag.reacts, heard], ranked⟩
          · exact Or.inr (Or.inr ⟨trivial, slotDag env iface.toIfaceHead mem, by simp [Dag.reacts, same], rfl⟩)
      · exact Or.inr (Or.inl rfl)

theorem slotSendDio_ranks (slot : Option Dag) : (slotSendDio slot).slot.map Dag.ranks = slot.map Dag.ranks := by
  cases slot with
  | none => rfl
  | some dag =>
      simp only [slotSendDio]
      split <;> rfl

theorem slotMessage_ranks {head : IfaceHead} {instanceId : UInt8} {dodagid : In6Addr}
    (other : ¬ (isDis mem = false ∧ namedKey mem len = some (instanceId, dodagid) ∧ mem 1 = ndRplDagIo))
    (slot : Option Dag) :
    (slotMessage env head instanceId dodagid mem len src slot).slot.map Dag.ranks = slot.map Dag.ranks := by
  unfold slotMessage
  cases dis : isDis mem with
  | true => exact slotSendDio_ranks slot
  | false =>
      simp only [Bool.false_eq_true, if_false]
      split
      · rename_i named
        have notDio : mem 1 ≠ ndRplDagIo := fun code => other ⟨dis, named, code⟩
        simp only [notDio, if_false]
        cases slot with
        | none => split <;> rfl
        | some dag =>
            split
            · obtain ⟨targets, walked⟩ := daoOptions_registers env mem src (len - sizeofDao)
                ⟨24, ((len - sizeofDao : Nat) : Int), dag, 4 :: addrReads 8⟩
              simp only [slotDao, walked]
              rfl
            · rfl
      · rfl

theorem processIface_ranks (keyed : iface.Keyed) (refs : iface.BackRefs) (instanceId : UInt8) (dodagid : In6Addr) :
    let slot := dagLookup iface instanceId dodagid
    let later := dagLookup (processIface env iface mem len src).iface instanceId dodagid
    (∃ rank next, AcceptsDio env iface mem len src rank ∧ later = some next ∧ next.Ranked rank) ∨
      later.map Dag.ranks = slot.map Dag.ranks ∨
      (slot = none ∧ ∃ next, later = some next ∧ next.ranks = (0xffff, none)) := by
  intro slot later
  obtain ⟨either, _⟩ := @processIface_slot_any env iface mem len src keyed refs instanceId dodagid
  by_cases dio : isDis mem = false ∧ namedKey mem len = some (instanceId, dodagid) ∧ mem 1 = ndRplDagIo
  · obtain ⟨notDis, named, code⟩ := dio
    obtain ⟨type, base, own⟩ := namedKey_dio code named
    by_cases creates : dagLookup iface instanceId dodagid = none → Creates env iface instanceId
    · simp only [Prod.mk.injEq] at own
      simp only [later, slot]
      rw [own.1, own.2] at creates ⊢
      rw [(processIface_dio type code base creates).1]
      exact slotDio_ranks type code base creates
    · rw [Classical.not_imp] at creates
      obtain ⟨same, _⟩ := @processIface_denied env iface mem len src _ _ notDis named creates.1 creates.2
      exact Or.inr (Or.inl (by simp only [later, slot, same]))
  · right
    left
    rcases either with same | changed
    · simp only [later, slot, same]
    · simp only [later, slot, changed]
      exact slotMessage_ranks dio _

theorem Compares.base {dag : Dag} (compares : Compares env iface mem len dag) : sizeofDio ≤ len := by
  cases compares with
  | known base _ _ => exact base
  | joined joins _ _ =>
      have length := joins.length
      omega

/-- A DIO that gets as far as the comparison of ranks makes the dag react, after the timer of
a dag that is new has been set up. -/
theorem processIface_compares (type : mem 0 = ndRplMessage) (code : mem 1 = ndRplDagIo) {dag : Dag}
    (compares : Compares env iface mem len dag) :
    let out := processIface env iface mem len src
    ∃ before, (before = [] ∨ before = dagInitTimer dag) ∧
      dagLookup out.iface (mem 4) (addrAt mem 12) = (dag.reacts env mem src before).slot ∧
      out.effects = (dag.reacts env mem src before).effects := by
  intro out
  have base := compares.base
  cases compares with
  | known _ found notRoot =>
      obtain ⟨slot, effects, _⟩ := @processIface_dio env iface mem len src type code base (by simp [found])
      simp only [found, slotDio, notRoot, if_false] at slot effects
      exact ⟨[], Or.inl rfl, slot, effects⟩
  | joined joins inside creates =>
      have whole : sizeofDio + sizeofDiodpHead + (bitsToBytes (mem 30)).toNat ≤ len ∧ mem 28 = 0x3 :=
        ⟨joins.length, joins.option⟩
      have fits : ¬ sizeofPrefix < (bitsToBytes (mem 30)).toNat := by omega
      obtain ⟨slot, effects, _⟩ := @processIface_dio env iface mem len src type code base (fun _ => creates)
      simp only [joins.missing, slotDio, whole, and_self, if_true, fits, if_false] at slot effects
      exact ⟨_, Or.inr rfl, slot, effects⟩

theorem processIface_accepts {rank : UInt16} (accepts : AcceptsDio env iface mem len src rank) :
    (∀ dag, dagLookup iface (mem 4) (addrAt mem 12) = some dag → dag.myRank ≠ 1) ∧
      ∃ next, dagLookup (processIface env iface mem len src).iface (mem 4) (addrAt mem 12) = some next ∧
        next.Ranked rank := by
  obtain ⟨dag, compares, available, below⟩ := accepts.accepted
  obtain ⟨before, _, slot, _⟩ := @processIface_compares env iface mem len src accepts.type accepts.code dag compares
  rw [← accepts.carried] at below
  obtain ⟨myRank, parent⟩ := Dag.hears_accepted available below
  refine ⟨?_, _, slot, by rw [myRank, accepts.carried], (dag.parentOr src).addr, by rw [parent, accepts.carried]⟩
  intro other otherFound
  cases compares with
  | known _ found notRoot =>
      rw [found, Option.some.injEq] at otherFound
      rw [← otherFound]
      exact notRoot
  | joined joins _ _ => simp [joins.missing] at otherFound

end

/-! Acceptance by the daemon. -/

/-- The daemon is running and the event is a DIO that it accepts, with this rank. -/
def Daemon.Accepts (daemon : Daemon) (event : Event) (rank : UInt16) : Prop :=
  daemon.fault = none ∧ ∃ env pkt iface, event = .packet env pkt ∧ 4 ≤ pkt.len ∧
    ifaceFindByIfindex daemon.ifaces pkt.ifindex = some iface ∧
    AcceptsDio env iface pkt.mem (pkt.len - 4) pkt.src rank

section

variable {daemon : Daemon}

theorem Daemon.step_ranks {key : SlotKey} (sound : daemon.Sound) (event : Event) :
    let slot := daemon.slot key
    let later := (daemon.step event).slot key
    (∃ rank next, daemon.Accepts event rank ∧ later = some next ∧ next.Ranked rank) ∨
      later.map Dag.ranks = slot.map Dag.ranks ∨
      (slot = none ∧ ∃ next, later = some next ∧ next.ranks = (0xffff, none)) := by
  intro slot later
  cases failed : daemon.fault with
  | some fault => exact Or.inr (Or.inl (by simp [later, slot, Daemon.step, failed]))
  | none =>
      cases event with
      | dis env ptr =>
          right
          left
          simp only [later, slot, Daemon.slot, (Daemon.dis_step failed).1]
      | trickle env watcher =>
          right
          left
          simp only [later, (Daemon.trickle_view sound failed).1, Event.reaction]
          split
          · exact slotSendDio_ranks slot
          · rfl
      | packet env pkt =>
          rcases Daemon.packet_seen daemon pkt with unseen | ⟨iface, long, found⟩
          · simp [later, slot, Daemon.packet_dropped failed unseen]
          · have member := List.mem_of_find?_eq_some found
            simp only [later, (@Daemon.packet_view daemon key env pkt iface sound failed long found).1]
            by_cases own : iface.ptr = key.head.ptr
            · simp only [slot, own, beq_self_eq_true, if_true, Daemon.slot_of_find sound member own]
              rcases @processIface_ranks env iface pkt.mem (pkt.len - 4) pkt.src (sound.keyed iface member)
                (sound.refs iface member) key.instanceId key.dodagid with ⟨rank, next, accepts, made⟩ | rest
              · exact Or.inl ⟨rank, next, ⟨failed, env, pkt, iface, rfl, long, found, accepts⟩, made⟩
              · exact Or.inr rest
            · simp [own, slot]

theorem Daemon.accepts_step {event : Event} {rank : UInt16} (sound : daemon.Sound)
    (accepts : daemon.Accepts event rank) :
    ∃ key, daemon.Knows key ∧ (∀ dag, daemon.slot key = some dag → dag.myRank ≠ 1) ∧
      ∃ next, (daemon.step event).slot key = some next ∧ next.Ranked rank := by
  obtain ⟨running, env, pkt, iface, rfl, long, found, accepted⟩ := accepts
  have member := List.mem_of_find?_eq_some found
  obtain ⟨notRoot, next, looked, ranked⟩ := processIface_accepts accepted
  refine ⟨⟨iface.toIfaceHead, pkt.mem 4, addrAt pkt.mem 12⟩, List.mem_map_of_mem member, ?_, next, ?_, ranked⟩
  · rw [Daemon.slot_of_find sound member rfl]
    exact notRoot
  · rw [(Daemon.packet_view sound running long found).1]
    simpa using looked

end

/-- The event is neither a DIO that offers a new dag more than 128 bits of prefix, more than
`process_dio` has room for, nor one with this rank that is accepted. -/
def Daemon.Refuses (rank : UInt16) (daemon : Daemon) (event : Event) : Prop :=
  ¬ daemon.Oversized event ∧ ¬ daemon.Accepts event rank

/-! The rank of a root. -/

theorem Daemon.step_roots {start daemon : Daemon} {heads : List IfaceHead} (fixed : daemon.Over heads)
    (roots : ∀ key : SlotKey, key.head ∈ heads → ∀ dag, start.slot key = some dag → dag.myRank = 1 ∧
      ∃ later, daemon.slot key = some later ∧ dag.RootOf later) (event : Event) :
    ∀ key : SlotKey, key.head ∈ heads → ∀ dag, start.slot key = some dag → dag.myRank = 1 ∧
      ∃ later, (daemon.step event).slot key = some later ∧ dag.RootOf later := by
  intro key known dag configured
  obtain ⟨rank, later, held, root⟩ := roots key known dag configured
  refine ⟨rank, ?_⟩
  rcases (Daemon.step_slot_any fixed.sound (fixed.knows known) event).1 with same | changed
  · exact ⟨later, same.trans held, root⟩
  · rw [held] at changed
    obtain ⟨⟨next, reacted, stays⟩, _⟩ := reaction_root rank root key event
    exact ⟨next, changed.trans reacted, stays⟩

theorem boot_roots {inetPton : List Char → Option In6Addr} {confs : List IfaceConf} {daemon : Daemon}
    (booted : Daemon.boot inetPton confs = .ok daemon) {key : SlotKey} {dag : Dag}
    (held : daemon.slot key = some dag) : dag.Configured := by
  obtain ⟨iface, found, looked⟩ := Option.bind_eq_some_iff.mp held
  exact dagLookup_allDags (boot_configured booted iface (List.mem_of_find?_eq_some found)) looked

/-- No dag under a key for which the start had none has the rank by which a root is known. -/
def Daemon.NoNewRoots (start daemon : Daemon) : Prop :=
  ∀ key, start.Knows key → start.slot key = none → ∀ dag, daemon.slot key = some dag → dag.myRank ≠ 1

theorem rank_add_one_eq_one {rank : UInt16} : rank + 1 = 1 ↔ rank = 0 := by
  have bound := rank.toNat_lt
  have one : (1 : UInt16).toNat = 1 := rfl
  have zero : (0 : UInt16).toNat = 0 := rfl
  rw [← UInt16.toNat_inj, ← UInt16.toNat_inj, UInt16.toNat_add, one, zero]
  omega

theorem ranks_of_map_eq {now old : Option Dag} {dag : Dag} (same : now.map Dag.ranks = old.map Dag.ranks)
    (held : now = some dag) : ∃ earlier, old = some earlier ∧ dag.myRank = earlier.myRank ∧ dag.parent = earlier.parent := by
  rw [held, Option.map_some, eq_comm, Option.map_eq_some_iff] at same
  obtain ⟨earlier, was, ranks⟩ := same
  exact ⟨earlier, was, (congrArg Prod.fst ranks).symm, (congrArg Prod.snd ranks).symm⟩

theorem Daemon.step_noNewRoots_iff {start daemon : Daemon}
    (fixed : daemon.Over (start.ifaces.map (·.toIfaceHead)))
    (roots : ∀ key, start.Knows key → ∀ dag, start.slot key = some dag → dag.myRank = 1 ∧
      ∃ later, daemon.slot key = some later ∧ dag.RootOf later)
    (before : start.NoNewRoots daemon) (event : Event) :
    start.NoNewRoots (daemon.step event) ↔ ¬ daemon.Accepts event 0 := by
  constructor
  · intro after accepts
    obtain ⟨key, known, notRoot, next, held, rank, _⟩ := Daemon.accepts_step fixed.sound accepts
    have startKnown : start.Knows key := by
      rw [Daemon.Knows, fixed.heads] at known
      exact known
    cases configured : start.slot key with
    | none => exact after key startKnown configured next held rank
    | some dag =>
        obtain ⟨_, later, laterHeld, root⟩ := roots key startKnown dag configured
        exact notRoot later laterHeld root.myRank
  · intro refused key known missing dag held
    rcases @Daemon.step_ranks daemon key fixed.sound event with
      ⟨rank, next, accepts, nextHeld, myRank, _⟩ | same | ⟨_, next, nextHeld, ranks⟩
    · intro root
      rw [held, Option.some.injEq] at nextHeld
      rw [← nextHeld, root] at myRank
      rw [rank_add_one_eq_one.mp myRank.symm] at accepts
      exact refused accepts
    · obtain ⟨earlier, was, sameRank, _⟩ := ranks_of_map_eq same held
      rw [sameRank]
      exact before key known missing earlier was
    · rw [held, Option.some.injEq] at nextHeld
      rw [nextHeld, show next.myRank = 0xffff from congrArg Prod.fst ranks]
      decide

section

variable {inetPton : List Char → Option In6Addr} {confs : List IfaceConf} {daemon : Daemon}

theorem always_noNewRoots_iff (booted : Daemon.boot inetPton confs = .ok daemon) (events : List Event) :
    Always Daemon.step daemon.NoNewRoots daemon events ↔
      AllSteps Daemon.step (fun state event => ¬ state.Accepts event 0) daemon events := by
  refine @always_iff_allSteps _ _ _ _ _ (fun state => state.Over (daemon.ifaces.map (·.toIfaceHead)) ∧
    ∀ key, daemon.Knows key → ∀ dag, daemon.slot key = some dag → dag.myRank = 1 ∧
      ∃ later, state.slot key = some later ∧ dag.RootOf later) ?_ ?_ events daemon ⟨boot_over booted, ?_⟩ ?_
  · intro state event inv
    exact ⟨Daemon.step_over event inv.1, Daemon.step_roots inv.1 inv.2 event⟩
  · intro state event inv before
    exact Daemon.step_noNewRoots_iff inv.1 inv.2 before event
  · intro key _ dag held
    have configured := boot_roots booted held
    exact ⟨configured.myRank, dag, held, configured.myRank, configured.parent, rfl, rfl, rfl⟩
  · intro key _ missing dag held
    simp [missing] at held

/-- In a run from a configuration that loads, in which no DIO with rank 0 is accepted and none
offers a new dag more than 128 bits, the dags that `process_dio` created never have rank 1 and
no DIO sent for them carries rank 1 either. Where the second part of the condition holds, the
first does exactly if no such dag ever has rank 1. -/
theorem run_no_new_roots_iff (booted : Daemon.boot inetPton confs = .ok daemon) (events : List Event) :
    (AllSteps Daemon.step (Daemon.Refuses 0) daemon events →
      Always Daemon.step daemon.NoNewRoots daemon events ∧
        ∀ key, daemon.Knows key → daemon.slot key = none → ∀ effect ∈ daemon.madeOver key events,
          effect.code = some ndRplDagIo → effect.dioRank ≠ 1) ∧
    (AllSteps Daemon.step (fun state event => ¬ state.Oversized event) daemon events →
      Always Daemon.step daemon.NoNewRoots daemon events →
        AllSteps Daemon.step (Daemon.Refuses 0) daemon events) := by
  have fixed := boot_over booted
  have exactly := always_noNewRoots_iff booted events
  refine ⟨?_, fun small always => allSteps_and small (exactly.mp always)⟩
  intro refused
  have always := exactly.mpr (allSteps_imp (fun _ _ => And.right) refused)
  refine ⟨always, ?_⟩
  intro key known missing effect member dio
  obtain ⟨before, event, after, split, made⟩ := mem_outputs member
  have here := always_iff.mp always before (event :: after) split
  have reached : Daemon.Over (daemon.ifaces.map (·.toIfaceHead)) (before.foldl Daemon.step daemon) :=
    foldl_invariant_always (fun _ event => Daemon.step_over event) before fixed
  obtain ⟨dag, held, rfl⟩ := Daemon.made_dio reached.sound (reached.knows known) made dio
  rw [dioMessage_rank]
  exact here key known missing dag held

end

def rankedDioPacket (high low : UInt8) : Packet :=
  ⟨overlay ([ndRplMessage, ndRplDagIo, 0, 0, 1, 1, high, low, 0, 0, 0, 0] ++ (linkLocal 9).s6Addr ++
    [0x3, 14, 64, 0, 0, 0, 0, 0]) fun _ => 0, 44, linkLocal 9, 1⟩

theorem not_accepts_of_rank {daemon : Daemon} {env : Env} {pkt : Packet} {rank : UInt16}
    (other : ntohs (pkt.mem 6) (pkt.mem 7) ≠ rank) : ¬ daemon.Accepts (.packet env pkt) rank := by
  rintro ⟨_, _, _, _, same, _, _, accepts⟩
  cases same
  exact other accepts.carried

theorem run_no_new_roots_foreignDio :
    ∃ daemon, Daemon.boot sampleInetPton [sampleConf "fd00::/64"] = .ok daemon ∧
      daemon.NoNewRoots (daemon.run [.packet .granting (rankedDioPacket 0 1)]) := by
  obtain ⟨daemon, booted⟩ := boot_sample
  have always := ((run_no_new_roots_iff booted [.packet .granting (rankedDioPacket 0 1)]).1
    ⟨⟨Daemon.not_oversized (by decide), not_accepts_of_rank (by decide)⟩, trivial⟩).1
  exact ⟨daemon, booted, always_iff.mp always [.packet .granting (rankedDioPacket 0 1)] [] rfl⟩

theorem rank_zero_makes_root :
    ∃ daemon, Daemon.boot sampleInetPton [sampleConf "fd00::/64"] = .ok daemon ∧
      ¬ daemon.NoNewRoots (daemon.run [.packet .granting (rankedDioPacket 0 0)]) := by
  obtain ⟨daemon, booted⟩ := boot_sample
  have evaluated : ((Daemon.boot sampleInetPton [sampleConf "fd00::/64"]).toOption.bind fun daemon =>
      daemon.ifaces.head?.map fun iface => (daemon.slot ⟨iface.toIfaceHead, 1, linkLocal 9⟩,
        ((daemon.run [.packet .granting (rankedDioPacket 0 0)]).slot ⟨iface.toIfaceHead, 1, linkLocal 9⟩).map
          (·.myRank))) = some (none, some 1) := by decide
  rw [booted, Except.toOption, Option.bind_some, Option.map_eq_some_iff] at evaluated
  obtain ⟨iface, listed, outcome⟩ := evaluated
  rw [Prod.mk.injEq, Option.map_eq_some_iff] at outcome
  obtain ⟨missing, dag, held, rank⟩ := outcome
  refine ⟨daemon, booted, ?_⟩
  intro noNewRoots
  exact noNewRoots ⟨iface.toIfaceHead, 1, linkLocal 9⟩ (List.mem_map_of_mem (List.mem_of_head? listed)) missing
    dag held rank

/-! The rank of a parent. -/

def Daemon.RanksAbove (daemon : Daemon) : Prop :=
  ∀ iface ∈ daemon.ifaces, iface.AllDags fun _ dag =>
    ∀ peer, dag.parent = some peer → dag.myRank.toNat = peer.rank.toNat + 1

theorem Daemon.ranksAbove_iff {daemon : Daemon} (sound : daemon.Sound) :
    daemon.RanksAbove ↔ ∀ key, daemon.Knows key → ∀ dag peer, daemon.slot key = some dag →
      dag.parent = some peer → dag.myRank.toNat = peer.rank.toNat + 1 := by
  constructor
  · intro above key known dag peer held parent
    obtain ⟨iface, found, looked⟩ := Option.bind_eq_some_iff.mp held
    exact dagLookup_allDags (above iface (List.mem_of_find?_eq_some found)) looked peer parent
  · intro above iface listed rpl inIface dag inRpl peer parent
    refine above ⟨iface.toIfaceHead, rpl.instanceId, dag.dodagid⟩ (List.mem_map_of_mem listed) dag peer ?_ parent
    rw [Daemon.slot_of_find sound listed rfl]
    exact keyed_lookup (sound.keyed iface listed) inIface inRpl

theorem rank_add_one_toNat {rank : UInt16} : (rank + 1).toNat = rank.toNat + 1 ↔ rank ≠ 0xffff := by
  have bound := rank.toNat_lt
  have one : (1 : UInt16).toNat = 1 := rfl
  have top : (0xffff : UInt16).toNat = 65535 := rfl
  rw [Ne, ← UInt16.toNat_inj, UInt16.toNat_add, one, top]
  omega

theorem Daemon.step_ranksAbove_iff {daemon : Daemon} (sound : daemon.Sound) (before : daemon.RanksAbove)
    (event : Event) : (daemon.step event).RanksAbove ↔ ¬ daemon.Accepts event 0xffff := by
  rw [Daemon.ranksAbove_iff sound] at before
  rw [Daemon.ranksAbove_iff (Daemon.step_sound event sound)]
  have sameKeys : ∀ key, (daemon.step event).Knows key ↔ daemon.Knows key := by
    intro key
    rw [Daemon.Knows, Daemon.step_heads]
    rfl
  constructor
  · intro after accepts
    obtain ⟨key, known, _, next, held, rank, addr, parent⟩ := Daemon.accepts_step sound accepts
    have above := after key ((sameKeys key).mpr known) next _ held parent
    rw [rank] at above
    exact rank_add_one_toNat.mp above rfl
  · intro refused key known dag peer held parent
    rcases @Daemon.step_ranks daemon key sound event with
      ⟨rank, next, accepts, nextHeld, myRank, addr, recorded⟩ | same | ⟨_, next, nextHeld, ranks⟩
    · rw [held, Option.some.injEq] at nextHeld
      rw [← nextHeld, parent, Option.some.injEq] at recorded
      rw [nextHeld, myRank, recorded, rank_add_one_toNat]
      intro largest
      rw [largest] at accepts
      exact refused accepts
    · obtain ⟨earlier, was, sameRank, sameParent⟩ := ranks_of_map_eq same held
      rw [sameRank]
      exact before key ((sameKeys key).mp known) earlier peer was (sameParent.symm.trans parent)
    · rw [held, Option.some.injEq] at nextHeld
      have without : next.parent = none := congrArg Prod.snd ranks
      rw [nextHeld, without] at parent
      simp at parent

section

variable {inetPton : List Char → Option In6Addr} {confs : List IfaceConf} {daemon : Daemon}

theorem always_ranksAbove_iff (booted : Daemon.boot inetPton confs = .ok daemon) (events : List Event) :
    Always Daemon.step Daemon.RanksAbove daemon events ↔
      AllSteps Daemon.step (fun state event => ¬ state.Accepts event 0xffff) daemon events := by
  refine @always_iff_allSteps _ _ _ _ _ Daemon.Sound ?_ ?_ events daemon (boot_over booted).sound ?_
  · exact fun state event => Daemon.step_sound event
  · exact fun state event sound before => Daemon.step_ranksAbove_iff sound before event
  · intro iface listed rpl inIface dag inRpl peer parent
    rw [(boot_configured booted iface listed rpl inIface dag inRpl).parent] at parent
    simp at parent

/-- In a run from a configuration that loads, in which no DIO with rank 65535 is accepted and
none offers a new dag more than 128 bits, every dag with a parent always has a rank one above
the parent's, and every DIO sent for it carries a rank above the parent's. Where the second
part of the condition holds, the first does exactly if the ranks always are so. -/
theorem run_ranks_above_iff (booted : Daemon.boot inetPton confs = .ok daemon) (events : List Event) :
    (AllSteps Daemon.step (Daemon.Refuses 0xffff) daemon events →
      Always Daemon.step Daemon.RanksAbove daemon events ∧
        ∀ before event after, events = before ++ event :: after → ∀ key, daemon.Knows key →
          ∀ effect ∈ (daemon.run before).made key event, effect.code = some ndRplDagIo →
            ∃ dag, (daemon.run before).slot key = some dag ∧
              ∀ peer, dag.parent = some peer → peer.rank.toNat < effect.dioRank.toNat) ∧
    (AllSteps Daemon.step (fun state event => ¬ state.Oversized event) daemon events →
      Always Daemon.step Daemon.RanksAbove daemon events →
        AllSteps Daemon.step (Daemon.Refuses 0xffff) daemon events) := by
  have fixed := boot_over booted
  have exactly := always_ranksAbove_iff booted events
  refine ⟨?_, fun small always => allSteps_and small (exactly.mp always)⟩
  intro refused
  have always := exactly.mpr (allSteps_imp (fun _ _ => And.right) refused)
  refine ⟨always, ?_⟩
  intro before event after split key known effect member dio
  have here := always_iff.mp always before (event :: after) split
  have reached : Daemon.Over (daemon.ifaces.map (·.toIfaceHead)) (daemon.run before) :=
    foldl_invariant_always (fun _ event => Daemon.step_over event) before fixed
  obtain ⟨dag, held, rfl⟩ := Daemon.made_dio reached.sound (reached.knows known) member dio
  refine ⟨dag, held, ?_⟩
  intro peer parent
  have above := (Daemon.ranksAbove_iff reached.sound).mp here key (reached.knows known) dag peer held parent
  rw [dioMessage_rank, above]
  omega

end

theorem run_ranks_above_foreignDio :
    ∃ daemon, Daemon.boot sampleInetPton [sampleConf "fd00::/64"] = .ok daemon ∧
      (daemon.run [.packet .granting (rankedDioPacket 0 1)]).RanksAbove := by
  obtain ⟨daemon, booted⟩ := boot_sample
  have always := ((run_ranks_above_iff booted [.packet .granting (rankedDioPacket 0 1)]).1
    ⟨⟨Daemon.not_oversized (by decide), not_accepts_of_rank (by decide)⟩, trivial⟩).1
  exact ⟨daemon, booted, always_iff.mp always [.packet .granting (rankedDioPacket 0 1)] [] rfl⟩

theorem largest_rank_wraps :
    ∃ daemon, Daemon.boot sampleInetPton [sampleConf "fd00::/64"] = .ok daemon ∧
      ¬ (daemon.run [.packet .granting (rankedDioPacket 0xff 0xff)]).RanksAbove := by
  obtain ⟨daemon, booted⟩ := boot_sample
  have evaluated : ((Daemon.boot sampleInetPton [sampleConf "fd00::/64"]).toOption.bind fun daemon =>
      (ifaceFindByIfindex (daemon.run [.packet .granting (rankedDioPacket 0xff 0xff)]).ifaces 1).bind fun iface =>
        (dagLookup iface 1 (linkLocal 9)).bind fun dag => dag.parent.map fun peer => (dag.myRank, peer.rank)) =
      some (0, 0xffff) := by decide
  rw [booted, Except.toOption, Option.bind_some] at evaluated
  obtain ⟨iface, found, evaluated⟩ := Option.bind_eq_some_iff.mp evaluated
  obtain ⟨dag, looked, evaluated⟩ := Option.bind_eq_some_iff.mp evaluated
  obtain ⟨peer, parent, ranks⟩ := Option.map_eq_some_iff.mp evaluated
  rw [Prod.mk.injEq] at ranks
  refine ⟨daemon, booted, ?_⟩
  intro above
  have wrapped := dagLookup_allDags (above iface (List.mem_of_find?_eq_some found)) looked peer parent
  rw [ranks.1, ranks.2] at wrapped
  exact absurd wrapped (by decide)

end Rpld
