import Rpld.DaoBounds

/-!
Malformed DAOs. The option loop registers each target before it looks at what follows, and
it ends as if all were well when an option runs past the end of the message. Only a single
byte behind the last whole option makes it return early, and then what it has registered
stays.
-/

namespace Rpld

open Memory

/-- The bytes behind the DAO base are a sequence of whole options, and each target among
them has room for its address. -/
def Tiled (mem : Nat → UInt8) (len : Nat) : Prop :=
  ∃ options : List RplOption, (∀ option ∈ options, option.WellFormed) ∧
    slice mem 24 (len - 24) = options.flatMap RplOption.bytes

def AddsNone (env : Env) (mem : Nat → UInt8) (len start : Nat) (dag : Dag) : Prop :=
  ∀ option, OptionFrom mem len start option → option + 2 ≤ len → mem option = rplDaoRpltarget →
    addrAt mem (option + 4) ∈ dag.childs.map (·.addr) ∨ env.childAlloc option = false

section

variable {env : Env} {mem : Nat → UInt8} {src : In6Addr} {len : Nat} {dag : Dag}

theorem optionFrom_le {start option : Nat} (reached : OptionFrom mem len start option) : start ≤ option := by
  induction reached with
  | here => exact Nat.le_refl _
  | skip _ _ ih => omega

theorem optionFrom_step {start option : Nat} (header : start + 2 ≤ len) (different : start ≠ option) :
    OptionFrom mem len start option ↔ OptionFrom mem len (start + (2 + (mem (start + 1)).toNat)) option := by
  constructor
  · intro reached
    cases reached with
    | here => exact absurd rfl different
    | skip _ later => exact later
  · exact OptionFrom.skip header

theorem addsNone_short {start : Nat} (short : len < start + 2) : AddsNone env mem len start dag := by
  intro option reached header
  have after := optionFrom_le reached
  omega

theorem addsNone_step {start : Nat} (header : start + 2 ≤ len) :
    AddsNone env mem len start dag ↔
      (mem start = rplDaoRpltarget →
        addrAt mem (start + 4) ∈ dag.childs.map (·.addr) ∨ env.childAlloc start = false) ∧
        AddsNone env mem len (start + (2 + (mem (start + 1)).toNat)) dag := by
  constructor
  · intro none
    exact ⟨none start (.here start) header, fun option reached => none option (.skip header reached)⟩
  · rintro ⟨first, others⟩ option reached inside target
    cases reached with
    | here => exact first target
    | skip _ later => exact others option later inside target

theorem registers_extends (dag : Dag) (src : In6Addr) (targets : List In6Addr) :
    dag.childs <+: (dag.registers src targets).childs :=
  AddNew.addNews_extends dag.childs targets

theorem registers_fixed {targets more : List In6Addr}
    (fixed : (dag.registers src targets).registers src more = dag) : dag.registers src targets = dag := by
  have grown := registers_extends dag src targets
  have kept := registers_extends (dag.registers src targets) src more
  rw [fixed] at kept
  have same : dag.childs = (dag.registers src targets).childs := grown.eq_of_length_le kept.length_le
  show { dag with childs := (dag.registers src targets).childs } = dag
  rw [← same]

theorem dagLookupChildOrCreate_eq_self_iff (allocated : Bool) (dag : Dag) (addr src : In6Addr) :
    dagLookupChildOrCreate allocated dag addr src = dag ↔
      addr ∈ dag.childs.map (·.addr) ∨ allocated = false := by
  rw [dagLookupChildOrCreate_eq]
  have childs : ∀ table, ({ dag with childs := table } : Dag) = dag ↔ table = dag.childs :=
    fun table => ⟨congrArg Dag.childs, fun same => by rw [same]⟩
  rw [childs]
  cases allocated with
  | false => simp [addTargets]
  | true =>
      simp only [if_true, addTargets, AddNew.addNews_cons, AddNew.addNews_nil, Bool.true_eq_false, or_false]
      exact AddNew.addNew_eq_self_iff

theorem daoOption_dag_iff {cursor next : DaoCursor} (turned : daoOption env mem src cursor = some next) :
    next.dag = cursor.dag ↔
      (mem cursor.p = rplDaoRpltarget →
        addrAt mem (cursor.p + 4) ∈ cursor.dag.childs.map (·.addr) ∨ env.childAlloc cursor.p = false) := by
  obtain ⟨_, ⟨target, rfl⟩ | ⟨target, rfl⟩⟩ := daoOption_cases turned
  · simp only [target, forall_const]
    exact dagLookupChildOrCreate_eq_self_iff _ _ _ _
  · simp [target]

/-- The loop returns early without having changed the dag exactly when the walk comes to
the last byte of the message and no target on the way is new. -/
theorem daoOptions_drops_iff {turns : Nat} {cursor : DaoCursor} (started : 0 < cursor.p)
    (remaining : cursor.optlen = (len : Int) - cursor.p) (enough : cursor.optlen ≤ turns) :
    ((daoOptions env mem src turns cursor).2 = false ∧
        (daoOptions env mem src turns cursor).1.dag = cursor.dag) ↔
      OptionFrom mem len cursor.p (len - 1) ∧ AddsNone env mem len cursor.p cursor.dag := by
  have past : cursor.optlen ≤ 0 → ¬ OptionFrom mem len cursor.p (len - 1) := by
    intro done reached
    have after := optionFrom_le reached
    omega
  induction turns generalizing cursor with
  | zero =>
      have notReached := past (by omega)
      simp [daoOptions, notReached]
  | succ turns ih =>
      simp only [daoOptions]
      split
      · cases turned : daoOption env mem src cursor with
        | none =>
            have header := daoOption_none_iff.mp turned
            simp only [sizeofOpt] at header
            have last : cursor.p = len - 1 := by omega
            have none : AddsNone env mem len cursor.p cursor.dag := addsNone_short (by omega)
            simp only [none, and_true, true_iff]
            rw [← last]
            exact .here cursor.p
        | some next =>
            obtain ⟨inside, moved, left, _⟩ := daoOption_reads turned remaining
            have later := @ih next (by omega) left (by omega) (by
              intro done reached
              have after := optionFrom_le reached
              omega)
            have same := daoOption_dag_iff turned
            simp only
            rw [optionFrom_step inside (by omega), addsNone_step inside, ← same, ← moved]
            constructor
            · rintro ⟨returned, walked⟩
              obtain ⟨targets, offered⟩ := daoOption_registers turned
              obtain ⟨more, rest⟩ := daoOptions_registers env mem src turns next
              have kept : next.dag = cursor.dag := by
                rw [offered]
                refine @registers_fixed src cursor.dag targets more ?_
                rw [← offered, ← rest]
                exact walked
              rw [kept] at later
              have both := later.mp ⟨returned, walked⟩
              exact ⟨both.1, kept, both.2⟩
            · rintro ⟨reached, kept, none⟩
              rw [kept] at later
              exact later.mpr ⟨reached, none⟩
      · have notReached := past (by omega)
        simp [notReached]

end

/-! One packet. -/

def childTables (ifaces : List Iface) : List (List (List (List Child))) :=
  ifaces.map fun iface => iface.rpls.map fun rpl => rpl.dags.map Dag.childs

/-- The packet had no effect: no child table changed, nothing was requested or sent. -/
def Dropped (env : Env) (ifaces : List Iface) (pkt : Packet) : Prop :=
  childTables (process env ifaces pkt).ifaces = childTables ifaces ∧ (process env ifaces pkt).effects = []

theorem childTables_dagWrite {ifaces : List Iface} {iface : Iface} {ifindex : UInt32} {instanceId : UInt8}
    {dodagid : In6Addr} {dag next : Dag} (known : ifaceFindByIfindex ifaces ifindex = some iface)
    (found : dagLookup iface instanceId dodagid = some dag) :
    childTables (FirstMatch.updateFirst (·.ifindex == ifindex)
        (fun _ => dagWrite iface instanceId dodagid fun _ => next) ifaces) = childTables ifaces ↔
      next.childs = dag.childs := by
  rw [dagLookup_eq, Option.bind_eq_some_iff] at found
  obtain ⟨rpl, inIface, inRpl⟩ := found
  unfold childTables
  rw [FirstMatch.map_updateFirst_iff known]
  simp only [dagWrite]
  rw [FirstMatch.map_updateFirst_iff inIface, FirstMatch.map_updateFirst_iff inRpl]

theorem dropped_iff (env : Env) {ifaces : List Iface} {pkt : Packet} {iface : Iface} {dag : Dag}
    (type : pkt.mem 0 = ndRplMessage) (code : pkt.mem 1 = ndRplDao) (base : 24 ≤ pkt.len)
    (known : ifaceFindByIfindex ifaces pkt.ifindex = some iface)
    (found : dagLookup iface (pkt.mem 4) (addrAt pkt.mem 8) = some dag) :
    Dropped env ifaces pkt ↔
      OptionFrom pkt.mem pkt.len 24 (pkt.len - 1) ∧ AddsNone env pkt.mem pkt.len 24 dag := by
  have long : ¬ pkt.len - 4 < sizeofDao := by simp only [sizeofDao]; omega
  have walk := @daoOptions_drops_iff env pkt.mem pkt.src pkt.len (pkt.len - 4 - sizeofDao)
    ⟨24, ((pkt.len - 4 - sizeofDao : Nat) : Int), dag, 4 :: addrReads 8⟩ (by simp)
    (by simp only [sizeofDao]; omega) (Int.le_refl _)
  obtain ⟨targets, walked⟩ := daoOptions_registers env pkt.mem pkt.src (pkt.len - 4 - sizeofDao)
    ⟨24, ((pkt.len - 4 - sizeofDao : Nat) : Int), dag, 4 :: addrReads 8⟩
  rw [← walk]
  unfold Dropped
  rw [process_of_find (by omega) known, processIface_daoBody type code]
  simp only [processDao, long, if_false, found, sendDaoAck_ok]
  split
  · rename_i ended
    simp [ended]
  · rename_i returned
    simp only [Bool.not_eq_true] at returned
    simp only [returned, and_true, true_and]
    rw [childTables_dagWrite known found, walked]
    exact ⟨fun same => by rw [Dag.registers] at same ⊢; simp only at same; rw [same], fun same => by rw [same]⟩

/-- A malformed DAO for a dag the receiver holds is dropped without effect exactly when the
walk over its options ends one byte before its end and meets no target address that is new. -/
theorem process_dao_malformed_dropped_iff (env : Env) {ifaces : List Iface} {pkt : Packet} {iface : Iface}
    {dag : Dag} (type : pkt.mem 0 = ndRplMessage) (code : pkt.mem 1 = ndRplDao) (base : 24 ≤ pkt.len)
    (known : ifaceFindByIfindex ifaces pkt.ifindex = some iface)
    (found : dagLookup iface (pkt.mem 4) (addrAt pkt.mem 8) = some dag) :
    (¬ Tiled pkt.mem pkt.len → Dropped env ifaces pkt) ↔
      Tiled pkt.mem pkt.len ∨
        OptionFrom pkt.mem pkt.len 24 (pkt.len - 1) ∧ AddsNone env pkt.mem pkt.len 24 dag := by
  rw [dropped_iff env type code base known found]
  constructor
  · intro drops
    by_cases tiled : Tiled pkt.mem pkt.len
    · exact Or.inl tiled
    · exact Or.inr (drops tiled)
  · rintro (tiled | cut) malformed
    · exact absurd tiled malformed
    · exact cut

theorem tiled_cons {mem : Nat → UInt8} {len : Nat} (tiled : Tiled mem len) (more : 24 < len) :
    26 ≤ len ∧ (mem 24 = rplDaoRpltarget → 44 ≤ len) := by
  obtain ⟨options, formed, bytes⟩ := tiled
  have size := congrArg List.length bytes
  rw [slice_length] at size
  cases options with
  | nil =>
      simp only [List.flatMap_nil, List.length_nil] at size
      omega
  | cons option rest =>
      simp only [List.flatMap_cons, List.length_append, RplOption.bytes_length] at size
      refine ⟨by omega, ?_⟩
      intro target
      rw [List.flatMap_cons, RplOption.bytes] at bytes
      have type : mem 24 = option.type := (slice_eq_cons mem bytes).1
      have long := formed option (by simp) (type.symm.trans target)
      omega

/-- The walk over whole options never comes to the last byte of the message. -/
theorem not_optionFrom_last {mem : Nat → UInt8} {len start : Nat} {options : List RplOption}
    (bytes : slice mem start (len - start) = options.flatMap RplOption.bytes) (more : start < len) :
    ¬ OptionFrom mem len start (len - 1) := by
  induction options generalizing start with
  | nil =>
      have size := congrArg List.length bytes
      simp only [slice_length, List.flatMap_nil, List.length_nil] at size
      omega
  | cons option rest ih =>
      intro reached
      rw [List.flatMap_cons] at bytes
      have size := congrArg List.length bytes
      simp only [slice_length, List.length_append, RplOption.bytes_length] at size
      obtain ⟨first, later⟩ := slice_eq_append mem bytes
      have skipped : (mem (start + 1)).toNat = option.body.length := by
        have length := (slice_eq_cons mem (slice_eq_cons mem first).2).1
        rw [length, UInt8.toNat_ofNat_of_lt' option.bound]
      rw [optionFrom_step (by omega) (by omega), skipped, ← option.bytes_length] at reached
      have behind : slice mem (start + option.bytes.length) (len - (start + option.bytes.length)) =
          rest.flatMap RplOption.bytes := by
        rw [← later]
        congr 1
        rw [option.bytes_length]
        omega
      have inside := optionFrom_le reached
      exact ih behind (by omega) reached

def loneBytePacket : Packet :=
  ⟨overlay ([ndRplMessage, ndRplDao, 0, 0, 1, rplDaoDMask, 0, 0] ++ (linkLocal 1).s6Addr ++
    targetBytes (linkLocal 33) ++ [0]) fun _ => 0, 45, linkLocal 2, 1⟩

/-- A target that the receiver knows, and a byte behind it. -/
theorem process_dao_malformed_dropped_iff_loneByte :
    let ifaces := [withDag (linkIface 2) 1 leafDag]
    ¬ Tiled loneBytePacket.mem loneBytePacket.len ∧ Dropped .granting ifaces loneBytePacket := by
  intro ifaces
  have reached : OptionFrom loneBytePacket.mem loneBytePacket.len 24 44 := .skip (by decide) (.here 44)
  have malformed : ¬ Tiled loneBytePacket.mem loneBytePacket.len := by
    rintro ⟨options, _, bytes⟩
    exact not_optionFrom_last bytes (by decide) reached
  refine ⟨malformed, ?_⟩
  refine (@process_dao_malformed_dropped_iff .granting ifaces loneBytePacket (withDag (linkIface 2) 1 leafDag) leafDag
    rfl rfl (by decide) rfl rfl).mpr (Or.inr ⟨reached, ?_⟩) malformed
  refine (addsNone_step (by decide)).mpr ⟨fun _ => Or.inl (by decide), ?_⟩
  exact addsNone_short (by decide)

theorem process_dao_malformed_registers :
    cutTargetPacket.mem 0 = ndRplMessage ∧ cutTargetPacket.mem 1 = ndRplDao ∧ 24 ≤ cutTargetPacket.len ∧
      ifaceFindByIfindex [rootIface 1] cutTargetPacket.ifindex = some (rootIface 1) ∧
      dagLookup (rootIface 1) (cutTargetPacket.mem 4) (addrAt cutTargetPacket.mem 8) = some (rootDag 1) ∧
      ¬ (¬ Tiled cutTargetPacket.mem cutTargetPacket.len → Dropped .granting [rootIface 1] cutTargetPacket) := by
  refine ⟨rfl, rfl, by decide, rfl, rfl, ?_⟩
  intro drops
  have malformed : ¬ Tiled cutTargetPacket.mem cutTargetPacket.len := by
    intro tiled
    have size := (tiled_cons tiled (by decide)).2 (by decide)
    exact absurd size (by decide)
  have quiet := (drops malformed).2
  revert quiet
  decide

end Rpld
