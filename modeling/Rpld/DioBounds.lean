import Rpld.DaoBounds
import Rpld.Slots

/-!
Which DIOs make a dag, and which bytes of them are read. The three length tests of
`process_dio` are subtractions from one running length; together they say that the prefix
the option announces lies inside the message.
-/

namespace Rpld

open Memory

/-! Bytes read. -/

theorem processDioRank_reads_eq (env : Env) (iface : Iface) (instanceId : UInt8) (dodagid : In6Addr)
    (dag : Dag) (rank : UInt16) (src : In6Addr) (effects : List Effect) (reads : List Nat) :
    (processDioRank env iface instanceId dodagid dag rank src effects reads).reads = reads := by
  unfold processDioRank
  simp only
  split
  · rfl
  · split
    · rfl
    · split
      · rfl
      · split <;> rfl

section

variable {env : Env} {iface : Iface} {mem : Nat → UInt8} {len : Nat} {src : In6Addr}

theorem dioKey_within (base : 28 ≤ len) : ∀ index ∈ 4 :: addrReads 12, index < len := by
  rw [List.forall_mem_cons, addrReads_within]
  omega

/-- Whatever a DIO carries and whether or not its dag is known, `process_dio` reads inside
the message. -/
theorem processDio_reads_within (header : 4 ≤ len) :
    ∀ index ∈ (processDio env iface mem (len - 4) src).reads, index < len := by
  by_cases short : len - 4 < sizeofDio
  · simp [processDio, short, dropped]
  have base : 28 ≤ len := by
    simp only [sizeofDio] at short
    omega
  have key := dioKey_within base
  simp only [processDio, short, if_false]
  split
  · split
    · exact key
    · rw [processDioRank_reads_eq, List.forall_mem_append]
      refine ⟨key, ?_⟩
      simp only [List.forall_mem_cons, List.not_mem_nil, false_implies, implies_true, and_true]
      omega
  · split
    · exact key
    rename_i head
    have option : 36 ≤ len := by
      simp only [sizeofDio, sizeofDiodpHead] at head
      omega
    have front : ∀ index ∈ 4 :: addrReads 12 ++ [28, 30], index < len := by
      rw [List.forall_mem_append]
      refine ⟨key, ?_⟩
      simp only [List.forall_mem_cons, List.not_mem_nil, false_implies, implies_true, and_true]
      omega
    split
    · rw [dropped, List.forall_mem_append, List.forall_mem_singleton]
      exact ⟨key, by omega⟩
    split
    · exact front
    rename_i room
    have copied : ∀ index ∈ 4 :: addrReads 12 ++ [28, 30] ++ List.range' 36 (bitsToBytes (mem 30)).toNat,
        index < len := by
      rw [List.forall_mem_append]
      refine ⟨front, ?_⟩
      intro index member
      rw [List.mem_range'_1] at member
      simp only [sizeofDio, sizeofDiodpHead] at room
      omega
    split
    · exact copied
    · split
      · rw [List.forall_mem_append, List.forall_mem_singleton]
        exact ⟨copied, by omega⟩
      · rw [processDioRank_reads_eq, List.forall_mem_append]
        refine ⟨copied, ?_⟩
        simp only [List.forall_mem_cons, List.not_mem_nil, false_implies, implies_true, and_true]
        omega

/-! Acceptance. -/

/-- The bounds a DIO for an unknown dag has to keep, in offsets of the received bytes. -/
def CarriesPrefix (mem : Nat → UInt8) (len : Nat) : Prop :=
  36 ≤ len ∧ mem 28 = 0x3 ∧ 36 + (bitsToBytes (mem 30)).toNat ≤ len

theorem joins_iff (missing : 28 ≤ len → dagLookup iface (mem 4) (addrAt mem 12) = none) :
    Joins iface mem (len - 4) ↔ CarriesPrefix mem len := by
  constructor
  · intro joins
    have length := joins.length
    simp only [sizeofDio, sizeofDiodpHead] at length
    exact ⟨by omega, joins.option, by omega⟩
  · rintro ⟨base, option, room⟩
    refine ⟨?_, option, missing (by omega)⟩
    simp only [sizeofDio, sizeofDiodpHead]
    omega

theorem CarriesPrefix.slotDio {head : IfaceHead} (carries : CarriesPrefix mem len)
    (bound : (mem 30).toNat ≤ 128) :
    Rpld.slotDio env head mem (len - 4) src none =
      (slotDag env head mem).reacts env mem src (dagInitTimer (slotDag env head mem)) := by
  obtain ⟨_, option, room⟩ := carries
  have whole : sizeofDio + sizeofDiodpHead + (bitsToBytes (mem 30)).toNat ≤ len - 4 := by
    simp only [sizeofDio, sizeofDiodpHead]
    omega
  have inside : ¬ sizeofPrefix < (bitsToBytes (mem 30)).toNat := by
    have bytes := (bitsToBytes_le_sixteen (mem 30)).mpr bound
    simp only [sizeofPrefix]
    omega
  simp only [Rpld.slotDio, whole, option, and_self, if_true, inside, if_false]

theorem processIface_creates (allocs : env.AllocsSucceed) (type : mem 0 = ndRplMessage) (code : mem 1 = ndRplDagIo)
    (missing : dagLookup iface (mem 4) (addrAt mem 12) = none) (carries : CarriesPrefix mem len)
    (bound : (mem 30).toNat ≤ 128) :
    (dagLookup (processIface env iface mem (len - 4) src).iface (mem 4) (addrAt mem 12)).isSome := by
  have base : sizeofDio ≤ len - 4 := by
    have option := carries.1
    simp only [sizeofDio]
    omega
  rw [(processIface_dio type code base fun _ => creates_of_allocs allocs iface (mem 4)).1, missing,
    carries.slotDio bound]
  rfl

theorem processDio_drops (header : 4 ≤ len) (missing : 28 ≤ len → dagLookup iface (mem 4) (addrAt mem 12) = none)
    (refused : ¬ CarriesPrefix mem len) :
    ∃ reads, processDio env iface mem (len - 4) src = dropped iface reads := by
  rw [← joins_iff missing] at refused
  have way := processDio_case env iface mem (len - 4) src
  generalize processDio env iface mem (len - 4) src = out at way
  cases way with
  | drops reads => exact ⟨reads, rfl⟩
  | known dag reads base found =>
      simp only [sizeofDio] at base
      simp [missing (by omega)] at found
  | oversized reads joins => exact absurd joins refused
  | fails reads fault kind joins => exact absurd joins refused
  | joined dag pfx reads joins => exact absurd joins refused

end

/-- Some key of the interface with this index that had no dag has one later. -/
def CreatesDag (ifaces later : List Iface) (ifindex : UInt32) : Prop :=
  ∃ instanceId dodagid,
    (ifaceFindByIfindex ifaces ifindex).bind (dagLookup · instanceId dodagid) = none ∧
    ((ifaceFindByIfindex later ifindex).bind (dagLookup · instanceId dodagid)).isSome

theorem not_createsDag_self (ifaces : List Iface) (ifindex : UInt32) : ¬ CreatesDag ifaces ifaces ifindex := by
  rintro ⟨instanceId, dodagid, none, some⟩
  simp [none] at some

/-- A DIO for a key without a dag creates one exactly when it has room for the option head,
the option is of the type assumed and there is room for the prefix it announces; otherwise
nothing changes and nothing is requested; and no byte outside the message is read. -/
theorem process_dio_creates_iff {env : Env} {ifaces : List Iface} {pkt : Packet} {iface : Iface}
    (allocs : env.AllocsSucceed) (type : pkt.mem 0 = ndRplMessage) (code : pkt.mem 1 = ndRplDagIo)
    (known : ifaceFindByIfindex ifaces pkt.ifindex = some iface)
    (missing : 28 ≤ pkt.len → dagLookup iface (pkt.mem 4) (addrAt pkt.mem 12) = none)
    (valid : 31 ≤ pkt.len → (pkt.mem 30).toNat ≤ 128) :
    let out := process env ifaces pkt
    let accepted := 36 ≤ pkt.len ∧ pkt.mem 28 = 0x3 ∧ 36 + (bitsToBytes (pkt.mem 30)).toNat ≤ pkt.len
    (CreatesDag ifaces out.ifaces pkt.ifindex ↔ accepted) ∧
      (¬ accepted → out.ifaces = ifaces ∧ out.effects = [] ∧ out.fault = none) ∧
      ∀ index ∈ out.reads, index < pkt.len := by
  intro out accepted
  by_cases short : pkt.len < 4
  · have same : out = ⟨ifaces, [], [], none⟩ := by simp [out, process, short]
    rw [same]
    refine ⟨iff_of_false (not_createsDag_self ifaces pkt.ifindex) ?_, fun _ => ⟨rfl, rfl, rfl⟩, by simp⟩
    rintro ⟨base, _⟩
    omega
  have header : 4 ≤ pkt.len := by omega
  have result : out = _ := process_of_find header known
  rw [processIface_dioBody type code] at result
  have quiet : ¬ accepted → out.ifaces = ifaces ∧ out.effects = [] ∧ out.fault = none := by
    intro refused
    obtain ⟨reads, drops⟩ := @processDio_drops env iface pkt.mem pkt.len pkt.src header missing refused
    rw [result, drops]
    exact ⟨FirstMatch.updateFirst_of_fixed known rfl, rfl, rfl⟩
  refine ⟨⟨?_, ?_⟩, quiet, ?_⟩
  · intro creates
    by_cases holds : accepted
    · exact holds
    · rw [(quiet holds).1] at creates
      exact absurd creates (not_createsDag_self ifaces pkt.ifindex)
  · intro holds
    have base : 36 ≤ pkt.len := holds.1
    have absent := missing (by omega)
    refine ⟨pkt.mem 4, addrAt pkt.mem 12, by rw [known, Option.bind_some, absent], ?_⟩
    rw [show ifaceFindByIfindex out.ifaces pkt.ifindex = _ from process_ifaceFind header known, Option.bind_some]
    exact processIface_creates allocs type code absent holds (valid (by omega))
  · rw [result]
    simp only [List.forall_mem_append]
    refine ⟨?_, processDio_reads_within header⟩
    simp only [List.forall_mem_cons, List.not_mem_nil, false_implies, implies_true, and_true]
    omega

theorem process_dio_creates_iff_foreignDio :
    CreatesDag [rootIface 1] (process .granting [rootIface 1] foreignDioPacket).ifaces 1 :=
  (@process_dio_creates_iff .granting [rootIface 1] foreignDioPacket (rootIface 1) Env.granting_allocs rfl rfl rfl
    (fun _ => by decide) (fun _ => by decide)).1.mpr ⟨by decide, by decide, by decide⟩

end Rpld
