import Rpld.DaoMeaning

/-!
Padding between the options of a DAO. The loop of `process_dao` takes a length byte behind
every type byte. A PadN option has one and is passed over like any option that is not
supported; a Pad1 option is a single zero, and the loop takes the byte behind it for a length.
-/

namespace Rpld

open Memory

def rplOptPad0 : UInt8 := 0
def rplOptPadn : UInt8 := 1

/-- Padding as RPL defines it: one zero byte, or a type, a length byte and that many zeros. -/
inductive Padding
  | pad1
  | padN (count : UInt8)

def Padding.bytes : Padding → List UInt8
  | .pad1 => [rplOptPad0]
  | .padN count => rplOptPadn :: count :: List.replicate count.toNat 0

def paddingBytes (gap : List Padding) : List UInt8 := gap.flatMap Padding.bytes

/-- The option bytes of a DAO with a gap of padding before the first option, between any two
and behind the last. -/
def paddedBytes : List (List Padding) → List RplOption → List UInt8
  | gap :: gaps, option :: options => paddingBytes gap ++ (option.bytes ++ paddedBytes gaps options)
  | gaps, [] => gaps.flatMap paddingBytes
  | [], options => options.flatMap RplOption.bytes

/-- The bytes of the gap are a sequence of whole options. -/
def InStep (gap : List Padding) : Prop := ∃ options : List RplOption, paddingBytes gap = options.flatMap RplOption.bytes

/-! Reading by type and length. -/

theorem RplOption.bytes_append_inj {option other : RplOption} {rest more : List UInt8}
    (same : option.bytes ++ rest = other.bytes ++ more) : option = other ∧ rest = more := by
  obtain ⟨type, body, bound⟩ := option
  obtain ⟨otherType, otherBody, otherBound⟩ := other
  simp only [RplOption.bytes, List.cons_append, List.cons.injEq] at same
  obtain ⟨types, lengths, bodies⟩ := same
  have sizes : body.length = otherBody.length := by
    have counts := congrArg UInt8.toNat lengths
    simp only [UInt8.toNat_ofNat'] at counts
    omega
  obtain ⟨sameBody, sameRest⟩ := List.append_inj bodies sizes
  subst types sameBody
  exact ⟨rfl, sameRest⟩

theorem flatMap_bytes_not_lone {options others : List RplOption} (byte : UInt8) :
    options.flatMap RplOption.bytes ≠ others.flatMap RplOption.bytes ++ [byte] := by
  intro same
  induction options generalizing others with
  | nil => simp at same
  | cons option rest ih =>
      cases others with
      | nil =>
          have sizes := congrArg List.length same
          simp only [List.flatMap_cons, List.flatMap_nil, List.length_append, RplOption.bytes_length, List.length_cons,
            List.length_nil] at sizes
          omega
      | cons other more =>
          rw [List.flatMap_cons, List.flatMap_cons, List.append_assoc] at same
          exact ih (RplOption.bytes_append_inj same).2

/-- Options that `process_dao` passes over. -/
def Quiet (options : List RplOption) : Prop := ∀ option ∈ options, option.type ≠ rplDaoRpltarget

/-- The bytes are whole options to pass over, but for a zero that may be left at the end. -/
def ReadsQuiet (bytes : List UInt8) : Prop :=
  ∃ options, Quiet options ∧
    (bytes = options.flatMap RplOption.bytes ∨ bytes = options.flatMap RplOption.bytes ++ [0])

theorem readsQuiet_nil : ReadsQuiet [] := ⟨[], by simp [Quiet], Or.inl rfl⟩

theorem readsQuiet_zero : ReadsQuiet [0] := ⟨[], by simp [Quiet], Or.inr rfl⟩

theorem readsQuiet_option (option : RplOption) {bytes : List UInt8} (other : option.type ≠ rplDaoRpltarget)
    (reads : ReadsQuiet bytes) : ReadsQuiet (option.bytes ++ bytes) := by
  obtain ⟨options, quiet, whole | lone⟩ := reads
  · refine ⟨option :: options, ?_, Or.inl (by rw [whole, List.flatMap_cons])⟩
    rw [Quiet, List.forall_mem_cons]
    exact ⟨other, quiet⟩
  · refine ⟨option :: options, ?_, Or.inr (by rw [lone, List.flatMap_cons, List.append_assoc])⟩
    rw [Quiet, List.forall_mem_cons]
    exact ⟨other, quiet⟩

theorem readsQuiet_zeros {bytes : List UInt8} (now : ReadsQuiet bytes) (pending : ReadsQuiet (0 :: bytes)) (count : Nat) :
    ReadsQuiet (List.replicate count 0 ++ bytes) ∧ ReadsQuiet (List.replicate (count + 1) 0 ++ bytes) := by
  induction count with
  | zero => exact ⟨now, pending⟩
  | succ count ih =>
      refine ⟨ih.2, ?_⟩
      exact readsQuiet_option ⟨0, [], by simp⟩ (show (0 : UInt8) ≠ rplDaoRpltarget by decide) ih.1

/-- Padding read from its start, and read with a zero pending in front of it. -/
theorem readsQuiet_padding {bytes : List UInt8} (now : ReadsQuiet bytes) (pending : ReadsQuiet (0 :: bytes))
    (gap : List Padding) :
    ReadsQuiet (paddingBytes gap ++ bytes) ∧ ReadsQuiet (0 :: (paddingBytes gap ++ bytes)) := by
  induction gap with
  | nil => exact ⟨now, pending⟩
  | cons pad rest ih =>
      cases pad with
      | pad1 =>
          refine ⟨ih.2, ?_⟩
          exact readsQuiet_option ⟨0, [], by simp⟩ (show (0 : UInt8) ≠ rplDaoRpltarget by decide) ih.1
      | padN count =>
          have zeros := readsQuiet_zeros ih.1 ih.2 count.toNat
          have own : paddingBytes (.padN count :: rest) ++ bytes =
              1 :: count :: (List.replicate count.toNat 0 ++ (paddingBytes rest ++ bytes)) := by
            simp [paddingBytes, Padding.bytes, rplOptPadn]
          rw [own]
          constructor
          · have bound : (List.replicate count.toNat (0 : UInt8)).length < 256 := by
              simpa using count.toNat_lt
            have whole := readsQuiet_option ⟨1, List.replicate count.toNat 0, bound⟩
              (show (1 : UInt8) ≠ rplDaoRpltarget by decide) ih.1
            simpa [RplOption.bytes] using whole
          -- the zero takes the type for its length, and the length byte for its body
          · exact readsQuiet_option ⟨0, [count], by simp⟩ (show (0 : UInt8) ≠ rplDaoRpltarget by decide) zeros.1

theorem inStep_quiet {gap : List Padding} (inStep : InStep gap) :
    ∃ options, Quiet options ∧ paddingBytes gap = options.flatMap RplOption.bytes := by
  obtain ⟨others, same⟩ := inStep
  obtain ⟨options, quiet, whole | lone⟩ := (readsQuiet_padding readsQuiet_nil readsQuiet_zero gap).1
  · exact ⟨options, quiet, by rw [← whole, List.append_nil]⟩
  · rw [List.append_nil, same] at lone
    exact absurd lone (flatMap_bytes_not_lone 0)

theorem not_inStep_lone {gap : List Padding} (outOfStep : ¬ InStep gap) :
    ∃ options, Quiet options ∧ paddingBytes gap = options.flatMap RplOption.bytes ++ [0] := by
  obtain ⟨options, quiet, whole | lone⟩ := (readsQuiet_padding readsQuiet_nil readsQuiet_zero gap).1
  · rw [List.append_nil] at whole
    exact absurd ⟨options, whole⟩ outOfStep
  · exact ⟨options, quiet, by rw [← lone, List.append_nil]⟩

/-! Messages with any option bytes. -/

/-- A DAO for the key whose option bytes are `bytes`. -/
structure CarriesBytes (mem : Nat → UInt8) (len : Nat) (instanceId : UInt8) (dodagid : In6Addr)
    (bytes : List UInt8) : Prop where
  type : mem 0 = ndRplMessage
  code : mem 1 = ndRplDao
  instanceId : mem 4 = instanceId
  dodagid : addrAt mem 8 = dodagid
  body : slice mem 24 bytes.length = bytes
  length : len = 24 + bytes.length

section

variable {env : Env} {iface : Iface} {mem : Nat → UInt8} {len : Nat} {src : In6Addr} {instanceId : UInt8}
  {dodagid : In6Addr} {bytes : List UInt8} {options : List RplOption} {dag : Dag}

theorem CarriesBytes.carriesDao (carries : CarriesBytes mem len instanceId dodagid (options.flatMap RplOption.bytes)) :
    CarriesDao mem len instanceId dodagid options :=
  ⟨carries.type, carries.code, carries.instanceId, carries.dodagid, carries.body, carries.length⟩

theorem processDao_unknown (carries : CarriesBytes mem len instanceId dodagid bytes)
    (missing : dagLookup iface instanceId dodagid = none) :
    ∃ reads, processIface env iface mem (len - 4) src = dropped iface reads := by
  have length := carries.length
  refine processDao_missing carries.type carries.code (by simp only [sizeofDao]; omega) ?_
  rw [carries.instanceId, carries.dodagid]
  exact missing

/-- A single byte behind whole options is too short for an option, and the loop returns. -/
theorem daoOptions_lone (wellFormed : ∀ option ∈ options, option.WellFormed) {turns : Nat} {cursor : DaoCursor}
    (here : slice mem cursor.p (options.flatMap RplOption.bytes).length = options.flatMap RplOption.bytes)
    (remaining : cursor.optlen = (options.flatMap RplOption.bytes).length + 1)
    (enough : (options.flatMap RplOption.bytes).length + 1 ≤ turns) :
    (daoOptions env mem src turns cursor).2 = false := by
  induction options generalizing turns cursor with
  | nil =>
      simp only [List.flatMap_nil, List.length_nil] at remaining enough
      obtain ⟨fewer, rfl⟩ : ∃ fewer, turns = fewer + 1 := ⟨turns - 1, by omega⟩
      simp [daoOptions, daoOption, remaining, sizeofOpt]
  | cons option rest ih =>
      simp only [List.flatMap_cons, List.length_append, RplOption.bytes_length] at here remaining enough
      obtain ⟨fewer, rfl⟩ : ∃ fewer, turns = fewer + 1 := ⟨turns - 1, by omega⟩
      rw [List.forall_mem_cons] at wellFormed
      obtain ⟨first, later⟩ := slice_eq_append mem here
      rw [RplOption.bytes_length] at first later
      obtain ⟨reads, turned⟩ := daoOption_wellFormed env src wellFormed.1 first (by omega)
      have positive : 0 < cursor.optlen := by omega
      simp only [daoOptions, positive, if_true, turned]
      exact ih wellFormed.2 later (by simp only; omega) (by omega)

theorem processDao_lone {byte : UInt8}
    (carries : CarriesBytes mem len instanceId dodagid (options.flatMap RplOption.bytes ++ [byte]))
    (wellFormed : ∀ option ∈ options, option.WellFormed) (found : dagLookup iface instanceId dodagid = some dag) :
    (processIface env iface mem (len - 4) src).effects = [] := by
  have length := carries.length
  rw [List.length_append, List.length_singleton] at length
  have long : ¬ len - 4 < sizeofDao := by simp only [sizeofDao]; omega
  have optlen : len - 4 - sizeofDao = (options.flatMap RplOption.bytes).length + 1 := by
    simp only [sizeofDao]
    omega
  have returns := @daoOptions_lone env mem src options wellFormed (len - 4 - sizeofDao)
    ⟨24, ((len - 4 - sizeofDao : Nat) : Int), dag, 4 :: addrReads 8⟩ (slice_eq_append mem carries.body).1
    (by simp only [optlen]; omega) (by omega)
  rw [processIface_daoBody carries.type carries.code]
  simp only [processDao, long, if_false, carries.instanceId, carries.dodagid, found, returns, Bool.false_eq_true]

end

/-! Padding that keeps in step. -/

theorem Quiet.wellFormed {options : List RplOption} (quiet : Quiet options) : ∀ option ∈ options, option.WellFormed :=
  fun option member target => absurd target (quiet option member)

theorem Quiet.filterMap {options : List RplOption} (quiet : Quiet options) : options.filterMap RplOption.target = [] := by
  rw [List.filterMap_eq_nil_iff]
  intro option member
  simp [RplOption.target, quiet option member]

theorem paddedBytes_inStep {gaps : List (List Padding)} {options : List RplOption}
    (size : options.length + 1 = gaps.length) (inStep : ∀ gap ∈ gaps, InStep gap)
    (wellFormed : ∀ option ∈ options, option.WellFormed) :
    ∃ all : List RplOption, paddedBytes gaps options = all.flatMap RplOption.bytes ∧
      (∀ option ∈ all, option.WellFormed) ∧ all.filterMap RplOption.target = options.filterMap RplOption.target := by
  induction options generalizing gaps with
  | nil =>
      obtain ⟨gap, rfl⟩ := List.length_eq_one_iff.mp size.symm
      obtain ⟨padding, quiet, same⟩ := inStep_quiet (inStep gap (by simp))
      exact ⟨padding, by simp [paddedBytes, same], quiet.wellFormed, by rw [quiet.filterMap, List.filterMap_nil]⟩
  | cons option rest ih =>
      obtain ⟨gap, others, rfl⟩ := List.exists_cons_of_length_eq_add_one size.symm
      rw [List.forall_mem_cons] at inStep wellFormed
      obtain ⟨padding, quiet, same⟩ := inStep_quiet inStep.1
      obtain ⟨all, bytes, formed, targets⟩ := @ih others (by simpa using size) inStep.2 wellFormed.2
      refine ⟨padding ++ option :: all, ?_, ?_, ?_⟩
      · rw [paddedBytes, same, bytes, List.flatMap_append, List.flatMap_cons]
      · rw [List.forall_mem_append, List.forall_mem_cons]
        exact ⟨quiet.wellFormed, wellFormed.1, formed⟩
      · rw [List.filterMap_append, quiet.filterMap, List.nil_append, List.filterMap_cons, List.filterMap_cons, targets]

/-- The dag that a receiver holds for a key of the interface with this index. -/
def heldDag (ifaces : List Iface) (ifindex : UInt32) (instanceId : UInt8) (dodagid : In6Addr) : Option Dag :=
  (ifaceFindByIfindex ifaces ifindex).bind (dagLookup · instanceId dodagid)

/-- Whatever DAO for the key the receiver gets on the interface, the padding changes neither a
table nor what is requested and sent. -/
def Harmless (ifaces : List Iface) (ifindex : UInt32) (instanceId : UInt8) (dodagid : In6Addr)
    (gaps : List (List Padding)) : Prop :=
  ∀ (env : Env) (options : List RplOption) (plain padded : Packet), (∀ offset, env.childAlloc offset = true) →
    options.length + 1 = gaps.length → (∀ option ∈ options, option.WellFormed) →
    CarriesBytes plain.mem plain.len instanceId dodagid (options.flatMap RplOption.bytes) →
    CarriesBytes padded.mem padded.len instanceId dodagid (paddedBytes gaps options) →
    padded.src = plain.src → plain.ifindex = ifindex → padded.ifindex = ifindex →
    (process env ifaces padded).ifaces = (process env ifaces plain).ifaces ∧
      (process env ifaces padded).effects = (process env ifaces plain).effects

section

variable {ifaces : List Iface} {ifindex : UInt32} {instanceId : UInt8} {dodagid : In6Addr} {gaps : List (List Padding)}

theorem process_notHeld (env : Env) (missing : heldDag ifaces ifindex instanceId dodagid = none) {pkt : Packet}
    (index : pkt.ifindex = ifindex) {bytes : List UInt8} (carries : CarriesBytes pkt.mem pkt.len instanceId dodagid bytes) :
    (process env ifaces pkt).ifaces = ifaces ∧ (process env ifaces pkt).effects = [] := by
  have length := carries.length
  have long : ¬ pkt.len < 4 := by omega
  subst index
  cases known : ifaceFindByIfindex ifaces pkt.ifindex with
  | none => simp [process, long, known]
  | some iface =>
      rw [heldDag, known, Option.bind_some] at missing
      obtain ⟨reads, handled⟩ := @processDao_unknown env iface pkt.mem pkt.len pkt.src _ _ _ carries missing
      rw [process_of_find (by omega) known, handled]
      exact ⟨FirstMatch.updateFirst_of_fixed known rfl, rfl⟩

theorem harmless_of_notHeld (missing : heldDag ifaces ifindex instanceId dodagid = none) :
    Harmless ifaces ifindex instanceId dodagid gaps := by
  intro env options plain padded _ _ _ carries paddedCarries _ index paddedIndex
  obtain ⟨tables, effects⟩ := process_notHeld env missing index carries
  obtain ⟨paddedTables, paddedEffects⟩ := process_notHeld env missing paddedIndex paddedCarries
  rw [tables, effects, paddedTables, paddedEffects]
  exact ⟨rfl, rfl⟩

theorem harmless_of_inStep (inStep : ∀ gap ∈ gaps, InStep gap) : Harmless ifaces ifindex instanceId dodagid gaps := by
  cases held : heldDag ifaces ifindex instanceId dodagid with
  | none => exact harmless_of_notHeld held
  | some dag =>
      intro env options plain padded granted size wellFormed carries paddedCarries src index paddedIndex
      obtain ⟨all, bytes, formed, targets⟩ := paddedBytes_inStep size inStep wellFormed
      obtain ⟨iface, known, found⟩ := Option.bind_eq_some_iff.mp held
      have long : 4 ≤ plain.len ∧ 4 ≤ padded.len := by
        have length := carries.length
        have paddedLength := paddedCarries.length
        omega
      obtain ⟨_, one⟩ := processDao_wellFormed plain.src granted carries.carriesDao wellFormed found
      rw [bytes] at paddedCarries
      obtain ⟨_, two⟩ := processDao_wellFormed padded.src granted paddedCarries.carriesDao formed found
      rw [process_of_find long.1 (index ▸ known), process_of_find long.2 (paddedIndex ▸ known), one, two, targets, src,
        index, paddedIndex]
      exact ⟨rfl, rfl⟩

end

/-! Padding that does not. -/

def blankOption : RplOption := ⟨rplOptPadn, [], by decide⟩

theorem blankOption_bytes : blankOption.bytes = paddingBytes [.padN 0] := rfl

/-- Addresses that hide their own option: read with a zero pending in front, the target is an
option of five bytes and one of twelve. -/
def hiddenAddr (number : Nat) : In6Addr :=
  ⟨[0xfe, 0x80, 1, 12, UInt8.ofNat (number / 0x100000000000000), UInt8.ofNat (number / 0x1000000000000),
    UInt8.ofNat (number / 0x10000000000), UInt8.ofNat (number / 0x100000000), UInt8.ofNat (number / 0x1000000),
    UInt8.ofNat (number / 0x10000), UInt8.ofNat (number / 0x100), UInt8.ofNat number, 0, 0, 0, 0], rfl⟩

/-- The bytes that a machine with 64-bit addresses has. Each child takes several. -/
def addressSpace : Nat := 0x10000000000000000

theorem hiddenAddr_inj {first second : Nat} (firstBound : first < addressSpace) (secondBound : second < addressSpace)
    (same : hiddenAddr first = hiddenAddr second) : first = second := by
  simp only [hiddenAddr, In6Addr.mk.injEq, List.cons.injEq, and_true, true_and, ← UInt8.toNat_inj,
    UInt8.toNat_ofNat'] at same
  simp only [addressSpace] at firstBound secondBound
  omega

theorem hiddenAddr_quiet (number : Nat) {bytes : List UInt8} (reads : ReadsQuiet bytes) :
    ReadsQuiet (0 :: ((targetOption (hiddenAddr number)).bytes ++ bytes)) := by
  have second := readsQuiet_option ⟨1, (hiddenAddr number).s6Addr.drop 4, by simp [(hiddenAddr number).size]⟩
    (show (1 : UInt8) ≠ rplDaoRpltarget by decide) reads
  exact readsQuiet_option ⟨0, [18, 0, 128, 0xfe, 0x80], by simp⟩ (show (0 : UInt8) ≠ rplDaoRpltarget by decide) second

theorem blankOptions_padding (gap : List Padding) (rest : List (List Padding)) :
    ∃ joined, paddedBytes (gap :: rest) (List.replicate rest.length blankOption) = paddingBytes joined := by
  induction rest generalizing gap with
  | nil => exact ⟨gap, by simp [paddedBytes]⟩
  | cons next rest ih =>
      obtain ⟨joined, same⟩ := ih next
      refine ⟨gap ++ .padN 0 :: joined, ?_⟩
      rw [List.length_cons, List.replicate_succ, paddedBytes, same, blankOption_bytes]
      simp [paddingBytes]

theorem blankOptions_before {before : List (List Padding)} (inStep : ∀ gap ∈ before, InStep gap)
    (more : List (List Padding)) (options : List RplOption) :
    ∃ skipped, Quiet skipped ∧
      paddedBytes (before ++ more) (List.replicate before.length blankOption ++ options) =
        skipped.flatMap RplOption.bytes ++ paddedBytes more options := by
  induction before with
  | nil => exact ⟨[], by simp [Quiet], rfl⟩
  | cons gap rest ih =>
      rw [List.forall_mem_cons] at inStep
      obtain ⟨padding, quiet, same⟩ := inStep_quiet inStep.1
      obtain ⟨skipped, restQuiet, restSame⟩ := ih inStep.2
      refine ⟨padding ++ blankOption :: skipped, ?_, ?_⟩
      · rw [Quiet, List.forall_mem_append, List.forall_mem_cons]
        exact ⟨quiet, by decide, restQuiet⟩
      · rw [List.length_cons, List.replicate_succ, List.cons_append, List.cons_append, paddedBytes, restSame, same,
          List.flatMap_append, List.flatMap_cons, List.append_assoc, List.append_assoc]

theorem readsQuiet_append {skipped : List RplOption} (quiet : Quiet skipped) {bytes : List UInt8}
    (reads : ReadsQuiet bytes) : ReadsQuiet (skipped.flatMap RplOption.bytes ++ bytes) := by
  obtain ⟨options, later, whole | lone⟩ := reads
  · refine ⟨skipped ++ options, ?_, Or.inl (by rw [whole, List.flatMap_append])⟩
    exact List.forall_mem_append.mpr ⟨quiet, later⟩
  · refine ⟨skipped ++ options, ?_, Or.inr (by rw [lone, List.flatMap_append, List.append_assoc])⟩
    exact List.forall_mem_append.mpr ⟨quiet, later⟩

/-- Options that go wrong behind a gap that is out of step. -/
def exposedOptions (number : Nat) : List (List Padding) → List RplOption
  | [] => []
  | _ :: rest => targetOption (hiddenAddr number) :: List.replicate rest.length blankOption

theorem exposedOptions_last (number : Nat) {gap : List Padding} (outOfStep : ¬ InStep gap) :
    ∃ options, Quiet options ∧ paddedBytes [gap] (exposedOptions number []) = options.flatMap RplOption.bytes ++ [0] := by
  obtain ⟨options, quiet, lone⟩ := not_inStep_lone outOfStep
  exact ⟨options, quiet, by simp [exposedOptions, paddedBytes, lone]⟩

theorem exposedOptions_hidden (number : Nat) {gap : List Padding} (outOfStep : ¬ InStep gap) (next : List Padding)
    (rest : List (List Padding)) :
    ReadsQuiet (paddedBytes (gap :: next :: rest) (exposedOptions number (next :: rest))) := by
  obtain ⟨options, quiet, lone⟩ := not_inStep_lone outOfStep
  obtain ⟨joined, same⟩ := blankOptions_padding next rest
  have tail : ReadsQuiet (paddingBytes joined) := by
    have reads := (readsQuiet_padding readsQuiet_nil readsQuiet_zero joined).1
    rwa [List.append_nil] at reads
  rw [exposedOptions, paddedBytes, lone, same, List.append_assoc]
  exact readsQuiet_append quiet (hiddenAddr_quiet number tail)

theorem exists_first_outOfStep {gaps : List (List Padding)} (some : ¬ ∀ gap ∈ gaps, InStep gap) :
    ∃ before gap after, gaps = before ++ gap :: after ∧ (∀ other ∈ before, InStep other) ∧ ¬ InStep gap := by
  induction gaps with
  | nil => simp at some
  | cons gap rest ih =>
      by_cases first : InStep gap
      · have later : ¬ ∀ other ∈ rest, InStep other := by
          intro all
          exact some (List.forall_mem_cons.mpr ⟨first, all⟩)
        obtain ⟨before, bad, after, split, inStep, outOfStep⟩ := ih later
        exact ⟨gap :: before, bad, after, by rw [split, List.cons_append],
          List.forall_mem_cons.mpr ⟨first, inStep⟩, outOfStep⟩
      · exact ⟨[], gap, rest, rfl, by simp, first⟩

/-! A DAO with the given option bytes, received by a node that has the dag. -/

def daoPacket (ifindex : UInt32) (instanceId : UInt8) (dodagid : In6Addr) (bytes : List UInt8) : Packet :=
  ⟨overlay ([ndRplMessage, ndRplDao, 0, 0, instanceId, rplDaoDMask, 0, 0] ++ dodagid.s6Addr ++ bytes) fun _ => 0,
    24 + bytes.length, linkLocal 2, ifindex⟩

theorem daoPacket_carries (ifindex : UInt32) (instanceId : UInt8) (dodagid : In6Addr) (bytes : List UInt8) :
    CarriesBytes (daoPacket ifindex instanceId dodagid bytes).mem (daoPacket ifindex instanceId dodagid bytes).len
      instanceId dodagid bytes := by
  have whole := slice_overlay ([ndRplMessage, ndRplDao, 0, 0, instanceId, rplDaoDMask, 0, 0] ++ dodagid.s6Addr ++ bytes)
    fun _ => 0
  obtain ⟨head, body⟩ := slice_eq_append _ whole
  have dagid := (slice_eq_append _ head).2
  simp only [List.length_append, List.length_cons, List.length_nil, dodagid.size] at body dagid
  exact ⟨rfl, rfl, rfl, In6Addr.ext dagid, body, rfl⟩

section

variable {ifaces : List Iface} {ifindex : UInt32} {instanceId : UInt8} {dodagid : In6Addr} {dag : Dag}
  (held : heldDag ifaces ifindex instanceId dodagid = some dag)
include held

theorem daoPacket_handled (bytes : List UInt8) :
    ∃ iface, dagLookup iface instanceId dodagid = some dag ∧
      (process .granting ifaces (daoPacket ifindex instanceId dodagid bytes)).effects =
        (processIface .granting iface (daoPacket ifindex instanceId dodagid bytes).mem
          ((daoPacket ifindex instanceId dodagid bytes).len - 4) (linkLocal 2)).effects := by
  obtain ⟨iface, known, found⟩ := Option.bind_eq_some_iff.mp held
  have long : 4 ≤ (daoPacket ifindex instanceId dodagid bytes).len := by
    simp only [daoPacket]
    omega
  refine ⟨iface, found, ?_⟩
  rw [process_of_find long (show ifaceFindByIfindex ifaces (daoPacket ifindex instanceId dodagid bytes).ifindex = _
    from known)]
  rfl

theorem daoPacket_effects {options : List RplOption} (wellFormed : ∀ option ∈ options, option.WellFormed) :
    (process .granting ifaces
        (daoPacket ifindex instanceId dodagid (options.flatMap RplOption.bytes))).effects.length =
      (addTargets (linkLocal 2) dag.childs (options.filterMap RplOption.target)).length + 1 := by
  obtain ⟨iface, found, effects⟩ := daoPacket_handled held (options.flatMap RplOption.bytes)
  obtain ⟨reads, handled⟩ := processDao_wellFormed (linkLocal 2) Env.granting_allocs.child
    (daoPacket_carries ifindex instanceId dodagid (options.flatMap RplOption.bytes)).carriesDao wellFormed found
  rw [effects, handled]
  simp only [childRoutes, List.length_append, List.length_map, List.length_singleton]
  rfl

theorem daoPacket_lone {options : List RplOption} (quiet : Quiet options) :
    (process .granting ifaces
      (daoPacket ifindex instanceId dodagid (options.flatMap RplOption.bytes ++ [0]))).effects = [] := by
  obtain ⟨iface, found, effects⟩ := daoPacket_handled held (options.flatMap RplOption.bytes ++ [0])
  rw [effects]
  exact processDao_lone (daoPacket_carries _ _ _ _) quiet.wellFormed found

theorem daoPacket_quiet {bytes : List UInt8} (reads : ReadsQuiet bytes) :
    (process .granting ifaces (daoPacket ifindex instanceId dodagid bytes)).effects.length ≤ dag.childs.length + 1 := by
  obtain ⟨options, quiet, whole | lone⟩ := reads
  · rw [whole, daoPacket_effects held quiet.wellFormed, quiet.filterMap]
    exact Nat.le_refl _
  · rw [lone, daoPacket_lone held quiet]
    exact Nat.zero_le _

theorem inStep_of_harmless (room : dag.childs.length < addressSpace) {gaps : List (List Padding)}
    (harmless : Harmless ifaces ifindex instanceId dodagid gaps) : ∀ gap ∈ gaps, InStep gap := by
  apply Classical.byContradiction
  intro some
  obtain ⟨before, gap, after, rfl, inStep, outOfStep⟩ := exists_first_outOfStep some
  obtain ⟨number, _, fresh⟩ := @AddNew.exists_fresh _ hiddenAddr addressSpace (dag.childs.map (·.addr))
    (by simpa using room) (fun _ firstBound _ secondBound => hiddenAddr_inj firstBound secondBound)
  have blanks : ∀ count : Nat, Quiet (List.replicate count blankOption) := by
    intro count option member
    rw [List.eq_of_mem_replicate member]
    decide
  have compared : ∀ options : List RplOption, options.length + 1 = (before ++ gap :: after).length →
      (∀ option ∈ options, option.WellFormed) →
      (process .granting ifaces
          (daoPacket ifindex instanceId dodagid (paddedBytes (before ++ gap :: after) options))).effects.length =
        (addTargets (linkLocal 2) dag.childs (options.filterMap RplOption.target)).length + 1 := by
    intro options size wellFormed
    rw [← daoPacket_effects held wellFormed]
    exact congrArg List.length (harmless .granting options _ _ Env.granting_allocs.child size wellFormed
      (daoPacket_carries _ _ _ _) (daoPacket_carries _ _ _ _) rfl rfl rfl).2
  obtain ⟨skipped, quiet, same⟩ := blankOptions_before inStep (gap :: after) (exposedOptions number after)
  have here := compared (List.replicate before.length blankOption ++ exposedOptions number after)
  rw [same, List.filterMap_append, (blanks before.length).filterMap, List.nil_append] at here
  cases after with
  | nil =>
      -- the gap ends in a lone zero, so nothing is sent
      obtain ⟨options, lastQuiet, lone⟩ := exposedOptions_last number outOfStep
      rw [lone, ← List.append_assoc, ← List.flatMap_append,
        daoPacket_lone held (List.forall_mem_append.mpr ⟨quiet, lastQuiet⟩)] at here
      have ended := here (by simp [exposedOptions]) (by simpa [exposedOptions] using (blanks before.length).wellFormed)
      simp at ended
  | cons next rest =>
      -- the target behind the gap is read as something else, so a route is missing
      have few := daoPacket_quiet held (readsQuiet_append quiet (exposedOptions_hidden number outOfStep next rest))
      rw [here (by simp [exposedOptions]; omega) ?_] at few
      · rw [exposedOptions, List.filterMap_cons, targetOption_target, (blanks rest.length).filterMap] at few
        simp only [addTargets, AddNew.addNews_cons, AddNew.addNews_nil, AddNew.addNew, if_neg fresh, List.length_append,
          List.length_singleton] at few
        omega
      · rw [List.forall_mem_append, exposedOptions, List.forall_mem_cons]
        exact ⟨(blanks _).wellFormed, targetOption_wellFormed _, (blanks _).wellFormed⟩

end

/-- Padding inserted before, between and behind the options changes the outcome of no DAO for a
key if the receiver has no dag for it, or if the bytes of every gap are whole options: if each
Pad1 in it is closed by what follows it in the same gap. A receiver that has the dag, and fewer
children than a memory has bytes, shows the difference on some DAO otherwise. -/
theorem padding_harmless_iff (ifaces : List Iface) (ifindex : UInt32) (instanceId : UInt8) (dodagid : In6Addr)
    (gaps : List (List Padding)) :
    ((heldDag ifaces ifindex instanceId dodagid = none ∨ ∀ gap ∈ gaps, InStep gap) →
      Harmless ifaces ifindex instanceId dodagid gaps) ∧
    ((∀ dag, heldDag ifaces ifindex instanceId dodagid = some dag → dag.childs.length < addressSpace) →
      Harmless ifaces ifindex instanceId dodagid gaps →
        heldDag ifaces ifindex instanceId dodagid = none ∨ ∀ gap ∈ gaps, InStep gap) := by
  constructor
  · rintro (missing | inStep)
    · exact harmless_of_notHeld missing
    · exact harmless_of_inStep inStep
  · intro room harmless
    cases held : heldDag ifaces ifindex instanceId dodagid with
    | none => exact Or.inl rfl
    | some dag => exact Or.inr (inStep_of_harmless held (room dag held) harmless)

/-- A Pad1 in front of the only target of a DAO, received by a root that has no children: the
route it asks for is not requested. -/
theorem pad1_hides_target :
    (process .granting [rootIface 1]
        (daoPacket 1 1 (linkLocal 1) (targetOption (hiddenAddr 0)).bytes)).effects.length = 2 ∧
      (process .granting [rootIface 1]
        (daoPacket 1 1 (linkLocal 1) (0 :: (targetOption (hiddenAddr 0)).bytes))).effects.length = 1 ∧
      ¬ Harmless [rootIface 1] 1 1 (linkLocal 1) [[.pad1], []] := by
  have plain : (process .granting [rootIface 1]
      (daoPacket 1 1 (linkLocal 1) (targetOption (hiddenAddr 0)).bytes)).effects.length = 2 := by decide
  have padded : (process .granting [rootIface 1]
      (daoPacket 1 1 (linkLocal 1) (0 :: (targetOption (hiddenAddr 0)).bytes))).effects.length = 1 := by decide
  refine ⟨plain, padded, ?_⟩
  intro harmless
  have same := (harmless .granting [targetOption (hiddenAddr 0)]
    (daoPacket 1 1 (linkLocal 1) (targetOption (hiddenAddr 0)).bytes)
    (daoPacket 1 1 (linkLocal 1) (0 :: (targetOption (hiddenAddr 0)).bytes))
    Env.granting_allocs.child rfl (by simpa using targetOption_wellFormed (hiddenAddr 0)) (daoPacket_carries _ _ _ _)
    (daoPacket_carries _ _ _ _) rfl rfl rfl).2
  rw [same, plain] at padded
  exact absurd padded (by decide)

end Rpld
