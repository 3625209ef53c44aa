import Rpld.DaoCodec

/-!
Which bytes the option loop of `process_dao` reads. It tests only for an option header
before it reads a whole target, so a read leaves the message exactly when an option of
target type begins in its last nineteen bytes.
-/

namespace Rpld

open Memory

/-- An option the walk from `start` reaches: each step skips a header that lies inside
the message and as many bytes as it says. -/
inductive OptionFrom (mem : Nat → UInt8) (len : Nat) : Nat → Nat → Prop
  | here (start : Nat) : OptionFrom mem len start start
  | skip {start option : Nat} (header : start + 2 ≤ len)
      (later : OptionFrom mem len (start + (2 + (mem (start + 1)).toNat)) option) :
      OptionFrom mem len start option

def TargetsFit (mem : Nat → UInt8) (len start : Nat) : Prop :=
  ∀ option, OptionFrom mem len start option → option + 2 ≤ len →
    mem option = rplDaoRpltarget → option + 20 ≤ len

section

variable {env : Env} {mem : Nat → UInt8} {src : In6Addr} {len : Nat}

theorem targetsFit_short {start : Nat} (short : len < start + 2) : TargetsFit mem len start := by
  intro option reached header
  cases reached with
  | here => omega
  | skip inside _ => omega

theorem targetsFit_step {start : Nat} (header : start + 2 ≤ len) :
    TargetsFit mem len start ↔
      (mem start = rplDaoRpltarget → start + 20 ≤ len) ∧
        TargetsFit mem len (start + (2 + (mem (start + 1)).toNat)) := by
  constructor
  · intro fits
    exact ⟨fits start (.here start) header, fun option reached => fits option (.skip header reached)⟩
  · rintro ⟨first, others⟩ option reached inside target
    cases reached with
    | here => exact first target
    | skip _ later => exact others option later inside target

theorem addrReads_within (offset : Nat) :
    (∀ index ∈ addrReads offset, index < len) ↔ offset + 16 ≤ len := by
  simp only [addrReads, List.mem_range'_1]
  constructor
  · intro within
    have last := within (offset + 15) (by omega)
    omega
  · intro bound index inside
    omega

theorem daoOption_reads {cursor next : DaoCursor} (turned : daoOption env mem src cursor = some next)
    (remaining : cursor.optlen = (len : Int) - cursor.p) :
    cursor.p + 2 ≤ len ∧ next.p = cursor.p + (2 + (mem (cursor.p + 1)).toNat) ∧
      next.optlen = (len : Int) - next.p ∧
      ((∀ index ∈ next.reads, index < len) ↔
        (∀ index ∈ cursor.reads, index < len) ∧
          (mem cursor.p = rplDaoRpltarget → cursor.p + 20 ≤ len)) := by
  obtain ⟨header, turn⟩ := daoOption_cases turned
  simp only [sizeofOpt] at header
  have inside : cursor.p + 2 ≤ len := by omega
  refine ⟨inside, ?_⟩
  rcases turn with ⟨target, rfl⟩ | ⟨target, rfl⟩
  · refine ⟨rfl, by simp only; omega, ?_⟩
    simp only [List.forall_mem_append, List.forall_mem_singleton, addrReads_within, target,
      forall_const]
    constructor
    · rintro ⟨⟨⟨before, _⟩, address⟩, _⟩
      exact ⟨before, by omega⟩
    · rintro ⟨before, whole⟩
      exact ⟨⟨⟨before, by omega⟩, by omega⟩, by omega⟩
  · refine ⟨rfl, by simp only; omega, ?_⟩
    simp only [List.forall_mem_append, List.forall_mem_cons, List.not_mem_nil, target,
      false_implies, implies_true, and_true]
    constructor
    · exact fun within => within.1
    · exact fun before => ⟨before, by omega, by omega⟩

theorem daoOptions_reads {turns : Nat} {cursor : DaoCursor}
    (remaining : cursor.optlen = (len : Int) - cursor.p) (enough : cursor.optlen ≤ turns) :
    (∀ index ∈ (daoOptions env mem src turns cursor).1.reads, index < len) ↔
      (∀ index ∈ cursor.reads, index < len) ∧ TargetsFit mem len cursor.p := by
  induction turns generalizing cursor with
  | zero =>
      have done : TargetsFit mem len cursor.p := targetsFit_short (by omega)
      simp [daoOptions, done]
  | succ turns ih =>
      simp only [daoOptions]
      split
      · cases turned : daoOption env mem src cursor with
        | none =>
            have header := daoOption_none_iff.mp turned
            simp only [sizeofOpt] at header
            have done : TargetsFit mem len cursor.p := targetsFit_short (by omega)
            simp [done]
        | some next =>
            obtain ⟨inside, moved, left, reads⟩ := daoOption_reads turned remaining
            simp only
            rw [ih left (by omega), reads, targetsFit_step inside, moved, and_assoc]
      · have done : TargetsFit mem len cursor.p := targetsFit_short (by omega)
        simp [done]

theorem processDao_reads (iface : Iface) (header : 4 ≤ len) :
    (∀ index ∈ (processDao env iface mem (len - 4) src).reads, index < len) ↔
      ∀ dag, dagLookup iface (mem 4) (addrAt mem 8) = some dag → TargetsFit mem len 24 := by
  by_cases base : len - 4 < sizeofDao
  · simp only [processDao, base, if_true]
    simp only [sizeofDao] at base
    have done : TargetsFit mem len 24 := targetsFit_short (by omega)
    simp [dropped, done]
  · have size : 24 ≤ len := by
      simp only [sizeofDao] at base
      omega
    have key : ∀ index ∈ 4 :: addrReads 8, index < len := by
      rw [List.forall_mem_cons, addrReads_within]
      omega
    simp only [processDao, base, if_false]
    cases found : dagLookup iface (mem 4) (addrAt mem 8) with
    | none =>
        simp only [dropped, reduceCtorEq, false_implies, implies_true, iff_true]
        exact key
    | some dag =>
        have walked := @daoOptions_reads env mem src len (len - 4 - sizeofDao)
          ⟨24, ((len - 4 - sizeofDao : Nat) : Int), dag, 4 :: addrReads 8⟩
          (by simp only [sizeofDao]; omega) (Int.le_refl _)
        rw [and_iff_right key] at walked
        simp only [sendDaoAck_ok, Option.some.injEq, forall_eq']
        split <;> exact walked

end

/-- `process` reads a DAO packet within its bounds exactly when no dag is held for its
key or every target option it reaches lies inside it. -/
theorem process_dao_reads_within_iff (env : Env) (ifaces : List Iface) (pkt : Packet)
    (type : pkt.mem 0 = ndRplMessage) (code : pkt.mem 1 = ndRplDao) :
    (∀ index ∈ (process env ifaces pkt).reads, index < pkt.len) ↔
      ∀ iface dag, ifaceFindByIfindex ifaces pkt.ifindex = some iface →
        dagLookup iface (pkt.mem 4) (addrAt pkt.mem 8) = some dag →
        TargetsFit pkt.mem pkt.len 24 := by
  by_cases short : pkt.len < 4
  · have done : TargetsFit pkt.mem pkt.len 24 := targetsFit_short (by omega)
    simp [process, short, done]
  · cases known : ifaceFindByIfindex ifaces pkt.ifindex with
    | none => simp [process, short, known]
    | some iface =>
        have header : ∀ index ∈ [0, 1], index < pkt.len := by
          simp only [List.forall_mem_cons, List.not_mem_nil, false_implies, implies_true, and_true]
          omega
        rw [process_of_find (by omega) known, processIface_daoBody type code]
        simp only [List.forall_mem_append]
        rw [and_iff_right header, processDao_reads iface (by omega)]
        constructor
        · rintro fits _ dag same found
          cases same
          exact fits dag found
        · intro fits dag found
          exact fits iface dag rfl found

theorem process_dao_reads_within_iff_leafDag :
    let pkt : Packet := ⟨overlay leafDag.daoBytes fun _ => 0, leafDag.daoBytes.length, linkLocal 2, 1⟩
    ∀ index ∈ (process .granting [rootIface 1] pkt).reads, index < pkt.len := by
  intro pkt
  refine (process_dao_reads_within_iff .granting [rootIface 1] pkt rfl rfl).mpr fun _ _ _ _ => ?_
  have last : TargetsFit pkt.mem pkt.len 64 := targetsFit_short (by decide)
  have second : TargetsFit pkt.mem pkt.len 44 :=
    (targetsFit_step (by decide)).mpr ⟨fun _ => by decide, last⟩
  exact (targetsFit_step (by decide)).mpr ⟨fun _ => by decide, second⟩

def cutTargetPacket : Packet :=
  ⟨overlay ([ndRplMessage, ndRplDao, 0, 0, 1, rplDaoDMask, 0, 0] ++ (linkLocal 1).s6Addr ++
    [rplDaoRpltarget, 0]) fun _ => 0, 26, linkLocal 2, 1⟩

theorem process_dao_reads_past_end :
    cutTargetPacket.mem 0 = ndRplMessage ∧ cutTargetPacket.mem 1 = ndRplDao ∧
      ¬ ∀ index ∈ (process .granting [rootIface 1] cutTargetPacket).reads,
        index < cutTargetPacket.len := by
  decide

end Rpld
