import Rpld.Faults
import Rpld.DaoMeaning

/-!
Sequence numbers of DAOs and their acknowledgements. A DAO is written through a
`struct nd_rpl_daoack` whose `rpl_daoseq` is set after the bytes were copied, an entry of
`pending_acks` is zeroed memory, and a DAO-ACK repeats the counter of the party that sends
it. So every DAO carries 0, every entry says 0, and no acknowledgement removes one.
-/

namespace Rpld

open Memory

/-- `struct nd_rpl_dao`, as the receiver of a DAO reads it. -/
structure NdRplDao where
  rplInstanceid : UInt8
  rplFlags : UInt8
  rplResv : UInt8
  rplDaoseq : UInt8
  rplDagid : In6Addr

def NdRplDao.decode (mem : Nat → UInt8) : NdRplDao := ⟨mem 4, mem 5, mem 6, mem 7, addrAt mem 8⟩

def NdRplDaoack.decode (mem : Nat → UInt8) : NdRplDaoack := ⟨mem 4, mem 5, mem 6, mem 7, addrAt mem 8⟩

theorem decode_base {mem : Nat → UInt8} {code : UInt8} {head : NdRplDaoack} {count : Nat} {rest : List UInt8}
    (carried : slice mem 0 count = (Icmp6Hdr.mk ndRplMessage code).bytes ++ head.bytes ++ rest) :
    NdRplDaoack.decode mem = head := by
  have split : (Icmp6Hdr.mk ndRplMessage code).bytes ++ head.bytes ++ rest =
      [ndRplMessage, code, 0, 0, head.rplInstanceid, head.rplFlags, head.rplDaoseq, head.rplStatus] ++
        (head.rplDagid.s6Addr ++ rest) := by
    simp [Icmp6Hdr.bytes, NdRplDaoack.bytes]
  rw [split] at carried
  obtain ⟨front, back⟩ := slice_eq_append mem carried
  obtain ⟨dagid, _⟩ := slice_eq_append mem back
  simp only [List.length_cons, List.length_nil, head.rplDagid.size] at front dagid
  simp only [slice, List.range, List.range.loop, List.map_cons, List.map_nil, Nat.zero_add,
    List.cons.injEq, and_true] at front
  obtain ⟨_, _, _, _, instanceId, flags, daoseq, status⟩ := front
  have key : addrAt mem 8 = head.rplDagid := In6Addr.ext dagid
  simp only [NdRplDaoack.decode, instanceId, flags, daoseq, status, key]

theorem daoAckBytes_decode (dag : Dag) (rest : Nat → UInt8) :
    NdRplDaoack.decode (overlay dag.daoAckBytes rest) = dag.daoAckHead := by
  refine @decode_base _ ndRplDaoAck _ dag.daoAckBytes.length [] ?_
  rw [slice_overlay, List.append_nil]
  rfl

/-- The byte at offset 3 of the base is `rpl_status` to the writer of a DAO and
`rpl_daoseq` to its reader. -/
theorem daoBytes_daoseq (dag : Dag) (rest : Nat → UInt8) :
    (NdRplDao.decode (overlay dag.daoBytes rest)).rplDaoseq = 0 := by
  have head : NdRplDaoack.decode (overlay dag.daoBytes rest) = dag.daoHead := by
    refine @decode_base _ ndRplDao _ dag.daoBytes.length (dag.daoTargets.flatMap targetBytes) ?_
    rw [slice_overlay]
    rfl
  have status := congrArg NdRplDaoack.rplStatus head
  exact status

/-! The acknowledgement of one DAO. -/

theorem processDao_acks {env : Env} {iface : Iface} {mem : Nat → UInt8} {len : Nat} {src : In6Addr} {dag : Dag}
    (found : dagLookup iface (mem 4) (addrAt mem 8) = some dag) {ifindex : UInt32} {sender dst : In6Addr}
    {bytes : List UInt8} (acked : .sendmsg ifindex sender dst bytes ∈ (processDao env iface mem len src).effects) :
    bytes = dag.daoAckBytes := by
  by_cases short : len < sizeofDao
  · simp [processDao, short, dropped] at acked
  · obtain ⟨targets, walked⟩ := daoOptions_registers env mem src (len - sizeofDao)
      ⟨24, ((len - sizeofDao : Nat) : Int), dag, 4 :: addrReads 8⟩
    simp only [processDao, short, if_false, found, sendDaoAck_ok] at acked
    split at acked
    · simp only [List.mem_append, List.mem_singleton, childRoutes, List.mem_map, reduceCtorEq, and_false,
        exists_false, false_or, Effect.sendmsg.injEq] at acked
      rw [acked.2.2.2, walked]
      rfl
    · simp at acked

/-- The DAO-ACK for a DAO repeats its sequence number, its instance and its dodagid exactly
when that number is the receiver's own counter for the dag. -/
theorem process_dao_ack_echoes_iff {env : Env} {ifaces : List Iface} {iface : Iface} {pkt : Packet} {dag : Dag}
    (type : pkt.mem 0 = ndRplMessage) (code : pkt.mem 1 = ndRplDao)
    (known : ifaceFindByIfindex ifaces pkt.ifindex = some iface) (refs : iface.BackRefs)
    (found : dagLookup iface (pkt.mem 4) (addrAt pkt.mem 8) = some dag) {ifindex : UInt32} {sender dst : In6Addr}
    {bytes : List UInt8} (acked : .sendmsg ifindex sender dst bytes ∈ (process env ifaces pkt).effects) :
    let dao := NdRplDao.decode pkt.mem
    let ack := NdRplDaoack.decode (overlay bytes fun _ => 0)
    (ack.rplDaoseq = dao.rplDaoseq ∧ ack.rplInstanceid = dao.rplInstanceid ∧ ack.rplDagid = dao.rplDagid) ↔
      dao.rplDaoseq = dag.dsn := by
  intro dao ack
  have long : 4 ≤ pkt.len := by
    rcases Nat.lt_or_ge pkt.len 4 with short | long
    · simp [process, short] at acked
    · exact long
  rw [process_of_find long known, processIface_daoBody type code] at acked
  have written := processDao_acks found acked
  have read : ack = dag.daoAckHead := by
    simp only [ack]
    rw [written]
    exact daoAckBytes_decode dag _
  have instanceId : ack.rplInstanceid = dao.rplInstanceid := by
    rw [read]
    exact congrArg RplHead.instanceId (dagLookup_backRefs refs found).2
  have dagid : ack.rplDagid = dao.rplDagid := by
    rw [read]
    exact dagLookup_dodagid found
  have daoseq : ack.rplDaoseq = dag.dsn := by rw [read]; rfl
  rw [and_iff_left ⟨instanceId, dagid⟩, daoseq]
  exact eq_comm

theorem process_dao_ack_echoes_iff_leafDag :
    let pkt : Packet := ⟨overlay leafDag.daoBytes fun _ => 0, leafDag.daoBytes.length, linkLocal 2, 1⟩
    .sendmsg 1 (linkLocal 1) (linkLocal 2) (rootDag 1).daoAckBytes ∈ (process .granting [rootIface 1] pkt).effects ∧
      (NdRplDaoack.decode (overlay (rootDag 1).daoAckBytes fun _ => 0)).rplDaoseq =
        (NdRplDao.decode pkt.mem).rplDaoseq := by
  intro pkt
  have acked : .sendmsg 1 (linkLocal 1) (linkLocal 2) (rootDag 1).daoAckBytes ∈
      (process .granting [rootIface 1] pkt).effects := by decide
  have found : dagLookup (rootIface 1) (pkt.mem 4) (addrAt pkt.mem 8) = some (rootDag 1) := rfl
  exact ⟨acked, ((process_dao_ack_echoes_iff rfl rfl rfl (rootIface_backRefs 1) found acked).mpr rfl).1⟩

theorem process_dao_ack_not_echoed :
    mixedDaoPacket.mem 0 = ndRplMessage ∧ mixedDaoPacket.mem 1 = ndRplDao ∧
      ifaceFindByIfindex [rootIface 1] mixedDaoPacket.ifindex = some (rootIface 1) ∧ (rootIface 1).BackRefs ∧
      dagLookup (rootIface 1) (mixedDaoPacket.mem 4) (addrAt mixedDaoPacket.mem 8) = some (rootDag 1) ∧
      .sendmsg 1 (linkLocal 1) (linkLocal 2) (rootDag 1).daoAckBytes ∈
        (process .granting [rootIface 1] mixedDaoPacket).effects ∧
      (NdRplDaoack.decode (overlay (rootDag 1).daoAckBytes fun _ => 0)).rplDaoseq ≠
        (NdRplDao.decode mixedDaoPacket.mem).rplDaoseq :=
  ⟨rfl, rfl, rfl, rootIface_backRefs 1, rfl, by decide, by decide⟩

/-! Bookkeeping over a run. -/

inductive AckEvent
  | send (env : Env) (dst : In6Addr)
  | ack (mem : Nat → UInt8) (len : Nat)

def AckEvent.isSend : AckEvent → Bool
  | .send _ _ => true
  | .ack _ _ => false

/-- The interface that holds the dag, the sequence numbers its DAOs have carried, and those
of the DAOs that no DAO-ACK has named yet. -/
structure AckBook where
  iface : Iface
  carried : List UInt8
  unacked : List UInt8

section

variable (instanceId : UInt8) (dodagid : In6Addr)

def AckEvent.acknowledges (seq : UInt8) : AckEvent → Bool
  | .send _ _ => false
  | .ack mem len => sizeofDaoack ≤ len && mem 4 == instanceId && addrAt mem 8 == dodagid &&
      (NdRplDaoack.decode mem).rplDaoseq == seq

def AckBook.sendDao (book : AckBook) (env : Env) (dst : In6Addr) : AckBook :=
  match (dagLookup book.iface instanceId dodagid).map (Rpld.sendDao env dst) with
  | some (.ok (sent, .sendmsg _ _ _ bytes)) =>
      let seq := (NdRplDao.decode (overlay bytes fun _ => 0)).rplDaoseq
      ⟨dagWrite book.iface instanceId dodagid fun _ => sent, book.carried ++ [seq], book.unacked ++ [seq]⟩
  | _ => book

def AckBook.step (book : AckBook) : AckEvent → AckBook
  | .send env dst => book.sendDao instanceId dodagid env dst
  | .ack mem len =>
      let seq := (NdRplDaoack.decode mem).rplDaoseq
      { book with
        iface := (processDaoack book.iface mem len).iface
        unacked := if (AckEvent.ack mem len).acknowledges instanceId dodagid seq then book.unacked.erase seq
          else book.unacked }

/-- `pending_acks` has one entry for each DAO that is not acknowledged, with the number that
the DAO carried, and DAOs carry consecutive numbers. -/
structure AckBook.Kept (book : AckBook) : Prop where
  pending : ∃ dag, dagLookup book.iface instanceId dodagid = some dag ∧ dag.pendingAcks.Perm book.unacked
  consecutive : ∀ before first second after, book.carried = before ++ first :: second :: after → second = first + 1

/-- The first DAO of the run gets its entry, and neither another DAO nor an acknowledgement
of number 0 follows it. -/
def LoneDao : List AckEvent → Prop
  | [] => True
  | .ack _ _ :: rest => LoneDao rest
  | .send env _ :: rest =>
      env.daoackAlloc = true ∧ ∀ event ∈ rest, event.isSend = false ∧ event.acknowledges instanceId dodagid 0 = false

/-- The dag has `count` children, and its entries, the DAOs not acknowledged and all DAOs
sent are the same list of numbers. -/
structure AckBook.Agrees (book : AckBook) (count : Nat) (seqs : List UInt8) : Prop where
  pending : ∃ dag, dagLookup book.iface instanceId dodagid = some dag ∧ dag.pendingAcks = seqs ∧
    dag.childs.length = count
  unacked : book.unacked = seqs
  carried : book.carried = seqs

end

section

variable {instanceId : UInt8} {dodagid : In6Addr} {book : AckBook}

theorem AckBook.step_ack_iface (mem : Nat → UInt8) (len : Nat) :
    (book.step instanceId dodagid (.ack mem len)).iface = book.iface :=
  processDaoack_iface book.iface mem len

theorem AckBook.sendDao_ok {dag : Dag} (found : dagLookup book.iface instanceId dodagid = some dag)
    (fits : dag.childs.length < overfullChilds) (env : Env) (dst : In6Addr) :
    book.step instanceId dodagid (.send env dst) =
      ⟨dagWrite book.iface instanceId dodagid fun _ => dag.afterDao env, book.carried ++ [0], book.unacked ++ [0]⟩ := by
  have small : dag.daoBytes.length ≤ safeBufferLimit := by
    have full := daoBytes_overfull dag
    omega
  simp only [AckBook.step, AckBook.sendDao, found, Option.map_some, Rpld.sendDao_ok env dst dag small,
    daoBytes_daoseq]

theorem AckBook.sendDao_exits {dag : Dag} (found : dagLookup book.iface instanceId dodagid = some dag)
    (full : overfullChilds ≤ dag.childs.length) (env : Env) (dst : In6Addr) :
    book.step instanceId dodagid (.send env dst) = book := by
  have large : safeBufferLimit < dag.daoBytes.length := (daoBytes_overfull dag).mpr full
  simp only [AckBook.step, AckBook.sendDao, found, Option.map_some, Rpld.sendDao_exit env dst dag large]

theorem afterDao_dodagid {iface : Iface} {dag : Dag} (env : Env)
    (found : dagLookup iface instanceId dodagid = some dag) : (dag.afterDao env).dodagid = dodagid :=
  (congrArg Advert.dodagid (afterDao_advert env dag)).trans (dagLookup_dodagid found)

theorem AckBook.Agrees.kept {count : Nat} {seqs : List UInt8} (agrees : book.Agrees instanceId dodagid count seqs)
    (few : seqs.length ≤ 1) : book.Kept instanceId dodagid := by
  obtain ⟨dag, found, pending, _⟩ := agrees.pending
  refine ⟨⟨dag, found, ?_⟩, ?_⟩
  · rw [pending, agrees.unacked]
  · intro before first second after split
    rw [agrees.carried] at split
    have size := congrArg List.length split
    simp only [List.length_append, List.length_cons] at size
    omega

theorem AckBook.Agrees.ack {count : Nat} {seqs : List UInt8} (agrees : book.Agrees instanceId dodagid count seqs)
    {mem : Nat → UInt8} {len : Nat}
    (other : ∀ seq ∈ seqs, (AckEvent.ack mem len).acknowledges instanceId dodagid seq = false) :
    (book.step instanceId dodagid (.ack mem len)).Agrees instanceId dodagid count seqs := by
  refine ⟨?_, ?_, agrees.carried⟩
  · rw [AckBook.step_ack_iface]
    exact agrees.pending
  · simp only [AckBook.step, agrees.unacked]
    split
    · rename_i names
      refine List.erase_of_not_mem ?_
      intro outstanding
      have silent := other _ outstanding
      simp [names] at silent
    · rfl

section

variable {count : Nat} (fits : count < overfullChilds)
include fits

theorem AckBook.Agrees.sendDao {seqs : List UInt8} (agrees : book.Agrees instanceId dodagid count seqs) {env : Env}
    (granted : env.daoackAlloc = true) (dst : In6Addr) :
    (book.step instanceId dodagid (.send env dst)).Agrees instanceId dodagid count (seqs ++ [0]) := by
  obtain ⟨dag, found, pending, childs⟩ := agrees.pending
  rw [AckBook.sendDao_ok found (by omega)]
  refine ⟨⟨dag.afterDao env, ?_, ?_, ?_⟩, by rw [agrees.unacked], by rw [agrees.carried]⟩
  · exact dagLookup_dagWrite_const found (afterDao_dodagid env found)
  · rw [Dag.afterDao_eq, ← pending]
    simp [granted]
  · rw [Dag.afterDao_eq]
    exact childs

theorem AckBook.Agrees.sendDao_denied {seqs : List UInt8} (agrees : book.Agrees instanceId dodagid count seqs)
    {env : Env} (denied : env.daoackAlloc = false) (dst : In6Addr) :
    ¬ (book.step instanceId dodagid (.send env dst)).Kept instanceId dodagid := by
  obtain ⟨dag, found, pending, childs⟩ := agrees.pending
  rw [AckBook.sendDao_ok found (by omega)]
  intro kept
  obtain ⟨later, laterFound, same⟩ := kept.pending
  simp only at laterFound
  rw [dagLookup_dagWrite_const found (afterDao_dodagid env found), Option.some.injEq] at laterFound
  have size := same.length_eq
  rw [← laterFound, Dag.afterDao_eq] at size
  simp [denied, pending, agrees.unacked] at size

theorem AckBook.Agrees.second (agrees : book.Agrees instanceId dodagid count [0]) (env : Env) (dst : In6Addr) :
    ¬ (book.step instanceId dodagid (.send env dst)).Kept instanceId dodagid := by
  obtain ⟨dag, found, _, childs⟩ := agrees.pending
  rw [AckBook.sendDao_ok found (by omega), agrees.carried]
  intro kept
  have next := kept.consecutive [] 0 0 [] rfl
  simp at next

end

theorem AckBook.Agrees.acked {count : Nat} (agrees : book.Agrees instanceId dodagid count [0]) {mem : Nat → UInt8}
    {len : Nat} (names : (AckEvent.ack mem len).acknowledges instanceId dodagid 0 = true) :
    ¬ (book.step instanceId dodagid (.ack mem len)).Kept instanceId dodagid := by
  obtain ⟨dag, found, pending, _⟩ := agrees.pending
  intro kept
  obtain ⟨later, laterFound, same⟩ := kept.pending
  rw [AckBook.step_ack_iface, found, Option.some.injEq] at laterFound
  have seq : (NdRplDaoack.decode mem).rplDaoseq = 0 := by
    simp only [AckEvent.acknowledges, Bool.and_eq_true, beq_iff_eq] at names
    exact names.2
  have size := same.length_eq
  rw [← laterFound, pending] at size
  simp only [AckBook.step, agrees.unacked, seq, names] at size
  simp at size

/-! Runs. -/

theorem always_kept_full {count : Nat} (full : overfullChilds ≤ count)
    (agrees : book.Agrees instanceId dodagid count []) (events : List AckEvent) :
    Runs.Always (AckBook.step instanceId dodagid) (AckBook.Kept instanceId dodagid) book events := by
  induction events generalizing book with
  | nil => exact agrees.kept (by simp)
  | cons event rest ih =>
      refine ⟨agrees.kept (by simp), ?_⟩
      cases event with
      | send env dst =>
          obtain ⟨dag, found, _, childs⟩ := agrees.pending
          rw [AckBook.sendDao_exits found (by omega)]
          exact ih agrees
      | ack mem len => exact ih (agrees.ack (by simp))

section

variable {count : Nat} (fits : count < overfullChilds)
include fits

theorem always_kept_one (agrees : book.Agrees instanceId dodagid count [0]) (events : List AckEvent) :
    Runs.Always (AckBook.step instanceId dodagid) (AckBook.Kept instanceId dodagid) book events ↔
      ∀ event ∈ events, event.isSend = false ∧ event.acknowledges instanceId dodagid 0 = false := by
  induction events generalizing book with
  | nil => simpa [Runs.Always] using agrees.kept (by simp)
  | cons event rest ih =>
      rw [Runs.Always, and_iff_right (agrees.kept (by simp)), List.forall_mem_cons]
      cases event with
      | send env dst =>
          refine iff_of_false (fun always => agrees.second fits env dst (Runs.always_head always)) ?_
          simp [AckEvent.isSend]
      | ack mem len =>
          cases names : (AckEvent.ack mem len).acknowledges instanceId dodagid 0 with
          | true => exact iff_of_false (fun always => agrees.acked names (Runs.always_head always)) (by simp)
          | false =>
              have later := ih (agrees.ack (by simpa using names))
              rw [later]
              simp [AckEvent.isSend]

theorem always_kept_idle (agrees : book.Agrees instanceId dodagid count []) (events : List AckEvent) :
    Runs.Always (AckBook.step instanceId dodagid) (AckBook.Kept instanceId dodagid) book events ↔
      LoneDao instanceId dodagid events := by
  induction events generalizing book with
  | nil => simpa [Runs.Always, LoneDao] using agrees.kept (by simp)
  | cons event rest ih =>
      rw [Runs.Always, and_iff_right (agrees.kept (by simp))]
      cases event with
      | send env dst =>
          rw [LoneDao]
          cases granted : env.daoackAlloc with
          | true =>
              have later := always_kept_one fits (agrees.sendDao fits granted dst) rest
              rw [later]
              simp
          | false =>
              refine iff_of_false (fun always => ?_) (by simp)
              exact agrees.sendDao_denied fits granted dst (Runs.always_head always)
      | ack mem len => exact ih (agrees.ack (by simp))

end

end

/-- For a dag that has sent no DAO yet and every interleaving of its DAOs with DAO-ACKs that
arrive: `pending_acks` is kept as described in every state exactly when the DAO does not fit
the send buffer at all, or the first DAO gets its entry and neither a second DAO nor an
acknowledgement of number 0 follows it. -/
theorem ack_book_kept_iff {iface : Iface} {instanceId : UInt8} {dodagid : In6Addr} {dag : Dag}
    (found : dagLookup iface instanceId dodagid = some dag) (fresh : dag.pendingAcks = [])
    (events : List AckEvent) :
    Runs.Always (AckBook.step instanceId dodagid) (AckBook.Kept instanceId dodagid) ⟨iface, [], []⟩ events ↔
      overfullChilds ≤ dag.childs.length ∨ LoneDao instanceId dodagid events := by
  have agrees : (AckBook.mk iface [] []).Agrees instanceId dodagid dag.childs.length [] :=
    ⟨⟨dag, found, fresh, rfl⟩, rfl, rfl⟩
  by_cases full : overfullChilds ≤ dag.childs.length
  · exact iff_of_true (always_kept_full full agrees events) (Or.inl full)
  · rw [always_kept_idle (by omega) agrees]
    simp [full]

def leafIface : Iface := withDag (linkIface 2) 1 leafDag

def rootAck (seq : UInt8) : AckEvent :=
  .ack (overlay { rootDag 1 with dsn := seq }.daoAckBytes fun _ => 0) sizeofDaoack

theorem ack_book_kept_iff_leafIface :
    Runs.Always (AckBook.step 1 (linkLocal 1)) (AckBook.Kept 1 (linkLocal 1)) ⟨leafIface, [], []⟩
      [rootAck 0, .send .granting (linkLocal 1), rootAck 5] := by
  refine (@ack_book_kept_iff leafIface 1 (linkLocal 1) leafDag rfl rfl _).mpr (Or.inr ?_)
  exact ⟨rfl, by simp only [List.forall_mem_singleton]; decide⟩

theorem ack_book_not_kept :
    dagLookup leafIface 1 (linkLocal 1) = some leafDag ∧ leafDag.pendingAcks = [] ∧
      ¬ Runs.Always (AckBook.step 1 (linkLocal 1)) (AckBook.Kept 1 (linkLocal 1)) ⟨leafIface, [], []⟩
        [.send .granting (linkLocal 1), rootAck 0] ∧
      ¬ Runs.Always (AckBook.step 1 (linkLocal 1)) (AckBook.Kept 1 (linkLocal 1)) ⟨leafIface, [], []⟩
        [.send .granting (linkLocal 1), .send .granting (linkLocal 1)] := by
  have agrees : (AckBook.mk leafIface [] []).Agrees 1 (linkLocal 1) 1 [] := ⟨⟨leafDag, rfl, rfl, rfl⟩, rfl, rfl⟩
  refine ⟨rfl, rfl, ?_, ?_⟩
  · rw [always_kept_idle (by decide) agrees]
    rintro ⟨_, quiet⟩
    exact absurd (quiet (rootAck 0) (by simp)).2 (by decide)
  · rw [always_kept_idle (by decide) agrees]
    rintro ⟨_, quiet⟩
    exact absurd (quiet (.send .granting (linkLocal 1)) (by simp)).1 (by decide)

end Rpld
