import Rpld.Frames
import Rpld.Config

/-!
The ways a handler does not return. `exit(1)` comes from a DIO that is accepted for a dag
with too many children, a copy past an object from a DIO whose prefix length exceeds 128
or from sending a DIO of a dag that has such a length already.
-/

namespace Rpld

/-- A DAO that names this many children and the sender itself is over the limit. -/
def overfullChilds : Nat := 3275

theorem daoBytes_overfull (dag : Dag) :
    safeBufferLimit < dag.daoBytes.length ↔ overfullChilds ≤ dag.childs.length := by
  rw [Dag.daoBytes_length]
  simp only [safeBufferLimit, overfullChilds]
  omega

def Iface.DestValid (iface : Iface) : Prop :=
  iface.AllAdverts fun _ advert => advert.dest.len.toNat ≤ 128

/-- A DIO that is accepted for a dag whose DAO no longer fits the send buffer. -/
structure Overfull (env : Env) (iface : Iface) (mem : Nat → UInt8) (len : Nat) (src : In6Addr) (dag : Dag) :
    Prop where
  type : mem 0 = ndRplMessage
  code : mem 1 = ndRplDagIo
  base : sizeofDio ≤ len
  found : dagLookup iface (mem 4) (addrAt mem 12) = some dag
  notRoot : dag.myRank ≠ 1
  parent : HasParent env dag
  accepted : ntohs (mem 6) (mem 7) ≤ (dag.parentOr src).rank
  childs : overfullChilds ≤ dag.childs.length

/-- A DIO for a new dag whose prefix length exceeds that of an address. -/
structure Oversized (iface : Iface) (mem : Nat → UInt8) (len : Nat) : Prop where
  type : mem 0 = ndRplMessage
  code : mem 1 = ndRplDagIo
  joins : Joins iface mem len
  prefixlen : 128 < (mem 30).toNat

/-! Sending DIOs. -/

theorem sendDioDags_fault (env : Env) (dags : List Dag) :
    (sendDioDags env dags).2.2 = none ∨
      (sendDioDags env dags).2.2 = some .overrun ∧ ∃ dag ∈ dags, 128 < dag.dest.len.toNat := by
  induction dags with
  | nil => exact Or.inl rfl
  | cons dag rest ih =>
      by_cases valid : dag.dest.len.toNat ≤ 128
      · simp only [sendDioDags, sendDio_ok env dag valid]
        rcases ih with fine | ⟨exceeds, bad, member, invalid⟩
        · exact Or.inl fine
        · exact Or.inr ⟨exceeds, bad, by simp [member], invalid⟩
      · right
        simp only [sendDioDags, sendDio_overrun env dag (by omega)]
        exact ⟨trivial, dag, by simp, by omega⟩

theorem sendDioRpls_fault (env : Env) (rpls : List Rpl) :
    (sendDioRpls env rpls).2.2 = none ∨
      (sendDioRpls env rpls).2.2 = some .overrun ∧
        ∃ rpl ∈ rpls, ∃ dag ∈ rpl.dags, 128 < dag.dest.len.toNat := by
  induction rpls with
  | nil => exact Or.inl rfl
  | cons rpl rest ih =>
      have here := sendDioDags_fault env rpl.dags
      simp only [sendDioRpls]
      split
      · rename_i dags effects fault answered
        rw [answered] at here
        simp only [reduceCtorEq, false_or] at here
        exact Or.inr ⟨here.1, rpl, by simp, here.2⟩
      · rcases ih with fine | ⟨exceeds, bad, member, invalid⟩
        · exact Or.inl fine
        · exact Or.inr ⟨exceeds, bad, by simp [member], invalid⟩

theorem processDis_fault (env : Env) (iface : Iface) :
    (processDis env iface).fault = none ∨
      (processDis env iface).fault = some .overrun ∧ ¬ iface.DestValid := by
  rcases sendDioRpls_fault env iface.rpls with fine | ⟨exceeds, rpl, member, dag, dagMember, invalid⟩
  · exact Or.inl fine
  · refine Or.inr ⟨exceeds, ?_⟩
    intro valid
    have bound := allAdverts_iff.mp valid rpl member dag dagMember
    simp only [Dag.advert] at bound
    omega

/-! Receiving. -/

def Overflows (env : Env) (dag : Dag) (rank : UInt16) (src : In6Addr) : Prop :=
  HasParent env dag ∧ rank ≤ (dag.parentOr src).rank ∧ overfullChilds ≤ dag.childs.length

theorem processDioRank_fault (env : Env) (iface : Iface) (instanceId : UInt8) (dodagid : In6Addr)
    (dag : Dag) (rank : UInt16) (src : In6Addr) (effects : List Effect) (reads : List Nat) :
    let out := processDioRank env iface instanceId dodagid dag rank src effects reads
    (Overflows env dag rank src ∧ out.fault = some .exit) ∨
      (¬ Overflows env dag rank src ∧ out.fault = none) := by
  intro out
  by_cases available : HasParent env dag
  · have childs : (dagProcessDio env (dag.ranked rank src)).1.childs = dag.childs :=
      dagProcessDio_childs env (dag.ranked rank src)
    rcases processDioRank_cases available iface instanceId dodagid rank src effects reads with
      ⟨higher, refused⟩ | ⟨accepted, large, exited⟩ | ⟨accepted, fits, sent⟩
    · have notAccepted : ¬ rank ≤ (dag.parentOr src).rank := UInt16.not_le.mpr higher
      exact Or.inr ⟨fun overflows => notAccepted overflows.2.1, congrArg Outcome.fault refused⟩
    · rw [daoBytes_overfull, childs] at large
      exact Or.inl ⟨⟨available, accepted, large⟩, congrArg Outcome.fault exited⟩
    · have small : ¬ overfullChilds ≤ dag.childs.length := by
        rw [← childs, ← daoBytes_overfull]
        omega
      exact Or.inr ⟨fun overflows => small overflows.2.2, congrArg Outcome.fault sent⟩
  · refine Or.inr ⟨fun overflows => available overflows.1, ?_⟩
    simp only [out, processDioRank_without available]

theorem processDioRank_exit_iff (env : Env) (iface : Iface) (instanceId : UInt8) (dodagid : In6Addr)
    (dag : Dag) (rank : UInt16) (src : In6Addr) (effects : List Effect) (reads : List Nat) :
    (processDioRank env iface instanceId dodagid dag rank src effects reads).fault = some .exit ↔
      Overflows env dag rank src := by
  rcases processDioRank_fault env iface instanceId dodagid dag rank src effects reads with
    ⟨overflows, exits⟩ | ⟨fits, returns⟩
  · exact iff_of_true exits overflows
  · exact iff_of_false (by simp [returns]) fits

theorem processDioRank_not_overrun (env : Env) (iface : Iface) (instanceId : UInt8) (dodagid : In6Addr)
    (dag : Dag) (rank : UInt16) (src : In6Addr) (effects : List Effect) (reads : List Nat) :
    (processDioRank env iface instanceId dodagid dag rank src effects reads).fault ≠ some .overrun := by
  rcases processDioRank_fault env iface instanceId dodagid dag rank src effects reads with
    ⟨_, exits⟩ | ⟨_, returns⟩
  · simp [exits]
  · simp [returns]

section

variable {env : Env} {iface : Iface} {mem : Nat → UInt8} {len : Nat} {src : In6Addr}

theorem overfull_iff (type : mem 0 = ndRplMessage) (code : mem 1 = ndRplDagIo) (base : sizeofDio ≤ len) {dag : Dag}
    (found : dagLookup iface (mem 4) (addrAt mem 12) = some dag) (notRoot : dag.myRank ≠ 1) :
    (∃ other, Overfull env iface mem len src other) ↔ Overflows env dag (ntohs (mem 6) (mem 7)) src := by
  constructor
  · rintro ⟨other, overfull⟩
    have same := overfull.found
    rw [found, Option.some.injEq] at same
    subst same
    exact ⟨overfull.parent, overfull.accepted, overfull.childs⟩
  · rintro ⟨parent, accepted, childs⟩
    exact ⟨dag, type, code, base, found, notRoot, parent, accepted, childs⟩

theorem not_overfull (missing : dagLookup iface (mem 4) (addrAt mem 12) = none) :
    ¬ ∃ dag, Overfull env iface mem len src dag := by
  rintro ⟨dag, overfull⟩
  have found := overfull.found
  simp [missing] at found

end

theorem oversized_iff {iface : Iface} {mem : Nat → UInt8} {len : Nat} (type : mem 0 = ndRplMessage)
    (code : mem 1 = ndRplDagIo) (joins : Joins iface mem len) :
    Oversized iface mem len ↔ sizeofPrefix < (bitsToBytes (mem 30)).toNat := by
  have bytes := bitsToBytes_le_sixteen (mem 30)
  constructor
  · intro oversized
    have large := oversized.prefixlen
    simp only [sizeofPrefix]
    omega
  · intro large
    simp only [sizeofPrefix] at large
    exact ⟨type, code, joins, by omega⟩

/-- How `process_dio` ends: it exits on an overfull dag and nowhere else, and it copies
past its prefix exactly for an oversized one. -/
theorem processDio_fault (env : Env) (iface : Iface) (mem : Nat → UInt8) (len : Nat) (src : In6Addr)
    (type : mem 0 = ndRplMessage) (code : mem 1 = ndRplDagIo) :
    ((processDio env iface mem len src).fault = some .exit ↔ ∃ dag, Overfull env iface mem len src dag) ∧
      ((processDio env iface mem len src).fault = some .overrun ↔ Oversized iface mem len) := by
  have way := processDio_case env iface mem len src
  generalize processDio env iface mem len src = out at way
  cases way with
  | drops reads notNew notKnown =>
      refine ⟨iff_of_false (by simp [dropped]) ?_, iff_of_false (by simp [dropped]) ?_⟩
      · rintro ⟨dag, overfull⟩
        exact overfull.notRoot (notKnown overfull.base dag overfull.found)
      · intro oversized
        exact notNew oversized.joins
  | known dag reads base found notRoot =>
      constructor
      · rw [overfull_iff type code base found notRoot]
        exact processDioRank_exit_iff _ _ _ _ _ _ _ _ _
      · refine iff_of_false (processDioRank_not_overrun _ _ _ _ _ _ _ _ _) ?_
        intro oversized
        have missing := oversized.joins.missing
        simp [found] at missing
  | oversized reads joins exceeds =>
      refine ⟨iff_of_false (by simp) (not_overfull joins.missing), ?_⟩
      rw [oversized_iff type code joins]
      exact iff_of_true rfl exceeds
  | fails reads fault kind joins inside =>
      rw [oversized_iff type code joins]
      refine ⟨iff_of_false ?_ (not_overfull joins.missing), iff_of_false ?_ (by omega)⟩
      · rcases kind with returns | dangling
        · simp [returns]
        · simp [dangling]
      · rcases kind with returns | dangling
        · simp [returns]
        · simp [dangling]
  | joined dag pfx reads joins inside fresh =>
      have empty : ¬ Overflows env dag (ntohs (mem 6) (mem 7)) src := by
        rintro ⟨_, _, childs⟩
        rw [fresh] at childs
        simp [freshDag, dagInit, overfullChilds] at childs
      rw [oversized_iff type code joins]
      constructor
      · rw [processDioRank_exit_iff]
        exact iff_of_false empty (not_overfull joins.missing)
      · exact iff_of_false (processDioRank_not_overrun _ _ _ _ _ _ _ _ _) (by omega)

/-! One call of `process`, and one step of the daemon. -/

theorem processDaoack_fault (iface : Iface) (mem : Nat → UInt8) (len : Nat) :
    (processDaoack iface mem len).fault = none := by
  unfold processDaoack
  split
  · rfl
  · split
    · rfl
    · split <;> rfl

theorem processIface_fault_other (env : Env) (iface : Iface) (mem : Nat → UInt8) (len : Nat) (src : In6Addr)
    (other : ¬ (mem 0 = ndRplMessage ∧ mem 1 = ndRplDagIo)) :
    (processIface env iface mem len src).fault = none ∨
      (processIface env iface mem len src).fault = some .overrun ∧ ¬ iface.DestValid := by
  unfold processIface
  split
  · exact Or.inl rfl
  · rename_i type
    simp only
    split
    · exact processDis_fault env iface
    split
    · rename_i dio
      exact absurd ⟨by simpa using type, dio⟩ other
    split
    · exact Or.inl (processDao_cases env iface mem len src).1
    split
    · exact Or.inl (processDaoack_fault iface mem len)
    · exact Or.inl rfl

theorem processIface_dio_fault (env : Env) (iface : Iface) (mem : Nat → UInt8) (len : Nat) (src : In6Addr)
    (dio : mem 0 = ndRplMessage ∧ mem 1 = ndRplDagIo) :
    (processIface env iface mem len src).fault = (processDio env iface mem len src).fault := by
  rw [processIface_dioBody dio.1 dio.2]

theorem processIface_exit_iff (env : Env) (iface : Iface) (mem : Nat → UInt8) (len : Nat) (src : In6Addr) :
    (processIface env iface mem len src).fault = some .exit ↔
      ∃ dag, Overfull env iface mem len src dag := by
  by_cases dio : mem 0 = ndRplMessage ∧ mem 1 = ndRplDagIo
  · rw [processIface_dio_fault env iface mem len src dio]
    exact (processDio_fault env iface mem len src dio.1 dio.2).1
  · constructor
    · intro exits
      rcases processIface_fault_other env iface mem len src dio with returns | ⟨exceeds, _⟩
      · simp [returns] at exits
      · simp [exceeds] at exits
    · rintro ⟨dag, overfull⟩
      exact absurd ⟨overfull.type, overfull.code⟩ dio

theorem processIface_overrun (env : Env) {iface : Iface} {mem : Nat → UInt8} {len : Nat} (src : In6Addr)
    (valid : iface.DestValid) (exceeds : (processIface env iface mem len src).fault = some .overrun) :
    Oversized iface mem len := by
  by_cases dio : mem 0 = ndRplMessage ∧ mem 1 = ndRplDagIo
  · rw [processIface_dio_fault env iface mem len src dio] at exceeds
    exact (processDio_fault env iface mem len src dio.1 dio.2).2.mp exceeds
  · rcases processIface_fault_other env iface mem len src dio with returns | ⟨_, invalid⟩
    · simp [returns] at exceeds
    · exact absurd valid invalid

def Daemon.Overfull (daemon : Daemon) : Event → Prop
  | .packet env pkt => ∃ iface dag, ifaceFindByIfindex daemon.ifaces pkt.ifindex = some iface ∧
      Rpld.Overfull env iface pkt.mem (pkt.len - 4) pkt.src dag
  | _ => False

def Daemon.Oversized (daemon : Daemon) : Event → Prop
  | .packet _ pkt => ∃ iface, ifaceFindByIfindex daemon.ifaces pkt.ifindex = some iface ∧
      Rpld.Oversized iface pkt.mem (pkt.len - 4)
  | _ => False

theorem Daemon.not_oversized {daemon : Daemon} {env : Env} {pkt : Packet} (small : (pkt.mem 30).toNat ≤ 128) :
    ¬ daemon.Oversized (.packet env pkt) := by
  rintro ⟨_, _, oversized⟩
  have large := oversized.prefixlen
  omega

theorem sendDio_fault {env : Env} {dag : Dag} {fault : Fault} (failed : sendDio env dag = .error fault) :
    fault = .overrun ∧ 128 < dag.dest.len.toNat := by
  by_cases valid : dag.dest.len.toNat ≤ 128
  · simp [sendDio_ok env dag valid] at failed
  · rw [sendDio_overrun env dag (by omega)] at failed
    simp only [Except.error.injEq] at failed
    exact ⟨failed.symm, by omega⟩

theorem dagLookup_destValid {iface : Iface} {instanceId : UInt8} {dodagid : In6Addr} {dag : Dag}
    (valid : iface.DestValid) (found : dagLookup iface instanceId dodagid = some dag) :
    dag.dest.len.toNat ≤ 128 := by
  have all : iface.AllDags fun _ dag => dag.dest.len.toNat ≤ 128 := allAdverts_iff.mp valid
  exact dagLookup_allDags all found

theorem Daemon.packet_fault {daemon : Daemon} {env : Env} {pkt : Packet} {fault : Fault}
    (failed : (daemon.packet env pkt).fault = some fault) :
    ∃ iface, ifaceFindByIfindex daemon.ifaces pkt.ifindex = some iface ∧
      (processIface env iface pkt.mem (pkt.len - 4) pkt.src).fault = some fault := by
  simp only [Daemon.packet, process] at failed
  split at failed
  · simp at failed
  · split at failed
    · simp at failed
    · rename_i iface found
      exact ⟨iface, found, failed⟩

theorem Daemon.step_exit_iff {daemon : Daemon} (running : daemon.fault = none) (event : Event) :
    (daemon.step event).fault = some .exit ↔ daemon.Overfull event := by
  simp only [Daemon.step, running]
  cases event with
  | packet env pkt =>
      constructor
      · intro exits
        obtain ⟨iface, found, failed⟩ := Daemon.packet_fault exits
        obtain ⟨dag, overfull⟩ := (processIface_exit_iff _ _ _ _ _).mp failed
        exact ⟨iface, dag, found, overfull⟩
      · rintro ⟨iface, dag, found, overfull⟩
        have base := overfull.base
        simp only [sizeofDio] at base
        have short : ¬ pkt.len < 4 := by omega
        simp only [Daemon.packet, process, short, if_false, found]
        exact (processIface_exit_iff _ _ _ _ _).mpr ⟨dag, overfull⟩
  | trickle env watcher =>
      simp only [Daemon.Overfull, iff_false, Daemon.trickle]
      split
      · simp [running]
      · split
        · simp [running]
        · split
          · rename_i fault failed
            simp [(sendDio_fault failed).1]
          · simp [running]
  | dis env ptr =>
      simp only [Daemon.Overfull, iff_false, Daemon.dis]
      split
      · simp [running]
      · simp [sendDis_ok, running]

theorem Daemon.step_overrun {daemon : Daemon} (running : daemon.fault = none)
    (valid : ∀ iface ∈ daemon.ifaces, iface.DestValid) {event : Event}
    (exceeds : (daemon.step event).fault = some .overrun) : daemon.Oversized event := by
  simp only [Daemon.step, running] at exceeds
  cases event with
  | packet env pkt =>
      obtain ⟨iface, found, failed⟩ := Daemon.packet_fault exceeds
      exact ⟨iface, found, processIface_overrun env pkt.src (valid iface (List.mem_of_find?_eq_some found)) failed⟩
  | trickle env watcher =>
      simp only [Daemon.trickle] at exceeds
      split at exceeds
      · simp [running] at exceeds
      · rename_i iface found
        split at exceeds
        · simp [running] at exceeds
        · rename_i dag dagFound
          have small := dagLookup_destValid (valid iface (List.mem_of_find?_eq_some found)) dagFound
          simp [sendDio_ok env dag small, running] at exceeds
  | dis env ptr =>
      simp only [Daemon.dis] at exceeds
      split at exceeds
      · simp [running] at exceeds
      · simp [sendDis_ok, running] at exceeds

end Rpld
