import Rpld.Buffer
import Rpld.DagCore

/-!
The bytes each builder of `dag.c` writes. A DIO is built for every prefix length up
to 128; a DAO is built while all its targets fit the send buffer, and ends the
process otherwise; the two acknowledging messages are always built.
-/

namespace Rpld

theorem bitsToBytes_toNat (bits : UInt8) : (bitsToBytes bits).toNat = (bits.toNat + 7) / 8 := by
  have bound := bits.toNat_lt
  have shifted : (bits >>> 3).toNat = bits.toNat / 8 := by
    rw [UInt8.toNat_shiftRight]
    exact Nat.shiftRight_eq_div_pow _ 3
  have masked : (bits &&& 0x7).toNat = bits.toNat % 8 := by
    rw [UInt8.toNat_and]
    exact Nat.and_two_pow_sub_one_eq_mod _ 3
  have zero : bits &&& 0x7 = 0 ↔ bits.toNat % 8 = 0 := by
    rw [← masked, ← UInt8.toNat_inj]
    rfl
  simp only [bitsToBytes, ne_eq, zero]
  split
  · rw [UInt8.toNat_add, shifted]
    have one : (1 : UInt8).toNat = 1 := rfl
    omega
  · omega

theorem bitsToBytes_le_sixteen (bits : UInt8) : (bitsToBytes bits).toNat ≤ 16 ↔ bits.toNat ≤ 128 := by
  rw [bitsToBytes_toNat]
  omega

theorem headLength_toNat (head bits : UInt8) (small : head.toNat ≤ 8) :
    (head + bitsToBytes bits).toNat = head.toNat + (bitsToBytes bits).toNat := by
  have bound := bits.toNat_lt
  rw [UInt8.toNat_add, bitsToBytes_toNat]
  omega

theorem ntohs_htons (value : UInt16) :
    ntohs (UInt8.ofNat (value.toNat / 256)) (UInt8.ofNat (value.toNat % 256)) = value := by
  have bound := value.toNat_lt
  apply UInt16.toNat_inj.mp
  simp only [ntohs, UInt8.toNat_ofNat', UInt16.toNat_ofNat']
  omega

/-! DIO. -/

def Dag.dioHead (dag : Dag) : NdRplDio where
  rplInstanceid := dag.rpl.instanceId
  rplVersion := dag.version
  rplDagrank := dag.myRank
  rplMopprf := ndRplDioGrounded ||| rplDioStoringNoMulticast <<< 3
  rplDtsn := dag.dtsn
  rplDagid := dag.dodagid

def Dag.destOption (dag : Dag) : RplDioDestPrefix :=
  ⟨8 + bitsToBytes dag.dest.len - 2, dag.dest.len, dag.dest.pfx⟩

/-- The DIO of a dag: header, base, and the destination prefix cut to whole bytes. -/
def Dag.dioBytes (dag : Dag) : List UInt8 :=
  (Icmp6Hdr.mk ndRplMessage ndRplDagIo).bytes ++ dag.dioHead.bytes ++
    dag.destOption.bytes.take (8 + (bitsToBytes dag.dest.len).toNat)

@[simp] theorem NdRplDio.bytes_length (dio : NdRplDio) : dio.bytes.length = 24 := by
  simp [NdRplDio.bytes, htons, dio.rplDagid.size]

@[simp] theorem RplDioDestPrefix.bytes_length (diodp : RplDioDestPrefix) :
    diodp.bytes.length = 24 := by
  simp [RplDioDestPrefix.bytes, diodp.rplDioPrefix.size]

@[simp] theorem NdRplDaoack.bytes_length (daoack : NdRplDaoack) : daoack.bytes.length = 20 := by
  simp [NdRplDaoack.bytes, daoack.rplDagid.size]

@[simp] theorem RplDaoTarget.bytes_length (target : RplDaoTarget) : target.bytes.length = 20 := by
  simp [RplDaoTarget.bytes, target.rplDaoPrefix.size]

theorem buildBase_ok (heap : Nat → UInt8) (code : UInt8) (base : List UInt8)
    (small : base.length ≤ 32) :
    ∃ sb, (do
        let sb ← dagBuildIcmp (safeBufferNew heap) code
        safeBufferAppend sb base base.length) = .ok sb ∧
      sb.Holds ((Icmp6Hdr.mk ndRplMessage code).bytes ++ base) := by
  obtain ⟨first, built, holds⟩ := safeBufferAppend_ok (safeBufferNew_holds heap)
    ((Icmp6Hdr.mk ndRplMessage code).bytes) 4 (by simp [Icmp6Hdr.bytes])
    (by simp [safeBufferLimit])
  obtain ⟨second, appended, both⟩ := safeBufferAppend_ok holds base base.length
    (Nat.le_refl _) (by simp [Icmp6Hdr.bytes, safeBufferLimit]; omega)
  refine ⟨second, ?_, ?_⟩
  · simp [dagBuildIcmp, built, appended, Bind.bind, Except.bind]
  · simpa [Icmp6Hdr.bytes] using both

theorem appendDestPrefix_eq (dag : Dag) (sb : SafeBuffer) :
    appendDestPrefix dag sb =
      safeBufferAppend sb dag.destOption.bytes (8 + bitsToBytes dag.dest.len).toNat := rfl

theorem dagBuildDio_base (dag : Dag) (heap : Nat → UInt8) :
    ∃ sb, sb.Holds ((Icmp6Hdr.mk ndRplMessage ndRplDagIo).bytes ++ dag.dioHead.bytes) ∧
      dagBuildDio dag (safeBufferNew heap) = (do
        let sb ← appendDestPrefix dag sb
        return ({ dag with dtsn := dag.dtsn + 1 }, sb)) := by
  obtain ⟨sb, built, holds⟩ := buildBase_ok heap ndRplDagIo dag.dioHead.bytes (by simp)
  refine ⟨sb, holds, ?_⟩
  rw [NdRplDio.bytes_length] at built
  cases header : dagBuildIcmp (safeBufferNew heap) ndRplDagIo with
  | error fault => simp [header, Bind.bind, Except.bind] at built
  | ok first =>
      simp only [header, Bind.bind, Except.bind] at built
      simp only [Dag.dioHead] at built
      simp [dagBuildDio, header, built, Bind.bind, Except.bind]

theorem dagBuildDio_ok (dag : Dag) (heap : Nat → UInt8) (valid : dag.dest.len.toNat ≤ 128) :
    ∃ sb, dagBuildDio dag (safeBufferNew heap) = .ok ({ dag with dtsn := dag.dtsn + 1 }, sb) ∧
      sb.contents = dag.dioBytes := by
  obtain ⟨base, holds, unfolded⟩ := dagBuildDio_base dag heap
  have bytes := (bitsToBytes_le_sixteen dag.dest.len).mpr valid
  have length := headLength_toNat 8 dag.dest.len (by decide)
  have eight : (8 : UInt8).toNat = 8 := rfl
  obtain ⟨sb, appended, whole⟩ := safeBufferAppend_ok holds dag.destOption.bytes
    (8 + bitsToBytes dag.dest.len).toNat (by simp only [RplDioDestPrefix.bytes_length]; omega)
    (by simp [Icmp6Hdr.bytes, safeBufferLimit]; omega)
  refine ⟨sb, ?_, ?_⟩
  · rw [unfolded, appendDestPrefix_eq, appended]
    rfl
  · rw [whole.contents, length, eight]
    simp [Dag.dioBytes]

theorem dagBuildDio_overrun (dag : Dag) (heap : Nat → UInt8) (invalid : 128 < dag.dest.len.toNat) :
    dagBuildDio dag (safeBufferNew heap) = .error .overrun := by
  obtain ⟨base, holds, unfolded⟩ := dagBuildDio_base dag heap
  have bytes : ¬ (bitsToBytes dag.dest.len).toNat ≤ 16 := by rw [bitsToBytes_le_sixteen]; omega
  have length := headLength_toNat 8 dag.dest.len (by decide)
  have eight : (8 : UInt8).toNat = 8 := rfl
  have bound := bitsToBytes_toNat dag.dest.len
  have byte := dag.dest.len.toNat_lt
  have exceeds := safeBufferAppend_overrun holds dag.destOption.bytes
    (8 + bitsToBytes dag.dest.len).toNat (by simp only [RplDioDestPrefix.bytes_length]; omega)
    (by simp [Icmp6Hdr.bytes, safeBufferLimit]; omega)
  rw [unfolded, appendDestPrefix_eq, exceeds]
  rfl

theorem sendDio_ok (env : Env) (dag : Dag) (valid : dag.dest.len.toNat ≤ 128) :
    sendDio env dag = .ok ({ dag with dtsn := dag.dtsn + 1 },
      .sendmsg dag.iface.ifindex dag.iface.ifaddr allRplAddr dag.dioBytes) := by
  obtain ⟨sb, built, contents⟩ := dagBuildDio_ok dag env.heap valid
  simp [sendDio, built, reallySend, contents, Bind.bind, Except.bind, Pure.pure, Except.pure]

theorem sendDio_overrun (env : Env) (dag : Dag) (invalid : 128 < dag.dest.len.toNat) :
    sendDio env dag = .error .overrun := by
  simp [sendDio, dagBuildDio_overrun dag env.heap invalid, Bind.bind, Except.bind]

/-! DAO-ACK and DIS. -/

def Dag.daoAckHead (dag : Dag) : NdRplDaoack where
  rplInstanceid := dag.rpl.instanceId
  rplFlags := rplDaoKMask ||| rplDaoDMask
  rplDaoseq := dag.dsn
  rplStatus := 0
  rplDagid := dag.dodagid

def Dag.daoAckBytes (dag : Dag) : List UInt8 :=
  (Icmp6Hdr.mk ndRplMessage ndRplDaoAck).bytes ++ dag.daoAckHead.bytes

theorem sendDaoAck_ok (env : Env) (dst : In6Addr) (dag : Dag) :
    sendDaoAck env dst dag =
      .ok (.sendmsg dag.iface.ifindex dag.iface.ifaddr dst dag.daoAckBytes) := by
  obtain ⟨sb, built, holds⟩ := buildBase_ok env.heap ndRplDaoAck dag.daoAckHead.bytes (by simp)
  rw [NdRplDaoack.bytes_length] at built
  have wrote : dagBuildDaoAck dag (safeBufferNew env.heap) = .ok sb := built
  simp [sendDaoAck, wrote, reallySend, holds.contents, Dag.daoAckBytes, Bind.bind, Except.bind,
    Pure.pure, Except.pure]

theorem sendDis_ok (env : Env) (iface : Iface) :
    sendDis env iface = .ok (.sendmsg iface.ifindex iface.ifaddr allRplAddr
      ((Icmp6Hdr.mk ndRplMessage ndRplDagIs).bytes ++ [0, 0])) := by
  obtain ⟨sb, built, holds⟩ := buildBase_ok env.heap ndRplDagIs [0, 0] (by simp)
  have wrote : dagBuildDis (safeBufferNew env.heap) = .ok sb := built
  simp [sendDis, wrote, reallySend, holds.contents, Bind.bind, Except.bind, Pure.pure, Except.pure]

/-! DAO. -/

def Dag.daoTargets (dag : Dag) : List In6Addr := dag.self :: dag.childs.map (·.addr)

def Dag.daoHead (dag : Dag) : NdRplDaoack where
  rplInstanceid := dag.rpl.instanceId
  rplFlags := rplDaoDMask
  rplDaoseq := 0
  rplStatus := 0
  rplDagid := dag.dodagid

def targetBytes (addr : In6Addr) : List UInt8 := (RplDaoTarget.mk 18 128 addr).bytes

@[simp] theorem targetBytes_length (addr : In6Addr) : (targetBytes addr).length = 20 := by
  simp [targetBytes]

def Dag.daoBase (dag : Dag) : List UInt8 :=
  (Icmp6Hdr.mk ndRplMessage ndRplDao).bytes ++ dag.daoHead.bytes

@[simp] theorem Dag.daoBase_length (dag : Dag) : dag.daoBase.length = 24 := by
  simp [Dag.daoBase, Icmp6Hdr.bytes]

def Dag.daoBytes (dag : Dag) : List UInt8 := dag.daoBase ++ dag.daoTargets.flatMap targetBytes

theorem flatMap_targetBytes_length (addrs : List In6Addr) :
    (addrs.flatMap targetBytes).length = 20 * addrs.length := by
  induction addrs with
  | nil => rfl
  | cons addr rest ih =>
      simp only [List.flatMap_cons, List.length_append, targetBytes_length, ih, List.length_cons]
      omega

theorem Dag.daoBytes_length (dag : Dag) : dag.daoBytes.length = 44 + 20 * dag.childs.length := by
  simp only [Dag.daoBytes, List.length_append, Dag.daoBase_length, flatMap_targetBytes_length,
    Dag.daoTargets, List.length_cons, List.length_map]
  omega

theorem appendTarget_eq (addr : In6Addr) (sb : SafeBuffer) :
    appendTarget ⟨addr, 128⟩ sb = safeBufferAppend sb (targetBytes addr) 20 := by
  have length : ((4 : UInt8) + bitsToBytes 128).toNat = 20 := by decide
  simp only [appendTarget, targetBytes, length]

theorem appendTargets_cases (childs : List Child) {sb : SafeBuffer} {bytes : List UInt8}
    (holds : sb.Holds bytes) (small : bytes.length ≤ safeBufferLimit) :
    (safeBufferLimit < bytes.length + 20 * childs.length ∧
      appendTargets childs sb = .error .exit) ∨
    (bytes.length + 20 * childs.length ≤ safeBufferLimit ∧
      ∃ next, appendTargets childs sb = .ok next ∧
        next.Holds (bytes ++ (childs.map (·.addr)).flatMap targetBytes)) := by
  induction childs generalizing sb bytes with
  | nil => exact Or.inr ⟨by simpa using small, sb, rfl, by simpa using holds⟩
  | cons child rest ih =>
      simp only [appendTargets, appendTarget_eq, List.length_cons]
      rcases safeBufferAppend_cases holds (targetBytes child.addr) 20 (by simp)
        with ⟨large, exits⟩ | ⟨fits, next, appended, both⟩
      · left
        exact ⟨by omega, by simp [exits, Bind.bind, Except.bind]⟩
      · rw [List.take_of_length_le (by simp)] at both
        simp only [appended, Bind.bind, Except.bind]
        rcases ih both (by simpa using fits) with ⟨large, exits⟩ | ⟨fits, last, done, whole⟩
        · left
          simp only [List.length_append, targetBytes_length] at large
          exact ⟨by omega, exits⟩
        · right
          simp only [List.length_append, targetBytes_length] at fits
          exact ⟨by omega, last, done, by simpa using whole⟩

def Dag.afterDao (env : Env) (dag : Dag) : Dag :=
  { dagDaoackInsert env.daoackAlloc dag dag.dsn with dsn := dag.dsn + 1 }

theorem Dag.afterDao_eq (env : Env) (dag : Dag) :
    dag.afterDao env =
      { dag with
        dsn := dag.dsn + 1
        pendingAcks := if env.daoackAlloc then dag.pendingAcks ++ [0] else dag.pendingAcks } := by
  unfold Dag.afterDao dagDaoackInsert
  split <;> rfl

theorem dagBuildDao_cases (env : Env) (dag : Dag) :
    (safeBufferLimit < dag.daoBytes.length ∧
      dagBuildDao env dag (safeBufferNew env.heap) = .error .exit) ∨
    (dag.daoBytes.length ≤ safeBufferLimit ∧
      ∃ sb, dagBuildDao env dag (safeBufferNew env.heap) = .ok (dag.afterDao env, sb) ∧
        sb.contents = dag.daoBytes) := by
  obtain ⟨base, built, holds⟩ := buildBase_ok env.heap ndRplDao dag.daoHead.bytes (by simp)
  rw [NdRplDaoack.bytes_length] at built
  obtain ⟨own, appended, both⟩ := safeBufferAppend_ok holds (targetBytes dag.self)
    20 (by simp) (by simp [Icmp6Hdr.bytes, safeBufferLimit])
  have start : dagBuildDao env dag (safeBufferNew env.heap) = (do
      let sb ← appendTargets dag.childs own
      return (dag.afterDao env, sb)) := by
    cases header : dagBuildIcmp (safeBufferNew env.heap) ndRplDao with
    | error fault => simp [header, Bind.bind, Except.bind] at built
    | ok first =>
        simp only [header, Bind.bind, Except.bind, Dag.daoHead] at built
        have inserted : (dagDaoackInsert env.daoackAlloc dag dag.dsn).dsn = dag.dsn := by
          unfold dagDaoackInsert
          split <;> rfl
        simp [dagBuildDao, header, built, appendTarget_eq, appended, Dag.afterDao, inserted,
          Bind.bind, Except.bind]
  have size := dag.daoBytes_length
  rw [List.take_of_length_le (by simp)] at both
  have first : ((Icmp6Hdr.mk ndRplMessage ndRplDao).bytes ++ dag.daoHead.bytes ++
      targetBytes dag.self).length = 44 := by simp [Icmp6Hdr.bytes]
  rcases appendTargets_cases dag.childs both (by rw [first]; decide) with
    ⟨large, exits⟩ | ⟨fits, last, done, whole⟩
  · left
    exact ⟨by omega, by simp [start, exits, Bind.bind, Except.bind]⟩
  · right
    refine ⟨by omega, last, ?_, ?_⟩
    · simp [start, done, Bind.bind, Except.bind, Pure.pure, Except.pure]
    · rw [whole.contents]
      simp [Dag.daoBytes, Dag.daoBase, Dag.daoTargets]

theorem dagBuildDao_ok (env : Env) (dag : Dag) (fits : dag.daoBytes.length ≤ safeBufferLimit) :
    ∃ sb, dagBuildDao env dag (safeBufferNew env.heap) = .ok (dag.afterDao env, sb) ∧
      sb.contents = dag.daoBytes := by
  rcases dagBuildDao_cases env dag with ⟨large, _⟩ | ⟨_, built⟩
  · omega
  · exact built

theorem sendDao_exit (env : Env) (dst : In6Addr) (dag : Dag)
    (large : safeBufferLimit < dag.daoBytes.length) : sendDao env dst dag = .error .exit := by
  rcases dagBuildDao_cases env dag with ⟨_, exits⟩ | ⟨fits, _⟩
  · simp [sendDao, exits, Bind.bind, Except.bind]
  · omega

theorem sendDao_ok (env : Env) (dst : In6Addr) (dag : Dag)
    (fits : dag.daoBytes.length ≤ safeBufferLimit) :
    sendDao env dst dag = .ok (dag.afterDao env,
      .sendmsg dag.iface.ifindex dag.iface.ifaddr dst dag.daoBytes) := by
  have kept : (dag.afterDao env).iface = dag.iface := by rw [Dag.afterDao_eq]
  obtain ⟨sb, built, contents⟩ := dagBuildDao_ok env dag fits
  simp [sendDao, built, reallySend, contents, kept, Bind.bind, Except.bind, Pure.pure, Except.pure]

end Rpld
