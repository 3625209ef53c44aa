import Rpld.Lib.FirstMatch
import Rpld.BufferCore

/-!
Tables and message builders of `dag.c`, and the senders of `send.c` around them.
A `struct dag *` that `dag_lookup` returned denotes the first dag under its key, so
a write through it is `dagWrite` at that key.
-/

namespace Rpld

open FirstMatch

/-! Lookup. -/

def dagLookupRpl (iface : Iface) (instanceId : UInt8) : Option Rpl :=
  iface.rpls.find? (·.instanceId == instanceId)

def dagLookupDodag (rpl : Rpl) (dodagid : In6Addr) : Option Dag :=
  rpl.dags.find? (·.dodagid == dodagid)

def dagLookup (iface : Iface) (instanceId : UInt8) (dodagid : In6Addr) : Option Dag :=
  match dagLookupRpl iface instanceId with
  | none => none
  | some rpl => dagLookupDodag rpl dodagid

/-- Stores through the pointer `dag_lookup` returns for the key. -/
def dagWrite (iface : Iface) (instanceId : UInt8) (dodagid : In6Addr) (change : Dag → Dag) : Iface :=
  { iface with
    rpls := updateFirst (·.instanceId == instanceId)
      (fun rpl => { rpl with dags := updateFirst (·.dodagid == dodagid) change rpl.dags })
      iface.rpls }

def dagLookupChild (dag : Dag) (addr : In6Addr) : Option Child :=
  dag.childs.find? (·.addr == addr)

/-- Only the list head of the dag is written, and only at its end. -/
def dagLookupChildOrCreate (allocated : Bool) (dag : Dag) (addr fromAddr : In6Addr) : Dag :=
  match dagLookupChild dag addr with
  | some _ => dag
  | none => if allocated then { dag with childs := dag.childs ++ [⟨addr, fromAddr⟩] } else dag

/-! Creation. -/

def dagPeerCreate (allocated : Bool) (addr : In6Addr) : Option Peer :=
  if allocated then some ⟨addr, 0xffff⟩ else none

def dagRplCreate (allocated : Bool) (instanceId : UInt8) : Option Rpl :=
  if allocated then some ⟨⟨instanceId⟩, []⟩ else none

def Dag.watcher (dag : Dag) : WatcherRef := ⟨dag.iface.ptr, dag.rpl.instanceId, dag.dodagid⟩

def dagInitTimer (dag : Dag) : List Effect :=
  [.evTimerInit dag.watcher dag.trickleT, .evTimerStart dag.watcher]

/-- The argument `trickle_t` is taken and not used. The pointers `dag_init` tests
are never null at its one call. -/
def dagInit (iface : IfaceHead) (rpl : RplHead) (dodagid : In6Addr) (_trickleT : EvTstamp)
    (myRank : UInt16) (version : UInt8) (dest : In6Prefix) : Dag where
  version := version
  dtsn := 0
  dsn := 0
  dodagid := dodagid
  dest := dest
  myRank := myRank
  parent := none
  self := .unspecified
  childs := []
  trickleT := defaultTickleT
  iface := iface
  rpl := rpl
  pendingAcks := []

/-- What `dag_create` leaves: the dag or `NULL`, the interface, the timer requests,
and the instance it freed, with whether the interface still links that instance. -/
structure DagCreated where
  dag : Option Dag
  iface : Iface
  effects : List Effect
  freed : Option (RplHead × Bool)

def dagAppend (iface : Iface) (instanceId : UInt8) (dag : Dag) : Iface :=
  { iface with
    rpls := updateFirst (·.instanceId == instanceId)
      (fun rpl => { rpl with dags := rpl.dags ++ [dag] }) iface.rpls }

def rplAppend (iface : Iface) (rpl : Rpl) : Iface := { iface with rpls := iface.rpls ++ [rpl] }

def dagCreate (env : Env) (iface : Iface) (instanceId : UInt8) (dodagid : In6Addr)
    (trickleT : EvTstamp) (myRank : UInt16) (version : UInt8) (dest : In6Prefix) : DagCreated :=
  match dagLookupRpl iface instanceId with
  | some rpl =>
      match dagLookupDodag rpl dodagid with
      | some _ => ⟨none, iface, [], some (rpl.toRplHead, true)⟩
      | none =>
          if env.dagAlloc then
            let dag := dagInit iface.toIfaceHead rpl.toRplHead dodagid trickleT myRank version dest
            ⟨some dag, dagAppend iface instanceId dag, dagInitTimer dag, none⟩
          else ⟨none, iface, [], some (rpl.toRplHead, true)⟩
  | none =>
      match dagRplCreate env.rplAlloc instanceId with
      | none => ⟨none, iface, [], none⟩
      | some rpl =>
          if env.dagAlloc then
            let dag := dagInit iface.toIfaceHead rpl.toRplHead dodagid trickleT myRank version dest
            ⟨some dag, dagAppend (rplAppend iface rpl) instanceId dag, dagInitTimer dag, none⟩
          else ⟨none, iface, [], some (rpl.toRplHead, false)⟩

/-- `dag_daoack_insert`: the new entry is zeroed memory, the argument is not stored. -/
def dagDaoackInsert (allocated : Bool) (dag : Dag) (_dsn : UInt8) : Dag :=
  if allocated then { dag with pendingAcks := dag.pendingAcks ++ [0] } else dag

def dagLookupDaoack (dag : Dag) (dsn : UInt8) : Option UInt8 := dag.pendingAcks.find? (· == dsn)

/-! Message layouts of `rpl.h`, all packed. -/

def ndRplMessage : UInt8 := 155
def ndRplDagIs : UInt8 := 0x00
def ndRplDagIo : UInt8 := 0x01
def ndRplDao : UInt8 := 0x02
def ndRplDaoAck : UInt8 := 0x03

def rplDaoRpltarget : UInt8 := 5
def rplDaoKMask : UInt8 := (1 : UInt8) <<< 7
def rplDaoDMask : UInt8 := (1 : UInt8) <<< 6
def ndRplDioGrounded : UInt8 := 0x80
def rplDioStoringNoMulticast : UInt8 := 0x2

def htons (value : UInt16) : List UInt8 :=
  [UInt8.ofNat (value.toNat / 256), UInt8.ofNat (value.toNat % 256)]

def ntohs (high low : UInt8) : UInt16 := UInt16.ofNat (high.toNat * 256 + low.toNat)

/-- `struct icmp6_hdr`, the first four bytes of it: type, code and checksum. -/
structure Icmp6Hdr where
  type : UInt8
  code : UInt8

def Icmp6Hdr.bytes (hdr : Icmp6Hdr) : List UInt8 := [hdr.type, hdr.code, 0, 0]

structure NdRplDio where
  rplInstanceid : UInt8
  rplVersion : UInt8
  rplDagrank : UInt16
  rplMopprf : UInt8
  rplDtsn : UInt8
  rplDagid : In6Addr

def NdRplDio.bytes (dio : NdRplDio) : List UInt8 :=
  [dio.rplInstanceid, dio.rplVersion] ++ htons dio.rplDagrank ++
    [dio.rplMopprf, dio.rplDtsn, 0, 0] ++ dio.rplDagid.s6Addr

structure RplDioDestPrefix where
  rplDioLen : UInt8
  rplDioPrefixlen : UInt8
  rplDioPrefix : In6Addr

/-- Type 3, no preference, an infinite lifetime. -/
def RplDioDestPrefix.bytes (diodp : RplDioDestPrefix) : List UInt8 :=
  [0x3, diodp.rplDioLen, diodp.rplDioPrefixlen, 0, 0xff, 0xff, 0xff, 0xff] ++
    diodp.rplDioPrefix.s6Addr

structure NdRplDaoack where
  rplInstanceid : UInt8
  rplFlags : UInt8
  rplDaoseq : UInt8
  rplStatus : UInt8
  rplDagid : In6Addr

def NdRplDaoack.bytes (daoack : NdRplDaoack) : List UInt8 :=
  [daoack.rplInstanceid, daoack.rplFlags, daoack.rplDaoseq, daoack.rplStatus] ++
    daoack.rplDagid.s6Addr

structure RplDaoTarget where
  rplDaoLen : UInt8
  rplDaoPrefixlen : UInt8
  rplDaoPrefix : In6Addr

def RplDaoTarget.bytes (target : RplDaoTarget) : List UInt8 :=
  [rplDaoRpltarget, target.rplDaoLen, 0, target.rplDaoPrefixlen] ++ target.rplDaoPrefix.s6Addr

/-! Builders. -/

def dagBuildIcmp (sb : SafeBuffer) (code : UInt8) : Except Fault SafeBuffer :=
  safeBufferAppend sb (Icmp6Hdr.mk ndRplMessage code).bytes 4

/-- The copied length is computed in a `uint8_t`. -/
def appendDestPrefix (dag : Dag) (sb : SafeBuffer) : Except Fault SafeBuffer :=
  let len : UInt8 := 8 + bitsToBytes dag.dest.len
  safeBufferAppend sb (RplDioDestPrefix.mk (len - 2) dag.dest.len dag.dest.pfx).bytes len.toNat

def dagBuildDio (dag : Dag) (sb : SafeBuffer) : Except Fault (Dag × SafeBuffer) := do
  let sb ← dagBuildIcmp sb ndRplDagIo
  let dio : NdRplDio :=
    { rplInstanceid := dag.rpl.instanceId
      rplVersion := dag.version
      rplDagrank := dag.myRank
      rplMopprf := ndRplDioGrounded ||| rplDioStoringNoMulticast <<< 3
      rplDtsn := dag.dtsn
      rplDagid := dag.dodagid }
  let sb ← safeBufferAppend sb dio.bytes 24
  let sb ← appendDestPrefix dag sb
  return ({ dag with dtsn := dag.dtsn + 1 }, sb)

def dagBuildDaoAck (dag : Dag) (sb : SafeBuffer) : Except Fault SafeBuffer := do
  let sb ← dagBuildIcmp sb ndRplDaoAck
  let dao : NdRplDaoack :=
    { rplInstanceid := dag.rpl.instanceId
      rplFlags := rplDaoKMask ||| rplDaoDMask
      rplDaoseq := dag.dsn
      rplStatus := 0
      rplDagid := dag.dodagid }
  safeBufferAppend sb dao.bytes 20

def appendTarget (dest : In6Prefix) (sb : SafeBuffer) : Except Fault SafeBuffer :=
  let len : UInt8 := 4 + bitsToBytes dest.len
  safeBufferAppend sb (RplDaoTarget.mk 18 dest.len dest.pfx).bytes len.toNat

def appendTargets : List Child → SafeBuffer → Except Fault SafeBuffer
  | [], sb => .ok sb
  | child :: rest, sb => do
      let sb ← appendTarget ⟨child.addr, 128⟩ sb
      appendTargets rest sb

/-- The base is a `struct nd_rpl_daoack` that is appended before its `rpl_daoseq`
is set, so the sequence number on the wire is 0. -/
def dagBuildDao (env : Env) (dag : Dag) (sb : SafeBuffer) : Except Fault (Dag × SafeBuffer) := do
  let sb ← dagBuildIcmp sb ndRplDao
  let daoack : NdRplDaoack :=
    { rplInstanceid := dag.rpl.instanceId
      rplFlags := rplDaoDMask
      rplDaoseq := 0
      rplStatus := 0
      rplDagid := dag.dodagid }
  let sb ← safeBufferAppend sb daoack.bytes 20
  let sb ← appendTarget ⟨dag.self, 128⟩ sb
  let sb ← appendTargets dag.childs sb
  let dag := dagDaoackInsert env.daoackAlloc dag dag.dsn
  return ({ dag with dsn := dag.dsn + 1 }, sb)

def dagBuildDis (sb : SafeBuffer) : Except Fault SafeBuffer := do
  let sb ← dagBuildIcmp sb ndRplDagIs
  safeBufferAppend sb [0, 0] 2

/-- Address configuration after an accepted DIO: the self address is only written
when all three steps succeed. -/
def dagProcessDio (env : Env) (dag : Dag) : Dag × List Effect :=
  match genStatelessAddr dag.dest dag.iface.llinfo with
  | none => (dag, [])
  | some addr =>
      let add := Effect.nlAddAddr dag.iface.ifindex addr
      let del := Effect.nlDelRouteVia dag.iface.ifindex dag.dest none
      if env.addAddr = .ok ∨ env.addAddr = .error eexist then
        if env.delRoute = .ok then ({ dag with self := addr }, [add, del]) else (dag, [add, del])
      else (dag, [add])

/-! Senders of `send.c`. The send buffer is assumed to be allocated: `safe_buffer_new`
and `safe_buffer_resize` use what `malloc` and `realloc` return without a test. -/

def reallySend (iface : IfaceHead) (dest : In6Addr) (sb : SafeBuffer) : Effect :=
  .sendmsg iface.ifindex iface.ifaddr dest sb.contents

def sendDio (env : Env) (dag : Dag) : Except Fault (Dag × Effect) := do
  let (dag, sb) ← dagBuildDio dag (safeBufferNew env.heap)
  return (dag, reallySend dag.iface allRplAddr sb)

def sendDao (env : Env) (dst : In6Addr) (dag : Dag) : Except Fault (Dag × Effect) := do
  let (dag, sb) ← dagBuildDao env dag (safeBufferNew env.heap)
  return (dag, reallySend dag.iface dst sb)

def sendDaoAck (env : Env) (dst : In6Addr) (dag : Dag) : Except Fault Effect := do
  let sb ← dagBuildDaoAck dag (safeBufferNew env.heap)
  return reallySend dag.iface dst sb

def sendDis (env : Env) (iface : Iface) : Except Fault Effect := do
  let sb ← dagBuildDis (safeBufferNew env.heap)
  return reallySend iface.toIfaceHead allRplAddr sb

end Rpld
