import Rpld.Lib.Memory
import Rpld.DagCore

/-!
The packet handlers of `process.c`. A handler sees the receive buffer and whatever
follows it as memory from the first byte of the ICMPv6 header on, and records the
offset of every byte it reads there. The four header bytes are `process`'s own, so a
message body starts at offset 4.
-/

namespace Rpld

open Memory

/-- One call of `process`: `len` bytes were received at `mem` from `src`. -/
structure Packet where
  mem : Nat → UInt8
  len : Nat
  src : In6Addr
  ifindex : UInt32

def Packet.bytes (pkt : Packet) : List UInt8 := slice pkt.mem 0 pkt.len

/-- What one handler leaves behind. `fault` is set when it did not return. -/
structure Outcome where
  iface : Iface
  effects : List Effect
  reads : List Nat
  fault : Option Fault

def addrAt (mem : Nat → UInt8) (offset : Nat) : In6Addr := ⟨slice mem offset 16, by simp⟩

def addrReads (offset : Nat) : List Nat := List.range' offset 16

def dropped (iface : Iface) (reads : List Nat) : Outcome := ⟨iface, [], reads, none⟩

def sizeofDio : Nat := 24
def sizeofDao : Nat := 20
def sizeofDaoack : Nat := 20
def sizeofOpt : Nat := 2

/-- `sizeof(*diodp) - 16`. -/
def sizeofDiodpHead : Nat := 8

def sizeofPrefix : Nat := 16

/-- `dag->parent`, made from the source of the DIO when there is none yet. -/
def dioParent (env : Env) (dag : Dag) (src : In6Addr) : Option Peer :=
  match dag.parent with
  | some parent => some parent
  | none => dagPeerCreate env.peerAlloc src

/-- `process_dio` once it has the dag: the parent is the source of the first DIO,
and only an accepted rank is stored, in the parent's record whatever the source. -/
def processDioRank (env : Env) (iface : Iface) (instanceId : UInt8) (dodagid : In6Addr) (dag : Dag)
    (rank : UInt16) (src : In6Addr) (effects : List Effect) (reads : List Nat) : Outcome :=
  let write := fun next => dagWrite iface instanceId dodagid fun _ => next
  match dioParent env dag src with
  | none => ⟨iface, effects, reads, none⟩
  | some parent =>
      if rank > parent.rank then
        ⟨write { dag with parent := some parent }, effects, reads, none⟩
      else
        let ranked := { dag with parent := some { parent with rank := rank }, myRank := rank + 1 }
        let configured := dagProcessDio env ranked
        match configured.1.parent with
        | none => ⟨write configured.1, effects ++ configured.2, reads, none⟩
        | some parent =>
            match sendDao env parent.addr configured.1 with
            | .error fault => ⟨write configured.1, effects ++ configured.2, reads, some fault⟩
            | .ok (sent, dao) => ⟨write sent, effects ++ configured.2 ++ [dao], reads, none⟩

/-- `process_dio`. Its local `pfx` has twenty bytes: the address, its length and padding. A copy
of more than sixteen ends the run here; what becomes of the length that 17 to 20 bytes overwrite
is left open. -/
def processDio (env : Env) (iface : Iface) (mem : Nat → UInt8) (len : Nat) (src : In6Addr) :
    Outcome :=
  if len < sizeofDio then dropped iface []
  else
    let instanceId := mem 4
    let dodagid := addrAt mem 12
    let rank := ntohs (mem 6) (mem 7)
    let keyReads := 4 :: addrReads 12
    match dagLookup iface instanceId dodagid with
    | some dag =>
        if dag.myRank = 1 then dropped iface keyReads
        else processDioRank env iface instanceId dodagid dag rank src [] (keyReads ++ [6, 7])
    | none =>
        if len - sizeofDio < sizeofDiodpHead then dropped iface keyReads
        else if mem 28 ≠ 0x3 then dropped iface (keyReads ++ [28])
        else if len - sizeofDio - sizeofDiodpHead < (bitsToBytes (mem 30)).toNat then
          dropped iface (keyReads ++ [28, 30])
        else
          let copied := (bitsToBytes (mem 30)).toNat
          let reads := keyReads ++ [28, 30] ++ List.range' 36 copied
          if exceeds : sizeofPrefix < copied then ⟨iface, [], reads, some .overrun⟩
          else
            let pfx : In6Prefix :=
              ⟨⟨slice mem 36 copied ++ env.stack.s6Addr.drop copied, by
                have size := env.stack.size
                simp only [List.length_append, slice_length, List.length_drop, size]
                simp only [sizeofPrefix] at exceeds
                omega⟩, mem 30⟩
            let created := dagCreate env iface instanceId dodagid defaultTickleT 0xffff (mem 5) pfx
            match created.dag with
            | none =>
                ⟨created.iface, created.effects, reads ++ [5],
                  match created.freed with
                  | some (_, true) => some .dangling
                  | _ => none⟩
            | some dag =>
                processDioRank env created.iface instanceId dodagid dag rank src created.effects
                  (reads ++ [5, 6, 7])

/-- The locals of the option loop of `process_dao`: `p` as an offset, `optlen`, the
dag it writes, and the offsets it has read. -/
structure DaoCursor where
  p : Nat
  optlen : Int
  dag : Dag
  reads : List Nat

/-- One turn of the loop body; `none` is the return on a short option. The target
case repeats the test for an option header and then reads a whole target. -/
def daoOption (env : Env) (mem : Nat → UInt8) (src : In6Addr) (cursor : DaoCursor) :
    Option DaoCursor :=
  if cursor.optlen < sizeofOpt then none
  else
    let advance := 2 + (mem (cursor.p + 1)).toNat
    if mem cursor.p = rplDaoRpltarget then
      if cursor.optlen < sizeofOpt then none
      else
        some
          { p := cursor.p + advance
            optlen := cursor.optlen - advance
            dag := dagLookupChildOrCreate (env.childAlloc cursor.p) cursor.dag
              (addrAt mem (cursor.p + 4)) src
            reads := cursor.reads ++ [cursor.p] ++ addrReads (cursor.p + 4) ++ [cursor.p + 1] }
    else
      some
        { cursor with
          p := cursor.p + advance
          optlen := cursor.optlen - advance
          reads := cursor.reads ++ [cursor.p, cursor.p + 1] }

/-- The loop `while (optlen > 0)`, with whether it ran to its end. A turn takes at
least two off `optlen`, so `optlen` turns are enough. -/
def daoOptions (env : Env) (mem : Nat → UInt8) (src : In6Addr) :
    Nat → DaoCursor → DaoCursor × Bool
  | 0, cursor => (cursor, true)
  | turns + 1, cursor =>
      if 0 < cursor.optlen then
        match daoOption env mem src cursor with
        | none => (cursor, false)
        | some next => daoOptions env mem src turns next
      else (cursor, true)

def childRoutes (dag : Dag) : List Effect :=
  dag.childs.map fun child => .nlAddRouteVia dag.iface.ifindex child.addr child.fromAddr

def processDao (env : Env) (iface : Iface) (mem : Nat → UInt8) (len : Nat) (src : In6Addr) :
    Outcome :=
  if len < sizeofDao then dropped iface []
  else
    let instanceId := mem 4
    let dodagid := addrAt mem 8
    let keyReads := 4 :: addrReads 8
    match dagLookup iface instanceId dodagid with
    | none => dropped iface keyReads
    | some dag =>
        let optlen := len - sizeofDao
        let walked := daoOptions env mem src optlen ⟨24, optlen, dag, keyReads⟩
        let written := dagWrite iface instanceId dodagid fun _ => walked.1.dag
        if walked.2 then
          match sendDaoAck env src walked.1.dag with
          | .error fault => ⟨written, childRoutes walked.1.dag, walked.1.reads, some fault⟩
          | .ok ack => ⟨written, childRoutes walked.1.dag ++ [ack], walked.1.reads, none⟩
        else ⟨written, [], walked.1.reads, none⟩

def processDaoack (iface : Iface) (mem : Nat → UInt8) (len : Nat) : Outcome :=
  if len < sizeofDaoack then dropped iface []
  else
    let keyReads := 4 :: addrReads 8
    match dagLookup iface (mem 4) (addrAt mem 8) with
    | none => dropped iface keyReads
    | some dag =>
        match dag.parent with
        | none => dropped iface keyReads
        | some parent => ⟨iface, [.nlAddRouteDefault dag.iface.ifindex parent.addr], keyReads, none⟩

/-- The inner loop of `process_dis`, and then the outer one. -/
def sendDioDags (env : Env) : List Dag → List Dag × List Effect × Option Fault
  | [] => ([], [], none)
  | dag :: rest =>
      match sendDio env dag with
      | .error fault => (dag :: rest, [], some fault)
      | .ok (sent, dio) =>
          let (others, effects, fault) := sendDioDags env rest
          (sent :: others, dio :: effects, fault)

def sendDioRpls (env : Env) : List Rpl → List Rpl × List Effect × Option Fault
  | [] => ([], [], none)
  | rpl :: rest =>
      match sendDioDags env rpl.dags with
      | (dags, effects, some fault) => ({ rpl with dags := dags } :: rest, effects, some fault)
      | (dags, effects, none) =>
          let (others, more, fault) := sendDioRpls env rest
          ({ rpl with dags := dags } :: others, effects ++ more, fault)

def processDis (env : Env) (iface : Iface) : Outcome :=
  let (rpls, effects, fault) := sendDioRpls env iface.rpls
  ⟨{ iface with rpls := rpls }, effects, [], fault⟩

/-- `process` once the interface is known: the type test and the switch on the code.
`len` no longer counts the four header bytes. -/
def processIface (env : Env) (iface : Iface) (mem : Nat → UInt8) (len : Nat) (src : In6Addr) :
    Outcome :=
  if mem 0 ≠ ndRplMessage then dropped iface [0]
  else
    let out :=
      if mem 1 = ndRplDagIs then processDis env iface
      else if mem 1 = ndRplDagIo then processDio env iface mem len src
      else if mem 1 = ndRplDao then processDao env iface mem len src
      else if mem 1 = ndRplDaoAck then processDaoack iface mem len
      else dropped iface []
    { out with reads := [0, 1] ++ out.reads }

def ifaceFindByIfindex (ifaces : List Iface) (ifindex : UInt32) : Option Iface :=
  ifaces.find? (·.ifindex == ifindex)

structure Processed where
  ifaces : List Iface
  effects : List Effect
  reads : List Nat
  fault : Option Fault

def process (env : Env) (ifaces : List Iface) (pkt : Packet) : Processed :=
  if pkt.len < 4 then ⟨ifaces, [], [], none⟩
  else
    match ifaceFindByIfindex ifaces pkt.ifindex with
    | none => ⟨ifaces, [], [], none⟩
    | some iface =>
        let out := processIface env iface pkt.mem (pkt.len - 4) pkt.src
        ⟨FirstMatch.updateFirst (·.ifindex == pkt.ifindex) (fun _ => out.iface) ifaces,
          out.effects, out.reads, out.fault⟩

end Rpld
