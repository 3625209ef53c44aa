import Rpld.DestLength
import Rpld.Relay
import Rpld.Dodag

/-!
Several interfaces that run the daemon and hear each other, for one key. A step is a party
sending the DIO of its dag or `process` handling, at one party, any frame that was ever
sent. Every run of this network is a run of the protocol in `Dodag`: each frame is the
encoding of a message, and each party's dag is the node it has there.
-/

namespace Rpld

open Memory Dodag Relation

structure Key where
  instanceId : UInt8
  dodagid : In6Addr

def Iface.lookup (iface : Iface) (key : Key) : Option Dag := dagLookup iface key.instanceId key.dodagid

structure Frame where
  src : In6Addr
  dst : In6Addr
  bytes : List UInt8
deriving DecidableEq

def frames (effects : List Effect) : List Frame :=
  effects.filterMap fun effect =>
    match effect with
    | .sendmsg _ src dst bytes => some ⟨src, dst, bytes⟩
    | _ => none

/-- The interfaces, every frame that was sent, what each party asked of its kernel, and
whether its daemon has ended. -/
structure Net (ι : Type) where
  iface : ι → Iface
  sent : List Frame
  log : ι → List Effect
  fault : ι → Option Fault

/-- A timer expiry or the answer to a DIS at a party, or the arrival of a frame, with what
lies behind it in the receive buffer. -/
inductive Act (ι : Type)
  | emit (party : ι) (env : Env)
  | deliver (party : ι) (frame : Frame) (env : Env) (rest : Nat → UInt8)

section

variable {ι : Type} [DecidableEq ι]

def Net.settle (net : Net ι) (party : ι) (iface : Iface) (effects : List Effect) (fault : Option Fault) :
    Net ι where
  iface := Function.update net.iface party iface
  sent := net.sent ++ frames effects
  log := Function.update net.log party (net.log party ++ effects)
  fault := Function.update net.fault party fault

def Net.handle (net : Net ι) (party : ι) (frame : Frame) (env : Env) (rest : Nat → UInt8) : Processed :=
  process env [net.iface party]
    ⟨overlay frame.bytes rest, frame.bytes.length, frame.src, (net.iface party).ifindex⟩

def Net.act (key : Key) (net : Net ι) : Act ι → Net ι
  | .emit party env =>
      match (net.iface party).lookup key with
      | none => net
      | some dag =>
          match sendDio env dag with
          | .error fault => net.settle party (net.iface party) [] (some fault)
          | .ok (sent, dio) =>
              net.settle party (dagWrite (net.iface party) key.instanceId key.dodagid fun _ => sent) [dio] none
  | .deliver party frame env rest =>
      let out := net.handle party frame env rest
      net.settle party ((ifaceFindByIfindex out.ifaces (net.iface party).ifindex).getD (net.iface party))
        out.effects out.fault

/-- A party whose daemon runs sends when it holds the dag, and hears frames that are sent
to all parties or to it. -/
def Net.Enabled (key : Key) (net : Net ι) : Act ι → Prop
  | .emit party _ => net.fault party = none ∧ ((net.iface party).lookup key).isSome
  | .deliver party frame env _ => net.fault party = none ∧ frame ∈ net.sent ∧ env.AllocsSucceed ∧
      (frame.dst = allRplAddr ∨ frame.dst = (net.iface party).ifaddr)

/-- Distinct link-local addresses; the roots hold the dag as configured, with a valid
prefix length, and the other parties do not hold it; nothing was sent. -/
structure Net.Initial (key : Key) (root : ι → Prop) (net : Net ι) : Prop where
  addresses : ∀ first second, (net.iface first).ifaddr = (net.iface second).ifaddr → first = second
  linkLocal : ∀ party, (net.iface party).ifaddr.isLinkLocal = true
  refs : ∀ party, (net.iface party).BackRefs
  roots : ∀ party, root party →
    ∃ dag, (net.iface party).lookup key = some dag ∧ dag.Configured ∧ dag.dest.len.toNat ≤ 128
  others : ∀ party, ¬ root party → (net.iface party).lookup key = none
  sent : net.sent = []

theorem act_deliver {key : Key} {net : Net ι} {party : ι} {frame : Frame} {env : Env} {rest : Nat → UInt8}
    (long : 4 ≤ frame.bytes.length) :
    let out := processIface env (net.iface party) (overlay frame.bytes rest) (frame.bytes.length - 4) frame.src
    net.act key (.deliver party frame env rest) = net.settle party out.iface out.effects out.fault ∧
      (net.handle party frame env rest).effects = out.effects := by
  intro out
  have known : ifaceFindByIfindex [net.iface party] (net.iface party).ifindex = some (net.iface party) := by
    simp [ifaceFindByIfindex]
  have found := @process_ifaceFind env [net.iface party]
    ⟨overlay frame.bytes rest, frame.bytes.length, frame.src, (net.iface party).ifindex⟩ _ long known
  have handled := @process_of_find env [net.iface party]
    ⟨overlay frame.bytes rest, frame.bytes.length, frame.src, (net.iface party).ifindex⟩ _ long known
  have effects : (net.handle party frame env rest).effects = out.effects := by
    rw [Net.handle, handled]
  have fault : (net.handle party frame env rest).fault = out.fault := by
    rw [Net.handle, handled]
  constructor
  · simp only [Net.act, effects, fault]
    rw [Net.handle, found, Option.getD_some]
  · exact effects

end

/-! Messages as frames, and dags as nodes. -/

section

variable {ι : Type} (head : ι → IfaceHead) (key : Key)

inductive Encodes : Frame → Msg ι In6Addr → Prop
  | dio {sender : ι} {dag : Dag} (instanceId : dag.rpl.instanceId = key.instanceId)
      (dodagid : dag.dodagid = key.dodagid) (valid : dag.dest.len.toNat ≤ 128) :
      Encodes ⟨(head sender).ifaddr, allRplAddr, dag.dioBytes⟩ (.dio sender dag.myRank.toNat)
  | dao {sender receiver : ι} {dag : Dag} (instanceId : dag.rpl.instanceId = key.instanceId)
      (dodagid : dag.dodagid = key.dodagid) :
      Encodes ⟨(head sender).ifaddr, (head receiver).ifaddr, dag.daoBytes⟩
        (.dao sender receiver dag.daoTargets)
  | ack {sender receiver : ι} {dag : Dag} (instanceId : dag.rpl.instanceId = key.instanceId)
      (dodagid : dag.dodagid = key.dodagid) :
      Encodes ⟨(head sender).ifaddr, (head receiver).ifaddr, dag.daoAckBytes⟩ (.ack sender receiver)

def childEntry (entry : In6Addr × ι) : Child := ⟨entry.1, (head entry.2).ifaddr⟩

def peerRecord (above : ι × Nat) : Peer := ⟨(head above.1).ifaddr, UInt16.ofNat above.2⟩

structure Shows (dag : Dag) (node : Node ι In6Addr) : Prop where
  rank : node.rank = dag.myRank.toNat
  parent : dag.parent = node.parent.map (peerRecord head)
  recorded : ∀ above, node.parent = some above → above.2 < 65536
  self : node.self = dag.self
  childs : dag.childs = node.childs.map (childEntry head)

/-- The dag of a party and its node. Only a root has no parent; and a self address is the
one its prefix gives, or one that does not count. -/
structure Held (counts : In6Addr → Prop) (party : ι) (dag : Dag) (node : Node ι In6Addr) : Prop
    extends Shows head dag node where
  valid : dag.dest.len.toNat ≤ 128
  top : dag.parent = none → dag.myRank = 1
  settled : dag.parent ≠ none → ∀ addr, genStatelessAddr dag.dest (head party).llinfo = some addr →
    dag.self = addr ∨ ¬ counts dag.self

structure Related (counts : In6Addr → Prop) (net : Net ι) (state : State ι In6Addr) : Prop where
  heads : ∀ party, (net.iface party).toIfaceHead = head party
  refs : ∀ party, (net.iface party).BackRefs
  missing : ∀ party, (net.iface party).lookup key = none → state.node party = none
  held : ∀ party dag, (net.iface party).lookup key = some dag →
    ∃ node, state.node party = some node ∧ Held head counts party dag node
  sent : ∀ frame ∈ net.sent, ∃ msg ∈ state.sent, Encodes head key frame msg
  routes : ∀ party, ∀ entry ∈ state.routes party,
    Effect.nlAddRouteVia (head party).ifindex entry.1 (head entry.2).ifaddr ∈ net.log party

end

end Rpld
