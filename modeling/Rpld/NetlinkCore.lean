import Rpld.Lib.Mailbox
import Rpld.DaemonCore

/-!
`netlink.c`. A request function fills in a message, sends it over the one netlink socket and
takes a reply out of it. The kernel makes one reply to each request, in whatever way it likes;
`mnl_cb_run`, which makes a result out of a reply, is given. A message is what the code writes
into its headers and hands to `mnl_attr_put`: libmnl clears the rest of a header.
-/

namespace Rpld

open Mailbox

def rtmGetlink : UInt16 := 18
def rtmNewaddr : UInt16 := 20
def rtmNewroute : UInt16 := 24
def rtmDelroute : UInt16 := 25

def nlmFRequest : UInt16 := 0x1
def nlmFAck : UInt16 := 0x4
def nlmFCreate : UInt16 := 0x400

def afUnspec : UInt8 := 0
def afInet6 : UInt8 := 10
def ifaFPermanent : UInt8 := 0x80
def rtScopeUniverse : UInt8 := 0
def rtprotStatic : UInt8 := 4
def rtTableMain : UInt8 := 254
def rtnUnicast : UInt8 := 1

def ifaAddress : UInt16 := 1
def rtaDst : UInt16 := 1
def rtaOif : UInt16 := 4
def rtaGateway : UInt16 := 5

/-- `struct rtmsg`, zeroed where the code does not write it. -/
structure Rtmsg where
  rtmFamily : UInt8
  rtmDstLen : UInt8
  rtmSrcLen : UInt8
  rtmTos : UInt8
  rtmTable : UInt8
  rtmProtocol : UInt8
  rtmScope : UInt8
  rtmType : UInt8
  rtmFlags : UInt32
deriving DecidableEq

/-- The header behind that of the message, one for each kind of request. -/
inductive ExtraHeader
  | ifinfomsg (ifiFamily : UInt8) (ifiIndex : UInt32)
  | ifaddrmsg (ifaFamily ifaPrefixlen ifaFlags ifaScope : UInt8) (ifaIndex : UInt32)
  | rtmsg (rtm : Rtmsg)
deriving DecidableEq

inductive Nlattr
  | addr (nlaType : UInt16) (value : In6Addr)
  | u32 (nlaType : UInt16) (value : UInt32)
deriving DecidableEq

structure Nlmsg where
  nlmsgType : UInt16
  nlmsgFlags : UInt16
  nlmsgSeq : UInt32
  extra : ExtraHeader
  attrs : List Nlattr
deriving DecidableEq

def getlinkMsg (seq ifindex : UInt32) : Nlmsg :=
  ⟨rtmGetlink, nlmFRequest, seq, .ifinfomsg afUnspec ifindex, []⟩

def newaddrMsg (seq ifindex : UInt32) (addr : In6Addr) : Nlmsg :=
  ⟨rtmNewaddr, nlmFRequest ||| nlmFCreate ||| nlmFAck, seq,
    .ifaddrmsg afInet6 64 ifaFPermanent rtScopeUniverse ifindex, [.addr ifaAddress addr]⟩

/-- A route to a host has all 128 bits of its destination, the default route none and no
destination attribute either. -/
def newrouteMsg (seq ifindex : UInt32) (dst : Option In6Addr) (via : In6Addr) : Nlmsg :=
  ⟨rtmNewroute, nlmFRequest ||| nlmFCreate ||| nlmFAck, seq,
    .rtmsg ⟨afInet6, if dst.isSome then 128 else 0, 0, 0, rtTableMain, rtprotStatic, rtScopeUniverse, rtnUnicast, 0⟩,
    (dst.map (.addr rtaDst)).toList ++ [.addr rtaGateway via, .u32 rtaOif ifindex]⟩

def delrouteMsg (seq ifindex : UInt32) (dst : In6Prefix) (via : Option In6Addr) : Nlmsg :=
  ⟨rtmDelroute, nlmFRequest ||| nlmFAck, seq, .rtmsg ⟨afInet6, dst.len, 0, 0, rtTableMain, 0, 0, 0, 0⟩,
    .addr rtaDst dst.pfx :: (via.map (.addr rtaGateway)).toList ++ [.u32 rtaOif ifindex]⟩

/-- What the system does for one request: the time it is made at, whether `mnl_socket_sendto` and
`mnl_socket_recvfrom` fail, and whether a receive that fails has used the reply up (one that is
too long for the buffer) or left it where it is (the call was interrupted). -/
structure NlOutcome where
  time : UInt32
  sendto : NlResult
  recvfrom : NlResult
  usedUp : Bool

def NlOutcome.call (outcome : NlOutcome) (msg : Nlmsg) : Call Nlmsg :=
  ⟨msg, outcome.sendto = .ok, outcome.recvfrom = .ok ∨ outcome.usedUp⟩

section

variable {ρ : Type} (kernel : List Nlmsg → Nlmsg → ρ) (mnlCbRun : ρ → UInt32 → NlResult)

/-- The part that all request functions share, once the message is made. There is a reply to
receive: the one to the message, if no other waits. -/
def nlTalk (sock : Box Nlmsg ρ) (outcome : NlOutcome) (msg : Nlmsg) : Box Nlmsg ρ × NlResult :=
  let (sock, reply) := sock.call kernel (outcome.call msg)
  match outcome.sendto, outcome.recvfrom with
  | .error errno, _ => (sock, .error errno)
  | .ok, .error errno => (sock, .error errno)
  | .ok, .ok => (sock, (reply.map fun reply => mnlCbRun reply msg.nlmsgSeq).getD .ok)

/-- The result is not looked at by `config_load`. -/
def nlGetLlinfo (sock : Box Nlmsg ρ) (outcome : NlOutcome) (ifindex : UInt32) : Box Nlmsg ρ × NlResult :=
  nlTalk kernel mnlCbRun sock outcome (getlinkMsg outcome.time ifindex)

def nlAddAddr (sock : Box Nlmsg ρ) (outcome : NlOutcome) (ifindex : UInt32) (addr : In6Addr) :
    Box Nlmsg ρ × NlResult :=
  nlTalk kernel mnlCbRun sock outcome (newaddrMsg outcome.time ifindex addr)

def nlAddRouteVia (sock : Box Nlmsg ρ) (outcome : NlOutcome) (ifindex : UInt32) (dst via : In6Addr) :
    Box Nlmsg ρ × NlResult :=
  nlTalk kernel mnlCbRun sock outcome (newrouteMsg outcome.time ifindex (some dst) via)

def nlAddRouteDefault (sock : Box Nlmsg ρ) (outcome : NlOutcome) (ifindex : UInt32) (dst : In6Addr) :
    Box Nlmsg ρ × NlResult :=
  nlTalk kernel mnlCbRun sock outcome (newrouteMsg outcome.time ifindex none dst)

def nlDelRouteVia (sock : Box Nlmsg ρ) (outcome : NlOutcome) (ifindex : UInt32) (dst : In6Prefix)
    (via : Option In6Addr) : Box Nlmsg ρ × NlResult :=
  nlTalk kernel mnlCbRun sock outcome (delrouteMsg outcome.time ifindex dst via)

/-- A netlink request of a handler, made over the socket. The other effects leave it alone. -/
def talkOne (sock : Box Nlmsg ρ) (outcome : NlOutcome) : Effect → Box Nlmsg ρ × Option NlResult
  | .nlAddAddr ifindex addr => (nlAddAddr kernel mnlCbRun sock outcome ifindex addr).map id some
  | .nlAddRouteVia ifindex dst via => (nlAddRouteVia kernel mnlCbRun sock outcome ifindex dst via).map id some
  | .nlAddRouteDefault ifindex via => (nlAddRouteDefault kernel mnlCbRun sock outcome ifindex via).map id some
  | .nlDelRouteVia ifindex dst via => (nlDelRouteVia kernel mnlCbRun sock outcome ifindex dst via).map id some
  | _ => (sock, none)

/-- The requests among the effects of one step, in their order, with what they returned. -/
def talkAll (sock : Box Nlmsg ρ) (outcome : Nat → NlOutcome) : List Effect → Box Nlmsg ρ × List (Effect × NlResult)
  | [] => (sock, [])
  | effect :: rest =>
      let (sock, returned) := talkOne kernel mnlCbRun sock (outcome 0) effect
      let (sock, others) := talkAll sock (fun index => outcome (index + 1)) rest
      (sock, (returned.map fun result => (effect, result)).toList ++ others)

end

/-- What a handler was told by its requests is what they returned. Only the results of
`nl_add_addr` and `nl_del_route_via` are looked at. -/
def Env.Heeds (env : Env) (returned : List (Effect × NlResult)) : Prop :=
  ∀ effect result, (effect, result) ∈ returned →
    match effect with
    | .nlAddAddr _ _ => env.addAddr = result
    | .nlDelRouteVia _ _ _ => env.delRoute = result
    | _ => True

end Rpld
