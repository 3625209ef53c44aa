import Rpld.Receive

/-!
`main` from the end of its option loop on, with `log.c`, `netlink_open` and `socket.c`, as the
list of the calls it makes. What the system answers is given; a failed call carries `false`.
The log lines of the handlers are left out: they are written while the event loop runs.
-/

namespace Rpld

/-- The options that `open_icmpv6_socket` sets, in its order. -/
inductive SockOption
  | recvpktinfo
  | checksum
  | unicastHops
  | multicastHops
  | multicastLoop
  | recvhoplimit
deriving DecidableEq

def SockOption.value : SockOption → Nat
  | .recvpktinfo => 1
  | .checksum => 2
  | .unicastHops => 255
  | .multicastHops => 1
  | .multicastLoop => 0
  | .recvhoplimit => 1

def sockOptions : List SockOption :=
  [.recvpktinfo, .checksum, .unicastHops, .multicastHops, .multicastLoop, .recvhoplimit]

inductive LogMethod
  | none
  | syslog
  | stderr
  | stderrSyslog
  | logfile
  | stderrClean
  | unspec
deriving DecidableEq

inductive SysCall
  | logOpen (method : LogMethod) (ok : Bool)
  | flog
  | logClose
  | mnlSocketOpen (ok : Bool)
  | mnlSocketBind (ok : Bool)
  | mnlSocketClose
  | configLoad (ok : Bool)
  | made (effect : Effect)
  | setVar (ok : Bool)
  | socket (ok : Bool)
  | setsockopt (option : SockOption) (value : Nat) (ok : Bool)
  | addMembership (ifindex : UInt32) (ok : Bool)
  | dropMembership (ifindex : UInt32) (ok : Bool)
  | close
  | configFree

/-- What the system answers. The memberships are asked for by interface. -/
structure Os where
  fopen : Bool
  mnlSocketOpen : Bool
  mnlSocketBind : Bool
  setVar : Bool
  socket : Bool
  setsockopt : SockOption → Bool
  addMembership : Nat → Bool
  dropMembership : Nat → Bool

/-- The calls of a function and whether it succeeded. -/
structure Called where
  calls : List SysCall
  ok : Bool

/-- `log_open` fails only where it cannot open a log file. -/
def logOpen (os : Os) (method : LogMethod) : Bool := method ≠ .logfile || os.fopen

def netlinkOpen (os : Os) : Called :=
  if os.mnlSocketOpen then
    if os.mnlSocketBind then ⟨[.mnlSocketOpen true, .mnlSocketBind true], true⟩
    else ⟨[.mnlSocketOpen true, .mnlSocketBind false, .mnlSocketClose], false⟩
  else ⟨[.mnlSocketOpen false], false⟩

/-- The loop stops at the first interface for which the system refuses. -/
def rplMulticastHandler (optname : UInt32 → Bool → SysCall) (answer : Nat → Bool) : List Iface → Called
  | [] => ⟨[], true⟩
  | iface :: rest =>
      if answer iface.ptr then
        let later := rplMulticastHandler optname answer rest
        ⟨optname iface.ifindex true :: .flog :: later.calls, later.ok⟩
      else ⟨[optname iface.ifindex false], false⟩

def subscribeRplMulticast (os : Os) (ifaces : List Iface) : Called :=
  rplMulticastHandler .addMembership os.addMembership ifaces

def unsubscribeRplMulticast (os : Os) (ifaces : List Iface) : Called :=
  rplMulticastHandler .dropMembership os.dropMembership ifaces

/-- The run of `setsockopt` calls of `open_icmpv6_socket`, up to the first that fails. -/
def setOptions (os : Os) : List SockOption → Called
  | [] => ⟨[], true⟩
  | option :: rest =>
      if os.setsockopt option then
        let later := setOptions os rest
        ⟨.setsockopt option option.value true :: later.calls, later.ok⟩
      else ⟨[.setsockopt option option.value false], false⟩

/-- The filter that is made at its end is not installed. -/
def openIcmpv6Socket (os : Os) (ifaces : List Iface) : Called :=
  if os.socket then
    let set := setOptions os sockOptions
    if set.ok then
      let joined := subscribeRplMulticast os ifaces
      if joined.ok then ⟨.socket true :: (set.calls ++ joined.calls), true⟩
      else ⟨.socket true :: (set.calls ++ (joined.calls ++ [.flog, .close])), false⟩
    else ⟨.socket true :: (set.calls ++ [.flog, .close]), false⟩
  else ⟨[.socket false, .flog], false⟩

def closeIcmpv6Socket (os : Os) (ifaces : List Iface) : List SysCall :=
  (unsubscribeRplMulticast os ifaces).calls ++ [.close]

/-- How `main` ends: with a status, inside a handler, or undefined while it loads. -/
inductive Ending
  | status (code : Int)
  | handler (fault : Fault)
  | undefined
deriving DecidableEq

structure Ran where
  calls : List SysCall
  ending : Ending

/-- `main` once the configuration is loaded. `config_free` is one call, which returns here,
though it reads freed memory on any list that is not empty. -/
def mainLoaded (os : Os) (daemon : Daemon) (wakeups : List Wakeup) : Ran :=
  let setup := daemon.log.map SysCall.made
  if os.setVar then
    let opened := openIcmpv6Socket os daemon.ifaces
    if opened.ok then
      let final := wakeups.foldl Daemon.wake daemon
      let served := (final.log.drop daemon.log.length).map SysCall.made
      match final.fault with
      | some fault => ⟨setup ++ .setVar true :: (opened.calls ++ served), .handler fault⟩
      | none =>
          ⟨setup ++ .setVar true :: (opened.calls ++ (served ++ .mnlSocketClose ::
            (closeIcmpv6Socket os daemon.ifaces ++ [.configFree, .logClose, .flog]))), .status 0⟩
    else ⟨setup ++ .setVar true :: (opened.calls ++ [.mnlSocketClose, .configFree]), .status 1⟩
  else ⟨setup ++ [.setVar false, .flog], .status (-1)⟩

def main (os : Os) (method : LogMethod) (inetPton : List Char → Option In6Addr) (confs : List IfaceConf)
    (wakeups : List Wakeup) : Ran :=
  let method := if method = .unspec then .stderr else method
  if logOpen os method then
    let connected := netlinkOpen os
    if connected.ok then
      match Daemon.boot inetPton confs with
      | .ok daemon =>
          let ran := mainLoaded os daemon wakeups
          ⟨.logOpen method true :: .flog :: (connected.calls ++ .configLoad true :: ran.calls), ran.ending⟩
      | .error .rejected =>
          ⟨.logOpen method true :: .flog ::
            (connected.calls ++ [.configLoad false, .mnlSocketClose, .flog]), .status 1⟩
      | .error .undefined =>
          ⟨.logOpen method true :: .flog :: (connected.calls ++ [.configLoad false]), .undefined⟩
    else ⟨.logOpen method true :: .flog :: connected.calls, .status 1⟩
  else ⟨[.logOpen method false], .status 1⟩

end Rpld
