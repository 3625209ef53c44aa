import Rpld.ConfigCore
import Rpld.ProcessCore

/-!
Runs of the daemon: `rpld_setup` after `config_load`, then the callbacks of the event
loop in any order. A fault ends the run.
-/

namespace Rpld

open FirstMatch

structure Daemon where
  ifaces : List Iface
  log : List Effect
  fault : Option Fault

/-- The timer of every dag is set up again, and a root asks for its dodagid as an
address. The timers of the startup DIS are left out: they only allow `Event.dis`. -/
def rpldSetup (ifaces : List Iface) : List Effect :=
  ifaces.flatMap fun iface => iface.rpls.flatMap fun rpl => rpl.dags.flatMap fun dag =>
    dagInitTimer dag ++
      if iface.dodagRoot then [.nlAddAddr iface.ifindex dag.dodagid] else []

/-- The daemon as `main` enters the event loop. -/
def Daemon.boot (inetPton : List Char → Option In6Addr) (confs : List IfaceConf) :
    Except LoadError Daemon := do
  let (ifaces, effects) ← configLoad inetPton confs
  return ⟨ifaces, effects ++ rpldSetup ifaces, none⟩

/-- The callbacks: a received packet (`icmpv6_cb`), the expiry of a dag's timer
(`trickle_cb`) and that of an interface's startup timer (`send_dis_cb`). -/
inductive Event
  | packet (env : Env) (pkt : Packet)
  | trickle (env : Env) (watcher : WatcherRef)
  | dis (env : Env) (iface : Nat)

def ifaceFindByPtr (ifaces : List Iface) (ptr : Nat) : Option Iface :=
  ifaces.find? (·.ptr == ptr)

def Daemon.trickle (daemon : Daemon) (env : Env) (watcher : WatcherRef) : Daemon :=
  match ifaceFindByPtr daemon.ifaces watcher.iface with
  | none => daemon
  | some iface =>
      match dagLookup iface watcher.instanceId watcher.dodagid with
      | none => daemon
      | some dag =>
          match sendDio env dag with
          | .error fault => { daemon with fault := some fault }
          | .ok (sent, dio) =>
              { daemon with
                ifaces := updateFirst (·.ptr == watcher.iface)
                  (fun iface => dagWrite iface watcher.instanceId watcher.dodagid fun _ => sent)
                  daemon.ifaces
                log := daemon.log ++ [dio] }

def Daemon.dis (daemon : Daemon) (env : Env) (ptr : Nat) : Daemon :=
  match ifaceFindByPtr daemon.ifaces ptr with
  | none => daemon
  | some iface =>
      match sendDis env iface with
      | .error fault => { daemon with fault := some fault }
      | .ok dis => { daemon with log := daemon.log ++ [dis] }

def Daemon.packet (daemon : Daemon) (env : Env) (pkt : Packet) : Daemon :=
  let out := process env daemon.ifaces pkt
  ⟨out.ifaces, daemon.log ++ out.effects, out.fault⟩

def Daemon.step (daemon : Daemon) (event : Event) : Daemon :=
  match daemon.fault with
  | some _ => daemon
  | none =>
      match event with
      | .packet env pkt => daemon.packet env pkt
      | .trickle env watcher => daemon.trickle env watcher
      | .dis env ptr => daemon.dis env ptr

def Daemon.run (daemon : Daemon) (events : List Event) : Daemon := events.foldl Daemon.step daemon

end Rpld
