import Rpld.LifecycleCore
import Rpld.StartupDis

/-!
The order in which `main` uses what it opens. A session says what is open, and which calls may
be made then: netlink requests while the netlink socket is open, messages on interfaces that
have joined the group over a socket with all its options, log lines while the log file is open.
-/

namespace Rpld

structure Session where
  method : LogMethod
  logFile : Bool
  netlink : Bool
  sock : Bool
  options : List SockOption
  joined : List UInt32

def Session.fresh : Session := ⟨.none, false, false, false, [], []⟩

def Session.admits (session : Session) : Effect → Bool
  | .sendmsg ifindex _ _ _ =>
      session.sock && sockOptions.all (· ∈ session.options) && decide (ifindex ∈ session.joined)
  | .evTimerInit _ _ => true
  | .evTimerStart _ => true
  | _ => session.netlink

/-- The session after a call, or `none` where the call may not be made. -/
def Session.step (session : Session) : SysCall → Option Session
  | .logOpen method ok => some { session with method := method, logFile := ok && method == .logfile }
  | .flog => if session.method = .logfile ∧ session.logFile = false then none else some session
  | .logClose =>
      match session.method with
      | .logfile => if session.logFile then some { session with logFile := false } else none
      | .stderrClean => some { session with method := .none }
      | _ => some session
  | .mnlSocketOpen ok => if session.netlink then none else some { session with netlink := ok }
  | .mnlSocketBind _ => if session.netlink then some session else none
  | .mnlSocketClose => if session.netlink then some { session with netlink := false } else none
  | .configLoad _ => if session.netlink then some session else none
  | .made effect => if session.admits effect then some session else none
  | .setVar _ => some session
  | .socket ok => if session.sock then none else some { session with sock := ok }
  | .setsockopt option _ ok =>
      if session.sock then
        some (if ok then { session with options := session.options ++ [option] } else session)
      else none
  | .addMembership ifindex ok =>
      if session.sock then some (if ok then { session with joined := session.joined ++ [ifindex] } else session)
      else none
  | .dropMembership ifindex ok =>
      if session.sock ∧ ifindex ∈ session.joined then
        some (if ok then { session with joined := session.joined.erase ifindex } else session)
      else none
  | .close => if session.sock then some { session with sock := false, options := [], joined := [] } else none
  | .configFree => some session

def Session.run (session : Session) (calls : List SysCall) : Option Session := calls.foldlM Session.step session

theorem Session.run_cons (session : Session) (call : SysCall) (rest : List SysCall) :
    session.run (call :: rest) = (session.step call).bind fun next => next.run rest := List.foldlM_cons

theorem Session.run_append (session : Session) (first second : List SysCall) :
    session.run (first ++ second) = (session.run first).bind fun next => next.run second := List.foldlM_append

/-- The log can be written to. -/
def Session.Logs (session : Session) : Prop := session.method = .logfile → session.logFile = true

section

variable {session : Session}

theorem Session.flog_step (logs : session.Logs) : session.step .flog = some session := by
  simp only [Session.step]
  split
  · rename_i closed
    simp [logs closed.1] at closed
  · rfl

theorem Session.run_flog (logs : session.Logs) (rest : List SysCall) :
    session.run (.flog :: rest) = session.run rest := by
  rw [Session.run_cons, Session.flog_step logs, Option.bind_some]

theorem Session.run_made {effects : List Effect} (admitted : ∀ effect ∈ effects, session.admits effect = true)
    (rest : List SysCall) : session.run (effects.map SysCall.made ++ rest) = session.run rest := by
  induction effects with
  | nil => rfl
  | cons effect more ih =>
      rw [List.forall_mem_cons] at admitted
      rw [List.map_cons, List.cons_append, Session.run_cons, Session.step, if_pos admitted.1, Option.bind_some]
      exact ih admitted.2

/-! The socket. -/

/-- The session with an open socket. -/
def Session.opened (session : Session) (options : List SockOption) (joined : List UInt32) : Session :=
  { session with sock := true, options := options, joined := joined }

/-- The session without its netlink socket. -/
def Session.disconnected (session : Session) : Session := { session with netlink := false }

/-- The session without a socket. -/
def Session.shut (session : Session) : Session := { session with sock := false, options := [], joined := [] }

variable {options : List SockOption} {joined : List UInt32}

theorem Session.opened_logs (logs : session.Logs) : (session.opened options joined).Logs := logs

theorem Session.setsockopt_step (option : SockOption) (value : Nat) (ok : Bool) :
    (session.opened options joined).step (.setsockopt option value ok) =
      some (session.opened (if ok then options ++ [option] else options) joined) := by
  cases ok <;> rfl

theorem Session.addMembership_step (ifindex : UInt32) (ok : Bool) :
    (session.opened options joined).step (.addMembership ifindex ok) =
      some (session.opened options (if ok then joined ++ [ifindex] else joined)) := by
  cases ok <;> rfl

theorem Session.dropMembership_step {ifindex : UInt32} (member : ifindex ∈ joined) (ok : Bool) :
    (session.opened options joined).step (.dropMembership ifindex ok) =
      some (session.opened options (if ok then joined.erase ifindex else joined)) := by
  simp only [Session.step]
  rw [if_pos ⟨rfl, member⟩]
  cases ok <;> rfl

theorem Session.run_setOptions (os : Os) (more : List SockOption) :
    ∃ set, (session.opened options joined).run (setOptions os more).calls = some (session.opened set joined) ∧
      ((setOptions os more).ok = true → set = options ++ more) := by
  induction more generalizing options with
  | nil => exact ⟨options, rfl, by simp⟩
  | cons option rest ih =>
      by_cases granted : os.setsockopt option
      · obtain ⟨set, run, all⟩ := @ih (options ++ [option])
        simp only [setOptions, granted, if_true]
        refine ⟨set, ?_, ?_⟩
        · rw [Session.run_cons, Session.setsockopt_step]
          exact run
        · intro ok
          rw [all ok, List.append_assoc]
          rfl
      · simp only [setOptions, granted]
        refine ⟨options, ?_, by simp⟩
        rw [if_neg (by simp), Session.run_cons, Session.setsockopt_step]
        rfl

theorem Session.run_subscribe (os : Os) (logs : session.Logs) (ifaces : List Iface) :
    ∃ all, (session.opened options joined).run (subscribeRplMulticast os ifaces).calls = some (session.opened options all) ∧
      ((subscribeRplMulticast os ifaces).ok = true → all = joined ++ ifaces.map (·.ifindex)) := by
  induction ifaces generalizing joined with
  | nil => exact ⟨joined, rfl, by simp⟩
  | cons iface rest ih =>
      by_cases granted : os.addMembership iface.ptr
      · obtain ⟨all, run, every⟩ := @ih (joined ++ [iface.ifindex])
        simp only [subscribeRplMulticast, rplMulticastHandler, granted, if_true]
        refine ⟨all, ?_, ?_⟩
        · rw [Session.run_cons, Session.addMembership_step, Option.bind_some, if_pos rfl,
            Session.run_flog (Session.opened_logs logs)]
          exact run
        · intro ok
          rw [every ok, List.append_assoc]
          rfl
      · simp only [subscribeRplMulticast, rplMulticastHandler, granted]
        refine ⟨joined, ?_, by simp⟩
        rw [if_neg (by simp), Session.run_cons, Session.addMembership_step]
        rfl

theorem Session.run_unsubscribe (os : Os) (logs : session.Logs) (ifaces : List Iface) :
    ∃ left, (session.opened options (ifaces.map (·.ifindex))).run (unsubscribeRplMulticast os ifaces).calls =
      some (session.opened options left) := by
  induction ifaces with
  | nil => exact ⟨[], rfl⟩
  | cons iface rest ih =>
      have dropped := @Session.dropMembership_step session options ((iface :: rest).map (·.ifindex)) iface.ifindex
        (by simp)
      by_cases granted : os.dropMembership iface.ptr
      · obtain ⟨left, run⟩ := ih
        simp only [unsubscribeRplMulticast, rplMulticastHandler, granted, if_true]
        refine ⟨left, ?_⟩
        rw [Session.run_cons, dropped, Option.bind_some, if_pos rfl, Session.run_flog (Session.opened_logs logs),
          List.map_cons, List.erase_cons_head]
        exact run
      · simp only [unsubscribeRplMulticast, rplMulticastHandler, granted]
        refine ⟨(iface :: rest).map (·.ifindex), ?_⟩
        rw [if_neg (by simp), Session.run_cons, dropped]
        rfl

/-- `open_icmpv6_socket` leaves a socket with all options that has joined on all interfaces,
or none. -/
theorem Session.run_open (os : Os) (logs : session.Logs) (ifaces : List Iface) (rest : List SysCall) :
    session.shut.run ((openIcmpv6Socket os ifaces).calls ++ rest) =
      (if (openIcmpv6Socket os ifaces).ok then session.opened sockOptions (ifaces.map (·.ifindex))
        else session.shut).run rest := by
  have ends (options : List SockOption) (joined : List UInt32) :
      (session.opened options joined).run ([.flog, .close] ++ rest) = session.shut.run rest := by
    rw [List.cons_append, Session.run_flog (Session.opened_logs logs)]
    rfl
  have opens (calls : List SysCall) : session.shut.run (.socket true :: calls) = (session.opened [] []).run calls := rfl
  obtain ⟨set, ran, all⟩ := @Session.run_setOptions session [] [] os sockOptions
  obtain ⟨joined, joins, every⟩ := @Session.run_subscribe session set [] os logs ifaces
  rw [List.nil_append] at all every
  by_cases made : os.socket
  · by_cases granted : (setOptions os sockOptions).ok
    · by_cases subscribed : (subscribeRplMulticast os ifaces).ok
      · rw [all granted] at ran joins
        rw [every subscribed] at joins
        simp only [openIcmpv6Socket, made, granted, subscribed, if_true]
        rw [List.cons_append, opens, List.append_assoc, Session.run_append, ran, Option.bind_some, Session.run_append,
          joins, Option.bind_some]
      · simp only [openIcmpv6Socket, made, granted, subscribed, if_true, Bool.false_eq_true, if_false]
        rw [List.cons_append, opens, List.append_assoc, Session.run_append, ran, Option.bind_some, List.append_assoc,
          Session.run_append, joins, Option.bind_some, ends]
    · simp only [openIcmpv6Socket, made, granted, if_true, Bool.false_eq_true, if_false]
      rw [List.cons_append, opens, List.append_assoc, Session.run_append, ran, Option.bind_some, ends]
  · simp only [openIcmpv6Socket, made, Bool.false_eq_true, if_false]
    exact @Session.run_flog session.shut logs rest

theorem Session.run_close (os : Os) (logs : session.Logs) (ifaces : List Iface) (rest : List SysCall) :
    (session.opened options (ifaces.map (·.ifindex))).run (closeIcmpv6Socket os ifaces ++ rest) =
      session.shut.run rest := by
  obtain ⟨left, run⟩ := @Session.run_unsubscribe session options os logs ifaces
  rw [closeIcmpv6Socket, List.append_assoc, Session.run_append, run]
  rfl

/-! What the daemon makes. -/

theorem Session.admits_unsent (netlink : session.netlink = true) {effect : Effect} (unsent : effect.sentOn = none) :
    session.admits effect = true := by
  cases effect with
  | sendmsg ifindex src dst bytes => simp [Effect.sentOn] at unsent
  | evTimerInit watcher period => rfl
  | evTimerStart watcher => rfl
  | _ => exact netlink

theorem Session.admits_sent (netlink : session.netlink = true) {effect : Effect}
    (sent : ∀ ifindex, effect.sentOn = some ifindex → ifindex ∈ joined) :
    (session.opened sockOptions joined).admits effect = true := by
  cases on : effect.sentOn with
  | none => exact @Session.admits_unsent (session.opened sockOptions joined) netlink effect on
  | some ifindex =>
      have member := sent ifindex on
      cases effect with
      | sendmsg other src dst bytes =>
          rw [Effect.sentOn, Option.some.injEq] at on
          simp only [Session.admits, Session.opened, on, member, decide_true, Bool.and_true, Bool.true_and]
          rfl
      | _ => simp [Effect.sentOn] at on

end

section

variable {inetPton : List Char → Option In6Addr} {confs : List IfaceConf} {daemon : Daemon}

theorem run_sentOn (booted : Daemon.boot inetPton confs = .ok daemon) (events : List Event) :
    ∀ effect ∈ (daemon.run events).log, ∀ ifindex, effect.sentOn = some ifindex →
      ifindex ∈ daemon.ifaces.map (·.ifindex) := by
  intro effect member ifindex on
  obtain ⟨head, known, allowed⟩ := (Daemon.run_attributed (boot_attributed booted) events).log effect member
  obtain ⟨iface, inIfaces, rfl⟩ := List.mem_map.mp known
  cases effect with
  | sendmsg other src dst bytes =>
      rw [Effect.sentOn, Option.some.injEq] at on
      rw [← on, allowed.1]
      exact List.mem_map_of_mem inIfaces
  | _ => simp [Effect.sentOn] at on

/-- How `main` ends once the configuration is loaded, and what is open then. -/
inductive LoadedCase (session : Session) (ifaces : List Iface) (ran : Ran) : Prop
  | handler (fault : Fault) (ending : ran.ending = .handler fault)
      (run : session.shut.run ran.calls = some (session.opened sockOptions (ifaces.map (·.ifindex))))
  | unset (ending : ran.ending = .status (-1)) (run : session.shut.run ran.calls = some session.shut)
  | unopened (ending : ran.ending = .status 1)
      (run : session.shut.run ran.calls = some session.shut.disconnected)
  | served (calls : List SysCall) (ending : ran.ending = .status 0)
      (last : ran.calls = calls ++ [.configFree, .logClose, .flog])
      (run : session.shut.run calls = some session.shut.disconnected)

theorem mainLoaded_case {session : Session} (netlink : session.netlink = true) (logs : session.Logs)
    (booted : Daemon.boot inetPton confs = .ok daemon) (os : Os) (wakeups : List Wakeup) :
    LoadedCase session daemon.ifaces (mainLoaded os daemon wakeups) := by
  have setup (rest : List SysCall) :
      session.shut.run (daemon.log.map SysCall.made ++ rest) = session.shut.run rest := by
    refine Session.run_made ?_ rest
    intro effect member
    exact @Session.admits_unsent session.shut netlink effect (boot_unsent booted effect member)
  have set (ok : Bool) (rest : List SysCall) :
      session.shut.run (.setVar ok :: rest) = session.shut.run rest := rfl
  have closes (other : Session) (still : other.netlink = true) (rest : List SysCall) :
      other.run (.mnlSocketClose :: rest) = other.disconnected.run rest := by
    rw [Session.run_cons, Session.step, if_pos still, Option.bind_some]
    rfl
  have opened (rest : List SysCall) := Session.run_open os logs daemon.ifaces rest
  unfold mainLoaded
  by_cases granted : os.setVar
  · by_cases ok : (openIcmpv6Socket os daemon.ifaces).ok
    · have admitted : ∀ effect ∈ (wakeups.foldl Daemon.wake daemon).log.drop daemon.log.length,
          (session.opened sockOptions (daemon.ifaces.map (·.ifindex))).admits effect = true := by
        intro effect member
        rw [daemon.foldl_wake] at member
        exact Session.admits_sent netlink (run_sentOn booted _ effect (List.mem_of_mem_drop member))
      have served (rest : List SysCall) := Session.run_made admitted rest
      simp only [granted, ok, if_true]
      cases (wakeups.foldl Daemon.wake daemon).fault with
      | some fault =>
          refine .handler fault rfl ?_
          have none := served []
          rw [List.append_nil] at none
          rw [setup, set, opened, if_pos ok]
          exact none
      | none =>
          refine .served (daemon.log.map SysCall.made ++ .setVar true :: ((openIcmpv6Socket os daemon.ifaces).calls ++
            (((wakeups.foldl Daemon.wake daemon).log.drop daemon.log.length).map SysCall.made ++ .mnlSocketClose ::
              closeIcmpv6Socket os daemon.ifaces))) rfl (by simp) ?_
          rw [setup, set, opened, if_pos ok, served, closes (session.opened sockOptions _) netlink]
          have closed := @Session.run_close session.disconnected sockOptions os logs daemon.ifaces []
          rw [List.append_nil] at closed
          exact closed
    · simp only [granted, ok, if_true, Bool.false_eq_true, if_false]
      refine .unopened rfl ?_
      rw [setup, set, opened, if_neg ok, closes session.shut netlink]
      rfl
  · simp only [granted, Bool.false_eq_true, if_false]
    refine .unset rfl ?_
    rw [setup, set]
    exact @Session.run_flog session.shut logs []

end

/-- What may be open when `main` ends: both sockets inside a handler, and the netlink socket
also where loading is undefined and where `main` returns -1. -/
structure Ending.Leaves (ending : Ending) (session : Session) : Prop where
  sock : session.sock = true ↔ ∃ fault, ending = .handler fault
  netlink : session.netlink = true ↔ ending = .undefined ∨ ending = .status (-1) ∨ ∃ fault, ending = .handler fault

theorem Ending.leaves_nothing {code : Int} (clean : code ≠ -1) {session : Session} (sock : session.sock = false)
    (netlink : session.netlink = false) : Ending.Leaves (.status code) session :=
  ⟨by simp [sock], by simp [netlink, clean]⟩

/-- The session once the log is open. -/
def Session.logging (method : LogMethod) : Session := ⟨method, method == .logfile, false, false, [], []⟩

/-- The session once the netlink socket is open too. -/
def Session.connected (method : LogMethod) : Session := { Session.logging method with netlink := true }

theorem Session.logging_logs (method : LogMethod) : (Session.logging method).Logs := fun file => by
  rw [show method = .logfile from file]
  rfl

theorem Session.run_logOpen (method : LogMethod) (rest : List SysCall) :
    Session.fresh.run (.logOpen method true :: .flog :: rest) = (Session.logging method).run rest :=
  Session.run_flog (Session.logging_logs method) rest

theorem Session.run_netlinkOpen (os : Os) (method : LogMethod) (rest : List SysCall) :
    (Session.logging method).run ((netlinkOpen os).calls ++ rest) =
      (if (netlinkOpen os).ok then Session.connected method else Session.logging method).run rest := by
  unfold netlinkOpen
  split
  · split <;> rfl
  · rfl

/-- The end of `main` writes to the log after it has closed it. -/
theorem Session.run_end (method : LogMethod) :
    ∃ session, (Session.logging method).run [.configFree, .logClose] = some session ∧
      Ending.Leaves (.status 0) session ∧
      session.step .flog = if method = .logfile then none else some session := by
  have leaves (last : LogMethod) : Ending.Leaves (.status 0) ⟨last, false, false, false, [], []⟩ :=
    Ending.leaves_nothing (by decide) rfl rfl
  cases method with
  | logfile => exact ⟨_, rfl, leaves .logfile, rfl⟩
  | stderrClean => exact ⟨_, rfl, leaves .none, rfl⟩
  | none => exact ⟨_, rfl, leaves .none, rfl⟩
  | syslog => exact ⟨_, rfl, leaves .syslog, rfl⟩
  | stderr => exact ⟨_, rfl, leaves .stderr, rfl⟩
  | stderrSyslog => exact ⟨_, rfl, leaves .stderrSyslog, rfl⟩
  | unspec => exact ⟨_, rfl, leaves .unspec, rfl⟩

/-- A run from the start whose calls are all in order, except that in a run to its end over a log
file the last of them, a log line, is not. -/
def Ran.InOrder (ran : Ran) (method : LogMethod) : Prop :=
  if method = .logfile ∧ ran.ending = .status 0 then
    ∃ before session, ran.calls = before ++ [.flog] ∧ Session.fresh.run before = some session ∧
      session.step .flog = none ∧ ran.ending.Leaves session
  else ∃ session, Session.fresh.run ran.calls = some session ∧ ran.ending.Leaves session

theorem Ran.inOrder_early {ran : Ran} {method : LogMethod} (session : Session) (before : ran.ending ≠ .status 0)
    (run : Session.fresh.run ran.calls = some session) (leaves : ran.ending.Leaves session) : ran.InOrder method := by
  rw [Ran.InOrder, if_neg fun both => before both.2]
  exact ⟨session, run, leaves⟩

theorem mainLoaded_inOrder {daemon : Daemon} {inetPton : List Char → Option In6Addr} {confs : List IfaceConf}
    (booted : Daemon.boot inetPton confs = .ok daemon) (os : Os) (wakeups : List Wakeup) (method : LogMethod)
    {front : List SysCall}
    (loads : ∀ rest, Session.fresh.run (front ++ rest) = (Session.connected method).shut.run rest) :
    Ran.InOrder ⟨front ++ (mainLoaded os daemon wakeups).calls, (mainLoaded os daemon wakeups).ending⟩ method := by
  have run := loads (mainLoaded os daemon wakeups).calls
  have way := @mainLoaded_case _ _ _ (Session.connected method) rfl (Session.logging_logs method) booted os wakeups
  cases way with
  | handler fault ending ran =>
      refine Ran.inOrder_early _ (by simp [ending]) (run.trans ran) ?_
      exact ⟨by simp [ending, Session.opened], by simp [ending, Session.opened, Session.connected]⟩
  | unset ending ran =>
      refine Ran.inOrder_early _ (by simp [ending]) (run.trans ran) ?_
      exact ⟨by simp [ending, Session.shut], by simp [ending, Session.shut, Session.connected]⟩
  | unopened ending ran =>
      refine Ran.inOrder_early _ (by simp [ending]) (run.trans ran) ?_
      rw [show (Ran.mk (front ++ (mainLoaded os daemon wakeups).calls) _).ending = .status 1 from ending]
      exact Ending.leaves_nothing (by decide) rfl rfl
  | served calls ending last ran =>
      obtain ⟨session, ended, leaves, line⟩ := Session.run_end method
      have before : Session.fresh.run (front ++ (calls ++ [.configFree, .logClose])) = some session := by
        rw [loads, Session.run_append, ran]
        exact ended
      have split : front ++ (mainLoaded os daemon wakeups).calls =
          front ++ (calls ++ [.configFree, .logClose]) ++ [.flog] := by simp [last]
      simp only [Ran.InOrder, ending, split, and_true]
      by_cases file : method = .logfile
      · rw [if_pos file] at line ⊢
        exact ⟨_, session, rfl, before, line, leaves⟩
      · rw [if_neg file] at line ⊢
        refine ⟨session, ?_, leaves⟩
        rw [Session.run_append, before, Option.bind_some, Session.run_cons, line]
        rfl

/-- Whatever the system answers, whatever is configured and whatever arrives, `main` makes its
calls in order: netlink requests while the netlink socket is open, messages only over the
socket that has all its options and on an interface that has joined the group, no socket closed
twice. What it opened it closes, unless it ends inside a handler or while it loads, or with -1:
then the netlink socket stays open. One call is out of order: with a log file, the last line of
a run to the end is written after the file was closed. -/
theorem main_in_order (os : Os) (method : LogMethod) (inetPton : List Char → Option In6Addr)
    (confs : List IfaceConf) (wakeups : List Wakeup) : (main os method inetPton confs wakeups).InOrder method := by
  generalize chosen : (if method = .unspec then .stderr else method) = used
  have same (ran : Ran) (inOrder : ran.InOrder used) : ran.InOrder method := by
    have file : method = .logfile ↔ used = .logfile := by
      rw [← chosen]
      cases method <;> simp
    simp only [Ran.InOrder, file]
    exact inOrder
  have connect (rest : List SysCall) := Session.run_netlinkOpen os used rest
  apply same
  by_cases logged : logOpen os used
  · by_cases ok : (netlinkOpen os).ok
    · simp only [ok, if_true] at connect
      cases booted : Daemon.boot inetPton confs with
      | ok daemon =>
          simp only [main, chosen, logged, ok, booted, if_true]
          have inOrder := @mainLoaded_inOrder daemon _ _ booted os wakeups used
            (.logOpen used true :: .flog :: ((netlinkOpen os).calls ++ [.configLoad true])) ?_
          · simpa using inOrder
          · intro rest
            rw [List.cons_append, List.cons_append, Session.run_logOpen, List.append_assoc, connect]
            rfl
      | error reason =>
          cases reason with
          | rejected =>
              simp only [main, chosen, logged, ok, booted, if_true]
              refine Ran.inOrder_early (Session.logging used) (by simp) ?_ (Ending.leaves_nothing (by decide) rfl rfl)
              rw [Session.run_logOpen, connect]
              exact @Session.run_flog (Session.logging used) (Session.logging_logs used) []
          | undefined =>
              simp only [main, chosen, logged, ok, booted, if_true]
              have leaves : Ending.undefined.Leaves (Session.connected used) :=
                ⟨by simp [Session.connected, Session.logging], by simp [Session.connected]⟩
              refine Ran.inOrder_early (Session.connected used) (by simp) ?_ leaves
              rw [Session.run_logOpen, connect]
              rfl
    · simp only [main, chosen, logged, ok, if_true, Bool.false_eq_true, if_false] at connect ⊢
      refine Ran.inOrder_early (Session.logging used) (by simp) ?_ (Ending.leaves_nothing (by decide) rfl rfl)
      have none := connect []
      rw [List.append_nil] at none
      rw [Session.run_logOpen, none]
      rfl
  · simp only [main, chosen, logged, Bool.false_eq_true, if_false]
    exact Ran.inOrder_early { Session.logging used with logFile := false } (by simp) rfl
      (Ending.leaves_nothing (by decide) rfl rfl)

/-- A run to the end over a log file, without an interface. -/
example : Session.fresh.run (main ⟨true, true, true, true, true, fun _ => true, fun _ => true, fun _ => true⟩ .logfile
    (fun _ => none) [] []).calls = none := by rfl

end Rpld
