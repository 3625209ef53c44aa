import Rpld.Lib.TimerLoop
import Rpld.SlotRuns

/-!
The trickle timers. A dag starts its timer when it is created, and `rpld_setup` goes over all
dags and starts their timers once more: a dag of the configuration goes through both, a dag
that a DIO creates through the first only.
-/

namespace Rpld

open TimerLoop Runs FirstMatch

inductive Watcher
  | dis (iface : Nat)
  | trickle (watcher : WatcherRef)
deriving DecidableEq

def Effect.timerCalls : Effect → List (Call Watcher)
  | .evTimerInit watcher _ => [.init (.trickle watcher)]
  | .evTimerStart watcher => [.start (.trickle watcher)]
  | _ => []

def timerCalls (effects : List Effect) : List (Call Watcher) := effects.flatMap Effect.timerCalls

/-- `rpld_setup`, with the startup timer of each interface. -/
def setupCalls (ifaces : List Iface) : List (Call Watcher) :=
  ifaces.flatMap fun iface => launch (.dis iface.ptr) ++ timerCalls (rpldSetup [iface])

/-- `send_dis_cb` stops its own timer. -/
def Event.stops (daemon : Daemon) : Event → List (Call Watcher)
  | .dis _ ptr => if daemon.fault = none then [.stop (.dis ptr)] else []
  | _ => []

/-- The daemon with the event loop it runs in. -/
structure TimedDaemon where
  daemon : Daemon
  loop : Loop Watcher

def TimedDaemon.boot (inetPton : List Char → Option In6Addr) (confs : List IfaceConf) :
    Except LoadError TimedDaemon := do
  let (_, effects) ← configLoad inetPton confs
  let daemon ← Daemon.boot inetPton confs
  return ⟨daemon, Loop.idle.run (timerCalls effects ++ setupCalls daemon.ifaces)⟩

def TimedDaemon.step (timed : TimedDaemon) (event : Event) : TimedDaemon :=
  let next := timed.daemon.step event
  let made := next.log.drop timed.daemon.log.length
  ⟨next, timed.loop.run (event.stops timed.daemon ++ timerCalls made)⟩

/-- Every dag has one entry in the heap, and no active watcher was initialised. -/
structure TimedDaemon.OneTimer (timed : TimedDaemon) : Prop where
  one : ∀ iface ∈ timed.daemon.ifaces, ∀ dag ∈ iface.dags, timed.loop.heap.count (.trickle dag.watcher) = 1
  fine : timed.loop.misused = false

theorem timerCalls_append (first second : List Effect) :
    timerCalls (first ++ second) = timerCalls first ++ timerCalls second := List.flatMap_append

theorem timerCalls_no_stop (effects : List Effect) (watcher : Watcher) : .stop watcher ∉ timerCalls effects := by
  intro member
  obtain ⟨effect, _, call⟩ := List.mem_flatMap.mp member
  cases effect <;> simp [Effect.timerCalls] at call

theorem setupCalls_no_stop (ifaces : List Iface) (watcher : Watcher) : .stop watcher ∉ setupCalls ifaces := by
  intro member
  obtain ⟨iface, _, call⟩ := List.mem_flatMap.mp member
  rcases List.mem_append.mp call with own | later
  · simp [launch] at own
  · exact timerCalls_no_stop _ watcher later

/-! Dags of the configuration. -/

section

variable {inetPton : List Char → Option In6Addr}

theorem allDags_iff {iface : Iface} {good : Dag → Prop} :
    (iface.AllDags fun _ dag => good dag) ↔ ∀ dag ∈ iface.dags, good dag := by
  constructor
  · intro all dag member
    obtain ⟨rpl, inIface, inRpl⟩ := mem_dags.mp member
    exact all rpl inIface dag inRpl
  · intro all rpl inIface dag inRpl
    exact all dag (mem_dags.mpr ⟨rpl, inIface, inRpl⟩)

theorem configLoad_starts {confs : List IfaceConf} {ifaces : List Iface} {effects : List Effect}
    (accepted : configLoad inetPton confs = .ok (ifaces, effects)) :
    ∀ iface ∈ ifaces, ∀ dag ∈ iface.dags, .evTimerStart dag.watcher ∈ effects := by
  have keeps : LoadKeeps inetPton (fun iface own => iface.AllDags fun _ dag => .evTimerStart dag.watcher ∈ own)
      (fun _ => True) := by
    intro iface instanceId conf dest dodagid own _ _ _ before
    refine withDag_allDags ?_ (by simp [dagInitTimer])
    intro rpl inIface dag inRpl
    exact List.mem_append_left _ (before rpl inIface dag inRpl)
  intro iface member dag inIface
  obtain ⟨own, part, held⟩ := (configLoad_keeps keeps (fun head rpl inHead => by simp at inHead)
    (fun _ _ _ _ => trivial) accepted).1 iface member
  exact part (allDags_iff.mp held dag inIface)

theorem setupCalls_init {ifaces : List Iface} {iface : Iface} (member : iface ∈ ifaces) {dag : Dag}
    (inIface : dag ∈ iface.dags) : .init (.trickle dag.watcher) ∈ setupCalls ifaces := by
  obtain ⟨rpl, linked, inRpl⟩ := mem_dags.mp inIface
  refine List.mem_flatMap.mpr ⟨iface, member, List.mem_append_right _ ?_⟩
  refine List.mem_flatMap.mpr ⟨.evTimerInit dag.watcher dag.trickleT, ?_, by simp [Effect.timerCalls]⟩
  simp only [rpldSetup, List.flatMap_cons, List.flatMap_nil, List.append_nil, List.mem_flatMap]
  exact ⟨rpl, linked, dag, inRpl, by simp [dagInitTimer]⟩

theorem dagLookup_mem {iface : Iface} {instanceId : UInt8} {dodagid : In6Addr} {dag : Dag}
    (found : dagLookup iface instanceId dodagid = some dag) : dag ∈ iface.dags := by
  rw [dagLookup_eq, Option.bind_eq_some_iff] at found
  obtain ⟨rpl, inIface, inRpl⟩ := found
  exact mem_dags.mpr ⟨rpl, List.mem_of_find?_eq_some inIface, List.mem_of_find?_eq_some inRpl⟩

theorem withDag_dags_ne_nil {iface : Iface} {instanceId : UInt8} {dag : Dag}
    (missing : dagLookup iface instanceId dag.dodagid = none) : (withDag iface instanceId dag).dags ≠ [] :=
  List.ne_nil_of_mem (dagLookup_mem (dagLookup_withDag missing rfl))

theorem loadKeeps_dags : LoadKeeps inetPton (fun iface _ => iface.dags ≠ []) (fun _ => True) := by
  intro iface instanceId conf dest dodagid _ _ _ missing _
  exact withDag_dags_ne_nil missing

theorem configLoadDags_dags {iface loaded : Iface} {instanceId : UInt8} {confs : List DagConf} {effects : List Effect}
    (some : confs ≠ []) (accepted : configLoadDags inetPton iface instanceId confs = .ok (loaded, effects)) :
    loaded.dags ≠ [] := by
  obtain ⟨conf, rest, rfl⟩ := List.exists_cons_of_ne_nil some
  obtain ⟨next, first, others, loads, later, _⟩ := configLoadDags_cons accepted
  obtain ⟨dest, dodagid, _, missing, rfl, _⟩ := configLoadDag_ok loads
  exact @configLoadDags_keeps _ _ _ loadKeeps_dags _ _ (fun _ _ => trivial) _ _ [] _ (withDag_dags_ne_nil missing) later

theorem configLoadInstances_dags {iface loaded : Iface} {confs : List RplConf} {effects : List Effect}
    (some : (confs.flatMap fun rpl => rpl.dags.getD []) ≠ [])
    (accepted : configLoadInstances inetPton iface confs = .ok (loaded, effects)) : loaded.dags ≠ [] := by
  induction confs generalizing iface effects with
  | nil => simp at some
  | cons conf rest ih =>
      obtain ⟨instanceId, next, first, others, loads, later, _⟩ := configLoadInstances_cons accepted
      by_cases here : conf.dags.getD [] = []
      · rw [List.flatMap_cons, here, List.nil_append] at some
        exact ih some later
      · exact @configLoadInstances_keeps _ _ _ loadKeeps_dags _ (fun _ _ => trivial) _ _ [] _
          (configLoadDags_dags here loads) later

theorem configLoad_dags {confs : List IfaceConf} {ifaces : List Iface} {effects : List Effect}
    (accepted : configLoad inetPton confs = .ok (ifaces, effects)) {conf : IfaceConf} (member : conf ∈ confs)
    (some : conf.dagConfs ≠ []) : ∃ iface ∈ ifaces, iface.dags ≠ [] := by
  have each : ∀ ptr, configLoadIfaces inetPton ptr confs = .ok (ifaces, effects) →
      ∃ iface ∈ ifaces, iface.dags ≠ [] := by
    clear accepted
    induction confs generalizing ifaces effects with
    | nil => simp at member
    | cons first rest ih =>
        intro ptr accepted
        obtain ⟨one, more, _, _, loads, others, rfl, _⟩ := configLoadIfaces_cons accepted
        rcases List.mem_cons.mp member with rfl | later
        · obtain ⟨head, _, instances⟩ := configLoadIface_ok loads
          rw [IfaceConf.dagConfs_eq] at some
          exact ⟨one, by simp, configLoadInstances_dags some instances⟩
        · obtain ⟨iface, inRest, held⟩ := ih later (ptr + 1) others
          exact ⟨iface, by simp [inRest], held⟩
  exact each 0 accepted

theorem timed_boot {confs : List IfaceConf} {timed : TimedDaemon} (booted : TimedDaemon.boot inetPton confs = .ok timed) :
    Daemon.boot inetPton confs = .ok timed.daemon ∧
      ∃ effects, configLoad inetPton confs = .ok (timed.daemon.ifaces, effects) ∧
        timed.loop = Loop.idle.run (timerCalls effects ++ setupCalls timed.daemon.ifaces) := by
  unfold TimedDaemon.boot at booted
  cases loaded : configLoad inetPton confs with
  | error reason => simp [loaded, Bind.bind, Except.bind] at booted
  | ok both =>
      cases made : Daemon.boot inetPton confs with
      | error reason => simp [loaded, made, Bind.bind, Except.bind] at booted
      | ok daemon =>
          simp only [loaded, made, Bind.bind, Except.bind, Pure.pure, Except.pure, Except.ok.injEq] at booted
          obtain ⟨_, effects, same⟩ := boot_ifaces made
          rw [loaded, Except.ok.injEq] at same
          rw [← booted]
          exact ⟨rfl, both.2, by rw [same], rfl⟩

/-- A dag of the configuration is active when `rpld_setup` initialises it. -/
theorem boot_misused {confs : List IfaceConf} {timed : TimedDaemon}
    (booted : TimedDaemon.boot inetPton confs = .ok timed) {conf : IfaceConf} (member : conf ∈ confs)
    (some : conf.dagConfs ≠ []) : timed.loop.misused = true := by
  obtain ⟨_, effects, loaded, loop⟩ := timed_boot booted
  obtain ⟨iface, inDaemon, held⟩ := configLoad_dags loaded member some
  obtain ⟨dag, inIface⟩ := List.exists_mem_of_ne_nil _ held
  have started : .start (.trickle dag.watcher) ∈ timerCalls effects :=
    List.mem_flatMap.mpr ⟨_, configLoad_starts loaded iface inDaemon dag inIface, by simp [Effect.timerCalls]⟩
  rw [loop]
  refine Loop.misused_of_restart _ started (setupCalls_init inDaemon inIface) ?_
  rw [List.mem_append, not_or]
  exact ⟨timerCalls_no_stop effects _, setupCalls_no_stop _ _⟩

end

/-! Dags of received DIOs. -/

theorem hears_timerCalls (env : Env) (dag : Dag) (rank : UInt16) (src : In6Addr) :
    timerCalls (dag.hears env rank src).effects = [] := by
  have configures : ∀ later : Dag, timerCalls (dagProcessDio env later).2 = [] := by
    intro later
    unfold timerCalls
    rw [List.flatMap_eq_nil_iff]
    intro effect member
    rcases dagProcessDio_effects member with ⟨addr, rfl⟩ | rfl
    · rfl
    · rfl
  by_cases available : HasParent env dag
  · rcases Dag.hears_cases available rank src with ⟨_, refused⟩ | ⟨_, _, exited⟩ | ⟨_, _, accepted⟩
    · rw [refused]
      rfl
    · rw [exited]
      exact configures _
    · rw [accepted, timerCalls_append, configures]
      rfl
  · rw [Dag.hears_without available]
    rfl

theorem routine_timerCalls {effects : List Effect} (routine : ∀ effect ∈ effects, effect.Routine) :
    timerCalls effects = [] := by
  rw [timerCalls, List.flatMap_eq_nil_iff]
  intro effect member
  cases routine effect member <;> rfl

/-- What a handler does to the timers of an interface: nothing, or it creates one dag under a
key that had none and launches its timer. -/
inductive TimerCase (iface : Iface) (out : Outcome) : Prop
  | quiet (calls : timerCalls out.effects = []) (same : out.iface.adverts = iface.adverts)
  | launched (dag : Dag) (missing : dagLookup iface dag.rpl.instanceId dag.dodagid = none)
      (head : dag.iface = iface.toIfaceHead) (calls : timerCalls out.effects = launch (.trickle dag.watcher))
      (grown : out.iface.adverts = (withDag iface dag.rpl.instanceId dag).adverts)

section

variable (env : Env) (iface : Iface) (mem : Nat → UInt8) (len : Nat) (src : In6Addr)

theorem processDio_timers : TimerCase iface (processDio env iface mem len src) := by
  have way := processDio_case env iface mem len src
  generalize processDio env iface mem len src = out at way
  cases way with
  | drops => exact .quiet rfl rfl
  | oversized => exact .quiet rfl rfl
  | fails => exact .quiet rfl rfl
  | known dag reads _ found =>
      rw [processDioRank_hears (Or.inr found)]
      refine .quiet ?_ (dagWrite_adverts found (Dag.hears_frame env dag _ src).1)
      exact hears_timerCalls env dag _ src
  | joined dag pfx reads joins inside fresh =>
      have key : dag.dodagid = addrAt mem 12 := by rw [fresh]; rfl
      have id : dag.rpl.instanceId = mem 4 := by rw [fresh]; rfl
      have head : dag.iface = iface.toIfaceHead := by rw [fresh]; rfl
      have linked := dagLookup_withDag joins.missing key
      rw [processDioRank_hears (Or.inr linked)]
      refine .launched dag (by rw [id, key]; exact joins.missing) head ?_ ?_
      · rw [timerCalls_append, hears_timerCalls, List.append_nil]
        rfl
      · rw [id]
        exact dagWrite_adverts linked (Dag.hears_frame env dag _ src).1

theorem processDao_timers (base : sizeofDao ≤ len) : TimerCase iface (processDao env iface mem len src) := by
  refine .quiet (routine_timerCalls fun _ member => processDao_routine base member) ?_
  rcases (processDao_cases env iface mem len src).2 with same | ⟨dag, found, walked⟩
  · rw [same]
  · rw [walked]
    exact dagWrite_adverts found (daoOptions_advert _ _ _ _ _)

theorem processDaoack_timers (base : sizeofDaoack ≤ len) : TimerCase iface (processDaoack iface mem len) :=
  .quiet (routine_timerCalls fun _ member => processDaoack_routine base member) (by rw [processDaoack_iface])

theorem processDis_timers : TimerCase iface (processDis env iface) :=
  .quiet (routine_timerCalls fun _ member => processDis_routine member) (sendDioRpls_adverts env iface.rpls)

theorem processIface_timers : TimerCase iface (processIface env iface mem len src) := by
  obtain ⟨out, way, sameIface, sameEffects, _⟩ := processIface_case env iface mem len src
  have handled : TimerCase iface out := by
    cases way with
    | ignored => exact .quiet rfl rfl
    | dis => exact processDis_timers env iface
    | dio => exact processDio_timers env iface mem len src
    | dao _ _ base => exact processDao_timers env iface mem len src base
    | daoack _ _ base => exact processDaoack_timers iface mem len base
  rcases handled with ⟨calls, same⟩ | ⟨dag, missing, head, calls, grown⟩
  · exact .quiet (by rw [sameEffects, calls]) (by rw [sameIface, same])
  · exact .launched dag missing head (by rw [sameEffects, calls]) (by rw [sameIface, grown])

end

/-! Steps of the daemon. -/

theorem isSome_of_adverts {iface later : Iface} (same : later.adverts = iface.adverts) (instanceId : UInt8)
    (dodagid : In6Addr) :
    (dagLookup later instanceId dodagid).isSome = (dagLookup iface instanceId dodagid).isSome := by
  rw [← Option.isSome_map (f := Dag.advert), dagLookup_adverts, same, ← dagLookup_adverts, Option.isSome_map]

theorem isSome_withDag {iface : Iface} {dag : Dag} (missing : dagLookup iface dag.rpl.instanceId dag.dodagid = none)
    (instanceId : UInt8) (dodagid : In6Addr) :
    (dagLookup (withDag iface dag.rpl.instanceId dag) instanceId dodagid).isSome =
      (decide (instanceId = dag.rpl.instanceId ∧ dodagid = dag.dodagid) ||
        (dagLookup iface instanceId dodagid).isSome) := by
  by_cases same : instanceId = dag.rpl.instanceId ∧ dodagid = dag.dodagid
  · obtain ⟨rfl, rfl⟩ := same
    rw [dagLookup_withDag missing rfl]
    simp
  · rw [dagLookup_withDag_other same]
    simp [same]

/-- What a step does to the timers: nothing, or one dag appears and its timer is launched. -/
inductive StepTimers (daemon later : Daemon) (made : List Effect) : Prop
  | quiet (calls : timerCalls made = [])
      (same : ∀ watcher, (later.watched watcher).isSome = (daemon.watched watcher).isSome)
  | launched (started : WatcherRef) (missing : daemon.watched started = none)
      (calls : timerCalls made = launch (.trickle started))
      (grown : ∀ watcher, (later.watched watcher).isSome =
        (decide (watcher = started) || (daemon.watched watcher).isSome))

theorem Daemon.packet_timers {daemon : Daemon} (sound : daemon.Sound) (running : daemon.fault = none) {env : Env}
    {pkt : Packet} {iface : Iface} (long : 4 ≤ pkt.len)
    (known : ifaceFindByIfindex daemon.ifaces pkt.ifindex = some iface) :
    StepTimers daemon (daemon.step (.packet env pkt))
      ((daemon.step (.packet env pkt)).log.drop daemon.log.length) := by
  have looked := @Daemon.packet_watched daemon env pkt iface sound running long known
  have member := List.mem_of_find?_eq_some known
  rw [Daemon.packet_effects running long known]
  rcases processIface_timers env iface pkt.mem (pkt.len - 4) pkt.src with
    ⟨calls, same⟩ | ⟨dag, missing, head, calls, grown⟩
  · refine .quiet calls ?_
    intro watcher
    rw [looked watcher]
    split
    · rename_i here
      rw [isSome_of_adverts same, Daemon.watched_of_find sound member (beq_iff_eq.mp here)]
    · rfl
  · have ptr : dag.watcher.iface = iface.ptr := congrArg IfaceHead.ptr head
    refine .launched dag.watcher ?_ calls ?_
    · rw [Daemon.watched_of_find sound member ptr.symm]
      exact missing
    · intro watcher
      rw [looked watcher]
      split
      · rename_i here
        rw [beq_iff_eq] at here
        rw [isSome_of_adverts grown, isSome_withDag missing, Daemon.watched_of_find sound member here]
        have own : watcher = dag.watcher ↔ watcher.instanceId = dag.rpl.instanceId ∧ watcher.dodagid = dag.dodagid := by
          obtain ⟨other, instanceId, dodagid⟩ := watcher
          rw [Dag.watcher, WatcherRef.mk.injEq, show other = iface.ptr from here.symm]
          exact and_iff_right ptr.symm
        rw [decide_eq_decide.mpr own]
      · rename_i elsewhere
        have apart : watcher ≠ dag.watcher := by
          rintro rfl
          rw [ptr, beq_self_eq_true] at elsewhere
          exact elsewhere rfl
        simp [apart]

theorem Daemon.step_timers {daemon : Daemon} (sound : daemon.Sound) (event : Event) :
    StepTimers daemon (daemon.step event) ((daemon.step event).log.drop daemon.log.length) := by
  have still : daemon.step event = daemon →
      StepTimers daemon (daemon.step event) ((daemon.step event).log.drop daemon.log.length) := by
    intro still
    rw [still]
    exact .quiet (by simp [timerCalls]) (fun _ => rfl)
  cases running : daemon.fault with
  | some fault => exact still (by simp [Daemon.step, running])
  | none =>
      cases event with
      | packet env pkt =>
          rcases Daemon.packet_seen daemon pkt with unseen | ⟨iface, long, known⟩
          · exact still (Daemon.packet_dropped running unseen)
          · exact Daemon.packet_timers sound running long known
      | trickle env watcher =>
          refine .quiet (routine_timerCalls fun _ member => Daemon.timer_routine (by simp) member) ?_
          intro other
          have same := @Daemon.trickle_map daemon env Unit (fun _ => ()) (fun _ => rfl) watcher sound running other
          simpa using congrArg Option.isSome same
      | dis env ptr =>
          refine .quiet (routine_timerCalls fun _ member => Daemon.timer_routine (by simp) member) ?_
          intro watcher
          simp only [Daemon.watched, (Daemon.dis_step running).1]

/-! Whole runs. -/

/-- The loop is in good order, and of the trickle timers those of the dags are active. -/
structure TimedDaemon.Good (timed : TimedDaemon) : Prop where
  sound : timed.daemon.Sound
  loop : timed.loop.Good
  active : ∀ watcher, timed.loop.active (.trickle watcher) = (timed.daemon.watched watcher).isSome

theorem TimedDaemon.good_oneTimer {timed : TimedDaemon} (good : timed.Good) : timed.OneTimer := by
  refine ⟨?_, good.loop.fine⟩
  intro iface member dag inIface
  have found : ifaceFindByPtr timed.daemon.ifaces iface.ptr = some iface := find?_of_nodup good.sound.ptrs member
  have looked := dags_lookup (good.sound.keyed iface member) (good.sound.refs iface member) inIface
  have ptr : dag.iface.ptr = iface.ptr := by
    obtain ⟨rpl, linked, inRpl⟩ := mem_dags.mp inIface
    rw [(good.sound.refs iface member rpl linked dag inRpl).1]
  have held : timed.daemon.watched dag.watcher = some dag := by
    simp only [Daemon.watched, Dag.watcher, ptr, found, Option.bind_some]
    exact looked
  rw [good.loop.heap, good.active, held]
  rfl

theorem TimedDaemon.step_stops {timed : TimedDaemon} (good : timed.Good) (event : Event) :
    (timed.loop.run (event.stops timed.daemon)).Good ∧
      ∀ watcher, (timed.loop.run (event.stops timed.daemon)).active (.trickle watcher) =
        timed.loop.active (.trickle watcher) := by
  have same : (timed.loop.run []).Good ∧
      ∀ watcher, (timed.loop.run []).active (.trickle watcher) = timed.loop.active (.trickle watcher) :=
    ⟨good.loop, fun _ => rfl⟩
  cases event with
  | packet env pkt => exact same
  | trickle env watcher => exact same
  | dis env ptr =>
      simp only [Event.stops]
      split
      · refine ⟨Loop.good_stop good.loop _, ?_⟩
        intro watcher
        simp only [Loop.run, List.foldl_cons, List.foldl_nil, Loop.call]
        split
        · simp [Loop.mark]
        · rfl
      · exact same

theorem TimedDaemon.step_good {timed : TimedDaemon} (event : Event) (good : timed.Good) : (timed.step event).Good := by
  have sound : (timed.step event).daemon.Sound := Daemon.step_sound event good.sound
  obtain ⟨stopped, flags⟩ := TimedDaemon.step_stops good event
  have way := Daemon.step_timers good.sound event
  have run : (timed.step event).loop =
      (timed.loop.run (event.stops timed.daemon)).run
        (timerCalls ((timed.daemon.step event).log.drop timed.daemon.log.length)) := Loop.run_append _ _ _
  rcases way with ⟨calls, same⟩ | ⟨started, missing, calls, grown⟩
  · rw [calls] at run
    refine ⟨sound, by rw [run]; exact stopped, ?_⟩
    intro watcher
    rw [run]
    exact (flags watcher).trans ((good.active watcher).trans (same watcher).symm)
  · have inactive : (timed.loop.run (event.stops timed.daemon)).active (.trickle started) = false := by
      rw [flags, good.active, missing]
      rfl
    rw [calls] at run
    refine ⟨sound, by rw [run]; exact Loop.good_launch stopped inactive, ?_⟩
    intro watcher
    have after : (timed.step event).daemon.watched watcher = (timed.daemon.step event).watched watcher := rfl
    rw [run, Loop.run_launch, after, grown]
    simp only [Loop.mark, Watcher.trickle.injEq, flags, good.active]
    by_cases own : watcher = started
    · simp [own]
    · simp [own]

section

variable {inetPton : List Char → Option In6Addr} {confs : List IfaceConf} {timed : TimedDaemon}

theorem boot_good (booted : TimedDaemon.boot inetPton confs = .ok timed) (none : ∀ conf ∈ confs, conf.dagConfs = []) :
    timed.Good := by
  obtain ⟨made, effects, loaded, loop⟩ := timed_boot booted
  have sound := boot_sound made
  have keeps : LoadKeeps inetPton (fun iface own => iface.rpls = [] ∧ own = []) (fun _ => False) :=
    fun _ _ _ _ _ _ unwanted => unwanted.elim
  obtain ⟨held, owned⟩ := configLoad_keeps keeps (fun _ => ⟨rfl, rfl⟩)
    (fun conf member entry inConf => by simp [none conf member] at inConf) loaded
  have empty : ∀ iface ∈ timed.daemon.ifaces, iface.rpls = [] := by
    intro iface member
    obtain ⟨_, _, empty, _⟩ := held iface member
    exact empty
  have quiet : effects = [] := by
    rw [List.eq_nil_iff_forall_not_mem]
    intro effect member
    obtain ⟨_, _, own, inOwn, _, nothing⟩ := owned effect member
    simp [nothing] at inOwn
  have calls : setupCalls timed.daemon.ifaces =
      (timed.daemon.ifaces.map fun iface => Watcher.dis iface.ptr).flatMap launch := by
    rw [setupCalls, List.flatMap_map]
    apply List.flatMap_congr
    intro iface member
    simp [rpldSetup, empty iface member, timerCalls]
  have distinct : (timed.daemon.ifaces.map fun iface => Watcher.dis iface.ptr).Nodup := by
    have separate := sound.ptrs
    rw [List.Nodup, List.pairwise_map] at separate ⊢
    refine separate.imp ?_
    intro first second apart same
    exact apart (Watcher.dis.inj same)
  obtain ⟨good, flags⟩ := Loop.good_launches distinct Loop.good_idle (fun _ _ => rfl)
  rw [quiet, calls] at loop
  refine ⟨sound, by rw [loop]; exact good, ?_⟩
  intro watcher
  have unwatched : timed.daemon.watched watcher = Option.none := by
    rw [Daemon.watched, Option.bind_eq_none_iff]
    intro iface found
    simp [dagLookup, dagLookupRpl, empty iface (List.mem_of_find?_eq_some found)]
  have flag := flags (.trickle watcher)
  rw [unwatched, loop]
  exact flag.trans (by simp [Loop.idle])

/-- Whatever the configuration and the run: every dag has one timer in every state, and no
active timer was initialised, exactly when the configuration defines no dag. -/
theorem run_one_timer_iff (booted : TimedDaemon.boot inetPton confs = .ok timed) (events : List Event) :
    Always TimedDaemon.step TimedDaemon.OneTimer timed events ↔ ∀ conf ∈ confs, conf.dagConfs = [] := by
  constructor
  · intro always conf member
    apply Classical.byContradiction
    intro some
    have misused := boot_misused booted member some
    rw [(always_head always).fine] at misused
    simp at misused
  · intro none
    rw [always_iff]
    intro before after _
    exact TimedDaemon.good_oneTimer
      (foldl_invariant_always (fun _ event => TimedDaemon.step_good event) before (boot_good booted none))

end

theorem run_one_timer_leaf :
    ∃ timed, TimedDaemon.boot sampleInetPton [{ sampleConf "fd00::/64" with dodagRoot := some false }] = .ok timed ∧
      Always TimedDaemon.step TimedDaemon.OneTimer timed [.packet .granting foreignDioPacket] := by
  obtain ⟨timed, booted⟩ : ∃ timed,
      TimedDaemon.boot sampleInetPton [{ sampleConf "fd00::/64" with dodagRoot := some false }] = .ok timed :=
    ⟨_, rfl⟩
  refine ⟨timed, booted, (run_one_timer_iff booted _).mpr ?_⟩
  intro conf member
  rw [List.mem_singleton.mp member]
  rfl

/-- A root with one dag: when `rpld_setup` returns its timer is in the heap twice, and was
initialised while it was active. -/
theorem root_timer_twice :
    ∃ timed, TimedDaemon.boot sampleInetPton [sampleConf "fd00::/64"] = .ok timed ∧
      (∃ iface ∈ timed.daemon.ifaces, ∃ dag ∈ iface.dags, timed.loop.heap.count (.trickle dag.watcher) = 2) ∧
      timed.loop.misused = true ∧ ¬ timed.OneTimer := by
  refine ⟨_, rfl, ?_, ?_, ?_⟩
  · decide
  · decide
  · intro fine
    exact absurd fine.fine (by decide)

end Rpld
