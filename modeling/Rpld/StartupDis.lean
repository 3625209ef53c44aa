import Rpld.Neighbours
import Rpld.Quiescence
import Rpld.Timers

/-!
The startup DIS. `rpld_setup` starts a repeating timer for each interface, and the callback of
that timer stops it before it sends: the timer counts down to one DIS and then is gone.
-/

namespace Rpld

open TimerLoop Runs FirstMatch

/-- The loop calls back only while the process runs, and for a timer only what is in its heap. -/
def TimedDaemon.Due (timed : TimedDaemon) (event : Event) : Prop :=
  timed.daemon.fault = none ∧
    match event with
    | .packet _ _ => True
    | .trickle _ watcher => .trickle watcher ∈ timed.loop.heap
    | .dis _ ptr => .dis ptr ∈ timed.loop.heap

def IfaceHead.disMessage (head : IfaceHead) : Effect :=
  .sendmsg head.ifindex head.ifaddr allRplAddr ((Icmp6Hdr.mk ndRplMessage ndRplDagIs).bytes ++ [0, 0])

/-- The effect is a DIS. -/
def Effect.asks (effect : Effect) : Bool := effect.code == some ndRplDagIs

/-- The interface whose startup timer expires. -/
def Event.expiry : Event → Option Nat
  | .dis _ ptr => some ptr
  | _ => none

/-! Only the startup timer asks. -/

theorem not_asks_of_unsent {effect : Effect} (unsent : effect.sentOn = none) : effect.asks = false := by
  cases effect with
  | sendmsg ifindex src dst bytes => simp [Effect.sentOn] at unsent
  | _ => rfl

theorem dagInitTimer_unsent (dag : Dag) : ∀ effect ∈ dagInitTimer dag, effect.sentOn = none := by
  intro effect member
  simp only [dagInitTimer, List.mem_cons, List.not_mem_nil, or_false] at member
  rcases member with rfl | rfl <;> rfl

/-- A packet makes messages of lower levels only, and a DIS is at the highest. -/
theorem Daemon.packet_not_asks {daemon : Daemon} {env : Env} {pkt : Packet} {effect : Effect}
    (member : effect ∈ daemon.news (.packet env pkt)) : effect.asks = false := by
  cases sent : effect.sentOn with
  | none => exact not_asks_of_unsent sent
  | some ifindex =>
      have lower := Daemon.news_lower member (by simp [sent])
      have bound := codeLevel_le pkt.bytes[1]?
      rw [Effect.asks, beq_eq_false_iff_ne]
      intro dis
      rw [dis] at lower
      exact absurd (Nat.lt_of_lt_of_le lower bound) (by decide)

/-! The log. -/

section

variable {daemon : Daemon}

theorem Daemon.step_log (daemon : Daemon) (event : Event) :
    (daemon.step event).log = daemon.log ++ daemon.news event := by
  have grown : daemon.log <+: (daemon.step event).log := by
    cases running : daemon.fault with
    | some fault => simp [Daemon.step, running]
    | none =>
        cases event with
        | packet env pkt =>
            rcases Daemon.packet_seen daemon pkt with unseen | ⟨iface, long, known⟩
            · simp [Daemon.packet_dropped running unseen]
            · rw [Daemon.packet_of_find running long known]
              exact List.prefix_append _ _
        | trickle env watcher =>
            cases held : daemon.watched watcher with
            | none => simp [Daemon.trickle_none running held]
            | some dag =>
                by_cases valid : dag.dest.len.toNat ≤ 128
                · rw [Daemon.trickle_sent running held valid]
                  exact List.prefix_append _ _
                · simp [Daemon.trickle_overrun running held (show 128 < _ by omega)]
        | dis env ptr =>
            simp only [Daemon.step, running, Daemon.dis]
            split
            · exact List.prefix_refl _
            · rw [sendDis_ok]
              exact List.prefix_append _ _
  obtain ⟨more, same⟩ := grown
  rw [Daemon.news, ← same, List.drop_left]

theorem Daemon.news_not_asks {event : Event} (quiet : event.expiry = none) {effect : Effect}
    (member : effect ∈ daemon.news event) : effect.asks = false := by
  cases event with
  | packet env pkt => exact Daemon.packet_not_asks member
  | trickle env watcher =>
      cases running : daemon.fault with
      | some fault => simp [Daemon.news, Daemon.step, running] at member
      | none =>
          cases held : daemon.watched watcher with
          | none => simp [Daemon.news, Daemon.trickle_none running held] at member
          | some dag =>
              by_cases valid : dag.dest.len.toNat ≤ 128
              · rw [Daemon.news, Daemon.trickle_sent running held valid, List.drop_left, List.mem_singleton] at member
                rw [member]
                rfl
              · simp [Daemon.news, Daemon.trickle_overrun running held (show 128 < _ by omega)] at member
  | dis env ptr => simp [Event.expiry] at quiet

theorem Daemon.news_dis (running : daemon.fault = none) {ptr : Nat} {iface : Iface}
    (found : ifaceFindByPtr daemon.ifaces ptr = some iface) (env : Env) :
    daemon.news (.dis env ptr) = [iface.toIfaceHead.disMessage] := by
  simp only [Daemon.news, Daemon.step, running, Daemon.dis, found, sendDis_ok, List.drop_left]
  rfl

end

/-! Steps. -/

theorem timerCalls_apart (effects : List Effect) (ptr : Nat) :
    ∀ call ∈ timerCalls effects, call.watcher ≠ .dis ptr := by
  intro call member
  obtain ⟨effect, _, called⟩ := List.mem_flatMap.mp member
  cases effect <;> simp [Effect.timerCalls] at called
  · rw [called]
    simp [Call.watcher]
  · rw [called]
    simp [Call.watcher]

/-- The interfaces of `asked` have sent their DIS, in this order. For each interface the DISs
it has sent and the entries of its timer in the heap add up to one. -/
structure TimedDaemon.Asked (heads asked : List IfaceHead) (timed : TimedDaemon) : Prop where
  fixed : timed.daemon.Over heads
  known : ∀ head ∈ asked, head ∈ heads
  log : timed.daemon.log.filter Effect.asks = asked.map IfaceHead.disMessage
  single : ∀ ptr, timed.loop.Single (.dis ptr)
  counted : ∀ ptr, (asked.map (·.ptr)).count ptr + timed.loop.heap.count (.dis ptr) = (heads.map (·.ptr)).count ptr

section

variable {heads asked : List IfaceHead} {timed : TimedDaemon} {event : Event}

theorem TimedDaemon.step_quiet (before : timed.Asked heads asked) (quiet : event.expiry = none) :
    (timed.step event).Asked heads asked := by
  have stops : event.stops timed.daemon = [] := by
    cases event with
    | packet env pkt => rfl
    | trickle env watcher => rfl
    | dis env ptr => simp [Event.expiry] at quiet
  have kept (ptr : Nat) := Loop.run_apart (timerCalls_apart (timed.daemon.news event) ptr) timed.loop
  have loop : (timed.step event).loop = timed.loop.run (timerCalls (timed.daemon.news event)) := by
    simp only [TimedDaemon.step, stops, List.nil_append]
    rfl
  refine ⟨Daemon.step_over event before.fixed, before.known, ?_, ?_, ?_⟩
  · have none : (timed.daemon.news event).filter Effect.asks = [] := by
      rw [List.filter_eq_nil_iff]
      intro effect member
      simp [Daemon.news_not_asks quiet member]
    show (timed.daemon.step event).log.filter Effect.asks = _
    rw [Daemon.step_log, List.filter_append, none, List.append_nil]
    exact before.log
  · intro ptr
    rw [loop, Loop.Single, (kept ptr).1, (kept ptr).2]
    exact before.single ptr
  · intro ptr
    rw [loop, (kept ptr).2]
    exact before.counted ptr

theorem TimedDaemon.step_expires (before : timed.Asked heads asked) {env : Env} {ptr : Nat}
    (due : timed.Due (.dis env ptr)) :
    ∃ head, head.ptr = ptr ∧ (timed.step (.dis env ptr)).Asked heads (asked ++ [head]) := by
  obtain ⟨running, entry⟩ := due
  have entries : 0 < timed.loop.heap.count (.dis ptr) := List.count_pos_iff.mpr entry
  have listed : 0 < (heads.map (·.ptr)).count ptr := by
    have total := before.counted ptr
    omega
  obtain ⟨iface, found⟩ : ∃ iface, ifaceFindByPtr timed.daemon.ifaces ptr = some iface := by
    have member := List.count_pos_iff.mp listed
    rw [← before.fixed.heads, List.map_map] at member
    obtain ⟨iface, inIfaces, same⟩ := List.mem_map.mp member
    exact Option.isSome_iff_exists.mp (List.find?_isSome.mpr ⟨iface, inIfaces, by simpa using same⟩)
  have own : iface.ptr = ptr := by
    have matched := List.find?_some found
    simpa using matched
  have made := Daemon.news_dis running found env
  have loop : (timed.step (.dis env ptr)).loop =
      (timed.loop.call (.stop (.dis ptr))).run (timerCalls (timed.daemon.news (.dis env ptr))) := by
    simp only [TimedDaemon.step, Event.stops, running, if_true]
    exact Loop.run_append _ _ _
  have kept (other : Nat) := Loop.run_apart (timerCalls_apart (timed.daemon.news (.dis env ptr)) other)
    (timed.loop.call (.stop (.dis ptr)))
  obtain ⟨stopped, alone⟩ := Loop.stop_single (before.single ptr)
  have apart (other : Nat) (different : other ≠ ptr) :=
    @Loop.call_apart _ _ (.dis other) (.stop (.dis ptr)) (by simpa [Call.watcher] using Ne.symm different) timed.loop
  refine ⟨iface.toIfaceHead, own, Daemon.step_over (.dis env ptr) before.fixed, ?_, ?_, ?_, ?_⟩
  · intro head member
    rcases List.mem_append.mp member with old | new
    · exact before.known head old
    · rw [List.mem_singleton.mp new]
      exact before.fixed.head_mem (List.mem_of_find?_eq_some found)
  · show (timed.daemon.step (.dis env ptr)).log.filter Effect.asks = _
    rw [Daemon.step_log, made, List.filter_append, before.log, List.map_append]
    rfl
  · intro other
    rw [loop, Loop.Single, (kept other).1, (kept other).2]
    by_cases same : other = ptr
    · rw [same]
      exact alone
    · rw [(apart other same).1, (apart other same).2]
      exact before.single other
  · intro other
    have total := before.counted other
    rw [loop, (kept other).2, List.map_append, List.count_append]
    by_cases same : other = ptr
    · subst same
      have one := before.single other
      rw [Loop.Single, stopped] at alone
      rw [Loop.Single] at one
      have active : timed.loop.active (.dis other) = true := by
        cases flag : timed.loop.active (.dis other) with
        | true => rfl
        | false => simp [flag] at one; omega
      simp only [active, if_true] at one
      rw [alone]
      simp [own]
      omega
    · have none : List.count other (List.map (·.ptr) [iface.toIfaceHead]) = 0 := by
        rw [List.count_eq_zero]
        simpa [own] using same
      rw [(apart other same).2, none]
      omega

end

/-! Whole runs. -/

section

variable {inetPton : List Char → Option In6Addr} {confs : List IfaceConf}

theorem configLoad_unsent {ifaces : List Iface} {effects : List Effect}
    (accepted : configLoad inetPton confs = .ok (ifaces, effects)) : ∀ effect ∈ effects, effect.sentOn = none := by
  have keeps : LoadKeeps inetPton (fun _ own => ∀ effect ∈ own, effect.sentOn = none) (fun _ => True) := by
    intro iface instanceId conf dest dodagid own _ _ _ before dag effect member
    rcases List.mem_append.mp member with old | new
    · exact before effect old
    · exact dagInitTimer_unsent dag effect new
  intro effect member
  obtain ⟨_, _, own, inOwn, held⟩ := (configLoad_keeps keeps (fun _ effect none => by simp at none)
    (fun _ _ _ _ => trivial) accepted).2 effect member
  exact held effect inOwn

theorem rpldSetup_unsent (ifaces : List Iface) : ∀ effect ∈ rpldSetup ifaces, effect.sentOn = none := by
  intro effect member
  simp only [rpldSetup, List.mem_flatMap, List.mem_append] at member
  obtain ⟨iface, _, rpl, _, dag, _, timer | address⟩ := member
  · exact dagInitTimer_unsent dag effect timer
  · split at address
    · rw [List.mem_singleton.mp address]
      rfl
    · simp at address

/-- Before the event loop runs, nothing was sent. -/
theorem boot_unsent {daemon : Daemon} (booted : Daemon.boot inetPton confs = .ok daemon) :
    ∀ effect ∈ daemon.log, effect.sentOn = none := by
  obtain ⟨effects, loaded, log⟩ := boot_log booted
  intro effect member
  rw [log] at member
  rcases List.mem_append.mp member with load | setup
  · exact configLoad_unsent loaded effect load
  · exact rpldSetup_unsent _ effect setup

theorem boot_asked {timed : TimedDaemon} (booted : TimedDaemon.boot inetPton confs = .ok timed) :
    timed.Asked (timed.daemon.ifaces.map (·.toIfaceHead)) [] := by
  obtain ⟨made, effects, _, loop⟩ := timed_boot booted
  have sound := boot_sound made
  rw [Loop.run_append] at loop
  have loaded (ptr : Nat) := Loop.run_apart (timerCalls_apart effects ptr) Loop.idle
  have idle (ptr : Nat) : (Loop.idle.run (timerCalls effects)).active (.dis ptr) = false ∧
      (Loop.idle.run (timerCalls effects)).Single (.dis ptr) := by
    have inactive := (loaded ptr).1.trans rfl
    exact ⟨inactive, by rw [Loop.Single, inactive, (loaded ptr).2]; rfl⟩
  have distinct : (timed.daemon.ifaces.map fun iface => Watcher.dis iface.ptr).Nodup := by
    have separate := sound.ptrs
    rw [List.Nodup, List.pairwise_map] at separate ⊢
    refine separate.imp ?_
    intro first second apart same
    exact apart (Watcher.dis.inj same)
  have launched := Loop.run_launches
    (fun iface (_ : iface ∈ timed.daemon.ifaces) call inCalls other _ =>
      timerCalls_apart (rpldSetup [iface]) other.ptr call inCalls)
    distinct (fun iface _ => idle iface.ptr)
  have setup : timed.loop = (Loop.idle.run (timerCalls effects)).run (setupCalls timed.daemon.ifaces) := loop
  -- a pointer of no interface is in none of the calls
  have unknown (ptr : Nat) (missing : ptr ∉ timed.daemon.ifaces.map (·.ptr)) :
      timed.loop.active (.dis ptr) = false ∧ timed.loop.Single (.dis ptr) := by
    have apart : ∀ call ∈ setupCalls timed.daemon.ifaces, call.watcher ≠ .dis ptr := by
      intro call member
      obtain ⟨iface, inIfaces, called⟩ := List.mem_flatMap.mp member
      rcases List.mem_append.mp called with own | more
      · rw [launch_watcher own]
        intro same
        exact missing (Watcher.dis.inj same ▸ List.mem_map_of_mem inIfaces)
      · exact timerCalls_apart _ ptr call more
    obtain ⟨flag, entries⟩ := Loop.run_apart apart (Loop.idle.run (timerCalls effects))
    obtain ⟨inactive, single⟩ := idle ptr
    rw [← setup] at flag entries
    refine ⟨flag.trans inactive, ?_⟩
    rw [Loop.Single, flag, entries]
    exact single
  have known (ptr : Nat) (member : ptr ∈ timed.daemon.ifaces.map (·.ptr)) :
      timed.loop.active (.dis ptr) = true ∧ timed.loop.Single (.dis ptr) := by
    obtain ⟨iface, inIfaces, rfl⟩ := List.mem_map.mp member
    rw [setup]
    exact launched iface inIfaces
  have ptrs : (timed.daemon.ifaces.map (·.toIfaceHead)).map (·.ptr) = timed.daemon.ifaces.map (·.ptr) := by
    rw [List.map_map]
    rfl
  refine ⟨boot_over made, by simp, ?_, ?_, ?_⟩
  · rw [List.map_nil, List.filter_eq_nil_iff]
    intro effect member
    simp [not_asks_of_unsent (boot_unsent made effect member)]
  · intro ptr
    by_cases member : ptr ∈ timed.daemon.ifaces.map (·.ptr)
    · exact (known ptr member).2
    · exact (unknown ptr member).2
  · intro ptr
    rw [ptrs, List.map_nil, List.count_nil, Nat.zero_add]
    by_cases member : ptr ∈ timed.daemon.ifaces.map (·.ptr)
    · obtain ⟨active, single⟩ := known ptr member
      rw [Loop.Single, active, if_pos rfl] at single
      rw [single, List.count_eq_one_of_mem sound.ptrs member]
    · obtain ⟨inactive, single⟩ := unknown ptr member
      rw [Loop.Single, inactive] at single
      rw [List.count_eq_zero.mpr member]
      exact single

end

theorem TimedDaemon.run_asked {heads asked : List IfaceHead} {timed : TimedDaemon} {events : List Event}
    (before : timed.Asked heads asked) (due : AllSteps TimedDaemon.step TimedDaemon.Due timed events) :
    ∃ more, more.map (·.ptr) = events.filterMap Event.expiry ∧
      (events.foldl TimedDaemon.step timed).Asked heads (asked ++ more) := by
  induction events generalizing timed asked with
  | nil => exact ⟨[], rfl, by rw [List.append_nil]; exact before⟩
  | cons event rest ih =>
      cases expires : event.expiry with
      | none =>
          obtain ⟨more, ptrs, after⟩ := ih (TimedDaemon.step_quiet before expires) due.2
          exact ⟨more, by rw [List.filterMap_cons_none expires, ptrs], after⟩
      | some ptr =>
          obtain ⟨env, rfl⟩ : ∃ env, event = .dis env ptr := by
            cases event with
            | packet env pkt => simp [Event.expiry] at expires
            | trickle env watcher => simp [Event.expiry] at expires
            | dis env other =>
                rw [Event.expiry, Option.some.injEq] at expires
                exact ⟨env, by rw [expires]⟩
          obtain ⟨head, own, next⟩ := TimedDaemon.step_expires before due.1
          obtain ⟨more, ptrs, after⟩ := ih next due.2
          refine ⟨head :: more, ?_, by rw [List.append_cons]; exact after⟩
          rw [List.filterMap_cons_some expires, List.map_cons, own, ptrs]

/-- In every run in which the loop calls back what is due, whatever arrives in between, each
interface of the configuration sends one DIS at most and only when its startup timer expires:
the DISs of the run are those of the interfaces whose timers expired, in that order, and an
interface has either sent its DIS or has its timer in the heap, once. -/
theorem run_startup_dis {inetPton : List Char → Option In6Addr} {confs : List IfaceConf} {timed : TimedDaemon}
    (booted : TimedDaemon.boot inetPton confs = .ok timed) {events : List Event}
    (due : AllSteps TimedDaemon.step TimedDaemon.Due timed events) :
    ∃ asked : List IfaceHead, (∀ head ∈ asked, ∃ iface ∈ timed.daemon.ifaces, iface.toIfaceHead = head) ∧
      asked.map (·.ptr) = events.filterMap Event.expiry ∧
      (events.foldl TimedDaemon.step timed).daemon.log.filter Effect.asks = asked.map IfaceHead.disMessage ∧
      ∀ iface ∈ timed.daemon.ifaces,
        (asked.map (·.ptr)).count iface.ptr +
          (events.foldl TimedDaemon.step timed).loop.heap.count (.dis iface.ptr) = 1 := by
  obtain ⟨asked, ptrs, after⟩ := TimedDaemon.run_asked (boot_asked booted) due
  rw [List.nil_append] at after
  refine ⟨asked, ?_, ptrs, after.log, ?_⟩
  · intro head member
    exact List.mem_map.mp (after.known head member)
  · intro iface member
    have ptrs : (timed.daemon.ifaces.map (·.toIfaceHead)).map (·.ptr) = timed.daemon.ifaces.map (·.ptr) := by
      rw [List.map_map]
      rfl
    have total := after.counted iface.ptr
    rw [ptrs, List.count_eq_one_of_mem (boot_sound (timed_boot booted).1).ptrs (List.mem_map_of_mem member)] at total
    exact total

theorem run_startup_dis_root :
    ∃ timed, TimedDaemon.boot sampleInetPton [sampleConf "fd00::/64"] = .ok timed ∧
      ∃ asked : List IfaceHead, asked.map (·.ptr) = [0] ∧
        ([Event.packet .granting foreignDioPacket, .dis .granting 0].foldl TimedDaemon.step timed).daemon.log.filter
          Effect.asks = asked.map IfaceHead.disMessage := by
  obtain ⟨timed, booted⟩ : ∃ timed, TimedDaemon.boot sampleInetPton [sampleConf "fd00::/64"] = .ok timed := ⟨_, rfl⟩
  have due : AllSteps TimedDaemon.step TimedDaemon.Due timed [.packet .granting foreignDioPacket, .dis .granting 0] := by
    cases booted
    exact ⟨⟨rfl, trivial⟩, ⟨by decide +kernel, by decide +kernel⟩, trivial⟩
  obtain ⟨asked, _, ptrs, log, _⟩ := run_startup_dis booted due
  exact ⟨timed, booted, asked, ptrs, log⟩

end Rpld
