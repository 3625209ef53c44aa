import Rpld.Slots

/-!
Events and slots. One step of the daemon leaves each slot alone or makes it react, and where
nothing fails every slot reacts as it would if it were the only one.
-/

namespace Rpld

open FirstMatch Runs

/-- Names a slot: the interface, by what of it never changes, and the key of its tables. -/
structure SlotKey where
  head : IfaceHead
  instanceId : UInt8
  dodagid : In6Addr

def SlotKey.watcher (key : SlotKey) : WatcherRef := ⟨key.head.ptr, key.instanceId, key.dodagid⟩

def Event.env : Event → Env
  | .packet env _ => env
  | .trickle env _ => env
  | .dis env _ => env

def Event.reaction (key : SlotKey) (slot : Option Dag) : Event → Reaction
  | .packet env pkt =>
      if pkt.ifindex = key.head.ifindex ∧ 4 ≤ pkt.len then
        slotMessage env key.head key.instanceId key.dodagid pkt.mem (pkt.len - 4) pkt.src slot
      else idle slot
  | .trickle _ watcher => if watcher = key.watcher then slotSendDio slot else idle slot
  | .dis _ _ => idle slot

def Daemon.slot (daemon : Daemon) (key : SlotKey) : Option Dag :=
  (ifaceFindByPtr daemon.ifaces key.head.ptr).bind fun iface => dagLookup iface key.instanceId key.dodagid

/-- The dag whose timer the watcher is. -/
def Daemon.watched (daemon : Daemon) (watcher : WatcherRef) : Option Dag :=
  (ifaceFindByPtr daemon.ifaces watcher.iface).bind fun iface => dagLookup iface watcher.instanceId watcher.dodagid

def Daemon.Knows (daemon : Daemon) (key : SlotKey) : Prop := key.head ∈ daemon.ifaces.map (·.toIfaceHead)

def Daemon.made (daemon : Daemon) (key : SlotKey) (event : Event) : List Effect :=
  let news := (daemon.step event).log.drop daemon.log.length
  match event with
  | .packet _ pkt =>
      if (ifaceFindByIfindex daemon.ifaces pkt.ifindex).any (·.ptr == key.head.ptr) then
        keyEffects key.instanceId key.dodagid pkt.mem (pkt.len - 4) news
      else []
  | .trickle _ watcher => if watcher = key.watcher then news else []
  | .dis _ _ => []

/-! Everything a slot can do. -/

inductive ReactionCase (head : IfaceHead) : Option Dag → Reaction → Prop
  | idle (slot : Option Dag) : ReactionCase head slot (idle slot)
  | stops (slot : Option Dag) : ReactionCase head slot ⟨slot, [], some .overrun⟩
  | sends (dag : Dag) (valid : dag.dest.len.toNat ≤ 128) :
      ReactionCase head (some dag) ⟨some dag.afterDio, [dag.dioMessage], none⟩
  | heard (dag : Dag) (env : Env) (mem : Nat → UInt8) (src : In6Addr) (notRoot : dag.myRank ≠ 1) :
      ReactionCase head (some dag) (dag.reacts env mem src [])
  | joined (env : Env) (mem : Nat → UInt8) (src : In6Addr) :
      ReactionCase head none
        ((slotDag env head mem).reacts env mem src (dagInitTimer (slotDag env head mem)))
  | registers (dag : Dag) (src : In6Addr) (targets : List In6Addr) (effects : List Effect)
      (answer : effects = [] ∨ effects = childRoutes (dag.registers src targets) ++
        [.sendmsg dag.iface.ifindex dag.iface.ifaddr src (dag.registers src targets).daoAckBytes]) :
      ReactionCase head (some dag) ⟨some (dag.registers src targets), effects, none⟩
  | acknowledged (dag : Dag) : ReactionCase head (some dag) (slotDaoack (some dag))

theorem slotSendDio_case (head : IfaceHead) (slot : Option Dag) : ReactionCase head slot (slotSendDio slot) := by
  cases slot with
  | none => exact .idle none
  | some dag =>
      by_cases valid : dag.dest.len.toNat ≤ 128
      · rw [slotSendDio_valid valid]
        exact .sends dag valid
      · simp only [slotSendDio, valid, if_false]
        exact .stops (some dag)

theorem slotDio_case (env : Env) (head : IfaceHead) (mem : Nat → UInt8) (len : Nat) (src : In6Addr)
    (slot : Option Dag) : ReactionCase head slot (slotDio env head mem len src slot) := by
  cases slot with
  | some dag =>
      simp only [slotDio]
      split
      · exact .idle (some dag)
      · exact .heard dag env mem src (by assumption)
  | none =>
      simp only [slotDio]
      split
      · split
        · exact .stops none
        · exact .joined env mem src
      · exact .idle none

theorem slotDao_case (env : Env) (head : IfaceHead) (mem : Nat → UInt8) (len : Nat) (src : In6Addr)
    (slot : Option Dag) : ReactionCase head slot (slotDao env mem len src slot) := by
  cases slot with
  | none => exact .idle none
  | some dag =>
      obtain ⟨targets, walked⟩ := daoOptions_registers env mem src (len - sizeofDao)
        ⟨24, ((len - sizeofDao : Nat) : Int), dag, 4 :: addrReads 8⟩
      simp only [slotDao, walked]
      refine .registers dag src targets _ ?_
      split
      · exact Or.inr rfl
      · exact Or.inl rfl

theorem reaction_case (key : SlotKey) (event : Event) (slot : Option Dag) :
    ReactionCase key.head slot (event.reaction key slot) := by
  cases event with
  | packet env pkt =>
      simp only [Event.reaction, slotMessage]
      split
      · split
        · exact slotSendDio_case key.head slot
        split
        · split
          · exact slotDio_case env key.head pkt.mem (pkt.len - 4) pkt.src slot
          split
          · exact slotDao_case env key.head pkt.mem (pkt.len - 4) pkt.src slot
          · cases slot with
            | none => exact .idle none
            | some dag => exact .acknowledged dag
        · exact .idle slot
      · exact .idle slot
  | trickle env watcher =>
      simp only [Event.reaction]
      split
      · exact slotSendDio_case key.head slot
      · exact .idle slot
  | dis env ptr => exact .idle slot

theorem reaction_advert (key : SlotKey) (event : Event) (dag : Dag) :
    ∃ next, (event.reaction key (some dag)).slot = some next ∧ next.advert = dag.advert := by
  have way := reaction_case key event (some dag)
  generalize event.reaction key (some dag) = reaction at way
  cases way with
  | idle => exact ⟨dag, rfl, rfl⟩
  | stops => exact ⟨dag, rfl, rfl⟩
  | sends => exact ⟨dag.afterDio, rfl, rfl⟩
  | heard _ env mem src _ => exact ⟨_, rfl, (Dag.hears_frame env dag (ntohs (mem 6) (mem 7)) src).1⟩
  | registers _ src targets => exact ⟨dag.registers src targets, rfl, rfl⟩
  | acknowledged => exact ⟨dag, rfl, rfl⟩

section

variable {daemon : Daemon} {key : SlotKey}

theorem Daemon.knows_iface (sound : daemon.Sound) (known : daemon.Knows key) :
    ∃ iface ∈ daemon.ifaces, iface.toIfaceHead = key.head ∧
      ifaceFindByPtr daemon.ifaces key.head.ptr = some iface := by
  obtain ⟨iface, member, same⟩ := List.mem_map.mp known
  refine ⟨iface, member, same, ?_⟩
  rw [← same]
  exact find?_of_nodup sound.ptrs member

theorem Daemon.watched_of_find {iface : Iface} {watcher : WatcherRef} (sound : daemon.Sound)
    (member : iface ∈ daemon.ifaces) (same : iface.ptr = watcher.iface) :
    daemon.watched watcher = dagLookup iface watcher.instanceId watcher.dodagid := by
  have found : ifaceFindByPtr daemon.ifaces iface.ptr = some iface := find?_of_nodup sound.ptrs member
  rw [Daemon.watched, ← same, found, Option.bind_some]

theorem Daemon.slot_of_find {iface : Iface} (sound : daemon.Sound) (member : iface ∈ daemon.ifaces)
    (same : iface.ptr = key.head.ptr) : daemon.slot key = dagLookup iface key.instanceId key.dodagid :=
  @Daemon.watched_of_find daemon iface key.watcher sound member same

theorem watched_updateFirst {accept : Iface → Bool} {change : Iface → Iface} {iface : Iface} {log : List Effect}
    {fault : Option Fault} (sound : daemon.Sound) (found : daemon.ifaces.find? accept = some iface)
    (head : (change iface).toIfaceHead = iface.toIfaceHead) (watcher : WatcherRef) :
    (Daemon.mk (updateFirst accept change daemon.ifaces) log fault).watched watcher =
      if iface.ptr == watcher.iface then dagLookup (change iface) watcher.instanceId watcher.dodagid
      else daemon.watched watcher := by
  have ptr : (change iface).ptr = iface.ptr := congrArg IfaceHead.ptr head
  simp only [Daemon.watched, ifaceFindByPtr]
  rw [find?_updateFirst_nodup sound.ptrs found ptr]
  split <;> rfl

/-! Packets. -/

variable {env : Env} {pkt : Packet} {iface : Iface}

theorem Daemon.packet_of_find (running : daemon.fault = none) (long : 4 ≤ pkt.len)
    (known : ifaceFindByIfindex daemon.ifaces pkt.ifindex = some iface) :
    let out := processIface env iface pkt.mem (pkt.len - 4) pkt.src
    daemon.step (.packet env pkt) =
      ⟨updateFirst (·.ifindex == pkt.ifindex) (fun _ => out.iface) daemon.ifaces, daemon.log ++ out.effects,
        out.fault⟩ := by
  simp [Daemon.step, running, Daemon.packet, process_of_find long known]

theorem Daemon.packet_effects (running : daemon.fault = none) (long : 4 ≤ pkt.len)
    (known : ifaceFindByIfindex daemon.ifaces pkt.ifindex = some iface) :
    (daemon.step (.packet env pkt)).log.drop daemon.log.length =
      (processIface env iface pkt.mem (pkt.len - 4) pkt.src).effects := by
  rw [Daemon.packet_of_find running long known, List.drop_left]

theorem Daemon.packet_dropped (running : daemon.fault = none)
    (unseen : pkt.len < 4 ∨ ifaceFindByIfindex daemon.ifaces pkt.ifindex = none) :
    daemon.step (.packet env pkt) = daemon := by
  have kept : Daemon.mk daemon.ifaces daemon.log none = daemon := by rw [← running]
  rcases unseen with short | missing
  · simpa [Daemon.step, running, Daemon.packet, process, short] using kept
  · by_cases short : pkt.len < 4
    · simpa [Daemon.step, running, Daemon.packet, process, short] using kept
    · simpa [Daemon.step, running, Daemon.packet, process, short, missing] using kept

theorem Daemon.packet_watched (sound : daemon.Sound) (running : daemon.fault = none) (long : 4 ≤ pkt.len)
    (found : ifaceFindByIfindex daemon.ifaces pkt.ifindex = some iface) (watcher : WatcherRef) :
    (daemon.step (.packet env pkt)).watched watcher =
      if iface.ptr == watcher.iface then
        dagLookup (processIface env iface pkt.mem (pkt.len - 4) pkt.src).iface watcher.instanceId watcher.dodagid
      else daemon.watched watcher := by
  rw [Daemon.packet_of_find running long found]
  exact watched_updateFirst sound found (processIface_follows env iface pkt.mem (pkt.len - 4) pkt.src).head watcher

theorem Daemon.packet_view (sound : daemon.Sound) (running : daemon.fault = none) (long : 4 ≤ pkt.len)
    (found : ifaceFindByIfindex daemon.ifaces pkt.ifindex = some iface) :
    let out := processIface env iface pkt.mem (pkt.len - 4) pkt.src
    (daemon.step (.packet env pkt)).slot key =
        (if iface.ptr == key.head.ptr then dagLookup out.iface key.instanceId key.dodagid else daemon.slot key) ∧
      daemon.made key (.packet env pkt) =
        if iface.ptr == key.head.ptr then keyEffects key.instanceId key.dodagid pkt.mem (pkt.len - 4) out.effects
        else [] := by
  intro out
  constructor
  · exact Daemon.packet_watched sound running long found key.watcher
  · simp only [Daemon.made, Daemon.packet_effects running long found, found, Option.any_some]
    rfl

theorem Daemon.head_of_ptr (sound : daemon.Sound) (known : daemon.Knows key) (member : iface ∈ daemon.ifaces)
    (same : iface.ptr = key.head.ptr) : iface.toIfaceHead = key.head := by
  obtain ⟨own, _, head, found⟩ := Daemon.knows_iface sound known
  have found' : ifaceFindByPtr daemon.ifaces iface.ptr = some iface := find?_of_nodup sound.ptrs member
  rw [same, found, Option.some.injEq] at found'
  rw [← found']
  exact head

theorem Daemon.packet_seen (daemon : Daemon) (pkt : Packet) :
    (pkt.len < 4 ∨ ifaceFindByIfindex daemon.ifaces pkt.ifindex = none) ∨
      ∃ iface, 4 ≤ pkt.len ∧ ifaceFindByIfindex daemon.ifaces pkt.ifindex = some iface := by
  by_cases long : 4 ≤ pkt.len
  · cases found : ifaceFindByIfindex daemon.ifaces pkt.ifindex with
    | none => exact Or.inl (Or.inr rfl)
    | some iface => exact Or.inr ⟨iface, long, rfl⟩
  · exact Or.inl (Or.inl (by omega))

theorem Daemon.made_of_still {event : Event} (still : daemon.step event = daemon) : daemon.made key event = [] := by
  cases event <;> simp [Daemon.made, still, keyEffects]

/-! Whom a packet is for. -/

theorem Daemon.reaction_unseen (known : daemon.Knows key)
    (unseen : pkt.len < 4 ∨ ifaceFindByIfindex daemon.ifaces pkt.ifindex = none) (slot : Option Dag) :
    (Event.packet env pkt).reaction key slot = idle slot := by
  have elsewhere : ¬ (pkt.ifindex = key.head.ifindex ∧ 4 ≤ pkt.len) := by
    rintro ⟨index, long⟩
    rcases unseen with short | missing
    · omega
    · obtain ⟨own, member, head⟩ := List.mem_map.mp known
      have differs := List.find?_eq_none.mp missing own member
      simp [index, ← head] at differs
  simp [Event.reaction, elsewhere]

theorem Daemon.reaction_here (sound : daemon.Sound) (known : daemon.Knows key) (long : 4 ≤ pkt.len)
    (found : ifaceFindByIfindex daemon.ifaces pkt.ifindex = some iface) (own : iface.ptr = key.head.ptr) :
    (Event.packet env pkt).reaction key (daemon.slot key) =
      slotMessage env iface.toIfaceHead key.instanceId key.dodagid pkt.mem (pkt.len - 4) pkt.src
        (dagLookup iface key.instanceId key.dodagid) := by
  have member := List.mem_of_find?_eq_some found
  have head := Daemon.head_of_ptr sound known member own
  have index : pkt.ifindex = key.head.ifindex := by
    have accepted := List.find?_some found
    rw [beq_iff_eq] at accepted
    rw [← accepted, ← head]
  simp only [Event.reaction, index, long, and_self, if_true]
  rw [Daemon.slot_of_find sound member own, head]

theorem Daemon.reaction_elsewhere (indexes : (daemon.ifaces.map (·.ifindex)).Nodup) (known : daemon.Knows key)
    (found : ifaceFindByIfindex daemon.ifaces pkt.ifindex = some iface) (apart : iface.ptr ≠ key.head.ptr)
    (slot : Option Dag) : (Event.packet env pkt).reaction key slot = idle slot := by
  have elsewhere : pkt.ifindex ≠ key.head.ifindex := by
    intro index
    obtain ⟨own, member, head⟩ := List.mem_map.mp known
    have first : daemon.ifaces.find? (·.ifindex == own.ifindex) = some own := find?_of_nodup indexes member
    rw [show own.ifindex = pkt.ifindex by rw [index, ← head]] at first
    rw [ifaceFindByIfindex, first, Option.some.injEq] at found
    exact apart (by rw [← found, ← head])
  simp [Event.reaction, elsewhere]

theorem Daemon.packet_slot_any (sound : daemon.Sound) (known : daemon.Knows key) (running : daemon.fault = none) :
    let event := Event.packet env pkt
    let reaction := event.reaction key (daemon.slot key)
    ((daemon.step event).slot key = daemon.slot key ∨ (daemon.step event).slot key = reaction.slot) ∧
      ∀ effect ∈ daemon.made key event, effect ∈ reaction.effects := by
  intro event reaction
  rcases Daemon.packet_seen daemon pkt with unseen | ⟨iface, long, found⟩
  · have still : daemon.step event = daemon := Daemon.packet_dropped running unseen
    rw [Daemon.made_of_still still, still]
    exact ⟨Or.inl rfl, by simp⟩
  · have member := List.mem_of_find?_eq_some found
    obtain ⟨slot, made⟩ := @Daemon.packet_view daemon key env pkt iface sound running long found
    rw [slot, made]
    by_cases own : iface.ptr = key.head.ptr
    · simp only [own, beq_self_eq_true, if_true, reaction, event, Daemon.reaction_here sound known long found own]
      rw [Daemon.slot_of_find sound member own]
      exact processIface_slot_any (sound.keyed iface member) (sound.refs iface member) _ _
    · simp [own]

theorem Daemon.packet_slot (sound : daemon.Sound) (indexes : (daemon.ifaces.map (·.ifindex)).Nodup)
    (known : daemon.Knows key) (allocs : env.AllocsSucceed) (running : daemon.fault = none)
    (returns : (daemon.step (.packet env pkt)).fault = none) :
    let event := Event.packet env pkt
    let reaction := event.reaction key (daemon.slot key)
    (daemon.step event).slot key = reaction.slot ∧ daemon.made key event = reaction.effects := by
  intro event reaction
  rcases Daemon.packet_seen daemon pkt with unseen | ⟨iface, long, found⟩
  · have still : daemon.step event = daemon := Daemon.packet_dropped running unseen
    rw [Daemon.made_of_still still, still, show reaction = _ from Daemon.reaction_unseen known unseen _]
    exact ⟨rfl, rfl⟩
  · have member := List.mem_of_find?_eq_some found
    obtain ⟨slot, made⟩ := @Daemon.packet_view daemon key env pkt iface sound running long found
    rw [slot, made]
    by_cases own : iface.ptr = key.head.ptr
    · rw [Daemon.packet_of_find running long found] at returns
      simp only [own, beq_self_eq_true, if_true, reaction, event, Daemon.reaction_here sound known long found own]
      exact processIface_slot (sound.keyed iface member) (sound.refs iface member) _ _ allocs returns
    · rw [show reaction = _ from Daemon.reaction_elsewhere indexes known found own _]
      simp [own, idle]

theorem Daemon.packet_fine_iff (sound : daemon.Sound) (indexes : (daemon.ifaces.map (·.ifindex)).Nodup)
    (allocs : env.AllocsSucceed) (running : daemon.fault = none) :
    (daemon.step (.packet env pkt)).fault = none ↔
      ∀ key, daemon.Knows key → ((Event.packet env pkt).reaction key (daemon.slot key)).fault = none := by
  rcases Daemon.packet_seen daemon pkt with unseen | ⟨iface, long, found⟩
  · refine iff_of_true (by rw [Daemon.packet_dropped running unseen]; exact running) ?_
    intro key known
    rw [Daemon.reaction_unseen known unseen]
    rfl
  · have member := List.mem_of_find?_eq_some found
    rw [Daemon.packet_of_find running long found]
    simp only
    rw [processIface_fine_iff (sound.keyed iface member) (sound.refs iface member) allocs]
    constructor
    · intro fine key known
      by_cases own : iface.ptr = key.head.ptr
      · rw [Daemon.reaction_here sound known long found own]
        exact fine key.instanceId key.dodagid
      · rw [Daemon.reaction_elsewhere indexes known found own]
        rfl
    · intro fine instanceId dodagid
      have known : daemon.Knows ⟨iface.toIfaceHead, instanceId, dodagid⟩ := List.mem_map_of_mem member
      have here := fine ⟨iface.toIfaceHead, instanceId, dodagid⟩ known
      rw [Daemon.reaction_here sound known long found rfl] at here
      exact here

/-! Timers. -/

theorem Daemon.trickle_none {watcher : WatcherRef} (running : daemon.fault = none)
    (missing : daemon.watched watcher = none) : daemon.step (.trickle env watcher) = daemon := by
  simp only [Daemon.step, running, Daemon.trickle]
  cases found : ifaceFindByPtr daemon.ifaces watcher.iface with
  | none => rfl
  | some iface =>
      simp only [Daemon.watched, found, Option.bind_some] at missing
      simp only [missing]

theorem Daemon.trickle_overrun {watcher : WatcherRef} {dag : Dag} (running : daemon.fault = none)
    (held : daemon.watched watcher = some dag) (long : 128 < dag.dest.len.toNat) :
    daemon.step (.trickle env watcher) = { daemon with fault := some .overrun } := by
  obtain ⟨iface, found, looked⟩ := Option.bind_eq_some_iff.mp held
  simp only [Daemon.step, running, Daemon.trickle, found, looked, sendDio_overrun env dag long]

theorem Daemon.trickle_sent {watcher : WatcherRef} {dag : Dag} (running : daemon.fault = none)
    (held : daemon.watched watcher = some dag) (valid : dag.dest.len.toNat ≤ 128) :
    daemon.step (.trickle env watcher) =
      ⟨updateFirst (·.ptr == watcher.iface)
        (fun iface => dagWrite iface watcher.instanceId watcher.dodagid fun _ => dag.afterDio) daemon.ifaces,
        daemon.log ++ [dag.dioMessage], none⟩ := by
  obtain ⟨iface, found, looked⟩ := Option.bind_eq_some_iff.mp held
  simp only [Daemon.step, running, Daemon.trickle, found, looked, sendDio_ok env dag valid]
  rfl

theorem Daemon.trickle_sent_watched {watcher : WatcherRef} {dag : Dag} (sound : daemon.Sound)
    (running : daemon.fault = none) (held : daemon.watched watcher = some dag) (valid : dag.dest.len.toNat ≤ 128)
    (other : WatcherRef) :
    (daemon.step (.trickle env watcher)).watched other =
      if watcher = other then some dag.afterDio else daemon.watched other := by
  obtain ⟨iface, found, looked⟩ := Option.bind_eq_some_iff.mp held
  have ptr := List.find?_some found
  rw [beq_iff_eq] at ptr
  have dodagid : dag.dodagid = watcher.dodagid := dagLookup_dodagid looked
  rw [Daemon.trickle_sent running held valid, watched_updateFirst sound found rfl]
  by_cases own : watcher = other
  · subst own
    simp only [ptr, beq_self_eq_true, if_true]
    exact dagLookup_dagWrite_const looked dodagid
  · simp only [own, if_false]
    by_cases here : iface.ptr = other.iface
    · have different : ¬ (other.instanceId = watcher.instanceId ∧ other.dodagid = watcher.dodagid) := by
        rintro ⟨sameId, sameDodagid⟩
        apply own
        rw [WatcherRef.mk.injEq, ← here, ptr, sameId, sameDodagid]
        exact ⟨rfl, rfl, rfl⟩
      simp only [here, beq_self_eq_true, if_true]
      rw [Daemon.watched_of_find sound (List.mem_of_find?_eq_some found) here]
      exact dagLookup_dagWrite_other (fun _ _ => dodagid) different
    · simp [here]

theorem Daemon.trickle_map {β : Type} {view : Dag → β} (kept : ∀ dag : Dag, view dag.afterDio = view dag)
    {watcher : WatcherRef} (sound : daemon.Sound) (running : daemon.fault = none) (other : WatcherRef) :
    ((daemon.step (.trickle env watcher)).watched other).map view = (daemon.watched other).map view := by
  cases held : daemon.watched watcher with
  | none => rw [Daemon.trickle_none running held]
  | some dag =>
      by_cases valid : dag.dest.len.toNat ≤ 128
      · rw [Daemon.trickle_sent_watched sound running held valid]
        split
        · rename_i own
          rw [← own, held, Option.map_some, Option.map_some, kept]
        · rfl
      · rw [Daemon.trickle_overrun running held (by omega)]
        rfl

theorem Daemon.trickle_view {watcher : WatcherRef} (sound : daemon.Sound) (running : daemon.fault = none) :
    let event := Event.trickle env watcher
    let reaction := event.reaction key (daemon.slot key)
    (daemon.step event).slot key = reaction.slot ∧ daemon.made key event = reaction.effects := by
  intro event reaction
  cases held : daemon.watched watcher with
  | none =>
      have still : daemon.step event = daemon := Daemon.trickle_none running held
      rw [Daemon.made_of_still still, still]
      simp only [event, reaction, Event.reaction]
      by_cases own : watcher = key.watcher
      · subst own
        rw [show daemon.slot key = none from held]
        simp [slotSendDio, idle]
      · simp [own, idle]
  | some dag =>
      by_cases valid : dag.dest.len.toNat ≤ 128
      · have slot : (daemon.step event).slot key = _ :=
          Daemon.trickle_sent_watched sound running held valid key.watcher
        rw [slot]
        simp only [event, Daemon.made, Daemon.trickle_sent running held valid, List.drop_left, reaction,
          Event.reaction]
        by_cases own : watcher = key.watcher
        · subst own
          rw [show daemon.slot key = some dag from held, slotSendDio_valid valid]
          simp
        · simp only [own, if_false, idle, and_true]
          rfl
      · have stepped := @Daemon.trickle_overrun daemon env watcher dag running held (by omega)
        simp only [event, reaction, Daemon.made, Event.reaction, stepped, List.drop_length]
        by_cases own : watcher = key.watcher
        · subst own
          rw [show daemon.slot key = some dag from held]
          simp only [if_true, slotSendDio, valid, if_false, and_true]
          exact held
        · simp only [own, if_false, idle, and_true]
          rfl

theorem Daemon.trickle_fault {watcher : WatcherRef} (running : daemon.fault = none) :
    (daemon.step (.trickle env watcher)).fault = (slotSendDio (daemon.watched watcher)).fault := by
  cases held : daemon.watched watcher with
  | none =>
      rw [Daemon.trickle_none running held]
      exact running
  | some dag =>
      by_cases valid : dag.dest.len.toNat ≤ 128
      · rw [Daemon.trickle_sent running held valid, slotSendDio_valid valid]
      · rw [Daemon.trickle_overrun running held (by omega)]
        simp [slotSendDio, valid]

theorem Daemon.trickle_fine_iff {watcher : WatcherRef} (running : daemon.fault = none) :
    (daemon.step (.trickle env watcher)).fault = none ↔
      ∀ key, daemon.Knows key → ((Event.trickle env watcher).reaction key (daemon.slot key)).fault = none := by
  rw [Daemon.trickle_fault running]
  constructor
  · intro fine key _
    simp only [Event.reaction]
    split
    · rename_i own
      subst own
      exact fine
    · rfl
  · intro fine
    cases held : daemon.watched watcher with
    | none => rfl
    | some dag =>
        obtain ⟨iface, found, _⟩ := Option.bind_eq_some_iff.mp held
        have ptr := List.find?_some found
        rw [beq_iff_eq] at ptr
        have own : watcher = (SlotKey.mk iface.toIfaceHead watcher.instanceId watcher.dodagid).watcher := by
          rw [SlotKey.watcher, ptr]
        have here := fine ⟨iface.toIfaceHead, watcher.instanceId, watcher.dodagid⟩
          (List.mem_map_of_mem (List.mem_of_find?_eq_some found))
        simp only [Event.reaction, ← own, if_true] at here
        rw [show daemon.slot ⟨iface.toIfaceHead, watcher.instanceId, watcher.dodagid⟩ = some dag by
          rw [← held, own]; rfl] at here
        exact here

theorem Daemon.dis_step {ptr : Nat} (running : daemon.fault = none) :
    (daemon.step (.dis env ptr)).ifaces = daemon.ifaces ∧ (daemon.step (.dis env ptr)).fault = none := by
  simp only [Daemon.step, running, Daemon.dis]
  split
  · exact ⟨rfl, running⟩
  · simp only [sendDis_ok, and_self]

theorem Daemon.timer_routine {event : Event} (timer : ∀ env pkt, event ≠ .packet env pkt) {effect : Effect}
    (member : effect ∈ (daemon.step event).log.drop daemon.log.length) : effect.Routine := by
  cases running : daemon.fault with
  | some fault => simp [Daemon.step, running] at member
  | none =>
      cases event with
      | packet env pkt => exact absurd rfl (timer env pkt)
      | trickle env watcher =>
          cases held : daemon.watched watcher with
          | none => simp [Daemon.trickle_none running held] at member
          | some dag =>
              by_cases valid : dag.dest.len.toNat ≤ 128
              · rw [Daemon.trickle_sent running held valid, List.drop_left, List.mem_singleton] at member
                rw [member]
                exact .dio dag
              · simp [Daemon.trickle_overrun running held (show 128 < _ by omega)] at member
      | dis env ptr =>
          simp only [Daemon.step, running, Daemon.dis] at member
          split at member
          · simp at member
          · rename_i iface _
            simp only [sendDis_ok, List.drop_left, List.mem_singleton] at member
            rw [member]
            exact .dis iface.ifindex iface.ifaddr

/-! One step. -/

theorem Daemon.step_slot_any (sound : daemon.Sound) (known : daemon.Knows key) (event : Event) :
    let reaction := event.reaction key (daemon.slot key)
    ((daemon.step event).slot key = daemon.slot key ∨ (daemon.step event).slot key = reaction.slot) ∧
      ∀ effect ∈ daemon.made key event, effect ∈ reaction.effects := by
  cases failed : daemon.fault with
  | some fault =>
      have still : daemon.step event = daemon := by simp [Daemon.step, failed]
      rw [Daemon.made_of_still still, still]
      exact ⟨Or.inl rfl, by simp⟩
  | none =>
      cases event with
      | packet env pkt => exact Daemon.packet_slot_any sound known failed
      | trickle env watcher =>
          obtain ⟨slot, made⟩ := @Daemon.trickle_view daemon key env watcher sound failed
          rw [slot, made]
          exact ⟨Or.inr rfl, fun _ member => member⟩
      | dis env ptr =>
          refine ⟨Or.inl ?_, by simp [Daemon.made]⟩
          rw [Daemon.slot, (Daemon.dis_step failed).1]
          rfl

/-- Where every interface has its own index, every allocation succeeds and the step ends
without a fault, each slot reacts on its own. -/
theorem Daemon.step_slot (sound : daemon.Sound) (indexes : (daemon.ifaces.map (·.ifindex)).Nodup)
    (known : daemon.Knows key) {event : Event} (allocs : event.env.AllocsSucceed) (running : daemon.fault = none)
    (returns : (daemon.step event).fault = none) :
    let reaction := event.reaction key (daemon.slot key)
    (daemon.step event).slot key = reaction.slot ∧ daemon.made key event = reaction.effects := by
  intro reaction
  cases event with
  | packet env pkt => exact Daemon.packet_slot sound indexes known allocs running returns
  | trickle env watcher => exact Daemon.trickle_view sound running
  | dis env ptr =>
      refine ⟨?_, rfl⟩
      rw [Daemon.slot, (Daemon.dis_step running).1]
      rfl

theorem Daemon.step_fine_iff (sound : daemon.Sound) (indexes : (daemon.ifaces.map (·.ifindex)).Nodup) {event : Event}
    (allocs : event.env.AllocsSucceed) (running : daemon.fault = none) :
    (daemon.step event).fault = none ↔
      ∀ key, daemon.Knows key → (event.reaction key (daemon.slot key)).fault = none := by
  cases event with
  | packet env pkt => exact Daemon.packet_fine_iff sound indexes allocs running
  | trickle env watcher => exact Daemon.trickle_fine_iff running
  | dis env ptr => exact iff_of_true (Daemon.dis_step running).2 fun _ _ => rfl

end

/-! Whole runs. -/

/-- The tables are sound and the interfaces are the given ones. -/
structure Daemon.Over (heads : List IfaceHead) (daemon : Daemon) : Prop where
  sound : daemon.Sound
  heads : daemon.ifaces.map (·.toIfaceHead) = heads

theorem Daemon.step_over {heads : List IfaceHead} {daemon : Daemon} (event : Event) (fixed : daemon.Over heads) :
    (daemon.step event).Over heads :=
  ⟨Daemon.step_sound event fixed.sound, (Daemon.step_heads daemon event).trans fixed.heads⟩

theorem Daemon.Over.knows {heads : List IfaceHead} {daemon : Daemon} {key : SlotKey} (fixed : daemon.Over heads)
    (known : key.head ∈ heads) : daemon.Knows key := by
  rw [Daemon.Knows, fixed.heads]
  exact known

theorem boot_over {inetPton : List Char → Option In6Addr} {confs : List IfaceConf} {daemon : Daemon}
    (booted : Daemon.boot inetPton confs = .ok daemon) : daemon.Over (daemon.ifaces.map (·.toIfaceHead)) :=
  ⟨boot_sound booted, rfl⟩

def Daemon.madeOver (daemon : Daemon) (key : SlotKey) (events : List Event) : List Effect :=
  outputs Daemon.step (fun state event => state.made key event) daemon events

/-- What every reaction of a slot keeps holds of it after every run, and what every effect
of a reaction satisfies holds of all that is made for it. -/
theorem Daemon.run_slot {heads : List IfaceHead} {key : SlotKey} (known : key.head ∈ heads)
    {good : Option Dag → Prop} {allowed : Effect → Prop}
    (keeps : ∀ slot (event : Event), good slot → good (event.reaction key slot).slot ∧
      ∀ effect ∈ (event.reaction key slot).effects, allowed effect)
    {daemon : Daemon} (fixed : daemon.Over heads) (initial : good (daemon.slot key)) (events : List Event) :
    good ((daemon.run events).slot key) ∧ ∀ effect ∈ daemon.madeOver key events, allowed effect := by
  induction events generalizing daemon with
  | nil => exact ⟨initial, by simp [Daemon.madeOver, outputs]⟩
  | cons event rest ih =>
      obtain ⟨next, made⟩ := Daemon.step_slot_any fixed.sound (fixed.knows known) event
      obtain ⟨reacted, permitted⟩ := keeps (daemon.slot key) event initial
      have now : good ((daemon.step event).slot key) := by
        rcases next with same | changed
        · rw [same]
          exact initial
        · rw [changed]
          exact reacted
      obtain ⟨final, later⟩ := ih (Daemon.step_over event fixed) now
      refine ⟨final, ?_⟩
      intro effect member
      rcases List.mem_append.mp member with here | after
      · exact permitted effect (made effect here)
      · exact later effect after

end Rpld
