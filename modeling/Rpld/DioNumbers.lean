import Rpld.Roles

/-!
The numbers of the DIOs. A dag sends a DIO when its timer expires and for every DIS that
arrives, in any order, and each one carries the next `dtsn`. Nothing else changes it.
-/

namespace Rpld

open Memory FirstMatch Runs

def Effect.isDio (effect : Effect) : Bool := effect.code == some ndRplDagIo

def Effect.dioDtsn (effect : Effect) : UInt8 := effect.bytes.getD 9 0

theorem dioMessage_dtsn (dag : Dag) : dag.dioMessage.dioDtsn = dag.dtsn := rfl

/-- What a step does to the numbers of a slot: it sends the next DIO, or it sends none and
keeps the number, with zero for a dag that is new. -/
inductive Numbering : Option Dag → List Effect → Option Dag → Prop
  | sends (dag : Dag) : Numbering (some dag) [dag.dioMessage] (some dag.afterDio)
  | keeps (dag next : Dag) (same : next.dtsn = dag.dtsn) : Numbering (some dag) [] (some next)
  | absent : Numbering none [] none
  | joins (dag : Dag) (new : dag.dtsn = 0) : Numbering none [] (some dag)

theorem numbering_still (slot : Option Dag) : Numbering slot [] slot := by
  cases slot with
  | none => exact .absent
  | some dag => exact .keeps dag dag rfl

/-! Messages other than a DIS. -/

theorem dagProcessDio_dtsn (env : Env) (dag : Dag) : (dagProcessDio env dag).1.dtsn = dag.dtsn := by
  rcases dagProcessDio_cases env dag with same | ⟨addr, _, wrote⟩
  · rw [same]
  · rw [wrote]

theorem hears_dtsn (env : Env) (dag : Dag) (rank : UInt16) (src : In6Addr) :
    (dag.hears env rank src).dag.dtsn = dag.dtsn := by
  by_cases available : HasParent env dag
  · have configured : (dagProcessDio env (dag.ranked rank src)).1.dtsn = dag.dtsn := dagProcessDio_dtsn env _
    rcases Dag.hears_cases available rank src with ⟨_, refused⟩ | ⟨_, _, exited⟩ | ⟨_, _, sent⟩
    · rw [refused]
    · rw [exited]
      exact configured
    · rw [sent, Dag.afterDao_eq]
      exact configured
  · rw [Dag.hears_without available]

section

variable {env : Env} {head : IfaceHead} {instanceId : UInt8} {dodagid : In6Addr} {mem : Nat → UInt8} {len : Nat}
  {src : In6Addr} {slot : Option Dag}

theorem isDio_false {effect : Effect} (other : effect.code ≠ some ndRplDagIo) : effect.isDio = false := by
  simpa [Effect.isDio] using other

theorem slotDio_numbering : Numbering slot [] (slotDio env head mem len src slot).slot ∧
    ∀ effect ∈ (slotDio env head mem len src slot).effects, effect.isDio = false := by
  cases slot with
  | some dag =>
      simp only [slotDio]
      split
      · exact ⟨.keeps dag dag rfl, by simp [idle]⟩
      · refine ⟨.keeps dag _ (hears_dtsn env dag _ src), ?_⟩
        intro effect member
        exact isDio_false (hears_code (by simpa [Dag.reacts] using member))
  | none =>
      simp only [slotDio]
      split
      · split
        · exact ⟨.absent, by simp⟩
        · refine ⟨.joins _ (hears_dtsn env _ _ src), ?_⟩
          intro effect member
          rcases List.mem_append.mp member with timer | request
          · exact isDio_false (code_of_bytes (dagInitTimer_bytes timer) _)
          · exact isDio_false (hears_code request)
      · exact ⟨.absent, by simp [idle]⟩

theorem slotDao_numbering : Numbering slot [] (slotDao env mem len src slot).slot ∧
    ∀ effect ∈ (slotDao env mem len src slot).effects, effect.isDio = false := by
  cases slot with
  | none => exact ⟨.absent, by simp [slotDao, idle]⟩
  | some dag =>
      obtain ⟨targets, walked⟩ := daoOptions_registers env mem src (len - sizeofDao)
        ⟨24, ((len - sizeofDao : Nat) : Int), dag, 4 :: addrReads 8⟩
      simp only [slotDao, walked]
      refine ⟨.keeps dag _ rfl, ?_⟩
      intro effect member
      split at member
      · rcases List.mem_append.mp member with route | ack
        · exact isDio_false (code_of_bytes (childRoutes_bytes route).1 _)
        · rw [List.mem_singleton] at ack
          rw [ack]
          rfl
      · simp at member

theorem slotMessage_numbering (notDis : isDis mem = false) :
    Numbering slot [] (slotMessage env head instanceId dodagid mem len src slot).slot ∧
      ∀ effect ∈ (slotMessage env head instanceId dodagid mem len src slot).effects, effect.isDio = false := by
  simp only [slotMessage, notDis, Bool.false_eq_true, if_false]
  split
  · split
    · exact slotDio_numbering
    split
    · exact slotDao_numbering
    · cases slot with
      | none => exact ⟨.absent, by simp [slotDaoack, idle]⟩
      | some dag =>
          refine ⟨.keeps dag dag rfl, ?_⟩
          intro effect member
          simp only [slotDaoack, List.mem_map] at member
          obtain ⟨parent, _, rfl⟩ := member
          rfl
  · exact ⟨numbering_still slot, by simp [idle]⟩

end

/-! A DIS. -/

section

variable {env : Env} {iface : Iface} {instanceId : UInt8} {dodagid : In6Addr}

/-- A dag is answered for or left alone, also where another one stops the loop. -/
theorem processDis_numbering (keyed : iface.Keyed) (refs : iface.BackRefs) :
    let out := processDis env iface
    Numbering (dagLookup iface instanceId dodagid) (out.effects.filter (Effect.carries instanceId dodagid))
      (dagLookup out.iface instanceId dodagid) := by
  intro out
  have follows : Follows (fun _ => True) iface out.iface := processDis_follows env iface
  obtain ⟨sent, left, split, answered⟩ := sendDioRpls_answered env iface.rpls
  have before : dagLookup iface instanceId dodagid = (sent ++ left).find? (fun dag => dag.key == (instanceId, dodagid)) := by
    rw [← split]
    exact dagLookup_dags keyed refs instanceId dodagid
  have after : dagLookup out.iface instanceId dodagid =
      (sent.map Dag.afterDio ++ left).find? (fun dag => dag.key == (instanceId, dodagid)) := by
    rw [← answered.after]
    exact dagLookup_dags (follows_keyed follows keyed) (follows_backRefs follows refs) instanceId dodagid
  have messages : out.effects.filter (Effect.carries instanceId dodagid) =
      (sent.find? fun dag => dag.key == (instanceId, dodagid)).toList.map Dag.dioMessage := by
    have carried : (Effect.carries instanceId dodagid) ∘ Dag.dioMessage =
        fun dag => dag.key == (instanceId, dodagid) := funext fun dag => dioMessage_carries dag instanceId dodagid
    have distinct := dags_keys_nodup keyed refs
    rw [show iface.dags = sent ++ left from split, List.map_append, List.nodup_append] at distinct
    rw [show out.effects = sent.map Dag.dioMessage from answered.effects, List.filter_map, carried,
      filter_of_nodup distinct.1]
  have same : (fun dag : Dag => dag.key == (instanceId, dodagid)) ∘ Dag.afterDio =
      fun dag => dag.key == (instanceId, dodagid) := rfl
  rw [before, after, messages, List.find?_append, List.find?_append, List.find?_map, same]
  cases sent.find? fun dag => dag.key == (instanceId, dodagid) with
  | none =>
      simp only [Option.map_none, Option.none_or, Option.toList_none, List.map_nil]
      exact numbering_still _
  | some dag => exact .sends dag

end

/-! One step. -/

theorem numbering_filter {before after : Option Dag} {effects : List Effect} (numbering : Numbering before effects after) :
    Numbering before (effects.filter Effect.isDio) after := by
  cases numbering with
  | sends dag => exact .sends dag
  | keeps dag next same => exact .keeps dag next same
  | absent => exact .absent
  | joins dag new => exact .joins dag new

theorem slotSendDio_numbering (slot : Option Dag) : Numbering slot (slotSendDio slot).effects (slotSendDio slot).slot := by
  cases slot with
  | none => exact .absent
  | some dag =>
      simp only [slotSendDio]
      split
      · exact .sends dag
      · exact .keeps dag dag rfl

section

variable {daemon : Daemon} {key : SlotKey}

theorem numbering_quiet {event : Event} {reaction : Reaction} (numbering : Numbering (daemon.slot key) [] reaction.slot)
    (quiet : ∀ effect ∈ reaction.effects, effect.isDio = false)
    (slot : (daemon.step event).slot key = daemon.slot key ∨ (daemon.step event).slot key = reaction.slot)
    (made : ∀ effect ∈ daemon.made key event, effect ∈ reaction.effects) :
    Numbering (daemon.slot key) ((daemon.made key event).filter Effect.isDio) ((daemon.step event).slot key) := by
  have none : (daemon.made key event).filter Effect.isDio = [] := by
    rw [List.filter_eq_nil_iff]
    intro effect member
    simp [quiet effect (made effect member)]
  rw [none]
  rcases slot with same | reacted
  · rw [same]
    exact numbering_still _
  · rw [reacted]
    exact numbering

theorem Daemon.packet_numbering (sound : daemon.Sound) (known : daemon.Knows key) (running : daemon.fault = none)
    (env : Env) (pkt : Packet) :
    Numbering (daemon.slot key) ((daemon.made key (.packet env pkt)).filter Effect.isDio)
      ((daemon.step (.packet env pkt)).slot key) := by
  obtain ⟨slot, made⟩ := @Daemon.packet_slot_any daemon key env pkt sound known running
  rcases Daemon.packet_seen daemon pkt with unseen | ⟨iface, long, found⟩
  · rw [Daemon.reaction_unseen known unseen] at slot made
    exact numbering_quiet (numbering_still _) (by simp [idle]) slot made
  · have member := List.mem_of_find?_eq_some found
    obtain ⟨viewSlot, viewMade⟩ := @Daemon.packet_view daemon key env pkt iface sound running long found
    by_cases own : iface.ptr = key.head.ptr
    · rw [Daemon.reaction_here sound known long found own] at slot made
      cases asks : isDis pkt.mem with
      | true =>
          obtain ⟨sameIface, sameEffects, _⟩ := @processIface_dis env iface pkt.mem (pkt.len - 4) pkt.src asks
          simp only [own, beq_self_eq_true, if_true, sameIface, sameEffects, keyEffects, asks] at viewSlot viewMade
          rw [viewSlot, viewMade, Daemon.slot_of_find sound member own]
          exact numbering_filter (processDis_numbering (sound.keyed iface member) (sound.refs iface member))
      | false =>
          have numbering := @slotMessage_numbering env iface.toIfaceHead key.instanceId key.dodagid pkt.mem (pkt.len - 4)
            pkt.src (dagLookup iface key.instanceId key.dodagid) asks
          refine numbering_quiet ?_ numbering.2 slot made
          rw [Daemon.slot_of_find sound member own]
          exact numbering.1
    · simp only [own, beq_iff_eq, if_false] at viewSlot viewMade
      rw [viewSlot, viewMade]
      exact numbering_still _

theorem Daemon.step_numbering (sound : daemon.Sound) (known : daemon.Knows key) (event : Event) :
    Numbering (daemon.slot key) ((daemon.made key event).filter Effect.isDio) ((daemon.step event).slot key) := by
  cases running : daemon.fault with
  | some fault =>
      have still : daemon.step event = daemon := by simp [Daemon.step, running]
      rw [Daemon.made_of_still still, still]
      exact numbering_still _
  | none =>
      cases event with
      | packet env pkt => exact Daemon.packet_numbering sound known running env pkt
      | trickle env watcher =>
          obtain ⟨slot, made⟩ := @Daemon.trickle_view daemon key env watcher sound running
          rw [slot, made]
          refine numbering_filter ?_
          simp only [Event.reaction]
          split
          · exact slotSendDio_numbering _
          · exact numbering_still _
      | dis env ptr =>
          have slot : (daemon.step (.dis env ptr)).slot key = daemon.slot key := by
            rw [Daemon.slot, (Daemon.dis_step running).1]
            rfl
          rw [slot]
          exact numbering_still _

/-! Whole runs. -/

/-- The slot has sent `count` DIOs so far. -/
def Numbered (count : Nat) (slot : Option Dag) : Prop :=
  (slot = none → count = 0) ∧ ∀ dag, slot = some dag → dag.dtsn = UInt8.ofNat count

theorem numbering_numbered {before after : Option Dag} {dios : List Effect} {count : Nat}
    (numbering : Numbering before dios after) (numbered : Numbered count before) :
    Numbered (count + dios.length) after ∧ dios.map Effect.dioDtsn = (List.range' count dios.length).map UInt8.ofNat := by
  cases numbering with
  | sends dag =>
      have number := numbered.2 dag rfl
      refine ⟨⟨by simp, ?_⟩, by simp [dioMessage_dtsn, number, List.range'_succ]⟩
      intro next same
      rw [Option.some.injEq] at same
      rw [← same]
      simp [Dag.afterDio, number, UInt8.ofNat_add]
  | keeps dag next same =>
      refine ⟨⟨by simp, ?_⟩, rfl⟩
      intro other equal
      rw [Option.some.injEq] at equal
      rw [← equal, same]
      exact numbered.2 dag rfl
  | absent => exact ⟨numbered, rfl⟩
  | joins dag new =>
      have zero := numbered.1 rfl
      refine ⟨⟨by simp, ?_⟩, rfl⟩
      intro other equal
      rw [Option.some.injEq] at equal
      rw [← equal, new, zero]
      rfl

theorem Daemon.run_numbered {heads : List IfaceHead} (fixed : daemon.Over heads) (known : key.head ∈ heads) {count : Nat}
    (numbered : Numbered count (daemon.slot key)) (events : List Event) :
    let dios := (daemon.madeOver key events).filter Effect.isDio
    Numbered (count + dios.length) ((daemon.run events).slot key) ∧
      dios.map Effect.dioDtsn = (List.range' count dios.length).map UInt8.ofNat := by
  induction events generalizing daemon count with
  | nil => exact ⟨numbered, rfl⟩
  | cons event rest ih =>
      intro dios
      obtain ⟨next, here⟩ :=
        numbering_numbered (Daemon.step_numbering fixed.sound (fixed.knows known) event) numbered
      obtain ⟨final, later⟩ := ih (Daemon.step_over event fixed) next
      have split : dios = (daemon.made key event).filter Effect.isDio ++
          ((daemon.step event).madeOver key rest).filter Effect.isDio := List.filter_append ..
      rw [split, List.length_append, ← Nat.add_assoc]
      refine ⟨final, ?_⟩
      rw [List.map_append, here, later, ← List.map_append, List.range'_append_1]

end

theorem boot_dtsn {inetPton : List Char → Option In6Addr} {confs : List IfaceConf} {daemon : Daemon}
    (booted : Daemon.boot inetPton confs = .ok daemon) :
    ∀ iface ∈ daemon.ifaces, iface.AllDags fun _ dag => dag.dtsn = 0 := by
  obtain ⟨_, effects, loaded⟩ := boot_ifaces booted
  refine @configLoad_forall inetPton (fun iface => iface.AllDags fun _ dag => dag.dtsn = 0) (fun _ => True)
    ?_ ?_ confs (fun _ _ _ _ => trivial) daemon.ifaces effects loaded
  · intro head rpl member
    simp at member
  · intro iface instanceId conf dest dodagid _ _ _ all
    exact withDag_allDags all rfl

/-- The DIOs that are sent for one dag, from the start on and whatever arrives in between,
carry the numbers 0, 1, 2 and so on modulo 256 without a gap, and the `dtsn` of the dag is
the number of the next one. -/
theorem run_dios_numbered {inetPton : List Char → Option In6Addr} {confs : List IfaceConf} {daemon : Daemon}
    (booted : Daemon.boot inetPton confs = .ok daemon) (key : SlotKey)
    (known : key.head ∈ daemon.ifaces.map (·.toIfaceHead)) (events : List Event) :
    let dios := (daemon.madeOver key events).filter Effect.isDio
    dios.map Effect.dioDtsn = (List.range dios.length).map UInt8.ofNat ∧
      ∀ dag, (daemon.run events).slot key = some dag → dag.dtsn = UInt8.ofNat dios.length := by
  intro dios
  have start : Numbered 0 (daemon.slot key) := by
    refine ⟨fun _ => rfl, ?_⟩
    intro dag held
    obtain ⟨iface, found, looked⟩ := Option.bind_eq_some_iff.mp held
    exact dagLookup_allDags (boot_dtsn booted iface (List.mem_of_find?_eq_some found)) looked
  obtain ⟨numbered, numbers⟩ := Daemon.run_numbered (boot_over booted) known start events
  rw [Nat.zero_add] at numbered
  rw [← List.range_eq_range'] at numbers
  exact ⟨numbers, numbered.2⟩

def disPacket : Packet := ⟨overlay [ndRplMessage, ndRplDagIs, 0, 0, 0, 0] fun _ => 0, 6, linkLocal 9, 1⟩

def sampleSlot : SlotKey := ⟨⟨0, 1, (sampleConf "fd00::/64").llinfo 1, linkLocal 1, true⟩, 1, linkLocal 1⟩

def sampleDioEvents : List Event :=
  [.trickle .granting sampleSlot.watcher, .packet .granting disPacket, .trickle .granting sampleSlot.watcher]

/-- The timer, a DIS and the timer again, for the dag of a root. -/
theorem run_dios_numbered_sampleDioEvents :
    ∃ daemon, Daemon.boot sampleInetPton [sampleConf "fd00::/64"] = .ok daemon ∧
      ((daemon.madeOver sampleSlot sampleDioEvents).filter Effect.isDio).map Effect.dioDtsn = [0, 1, 2] := by
  obtain ⟨daemon, booted⟩ := boot_sample
  have evaluated : (Daemon.boot sampleInetPton [sampleConf "fd00::/64"]).toOption.map (fun daemon =>
      (daemon.ifaces.map (·.toIfaceHead), ((daemon.madeOver sampleSlot sampleDioEvents).filter Effect.isDio).length)) =
      some ([sampleSlot.head], 3) := by decide +kernel
  rw [booted, Except.toOption, Option.map_some, Option.some.injEq, Prod.mk.injEq] at evaluated
  have numbers := (run_dios_numbered booted sampleSlot (by simp [evaluated.1]) sampleDioEvents).1
  rw [evaluated.2] at numbers
  exact ⟨daemon, booted, numbers⟩

end Rpld
