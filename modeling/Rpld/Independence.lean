import Rpld.Lib.Parts
import Rpld.SlotRuns
import Rpld.StackBytes

/-!
Independence of the dags of a daemon. A run shows each key what it would see if only the
events that concern it had happened, and events that concern no common key can change places.
One thing gets across: the bytes that the handlers of other keys leave on the stack, where
`process_dio` does not write all of its local prefix.
-/

namespace Rpld

open Memory FirstMatch Runs Parts

/-- The event is a DIO, DAO or DAO-ACK on the interface that names the key, a DIS on the
interface, or the expiry of the timer of the key. -/
def Event.concerns (key : SlotKey) : Event → Bool
  | .packet _ pkt =>
      pkt.ifindex == key.head.ifindex && decide (4 ≤ pkt.len) &&
        (isDis pkt.mem || namedKey pkt.mem (pkt.len - 4) == some (key.instanceId, key.dodagid))
  | .trickle _ watcher => watcher == key.watcher
  | .dis _ _ => false

def slotPart (key : SlotKey) : Part (Option Dag) Event Effect where
  react slot event := (event.reaction key slot).slot
  emits slot event := (event.reaction key slot).effects
  fine slot event := (event.reaction key slot).fault = none

theorem reaction_unconcerned {key : SlotKey} {event : Event} (unconcerned : event.concerns key = false)
    (slot : Option Dag) : event.reaction key slot = idle slot := by
  cases event with
  | packet env pkt =>
      simp only [Event.reaction]
      split
      · rename_i here
        simp only [Event.concerns, here.1, here.2, beq_self_eq_true, decide_true, Bool.true_and,
          Bool.or_eq_false_iff, beq_eq_false_iff_ne, ne_eq] at unconcerned
        exact slotMessage_idle unconcerned.1 unconcerned.2 slot
      · rfl
  | trickle env watcher =>
      have apart : watcher ≠ key.watcher := by simpa [Event.concerns] using unconcerned
      simp [Event.reaction, apart]
  | dis env ptr => rfl

section

variable {key : SlotKey} (slot : Option Dag) (events : List Event)

theorem slotPart_filter :
    (events.filter (Event.concerns key)).foldl (slotPart key).react slot = events.foldl (slotPart key).react slot ∧
      outputs (slotPart key).react (slotPart key).emits slot (events.filter (Event.concerns key)) =
        outputs (slotPart key).react (slotPart key).emits slot events ∧
      (AllSteps (slotPart key).react (slotPart key).fine slot (events.filter (Event.concerns key)) ↔
        AllSteps (slotPart key).react (slotPart key).fine slot events) := by
  have skips : ∀ slot event, Event.concerns key event = false → (slotPart key).react slot event = slot := by
    intro slot event unconcerned
    simp [slotPart, reaction_unconcerned unconcerned, idle]
  have quiet : ∀ slot event, Event.concerns key event = false → (slotPart key).emits slot event = [] := by
    intro slot event unconcerned
    simp [slotPart, reaction_unconcerned unconcerned, idle]
  have harmless : ∀ slot event, Event.concerns key event = false → (slotPart key).fine slot event := by
    intro slot event unconcerned
    simp [slotPart, reaction_unconcerned unconcerned, idle]
  exact ⟨foldl_filter skips events slot, outputs_filter skips quiet events slot,
    allSteps_filter skips harmless events slot⟩

end

/-! The daemon splits into its slots. -/

theorem daemon_splits {heads : List IfaceHead} (indexes : (heads.map (·.ifindex)).Nodup) :
    Splits Daemon.step (fun daemon => daemon.fault = none) (Daemon.Over heads)
      (fun event => event.env.AllocsSucceed) (fun key => key.head ∈ heads) Daemon.slot Daemon.made slotPart := by
  have distinct : ∀ daemon : Daemon, daemon.Over heads → (daemon.ifaces.map (·.ifindex)).Nodup := by
    intro daemon fixed
    rw [← fixed.heads, List.map_map] at indexes
    exact indexes
  refine ⟨?_, ?_, ?_, ?_⟩
  · exact fun _ event fixed => Daemon.step_over event fixed
  · intro daemon event stopped returns
    cases failed : daemon.fault with
    | none => exact stopped failed
    | some fault => simp [Daemon.step, failed] at returns
  · intro daemon event fixed allocs running
    rw [Daemon.step_fine_iff fixed.sound (distinct daemon fixed) allocs running]
    constructor
    · exact fun fine key known => fine key (fixed.knows known)
    · intro fine key known
      rw [Daemon.Knows, fixed.heads] at known
      exact fine key known
  · intro daemon event fixed allocs running returns key known
    exact Daemon.step_slot fixed.sound (distinct daemon fixed) (fixed.knows known) allocs running returns

/-! What the events for one key do to another. -/

theorem reaction_shared {one two : SlotKey} (apart : one.watcher ≠ two.watcher)
    (indexes : one.head.ifindex = two.head.ifindex → one.head = two.head) {event : Event}
    (first : event.concerns one = true) (second : event.concerns two = true) (slot : Option Dag) :
    event.reaction two slot = slotSendDio slot := by
  cases event with
  | packet env pkt =>
      simp only [Event.concerns, Bool.and_eq_true, Bool.or_eq_true, beq_iff_eq, decide_eq_true_eq] at first second
      obtain ⟨⟨oneIndex, long⟩, oneNamed⟩ := first
      obtain ⟨⟨twoIndex, _⟩, twoNamed⟩ := second
      simp only [Event.reaction, twoIndex, long, and_self, if_true]
      cases dis : isDis pkt.mem with
      | true => simp [slotMessage, dis]
      | false =>
          simp only [dis, Bool.false_eq_true, false_or] at oneNamed twoNamed
          rw [oneNamed, Option.some.injEq, Prod.mk.injEq] at twoNamed
          have head := indexes (oneIndex.symm.trans twoIndex)
          exact absurd (by rw [SlotKey.watcher, SlotKey.watcher, head, twoNamed.1, twoNamed.2]) apart
  | trickle env watcher =>
      simp only [Event.concerns, beq_iff_eq] at first second
      exact absurd (first.symm.trans second) apart
  | dis env ptr => simp [Event.concerns] at first

theorem slotSendDio_fine {slot other : Option Dag}
    (same : ∀ dag, slot = some dag → ∃ kept, other = some kept ∧ kept.dest = dag.dest)
    (fine : (slotSendDio other).fault = none) : (slotSendDio slot).fault = none := by
  cases held : slot with
  | none => rfl
  | some dag =>
      obtain ⟨kept, otherHeld, dest⟩ := same dag held
      rw [otherHeld] at fine
      by_cases valid : dag.dest.len.toNat ≤ 128
      · rw [slotSendDio_valid valid]
      · rw [← dest] at valid
        simp [slotSendDio, valid] at fine

theorem slotPart_shared {one two : SlotKey} (apart : one.watcher ≠ two.watcher)
    (indexes : one.head.ifindex = two.head.ifindex → one.head = two.head) {slot full : Option Dag}
    (same : ∀ dag, slot = some dag → ∃ kept, full = some kept ∧ kept.dest = dag.dest) {events : List Event}
    (fine : AllSteps (slotPart two).react (slotPart two).fine full events) :
    AllSteps (slotPart two).react (slotPart two).fine slot (events.filter (Event.concerns one)) := by
  induction events generalizing slot full with
  | nil => trivial
  | cons event rest ih =>
      have keeps : ∀ kept, full = some kept →
          ∃ next, (slotPart two).react full event = some next ∧ next.dest = kept.dest := by
        intro kept held
        obtain ⟨next, reacted, advert⟩ := reaction_advert two event kept
        rw [held]
        exact ⟨next, reacted, congrArg Advert.dest advert⟩
      cases first : event.concerns one with
      | false =>
          rw [List.filter_cons_of_neg (by simp [first])]
          refine ih ?_ fine.2
          intro dag held
          obtain ⟨kept, fullHeld, dest⟩ := same dag held
          obtain ⟨next, reacted, nextDest⟩ := keeps kept fullHeld
          exact ⟨next, reacted, nextDest.trans dest⟩
      | true =>
          rw [List.filter_cons_of_pos first]
          cases second : event.concerns two with
          | false =>
              have skips : ∀ slot, (slotPart two).react slot event = slot := by
                intro slot
                simp [slotPart, reaction_unconcerned second, idle]
              have later := fine.2
              rw [skips] at later
              refine ⟨by simp [slotPart, reaction_unconcerned second, idle], ?_⟩
              rw [skips]
              exact ih same later
          | true =>
              have sends := reaction_shared apart indexes first second
              have here := fine.1
              simp only [slotPart, sends] at here
              refine ⟨?_, ih ?_ fine.2⟩
              · simp only [slotPart, sends]
                exact slotSendDio_fine same here
              · intro dag held
                cases before : slot with
                | none => simp [before, slotPart, sends, slotSendDio, idle] at held
                | some old =>
                    obtain ⟨kept, fullHeld, dest⟩ := same old before
                    obtain ⟨next, reacted, nextDest⟩ := keeps kept fullHeld
                    obtain ⟨sent, slotSent, advert⟩ := reaction_advert two event old
                    simp only [before, slotPart] at held
                    rw [held, Option.some.injEq] at slotSent
                    refine ⟨next, reacted, ?_⟩
                    rw [nextDest, dest, slotSent]
                    exact (congrArg Advert.dest advert).symm

/-! Two runs. -/

section

variable {heads : List IfaceHead} {daemon : Daemon} {events : List Event}
  (fixed : daemon.Over heads) (indexes : (heads.map (·.ifindex)).Nodup)
  (allocs : ∀ event ∈ events, event.env.AllocsSucceed) (returns : (daemon.run events).fault = none)
include fixed indexes allocs returns

/-- Runs in which a slot is concerned by the same events in the same order show it the same. -/
theorem shows_of_filter {others : List Event} (granted : ∀ event ∈ others, event.env.AllocsSucceed)
    (otherReturns : (daemon.run others).fault = none) {key : SlotKey} (known : key.head ∈ heads)
    (same : others.filter (Event.concerns key) = events.filter (Event.concerns key)) :
    (daemon.run others).slot key = (daemon.run events).slot key ∧
      daemon.madeOver key others = daemon.madeOver key events := by
  have splits := daemon_splits indexes
  obtain ⟨slot, made⟩ := foldl_shows splits fixed allocs returns key known
  obtain ⟨otherSlot, otherMade⟩ := foldl_shows splits fixed granted otherReturns key known
  constructor
  · calc (daemon.run others).slot key = others.foldl (slotPart key).react (daemon.slot key) := otherSlot
      _ = (others.filter (Event.concerns key)).foldl (slotPart key).react (daemon.slot key) :=
          (slotPart_filter _ others).1.symm
      _ = events.foldl (slotPart key).react (daemon.slot key) := by
          rw [same, (slotPart_filter _ events).1]
      _ = (daemon.run events).slot key := slot.symm
  · calc daemon.madeOver key others
        = outputs (slotPart key).react (slotPart key).emits (daemon.slot key) others := otherMade
      _ = outputs (slotPart key).react (slotPart key).emits (daemon.slot key) (others.filter (Event.concerns key)) :=
          (slotPart_filter _ others).2.1.symm
      _ = outputs (slotPart key).react (slotPart key).emits (daemon.slot key) events := by
          rw [same, (slotPart_filter _ events).2.1]
      _ = daemon.madeOver key events := made.symm

variable (running : daemon.fault = none)
include running

theorem run_of_filters {others : List Event} (granted : ∀ event ∈ others, event.env.AllocsSucceed)
    (same : ∀ key : SlotKey, key.head ∈ heads →
      others.filter (Event.concerns key) = events.filter (Event.concerns key)) :
    (daemon.run others).fault = none ∧
      ∀ key : SlotKey, key.head ∈ heads → (daemon.run others).slot key = (daemon.run events).slot key ∧
        daemon.madeOver key others = daemon.madeOver key events := by
  have splits := daemon_splits indexes
  have fine := (foldl_runs splits fixed allocs running).mp returns
  have otherFine : (daemon.run others).fault = none := by
    refine (foldl_runs splits fixed granted running).mpr ?_
    intro key known
    rw [← (slotPart_filter (daemon.slot key) others).2.2, same key known, (slotPart_filter _ events).2.2]
    exact fine key known
  refine ⟨otherFine, ?_⟩
  intro key known
  exact shows_of_filter fixed indexes allocs returns granted otherFine known (same key known)

theorem run_alone {key : SlotKey} (known : key.head ∈ heads) :
    let alone := events.filter (Event.concerns key)
    (daemon.run alone).fault = none ∧ (daemon.run alone).slot key = (daemon.run events).slot key ∧
      daemon.madeOver key alone = daemon.madeOver key events := by
  intro alone
  have splits := daemon_splits indexes
  have fine := (foldl_runs splits fixed allocs running).mp returns
  have granted : ∀ event ∈ alone, event.env.AllocsSucceed := by
    intro event member
    exact allocs event (List.mem_filter.mp member).1
  have ptrs : (heads.map (·.ptr)).Nodup := by
    have distinct := fixed.sound.ptrs
    rw [← fixed.heads, List.map_map]
    exact distinct
  have aloneFine : (daemon.run alone).fault = none := by
    refine (foldl_runs splits fixed granted running).mpr ?_
    intro other otherKnown
    by_cases own : key.watcher = other.watcher
    · have same : key = other := by
        simp only [SlotKey.watcher, WatcherRef.mk.injEq] at own
        have head := List.inj_on_of_nodup_map ptrs known otherKnown own.1
        cases key
        cases other
        simp_all
      subst same
      rw [(slotPart_filter _ events).2.2]
      exact fine key known
    · refine slotPart_shared own (List.inj_on_of_nodup_map indexes known otherKnown) ?_ (fine other otherKnown)
      exact fun dag held => ⟨dag, held, rfl⟩
  exact ⟨aloneFine, shows_of_filter fixed indexes allocs returns granted aloneFine known (by simp [alone])⟩

end

/-! What memory held before. -/

theorem Daemon.made_sameButMemory {daemon : Daemon} {event other : Event} (same : other.clearMemory = event.clearMemory)
    (whole : daemon.CopiesWhole event) (key : SlotKey) : daemon.made key other = daemon.made key event := by
  have cleared : ∀ any : Event, daemon.CopiesWhole any → daemon.made key any.clearMemory = daemon.made key any := by
    intro any anyWhole
    have step := Daemon.step_clearMemory anyWhole
    cases any <;> simp only [Daemon.made, step] <;> rfl
  rw [← cleared event whole, ← same, cleared other ((Daemon.copiesWhole_congr same).mpr whole)]

theorem madeOver_sameButMemory {daemon : Daemon} {events others : List Event} (same : SameButMemory events others)
    (whole : AllSteps Daemon.step Daemon.CopiesWhole daemon events) (key : SlotKey) :
    daemon.madeOver key others = daemon.madeOver key events := by
  induction events generalizing others daemon with
  | nil => rw [List.map_eq_nil_iff.mp same]
  | cons event rest ih =>
      obtain ⟨other, more, rfl, first, later⟩ := List.map_eq_cons_iff.mp same
      have onward := ih later whole.2
      simp only [Daemon.madeOver, outputs, Daemon.made_sameButMemory first whole.1,
        Daemon.step_sameButMemory first whole.1] at onward ⊢
      rw [onward]

def Packet.dioKey (pkt : Packet) (head : IfaceHead) : SlotKey := ⟨head, pkt.mem 4, addrAt pkt.mem 12⟩

section

variable {heads : List IfaceHead} {daemon : Daemon} {env : Env} {pkt : Packet} {iface : Iface}

theorem Daemon.Over.find (fixed : daemon.Over heads) (indexes : (heads.map (·.ifindex)).Nodup) {head : IfaceHead}
    (known : head ∈ heads) :
    ∃ iface, ifaceFindByIfindex daemon.ifaces head.ifindex = some iface ∧ iface.toIfaceHead = head ∧
      ∀ instanceId dodagid, daemon.slot ⟨head, instanceId, dodagid⟩ = dagLookup iface instanceId dodagid := by
  rw [← fixed.heads] at known indexes
  rw [List.map_map] at indexes
  obtain ⟨iface, member, same⟩ := List.mem_map.mp known
  refine ⟨iface, ?_, same, ?_⟩
  · rw [← same]
    exact find?_of_nodup indexes member
  · intro instanceId dodagid
    exact Daemon.slot_of_find fixed.sound member (by rw [← same])

theorem Daemon.CreatesFrom.concerned (making : daemon.CreatesFrom env pkt iface) (any : Env) :
    (Event.packet any pkt).concerns (pkt.dioKey iface.toIfaceHead) = true ∧ isDis pkt.mem = false := by
  have index := List.find?_some making.known
  have length := making.joins.length
  have base : sizeofDio ≤ pkt.len - 4 := by omega
  have named : namedKey pkt.mem (pkt.len - 4) = some (pkt.mem 4, addrAt pkt.mem 12) := by
    simp [namedKey, making.type, making.code, base]
  have notDis : isDis pkt.mem = false := by simp [isDis, making.code, ndRplDagIo, ndRplDagIs]
  simp only [beq_iff_eq] at index
  simp [Event.concerns, Packet.dioKey, index, making.long, named, notDis]

theorem Daemon.CreatesFrom.slot (making : daemon.CreatesFrom env pkt iface) (fixed : daemon.Over heads) :
    iface.toIfaceHead ∈ heads ∧ daemon.slot (pkt.dioKey iface.toIfaceHead) = none := by
  have member := List.mem_of_find?_eq_some making.known
  constructor
  · rw [← fixed.heads]
    exact List.mem_map_of_mem member
  · rw [Daemon.slot_of_find fixed.sound member rfl]
    exact making.joins.missing

theorem Daemon.CreatesFrom.elsewhere (making : daemon.CreatesFrom env pkt iface) {other : Daemon} {any : Env}
    (known : iface.toIfaceHead ∈ heads) (fixed : other.Over heads) (indexes : (heads.map (·.ifindex)).Nodup)
    (running : other.fault = none) (allocs : any.AllocsSucceed)
    (missing : other.slot (pkt.dioKey iface.toIfaceHead) = none) :
    ∃ later, later.toIfaceHead = iface.toIfaceHead ∧ other.CreatesFrom any pkt later := by
  obtain ⟨later, found, head, looks⟩ := fixed.find indexes known
  have index := List.find?_some making.known
  simp only [beq_iff_eq] at index
  refine ⟨later, head, running, making.long, making.type, making.code, by rw [← index]; exact found, ?_,
    creates_of_allocs allocs later _⟩
  exact ⟨making.joins.length, making.joins.option, by rw [← looks]; exact missing⟩

theorem concerns_unique {one two : SlotKey} (indexes : one.head.ifindex = two.head.ifindex → one.head = two.head)
    (notDis : isDis pkt.mem = false) (first : (Event.packet env pkt).concerns one = true)
    (second : (Event.packet env pkt).concerns two = true) : one = two := by
  simp only [Event.concerns, notDis, Bool.false_or, Bool.and_eq_true, beq_iff_eq, decide_eq_true_eq] at first second
  obtain ⟨⟨oneIndex, _⟩, oneNamed⟩ := first
  obtain ⟨⟨twoIndex, _⟩, twoNamed⟩ := second
  rw [oneNamed, Option.some.injEq, Prod.mk.injEq] at twoNamed
  have head := indexes (oneIndex.symm.trans twoIndex)
  cases one
  cases two
  simp_all

end

section

variable {heads : List IfaceHead} {daemon : Daemon} {events : List Event}
  (fixed : daemon.Over heads) (indexes : (heads.map (·.ifindex)).Nodup)
  (allocs : ∀ event ∈ events, event.env.AllocsSucceed) (returns : (daemon.run events).fault = none)
include fixed indexes allocs returns

/-- A run whose events are, for every key that one of them names, those of a run in which the
local is written whole writes it whole too. -/
theorem copiesWhole_of_filters {others : List Event} (granted : ∀ event ∈ others, event.env.AllocsSucceed)
    (otherReturns : (daemon.run others).fault = none)
    (same : ∀ key : SlotKey, key.head ∈ heads → ∀ env pkt, .packet env pkt ∈ others → isDis pkt.mem = false →
      (Event.packet env pkt).concerns key = true →
      others.filter (Event.concerns key) = events.filter (Event.concerns key))
    (whole : AllSteps Daemon.step Daemon.CopiesWhole daemon events) :
    AllSteps Daemon.step Daemon.CopiesWhole daemon others := by
  have splits := daemon_splits indexes
  rw [allSteps_iff] at whole ⊢
  rintro before (⟨env, pkt⟩ | _ | _) after rfl
  · intro iface making
    have reached : Daemon.Over heads (daemon.run before) :=
      foldl_invariant_always (fun _ event => Daemon.step_over event) before fixed
    obtain ⟨known, missing⟩ := making.slot reached
    obtain ⟨concerned, notDis⟩ := making.concerned env
    have filters := same (pkt.dioKey iface.toIfaceHead) known env pkt (by simp) notDis concerned
    rw [List.filter_append, List.filter_cons_of_pos concerned, eq_comm, List.filter_eq_append_iff] at filters
    obtain ⟨front, back, rfl, frontSame, backSame⟩ := filters
    obtain ⟨skipped, rest, rfl, unconcerned, _, _⟩ := List.filter_eq_cons_iff.mp backSame
    have prefixSame : before.filter (Event.concerns (pkt.dioKey iface.toIfaceHead)) =
        (front ++ skipped).filter (Event.concerns (pkt.dioKey iface.toIfaceHead)) := by
      rw [List.filter_append, frontSame, List.filter_eq_nil_iff.mpr unconcerned, List.append_nil]
    have running : ((front ++ skipped).foldl Daemon.step daemon).fault = none := by
      refine running_of_foldl splits (.packet env pkt :: rest) _ ?_
      rw [← List.foldl_append, List.append_assoc]
      exact returns
    have slot := (@shows_of_filter heads daemon (front ++ skipped) fixed indexes
      (fun event member => allocs event (by simp only [List.mem_append] at member ⊢; tauto)) running before
      (fun event member => granted event (by simp [member])) making.running (pkt.dioKey iface.toIfaceHead) known
      prefixSame).1
    obtain ⟨later, _, makingToo⟩ := making.elsewhere known
      (foldl_invariant_always (fun _ event => Daemon.step_over event) (front ++ skipped) fixed) indexes running
      (granted (.packet env pkt) (by simp)) (slot.symm.trans missing)
    exact whole (front ++ skipped) (.packet env pkt) rest (by simp) later makingToo
  · trivial
  · trivial

end

section

variable {heads : List IfaceHead} {daemon : Daemon} (fixed : daemon.Over heads) (indexes : (heads.map (·.ifindex)).Nodup)
include fixed indexes

/-- The events that concern the key of a created dag store what the DIO announces, and behind it
what the stack held. -/
theorem Daemon.CreatesFrom.stores_alone {before after : List Event} {env : Env} {pkt : Packet} {iface : Iface}
    (making : (daemon.run before).CreatesFrom env pkt iface)
    (allocs : ∀ event ∈ before ++ .packet env pkt :: after, event.env.AllocsSucceed)
    (fits : (bitsToBytes (pkt.mem 30)).toNat ≤ 16) (stack : In6Addr) :
    let key := pkt.dioKey iface.toIfaceHead
    let alone := before.filter (Event.concerns key) ++
      .packet { env with stack := stack } pkt :: after.filter (Event.concerns key)
    (daemon.run alone).fault = none → ((daemon.run alone).slot key).map (·.dest.pfx) =
      some ((addrAt pkt.mem 36).copyFront (bitsToBytes (pkt.mem 30)).toNat stack) := by
  intro key alone fine
  have splits := daemon_splits indexes
  obtain ⟨known, missing⟩ := making.slot (foldl_invariant_always (fun _ event => Daemon.step_over event) before fixed)
  let front := before.filter (Event.concerns key)
  have granted : env.AllocsSucceed := allocs (.packet env pkt) (by simp)
  have split : daemon.run alone = (daemon.run front).run
      (.packet { env with stack := stack } pkt :: after.filter (Event.concerns key)) := List.foldl_append ..
  have running : (daemon.run front).fault = none := running_of_foldl splits _ _ (split ▸ fine)
  have frontSlot := (@shows_of_filter heads daemon before fixed indexes
    (fun event member => allocs event (by simp [member])) making.running front
    (fun event member => allocs event (by simp [(List.mem_filter.mp member).1])) running key known (by simp [front])).1
  -- the restricted run has no dag for the key either when the DIO comes
  obtain ⟨later, head, makingToo⟩ := @Daemon.CreatesFrom.elsewhere heads _ env pkt iface making (daemon.run front)
    { env with stack := stack } known
    (foldl_invariant_always (fun _ event => Daemon.step_over event) front fixed) indexes running
    ⟨granted.rpl, granted.dag, granted.peer, granted.daoack, granted.child⟩ (frontSlot.trans missing)
  have stores := Daemon.run_stores makingToo fits (after.filter (Event.concerns key))
  have reached : Daemon.Over heads (daemon.run alone) :=
    foldl_invariant_always (fun _ event => Daemon.step_over event) _ fixed
  obtain ⟨last, found, _, looks⟩ := reached.find indexes known
  have index := List.find?_some making.known
  simp only [beq_iff_eq] at index
  rw [← split, ← index, found, Option.bind_some, ← looks] at stores
  exact stores

/-- If the events that concern a key show it the same over whatever memory held before, the
local is written whole wherever a dag is created. -/
theorem copiesWhole_of_alone {events : List Event} (allocs : ∀ event ∈ events, event.env.AllocsSucceed)
    (alone : ∀ key : SlotKey, key.head ∈ heads → ∀ others,
      SameButMemory (events.filter (Event.concerns key)) others →
      (daemon.run others).fault = none ∧ (daemon.run others).slot key = (daemon.run events).slot key) :
    AllSteps Daemon.step Daemon.CopiesWhole daemon events := by
  rw [allSteps_iff]
  rintro before (⟨env, pkt⟩ | _ | _) after rfl
  · intro iface making
    apply Classical.byContradiction
    intro short
    have count := bitsToBytes_toNat (pkt.mem 30)
    have known := (making.slot (foldl_invariant_always (fun _ event => Daemon.step_over event) before fixed)).1
    -- over a stack of zeros and over a stack of ones the key would be shown the same prefix
    have stored : ∀ stack,
        ((daemon.run (before ++ .packet env pkt :: after)).slot (pkt.dioKey iface.toIfaceHead)).map (·.dest.pfx) =
          some ((addrAt pkt.mem 36).copyFront (bitsToBytes (pkt.mem 30)).toNat stack) := by
      intro stack
      obtain ⟨fine, slot⟩ := alone (pkt.dioKey iface.toIfaceHead) known
        (before.filter (Event.concerns (pkt.dioKey iface.toIfaceHead)) ++ .packet { env with stack := stack } pkt ::
          after.filter (Event.concerns (pkt.dioKey iface.toIfaceHead))) (by
        simp [SameButMemory, List.filter_append, List.filter_cons_of_pos (making.concerned env).1,
          Event.clearMemory, Env.clearMemory, Env.clearStack])
      rw [← slot]
      exact making.stores_alone fixed indexes allocs (by omega) stack fine
    have equal := (stored .unspecified).symm.trans (stored filledAddr)
    exact copyFront_injective (by omega) (Option.some.inj equal)
  · trivial
  · trivial

end

section

variable {heads : List IfaceHead} {daemon : Daemon} {events : List Event}
  (fixed : daemon.Over heads) (indexes : (heads.map (·.ifindex)).Nodup)
  (allocs : ∀ event ∈ events, event.env.AllocsSucceed) (returns : (daemon.run events).fault = none)
  (running : daemon.fault = none) (whole : AllSteps Daemon.step Daemon.CopiesWhole daemon events)
include fixed indexes allocs returns running whole

theorem alone_of_copiesWhole {key : SlotKey} (known : key.head ∈ heads) {others : List Event}
    (same : SameButMemory (events.filter (Event.concerns key)) others) :
    (daemon.run others).fault = none ∧ (daemon.run others).slot key = (daemon.run events).slot key ∧
      daemon.madeOver key others = daemon.madeOver key events := by
  have shown := run_alone fixed indexes allocs returns running known
  have granted : ∀ event ∈ events.filter (Event.concerns key), event.env.AllocsSucceed :=
    fun event member => allocs event (List.mem_filter.mp member).1
  have aloneWhole := copiesWhole_of_filters fixed indexes allocs returns granted shown.1 ?_ whole
  · rw [run_sameButMemory same aloneWhole, madeOver_sameButMemory same aloneWhole]
    exact shown
  · intro other otherKnown env pkt member notDis concerned
    obtain rfl := concerns_unique (List.inj_on_of_nodup_map indexes otherKnown known) notDis concerned
      (List.mem_filter.mp member).2
    simp

theorem filters_of_copiesWhole {others : List Event} (granted : ∀ event ∈ others, event.env.AllocsSucceed)
    (filters : ∀ key : SlotKey, key.head ∈ heads →
      others.filter (Event.concerns key) = events.filter (Event.concerns key))
    {stale : List Event} (same : SameButMemory others stale) :
    (daemon.run stale).fault = none ∧
      ∀ key : SlotKey, key.head ∈ heads → (daemon.run stale).slot key = (daemon.run events).slot key ∧
        daemon.madeOver key stale = daemon.madeOver key events := by
  have shown := run_of_filters fixed indexes allocs returns running granted filters
  have othersWhole := copiesWhole_of_filters fixed indexes allocs returns granted shown.1
    (fun key known _ _ _ _ _ => filters key known) whole
  rw [run_sameButMemory same othersWhole]
  refine ⟨shown.1, ?_⟩
  intro key known
  rw [madeOver_sameButMemory same othersWhole]
  exact shown.2 key known

end

theorem filter_swapped {key : SlotKey} {first second : Event}
    (apart : ¬ (first.concerns key = true ∧ second.concerns key = true)) (before after : List Event) :
    (before ++ second :: first :: after).filter (Event.concerns key) =
      (before ++ first :: second :: after).filter (Event.concerns key) := by
  simp only [List.filter_append, List.filter_cons]
  cases one : first.concerns key <;> cases two : second.concerns key <;> simp_all

/-- The events that concern a key show it what the whole run does, and neighbouring events that
concern no common key can change places, whatever memory held before in the other run. -/
structure Daemon.Independent (daemon : Daemon) (events : List Event) : Prop where
  alone : ∀ key, daemon.Knows key → ∀ others, SameButMemory (events.filter (Event.concerns key)) others →
    (daemon.run others).fault = none ∧ (daemon.run others).slot key = (daemon.run events).slot key ∧
      daemon.madeOver key others = daemon.madeOver key events
  swapped : ∀ before first second after, events = before ++ first :: second :: after →
    (∀ key, daemon.Knows key → ¬ (first.concerns key = true ∧ second.concerns key = true)) →
    ∀ others, SameButMemory (before ++ second :: first :: after) others →
      (daemon.run others).fault = none ∧
        ∀ key, daemon.Knows key → (daemon.run others).slot key = (daemon.run events).slot key ∧
          daemon.madeOver key others = daemon.madeOver key events

section

variable {inetPton : List Char → Option In6Addr} {confs : List IfaceConf} {daemon : Daemon}

end

/-- A DIO that announces all 128 bits, so that nothing of the stack is left in the local. -/
def wholePrefixPacket : Packet :=
  ⟨overlay ([ndRplMessage, ndRplDagIo, 0, 0, 1, 1, 0, 1, 0, 0, 0, 0] ++ (linkLocal 9).s6Addr ++
    [0x3, 22, 128, 0, 0, 0, 0, 0] ++ (linkLocal 9).s6Addr) fun _ => 0, 52, linkLocal 9, 1⟩

def twoDagEvents (stack : In6Addr) (pkt : Packet) : List Event :=
  [.trickle .granting ⟨0, 1, linkLocal 1⟩, .packet { Env.granting with stack := stack } pkt]

theorem twoDagEvents_allocs (stack : In6Addr) (pkt : Packet) :
    ∀ event ∈ twoDagEvents stack pkt, event.env.AllocsSucceed := by
  have granted := Env.granting_allocs
  simp only [twoDagEvents, List.forall_mem_cons, Event.env]
  exact ⟨granted, ⟨granted.rpl, granted.dag, granted.peer, granted.daoack, granted.child⟩, by simp⟩

end Rpld
