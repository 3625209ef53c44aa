import Rpld.Slots

/-!
What the previous contents of the stack can change. `process_dio` copies the bytes of an
announced prefix into the local `pfx` and stores all sixteen of them in the dag it creates, so
a prefix that is shorter than an address leaves bytes of the stack in the tables. What the
heap held before shows nowhere.
-/

namespace Rpld

open Memory Runs

/-- The event with nothing in the memory that `pfx` comes to lie in. -/
def Env.clearStack (env : Env) : Env := { env with stack := .unspecified }

def Event.clearStack : Event → Event
  | .packet env pkt => .packet env.clearStack pkt
  | .trickle env watcher => .trickle env.clearStack watcher
  | .dis env ptr => .dis env.clearStack ptr

/-- Two runs that differ in the previous contents of the stack only. -/
def SameButStack (events others : List Event) : Prop :=
  others.map Event.clearStack = events.map Event.clearStack

/-- The event with nothing either in the memory that the send buffer comes to lie in. -/
def Env.clearMemory (env : Env) : Env := { env.clearStack with heap := fun _ => 0 }

def Event.clearMemory : Event → Event
  | .packet env pkt => .packet env.clearMemory pkt
  | .trickle env watcher => .trickle env.clearMemory watcher
  | .dis env ptr => .dis env.clearMemory ptr

/-- Two runs that differ in what memory held before only. -/
def SameButMemory (events others : List Event) : Prop :=
  others.map Event.clearMemory = events.map Event.clearMemory

theorem sameButMemory_of_stack {events others : List Event} (same : SameButStack events others) :
    SameButMemory events others := by
  have cleared : ∀ event : Event, event.clearStack.clearMemory = event.clearMemory := by
    intro event
    cases event <;> rfl
  have both := congrArg (List.map Event.clearMemory) same
  simp only [List.map_map, Function.comp_def, cleared] at both
  exact both

/-- A DIO that makes the running daemon create a dag. -/
structure Daemon.CreatesFrom (daemon : Daemon) (env : Env) (pkt : Packet) (iface : Iface) : Prop where
  running : daemon.fault = none
  long : 4 ≤ pkt.len
  type : pkt.mem 0 = ndRplMessage
  code : pkt.mem 1 = ndRplDagIo
  known : ifaceFindByIfindex daemon.ifaces pkt.ifindex = some iface
  joins : Joins iface pkt.mem (pkt.len - 4)
  creates : Creates env iface (pkt.mem 4)

/-- Over a DIO that creates a dag the whole local is written: more than 120 bits are announced. -/
def Daemon.CopiesWhole (daemon : Daemon) : Event → Prop
  | .packet env pkt => ∀ iface, daemon.CreatesFrom env pkt iface → 120 < (pkt.mem 30).toNat
  | .trickle _ _ => True
  | .dis _ _ => True

/-! Handlers that do not read the local. -/

section

variable (env : Env)

theorem sendDio_clearMemory (dag : Dag) : sendDio env.clearMemory dag = sendDio env dag := by
  by_cases valid : dag.dest.len.toNat ≤ 128
  · rw [sendDio_ok _ dag valid, sendDio_ok _ dag valid]
  · rw [sendDio_overrun _ dag (by omega), sendDio_overrun _ dag (by omega)]

theorem sendDao_clearMemory (dst : In6Addr) (dag : Dag) : sendDao env.clearMemory dst dag = sendDao env dst dag := by
  by_cases fits : dag.daoBytes.length ≤ safeBufferLimit
  · rw [sendDao_ok _ dst dag fits, sendDao_ok _ dst dag fits]
    rfl
  · rw [sendDao_exit _ dst dag (by omega), sendDao_exit _ dst dag (by omega)]

theorem sendDioDags_clearMemory (dags : List Dag) : sendDioDags env.clearMemory dags = sendDioDags env dags := by
  induction dags with
  | nil => rfl
  | cons dag rest ih => simp only [sendDioDags, ih, sendDio_clearMemory]

theorem sendDioRpls_clearMemory (rpls : List Rpl) : sendDioRpls env.clearMemory rpls = sendDioRpls env rpls := by
  induction rpls with
  | nil => rfl
  | cons rpl rest ih => simp only [sendDioRpls, ih, sendDioDags_clearMemory]

theorem daoOptions_clearMemory (mem : Nat → UInt8) (src : In6Addr) (turns : Nat) (cursor : DaoCursor) :
    daoOptions env.clearMemory mem src turns cursor = daoOptions env mem src turns cursor := by
  induction turns generalizing cursor with
  | zero => rfl
  | succ turns ih =>
      simp only [daoOptions, ih]
      rfl

theorem processDis_clearMemory (iface : Iface) : processDis env.clearMemory iface = processDis env iface := by
  simp only [processDis, sendDioRpls_clearMemory]

theorem processDao_clearMemory (iface : Iface) (mem : Nat → UInt8) (len : Nat) (src : In6Addr) :
    processDao env.clearMemory iface mem len src = processDao env iface mem len src := by
  simp only [processDao, daoOptions_clearMemory, sendDaoAck_ok]

theorem processDioRank_clearMemory (iface : Iface) (instanceId : UInt8) (dodagid : In6Addr) (dag : Dag) (rank : UInt16)
    (src : In6Addr) (effects : List Effect) (reads : List Nat) :
    processDioRank env.clearMemory iface instanceId dodagid dag rank src effects reads =
      processDioRank env iface instanceId dodagid dag rank src effects reads := by
  simp only [processDioRank, sendDao_clearMemory]
  rfl

end

/-! The one that does. -/

theorem whole_prefix {bits : UInt8} (long : 120 < bits.toNat) : 16 ≤ (bitsToBytes bits).toNat := by
  rw [bitsToBytes_toNat]
  omega

theorem dagCreate_denied_dest {env : Env} {iface : Iface} {instanceId : UInt8} (denied : ¬ Creates env iface instanceId)
    (dodagid : In6Addr) (trickleT : EvTstamp) (myRank : UInt16) (version : UInt8) (dest : In6Prefix) :
    dagCreate env iface instanceId dodagid trickleT myRank version dest =
      dagCreate env iface instanceId dodagid trickleT myRank version ⟨.unspecified, 0⟩ := by
  unfold dagCreate
  cases linked : dagLookupRpl iface instanceId with
  | some rpl =>
      have refused : env.dagAlloc = false := by simpa [Creates, linked] using denied
      simp [refused]
  | none =>
      cases granted : env.rplAlloc with
      | false => simp [dagRplCreate]
      | true =>
          have refused : env.dagAlloc = false := by simpa [Creates, linked, granted] using denied
          simp [refused, dagRplCreate]

theorem processDio_clearMemory {env : Env} {iface : Iface} {mem : Nat → UInt8} {len : Nat} {src : In6Addr}
    (whole : Joins iface mem len → Creates env iface (mem 4) → 120 < (mem 30).toNat) :
    processDio env.clearMemory iface mem len src = processDio env iface mem len src := by
  by_cases short : len < sizeofDio
  · simp only [processDio, short, if_true]
  simp only [processDio, short, if_false, processDioRank_clearMemory]
  cases found : dagLookup iface (mem 4) (addrAt mem 12) with
  | some dag => rfl
  | none =>
      simp only
      split
      · rfl
      split
      · rfl
      split
      · rfl
      rename_i head kind room
      have joins : Joins iface mem len := ⟨by omega, by simpa using kind, found⟩
      split
      · rfl
      by_cases creates : Creates env iface (mem 4)
      · have all := whole_prefix (whole joins creates)
        have empty : ∀ addr : In6Addr, addr.s6Addr.drop (bitsToBytes (mem 30)).toNat = [] := by
          intro addr
          rw [List.drop_eq_nil_iff, addr.size]
          exact all
        simp only [empty]
        rfl
      · have denied : ¬ Creates env.clearMemory iface (mem 4) := creates
        rw [dagCreate_denied_dest creates, dagCreate_denied_dest denied]
        rfl

theorem processIface_clearMemory {env : Env} {iface : Iface} {mem : Nat → UInt8} {len : Nat} {src : In6Addr}
    (whole : mem 0 = ndRplMessage → mem 1 = ndRplDagIo → Joins iface mem len → Creates env iface (mem 4) →
      120 < (mem 30).toNat) :
    processIface env.clearMemory iface mem len src = processIface env iface mem len src := by
  unfold processIface
  split
  · rfl
  rename_i type
  simp only [processDis_clearMemory, processDao_clearMemory]
  by_cases dio : mem 1 = ndRplDagIo
  · rw [processDio_clearMemory (whole (by simpa using type) dio)]
  · simp only [dio, if_false]

/-! Steps and runs. -/

theorem Daemon.step_clearMemory {daemon : Daemon} {event : Event} (whole : daemon.CopiesWhole event) :
    daemon.step event.clearMemory = daemon.step event := by
  cases running : daemon.fault with
  | some fault => simp only [Daemon.step, running]
  | none =>
      cases event with
      | trickle env watcher =>
          simp only [Event.clearMemory, Daemon.step, running, Daemon.trickle, sendDio_clearMemory]
      | dis env ptr => simp only [Event.clearMemory, Daemon.step, running, Daemon.dis, sendDis_ok]
      | packet env pkt =>
          simp only [Event.clearMemory, Daemon.step, running, Daemon.packet, process]
          split
          · rfl
          rename_i long
          cases known : ifaceFindByIfindex daemon.ifaces pkt.ifindex with
          | none => rfl
          | some iface =>
              simp only
              rw [processIface_clearMemory]
              intro type code joins creates
              exact whole iface ⟨running, by omega, type, code, known, joins, creates⟩

theorem Daemon.copiesWhole_congr {daemon : Daemon} {event other : Event} (same : other.clearMemory = event.clearMemory) :
    daemon.CopiesWhole other ↔ daemon.CopiesWhole event := by
  have cleared : ∀ any : Event, daemon.CopiesWhole any.clearMemory ↔ daemon.CopiesWhole any := by
    intro any
    cases any with
    | packet env pkt =>
        refine forall_congr' fun iface => imp_congr_left ?_
        constructor
        · exact fun ⟨running, long, type, code, known, joins, creates⟩ =>
            ⟨running, long, type, code, known, joins, creates⟩
        · exact fun ⟨running, long, type, code, known, joins, creates⟩ =>
            ⟨running, long, type, code, known, joins, creates⟩
    | trickle env watcher => rfl
    | dis env ptr => rfl
  rw [← cleared other, same, cleared event]

theorem Daemon.step_sameButMemory {daemon : Daemon} {event other : Event} (same : other.clearMemory = event.clearMemory)
    (whole : daemon.CopiesWhole event) : daemon.step other = daemon.step event := by
  rw [← Daemon.step_clearMemory whole, ← same, Daemon.step_clearMemory]
  exact (Daemon.copiesWhole_congr same).mpr whole

theorem run_sameButMemory {daemon : Daemon} {events others : List Event} (same : SameButMemory events others)
    (whole : AllSteps Daemon.step Daemon.CopiesWhole daemon events) : daemon.run others = daemon.run events := by
  induction events generalizing others daemon with
  | nil => rw [List.map_eq_nil_iff.mp same]
  | cons event rest ih =>
      obtain ⟨other, more, rfl, first, later⟩ := List.map_eq_cons_iff.mp same
      have onward := ih later whole.2
      rw [Daemon.run, Daemon.run, List.foldl_cons, List.foldl_cons, Daemon.step_sameButMemory first whole.1]
      exact onward

/-! Bytes that stay. -/

section

variable {daemon : Daemon} {env : Env} {pkt : Packet} {iface : Iface}

theorem Daemon.step_stores (making : daemon.CreatesFrom env pkt iface) (inside : (bitsToBytes (pkt.mem 30)).toNat ≤ 16) :
    ∃ later dag, ifaceFindByIfindex (daemon.step (.packet env pkt)).ifaces pkt.ifindex = some later ∧
      dagLookup later (pkt.mem 4) (addrAt pkt.mem 12) = some dag ∧
      dag.dest.pfx = (addrAt pkt.mem 36).copyFront (bitsToBytes (pkt.mem 30)).toNat env.stack := by
  have length := making.joins.length
  have base : sizeofDio ≤ pkt.len - 4 := by omega
  have notExceeds : ¬ sizeofPrefix < (bitsToBytes (pkt.mem 30)).toNat := by
    simp only [sizeofPrefix]
    omega
  have slot := (@processIface_dio env iface pkt.mem (pkt.len - 4) pkt.src making.type making.code base
    fun _ => making.creates).1
  simp only [making.joins.missing, slotDio, length, making.joins.option, and_self, if_true, notExceeds, if_false] at slot
  have advert := (Dag.hears_frame env (slotDag env iface.toIfaceHead pkt.mem) (ntohs (pkt.mem 6) (pkt.mem 7)) pkt.src).1
  refine ⟨_, _, ?_, slot, congrArg (fun view => view.dest.pfx) advert⟩
  simp only [Daemon.step, making.running]
  exact process_ifaceFind making.long making.known

/-- The bytes of the stack are in the tables of every later state. -/
theorem Daemon.run_stores (making : daemon.CreatesFrom env pkt iface) (inside : (bitsToBytes (pkt.mem 30)).toNat ≤ 16)
    (after : List Event) :
    ((ifaceFindByIfindex (daemon.run (.packet env pkt :: after)).ifaces pkt.ifindex).bind
        (dagLookup · (pkt.mem 4) (addrAt pkt.mem 12))).map (·.dest.pfx) =
      some ((addrAt pkt.mem 36).copyFront (bitsToBytes (pkt.mem 30)).toNat env.stack) := by
  obtain ⟨iface, dag, known, found, stored⟩ := Daemon.step_stores making inside
  obtain ⟨later, laterKnown, keeps⟩ := Daemon.run_keeps known after
  obtain ⟨kept, laterFound, same⟩ := keeps.lookup _ _ _ found
  have run : daemon.run (.packet env pkt :: after) = (daemon.step (.packet env pkt)).run after := rfl
  rw [run, laterKnown, Option.bind_some, laterFound, Option.map_some, ← stored,
    show kept.dest = dag.dest from congrArg Advert.dest same]

end

def filledAddr : In6Addr := ⟨List.replicate 16 0xff, by simp⟩

theorem copyFront_injective {count : Nat} {source : In6Addr} (short : count < 16)
    (same : source.copyFront count .unspecified = source.copyFront count filledAddr) : False := by
  have bytes := List.append_cancel_left (congrArg In6Addr.s6Addr same)
  simp only [In6Addr.unspecified, filledAddr, List.drop_replicate] at bytes
  have first := congrArg List.head? bytes
  rw [List.head?_replicate, List.head?_replicate] at first
  simp [show ¬ 16 - count = 0 by omega] at first

theorem copiesWhole_of_sameTables {daemon : Daemon} {events : List Event}
    (sameTables : ∀ others, SameButStack events others → (daemon.run others).ifaces = (daemon.run events).ifaces) :
    AllSteps Daemon.step Daemon.CopiesWhole daemon events := by
  rw [allSteps_iff]
  rintro before (⟨env, pkt⟩ | _ | _) after rfl
  · intro iface making
    apply Classical.byContradiction
    intro short
    have count := bitsToBytes_toNat (pkt.mem 30)
    -- the same packet over a stack of zeros and over a stack of ones
    have stored : ∀ stack, ((ifaceFindByIfindex (daemon.run (before ++ .packet env pkt :: after)).ifaces pkt.ifindex).bind
        (dagLookup · (pkt.mem 4) (addrAt pkt.mem 12))).map (·.dest.pfx) =
        some ((addrAt pkt.mem 36).copyFront (bitsToBytes (pkt.mem 30)).toNat stack) := by
      intro stack
      have same := sameTables (before ++ .packet { env with stack := stack } pkt :: after) (by
        simp [SameButStack, Event.clearStack, Env.clearStack])
      have creating : (daemon.run before).CreatesFrom { env with stack := stack } pkt iface :=
        ⟨making.running, making.long, making.type, making.code, making.known, making.joins, making.creates⟩
      have stores := Daemon.run_stores creating (by omega) after
      rw [← same]
      simp only [Daemon.run, List.foldl_append] at stores ⊢
      exact stores
    have equal := (stored .unspecified).symm.trans (stored filledAddr)
    exact copyFront_injective (by omega) (Option.some.inj equal)
  · trivial
  · trivial

/-- Runs that differ in the previous contents of the stack only end with the same tables and
have sent and requested the same exactly when every DIO that creates a dag announces more
than 120 bits of prefix. -/
theorem run_same_but_stack_iff (daemon : Daemon) (events : List Event) :
    (∀ others, SameButStack events others →
      (daemon.run others).ifaces = (daemon.run events).ifaces ∧
        (daemon.run others).log = (daemon.run events).log) ↔
      AllSteps Daemon.step Daemon.CopiesWhole daemon events := by
  constructor
  · intro same
    exact copiesWhole_of_sameTables fun others differ => (same others differ).1
  · intro whole others differ
    rw [run_sameButMemory (sameButMemory_of_stack differ) whole]
    exact ⟨rfl, rfl⟩

/-- The destination in the netlink request that `dag_process_dio` makes shows the stack. -/
theorem del_route_shows_stack :
    let daemon : Daemon := ⟨[rootIface 1], [], none⟩
    let one : List Event := [.packet .granting foreignDioPacket]
    let two : List Event := [.packet { Env.granting with stack := filledAddr } foreignDioPacket]
    SameButStack one two ∧ foreignDioPacket.mem 30 = 64 ∧ (daemon.run two).ifaces ≠ (daemon.run one).ifaces ∧
      .nlDelRouteVia 1 ⟨.unspecified, 64⟩ none ∈ (daemon.run one).log ∧
      .nlDelRouteVia 1 ⟨.unspecified, 64⟩ none ∉ (daemon.run two).log := by
  refine ⟨rfl, rfl, ?_, ?_, ?_⟩
  · decide
  · decide
  · decide

end Rpld
