import Rpld.Lib.Cascade
import Rpld.MessageSize

/-!
Which message makes which. A DIS is answered by DIOs, a DIO by a DAO, a DAO by a DAO-ACK, and a
DAO-ACK by nothing, in whatever state the receiver is. So no traffic keeps itself alive: between
two expiries of timers, the daemons of a network handle finitely many packets.
-/

namespace Rpld

open Cascade

def Effect.sentOn : Effect → Option UInt32
  | .sendmsg ifindex _ _ _ => some ifindex
  | _ => none

/-- How many kinds of message may follow from one with this code. -/
def codeLevel (code : Option UInt8) : Nat :=
  if code = some ndRplDagIs then 3 else if code = some ndRplDagIo then 2 else if code = some ndRplDao then 1 else 0

theorem codeLevel_le (code : Option UInt8) : codeLevel code ≤ 3 := by
  unfold codeLevel
  split
  · exact Nat.le_refl 3
  · split
    · decide
    · split <;> decide

/-! What a packet makes. -/

section

variable {env : Env} {iface : Iface} {mem : Nat → UInt8} {len : Nat} {src : In6Addr} {effect : Effect}

theorem processDis_code (member : effect ∈ (processDis env iface).effects) : effect.code = some ndRplDagIo := by
  obtain ⟨sent, left, _, answered⟩ := sendDioRpls_answered env iface.rpls
  rw [show (processDis env iface).effects = sent.map Dag.dioMessage from answered.effects] at member
  obtain ⟨dag, _, rfl⟩ := List.mem_map.mp member
  rfl

theorem processDao_code (base : sizeofDao ≤ len) (member : effect ∈ (processDao env iface mem len src).effects)
    (sent : effect.sentOn ≠ none) : effect.code = some ndRplDaoAck := by
  rw [(processDao_slot base).2.1] at member
  cases found : dagLookup iface (mem 4) (addrAt mem 8) with
  | none => simp [found, slotDao, idle] at member
  | some dag =>
      simp only [found, slotDao] at member
      split at member
      · rcases List.mem_append.mp member with route | ack
        · obtain ⟨child, _, rfl⟩ := List.mem_map.mp route
          exact absurd rfl sent
        · rw [List.mem_singleton] at ack
          rw [ack]
          rfl
      · simp at member

theorem processDaoack_unsent (base : sizeofDaoack ≤ len) (member : effect ∈ (processDaoack iface mem len).effects) :
    effect.sentOn = none := by
  rw [(processDaoack_slot base).2.1] at member
  cases found : dagLookup iface (mem 4) (addrAt mem 8) with
  | none => simp [found, slotDaoack, idle] at member
  | some dag =>
      simp only [found, slotDaoack, List.mem_map] at member
      obtain ⟨parent, _, rfl⟩ := member
      rfl

theorem processIface_lower (member : effect ∈ (processIface env iface mem len src).effects) (sent : effect.sentOn ≠ none) :
    codeLevel effect.code < codeLevel (some (mem 1)) := by
  obtain ⟨handled, way, _, sameEffects, _⟩ := processIface_case env iface mem len src
  rw [sameEffects] at member
  cases way with
  | ignored => simp [dropped] at member
  | dis asks =>
      simp only [isDis, Bool.and_eq_true, beq_iff_eq] at asks
      rw [processDis_code member, asks.2]
      decide
  | dio _ code base named =>
      rw [code]
      rcases processDio_messages (namedKey_dio code named).1 code member with none | ⟨sender, bytes, _⟩
      · rw [Effect.code, none]
        decide
      · rw [Effect.code, bytes, show sender.daoBytes[1]? = some ndRplDao from rfl]
        decide
  | dao _ code base named =>
      rw [code, processDao_code base member sent]
      decide
  | daoack _ code base named => exact absurd (processDaoack_unsent base member) sent

end

theorem Daemon.news_lower {daemon : Daemon} {env : Env} {pkt : Packet} {effect : Effect}
    (member : effect ∈ daemon.news (.packet env pkt)) (sent : effect.sentOn ≠ none) :
    codeLevel effect.code < codeLevel pkt.bytes[1]? := by
  cases running : daemon.fault with
  | some fault => simp [Daemon.news, Daemon.step, running] at member
  | none =>
      rcases Daemon.packet_seen daemon pkt with unseen | ⟨iface, long, known⟩
      · simp [Daemon.news, Daemon.packet_dropped running unseen] at member
      · have second : pkt.bytes[1]? = some (pkt.mem 1) := by
          simp [Packet.bytes, Memory.slice, show 1 < pkt.len by omega]
        rw [Daemon.news, Daemon.packet_effects running long known] at member
        rw [second]
        exact processIface_lower member sent

/-! Networks of daemons. -/

structure Copy (ι : Type) where
  party : ι
  bytes : List UInt8

section

variable {ι : Type} [DecidableEq ι]

/-- The copies carry messages that the step makes. Each message may go to any number of
parties, in any number of copies. -/
def Daemon.MakesCopies (daemon : Daemon) (event : Event) (copies : Multiset (Copy ι)) : Prop :=
  ∀ copy ∈ copies, ∃ effect ∈ daemon.news event, effect.sentOn ≠ none ∧ copy.bytes = effect.bytes

/-- A party receives a copy, cut short or whole, from whatever source, on whatever interface and
with whatever behind it in the receive buffer. -/
def Receives (daemons : ι → Daemon) (copy : Copy ι) (next : ι → Daemon) (more : Multiset (Copy ι)) : Prop :=
  ∃ env pkt, pkt.bytes <+: copy.bytes ∧
    next = Function.update daemons copy.party ((daemons copy.party).step (.packet env pkt)) ∧
    (daemons copy.party).MakesCopies (.packet env pkt) more

def Expires (config later : Config (ι → Daemon) (Copy ι)) : Prop :=
  ∃ party event more, (∀ env pkt, event ≠ .packet env pkt) ∧
    later.state = Function.update config.state party ((config.state party).step event) ∧
    (config.state party).MakesCopies event more ∧ later.pending = config.pending + more

theorem receives_lower {daemons next : ι → Daemon} {copy : Copy ι} {more : Multiset (Copy ι)}
    (receives : Receives daemons copy next more) :
    ∀ made ∈ more, codeLevel made.bytes[1]? < codeLevel copy.bytes[1]? := by
  obtain ⟨env, pkt, carried, _, makes⟩ := receives
  intro made member
  obtain ⟨effect, news, sent, same⟩ := makes made member
  have lower := Daemon.news_lower news sent
  rw [same]
  cases second : pkt.bytes[1]? with
  | none =>
      rw [second] at lower
      exact absurd lower (Nat.not_lt_zero _)
  | some code =>
      obtain ⟨rest, whole⟩ := carried
      have inside := (List.getElem?_eq_some_iff.mp second).1
      rw [← whole, List.getElem?_append_left inside]
      exact lower

/-- No traffic keeps itself alive. In every endless run of any number of daemons from any
state, whatever is under way at the start, with copies lost, delayed, cut short and multiplied,
timers expire again and again: without them the packets under way run out. -/
theorem timers_recur {run : Nat → Config (ι → Daemon) (Copy ι)}
    (steps : ∀ time, Delivers Receives (run time) (run (time + 1)) ∨ Expires (run time) (run (time + 1)))
    (time : Nat) : ∃ later, time ≤ later ∧ Expires (run later) (run (later + 1)) :=
  others_recur (fun _ _ _ _ => receives_lower) steps time

end

def sampleTicks (daemon : Daemon) (time : Nat) : Config (Unit → Daemon) (Copy Unit) :=
  ⟨fun _ => daemon.run (List.replicate time (.trickle .granting ⟨0, 1, linkLocal 1⟩)), 0⟩

theorem timers_recur_sampleTicks :
    ∃ daemon, Daemon.boot sampleInetPton [sampleConf "fd00::/64"] = .ok daemon ∧
      ∃ later, 7 ≤ later ∧ Expires (sampleTicks daemon later) (sampleTicks daemon (later + 1)) := by
  obtain ⟨daemon, booted⟩ := boot_sample
  refine ⟨daemon, booted, timers_recur (fun time => Or.inr ?_) 7⟩
  refine ⟨(), .trickle .granting ⟨0, 1, linkLocal 1⟩, 0, by simp, ?_, ?_, rfl⟩
  · funext party
    simp [sampleTicks, Daemon.run, List.replicate_succ']
  · intro copy none
    simp at none

end Rpld
