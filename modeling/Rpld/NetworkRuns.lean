import Rpld.NetworkSteps

/-!
Runs of the network. Every enabled act is answered by steps of the protocol, so every run
ends in a state that shows a reachable state of the protocol.
-/

namespace Rpld

open Dodag Relation

section

variable {ι : Type} {key : Key} {net : Net ι}

/-- Parties whose daemons have read a configuration with valid prefix lengths, the roots one
with the dag, are an initial network. -/
theorem boot_initial {inetPton : List Char → Option In6Addr} {root : ι → Prop} {confs : ι → List IfaceConf}
    {daemon : ι → Daemon} (booted : ∀ party, Daemon.boot inetPton (confs party) = .ok (daemon party))
    (valid : ∀ party, ∀ conf ∈ confs party, ∀ dagConf ∈ conf.dagConfs, dagConf.Valid)
    (listed : ∀ party, net.iface party ∈ (daemon party).ifaces)
    (addresses : ∀ first second, (net.iface first).ifaddr = (net.iface second).ifaddr → first = second)
    (linkLocal : ∀ party, (net.iface party).ifaddr.isLinkLocal = true)
    (roots : ∀ party, root party → ((net.iface party).lookup key).isSome)
    (others : ∀ party, ¬ root party → (net.iface party).lookup key = none) (sent : net.sent = []) :
    net.Initial key root := by
  refine ⟨addresses, linkLocal, ?_, ?_, others, sent⟩
  · intro party
    exact boot_backRefs (booted party) _ (listed party)
  · intro party isRoot
    obtain ⟨dag, found⟩ := Option.isSome_iff_exists.mp (roots party isRoot)
    refine ⟨dag, found, ?_, ?_⟩
    · exact dagLookup_allDags (boot_configured (booted party) _ (listed party)) found
    · exact dagLookup_destValid (boot_destValid (booted party) (valid party) _ (listed party)) found

theorem related_initial {root : ι → Prop} (initial : net.Initial key root) (counts : In6Addr → Prop) :
    ∃ state, Dodag.Initial root state ∧
      Related (fun party => (net.iface party).toIfaceHead) key counts net state := by
  refine ⟨⟨fun party => ((net.iface party).lookup key).map fun dag => ⟨1, none, dag.self, []⟩, ∅,
    fun _ => ∅⟩, ⟨?_, ?_, rfl⟩, ⟨fun _ => rfl, initial.refs, ?_, ?_, ?_, ?_⟩⟩
  · intro party isRoot
    obtain ⟨dag, found, _⟩ := initial.roots party isRoot
    exact ⟨⟨1, none, dag.self, []⟩, by simp [found], rfl, rfl, rfl⟩
  · intro party notRoot
    simp [initial.others party notRoot]
  · intro party missing
    simp [missing]
  · intro party dag found
    have isRoot : root party := by
      by_cases isRoot : root party
      · exact isRoot
      · simp [initial.others party isRoot] at found
    obtain ⟨other, otherFound, configured, valid⟩ := initial.roots party isRoot
    rw [found, Option.some.injEq] at otherFound
    subst otherFound
    refine ⟨⟨1, none, dag.self, []⟩, by simp [found], ⟨⟨?_, configured.parent, ?_, rfl, configured.childs⟩,
      valid, ?_, ?_⟩⟩
    · rw [configured.myRank]
      rfl
    · intro above none
      simp at none
    · intro _
      exact configured.myRank
    · intro under
      exact absurd configured.parent under
  · intro frame member
    simp [initial.sent] at member
  · intro party entry member
    simp at member

def Separate (head : ι → IfaceHead) : Prop :=
  ∀ first second, (head first).ifaddr = (head second).ifaddr → first = second

theorem isLinkLocal_ne_allRpl {addr : In6Addr} (linkLocal : addr.isLinkLocal = true) : addr ≠ allRplAddr := by
  intro same
  subst same
  exact absurd linkLocal (by decide)

theorem related_ifaddr {head : ι → IfaceHead} {counts : In6Addr → Prop} {state : State ι In6Addr}
    (related : Related head key counts net state) (party : ι) :
    (net.iface party).ifaddr = (head party).ifaddr := congrArg IfaceHead.ifaddr (related.heads party)

theorem addressed_receiver {head : ι → IfaceHead} {counts : In6Addr → Prop} {state : State ι In6Addr}
    (separate : Separate head) (unicast : ∀ party, (head party).ifaddr ≠ allRplAddr)
    (related : Related head key counts net state) {party receiver : ι}
    (addressed : (head receiver).ifaddr = allRplAddr ∨ (head receiver).ifaddr = (net.iface party).ifaddr) :
    receiver = party := by
  rcases addressed with all | one
  · exact absurd all (unicast receiver)
  · rw [related_ifaddr related] at one
    exact separate receiver party one

end

section

variable {ι : Type} [DecidableEq ι] {head : ι → IfaceHead} {key : Key} {counts : In6Addr → Prop}
  {net : Net ι} {state : State ι In6Addr} {allowed : State ι In6Addr → ι → ι → Nat → Prop}

/-- Where the act is the first DIO of a party, its address configuration succeeds. -/
def Net.JoinsConfigured (key : Key) (net : Net ι) : Act ι → Prop
  | .emit _ _ => True
  | .deliver party frame env _ => (net.iface party).lookup key = none →
      ∀ dio : Dag, frame.bytes = dio.dioBytes →
        Configures env ((joinedDag env (net.iface party) dio).ranked dio.myRank frame.src)

def Permitted (head : ι → IfaceHead) (key : Key) (allowed : State ι In6Addr → ι → ι → Nat → Prop)
    (state : State ι In6Addr) : Act ι → Prop
  | .emit _ _ => True
  | .deliver party frame _ _ => ∀ sender rank, Encodes head key frame (.dio sender rank) →
      allowed state party sender rank

theorem related_act (separate : Separate head) (unicast : ∀ party, (head party).ifaddr ≠ allRplAddr)
    (related : Related head key counts net state) {act : Act ι} (enabled : net.Enabled key act)
    (permitted : Permitted head key allowed state act)
    (configures : counts .unspecified → net.JoinsConfigured key act) :
    ∃ next, ReflTransGen (Step (netRules allowed counts)) state next ∧
      Related head key counts (net.act key act) next := by
  cases act with
  | emit party env => exact related_emit related party env
  | deliver party frame env rest =>
      obtain ⟨_, member, allocs, addressed⟩ := enabled
      obtain ⟨msg, heard, encodes⟩ := related.sent frame member
      cases encodes with
      | @dio sender dio instanceId dodagid valid =>
          have allows := permitted sender _ (Encodes.dio instanceId dodagid valid)
          cases found : (net.iface party).lookup key with
          | none =>
              refine related_join related instanceId dodagid valid found heard allows allocs ?_ rest
              intro counted
              exact configures counted found dio rfl
          | some dag => exact related_improve related instanceId dodagid valid found heard allows allocs rest
      | @dao sender receiver dao instanceId dodagid =>
          have same := addressed_receiver separate unicast related addressed
          subst same
          exact related_dao related instanceId dodagid heard allocs rest
      | @ack sender receiver ack instanceId dodagid =>
          have same := addressed_receiver separate unicast related addressed
          subst same
          exact ⟨state, ReflTransGen.refl, related_ack related env rest⟩

/-- Every run of the network from an initial state, in which each step is enabled and
guarded so that the protocol allows it, ends in a state that shows a reachable state of
the protocol. -/
theorem run_related {root : ι → Prop} (initial : net.Initial key root) {guard : Net ι → Act ι → Prop}
    (permits : ∀ later image act,
      Related (fun party => (net.iface party).toIfaceHead) key counts later image → guard later act →
      Permitted (fun party => (net.iface party).toIfaceHead) key allowed image act)
    (configures : counts .unspecified → ∀ later act, guard later act → later.JoinsConfigured key act)
    {acts : List (Act ι)}
    (run : Runs.AllSteps (Net.act key) (fun later act => later.Enabled key act ∧ guard later act) net acts) :
    ∃ state, Reachable (netRules allowed counts) root state ∧
      Related (fun party => (net.iface party).toIfaceHead) key counts (acts.foldl (Net.act key) net) state := by
  obtain ⟨start, begins, related⟩ := related_initial initial counts
  obtain ⟨state, steps, final⟩ := Simulation.foldl_simulates
    (fun later act image (meets : later.Enabled key act ∧ guard later act) relatedLater =>
      related_act initial.addresses (fun party => isLinkLocal_ne_allRpl (initial.linkLocal party)) relatedLater
        meets.1 (permits later image act relatedLater meets.2)
        (fun counted => configures counted later act meets.2)) related run
  exact ⟨state, ⟨start, begins, steps⟩, final⟩

theorem run_related_anywhere {root : ι → Prop} (initial : net.Initial key root) {acts : List (Act ι)}
    (run : Runs.AllSteps (Net.act key) (Net.Enabled key) net acts) :
    ∃ state, Reachable (netRules (fun _ _ _ _ => True) (· ≠ .unspecified)) root state ∧
      Related (fun party => (net.iface party).toIfaceHead) key (· ≠ .unspecified)
        (acts.foldl (Net.act key) net) state := by
  refine @run_related ι _ key _ net _ root initial (fun _ _ => True) ?_ ?_ acts ?_
  · intro later image act _ _
    cases act with
    | emit => trivial
    | deliver => exact fun _ _ _ => trivial
  · intro counted
    exact absurd rfl counted
  · exact Runs.allSteps_imp (fun _ _ enabled => ⟨enabled, trivial⟩) run

end

/-! A root and two parties in a row below it, for the places where a statement is applied
to a run of its own. -/

def sampleKey : Key := ⟨1, linkLocal 1⟩

def sampleNet : Net (Fin 3) where
  iface
    | 0 => rootIface 1
    | 1 => linkIface 2
    | 2 => linkIface 3
  sent := []
  log := fun _ => []
  fault := fun _ => none

def sampleLeaf : Fin 3 := 2

def sampleRelay : Fin 3 := 1

def sampleTop : Fin 3 := 0

def sampleDio (host : UInt8) (rank : UInt16) : Frame :=
  ⟨linkLocal host, allRplAddr, ({ rootDag host with myRank := rank } : Dag).dioBytes⟩

def sampleJoins : List (Act (Fin 3)) :=
  [.emit 0 .granting, .deliver 1 (sampleDio 1 1) .granting fun _ => 0, .emit 1 .granting,
    .deliver 2 (sampleDio 2 2) .granting fun _ => 0]

theorem sampleNet_initial : sampleNet.Initial sampleKey (· = 0) := by
  refine ⟨by decide, by decide, ?_, ?_, by decide, rfl⟩
  · intro party
    match party with
    | 0 => exact rootIface_backRefs 1
    | 1 | 2 =>
        intro rpl member
        simp [sampleNet, linkIface] at member
  · intro party isRoot
    subst isRoot
    exact ⟨rootDag 1, rfl, ⟨rfl, rfl, rfl, rfl⟩, by decide⟩

theorem sampleJoins_enabled : Runs.AllSteps (Net.act sampleKey) (Net.Enabled sampleKey) sampleNet sampleJoins := by
  refine ⟨⟨rfl, rfl⟩, ⟨rfl, ?_, Env.granting_allocs, Or.inl rfl⟩, ⟨rfl, ?_⟩,
    ⟨rfl, ?_, Env.granting_allocs, Or.inl rfl⟩, trivial⟩
  · decide +kernel
  · decide +kernel
  · decide +kernel

end Rpld
