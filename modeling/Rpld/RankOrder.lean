import Rpld.Ranks

/-!
When ranks grow from the parents down. `process_dio` stores the rank of an accepted DIO in
the record of the parent, whoever sent it, so a neighbour that is nearer to the root than
the parent pulls the party up to the rank of the parent or above. This is the only way the
order is lost.
-/

namespace Rpld

open Dodag Memory Relation

section

variable {ι : Type}

def Net.RankOrdered (key : Key) (root : ι → Prop) (net : Net ι) : Prop :=
  ∀ party dag, (net.iface party).lookup key = some dag → ¬ root party →
    ∃ above aboveDag, net.ParentOf key party above ∧ (net.iface above).lookup key = some aboveDag ∧
      aboveDag.myRank < dag.myRank

/-- The act delivers a DIO with a rank below the present rank of the receiver's parent. -/
def Net.Overtaken (key : Key) (net : Net ι) : Act ι → Prop
  | .emit _ _ => False
  | .deliver party frame _ _ => frame.IsDio ∧ ∃ above aboveDag, net.ParentOf key party above ∧
      (net.iface above).lookup key = some aboveDag ∧ frame.dioRank < aboveDag.myRank

variable {head : ι → IfaceHead} {key : Key} {counts : In6Addr → Prop} {net : Net ι}
  {state : State ι In6Addr} {root : ι → Prop}

theorem parentOf_unique (separate : Separate head) (related : Related head key counts net state)
    {party first second : ι} (one : net.ParentOf key party first) (two : net.ParentOf key party second) :
    first = second := by
  rw [related_parentOf separate related] at one two
  rw [one, Option.some.injEq] at two
  exact two

theorem permitted_orderly (separate : Separate head) (related : Related head key counts net state) {act : Act ι}
    (behind : ¬ net.Overtaken key act) :
    Permitted head key (fun image party _ rank => image.Orderly party rank) state act := by
  cases act with
  | emit => trivial
  | deliver party frame =>
      intro sender rank encodes above aboveNode up aboveHolds
      obtain ⟨isDio, _, carried⟩ := encodes_dio encodes
      obtain ⟨aboveDag, aboveFound, held⟩ := related_held related aboveHolds
      by_contra lower
      apply behind
      refine ⟨isDio, above, aboveDag, (related_parentOf separate related).mpr up, aboveFound, ?_⟩
      rw [UInt16.lt_iff_toNat_lt, carried, ← held.rank]
      omega

theorem parentOf_ranked [Fintype ι] (separate : Separate head) (related : Related head key counts net state)
    (tree : TreeInv root state) (ranks : RankInv state) {party above : ι} (up : net.ParentOf key party above) :
    ∃ dag peer, (net.iface party).lookup key = some dag ∧ dag.parent = some peer ∧
      peer.addr = (net.iface above).ifaddr ∧ ¬ root party ∧ dag.myRank ≠ 1 ∧
      dag.myRank.toNat = peer.rank.toNat + 1 := by
  obtain ⟨node, recorded, holds, under⟩ := parentOf_holds ((related_parentOf separate related).mp up)
  obtain ⟨dag, found, held⟩ := related_held related holds
  have next := (ranks.nodes party node holds).next above recorded under
  have rank := held.rank
  refine ⟨dag, peerRecord head (above, recorded), found, ?_, (related_ifaddr related above).symm, ?_, ?_, ?_⟩
  · rw [held.parent, under, Option.map_some]
  · intro isRoot
    obtain ⟨own, ownHolds, top⟩ := tree.roots party isRoot
    rw [holds, Option.some.injEq] at ownHolds
    simp [ownHolds, top] at under
  · intro top
    rw [top, UInt16.toNat_one] at rank
    omega
  · rw [← rank, next.2, peerRecord, UInt16.toNat_ofNat', Nat.mod_eq_of_lt (held.recorded _ under)]

end

section

variable {ι : Type} [DecidableEq ι] {key : Key} {net : Net ι}

theorem deliver_other (party other : ι) (frame : Frame) (env : Env) (rest : Nat → UInt8) (distinct : other ≠ party) :
    (net.act key (.deliver party frame env rest)).iface other = net.iface other := by
  simp [Net.act, Net.settle, distinct]

theorem deliver_accepted {party : ι} {dio dag : Dag} {peer : Peer}
    (instanceId : dio.rpl.instanceId = key.instanceId) (dodagid : dio.dodagid = key.dodagid)
    (valid : dio.dest.len.toNat ≤ 128) (found : (net.iface party).lookup key = some dag)
    (below : dag.myRank ≠ 1) (under : dag.parent = some peer) (accepted : dio.myRank ≤ peer.rank)
    (src : In6Addr) (env : Env) (rest : Nat → UInt8) :
    ∃ after, ((net.act key (.deliver party ⟨src, allRplAddr, dio.dioBytes⟩ env rest)).iface party).lookup key =
        some after ∧
      after.myRank = dio.myRank + 1 ∧ after.parent = some ⟨peer.addr, dio.myRank⟩ := by
  have dagDodagid : dag.dodagid = key.dodagid := dagLookup_dodagid found
  have present : dagLookup (net.iface party) dio.rpl.instanceId dio.dodagid = some dag := by
    rw [instanceId, dodagid]
    exact found
  obtain ⟨reads, handled⟩ := @processDio_known env (net.iface party) (overlay dio.dioBytes rest)
    dio.dioBytes.length src dio dag (dioFrame_carries dio valid rest) present
  have record : dag.parentOr src = peer := by simp [Dag.parentOr, under]
  have available : HasParent env dag := Or.inl (by simp [under])
  obtain ⟨_, _, configured⟩ := ranked_configured under env dio.myRank src
  have advert : (dagProcessDio env (dag.ranked dio.myRank src)).1.advert = dag.advert :=
    dagProcessDio_advert env _
  rw [(act_deliver (dioBytes_long dio)).1, handled, instanceId, dodagid]
  simp only [below, if_false, Net.settle, Function.update_self]
  rcases processDioRank_cases available (net.iface party) key.instanceId key.dodagid dio.myRank
    src [] reads with ⟨refused, _⟩ | ⟨_, _, exited⟩ | ⟨_, _, answered⟩
  · rw [record] at refused
    exact absurd accepted (UInt16.not_le.mpr refused)
  · rw [exited]
    exact ⟨_, dagLookup_dagWrite_const found ((congrArg Advert.dodagid advert).trans dagDodagid), configured⟩
  · rw [answered]
    refine ⟨_, dagLookup_dagWrite_const found
      ((congrArg Advert.dodagid ((afterDao_advert env _).trans advert)).trans dagDodagid), ?_⟩
    rw [Dag.afterDao_eq]
    exact configured

end

section

variable {ι : Type} [DecidableEq ι] [Fintype ι] {key : Key} {root : ι → Prop} {net : Net ι}

theorem run_rankOrdered (few : Fintype.card ι ≤ 65535) (initial : net.Initial key root) {acts : List (Act ι)}
    (run : Runs.AllSteps (Net.act key) (fun later act => later.Enabled key act ∧ ¬ later.Overtaken key act)
      net acts) : (acts.foldl (Net.act key) net).RankOrdered key root := by
  have permits := fun later image act
      (related : Related (fun party => (net.iface party).toIfaceHead) key (· ≠ .unspecified) later image)
      (behind : ¬ later.Overtaken key act) => permitted_orderly initial.addresses related behind
  obtain ⟨state, reachable, related⟩ := run_related initial permits (fun counted => absurd rfl counted) run
  have small : Fintype.card ι < 65536 := by omega
  have inv := reachable_orderInv small (fun _ _ _ _ allowed => allowed) reachable
  intro party dag found notRoot
  obtain ⟨node, holds, held⟩ := related.held party dag found
  obtain ⟨above, recorded, under⟩ := inv.tree.parent party node holds notRoot
  have up : state.parentOf party = some above := by
    rw [parentOf_eq holds, under, Option.map_some]
  obtain ⟨aboveNode, aboveHolds⟩ := treeInv_parent_holds inv.tree up
  obtain ⟨aboveDag, aboveFound, aboveHeld⟩ := related_held related aboveHolds
  refine ⟨above, aboveDag, (related_parentOf initial.addresses related).mpr up, aboveFound, ?_⟩
  have bound := inv.parents party node above recorded aboveNode holds under aboveHolds
  have next := (inv.ranks.nodes party node holds).next above recorded under
  rw [UInt16.lt_iff_toNat_lt, ← held.rank, ← aboveHeld.rank]
  omega

theorem overtaken_breaks (few : Fintype.card ι ≤ 65535) (initial : net.Initial key root) {acts : List (Act ι)}
    (run : Runs.AllSteps (Net.act key) (Net.Enabled key) net acts) {act : Act ι}
    (enabled : (acts.foldl (Net.act key) net).Enabled key act)
    (overtaken : (acts.foldl (Net.act key) net).Overtaken key act)
    (ordered : (acts.foldl (Net.act key) net).RankOrdered key root) :
    ¬ ((acts.foldl (Net.act key) net).act key act).RankOrdered key root := by
  obtain ⟨state, reachable, related⟩ := run_related_anywhere initial run
  have ranks := reachable_rankInv (Nat.lt_succ_of_le few) reachable
  have tree := reachable_treeInv reachable
  obtain ⟨_, _, relatedAfter⟩ := run_related_anywhere initial
    (Runs.allSteps_append.mpr ⟨run, enabled, trivial⟩ : Runs.AllSteps _ _ net (acts ++ [act]))
  rw [List.foldl_append, List.foldl_cons, List.foldl_nil] at relatedAfter
  generalize acts.foldl (Net.act key) net = before at *
  cases act with
  | emit => exact overtaken.elim
  | deliver party frame env rest =>
      intro orderedAfter
      obtain ⟨isDio, above, aboveDag, up, aboveFound, lower⟩ := overtaken
      obtain ⟨_, _, encodes⟩ := related.sent frame enabled.2.1
      obtain ⟨sender, dio, rfl, instanceId, dodagid, valid⟩ := encodes_isDio encodes isDio
      rw [dioFrame_rank, UInt16.lt_iff_toNat_lt] at lower
      obtain ⟨dag, peer, found, under, named, notRoot, notTop, rank⟩ :=
        parentOf_ranked initial.addresses related tree ranks up
      -- the order before the act: the parent's rank is at most the recorded one
      obtain ⟨other, otherDag, otherUp, otherFound, below⟩ := ordered party dag found notRoot
      have sameParent := parentOf_unique initial.addresses related otherUp up
      subst sameParent
      rw [aboveFound, Option.some.injEq] at otherFound
      subst otherFound
      have distinct : other ≠ party := by
        intro equal
        rw [equal, found, Option.some.injEq] at aboveFound
        rw [aboveFound] at below
        exact UInt16.lt_irrefl _ below
      rw [UInt16.lt_iff_toNat_lt] at below
      have accepted : dio.myRank ≤ peer.rank := by
        rw [UInt16.le_iff_toNat_le]
        omega
      obtain ⟨dagAfter, foundAfter, rankAfter, underAfter⟩ :=
        deliver_accepted instanceId dodagid valid found notTop under accepted (net.iface sender).ifaddr env rest
      have kept := @deliver_other ι _ key before party other
        ⟨(net.iface sender).ifaddr, allRplAddr, dio.dioBytes⟩ env rest distinct
      have upAfter : Net.ParentOf key
          (before.act key (.deliver party ⟨(net.iface sender).ifaddr, allRplAddr, dio.dioBytes⟩ env rest))
          party other := by
        refine ⟨dagAfter, _, foundAfter, underAfter, ?_⟩
        rw [kept]
        exact named
      -- the order after it would put the parent below a rank that is lower than its own
      obtain ⟨last, lastDag, lastUp, lastFound, belowAfter⟩ := orderedAfter party dagAfter foundAfter notRoot
      have sameAfter := parentOf_unique initial.addresses relatedAfter lastUp upAfter
      subst sameAfter
      rw [kept, aboveFound, Option.some.injEq] at lastFound
      rw [← lastFound, rankAfter, UInt16.lt_iff_toNat_lt, toNat_succ] at belowAfter
      omega

end

section

variable {ι : Type} [DecidableEq ι] [Fintype ι]

/-- In a run of at most 65535 parties every state it passes has each holder below the roots
at a higher rank than its parent, exactly when no step of the run delivers a DIO with a
rank below the present rank of the receiver's parent. -/
theorem net_rank_ordered_iff {key : Key} {root : ι → Prop} {net : Net ι} (few : Fintype.card ι ≤ 65535)
    (initial : net.Initial key root) {acts : List (Act ι)}
    (run : Runs.AllSteps (Net.act key) (Net.Enabled key) net acts) :
    (∀ before, before <+: acts → (before.foldl (Net.act key) net).RankOrdered key root) ↔
      Runs.AllSteps (Net.act key) (fun later act => ¬ later.Overtaken key act) net acts := by
  constructor
  · intro ordered
    rw [Runs.allSteps_iff]
    intro before act after split overtaken
    have enabled := Runs.allSteps_append.mp (split ▸ run)
    have longer : before ++ [act] <+: acts := ⟨after, by rw [split, List.append_assoc, List.singleton_append]⟩
    have next := ordered (before ++ [act]) longer
    rw [List.foldl_append] at next
    exact overtaken_breaks few initial enabled.1 enabled.2.1 overtaken
      (ordered before ⟨act :: after, split.symm⟩) next
  · rintro behind before ⟨after, split⟩
    have whole := Runs.allSteps_and run behind
    rw [← split, Runs.allSteps_append] at whole
    exact run_rankOrdered few initial whole.1

end

theorem net_rank_ordered_iff_sampleJoins :
    (((sampleJoins.foldl (Net.act sampleKey) sampleNet).iface 2).lookup sampleKey).isSome ∧
      (sampleJoins.foldl (Net.act sampleKey) sampleNet).RankOrdered sampleKey (· = 0) := by
  have behind : Runs.AllSteps (Net.act sampleKey) (fun later act => ¬ later.Overtaken sampleKey act) sampleNet
      sampleJoins := by
    refine ⟨fun none => none, ?_, fun none => none, ?_, trivial⟩
    · rintro ⟨_, _, _, ⟨dag, _, found, _⟩, _⟩
      simp [show (((sampleNet.act sampleKey (.emit 0 .granting)).iface 1).lookup sampleKey) = none from rfl] at found
    · rintro ⟨_, _, _, ⟨dag, _, found, _⟩, _⟩
      simp [show (((((sampleNet.act sampleKey (.emit 0 .granting)).act sampleKey
        (.deliver 1 (sampleDio 1 1) .granting fun _ => 0)).act sampleKey
        (.emit 1 .granting)).iface 2).lookup sampleKey) = none from rfl] at found
  refine ⟨by decide +kernel, ?_⟩
  exact (net_rank_ordered_iff (by decide) sampleNet_initial sampleJoins_enabled).mpr behind sampleJoins
    (List.prefix_refl _)

def sampleOvertakes : List (Act (Fin 3)) :=
  sampleJoins ++ [.deliver sampleLeaf (sampleDio 1 1) .granting fun _ => 0]

theorem sampleOvertakes_not_ordered :
    sampleNet.Initial sampleKey (· = 0) ∧
      Runs.AllSteps (Net.act sampleKey) (Net.Enabled sampleKey) sampleNet sampleOvertakes ∧
      ¬ (sampleOvertakes.foldl (Net.act sampleKey) sampleNet).RankOrdered sampleKey (· = 0) := by
  refine ⟨sampleNet_initial, Runs.allSteps_append.mpr ⟨sampleJoins_enabled, ?_, trivial⟩, ?_⟩
  · refine ⟨rfl, ?_, Env.granting_allocs, Or.inl rfl⟩
    decide +kernel
  · intro ordered
    have third : (((sampleOvertakes.foldl (Net.act sampleKey) sampleNet).iface 2).lookup sampleKey).map
        (fun dag => (dag.myRank, dag.parent)) = some (2, some ⟨linkLocal 2, 1⟩) := by decide +kernel
    have second : ∀ above, linkLocal 2 = ((sampleOvertakes.foldl (Net.act sampleKey) sampleNet).iface above).ifaddr →
        (((sampleOvertakes.foldl (Net.act sampleKey) sampleNet).iface above).lookup sampleKey).map Dag.myRank =
          some 2 := by decide +kernel
    obtain ⟨dag, found, shape⟩ := Option.map_eq_some_iff.mp third
    rw [Prod.mk.injEq] at shape
    obtain ⟨above, aboveDag, ⟨other, peer, otherFound, under, named⟩, aboveFound, below⟩ :=
      ordered 2 dag found (by decide)
    rw [found, Option.some.injEq] at otherFound
    rw [← otherFound, shape.2, Option.some.injEq] at under
    rw [← under] at named
    have rank := second above named
    rw [aboveFound, Option.map_some, Option.some.injEq] at rank
    rw [rank, shape.1] at below
    exact absurd below (by decide)

end Rpld
