import Rpld.DagCore

/-!
The instance and dag tables as a keyed store: what `dag_lookup` returns after a write
through a dag pointer and after `dag_create`, at the key and at every other key.
-/

namespace Rpld

open FirstMatch

section

variable {iface : Iface} {instanceId : UInt8} {dodagid : In6Addr}

theorem dagLookup_eq (iface : Iface) (instanceId : UInt8) (dodagid : In6Addr) :
    dagLookup iface instanceId dodagid =
      (iface.rpls.find? (·.instanceId == instanceId)).bind
        fun rpl => rpl.dags.find? (·.dodagid == dodagid) := by
  unfold dagLookup dagLookupRpl dagLookupDodag
  cases iface.rpls.find? (·.instanceId == instanceId) <;> rfl

theorem dagLookup_dodagid {dag : Dag} (found : dagLookup iface instanceId dodagid = some dag) :
    dag.dodagid = dodagid := by
  rw [dagLookup_eq, Option.bind_eq_some_iff] at found
  obtain ⟨rpl, _, inRpl⟩ := found
  have accepted := List.find?_some inRpl
  simpa using accepted

theorem dagLookup_dagWrite {change : Dag → Dag}
    (keeps : ∀ dag : Dag, dag.dodagid = dodagid → (change dag).dodagid = dodagid) :
    dagLookup (dagWrite iface instanceId dodagid change) instanceId dodagid =
      (dagLookup iface instanceId dodagid).map change := by
  rw [dagLookup_eq, dagLookup_eq]
  simp only [dagWrite]
  rw [find?_updateFirst (by intro rpl accepted; exact accepted)]
  cases iface.rpls.find? (·.instanceId == instanceId) with
  | none => rfl
  | some rpl =>
      simp only [Option.map_some, Option.bind_some]
      apply find?_updateFirst
      intro dag accepted
      simp only [beq_iff_eq] at accepted ⊢
      exact keeps dag accepted

theorem dagLookup_dagWrite_other {change : Dag → Dag} {otherId : UInt8} {otherDodagid : In6Addr}
    (keeps : ∀ dag : Dag, dag.dodagid = dodagid → (change dag).dodagid = dodagid)
    (different : ¬ (otherId = instanceId ∧ otherDodagid = dodagid)) :
    dagLookup (dagWrite iface instanceId dodagid change) otherId otherDodagid =
      dagLookup iface otherId otherDodagid := by
  rw [dagLookup_eq, dagLookup_eq]
  simp only [dagWrite]
  by_cases sameId : otherId = instanceId
  · subst sameId
    rw [find?_updateFirst (by intro rpl accepted; exact accepted)]
    cases iface.rpls.find? (·.instanceId == otherId) with
    | none => rfl
    | some rpl =>
        simp only [Option.map_some, Option.bind_some]
        apply find?_updateFirst_of_disjoint
        intro dag accepted
        simp only [beq_iff_eq] at accepted
        have otherDag : dodagid ≠ otherDodagid := fun same => different ⟨rfl, same.symm⟩
        simp [accepted, keeps dag accepted, otherDag]
  · rw [find?_updateFirst_of_disjoint]
    intro rpl accepted
    simp only [beq_iff_eq] at accepted
    simp [accepted, Ne.symm sameId]

theorem dagWrite_congr {dag : Dag} {change next : Dag → Dag}
    (found : dagLookup iface instanceId dodagid = some dag) (agree : change dag = next dag) :
    dagWrite iface instanceId dodagid change = dagWrite iface instanceId dodagid next := by
  rw [dagLookup_eq, Option.bind_eq_some_iff] at found
  obtain ⟨rpl, inIface, inRpl⟩ := found
  simp only [dagWrite]
  rw [updateFirst_congr inIface (by rw [updateFirst_congr inRpl agree])]

theorem dagLookup_dagWrite_const {dag next : Dag}
    (found : dagLookup iface instanceId dodagid = some dag) (keeps : next.dodagid = dodagid) :
    dagLookup (dagWrite iface instanceId dodagid fun _ => next) instanceId dodagid = some next := by
  rw [dagLookup_dagWrite (fun _ _ => keeps), found]
  rfl

theorem dagWrite_of_found {dag : Dag} (found : dagLookup iface instanceId dodagid = some dag) :
    dagWrite iface instanceId dodagid (fun _ => dag) = iface := by
  rw [dagLookup_eq, Option.bind_eq_some_iff] at found
  obtain ⟨rpl, inIface, inRpl⟩ := found
  have inner : updateFirst (·.dodagid == dodagid) (fun _ => dag) rpl.dags = rpl.dags :=
    updateFirst_of_fixed inRpl rfl
  simp only [dagWrite]
  rw [updateFirst_of_fixed inIface (by rw [inner])]

/-! Creation. -/

def freshDag (iface : Iface) (instanceId : UInt8) (dodagid : In6Addr) (trickleT : EvTstamp)
    (myRank : UInt16) (version : UInt8) (dest : In6Prefix) : Dag :=
  dagInit iface.toIfaceHead ⟨instanceId⟩ dodagid trickleT myRank version dest

/-- The interface after `dag_create` linked `dag`, in a new instance if need be. -/
def withDag (iface : Iface) (instanceId : UInt8) (dag : Dag) : Iface :=
  match dagLookupRpl iface instanceId with
  | some _ => dagAppend iface instanceId dag
  | none => dagAppend (rplAppend iface ⟨⟨instanceId⟩, []⟩) instanceId dag

@[simp] theorem withDag_head (dag : Dag) :
    (withDag iface instanceId dag).toIfaceHead = iface.toIfaceHead := by
  unfold withDag
  split <;> rfl

/-- There is memory for a dag and, if need be, for its instance. -/
def Creates (env : Env) (iface : Iface) (instanceId : UInt8) : Prop :=
  env.dagAlloc = true ∧ (env.rplAlloc = true ∨ (dagLookupRpl iface instanceId).isSome = true)

theorem creates_of_allocs {env : Env} (allocs : env.AllocsSucceed) (iface : Iface) (instanceId : UInt8) :
    Creates env iface instanceId := ⟨allocs.dag, Or.inl allocs.rpl⟩

theorem dagCreate_creates {env : Env} (creates : Creates env iface instanceId)
    (missing : dagLookup iface instanceId dodagid = none) (trickleT : EvTstamp) (myRank : UInt16)
    (version : UInt8) (dest : In6Prefix) :
    dagCreate env iface instanceId dodagid trickleT myRank version dest =
      let dag := freshDag iface instanceId dodagid trickleT myRank version dest
      ⟨some dag, withDag iface instanceId dag, dagInitTimer dag, none⟩ := by
  obtain ⟨dagMemory, rplMemory⟩ := creates
  unfold dagLookup at missing
  unfold dagCreate
  cases found : dagLookupRpl iface instanceId with
  | none =>
      have granted : env.rplAlloc = true := by simpa [found] using rplMemory
      simp [dagRplCreate, granted, dagMemory, freshDag, withDag, found]
  | some rpl =>
      have sameId := List.find?_some found
      simp only [beq_iff_eq] at sameId
      simp only [found] at missing
      have head : rpl.toRplHead = ⟨instanceId⟩ := by rw [← sameId]
      simp [missing, dagMemory, freshDag, withDag, found, head]

theorem dagCreate_denied {env : Env} (denied : ¬ Creates env iface instanceId)
    (missing : dagLookup iface instanceId dodagid = none) (trickleT : EvTstamp) (myRank : UInt16)
    (version : UInt8) (dest : In6Prefix) :
    let created := dagCreate env iface instanceId dodagid trickleT myRank version dest
    created.dag = none ∧ created.iface = iface ∧ created.effects = [] := by
  intro created
  unfold dagLookup at missing
  simp only [created, dagCreate]
  cases found : dagLookupRpl iface instanceId with
  | none =>
      cases rplAllocated : env.rplAlloc <;> cases dagAllocated : env.dagAlloc <;>
        simp_all [dagRplCreate, Creates]
  | some rpl =>
      simp only [found] at missing
      have refused : env.dagAlloc = false := by simpa [Creates, found] using denied
      simp [missing, refused]

theorem dagCreate_ok {env : Env} (allocs : env.AllocsSucceed)
    (missing : dagLookup iface instanceId dodagid = none) (trickleT : EvTstamp) (myRank : UInt16)
    (version : UInt8) (dest : In6Prefix) :
    dagCreate env iface instanceId dodagid trickleT myRank version dest =
      let dag := freshDag iface instanceId dodagid trickleT myRank version dest
      ⟨some dag, withDag iface instanceId dag, dagInitTimer dag, none⟩ :=
  dagCreate_creates (creates_of_allocs allocs iface instanceId) missing trickleT myRank version dest

theorem dagCreate_of_found {env : Env} {dag : Dag}
    (found : dagLookup iface instanceId dodagid = some dag) (trickleT : EvTstamp) (myRank : UInt16)
    (version : UInt8) (dest : In6Prefix) :
    (dagCreate env iface instanceId dodagid trickleT myRank version dest).dag = none := by
  unfold dagLookup at found
  unfold dagCreate
  cases linked : dagLookupRpl iface instanceId with
  | none => simp [linked] at found
  | some rpl =>
      simp only [linked] at found
      simp [found]

theorem dagCreate_cases (env : Env) (missing : dagLookup iface instanceId dodagid = none)
    (trickleT : EvTstamp) (myRank : UInt16) (version : UInt8) (dest : In6Prefix) :
    let created := dagCreate env iface instanceId dodagid trickleT myRank version dest
    let dag := freshDag iface instanceId dodagid trickleT myRank version dest
    created = ⟨some dag, withDag iface instanceId dag, dagInitTimer dag, none⟩ ∨
      (created.dag = none ∧ created.iface = iface ∧ created.effects = []) := by
  by_cases creates : Creates env iface instanceId
  · exact Or.inl (dagCreate_creates creates missing trickleT myRank version dest)
  · exact Or.inr (dagCreate_denied creates missing trickleT myRank version dest)

theorem dagLookup_dagAppend {rpl : Rpl} {dag : Dag} (linked : dagLookupRpl iface instanceId = some rpl)
    (missing : dagLookupDodag rpl dodagid = none) (key : dag.dodagid = dodagid) :
    dagLookup (dagAppend iface instanceId dag) instanceId dodagid = some dag := by
  unfold dagLookupRpl at linked
  unfold dagLookupDodag at missing
  rw [dagLookup_eq]
  simp only [dagAppend]
  rw [find?_updateFirst (by intro rpl accepted; exact accepted), linked]
  simp [missing, key]

theorem dagLookup_dagAppend_other {rpl : Rpl} {dag : Dag} {otherId : UInt8} {otherDodagid : In6Addr}
    (linked : dagLookupRpl iface instanceId = some rpl)
    (different : ¬ (otherId = instanceId ∧ otherDodagid = dag.dodagid)) :
    dagLookup (dagAppend iface instanceId dag) otherId otherDodagid =
      dagLookup iface otherId otherDodagid := by
  unfold dagLookupRpl at linked
  rw [dagLookup_eq, dagLookup_eq]
  simp only [dagAppend]
  by_cases sameId : otherId = instanceId
  · subst sameId
    rw [find?_updateFirst (by intro rpl accepted; exact accepted), linked]
    have otherDag : dag.dodagid ≠ otherDodagid := fun same => different ⟨rfl, same.symm⟩
    simp [List.find?_append, otherDag]
  · rw [find?_updateFirst_of_disjoint]
    intro rpl accepted
    simp only [beq_iff_eq] at accepted
    simp [accepted, Ne.symm sameId]

theorem dagLookupRpl_rplAppend (missing : dagLookupRpl iface instanceId = none) :
    dagLookupRpl (rplAppend iface ⟨⟨instanceId⟩, []⟩) instanceId = some ⟨⟨instanceId⟩, []⟩ := by
  unfold dagLookupRpl at missing ⊢
  simp [rplAppend, List.find?_append, missing]

theorem dagLookup_rplAppend {otherId : UInt8} {otherDodagid : In6Addr} :
    dagLookup (rplAppend iface ⟨⟨instanceId⟩, []⟩) otherId otherDodagid =
      dagLookup iface otherId otherDodagid := by
  rw [dagLookup_eq, dagLookup_eq]
  simp only [rplAppend, List.find?_append]
  cases iface.rpls.find? (·.instanceId == otherId) with
  | some rpl => rfl
  | none => by_cases same : instanceId = otherId <;> simp [same]

theorem dagLookup_withDag {dag : Dag} (missing : dagLookup iface instanceId dodagid = none)
    (key : dag.dodagid = dodagid) :
    dagLookup (withDag iface instanceId dag) instanceId dodagid = some dag := by
  unfold withDag
  cases linked : dagLookupRpl iface instanceId with
  | some rpl =>
      have absent : dagLookupDodag rpl dodagid = none := by
        simpa [dagLookup, linked] using missing
      exact dagLookup_dagAppend linked absent key
  | none => exact dagLookup_dagAppend (dagLookupRpl_rplAppend linked) rfl key

theorem dagLookup_withDag_other {dag : Dag} {otherId : UInt8} {otherDodagid : In6Addr}
    (different : ¬ (otherId = instanceId ∧ otherDodagid = dag.dodagid)) :
    dagLookup (withDag iface instanceId dag) otherId otherDodagid =
      dagLookup iface otherId otherDodagid := by
  unfold withDag
  cases linked : dagLookupRpl iface instanceId with
  | some rpl => exact dagLookup_dagAppend_other linked different
  | none =>
      simp only
      rw [dagLookup_dagAppend_other (dagLookupRpl_rplAppend linked) different, dagLookup_rplAppend]

theorem dagWrite_withDag {dag : Dag} {change : Dag → Dag}
    (missing : dagLookup iface instanceId dodagid = none) (key : dag.dodagid = dodagid) :
    dagWrite (withDag iface instanceId dag) instanceId dodagid change =
      withDag iface instanceId (change dag) := by
  have linked : ∀ (iface : Iface) (rpl : Rpl), dagLookupRpl iface instanceId = some rpl →
      dagLookupDodag rpl dodagid = none →
      dagWrite (dagAppend iface instanceId dag) instanceId dodagid change =
        dagAppend iface instanceId (change dag) := by
    intro iface rpl found absent
    simp only [dagWrite, dagAppend]
    rw [updateFirst_updateFirst (by intro rpl accepted; exact accepted)]
    congr 1
    refine updateFirst_congr found ?_
    simp only
    rw [updateFirst_append absent (by simp [key])]
  unfold withDag
  cases found : dagLookupRpl iface instanceId with
  | some rpl => exact linked iface rpl found (by simpa [dagLookup, found] using missing)
  | none => exact linked _ _ (dagLookupRpl_rplAppend found) rfl

/-! Properties of all dags of an interface, in the instances that list them. -/

def Iface.AllDags (iface : Iface) (good : RplHead → Dag → Prop) : Prop :=
  ∀ rpl ∈ iface.rpls, ∀ dag ∈ rpl.dags, good rpl.toRplHead dag

section

variable {good : RplHead → Dag → Prop}

theorem dagAppend_allDags {dag : Dag} (all : iface.AllDags good) (new : good ⟨instanceId⟩ dag) :
    (dagAppend iface instanceId dag).AllDags good := by
  intro rpl member other otherMember
  simp only [dagAppend] at member
  rcases mem_updateFirst member with old | ⟨old, oldMember, oldFound, same⟩
  · exact all rpl old other otherMember
  · subst same
    have accepted := List.find?_some oldFound
    rw [beq_iff_eq] at accepted
    rcases List.mem_append.mp otherMember with kept | added
    · exact all old oldMember other kept
    · rw [List.mem_singleton] at added
      rw [added]
      rw [← accepted] at new
      exact new

theorem withDag_allDags {dag : Dag} (all : iface.AllDags good) (new : good ⟨instanceId⟩ dag) :
    (withDag iface instanceId dag).AllDags good := by
  unfold withDag
  split
  · exact dagAppend_allDags all new
  · refine dagAppend_allDags ?_ new
    intro rpl member other otherMember
    simp only [rplAppend, List.mem_append, List.mem_singleton] at member
    rcases member with old | added
    · exact all rpl old other otherMember
    · subst added
      simp at otherMember

theorem dagLookup_allDags {dag : Dag} (all : iface.AllDags good)
    (found : dagLookup iface instanceId dodagid = some dag) : good ⟨instanceId⟩ dag := by
  rw [dagLookup_eq, Option.bind_eq_some_iff] at found
  obtain ⟨rpl, inIface, inRpl⟩ := found
  have accepted := List.find?_some inIface
  rw [beq_iff_eq] at accepted
  have listed := all rpl (List.mem_of_find?_eq_some inIface) dag (List.mem_of_find?_eq_some inRpl)
  rw [← accepted]
  exact listed

end

/-! Back references. -/

/-- Every dag of the interface points back to the interface and to the instance that
list it. -/
def Iface.BackRefs (iface : Iface) : Prop :=
  ∀ rpl ∈ iface.rpls, ∀ dag ∈ rpl.dags, dag.iface = iface.toIfaceHead ∧ dag.rpl = rpl.toRplHead

theorem dagLookup_backRefs {dag : Dag} (refs : iface.BackRefs)
    (found : dagLookup iface instanceId dodagid = some dag) :
    dag.iface = iface.toIfaceHead ∧ dag.rpl = ⟨instanceId⟩ := by
  have all : iface.AllDags fun rpl dag => dag.iface = iface.toIfaceHead ∧ dag.rpl = rpl := refs
  exact dagLookup_allDags all found

theorem dagWrite_const_backRefs {dag next : Dag} (refs : iface.BackRefs)
    (found : dagLookup iface instanceId dodagid = some dag)
    (keeps : next.iface = dag.iface ∧ next.rpl = dag.rpl) :
    (dagWrite iface instanceId dodagid fun _ => next).BackRefs := by
  have heads := dagLookup_backRefs refs found
  intro rpl member other otherMember
  simp only [dagWrite] at member
  rcases mem_updateFirst member with old | ⟨old, oldMember, oldFound, same⟩
  · exact refs rpl old other otherMember
  · subst same
    have accepted := List.find?_some oldFound
    simp only [beq_iff_eq] at accepted
    rcases mem_updateFirst otherMember with kept | ⟨before, beforeMember, _, changed⟩
    · exact refs old oldMember other kept
    · rw [changed, keeps.1, keeps.2, heads.1, heads.2]
      exact ⟨rfl, by rw [← accepted]⟩

theorem withDag_backRefs {dag : Dag} (refs : iface.BackRefs)
    (heads : dag.iface = iface.toIfaceHead ∧ dag.rpl = ⟨instanceId⟩) :
    (withDag iface instanceId dag).BackRefs := by
  have all : (withDag iface instanceId dag).AllDags fun rpl dag =>
      dag.iface = iface.toIfaceHead ∧ dag.rpl = rpl := withDag_allDags refs heads
  intro rpl member other otherMember
  rw [withDag_head]
  exact all rpl member other otherMember

end

end Rpld
