import Rpld.Config
import Rpld.DaoCodec

/-!
`dag_create` as an operation on the tables. When it returns a dag, the dag is what a
lookup finds under its key and no other key is touched. When it returns `NULL`, no list has
changed, but the clean-up frees the instance also when it was found in the list.
-/

namespace Rpld

open FirstMatch

/-- `dag_init` with its test for null pointers. Of those it tests, `dest` is the one that
`dag_create` hands on unread. -/
def dagInitChecked (iface : IfaceHead) (rpl : RplHead) (dodagid : In6Addr) (trickleT : EvTstamp)
    (myRank : UInt16) (version : UInt8) (dest : Option In6Prefix) : Option Dag :=
  dest.map (dagInit iface rpl dodagid trickleT myRank version)

def dagCreateChecked (env : Env) (iface : Iface) (instanceId : UInt8) (dodagid : In6Addr)
    (trickleT : EvTstamp) (myRank : UInt16) (version : UInt8) (dest : Option In6Prefix) : DagCreated :=
  match dagLookupRpl iface instanceId with
  | some rpl =>
      match dagLookupDodag rpl dodagid with
      | some _ => ⟨none, iface, [], some (rpl.toRplHead, true)⟩
      | none =>
          if env.dagAlloc then
            match dagInitChecked iface.toIfaceHead rpl.toRplHead dodagid trickleT myRank version dest with
            | some dag => ⟨some dag, dagAppend iface instanceId dag, dagInitTimer dag, none⟩
            | none => ⟨none, iface, [], some (rpl.toRplHead, true)⟩
          else ⟨none, iface, [], some (rpl.toRplHead, true)⟩
  | none =>
      match dagRplCreate env.rplAlloc instanceId with
      | none => ⟨none, iface, [], none⟩
      | some rpl =>
          if env.dagAlloc then
            match dagInitChecked iface.toIfaceHead rpl.toRplHead dodagid trickleT myRank version dest with
            | some dag =>
                ⟨some dag, dagAppend (rplAppend iface rpl) instanceId dag, dagInitTimer dag, none⟩
            | none => ⟨none, iface, [], some (rpl.toRplHead, false)⟩
          else ⟨none, iface, [], some (rpl.toRplHead, false)⟩

section

variable {env : Env} {iface : Iface} {instanceId : UInt8} {dodagid : In6Addr} {trickleT : EvTstamp}
  {myRank : UInt16} {version : UInt8}

theorem dagCreateChecked_some (dest : In6Prefix) :
    dagCreateChecked env iface instanceId dodagid trickleT myRank version (some dest) =
      dagCreate env iface instanceId dodagid trickleT myRank version dest := rfl

/-! Failure. -/

/-- The object of a linked instance was not freed. Among the instances of a list with
distinct ids and the one `dag_create` allocates, the head tells the objects apart. -/
def DagCreated.Live (created : DagCreated) (rpl : Rpl) : Prop :=
  ∀ linked, created.freed ≠ some (rpl.toRplHead, linked)

structure DagCreated.Intact (created : DagCreated) (before : Iface) : Prop where
  tables : created.iface = before
  live : ∀ rpl ∈ created.iface.rpls, created.Live rpl

theorem dagLookupRpl_head {rpl : Rpl} (linked : dagLookupRpl iface instanceId = some rpl) :
    rpl ∈ iface.rpls ∧ rpl.toRplHead = ⟨instanceId⟩ := by
  have same := List.find?_some linked
  rw [beq_iff_eq] at same
  exact ⟨List.mem_of_find?_eq_some linked, by rw [← same]⟩

theorem not_intact_of_linked {created : DagCreated} {rpl : Rpl} (linked : dagLookupRpl iface instanceId = some rpl)
    (tables : created.iface = iface) (freed : created.freed = some (rpl.toRplHead, true)) :
    ¬ created.Intact iface := by
  intro intact
  have member := (dagLookupRpl_head linked).1
  rw [← tables] at member
  exact intact.live rpl member true freed

theorem intact_of_unlinked {created : DagCreated} (missing : dagLookupRpl iface instanceId = none)
    (tables : created.iface = iface) (freed : ∀ head linked, created.freed = some (head, linked) → head = ⟨instanceId⟩) :
    created.Intact iface := by
  refine ⟨tables, ?_⟩
  intro rpl member linked same
  rw [tables] at member
  have other := List.find?_eq_none.mp missing rpl member
  have head := congrArg RplHead.instanceId (freed rpl.toRplHead linked same)
  exact other (by simp [head])

def Provided (env : Env) (iface : Iface) (instanceId : UInt8) (dodagid : In6Addr) (dest : Option In6Prefix) : Prop :=
  dagLookup iface instanceId dodagid = none ∧ env.dagAlloc = true ∧ dest ≠ none

theorem dagCreateChecked_linked {rpl : Rpl} (linked : dagLookupRpl iface instanceId = some rpl)
    (dest : Option In6Prefix) :
    let created := dagCreateChecked env iface instanceId dodagid trickleT myRank version dest
    (Provided env iface instanceId dodagid dest ∧ created.dag ≠ none) ∨
      (¬ Provided env iface instanceId dodagid dest ∧
        created = ⟨none, iface, [], some (rpl.toRplHead, true)⟩) := by
  intro created
  have looked : dagLookup iface instanceId dodagid = dagLookupDodag rpl dodagid := by
    simp [dagLookup, linked]
  simp only [created, dagCreateChecked, linked, Provided, looked]
  cases found : dagLookupDodag rpl dodagid with
  | some dag => exact Or.inr ⟨by simp, rfl⟩
  | none =>
      by_cases granted : env.dagAlloc = true
      · cases dest with
        | none => exact Or.inr ⟨by simp, by simp [granted, dagInitChecked]⟩
        | some dest => exact Or.inl ⟨⟨rfl, granted, by simp⟩, by simp [granted, dagInitChecked]⟩
      · exact Or.inr ⟨by simp [granted], by simp [granted]⟩

theorem dagCreateChecked_unlinked (missing : dagLookupRpl iface instanceId = none) (dest : Option In6Prefix) :
    let created := dagCreateChecked env iface instanceId dodagid trickleT myRank version dest
    created.dag = none → created.Intact iface := by
  intro created failed
  -- the instance that is freed here was allocated by this call and is in no list
  simp only [created, dagCreateChecked, missing] at failed ⊢
  cases allocated : env.rplAlloc with
  | false => exact intact_of_unlinked missing (by simp [dagRplCreate]) (by simp [dagRplCreate])
  | true =>
      simp only [dagRplCreate, allocated, if_true] at failed ⊢
      by_cases granted : env.dagAlloc = true
      · simp only [granted, if_true] at failed ⊢
        cases dest with
        | none => exact intact_of_unlinked missing rfl (by simp [dagInitChecked])
        | some dest => simp [dagInitChecked] at failed
      · simp only [granted]
        exact intact_of_unlinked missing rfl (by simp)

end

/-- A call that returns `NULL` leaves the tables as they were and every linked instance
allocated exactly when the instance is not in the list yet or nothing makes the call fail:
the dodagid is new to the instance, there is memory for the dag and a destination is given. -/
theorem dag_create_failed_intact_iff (env : Env) (iface : Iface) (instanceId : UInt8) (dodagid : In6Addr)
    (trickleT : EvTstamp) (myRank : UInt16) (version : UInt8) (dest : Option In6Prefix) :
    let created := dagCreateChecked env iface instanceId dodagid trickleT myRank version dest
    (created.dag = none → created.Intact iface) ↔
      dagLookupRpl iface instanceId = none ∨
        (dagLookup iface instanceId dodagid = none ∧ env.dagAlloc = true ∧ dest ≠ none) := by
  intro created
  cases linked : dagLookupRpl iface instanceId with
  | none => exact iff_of_true (dagCreateChecked_unlinked linked dest) (Or.inl rfl)
  | some rpl =>
      rcases @dagCreateChecked_linked env iface instanceId dodagid trickleT myRank version rpl linked dest with
        ⟨provided, returned⟩ | ⟨lacking, failed⟩
      · exact iff_of_true (fun none => absurd none returned) (Or.inr provided)
      · refine iff_of_false ?_ ?_
        · intro intact
          rw [show created = _ from failed] at intact
          exact not_intact_of_linked linked rfl rfl (intact rfl)
        · rintro (missing | provided)
          · simp at missing
          · exact lacking provided

def Env.withoutDag : Env := { Env.granting with dagAlloc := false }

theorem dag_create_frees_linked :
    (((rootIface 1).rpls.map (·.instanceId)).Nodup ∧
      ∀ rpl ∈ (rootIface 1).rpls, (rpl.dags.map (·.dodagid)).Nodup) ∧
    ¬ (let created := dagCreateChecked .withoutDag (rootIface 1) 1 (linkLocal 9) defaultTickleT 0xffff 1
        (some sampleDest)
      created.dag = none → created.Intact (rootIface 1)) := by
  refine ⟨by decide, ?_⟩
  intro intact
  have linked : (⟨⟨1⟩, [rootDag 1]⟩ : Rpl) ∈ (rootIface 1).rpls := by decide
  exact (intact rfl).live _ linked true rfl

/-! Success. -/

/-- What a lookup is meant to find after a call: under the key a dag with the values given,
whose timer has the interval given as its period, and under every other key what was there. -/
structure DagCreated.Stores (created : DagCreated) (before : Iface) (instanceId : UInt8) (dodagid : In6Addr)
    (trickleT : EvTstamp) (myRank : UInt16) (version : UInt8) (dest : In6Prefix) : Prop where
  held : ∃ dag, dagLookup created.iface instanceId dodagid = some dag ∧ dag.myRank = myRank ∧
    dag.version = version ∧ dag.dest = dest ∧ dag.trickleT = trickleT ∧
    created.effects = [.evTimerInit dag.watcher trickleT, .evTimerStart dag.watcher] ∧
    dag.parent = none ∧ dag.childs = [] ∧ dag.pendingAcks = []
  others : ∀ otherId otherDodagid, ¬ (otherId = instanceId ∧ otherDodagid = dodagid) →
    dagLookup created.iface otherId otherDodagid = dagLookup before otherId otherDodagid

section

variable {env : Env} {iface : Iface} {instanceId : UInt8} {dodagid : In6Addr} {trickleT : EvTstamp}
  {myRank : UInt16} {version : UInt8} {dest : In6Prefix}

theorem dagCreate_returns {dag : Dag}
    (returned : (dagCreate env iface instanceId dodagid trickleT myRank version dest).dag = some dag) :
    dagLookup iface instanceId dodagid = none ∧
      dag = freshDag iface instanceId dodagid trickleT myRank version dest ∧
      dagCreate env iface instanceId dodagid trickleT myRank version dest =
        ⟨some dag, withDag iface instanceId dag, dagInitTimer dag, none⟩ := by
  cases missing : dagLookup iface instanceId dodagid with
  | some held => simp [dagCreate_of_found missing] at returned
  | none =>
      rcases dagCreate_cases env missing trickleT myRank version dest with made | ⟨failed, _⟩
      · rw [made] at returned ⊢
        simp only [Option.some.injEq] at returned
        exact ⟨rfl, returned.symm, by rw [returned]⟩
      · simp [failed] at returned

theorem withDag_stores {dag : Dag} (missing : dagLookup iface instanceId dodagid = none)
    (fresh : dag = freshDag iface instanceId dodagid trickleT myRank version dest) :
    (DagCreated.mk (some dag) (withDag iface instanceId dag) (dagInitTimer dag) none).Stores iface instanceId
      dodagid trickleT myRank version dest ↔ trickleT = defaultTickleT := by
  have key : dag.dodagid = dodagid := by rw [fresh]; rfl
  have found : dagLookup (withDag iface instanceId dag) instanceId dodagid = some dag :=
    dagLookup_withDag missing key
  have interval : dag.trickleT = defaultTickleT := by rw [fresh]; rfl
  constructor
  · intro stores
    obtain ⟨other, looked, _, _, _, given, _⟩ := stores.held
    rw [show dagLookup (withDag iface instanceId dag) instanceId dodagid = some other from looked,
      Option.some.injEq] at found
    rw [← given, found, interval]
  · intro default
    refine ⟨⟨dag, found, ?_⟩, ?_⟩
    · subst default
      rw [fresh]
      exact ⟨rfl, rfl, rfl, rfl, rfl, rfl, rfl, rfl⟩
    · intro otherId otherDodagid different
      exact dagLookup_withDag_other (by rw [key]; exact different)

/-- A dag that `dag_create` returns is found under its key as it was ordered, with no other
key touched, exactly when the interval ordered is the default one; and a dag that the
configuration orders with an interval of its own gets a timer with that period exactly when
it is the default one. -/
theorem dag_create_stores_iff {dag : Dag}
    (returned : (dagCreate env iface instanceId dodagid trickleT myRank version dest).dag = some dag) :
    ((dagCreate env iface instanceId dodagid trickleT myRank version dest).Stores iface instanceId dodagid
      trickleT myRank version dest ↔ trickleT = defaultTickleT) ∧
    ∀ (inetPton : List Char → Option In6Addr) (conf : DagConf) (loaded : Iface) (effects : List Effect),
      configLoadDag inetPton iface instanceId conf = .ok (loaded, effects) →
      let ordered := conf.trickleT.getD defaultTickleT
      ∃ key configured, dagLookup iface instanceId key = none ∧ dagLookup loaded instanceId key = some configured ∧
        (configured.trickleT = ordered ∧
          effects = [.evTimerInit configured.watcher ordered, .evTimerStart configured.watcher] ↔
          ordered = defaultTickleT) := by
  constructor
  · obtain ⟨missing, fresh, made⟩ := dagCreate_returns returned
    rw [made]
    exact withDag_stores missing fresh
  · intro inetPton conf loaded effects accepted ordered
    obtain ⟨dest, key, _, missing, made, timers⟩ := configLoadDag_ok accepted
    refine ⟨key, configuredDag iface instanceId conf dest key, missing, ?_, ?_⟩
    · rw [made]
      exact dagLookup_withDag missing rfl
    · rw [timers]
      constructor
      · rintro ⟨given, _⟩
        exact given.symm
      · intro default
        rw [default]
        exact ⟨rfl, rfl⟩

end

theorem dag_create_stores_iff_default :
    (dagCreate .granting (rootIface 1) 1 (linkLocal 9) defaultTickleT 0xffff 1 sampleDest).Stores (rootIface 1) 1
      (linkLocal 9) defaultTickleT 0xffff 1 sampleDest := by
  have missing : dagLookup (rootIface 1) 1 (linkLocal 9) = none := by decide
  have made := dagCreate_ok Env.granting_allocs missing defaultTickleT 0xffff 1 sampleDest
  exact (dag_create_stores_iff (congrArg DagCreated.dag made)).1.mpr rfl

theorem dag_create_loses_interval :
    (dagCreate .granting (rootIface 1) 1 (linkLocal 9) 60 1 1 sampleDest).dag ≠ none ∧
      ¬ (dagCreate .granting (rootIface 1) 1 (linkLocal 9) 60 1 1 sampleDest).Stores (rootIface 1) 1
        (linkLocal 9) 60 1 1 sampleDest := by
  have missing : dagLookup (rootIface 1) 1 (linkLocal 9) = none := by decide
  have made := dagCreate_ok Env.granting_allocs missing 60 1 1 sampleDest
  refine ⟨by rw [made]; simp, ?_⟩
  rw [made]
  intro stores
  have default := (withDag_stores missing rfl).mp stores
  exact absurd default (by decide)

end Rpld
