import Rpld.DaoCodec
import Rpld.ObjectsCore
import Rpld.Utlist

/-!
The objects that the functions of `dag.c` allocate and link stand for the tables of the
interface: every sequence of calls keeps to the lists and reads back as the tables, up to a
`dag_create` that frees an instance which is still linked. From then on the walks fail.
-/

namespace Rpld

open FirstMatch Runs

/-! Searching. -/

section

variable {store : Store} {before : Option Nat} {ptrs : List Nat}

theorem dlSearch_seg (linked : Seg store before ptrs none) (accept : Nat → Bool) {fuel : Nat}
    (enough : ptrs.length ≤ fuel) : dlSearch store accept fuel ptrs.head? = some (ptrs.find? accept) := by
  induction ptrs generalizing before fuel with
  | nil => cases fuel <;> rfl
  | cons ptr rest ih =>
      cases fuel with
      | zero => simp at enough
      | succ fuel =>
          have followed := ih linked.2 (Nat.le_of_succ_le_succ enough)
          by_cases accepted : accept ptr = true
          · simp [dlSearch, linked.1, accepted]
          · simp [dlSearch, linked.1, accepted, followed]

theorem dlSearch_chain {head : Option Nat} (chain : Chain store head ptrs) (accept : Nat → Bool) {fuel : Nat}
    (enough : ptrs.length ≤ fuel) : dlSearch store accept fuel head = some (ptrs.find? accept) := by
  rw [chain.first]
  exact dlSearch_seg chain.linked accept enough

/-- The walk does not get past an object that was freed. -/
theorem dlSearch_freed (linked : Seg store before ptrs none) {accept : Nat → Bool} {freed : Nat}
    (found : ptrs.find? accept = some freed) (fuel : Nat) :
    dlSearch (store.put freed none) accept fuel ptrs.head? = none := by
  induction ptrs generalizing before fuel with
  | nil => simp at found
  | cons ptr rest ih =>
      cases fuel with
      | zero => rfl
      | succ fuel =>
          by_cases here : ptr = freed
          · simp [dlSearch, here]
          · have rejected : accept ptr = false := by
              rw [← Bool.not_eq_true]
              intro accepted
              rw [List.find?_cons, accepted] at found
              exact here (by simpa using found)
            rw [List.find?_cons, rejected] at found
            simp [dlSearch, Store.put_other _ here, linked.1, rejected, ih linked.2 found fuel]

theorem dlForeach_freed (linked : Seg store before ptrs none) {freed : Nat} (member : freed ∈ ptrs) (fuel : Nat) :
    dlForeach (store.put freed none) fuel ptrs.head? = none := by
  induction ptrs generalizing before fuel with
  | nil => simp at member
  | cons ptr rest ih =>
      cases fuel with
      | zero => rfl
      | succ fuel =>
          by_cases here : ptr = freed
          · simp [dlForeach, here]
          · have later := (List.mem_cons.mp member).resolve_left (Ne.symm here)
            simp [dlForeach, Store.put_other _ here, linked.1, ih linked.2 later fuel]

end

/-! What the objects stand for. -/

section

variable (objects : Objects) (rows : ListHead → List Nat)

def Objects.dagOf (dag : Nat) : Dag :=
  { objects.dag dag with
    childs := (rows (.childs dag)).map objects.child
    pendingAcks := (rows (.pendingAcks dag)).map objects.dsn }

def Objects.rplOf (rpl : Nat) : Rpl := ⟨objects.rpl rpl, (rows (.dags rpl)).map (objects.dagOf rows)⟩

def Objects.tables : List Rpl := (rows .rpls).map (objects.rplOf rows)

/-- No list is longer than the number of calls so far. -/
structure Objects.Shows (size : Nat) (rpls : List Rpl) : Prop where
  lists : Lists objects.store objects.head rows
  tables : rpls = objects.tables rows
  short : ∀ list, (rows list).length ≤ size

end

section

variable {objects next : Objects} {rows nextRows : ListHead → List Nat} {size fuel : Nat} {rpls : List Rpl}

theorem dagOf_congr {dag : Nat} (members : next.dag dag = objects.dag dag)
    (childs : nextRows (.childs dag) = rows (.childs dag)) (acks : nextRows (.pendingAcks dag) = rows (.pendingAcks dag))
    (childMembers : ∀ ptr ∈ rows (.childs dag), next.child ptr = objects.child ptr)
    (dsns : ∀ ptr ∈ rows (.pendingAcks dag), next.dsn ptr = objects.dsn ptr) :
    next.dagOf nextRows dag = objects.dagOf rows dag := by
  simp only [Objects.dagOf, members, childs, acks]
  rw [List.map_congr_left childMembers, List.map_congr_left dsns]

theorem mapM_some {α β : Type} (view : α → β) (list : List α) :
    list.mapM (fun entry => some (view entry)) = some (list.map view) := List.mapM_pure

theorem foreach_shows (shows : objects.Shows rows size rpls) (enough : size ≤ fuel) (list : ListHead) :
    dlForeach objects.store fuel (objects.head list) = some (rows list) :=
  dlForeach_chain (shows.lists.chain list) (Nat.le_trans (shows.short list) enough)

theorem readDag_shows (shows : objects.Shows rows size rpls) (enough : size ≤ fuel) (dag : Nat) :
    objects.readDag fuel dag = some (objects.dagOf rows dag) := by
  simp [Objects.readDag, foreach_shows shows enough, Objects.dagOf]

theorem read_shows (shows : objects.Shows rows size rpls) (enough : size ≤ fuel) :
    objects.read fuel = some rpls := by
  have walk := foreach_shows shows enough
  have readDag : objects.readDag fuel = fun dag => some (objects.dagOf rows dag) :=
    funext (readDag_shows shows enough)
  have readRpl : objects.readRpl fuel = fun rpl => some (objects.rplOf rows rpl) := by
    funext rpl
    simp [Objects.readRpl, walk, Objects.rplOf, readDag, mapM_some]
  rw [shows.tables]
  simp [Objects.read, walk, readRpl, mapM_some, Objects.tables]

/-! The lookups. -/

theorem lookupRpl_shows (shows : objects.Shows rows size rpls) (enough : size ≤ fuel) (instanceId : UInt8) :
    objects.lookupRpl fuel instanceId =
      some ((rows .rpls).find? fun ptr => (objects.rpl ptr).instanceId == instanceId) :=
  dlSearch_chain (shows.lists.chain _) _ (Nat.le_trans (shows.short _) enough)

theorem lookupDodag_shows (shows : objects.Shows rows size rpls) (enough : size ≤ fuel) (rpl : Nat) (dodagid : In6Addr) :
    objects.lookupDodag fuel rpl dodagid =
      some ((rows (.dags rpl)).find? fun ptr => (objects.dag ptr).dodagid == dodagid) :=
  dlSearch_chain (shows.lists.chain _) _ (Nat.le_trans (shows.short _) enough)

theorem lookupChild_shows (shows : objects.Shows rows size rpls) (enough : size ≤ fuel) (dag : Nat) (addr : In6Addr) :
    objects.lookupChild fuel dag addr =
      some ((rows (.childs dag)).find? fun ptr => (objects.child ptr).addr == addr) :=
  dlSearch_chain (shows.lists.chain _) _ (Nat.le_trans (shows.short _) enough)

theorem find?_rpls (shows : objects.Shows rows size rpls) (instanceId : UInt8) :
    rpls.find? (·.instanceId == instanceId) =
      ((rows .rpls).find? fun ptr => (objects.rpl ptr).instanceId == instanceId).map (objects.rplOf rows) := by
  rw [shows.tables, Objects.tables, List.find?_map]
  rfl

theorem find?_dags (rpl : Nat) (dodagid : In6Addr) :
    (objects.rplOf rows rpl).dags.find? (·.dodagid == dodagid) =
      ((rows (.dags rpl)).find? fun ptr => (objects.dag ptr).dodagid == dodagid).map (objects.dagOf rows) := by
  simp only [Objects.rplOf, List.find?_map]
  rfl

/-- The pointer that `dag_lookup` returns and the dag it stands for. -/
theorem lookup_shows (shows : objects.Shows rows size rpls) (enough : size ≤ fuel) {iface : Iface} (same : iface.rpls = rpls)
    (instanceId : UInt8) (dodagid : In6Addr) :
    (objects.lookup fuel instanceId dodagid = some none ∧ dagLookup iface instanceId dodagid = none) ∨
      ∃ rpl dag, objects.lookup fuel instanceId dodagid = some (some dag) ∧
        (rows .rpls).find? (fun ptr => (objects.rpl ptr).instanceId == instanceId) = some rpl ∧
        (rows (.dags rpl)).find? (fun ptr => (objects.dag ptr).dodagid == dodagid) = some dag ∧
        dagLookup iface instanceId dodagid = some (objects.dagOf rows dag) := by
  simp only [Objects.lookup, lookupRpl_shows shows enough, dagLookup_eq, same, find?_rpls shows]
  cases foundRpl : (rows .rpls).find? fun ptr => (objects.rpl ptr).instanceId == instanceId with
  | none => exact Or.inl ⟨rfl, rfl⟩
  | some rpl =>
      have inner := lookupDodag_shows shows enough rpl dodagid
      cases foundDag : (rows (.dags rpl)).find? fun ptr => (objects.dag ptr).dodagid == dodagid with
      | none =>
          rw [foundDag] at inner
          exact Or.inl ⟨by simpa using inner, by simp [find?_dags, foundDag]⟩
      | some dag =>
          rw [foundDag] at inner
          exact Or.inr ⟨rpl, dag, by simpa using inner, rfl, foundDag, by simp [find?_dags, foundDag]⟩

/-! One object changes. -/

/-- A change at one of the objects of a list is the update of the entry that is found. -/
theorem map_updateFirst_found {α : Type} {view nextView : Nat → α} {accept : α → Bool} {change : α → α}
    {ptrs : List Nat} {ptr : Nat} (distinct : ptrs.Nodup) (found : ptrs.find? (fun other => accept (view other)) = some ptr)
    (changed : nextView ptr = change (view ptr)) (others : ∀ other ∈ ptrs, other ≠ ptr → nextView other = view other) :
    ptrs.map nextView = updateFirst accept change (ptrs.map view) := by
  induction ptrs with
  | nil => rfl
  | cons first rest ih =>
      rw [List.nodup_cons] at distinct
      by_cases accepted : accept (view first) = true
      · simp only [List.find?_cons, accepted, Option.some.injEq] at found
        subst found
        have same : rest.map nextView = rest.map view := by
          refine List.map_congr_left fun other member => others other (List.mem_cons_of_mem _ member) ?_
          rintro rfl
          exact distinct.1 member
        simp [updateFirst, accepted, changed, same]
      · simp only [List.find?_cons, accepted] at found
        have notFirst : first ≠ ptr := by
          rintro rfl
          exact distinct.1 (List.mem_of_find?_eq_some found)
        have later := ih distinct.2 found fun other member => others other (List.mem_cons_of_mem _ member)
        simp [updateFirst, accepted, later, others first (by simp) notFirst]

theorem tables_write (next : Objects) (nextRows : ListHead → List Nat) (shows : objects.Shows rows size rpls) {instanceId : UInt8} {dodagid : In6Addr} {rpl dag : Nat}
    {change : Dag → Dag}
    (foundRpl : (rows .rpls).find? (fun ptr => (objects.rpl ptr).instanceId == instanceId) = some rpl)
    (foundDag : (rows (.dags rpl)).find? (fun ptr => (objects.dag ptr).dodagid == dodagid) = some dag)
    (sameRpls : nextRows .rpls = rows .rpls) (sameDags : ∀ other ∈ rows .rpls, nextRows (.dags other) = rows (.dags other))
    (sameIds : next.rpl = objects.rpl) (changed : next.dagOf nextRows dag = change (objects.dagOf rows dag))
    (others : ∀ other, other ≠ dag → (∃ list, other ∈ rows list) → next.dagOf nextRows other = objects.dagOf rows other) :
    next.tables nextRows = updateFirst (·.instanceId == instanceId)
      (fun entry => { entry with dags := updateFirst (·.dodagid == dodagid) change entry.dags }) rpls := by
  rw [shows.tables, Objects.tables, Objects.tables, sameRpls]
  refine map_updateFirst_found (shows.lists.chain .rpls).distinct foundRpl ?_ ?_
  · simp only [Objects.rplOf, sameIds, sameDags rpl (List.mem_of_find?_eq_some foundRpl)]
    congr 1
    exact map_updateFirst_found (shows.lists.chain (.dags rpl)).distinct foundDag changed fun other member different =>
      others other different ⟨_, member⟩
  · intro other member different
    simp only [Objects.rplOf, sameIds, sameDags other member]
    congr 1
    refine List.map_congr_left fun entry inOther => others entry ?_ ⟨_, inOther⟩
    rintro rfl
    have sameList := shows.lists.apart _ _ entry inOther (List.mem_of_find?_eq_some foundDag)
    exact different (by simpa using sameList)

/-! A new object on a list. -/

def clearRows (rows : ListHead → List Nat) (ptr : Nat) : ListHead → List Nat :=
  fun list => if list.owner = some ptr then [] else rows list

def linkRows (rows : ListHead → List Nat) (list : ListHead) (ptr : Nat) : ListHead → List Nat :=
  setRow (clearRows rows ptr) list (rows list ++ [ptr])

theorem clearRows_other {ptr : Nat} {list : ListHead} (elsewhere : list.owner ≠ some ptr) :
    clearRows rows ptr list = rows list := if_neg elsewhere

theorem linkRows_same (rows : ListHead → List Nat) (list : ListHead) (ptr : Nat) :
    linkRows rows list ptr list = rows list ++ [ptr] := if_pos rfl

theorem linkRows_other {ptr : Nat} {list other : ListHead} (different : other ≠ list)
    (elsewhere : other.owner ≠ some ptr) : linkRows rows list ptr other = rows other := by
  simp only [linkRows, setRow, different, if_false]
  exact clearRows_other elsewhere

theorem mem_of_mem_clearRows {ptr other : Nat} {list : ListHead} (member : other ∈ clearRows rows ptr list) :
    other ∈ rows list := by
  unfold clearRows at member
  split at member
  · simp at member
  · exact member

theorem length_clearRows_le (ptr : Nat) (list : ListHead) : (clearRows rows ptr list).length ≤ (rows list).length := by
  unfold clearRows
  split
  · exact Nat.zero_le _
  · exact Nat.le_refl _

theorem length_linkRows_le (short : ∀ other, (rows other).length ≤ size) (list : ListHead) (ptr : Nat) (other : ListHead) :
    (linkRows rows list ptr other).length ≤ size + 1 := by
  simp only [linkRows, setRow]
  split
  · simpa using short list
  · exact Nat.le_succ_of_le (Nat.le_trans (length_clearRows_le ptr other) (short other))

theorem unlisted_of_fresh (lists : Lists objects.store objects.head rows) {ptr : Nat} (fresh : objects.store ptr = none)
    (list : ListHead) : ptr ∉ rows list := by
  intro member
  obtain ⟨links, held⟩ := seg_allocated (lists.chain list).linked member
  simp [fresh] at held

theorem apart_of_fresh (lists : Lists objects.store objects.head rows) {ptr : Nat} (fresh : objects.store ptr = none)
    (other : Nat) (list : ListHead) (member : other ∈ rows list) : some other ≠ some ptr := by
  intro same
  rw [Option.some.injEq] at same
  exact unlisted_of_fresh lists fresh list (same ▸ member)

theorem mzalloc_lists (lists : Lists objects.store objects.head rows) {ptr : Nat} (fresh : objects.store ptr = none) :
    Lists (objects.mzalloc ptr).store (objects.mzalloc ptr).head (clearRows rows ptr) := by
  have kept := lists_put lists (some ⟨none, none⟩) (unlisted_of_fresh lists fresh)
  refine ⟨?_, ?_⟩
  · intro list
    by_cases inside : list.owner = some ptr
    · simp only [Objects.mzalloc, clearRows, inside, if_true]
      exact ⟨List.nodup_nil, rfl, trivial⟩
    · simp only [Objects.mzalloc, clearRows, inside, if_false]
      exact kept.chain list
  · intro list other member inList inOther
    unfold clearRows at inList inOther
    split at inList
    · simp at inList
    · split at inOther
      · simp at inOther
      · exact lists.apart list other member inList inOther

theorem append_lists (lists : Lists objects.store objects.head rows) (list : ListHead) {ptr : Nat} {links : Links}
    (held : objects.store ptr = some links) (loose : ∀ other, ptr ∉ rows other) :
    ∃ store head, objects.append list ptr = some { objects with store := store, head := head } ∧
      Lists store head (setRow rows list (rows list ++ [ptr])) ∧ SameOutside (rows list ++ [ptr]) objects.store store := by
  obtain ⟨store, value, appended, nextLists, frame⟩ := lists_append lists list held loose
  exact ⟨store, setHead objects.head list value, by simp [Objects.append, appended], nextLists, frame⟩

/-- A new object, whatever is written into it, comes to the end of a list. -/
theorem link_lists (next : Objects) (list : ListHead) (lists : Lists objects.store objects.head rows) {ptr : Nat}
    (fresh : objects.store ptr = none) (elsewhere : list.owner ≠ some ptr)
    (stores : next.store = (objects.mzalloc ptr).store) (heads : next.head = (objects.mzalloc ptr).head) :
    ∃ store head, next.append list ptr = some { next with store := store, head := head } ∧
      Lists store head (linkRows rows list ptr) ∧ SameOutside (rows list ++ [ptr]) next.store store := by
  have cleared := mzalloc_lists lists fresh
  rw [← stores, ← heads] at cleared
  have held : next.store ptr = some ⟨none, none⟩ := by
    rw [stores]
    exact Store.put_same ptr _
  have loose (other) : ptr ∉ clearRows rows ptr other := by
    unfold clearRows
    split
    · exact List.not_mem_nil
    · exact unlisted_of_fresh lists fresh other
  have appended := append_lists cleared list held loose
  rw [clearRows_other elsewhere] at appended
  exact appended

end

/-! Calls. -/

def TableCall.ptrs : TableCall → List Nat
  | .create _ _ _ _ _ _ rplPtr dagPtr => rplPtr.toList ++ dagPtr.toList
  | .child _ _ _ _ ptr => ptr.toList
  | .daoack _ _ ptr => ptr.toList

/-- `mzalloc` hands out objects that are not in use. -/
def TableCall.Fresh (call : TableCall) (store : Store) : Prop :=
  call.ptrs.Nodup ∧ ∀ ptr ∈ call.ptrs, store ptr = none

/-- A run of calls. Once an access has failed, the state stays `none`. -/
def Objects.step (fuel : Nat) (head : IfaceHead) (state : Option Objects) (call : TableCall) : Option Objects :=
  state.bind fun objects => objects.call fuel head call

def FreshIn : Option Objects → TableCall → Prop
  | none, _ => True
  | some objects, call => call.Fresh objects.store

instance (call : TableCall) (store : Store) : Decidable (call.Fresh store) := inferInstanceAs (Decidable (_ ∧ _))

instance : ∀ (state : Option Objects) (call : TableCall), Decidable (FreshIn state call)
  | none, _ => .isTrue trivial
  | some objects, call => inferInstanceAs (Decidable (call.Fresh objects.store))

def createEnv (env : Env) (rplPtr dagPtr : Option Nat) : Env :=
  { env with rplAlloc := rplPtr.isSome, dagAlloc := dagPtr.isSome }

/-- The call on the tables, with the allocations that succeed in it. -/
def TableCall.apply (env : Env) (iface : Iface) : TableCall → Iface
  | .create instanceId dodagid trickleT myRank version dest rplPtr dagPtr =>
      (dagCreate (createEnv env rplPtr dagPtr) iface instanceId dodagid trickleT myRank version dest).iface
  | .child instanceId dodagid addr fromAddr ptr =>
      match dagLookup iface instanceId dodagid with
      | none => iface
      | some dag => dagWrite iface instanceId dodagid fun _ => dagLookupChildOrCreate ptr.isSome dag addr fromAddr
  | .daoack instanceId dodagid ptr =>
      match dagLookup iface instanceId dodagid with
      | none => iface
      | some dag => dagWrite iface instanceId dodagid fun _ => dagDaoackInsert ptr.isSome dag dag.dsn

/-- The call is a `dag_create` whose clean-up frees an instance that is in the list. -/
def TableCall.freesLinked (env : Env) (iface : Iface) : TableCall → Bool
  | .create instanceId dodagid trickleT myRank version dest rplPtr dagPtr =>
      (dagCreate (createEnv env rplPtr dagPtr) iface instanceId dodagid trickleT myRank version dest).freed.any (·.2)
  | _ => false

section

variable {objects : Objects} {rows : ListHead → List Nat} {size fuel : Nat} {iface : Iface}

theorem grows (shows : objects.Shows rows size iface.rpls) : objects.Shows rows (size + 1) iface.rpls :=
  ⟨shows.lists, shows.tables, fun list => Nat.le_succ_of_le (shows.short list)⟩

/-- A child that is new to the dag `dag_lookup` found. -/
theorem newChild_shows (shows : objects.Shows rows size iface.rpls) {instanceId : UInt8} {dodagid : In6Addr} {rpl dag : Nat}
    (foundRpl : (rows .rpls).find? (fun ptr => (objects.rpl ptr).instanceId == instanceId) = some rpl)
    (foundDag : (rows (.dags rpl)).find? (fun ptr => (objects.dag ptr).dodagid == dodagid) = some dag)
    (addr fromAddr : In6Addr) {child : Nat} (fresh : objects.store child = none) :
    let found := objects.dagOf rows dag
    ∃ next nextRows, (objects.childCreate child addr fromAddr).append (.childs dag) child = some next ∧
      next.Shows nextRows (size + 1) (dagWrite iface instanceId dodagid fun _ =>
        { found with childs := found.childs ++ [⟨addr, fromAddr⟩] }).rpls := by
  intro found
  have apart := apart_of_fresh shows.lists fresh
  have notChild := apart dag _ (List.mem_of_find?_eq_some foundDag)
  have members : ∀ list, ∀ ptr ∈ rows list, setAt objects.child child ⟨addr, fromAddr⟩ ptr = objects.child ptr :=
    fun list ptr member => if_neg fun same => apart ptr list member (congrArg some same)
  obtain ⟨store, head, appended, lists, -⟩ :=
    link_lists (objects.childCreate child addr fromAddr) (.childs dag) shows.lists fresh notChild rfl rfl
  refine ⟨_, linkRows rows (.childs dag) child, appended, lists, ?_, length_linkRows_le shows.short _ _⟩
  refine (tables_write _ _ shows foundRpl foundDag ?_ ?_ ?_ ?_ ?_).symm
  · exact linkRows_other (by simp) (by simp [ListHead.owner])
  · intro other member
    exact linkRows_other (by simp) (apart other _ member)
  · rfl
  · have acks : linkRows rows (.childs dag) child (.pendingAcks dag) = rows (.pendingAcks dag) :=
      linkRows_other (by simp) notChild
    simp [found, Objects.dagOf, Objects.childCreate, Objects.mzalloc, linkRows_same, acks, setAt,
      List.map_congr_left (members (.childs dag))]
  · rintro other different ⟨list, member⟩
    have notOther := apart other list member
    exact dagOf_congr rfl (linkRows_other (by simpa using different) notOther) (linkRows_other (by simp) notOther)
      (members _) fun _ _ => rfl

theorem newDaoack_shows (shows : objects.Shows rows size iface.rpls) {instanceId : UInt8} {dodagid : In6Addr}
    {rpl dag : Nat}
    (foundRpl : (rows .rpls).find? (fun ptr => (objects.rpl ptr).instanceId == instanceId) = some rpl)
    (foundDag : (rows (.dags rpl)).find? (fun ptr => (objects.dag ptr).dodagid == dodagid) = some dag)
    {daoack : Nat} (fresh : objects.store daoack = none) :
    let found := objects.dagOf rows dag
    ∃ next nextRows, (objects.daoackCreate daoack).append (.pendingAcks dag) daoack = some next ∧
      next.Shows nextRows (size + 1) (dagWrite iface instanceId dodagid fun _ =>
        { found with pendingAcks := found.pendingAcks ++ [0] }).rpls := by
  intro found
  have apart := apart_of_fresh shows.lists fresh
  have notAck := apart dag _ (List.mem_of_find?_eq_some foundDag)
  have members : ∀ list, ∀ ptr ∈ rows list, setAt objects.dsn daoack 0 ptr = objects.dsn ptr :=
    fun list ptr member => if_neg fun same => apart ptr list member (congrArg some same)
  obtain ⟨store, head, appended, lists, -⟩ :=
    link_lists (objects.daoackCreate daoack) (.pendingAcks dag) shows.lists fresh notAck rfl rfl
  refine ⟨_, linkRows rows (.pendingAcks dag) daoack, appended, lists, ?_, length_linkRows_le shows.short _ _⟩
  refine (tables_write _ _ shows foundRpl foundDag ?_ ?_ ?_ ?_ ?_).symm
  · exact linkRows_other (by simp) (by simp [ListHead.owner])
  · intro other member
    exact linkRows_other (by simp) (apart other _ member)
  · rfl
  · have childs : linkRows rows (.pendingAcks dag) daoack (.childs dag) = rows (.childs dag) :=
      linkRows_other (by simp) notAck
    simp [found, Objects.dagOf, Objects.daoackCreate, Objects.mzalloc, linkRows_same, childs, setAt,
      List.map_congr_left (members (.pendingAcks dag))]
  · rintro other different ⟨list, member⟩
    have notOther := apart other list member
    exact dagOf_congr rfl (linkRows_other (by simp) notOther) (linkRows_other (by simpa using different) notOther)
      (fun _ _ => rfl) (members _)

/-- A dag that has no entries yet. -/
def Dag.Bare (dag : Dag) : Prop := dag.childs = [] ∧ dag.pendingAcks = []

theorem dagOf_bare {next : Objects} {nextRows : ListHead → List Nat} {ptr : Nat} {dag : Dag} (bare : dag.Bare)
    (member : next.dag ptr = dag) (childs : nextRows (.childs ptr) = []) (acks : nextRows (.pendingAcks ptr) = []) :
    next.dagOf nextRows ptr = dag := by
  simp only [Objects.dagOf, member, childs, acks, List.map_nil, ← bare.1, ← bare.2]

/-- A new dag of an instance that is in the list. -/
theorem newDag_shows (shows : objects.Shows rows size iface.rpls) {instanceId : UInt8} {rpl : Nat}
    (foundRpl : (rows .rpls).find? (fun ptr => (objects.rpl ptr).instanceId == instanceId) = some rpl) {made : Dag}
    (bare : made.Bare) {dag : Nat} (fresh : objects.store dag = none) :
    ∃ next nextRows, (objects.dagMake dag made).append (.dags rpl) dag = some next ∧
      next.Shows nextRows (size + 1) (dagAppend iface instanceId made).rpls := by
  have apart := apart_of_fresh shows.lists fresh
  have notDag := apart rpl _ (List.mem_of_find?_eq_some foundRpl)
  obtain ⟨store, head, appended, lists, -⟩ :=
    link_lists (objects.dagMake dag made) (.dags rpl) shows.lists fresh notDag rfl rfl
  refine ⟨_, linkRows rows (.dags rpl) dag, appended, lists, ?_, length_linkRows_le shows.short _ _⟩
  generalize nextIs : ({ objects.dagMake dag made with store := store, head := head } : Objects) = next
  have sameRpls : linkRows rows (.dags rpl) dag .rpls = rows .rpls :=
    linkRows_other (by simp) (by simp [ListHead.owner])
  have sameIds : next.rpl = objects.rpl := by
    rw [← nextIs]
    rfl
  have old : ∀ list, ∀ other ∈ rows list, next.dagOf (linkRows rows (.dags rpl) dag) other = objects.dagOf rows other := by
    intro list other member
    have notOther := apart other list member
    have members : next.dag other = objects.dag other := by
      rw [← nextIs]
      exact if_neg fun same => notOther (congrArg some same)
    refine dagOf_congr members (linkRows_other (by simp) notOther) (linkRows_other (by simp) notOther) ?_ ?_
    · rw [← nextIs]
      exact fun _ _ => rfl
    · rw [← nextIs]
      exact fun _ _ => rfl
  have new : next.dagOf (linkRows rows (.dags rpl) dag) dag = made := by
    refine dagOf_bare bare ?_ ?_ ?_
    · rw [← nextIs]
      exact if_pos rfl
    · simp [linkRows, setRow, clearRows, ListHead.owner]
    · simp [linkRows, setRow, clearRows, ListHead.owner]
  rw [Objects.tables, sameRpls]
  simp only [dagAppend, shows.tables]
  refine (map_updateFirst_found (shows.lists.chain .rpls).distinct foundRpl ?_ ?_).symm
  · simp [Objects.rplOf, sameIds, linkRows_same, new, List.map_congr_left (old (.dags rpl))]
  · intro other member different
    have dags : linkRows rows (.dags rpl) dag (.dags other) = rows (.dags other) :=
      linkRows_other (by simpa using different) (apart other _ member)
    simp only [Objects.rplOf, sameIds, dags, List.map_congr_left (old (.dags other))]

/-- The lists once a new instance is in the list of instances and holds one new dag. -/
structure InstanceRows (rows nextRows : ListHead → List Nat) (rpl dag : Nat) : Prop where
  rpls : nextRows .rpls = rows .rpls ++ [rpl]
  dags : nextRows (.dags rpl) = [dag]
  childs : nextRows (.childs dag) = []
  acks : nextRows (.pendingAcks dag) = []
  others : ∀ list : ListHead, list ≠ .rpls → list.owner ≠ some rpl → list.owner ≠ some dag → nextRows list = rows list
  short : ∀ list, (nextRows list).length ≤ (rows list).length + 1

theorem instanceRows (rows : ListHead → List Nat) (rpl dag : Nat) :
    let base := clearRows (clearRows rows rpl) dag
    let linked := setRow base .rpls (base .rpls ++ [rpl])
    InstanceRows rows (setRow linked (.dags rpl) (linked (.dags rpl) ++ [dag])) rpl dag := by
  intro base linked
  have noDags : base (.dags rpl) = [] := by simp [base, clearRows, ListHead.owner]
  have rplsRow : base .rpls = rows .rpls := by simp [base, clearRows, ListHead.owner]
  refine ⟨?_, ?_, ?_, ?_, ?_, ?_⟩
  · simp [linked, setRow, rplsRow]
  · simp [linked, setRow, noDags]
  · simp [linked, setRow, base, clearRows, ListHead.owner]
  · simp [linked, setRow, base, clearRows, ListHead.owner]
  · intro list notRpls notRpl notDag
    have notDags : list ≠ .dags rpl := by
      rintro rfl
      exact notRpl rfl
    simp [linked, setRow, base, clearRows, notRpls, notDags, notRpl, notDag]
  · intro list
    have cleared : (base list).length ≤ (rows list).length :=
      Nat.le_trans (length_clearRows_le dag list) (length_clearRows_le rpl list)
    simp only [linked, setRow]
    split
    · rename_i same
      simp [noDags]
    · split
      · rename_i same
        simp [same, rplsRow]
      · exact Nat.le_succ_of_le cleared

/-- Both objects are allocated before either is linked. -/
theorem linkInstance_lists (lists : Lists objects.store objects.head rows) (instanceId : UInt8) (made : Dag)
    {rpl dag : Nat} (freshRpl : objects.store rpl = none) (freshDag : objects.store dag = none) (distinct : rpl ≠ dag) :
    let both := (objects.rplCreate rpl instanceId).dagMake dag made
    ∃ store head nextRows,
      (both.append .rpls rpl).bind (fun linked => linked.append (.dags rpl) dag) =
        some { both with store := store, head := head } ∧
      Lists store head nextRows ∧ InstanceRows rows nextRows rpl dag := by
  intro both
  have listsRpl : Lists (objects.rplCreate rpl instanceId).store (objects.rplCreate rpl instanceId).head
      (clearRows rows rpl) := mzalloc_lists lists freshRpl
  have stillFresh : (objects.rplCreate rpl instanceId).store dag = none := by
    rw [← freshDag]
    exact Store.put_other _ (Ne.symm distinct)
  have listsBoth : Lists both.store both.head (clearRows (clearRows rows rpl) dag) := mzalloc_lists listsRpl stillFresh
  have heldRpl : both.store rpl = some ⟨none, none⟩ := (Store.put_other _ distinct).trans (Store.put_same rpl _)
  have heldDag : both.store dag = some ⟨none, none⟩ := Store.put_same dag _
  have looseRpl (list) : rpl ∉ clearRows (clearRows rows rpl) dag list := fun member =>
    unlisted_of_fresh lists freshRpl list (mem_of_mem_clearRows (mem_of_mem_clearRows member))
  have looseDag (list) : dag ∉ clearRows (clearRows rows rpl) dag list := fun member =>
    unlisted_of_fresh lists freshDag list (mem_of_mem_clearRows (mem_of_mem_clearRows member))
  obtain ⟨store, head, appendedRpl, linked, frame⟩ := append_lists listsBoth .rpls heldRpl looseRpl
  let later : Objects := { both with store := store, head := head }
  have linkedLater : Lists later.store later.head _ := linked
  have outside : dag ∉ clearRows (clearRows rows rpl) dag .rpls ++ [rpl] := by simp [looseDag, Ne.symm distinct]
  have heldLater : later.store dag = some ⟨none, none⟩ := by
    rw [← heldDag]
    exact frame dag outside
  obtain ⟨lastStore, lastHead, appendedDag, lists, -⟩ := append_lists linkedLater (.dags rpl) heldLater
    (fun list member => (mem_setRow member).elim outside (looseDag list))
  refine ⟨lastStore, lastHead, _, ?_, lists, instanceRows rows rpl dag⟩
  rw [appendedRpl, Option.bind_some]
  exact appendedDag

/-- A new dag in a new instance. -/
theorem newInstance_shows (shows : objects.Shows rows size iface.rpls) {instanceId : UInt8}
    (missing : dagLookupRpl iface instanceId = none) {made : Dag} (bare : made.Bare) {rpl dag : Nat}
    (freshRpl : objects.store rpl = none) (freshDag : objects.store dag = none) (distinct : rpl ≠ dag) :
    ∃ next nextRows,
      (((objects.rplCreate rpl instanceId).dagMake dag made).append .rpls rpl).bind
        (fun linked => linked.append (.dags rpl) dag) = some next ∧
      next.Shows nextRows (size + 1) (dagAppend (rplAppend iface ⟨⟨instanceId⟩, []⟩) instanceId made).rpls := by
  have apartRpl := apart_of_fresh shows.lists freshRpl
  have apartDag := apart_of_fresh shows.lists freshDag
  obtain ⟨store, head, nextRows, appended, lists, shape⟩ :=
    linkInstance_lists shows.lists instanceId made freshRpl freshDag distinct
  let next : Objects := { (objects.rplCreate rpl instanceId).dagMake dag made with store := store, head := head }
  have oldDag : ∀ list, ∀ entry ∈ rows list, next.dagOf nextRows entry = objects.dagOf rows entry := by
    intro list entry member
    have notRpl := apartRpl entry list member
    have notDag := apartDag entry list member
    refine dagOf_congr ?_ (shape.others _ (by simp) notRpl notDag) (shape.others _ (by simp) notRpl notDag)
      (fun _ _ => rfl) (fun _ _ => rfl)
    exact if_neg fun same => notDag (congrArg some same)
  have newDag : next.dagOf nextRows dag = made := dagOf_bare bare (if_pos rfl) shape.childs shape.acks
  have oldRpl : ∀ other ∈ rows .rpls, next.rplOf nextRows other = objects.rplOf rows other := by
    intro other member
    have notRpl := apartRpl other _ member
    have ids : next.rpl other = objects.rpl other := if_neg fun same => notRpl (congrArg some same)
    have dags : nextRows (.dags other) = rows (.dags other) :=
      shape.others _ (by simp) notRpl (apartDag other _ member)
    simp only [Objects.rplOf, ids, dags, List.map_congr_left (oldDag (.dags other))]
  have newRpl : next.rplOf nextRows rpl = ⟨⟨instanceId⟩, [made]⟩ := by
    have ids : next.rpl rpl = ⟨instanceId⟩ := if_pos rfl
    simp only [Objects.rplOf, ids, shape.dags, List.map_singleton, newDag]
  refine ⟨next, nextRows, appended, lists, ?_, ?_⟩
  · have appendedRpls : (dagAppend (rplAppend iface ⟨⟨instanceId⟩, []⟩) instanceId made).rpls =
        iface.rpls ++ [⟨⟨instanceId⟩, [made]⟩] := updateFirst_append missing (by simp)
    rw [appendedRpls, shows.tables, Objects.tables, Objects.tables, shape.rpls, List.map_append, List.map_singleton,
      newRpl, List.map_congr_left oldRpl]
  · intro list
    exact Nat.le_trans (shape.short list) (Nat.succ_le_succ (shows.short list))

/-- The instance that is freed was allocated by the same call and is on no list. -/
theorem freedInstance_shows (shows : objects.Shows rows size iface.rpls) (instanceId : UInt8) {rpl : Nat}
    (fresh : objects.store rpl = none) :
    ∃ nextRows, ((objects.rplCreate rpl instanceId).free rpl).Shows nextRows (size + 1) iface.rpls := by
  have apart := apart_of_fresh shows.lists fresh
  let next := (objects.rplCreate rpl instanceId).free rpl
  have oldDag : ∀ list, ∀ entry ∈ rows list, next.dagOf (clearRows rows rpl) entry = objects.dagOf rows entry := by
    intro list entry member
    have notRpl := apart entry list member
    exact dagOf_congr rfl (clearRows_other notRpl) (clearRows_other notRpl) (fun _ _ => rfl) (fun _ _ => rfl)
  refine ⟨clearRows rows rpl, ?_, ?_, ?_⟩
  · refine lists_put (mzalloc_lists shows.lists fresh) none fun list member => ?_
    exact unlisted_of_fresh shows.lists fresh list (mem_of_mem_clearRows member)
  · have rplsRow : clearRows rows rpl .rpls = rows .rpls := clearRows_other (by simp [ListHead.owner])
    rw [shows.tables, Objects.tables, Objects.tables, rplsRow]
    refine List.map_congr_left fun other member => ?_
    have notRpl := apart other _ member
    have ids : next.rpl other = objects.rpl other := if_neg fun same => notRpl (congrArg some same)
    have dags : clearRows rows rpl (.dags other) = rows (.dags other) := clearRows_other notRpl
    have entries := List.map_congr_left (oldDag (.dags other))
    simp only [Objects.rplOf, dags]
    rw [← entries, ← ids]
  · intro list
    exact Nat.le_succ_of_le (Nat.le_trans (length_clearRows_le rpl list) (shows.short list))

theorem dagInit_bare (head : IfaceHead) (rpl : RplHead) (dodagid : In6Addr) (trickleT : EvTstamp) (myRank : UInt16)
    (version : UInt8) (dest : In6Prefix) : (dagInit head rpl dodagid trickleT myRank version dest).Bare := ⟨rfl, rfl⟩

/-- The lookups at the start of `dag_create`, on the objects and on the tables. -/
theorem createLookups_shows (shows : objects.Shows rows size iface.rpls) (enough : size ≤ fuel) (instanceId : UInt8)
    (dodagid : In6Addr) :
    (objects.lookupRpl fuel instanceId = some none ∧ dagLookupRpl iface instanceId = none) ∨
      ∃ rpl, (rows .rpls).find? (fun ptr => (objects.rpl ptr).instanceId == instanceId) = some rpl ∧
        objects.lookupRpl fuel instanceId = some (some rpl) ∧
        dagLookupRpl iface instanceId = some (objects.rplOf rows rpl) ∧
        ∃ dag, objects.lookupDodag fuel rpl dodagid = some dag ∧
          dagLookupDodag (objects.rplOf rows rpl) dodagid = dag.map (objects.dagOf rows) := by
  have outer := lookupRpl_shows shows enough instanceId
  have table : dagLookupRpl iface instanceId = _ := find?_rpls shows instanceId
  cases found : (rows .rpls).find? fun ptr => (objects.rpl ptr).instanceId == instanceId with
  | none =>
      rw [found] at outer table
      exact Or.inl ⟨outer, table⟩
  | some rpl =>
      rw [found] at outer table
      exact Or.inr ⟨rpl, rfl, outer, table, _, lookupDodag_shows shows enough rpl dodagid, find?_dags rpl dodagid⟩

theorem create_shows (env : Env) (shows : objects.Shows rows size iface.rpls) (enough : size ≤ fuel) (instanceId : UInt8)
    (dodagid : In6Addr) (trickleT : EvTstamp) (myRank : UInt16) (version : UInt8) (dest : In6Prefix)
    {rplPtr dagPtr : Option Nat} (distinct : (rplPtr.toList ++ dagPtr.toList).Nodup)
    (fresh : ∀ ptr ∈ rplPtr.toList ++ dagPtr.toList, objects.store ptr = none) :
    let created := dagCreate (createEnv env rplPtr dagPtr) iface instanceId dodagid trickleT myRank version dest
    created.freed.any (·.2) = false →
    ∃ next nextRows,
      objects.dagCreate fuel iface.toIfaceHead instanceId dodagid trickleT myRank version dest rplPtr dagPtr = some next ∧
      next.Shows nextRows (size + 1) created.iface.rpls := by
  intro created keeps
  simp only [created, dagCreate, Objects.dagCreate] at keeps ⊢
  rcases createLookups_shows shows enough instanceId dodagid with
    ⟨noRpl, missing⟩ | ⟨rpl, foundRpl, someRpl, linked, dag, lookedUp, dagFound⟩
  · simp only [noRpl, missing, Option.bind_eq_bind, Option.bind_some]
    cases rplPtr with
    | none => exact ⟨objects, rows, rfl, grows shows⟩
    | some rpl =>
        have freshRpl := fresh rpl (by simp)
        cases dagPtr with
        | none =>
            obtain ⟨nextRows, nextShows⟩ := freedInstance_shows shows instanceId freshRpl
            exact ⟨_, nextRows, rfl, nextShows⟩
        | some dag =>
            have different : rpl ≠ dag := by simpa using distinct
            have id : (objects.rplCreate rpl instanceId).rpl rpl = ⟨instanceId⟩ := if_pos rfl
            simp only [id]
            exact newInstance_shows shows missing (dagInit_bare iface.toIfaceHead ⟨instanceId⟩ dodagid trickleT myRank
              version dest) freshRpl (fresh dag (by simp)) different
  · simp only [someRpl, linked, lookedUp, dagFound, Option.bind_eq_bind, Option.bind_some] at keeps ⊢
    cases dag with
    | some dag => simp at keeps
    | none =>
        cases dagPtr with
        | none => simp [createEnv] at keeps
        | some dag =>
            exact newDag_shows shows foundRpl (dagInit_bare iface.toIfaceHead (objects.rpl rpl) dodagid trickleT myRank
              version dest) (fresh dag (by simp))

theorem child_shows (shows : objects.Shows rows size iface.rpls) (enough : size ≤ fuel) {instanceId : UInt8}
    {dodagid : In6Addr} {rpl dag : Nat}
    (foundRpl : (rows .rpls).find? (fun ptr => (objects.rpl ptr).instanceId == instanceId) = some rpl)
    (foundDag : (rows (.dags rpl)).find? (fun ptr => (objects.dag ptr).dodagid == dodagid) = some dag)
    (inTable : dagLookup iface instanceId dodagid = some (objects.dagOf rows dag)) (addr fromAddr : In6Addr)
    {ptr : Option Nat} (fresh : ∀ child ∈ ptr.toList, objects.store child = none) :
    ∃ next nextRows, objects.lookupChildOrCreate fuel dag addr fromAddr ptr = some next ∧
      next.Shows nextRows (size + 1) (dagWrite iface instanceId dodagid fun _ =>
        dagLookupChildOrCreate ptr.isSome (objects.dagOf rows dag) addr fromAddr).rpls := by
  have known : dagLookupChild (objects.dagOf rows dag) addr =
      ((rows (.childs dag)).find? fun ptr => (objects.child ptr).addr == addr).map objects.child := by
    simp only [dagLookupChild, Objects.dagOf, List.find?_map]
    rfl
  simp only [Objects.lookupChildOrCreate, lookupChild_shows shows enough, dagLookupChildOrCreate, known,
    Option.bind_eq_bind, Option.bind_some]
  cases (rows (.childs dag)).find? fun ptr => (objects.child ptr).addr == addr with
  | some child =>
      refine ⟨objects, rows, rfl, ?_⟩
      simp only [Option.map_some, dagWrite_of_found inTable]
      exact grows shows
  | none =>
      cases ptr with
      | none =>
          refine ⟨objects, rows, rfl, ?_⟩
          simp only [Option.map_none, Option.isSome_none, Bool.false_eq_true, if_false, dagWrite_of_found inTable]
          exact grows shows
      | some child => exact newChild_shows shows foundRpl foundDag addr fromAddr (fresh child (by simp))

theorem daoack_shows (shows : objects.Shows rows size iface.rpls) {instanceId : UInt8} {dodagid : In6Addr}
    {rpl dag : Nat}
    (foundRpl : (rows .rpls).find? (fun ptr => (objects.rpl ptr).instanceId == instanceId) = some rpl)
    (foundDag : (rows (.dags rpl)).find? (fun ptr => (objects.dag ptr).dodagid == dodagid) = some dag)
    (inTable : dagLookup iface instanceId dodagid = some (objects.dagOf rows dag))
    {ptr : Option Nat} (fresh : ∀ daoack ∈ ptr.toList, objects.store daoack = none) :
    ∃ next nextRows, objects.daoackInsert dag ptr = some next ∧
      next.Shows nextRows (size + 1) (dagWrite iface instanceId dodagid fun _ =>
        dagDaoackInsert ptr.isSome (objects.dagOf rows dag) (objects.dagOf rows dag).dsn).rpls := by
  cases ptr with
  | none =>
      refine ⟨objects, rows, rfl, ?_⟩
      simp only [dagDaoackInsert, Option.isSome_none, Bool.false_eq_true, if_false, dagWrite_of_found inTable]
      exact grows shows
  | some daoack => exact newDaoack_shows shows foundRpl foundDag (fresh daoack (by simp))

theorem call_objects (env : Env) (shows : objects.Shows rows size iface.rpls) (enough : size ≤ fuel) {call : TableCall}
    (fresh : call.Fresh objects.store) (keeps : call.freesLinked env iface = false) :
    ∃ next nextRows, objects.call fuel iface.toIfaceHead call = some next ∧
      next.Shows nextRows (size + 1) (call.apply env iface).rpls := by
  obtain ⟨distinct, fresh⟩ := fresh
  cases call with
  | create instanceId dodagid trickleT myRank version dest rplPtr dagPtr =>
      exact create_shows env shows enough instanceId dodagid trickleT myRank version dest distinct fresh keeps
  | child instanceId dodagid addr fromAddr ptr =>
      simp only [Objects.call, TableCall.apply]
      rcases lookup_shows shows enough rfl instanceId dodagid with
        ⟨noDag, missing⟩ | ⟨rpl, dag, lookedUp, foundRpl, foundDag, inTable⟩
      · simp only [noDag, missing, Option.bind_eq_bind, Option.bind_some]
        exact ⟨objects, rows, rfl, grows shows⟩
      · simp only [lookedUp, inTable, Option.bind_eq_bind, Option.bind_some]
        exact child_shows shows enough foundRpl foundDag inTable addr fromAddr fresh
  | daoack instanceId dodagid ptr =>
      simp only [Objects.call, TableCall.apply]
      rcases lookup_shows shows enough rfl instanceId dodagid with
        ⟨noDag, missing⟩ | ⟨rpl, dag, lookedUp, foundRpl, foundDag, inTable⟩
      · simp only [noDag, missing, Option.bind_eq_bind, Option.bind_some]
        exact ⟨objects, rows, rfl, grows shows⟩
      · simp only [lookedUp, inTable, Option.bind_eq_bind, Option.bind_some]
        exact daoack_shows shows foundRpl foundDag inTable fresh

theorem apply_head (env : Env) (iface : Iface) (call : TableCall) :
    (call.apply env iface).toIfaceHead = iface.toIfaceHead := by
  cases call with
  | create instanceId dodagid trickleT myRank version dest rplPtr dagPtr =>
      simp only [TableCall.apply, dagCreate]
      split <;> split <;> try split
      all_goals rfl
  | child instanceId dodagid addr fromAddr ptr =>
      simp only [TableCall.apply]
      split <;> rfl
  | daoack instanceId dodagid ptr =>
      simp only [TableCall.apply]
      split <;> rfl

/-- The call returns, and the next walk that comes by the instance reads freed memory. -/
theorem freed_unreadable (env : Env) (shows : objects.Shows rows size iface.rpls) (enough : size ≤ fuel) {instanceId : UInt8}
    {dodagid : In6Addr} {trickleT : EvTstamp} {myRank : UInt16} {version : UInt8} {dest : In6Prefix}
    {rplPtr dagPtr : Option Nat}
    (frees : (TableCall.create instanceId dodagid trickleT myRank version dest rplPtr dagPtr).freesLinked env iface = true) :
    ∃ next, objects.call fuel iface.toIfaceHead
        (.create instanceId dodagid trickleT myRank version dest rplPtr dagPtr) = some next ∧
      ∀ later, next.read later = none ∧ ∀ other, next.lookup later instanceId other = none := by
  simp only [TableCall.freesLinked, dagCreate] at frees
  simp only [Objects.call, Objects.dagCreate]
  rcases createLookups_shows shows enough instanceId dodagid with
    ⟨noRpl, missing⟩ | ⟨rpl, foundRpl, someRpl, linked, dag, lookedUp, dagFound⟩
  · simp only [missing] at frees
    split at frees
    · simp at frees
    · split at frees <;> simp at frees
  · have chain := shows.lists.chain .rpls
    have unreadable : ∀ later, (objects.free rpl).read later = none ∧
        ∀ other, (objects.free rpl).lookup later instanceId other = none := by
      intro later
      have walk := dlForeach_freed chain.linked (List.mem_of_find?_eq_some foundRpl) later
      have search := dlSearch_freed chain.linked foundRpl later
      rw [← chain.first] at walk search
      refine ⟨?_, fun other => ?_⟩
      · simp [Objects.read, Objects.free, walk]
      · simp [Objects.lookup, Objects.lookupRpl, Objects.free, search]
    simp only [someRpl, linked, lookedUp, dagFound, Option.bind_eq_bind, Option.bind_some] at frees ⊢
    cases dag with
    | some dag => exact ⟨_, rfl, unreadable⟩
    | none =>
        cases dagPtr with
        | none => exact ⟨_, rfl, unreadable⟩
        | some dag => simp [createEnv] at frees

/-- Each call adds at most one object to a list. -/
theorem calls_objects (env : Env) {head : IfaceHead} {calls : List TableCall} (shows : objects.Shows rows size iface.rpls)
    (same : iface.toIfaceHead = head) (enough : size + calls.length ≤ fuel)
    (fresh : AllSteps (Objects.step fuel head) FreshIn (some objects) calls)
    (keeps : AllSteps (TableCall.apply env) (fun iface call => call.freesLinked env iface = false) iface calls) :
    ∃ next nextRows, calls.foldl (Objects.step fuel head) (some objects) = some next ∧
      next.Shows nextRows (size + calls.length) (calls.foldl (TableCall.apply env) iface).rpls ∧
      (calls.foldl (TableCall.apply env) iface).toIfaceHead = head := by
  induction calls generalizing objects rows size iface with
  | nil => exact ⟨objects, rows, rfl, shows, same⟩
  | cons call rest ih =>
      rw [List.length_cons] at enough
      have room : size ≤ fuel := by omega
      obtain ⟨next, nextRows, called, nextShows⟩ := call_objects env shows room fresh.1 keeps.1
      have stepped : Objects.step fuel head (some objects) call = some next := by
        rw [← same]
        exact called
      have freshLater := fresh.2
      rw [stepped] at freshLater
      have sameLater : (call.apply env iface).toIfaceHead = head := (apply_head env iface call).trans same
      obtain ⟨final, finalRows, ran, finalShows, finalSame⟩ := ih nextShows sameLater (by omega) freshLater keeps.2
      refine ⟨final, finalRows, ?_, ?_, finalSame⟩
      · rw [List.foldl_cons, stepped]
        exact ran
      · rw [List.length_cons, Nat.add_comm rest.length, ← Nat.add_assoc]
        exact finalShows

end

/-- The objects refine the tables. After any sequence of calls none of which frees a linked
instance, no access has failed, walking the objects reads back the tables, and `dag_lookup`
returns a pointer to the dag that the tables have. After a `dag_create` that does free one,
the walk and every lookup of that instance read freed memory. -/
theorem objects_refine_tables (env : Env) (head : IfaceHead) (objects : Objects) (start : ∀ list, objects.head list = none)
    (calls : List TableCall) (fuel : Nat) (enough : calls.length ≤ fuel)
    (fresh : AllSteps (Objects.step fuel head) FreshIn (some objects) calls)
    (keeps : AllSteps (TableCall.apply env) (fun iface call => call.freesLinked env iface = false) ⟨head, []⟩ calls) :
    let iface := calls.foldl (TableCall.apply env) ⟨head, []⟩
    ∃ next, calls.foldl (Objects.step fuel head) (some objects) = some next ∧
      next.read fuel = some iface.rpls ∧
      (∀ instanceId dodagid, ∃ ptr, next.lookup fuel instanceId dodagid = some ptr ∧
        ptr.bind (next.readDag fuel) = dagLookup iface instanceId dodagid) ∧
      ∀ instanceId dodagid trickleT myRank version dest rplPtr dagPtr,
        let call := TableCall.create instanceId dodagid trickleT myRank version dest rplPtr dagPtr
        call.freesLinked env iface = true → ∃ broken, next.call fuel head call = some broken ∧
          ∀ later, broken.read later = none ∧ ∀ other, broken.lookup later instanceId other = none := by
  intro iface
  have shows : objects.Shows (fun _ => []) 0 (⟨head, []⟩ : Iface).rpls :=
    ⟨⟨fun list => ⟨List.nodup_nil, start list, trivial⟩, fun _ _ _ member => absurd member List.not_mem_nil⟩, rfl,
      fun _ => Nat.le_refl 0⟩
  obtain ⟨next, rows, ran, finalShows, same⟩ := calls_objects env shows rfl (by omega) fresh keeps
  have room : 0 + calls.length ≤ fuel := by omega
  refine ⟨next, ran, read_shows finalShows room, ?_, ?_⟩
  · intro instanceId dodagid
    rcases lookup_shows finalShows room rfl instanceId dodagid with
      ⟨noDag, missing⟩ | ⟨rpl, dag, lookedUp, -, -, inTable⟩
    · exact ⟨none, noDag, missing.symm⟩
    · exact ⟨some dag, lookedUp, (readDag_shows finalShows room dag).trans inTable.symm⟩
  · intro instanceId dodagid trickleT myRank version dest rplPtr dagPtr call frees
    have sameHead : iface.toIfaceHead = head := same
    have unreadable := freed_unreadable env finalShows room frees
    rw [sameHead] at unreadable
    exact unreadable

def sampleObjects : Objects where
  store := fun _ => none
  head := fun _ => none
  rpl := fun _ => ⟨0⟩
  dag := fun _ => rootDag 1
  child := fun _ => ⟨.unspecified, .unspecified⟩
  dsn := fun _ => 0

def sampleTableCalls : List TableCall :=
  [.create 1 (linkLocal 1) 5 1 1 sampleDest (some 10) (some 11),
    .child 1 (linkLocal 1) (linkLocal 33) (linkLocal 3) (some 12), .daoack 1 (linkLocal 1) (some 13),
    .create 1 (linkLocal 2) 5 1 1 sampleDest none (some 14),
    .child 1 (linkLocal 2) (linkLocal 33) (linkLocal 3) (some 15)]

/-- A third dag for the instance, for which there is no memory. -/
theorem objects_refine_tables_sampleTableCalls :
    ∃ next, sampleTableCalls.foldl (Objects.step 5 (linkIface 1).toIfaceHead) (some sampleObjects) = some next ∧
      (next.read 5).map (fun rpls => rpls.map fun rpl => rpl.dags.map fun dag => dag.childs.length) = some [[1, 1]] ∧
      ∃ broken, next.call 5 (linkIface 1).toIfaceHead (.create 1 (linkLocal 3) 5 1 1 sampleDest none none) =
        some broken ∧ broken.lookup 5 1 (linkLocal 1) = none := by
  obtain ⟨next, ran, reads, -, breaks⟩ := objects_refine_tables .granting (linkIface 1).toIfaceHead sampleObjects
    (fun _ => rfl) sampleTableCalls 5 (by decide)
    ⟨by decide +kernel, by decide +kernel, by decide +kernel, by decide +kernel, by decide +kernel, trivial⟩
    ⟨by decide +kernel, by decide +kernel, by decide +kernel, by decide +kernel, by decide +kernel, trivial⟩
  obtain ⟨broken, called, unreadable⟩ := breaks 1 (linkLocal 3) 5 1 1 sampleDest none none (by decide +kernel)
  refine ⟨next, ran, ?_, broken, called, (unreadable 5).2 _⟩
  rw [reads]
  decide +kernel

end Rpld
