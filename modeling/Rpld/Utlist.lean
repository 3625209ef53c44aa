import Rpld.Lib.Runs
import Rpld.UtlistCore

/-!
What the macros of `utlist.h` do to the list a head stands for, and to any number of lists
that share the memory: as long as only objects on no list are appended or freed and only
members are deleted, no access fails, and a walk from each head visits its members in the
order in which they were appended.
-/

namespace Rpld

open Runs

/-! Segments. -/

/-- The objects are linked in this order. The first one's `prev` is `before` and the last
one's `next` is `after`. -/
def Seg (store : Store) : Option Nat → List Nat → Option Nat → Prop
  | _, [], _ => True
  | before, ptr :: rest, after =>
      store ptr = some ⟨before, rest.head?.or after⟩ ∧ Seg store (some ptr) rest after

section

variable {store next : Store} {before after : Option Nat}

theorem seg_append {left right : List Nat} :
    Seg store before (left ++ right) after ↔
      Seg store before left (right.head?.or after) ∧ Seg store (left.getLast?.or before) right after := by
  induction left generalizing before with
  | nil => simp [Seg]
  | cons ptr rest ih =>
      have start : (rest ++ right).head?.or after = rest.head?.or (right.head?.or after) := by
        rw [List.head?_append, Option.or_assoc]
      have finish : ((ptr :: rest).getLast?.or before) = rest.getLast?.or (some ptr) := by
        rw [List.getLast?_cons]
        cases rest.getLast? <;> rfl
      simp only [List.cons_append, Seg, ih, start, finish, and_assoc]

theorem seg_congr {ptrs : List Nat} (linked : Seg store before ptrs after)
    (same : ∀ ptr ∈ ptrs, next ptr = store ptr) : Seg next before ptrs after := by
  induction ptrs generalizing before with
  | nil => trivial
  | cons ptr rest ih =>
      refine ⟨?_, ih linked.2 fun other member => same other (List.mem_cons_of_mem _ member)⟩
      rw [same ptr List.mem_cons_self]
      exact linked.1

theorem seg_allocated {ptrs : List Nat} {ptr : Nat} (linked : Seg store before ptrs after)
    (member : ptr ∈ ptrs) : ∃ links, store ptr = some links := by
  induction ptrs generalizing before with
  | nil => simp at member
  | cons first rest ih =>
      rcases List.mem_cons.mp member with rfl | later
      · exact ⟨_, linked.1⟩
      · exact ih linked.2 later

@[simp] theorem Store.put_same (ptr : Nat) (links : Option Links) : store.put ptr links ptr = links := by
  simp [Store.put]

theorem Store.put_other {ptr other : Nat} (links : Option Links) (different : other ≠ ptr) :
    store.put ptr links other = store other := by
  simp [Store.put, different]

theorem setPrev_eq {ptr : Nat} {links : Links} (held : store ptr = some links) (value : Option Nat) :
    store.setPrev (some ptr) value = some (store.put ptr (some { links with prev := value })) := by
  simp [Store.setPrev, held]

theorem setNext_eq {ptr : Nat} {links : Links} (held : store ptr = some links) (value : Option Nat) :
    store.setNext (some ptr) value = some (store.put ptr (some { links with next := value })) := by
  simp [Store.setNext, held]

theorem seg_put {ptrs : List Nat} {ptr : Nat} (links : Option Links) (linked : Seg store before ptrs after)
    (outside : ptr ∉ ptrs) : Seg (store.put ptr links) before ptrs after := by
  refine seg_congr linked fun other member => Store.put_other links ?_
  rintro rfl
  exact outside member

/-- An assignment to the `prev` of the first object. -/
theorem setPrev_seg {first : Nat} {rest : List Nat} (linked : Seg store before (first :: rest) after)
    (distinct : (first :: rest).Nodup) (value : Option Nat) :
    ∃ links, store.setPrev (some first) value = some (store.put first links) ∧
      Seg (store.put first links) value (first :: rest) after := by
  rw [List.nodup_cons] at distinct
  refine ⟨_, setPrev_eq linked.1 value, Store.put_same _ _, ?_⟩
  exact seg_put _ linked.2 distinct.1

/-- An assignment to the `next` of the last object. -/
theorem setNext_seg {front : List Nat} {last : Nat} (linked : Seg store before (front ++ [last]) after)
    (distinct : (front ++ [last]).Nodup) (value : Option Nat) :
    ∃ links, store.setNext (some last) value = some (store.put last links) ∧
      Seg (store.put last links) before (front ++ [last]) value := by
  rw [seg_append] at linked
  obtain ⟨inFront, atLast⟩ := linked
  have outside : last ∉ front := fun member =>
    (List.nodup_append.mp distinct).2.2 last member last (by simp) rfl
  refine ⟨_, setNext_eq atLast.1 value, ?_⟩
  rw [seg_append]
  refine ⟨?_, ?_, trivial⟩
  · exact seg_put _ inFront outside
  · rw [Store.put_same]
    rfl

end

/-! One list. -/

/-- The head stands for the list: the `prev` of the first object is the last one. -/
structure Chain (store : Store) (head : Option Nat) (ptrs : List Nat) : Prop where
  distinct : ptrs.Nodup
  first : head = ptrs.head?
  linked : Seg store ptrs.getLast? ptrs none

section

variable {store : Store} {head : Option Nat} {ptrs : List Nat}

theorem chain_congr {next : Store} (chain : Chain store head ptrs) (same : ∀ ptr ∈ ptrs, next ptr = store ptr) :
    Chain next head ptrs :=
  ⟨chain.distinct, chain.first, seg_congr chain.linked same⟩

theorem dlForeach_seg {before : Option Nat} (linked : Seg store before ptrs none) {fuel : Nat}
    (enough : ptrs.length ≤ fuel) : dlForeach store fuel ptrs.head? = some ptrs := by
  induction ptrs generalizing before fuel with
  | nil => cases fuel <;> rfl
  | cons ptr rest ih =>
      cases fuel with
      | zero => simp at enough
      | succ fuel =>
          have followed := ih linked.2 (Nat.le_of_succ_le_succ enough)
          simp only [List.head?_cons, dlForeach, linked.1, Option.or_none, Option.bind_eq_bind,
            Option.bind_some, followed, Option.pure_def]

theorem dlForeach_chain (chain : Chain store head ptrs) {fuel : Nat} (enough : ptrs.length ≤ fuel) :
    dlForeach store fuel head = some ptrs := by
  rw [chain.first]
  exact dlForeach_seg chain.linked enough

/-- What a macro may leave as it was: every object but the named ones. -/
def SameOutside (ptrs : List Nat) (store next : Store) : Prop := ∀ ptr, ptr ∉ ptrs → next ptr = store ptr

/-- A list that is not empty, read from both ends. -/
theorem exists_ends {ptrs : List Nat} (nonempty : ptrs ≠ []) :
    ∃ first rest front last, ptrs = first :: rest ∧ ptrs = front ++ [last] := by
  obtain ⟨first, rest, atFront⟩ := List.exists_cons_of_ne_nil nonempty
  rcases List.eq_nil_or_concat ptrs with empty | ⟨front, last, atEnd⟩
  · exact absurd empty nonempty
  · exact ⟨first, rest, front, last, atFront, by simpa using atEnd⟩

theorem dlAppend_spec (chain : Chain store head ptrs) {add : Nat} {links : Links} (held : store add = some links)
    (outside : add ∉ ptrs) :
    ∃ next newHead, dlAppend store head add = some (next, newHead) ∧ Chain next newHead (ptrs ++ [add]) ∧
      SameOutside (ptrs ++ [add]) store next := by
  obtain ⟨distinct, atHead, linked⟩ := chain
  by_cases empty : ptrs = []
  · subst empty atHead
    refine ⟨(store.put add (some { links with prev := some add })).put add (some ⟨some add, none⟩), some add,
      ?_, ⟨by simp, rfl, Store.put_same add _, trivial⟩, ?_⟩
    · simp only [List.head?_nil, dlAppend, setPrev_eq held, Option.bind_eq_bind, Option.bind_some,
        setNext_eq (Store.put_same add _)]
      rfl
    · intro ptr other
      have different : ptr ≠ add := by simpa using other
      rw [Store.put_other _ different, Store.put_other _ different]
  · obtain ⟨first, rest, front, last, atFront, atEnd⟩ := exists_ends empty
    have notFirst : add ≠ first := by
      rintro rfl
      exact outside (by simp [atFront])
    have notLast : add ≠ last := by
      rintro rfl
      exact outside (by simp [atEnd])
    rw [show ptrs.getLast? = some last by simp [atEnd]] at linked
    rw [show ptrs.head? = some first by simp [atFront]] at atHead
    have prevSet := setPrev_eq held (some last)
    have linked₁ := seg_put (some { links with prev := some last }) linked outside
    generalize madeStore : store.put add _ = store₁ at prevSet linked₁
    obtain ⟨links₂, nextSet, linked₂⟩ := setNext_seg (atEnd ▸ linked₁) (atEnd ▸ distinct) (some add)
    rw [← atEnd] at linked₂
    obtain ⟨links₃, headSet, linked₃⟩ := setPrev_seg (atFront ▸ linked₂) (atFront ▸ distinct) (some add)
    rw [← atFront] at linked₃
    have heldAdd : (store₁.put last links₂).put first links₃ add = some { links with prev := some last } := by
      rw [Store.put_other _ notFirst, Store.put_other _ notLast, ← madeStore, Store.put_same]
    have firstBefore : store first = some ⟨some last, rest.head?.or none⟩ := (atFront ▸ linked).1
    have firstAfter : store₁ first = some ⟨some last, rest.head?.or none⟩ := (atFront ▸ linked₁).1
    refine ⟨((store₁.put last links₂).put first links₃).put add (some ⟨some last, none⟩), some first,
      ?_, ⟨?_, ?_, ?_⟩, ?_⟩
    · rw [atHead]
      simp only [dlAppend, firstBefore, prevSet, firstAfter, nextSet, headSet, setNext_eq heldAdd,
        Option.bind_eq_bind, Option.bind_some, Option.pure_def]
    · exact List.nodup_append.mpr ⟨distinct, by simp, fun ptr member other single same =>
        outside (by rw [← List.mem_singleton.mp single, ← same]; exact member)⟩
    · simp [atFront]
    · rw [List.getLast?_append, seg_append]
      refine ⟨seg_put _ linked₃ outside, ?_, trivial⟩
      rw [Store.put_same]
      simp [atEnd]
    · intro ptr other
      simp only [List.mem_append, List.mem_singleton, not_or] at other
      have notAtFront : ptr ≠ first := by
        rintro rfl
        exact other.1 (by simp [atFront])
      have notAtEnd : ptr ≠ last := by
        rintro rfl
        exact other.1 (by simp [atEnd])
      rw [Store.put_other _ other.2, Store.put_other _ notAtFront, Store.put_other _ notAtEnd, ← madeStore,
        Store.put_other _ other.2]

theorem dlDelete_spec {front back : List Nat} {del : Nat} (chain : Chain store head (front ++ del :: back)) :
    ∃ next newHead, dlDelete store head del = some (next, newHead) ∧ Chain next newHead (front ++ back) ∧
      SameOutside (front ++ back) store next := by
  obtain ⟨distinct, atHead, linked⟩ := chain
  rw [List.nodup_append, List.nodup_cons] at distinct
  obtain ⟨frontDistinct, ⟨notBack, backDistinct⟩, apart⟩ := distinct
  have notFront : del ∉ front := fun member => apart del member del (by simp) rfl
  have keptDistinct : (front ++ back).Nodup := List.nodup_append.mpr
    ⟨frontDistinct, backDistinct, fun ptr inFront other inBack =>
      apart ptr inFront other (List.mem_cons_of_mem _ inBack)⟩
  rw [seg_append] at linked
  obtain ⟨inFront, atDel, inBack⟩ := linked
  by_cases noFront : front = []
  · subst noFront
    cases back with
    | nil =>
        refine ⟨store, none, ?_, ⟨by simp, rfl, trivial⟩, fun ptr _ => rfl⟩
        simp [dlDelete, atHead, atDel]
    | cons second rest =>
        obtain ⟨links, prevSet, linked⟩ := setPrev_seg inBack backDistinct (second :: rest).getLast?
        have notSecond : del ≠ second := fun same => notBack (by simp [same])
        obtain ⟨last, atEnd⟩ : ∃ last, (second :: rest).getLast? = some last := ⟨_, List.getLast?_cons⟩
        have notLast : last ≠ del := by
          rintro rfl
          exact notBack (List.mem_of_getLast? atEnd)
        refine ⟨store.put second links, some second, ?_, ⟨backDistinct, rfl, linked⟩, ?_⟩
        · have delLinks : store del = some ⟨some last, some second⟩ := by simpa [atEnd] using atDel
          rw [atEnd] at prevSet
          simp [dlDelete, atHead, delLinks, notLast, prevSet, Store.put_other _ notSecond]
        · intro ptr other
          exact Store.put_other _ fun same => other (by simp [same])
  · obtain ⟨first, rest, before, last, atFront, atEnd⟩ := exists_ends noFront
    have notFirst : del ≠ first := fun same => notFront (by simp [same, atFront])
    have notLast : last ≠ del := fun same => notFront (by simp [← same, atEnd])
    have headFirst : head = some first := by simp [atHead, atFront]
    have delLinks : store del = some ⟨some last, back.head?⟩ := by simpa [atEnd] using atDel
    obtain ⟨links, nextSet, linked⟩ := setNext_seg (atEnd ▸ inFront) (atEnd ▸ frontDistinct) back.head?
    rw [← atEnd] at linked
    have delLinks₁ : store.put last links del = some ⟨some last, back.head?⟩ := by
      rw [Store.put_other _ (Ne.symm notLast), delLinks]
    cases back with
    | nil =>
        obtain ⟨links₂, prevSet, linked₂⟩ := setPrev_seg (atFront ▸ linked) (atFront ▸ frontDistinct) (some last)
        rw [← atFront] at linked₂
        refine ⟨(store.put last links).put first links₂, some first, ?_, ⟨keptDistinct, ?_, ?_⟩, ?_⟩
        · rw [List.head?_nil] at delLinks delLinks₁ nextSet
          simp [dlDelete, headFirst, delLinks, notLast, notFirst, nextSet, delLinks₁, prevSet]
        · simp [atFront]
        · have ends : (front ++ []).getLast? = some last := by simp [atEnd]
          rw [ends, List.append_nil]
          exact linked₂
        · intro ptr other
          rw [Store.put_other _ fun same => other (by simp [same, atFront]),
            Store.put_other _ fun same => other (by simp [same, atEnd])]
    | cons second after =>
        have secondNotFront : second ∉ front := fun member => apart second member second (by simp) rfl
        have lastNotBack : last ∉ second :: after := fun member =>
          apart last (by simp [atEnd]) last (List.mem_cons_of_mem _ member) rfl
        have inBack₁ := seg_put links inBack lastNotBack
        obtain ⟨links₂, prevSet, linked₂⟩ := setPrev_seg inBack₁ backDistinct (some last)
        refine ⟨(store.put last links).put second links₂, some first, ?_, ⟨keptDistinct, ?_, ?_⟩, ?_⟩
        · rw [List.head?_cons] at delLinks delLinks₁ nextSet
          simp [dlDelete, headFirst, delLinks, notLast, notFirst, nextSet, delLinks₁, prevSet]
        · simp [atFront]
        · rw [seg_append]
          refine ⟨?_, ?_⟩
          · have ends : (front ++ second :: after).getLast? = (front ++ del :: second :: after).getLast? := by
              simp [List.getLast?_cons_cons]
            rw [ends]
            exact seg_put links₂ linked secondNotFront
          · rw [show front.getLast? = some last by simp [atEnd]]
            exact linked₂
        · intro ptr other
          rw [Store.put_other _ fun same => other (by simp [same]),
            Store.put_other _ fun same => other (by simp [same, atEnd])]

end

/-! Lists that share the memory. -/

section

variable {κ : Type}

/-- Every head stands for its own list and no object is on two of them. -/
structure Lists (store : Store) (head : κ → Option Nat) (rows : κ → List Nat) : Prop where
  chain : ∀ list, Chain store (head list) (rows list)
  apart : ∀ list other ptr, ptr ∈ rows list → ptr ∈ rows other → list = other

variable {store : Store} {head : κ → Option Nat} {rows : κ → List Nat}

theorem lists_put (lists : Lists store head rows) {ptr : Nat} (links : Option Links) (loose : ∀ list, ptr ∉ rows list) :
    Lists (store.put ptr links) head rows := by
  refine ⟨?_, lists.apart⟩
  intro list
  refine chain_congr (lists.chain list) fun other member => Store.put_other _ ?_
  rintro rfl
  exact loose list member

variable [DecidableEq κ]

def setRow (rows : κ → List Nat) (list : κ) (row : List Nat) : κ → List Nat :=
  fun other => if other = list then row else rows other

/-- One list and what it is made of change, and the other lists stay where they are. -/
theorem lists_update (lists : Lists store head rows) {next : Store} {list : κ} {value : Option Nat} {row touched : List Nat}
    (chain : Chain next value row) (frame : SameOutside touched store next)
    (others : ∀ other, other ≠ list → ∀ ptr ∈ rows other, ptr ∉ touched ∧ ptr ∉ row) :
    Lists next (setHead head list value) (setRow rows list row) := by
  refine ⟨?_, ?_⟩
  · intro other
    by_cases same : other = list
    · simpa [setHead, setRow, same] using chain
    · simp only [setHead, setRow, same, if_false]
      exact chain_congr (lists.chain other) fun ptr member => frame ptr (others other same ptr member).1
  · intro one two ptr inOne inTwo
    simp only [setRow] at inOne inTwo
    split at inOne <;> split at inTwo
    · rename_i oneSame twoSame
      rw [oneSame, twoSame]
    · rename_i twoOther
      exact absurd inOne (others two twoOther ptr inTwo).2
    · rename_i oneOther _
      exact absurd inTwo (others one oneOther ptr inOne).2
    · exact lists.apart one two ptr inOne inTwo

theorem lists_append (lists : Lists store head rows) (list : κ) {add : Nat} {links : Links}
    (held : store add = some links) (loose : ∀ other, add ∉ rows other) :
    ∃ next value, dlAppend store (head list) add = some (next, value) ∧
      Lists next (setHead head list value) (setRow rows list (rows list ++ [add])) ∧
      SameOutside (rows list ++ [add]) store next := by
  obtain ⟨next, value, appended, chain, frame⟩ := dlAppend_spec (lists.chain list) held (loose list)
  refine ⟨next, value, appended, lists_update lists chain frame ?_, frame⟩
  intro other different ptr member
  have outside : ptr ∉ rows list ++ [add] := by
    rw [List.mem_append, List.mem_singleton]
    rintro (inList | rfl)
    · exact different (lists.apart other list ptr member inList)
    · exact loose other member
  exact ⟨outside, outside⟩

theorem lists_delete (lists : Lists store head rows) {list : κ} {del : Nat} (listed : del ∈ rows list) :
    ∃ next value, dlDelete store (head list) del = some (next, value) ∧
      Lists next (setHead head list value) (setRow rows list ((rows list).erase del)) ∧
      SameOutside ((rows list).erase del) store next := by
  obtain ⟨front, back, split⟩ := List.append_of_mem listed
  have chain := lists.chain list
  have notFront : del ∉ front := fun member =>
    (List.nodup_append.mp (split ▸ chain.distinct)).2.2 del member del (by simp) rfl
  have erased : (rows list).erase del = front ++ back := by
    rw [split, List.erase_append_right _ notFront, List.erase_cons_head]
  rw [split] at chain
  obtain ⟨next, value, deleted, kept, frame⟩ := dlDelete_spec chain
  rw [erased]
  refine ⟨next, value, deleted, lists_update lists kept frame ?_, frame⟩
  intro other different ptr member
  have outside : ptr ∉ front ++ back := by
    intro inList
    refine different (lists.apart other list ptr member ?_)
    rw [← erased] at inList
    exact List.mem_of_mem_erase inList
  exact ⟨outside, outside⟩

end

/-! Runs of calls. -/

/-- What the calls are meant to do: the lists, and the objects that are on none. -/
structure Rows (κ : Type) where
  row : κ → List Nat
  loose : List Nat

section

variable {κ : Type}

def Rows.empty : Rows κ := ⟨fun _ => [], []⟩

def Linked.empty : Linked κ := ⟨fun _ => none, fun _ => none⟩

structure Linked.Shows (memory : Linked κ) (rows : Rows κ) : Prop where
  lists : Lists memory.store memory.head rows.row
  held : ∀ ptr ∈ rows.loose, ∃ links, memory.store ptr = some links
  once : rows.loose.Nodup
  free : ∀ ptr ∈ rows.loose, ∀ list, ptr ∉ rows.row list

theorem empty_shows : (Linked.empty : Linked κ).Shows Rows.empty where
  lists := ⟨fun _ => ⟨List.nodup_nil, rfl, trivial⟩, fun _ _ _ member => absurd member List.not_mem_nil⟩
  held := fun _ member => absurd member List.not_mem_nil
  once := List.nodup_nil
  free := fun _ member => absurd member List.not_mem_nil

variable [DecidableEq κ]

def Rows.call (rows : Rows κ) : ListCall κ → Rows κ
  | .alloc ptr => { rows with loose := ptr :: rows.loose }
  | .append list ptr => ⟨setRow rows.row list (rows.row list ++ [ptr]), rows.loose.erase ptr⟩
  | .delete list ptr => ⟨setRow rows.row list ((rows.row list).erase ptr), ptr :: rows.loose⟩
  | .free ptr => { rows with loose := rows.loose.erase ptr }

/-- The allocator hands out an object that is not in use, only objects on no list are
appended or freed, and only members are deleted. -/
def Rows.Proper (rows : Rows κ) : ListCall κ → Prop
  | .alloc ptr => ptr ∉ rows.loose ∧ ∀ list, ptr ∉ rows.row list
  | .append _ ptr => ptr ∈ rows.loose
  | .delete list ptr => ptr ∈ rows.row list
  | .free ptr => ptr ∈ rows.loose

theorem mem_setRow {rows : κ → List Nat} {list other : κ} {row : List Nat} {ptr : Nat}
    (member : ptr ∈ setRow rows list row other) : ptr ∈ row ∨ ptr ∈ rows other := by
  unfold setRow at member
  split at member
  · exact Or.inl member
  · exact Or.inr member

variable {memory : Linked κ} {rows : Rows κ}

theorem alloc_shows (shows : memory.Shows rows) {ptr : Nat} (proper : rows.Proper (.alloc ptr)) :
    ∃ next, memory.call (.alloc ptr) = some next ∧ next.Shows (rows.call (.alloc ptr)) := by
  obtain ⟨lists, held, once, free⟩ := shows
  refine ⟨_, rfl, lists_put lists _ proper.2, ?_, List.nodup_cons.mpr ⟨proper.1, once⟩, ?_⟩
  · intro other member
    by_cases same : other = ptr
    · exact ⟨⟨none, none⟩, by simp [same]⟩
    · have old := held other ((List.mem_cons.mp member).resolve_left same)
      simpa only [Store.put_other _ same] using old
  · intro other member
    rcases List.mem_cons.mp member with rfl | old
    · exact proper.2
    · exact free other old

theorem append_shows (shows : memory.Shows rows) (list : κ) {ptr : Nat} (proper : ptr ∈ rows.loose) :
    ∃ next, memory.call (.append list ptr) = some next ∧ next.Shows (rows.call (.append list ptr)) := by
  obtain ⟨lists, held, once, free⟩ := shows
  obtain ⟨links, atPtr⟩ := held ptr proper
  obtain ⟨next, value, appended, nextLists, frame⟩ := lists_append lists list atPtr (free ptr proper)
  have untouched : ∀ other ∈ rows.loose.erase ptr, other ∉ rows.row list ++ [ptr] ∧ other ∈ rows.loose := by
    intro other member
    obtain ⟨different, old⟩ := once.mem_erase_iff.mp member
    exact ⟨by simp [free other old list, different], old⟩
  refine ⟨⟨next, setHead memory.head list value⟩, by simp [Linked.call, appended], nextLists, ?_,
    once.erase ptr, ?_⟩
  · intro other member
    obtain ⟨outside, old⟩ := untouched other member
    simpa only [frame other outside] using held other old
  · intro other member listed inRow
    obtain ⟨outside, old⟩ := untouched other member
    rcases mem_setRow inRow with inRow | inRow
    · exact outside inRow
    · exact free other old listed inRow

theorem delete_shows (shows : memory.Shows rows) {list : κ} {ptr : Nat} (listed : ptr ∈ rows.row list) :
    ∃ next, memory.call (.delete list ptr) = some next ∧ next.Shows (rows.call (.delete list ptr)) := by
  obtain ⟨lists, held, once, free⟩ := shows
  obtain ⟨next, value, deleted, nextLists, frame⟩ := lists_delete lists listed
  have notErased : ptr ∉ (rows.row list).erase ptr := (lists.chain list).distinct.not_mem_erase
  have notLoose : ptr ∉ rows.loose := fun member => free ptr member list listed
  refine ⟨⟨next, setHead memory.head list value⟩, by simp [Linked.call, deleted], nextLists, ?_,
    List.nodup_cons.mpr ⟨notLoose, once⟩, ?_⟩
  · intro other member
    rcases List.mem_cons.mp member with rfl | old
    · simpa only [frame other notErased] using seg_allocated (lists.chain list).linked listed
    · have outside : other ∉ (rows.row list).erase ptr := fun member =>
        free other old list (List.mem_of_mem_erase member)
      simpa only [frame other outside] using held other old
  · intro other member row inRow
    rcases List.mem_cons.mp member with rfl | old
    · simp only [Rows.call, setRow] at inRow
      split at inRow
      · exact notErased inRow
      · rename_i different
        exact different (lists.apart row list other inRow listed)
    · rcases mem_setRow inRow with inRow | inRow
      · exact free other old list (List.mem_of_mem_erase inRow)
      · exact free other old row inRow

theorem free_shows (shows : memory.Shows rows) {ptr : Nat} (proper : ptr ∈ rows.loose) :
    ∃ next, memory.call (.free ptr) = some next ∧ next.Shows (rows.call (.free ptr)) := by
  obtain ⟨lists, held, once, free⟩ := shows
  refine ⟨_, rfl, lists_put lists none (free ptr proper), ?_, once.erase ptr, ?_⟩
  · intro other member
    obtain ⟨different, old⟩ := once.mem_erase_iff.mp member
    simpa only [Store.put_other _ different] using held other old
  · intro other member
    exact free other (once.mem_erase_iff.mp member).2

theorem call_shows (shows : memory.Shows rows) {call : ListCall κ} (proper : rows.Proper call) :
    ∃ next, memory.call call = some next ∧ next.Shows (rows.call call) := by
  cases call with
  | alloc ptr => exact alloc_shows shows proper
  | append list ptr => exact append_shows shows list proper
  | delete list ptr => exact delete_shows shows proper
  | free ptr => exact free_shows shows proper

theorem calls_show {calls : List (ListCall κ)} (shows : memory.Shows rows)
    (proper : AllSteps Rows.call Rows.Proper rows calls) :
    ∃ next, calls.foldlM Linked.call memory = some next ∧ next.Shows (calls.foldl Rows.call rows) := by
  induction calls generalizing memory rows with
  | nil => exact ⟨memory, rfl, shows⟩
  | cons call rest ih =>
      obtain ⟨next, called, nextShows⟩ := call_shows shows proper.1
      obtain ⟨final, rested, finalShows⟩ := ih nextShows proper.2
      refine ⟨final, ?_, finalShows⟩
      rw [List.foldlM_cons, called]
      exact rested

end

/-- `iface_free` comes first, so the macro reads a member of a freed interface. -/
theorem configFree_chain {store : Store} {head : Option Nat} {ptrs : List Nat} (chain : Chain store head ptrs)
    (fuel : Nat) : configFree fuel store head ≠ none ↔ ptrs = [] := by
  rw [chain.first]
  cases ptrs with
  | nil => cases fuel <;> simp [configFree, configFreeFrom]
  | cons el rest =>
      have linked : store el = some ⟨(el :: rest).getLast?, rest.head?.or none⟩ := chain.linked.1
      cases fuel with
      | zero => simp [configFree, configFreeFrom]
      | succ fuel => simp [configFree, configFreeFrom, linked, dlDelete]

/-- Any number of lists in one memory under any proper sequence of calls: no access fails,
`DL_FOREACH` visits the members of each list in the order in which they were appended, and
`config_free` gets through exactly the lists that are empty. -/
theorem utlist_refines_lists {κ : Type} [DecidableEq κ] (calls : List (ListCall κ))
    (proper : AllSteps Rows.call Rows.Proper Rows.empty calls) :
    ∃ memory : Linked κ, calls.foldlM Linked.call Linked.empty = some memory ∧
      ∀ list, let row := (calls.foldl Rows.call Rows.empty).row list
        (∀ fuel, row.length ≤ fuel → dlForeach memory.store fuel (memory.head list) = some row) ∧
        (∀ fuel, configFree fuel memory.store (memory.head list) ≠ none ↔ row = []) := by
  obtain ⟨memory, ran, shows⟩ := calls_show empty_shows proper
  refine ⟨memory, ran, ?_⟩
  intro list row
  have chain := shows.lists.chain list
  exact ⟨fun fuel enough => dlForeach_chain chain enough, fun fuel => configFree_chain chain fuel⟩

def sampleListCalls : List (ListCall Bool) :=
  [.alloc 1, .alloc 2, .alloc 3, .append true 1, .append true 2, .append false 3, .delete true 1, .append false 1,
    .alloc 4, .free 4, .alloc 4, .append true 4]

/-- Two lists that exchange a member, and an object that is freed and handed out again. -/
theorem utlist_refines_lists_sampleListCalls :
    ∃ memory, sampleListCalls.foldlM Linked.call Linked.empty = some memory ∧
      dlForeach memory.store 2 (memory.head true) = some [2, 4] ∧
      dlForeach memory.store 2 (memory.head false) = some [3, 1] ∧
      configFree 2 memory.store (memory.head true) = none := by
  have proper : AllSteps Rows.call Rows.Proper Rows.empty sampleListCalls := by
    simp [sampleListCalls, AllSteps, Rows.Proper, Rows.call, Rows.empty, setRow]
  obtain ⟨memory, ran, lists⟩ := utlist_refines_lists sampleListCalls proper
  refine ⟨memory, ran, (lists true).1 2 (by decide), (lists false).1 2 (by decide), ?_⟩
  exact Classical.byContradiction fun passed => absurd (((lists true).2 2).mp passed) (by decide)

end Rpld
