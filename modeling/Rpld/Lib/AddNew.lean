import Mathlib.Data.List.Nodup
import Mathlib.Data.List.Perm.Subperm

/-!
Tables that only grow at the end and take one entry for each key: the first one
offered. `addNew` offers a key, `addNews` a list of keys from left to right.
-/

namespace AddNew

section

variable {α κ : Type} [DecidableEq κ] (key : α → κ) (make : κ → α)

def addNew (table : List α) (offered : κ) : List α :=
  if offered ∈ table.map key then table else table ++ [make offered]

def addNews (table : List α) (offers : List κ) : List α := offers.foldl (addNew key make) table

@[simp] theorem addNews_nil (table : List α) : addNews key make table [] = table := rfl

@[simp] theorem addNews_cons (table : List α) (offered : κ) (rest : List κ) :
    addNews key make table (offered :: rest) =
      addNews key make (addNew key make table offered) rest := rfl

variable {key make}

/-- The table after a list of offers: the old one, then each new key once, in the
order in which the keys first occur. -/
theorem addNews_eq (keyMake : ∀ offered, key (make offered) = offered) (table : List α)
    (offers : List κ) :
    addNews key make table offers =
      table ++ ((offers.filter fun offered => decide (offered ∉ table.map key)).eraseDups).map make := by
  induction offers generalizing table with
  | nil => simp
  | cons offered rest ih =>
      rw [addNews_cons, ih]
      by_cases known : offered ∈ table.map key
      · rw [List.filter_cons_of_neg (by simpa using known), addNew, if_pos known]
      · have grown : addNew key make table offered = table ++ [make offered] := by
          simp [addNew, known]
        rw [grown, List.filter_cons]
        simp only [known, not_false_eq_true, decide_true, if_true, List.eraseDups_cons, List.map_cons,
          List.append_assoc, List.singleton_append, List.map_append, keyMake, List.map_nil,
          List.mem_append, List.mem_singleton, not_or, List.filter_filter]
        congr 5
        funext candidate
        by_cases same : candidate = offered <;> simp [same]

theorem map_addNews {β : Type} {view : α → β} {otherKey : β → κ} {otherMake : κ → β}
    (keys : ∀ entry, otherKey (view entry) = key entry) (makes : ∀ offered, view (make offered) = otherMake offered)
    (table : List α) (offers : List κ) :
    (addNews key make table offers).map view = addNews otherKey otherMake (table.map view) offers := by
  induction offers generalizing table with
  | nil => rfl
  | cons offered rest ih =>
      have same : (table.map view).map otherKey = table.map key := by
        rw [List.map_map]
        exact List.map_congr_left fun entry _ => keys entry
      rw [addNews_cons, addNews_cons, ih]
      congr 1
      unfold addNew
      rw [same]
      split
      · rfl
      · simp [makes]

theorem mem_addNew {table : List α} {offered : κ} {entry : α}
    (member : entry ∈ addNew key make table offered) :
    entry ∈ table ∨ (offered ∉ table.map key ∧ entry = make offered) := by
  unfold addNew at member
  split at member
  · exact Or.inl member
  · rename_i fresh
    rcases List.mem_append.mp member with old | new
    · exact Or.inl old
    · exact Or.inr ⟨fresh, by simpa using new⟩

theorem addNew_extends (table : List α) (offered : κ) : table <+: addNew key make table offered := by
  unfold addNew
  split
  · exact List.prefix_refl _
  · exact List.prefix_append _ _

theorem addNews_extends (table : List α) (offers : List κ) :
    table <+: addNews key make table offers := by
  induction offers generalizing table with
  | nil => exact List.prefix_refl _
  | cons offered rest ih => exact (addNew_extends table offered).trans (ih _)

theorem length_addNew_le (table : List α) (offered : κ) :
    (addNew key make table offered).length ≤ table.length + 1 := by
  unfold addNew
  split
  · exact Nat.le_succ _
  · exact Nat.le_of_eq List.length_append

theorem addNew_eq_self_iff {table : List α} {offered : κ} :
    addNew key make table offered = table ↔ offered ∈ table.map key := by
  unfold addNew
  split
  · rename_i known
    exact iff_of_true rfl known
  · rename_i unknown
    exact iff_of_false (by simp) unknown

theorem addNews_of_known {table : List α} {offers : List κ} (known : ∀ offered ∈ offers, offered ∈ table.map key) :
    addNews key make table offers = table := by
  induction offers with
  | nil => rfl
  | cons offered rest ih =>
      rw [addNews_cons, addNew, if_pos (known offered (by simp))]
      exact ih fun later member => known later (by simp [member])

theorem nodup_concat {α : Type} {table : List α} {entry : α} (distinct : table.Nodup) (new : entry ∉ table) :
    (table ++ [entry]).Nodup := by
  rw [List.nodup_append]
  refine ⟨distinct, by simp, ?_⟩
  intro old member other same
  rw [List.mem_singleton] at same
  rw [same]
  exact fun equal => new (equal ▸ member)

theorem addNews_nodup (keyMake : ∀ offered, key (make offered) = offered) {table : List α}
    (distinct : (table.map key).Nodup) (offers : List κ) : ((addNews key make table offers).map key).Nodup := by
  induction offers generalizing table with
  | nil => exact distinct
  | cons offered rest ih =>
      refine ih ?_
      unfold addNew
      split
      · exact distinct
      · rename_i fresh
        rw [List.map_append, List.map_singleton, keyMake]
        exact nodup_concat distinct fresh

theorem mem_addNews {table : List α} {offers : List κ} {entry : α}
    (member : entry ∈ addNews key make table offers) :
    entry ∈ table ∨ ∃ offered ∈ offers, offered ∉ table.map key ∧ entry = make offered := by
  induction offers generalizing table with
  | nil => exact Or.inl member
  | cons offered rest ih =>
      rcases ih member with old | ⟨later, laterMember, fresh, made⟩
      · rcases mem_addNew old with old | ⟨fresh, made⟩
        · exact Or.inl old
        · exact Or.inr ⟨offered, by simp, fresh, made⟩
      · refine Or.inr ⟨later, by simp [laterMember], ?_, made⟩
        intro known
        exact fresh ((addNew_extends table offered).map key |>.subset known)

theorem offered_mem_addNews (keyMake : ∀ offered, key (make offered) = offered) {table : List α}
    {offers : List κ} {offered : κ} (member : offered ∈ offers) :
    offered ∈ (addNews key make table offers).map key := by
  induction offers generalizing table with
  | nil => simp at member
  | cons first rest ih =>
      rcases List.mem_cons.mp member with same | later
      · have present : offered ∈ (addNew key make table first).map key := by
          subst same
          unfold addNew
          split
          · assumption
          · simp [keyMake]
        exact ((addNews_extends (addNew key make table first) rest).map key).subset present
      · exact ih later

theorem find?_addNew (keyMake : ∀ offered, key (make offered) = offered) (table : List α) (offered wanted : κ) :
    (addNew key make table offered).find? (fun entry => key entry == wanted) =
      (table.find? fun entry => key entry == wanted).or (if wanted = offered then some (make offered) else none) := by
  unfold addNew
  split
  · rename_i known
    cases found : table.find? fun entry => key entry == wanted with
    | some entry => rfl
    | none =>
        have different : wanted ≠ offered := by
          rintro rfl
          obtain ⟨entry, member, same⟩ := List.mem_map.mp known
          have missed := List.find?_eq_none.mp found entry member
          simp [same] at missed
        simp [different]
  · by_cases same : wanted = offered
    · simp [List.find?_append, keyMake, same]
    · have apart : (offered == wanted) = false := by simpa using Ne.symm same
      simp [List.find?_append, keyMake, same, apart]

/-- The entry of a key after a list of offers: the one it had, or else the one the first
offer of the key made. -/
theorem find?_addNews (keyMake : ∀ offered, key (make offered) = offered) (table : List α) (offers : List κ)
    (wanted : κ) :
    (addNews key make table offers).find? (fun entry => key entry == wanted) =
      (table.find? fun entry => key entry == wanted).or (if wanted ∈ offers then some (make wanted) else none) := by
  induction offers generalizing table with
  | nil => simp
  | cons offered rest ih =>
      rw [addNews_cons, ih, find?_addNew keyMake, Option.or_assoc]
      congr 1
      by_cases same : wanted = offered
      · simp [same]
      · simp [same]

end

/-- Of more keys than a table has entries, one is new to it. -/
theorem exists_fresh {κ : Type} {offer : Nat → κ} {count : Nat} {known : List κ} (few : known.length < count)
    (distinct : ∀ first < count, ∀ second < count, offer first = offer second → first = second) :
    ∃ number < count, offer number ∉ known := by
  apply Classical.byContradiction
  intro none
  have all : (List.range count).map offer ⊆ known := by
    intro key member
    obtain ⟨number, below, rfl⟩ := List.mem_map.mp member
    exact Classical.byContradiction fun fresh => none ⟨number, List.mem_range.mp below, fresh⟩
  have nodup : ((List.range count).map offer).Nodup := by
    refine List.Nodup.map_on ?_ List.nodup_range
    intro first firstBelow second secondBelow
    exact distinct first (List.mem_range.mp firstBelow) second (List.mem_range.mp secondBelow)
  have fits := (nodup.subperm all).length_le
  rw [List.length_map, List.length_range] at fits
  omega

end AddNew
