/-!
Tables searched by first match. `updateFirst` rewrites the entry that `List.find?`
would return, which is what writing through a pointer found by a list walk does.
-/

namespace FirstMatch

def updateFirst {α : Type} (accept : α → Bool) (change : α → α) : List α → List α
  | [] => []
  | entry :: rest =>
      if accept entry then change entry :: rest else entry :: updateFirst accept change rest

section

variable {α : Type} {accept : α → Bool} {change : α → α}

theorem find?_updateFirst (keeps : ∀ entry, accept entry = true → accept (change entry) = true)
    (table : List α) :
    (updateFirst accept change table).find? accept = (table.find? accept).map change := by
  induction table with
  | nil => rfl
  | cons entry rest ih =>
      by_cases found : accept entry = true
      · simp [updateFirst, found, keeps entry found]
      · simp [updateFirst, found, ih]

theorem find?_updateFirst_of_disjoint {other : α → Bool}
    (disjoint : ∀ entry, accept entry = true → other entry = false ∧ other (change entry) = false)
    (table : List α) :
    (updateFirst accept change table).find? other = table.find? other := by
  induction table with
  | nil => rfl
  | cons entry rest ih =>
      by_cases found : accept entry = true
      · simp [updateFirst, found, disjoint entry found]
      · simp [updateFirst, found, List.find?_cons, ih]

theorem mem_updateFirst {entry : α} {table : List α}
    (member : entry ∈ updateFirst accept change table) :
    entry ∈ table ∨ ∃ old ∈ table, table.find? accept = some old ∧ entry = change old := by
  induction table with
  | nil => simp [updateFirst] at member
  | cons first rest ih =>
      by_cases found : accept first = true
      · simp only [updateFirst, found, if_true, List.mem_cons] at member
        rcases member with same | later
        · exact Or.inr ⟨first, by simp, by simp [found], same⟩
        · exact Or.inl (by simp [later])
      · simp only [updateFirst, found, Bool.false_eq_true, if_false, List.mem_cons] at member
        rcases member with same | later
        · exact Or.inl (by simp [same])
        · rcases ih later with old | ⟨old, oldMember, oldFound, equal⟩
          · exact Or.inl (by simp [old])
          · exact Or.inr ⟨old, by simp [oldMember], by simp [found, oldFound], equal⟩

theorem updateFirst_of_find?_eq_none {table : List α} (missing : table.find? accept = none) :
    updateFirst accept change table = table := by
  induction table with
  | nil => rfl
  | cons entry rest ih =>
      simp only [List.find?_cons] at missing
      split at missing
      · simp at missing
      · rename_i rejected
        simp [updateFirst, rejected, ih missing]

/-- The entry that is found splits the table, and an update changes it alone. -/
theorem updateFirst_of_find? {table : List α} {entry : α} (found : table.find? accept = some entry) :
    ∃ before after, table = before ++ entry :: after ∧
      ∀ next, updateFirst accept next table = before ++ next entry :: after := by
  induction table with
  | nil => simp at found
  | cons first rest ih =>
      simp only [List.find?_cons] at found
      split at found
      · rename_i accepted
        simp only [Option.some.injEq] at found
        subst found
        exact ⟨[], rest, rfl, fun next => by simp [updateFirst, accepted]⟩
      · rename_i rejected
        obtain ⟨before, after, split, updated⟩ := ih found
        exact ⟨first :: before, after, by rw [split, List.cons_append],
          fun next => by simp [updateFirst, rejected, updated]⟩

theorem updateFirst_congr {next : α → α} {table : List α} {entry : α}
    (found : table.find? accept = some entry) (agree : change entry = next entry) :
    updateFirst accept change table = updateFirst accept next table := by
  obtain ⟨before, after, _, updated⟩ := updateFirst_of_find? found
  rw [updated, updated, agree]

theorem updateFirst_of_fixed {table : List α} {entry : α} (found : table.find? accept = some entry)
    (fixed : change entry = entry) : updateFirst accept change table = table := by
  obtain ⟨before, after, split, updated⟩ := updateFirst_of_find? found
  rw [updated, fixed, ← split]

theorem updateFirst_append {table : List α} {entry : α} (missing : table.find? accept = none)
    (accepted : accept entry = true) :
    updateFirst accept change (table ++ [entry]) = table ++ [change entry] := by
  induction table with
  | nil => simp [updateFirst, accepted]
  | cons first rest ih =>
      simp only [List.find?_cons] at missing
      split at missing
      · simp at missing
      · rename_i rejected
        simp [updateFirst, rejected, ih missing]

theorem updateFirst_updateFirst (keeps : ∀ entry, accept entry = true → accept (change entry) = true)
    (next : α → α) (table : List α) :
    updateFirst accept next (updateFirst accept change table) =
      updateFirst accept (fun entry => next (change entry)) table := by
  induction table with
  | nil => rfl
  | cons entry rest ih =>
      by_cases found : accept entry = true
      · simp [updateFirst, found, keeps entry found]
      · simp [updateFirst, found, ih]

theorem map_updateFirst_iff {β : Type} {view : α → β} {table : List α} {entry : α}
    (found : table.find? accept = some entry) :
    (updateFirst accept change table).map view = table.map view ↔ view (change entry) = view entry := by
  obtain ⟨before, after, split, updated⟩ := updateFirst_of_find? found
  rw [updated, split]
  simp

theorem map_updateFirst {β : Type} {view : α → β} {table : List α} {entry : α}
    (found : table.find? accept = some entry) (same : view (change entry) = view entry) :
    (updateFirst accept change table).map view = table.map view :=
  (map_updateFirst_iff found).mpr same

theorem find?_updateFirst_other {other : α → Bool} {table : List α}
    (keeps : ∀ entry, table.find? accept = some entry → other (change entry) = other entry) {entry : α}
    (found : table.find? other = some entry) :
    (updateFirst accept change table).find? other = some entry ∨
      table.find? accept = some entry ∧
        (updateFirst accept change table).find? other = some (change entry) := by
  induction table with
  | nil => simp at found
  | cons first rest ih =>
      by_cases accepted : accept first = true
      · have same := keeps first (by simp [accepted])
        by_cases sought : other first = true
        · simp only [List.find?_cons, sought, Option.some.injEq] at found
          subst found
          exact Or.inr ⟨by simp [accepted], by simp [updateFirst, accepted, same, sought]⟩
        · simp only [List.find?_cons, sought] at found
          exact Or.inl (by simp [updateFirst, accepted, same, sought, found])
      · by_cases sought : other first = true
        · simp only [List.find?_cons, sought, Option.some.injEq] at found
          subst found
          exact Or.inl (by simp [updateFirst, accepted, sought])
        · simp only [List.find?_cons, sought] at found
          have later := ih (fun other otherFound => keeps other (by simp [accepted, otherFound])) found
          simpa [updateFirst, accepted, sought] using later

theorem filter_updateFirst (keeps : ∀ entry, accept entry = true → accept (change entry) = true)
    {table : List α} {first : α} {others : List α}
    (matching : table.filter accept = first :: others) :
    (updateFirst accept change table).filter accept = change first :: others := by
  induction table with
  | nil => simp at matching
  | cons entry rest ih =>
      by_cases found : accept entry = true
      · simp only [List.filter_cons, found, if_true, List.cons.injEq] at matching
        simp [updateFirst, found, keeps entry found, ← matching.1, matching.2]
      · simp only [List.filter_cons, found, Bool.false_eq_true, if_false] at matching
        simp [updateFirst, found, ih matching]

theorem find?_of_nodup {κ : Type} [BEq κ] [LawfulBEq κ] {key : α → κ} {table : List α}
    (distinct : (table.map key).Nodup) {entry : α} (member : entry ∈ table) :
    table.find? (fun other => key other == key entry) = some entry := by
  induction table with
  | nil => simp at member
  | cons first rest ih =>
      rw [List.map_cons, List.nodup_cons] at distinct
      rcases List.mem_cons.mp member with same | later
      · subst same
        simp
      · have different : (key first == key entry) = false := by
          rw [beq_eq_false_iff_ne]
          intro same
          exact distinct.1 (same ▸ List.mem_map_of_mem later)
        rw [List.find?_cons, different]
        exact ih distinct.2 later

theorem find?_map_append (same : ∀ entry, accept (change entry) = accept entry) (front back : List α) :
    (front.map change ++ back).find? accept = (front ++ back).find? accept ∨
      ∃ entry ∈ front, (front ++ back).find? accept = some entry ∧
        (front.map change ++ back).find? accept = some (change entry) := by
  have composed : accept ∘ change = accept := by
    funext entry
    exact same entry
  rw [List.find?_append, List.find?_append, List.find?_map, composed]
  cases found : front.find? accept with
  | none => exact Or.inl rfl
  | some entry => exact Or.inr ⟨entry, List.mem_of_find?_eq_some found, rfl, rfl⟩

theorem filter_of_nodup {κ : Type} [BEq κ] [LawfulBEq κ] {key : α → κ} {table : List α}
    (distinct : (table.map key).Nodup) (sought : κ) :
    table.filter (fun entry => key entry == sought) = (table.find? fun entry => key entry == sought).toList := by
  induction table with
  | nil => rfl
  | cons first rest ih =>
      rw [List.map_cons, List.nodup_cons] at distinct
      by_cases found : key first = sought
      · have others : rest.filter (fun entry => key entry == sought) = [] := by
          rw [List.filter_eq_nil_iff]
          intro entry member same
          rw [beq_iff_eq] at same
          exact distinct.1 (found.trans same.symm ▸ List.mem_map_of_mem member)
        simp [found, others]
      · simp [found, ih distinct.2]

theorem find?_updateFirst_nodup {κ : Type} [BEq κ] [LawfulBEq κ] {key : α → κ} {table : List α}
    (distinct : (table.map key).Nodup) {entry : α} (found : table.find? accept = some entry)
    (same : key (change entry) = key entry) (sought : κ) :
    (updateFirst accept change table).find? (fun other => key other == sought) =
      if key entry == sought then some (change entry) else table.find? (fun other => key other == sought) := by
  induction table with
  | nil => simp at found
  | cons first rest ih =>
      rw [List.map_cons, List.nodup_cons] at distinct
      by_cases accepted : accept first = true
      · simp only [List.find?_cons, accepted, Option.some.injEq] at found
        subst found
        by_cases here : key first = sought
        · simp [updateFirst, accepted, same, here]
        · simp [updateFirst, accepted, same, here]
      · simp only [List.find?_cons, accepted] at found
        have later := ih distinct.2 found
        by_cases here : key first = sought
        · have apart : key entry ≠ sought := by
            intro equal
            exact distinct.1 (here.trans equal.symm ▸ List.mem_map_of_mem (List.mem_of_find?_eq_some found))
          simp [updateFirst, accepted, here, apart]
        · simp [updateFirst, accepted, here, later]

end

end FirstMatch
