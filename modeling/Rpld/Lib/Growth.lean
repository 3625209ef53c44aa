import Rpld.Lib.FirstMatch

/-!
Tables that change in place and grow at the end. `Grows keeps fresh` relates a table to a
later one: every old entry is still at its position, changed only as `keeps` allows, and
what follows the old entries is `fresh`.
-/

namespace Growth

open FirstMatch

inductive Grows {α : Type} (keeps : α → α → Prop) (fresh : α → Prop) : List α → List α → Prop
  | added {more : List α} (new : ∀ entry ∈ more, fresh entry) : Grows keeps fresh [] more
  | kept {entry later : α} {before after : List α} (same : keeps entry later)
      (rest : Grows keeps fresh before after) : Grows keeps fresh (entry :: before) (later :: after)

section

variable {α : Type} {keeps : α → α → Prop} {fresh : α → Prop} (refl : ∀ entry, keeps entry entry)
include refl

theorem grows_refl (table : List α) : Grows keeps fresh table table := by
  induction table with
  | nil => exact .added (by simp)
  | cons entry rest ih => exact .kept (refl entry) ih

theorem grows_append (table : List α) {entry : α} (new : fresh entry) :
    Grows keeps fresh table (table ++ [entry]) := by
  induction table with
  | nil => exact .added (by simpa using new)
  | cons first rest ih => exact .kept (refl first) ih

theorem grows_updateFirst {accept : α → Bool} {change : α → α} {table : List α}
    (changed : ∀ entry, table.find? accept = some entry → keeps entry (change entry)) :
    Grows keeps fresh table (updateFirst accept change table) := by
  induction table with
  | nil => exact .added (by simp [updateFirst])
  | cons entry rest ih =>
      by_cases found : accept entry = true
      · rw [updateFirst, if_pos found]
        exact .kept (changed entry (by simp [found])) (grows_refl refl rest)
      · rw [updateFirst, if_neg found]
        refine .kept (refl entry) (ih ?_)
        intro later laterFound
        exact changed later (by simp [found, laterFound])

end

section

variable {α : Type} {keeps : α → α → Prop} {fresh : α → Prop}

theorem grows_forall {good : α → Prop} (old : ∀ entry later, keeps entry later → good entry → good later)
    (new : ∀ entry, fresh entry → good entry) {before after : List α} (grows : Grows keeps fresh before after)
    (all : ∀ entry ∈ before, good entry) : ∀ entry ∈ after, good entry := by
  induction grows with
  | added added => exact fun entry member => new entry (added entry member)
  | kept same _ ih =>
      rw [List.forall_mem_cons] at all ⊢
      exact ⟨old _ _ same all.1, ih all.2⟩

end

end Growth
