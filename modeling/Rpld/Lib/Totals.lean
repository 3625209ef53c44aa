import Rpld.Lib.FirstMatch

/-!
Totals over a table, and measures that a machine only raises, by what each input may cost.
-/

namespace Totals

open FirstMatch

def total {α : Type} (size : α → Nat) : List α → Nat
  | [] => 0
  | entry :: rest => size entry + total size rest

section

variable {α : Type} {size : α → Nat}

@[simp] theorem total_append (front back : List α) : total size (front ++ back) = total size front + total size back := by
  induction front with
  | nil => simp [total]
  | cons entry rest ih =>
      simp only [List.cons_append, total, ih]
      omega

theorem length_le_total (least : ∀ entry, 1 ≤ size entry) (table : List α) : table.length ≤ total size table := by
  induction table with
  | nil => exact Nat.le_refl 0
  | cons entry rest ih =>
      have here := least entry
      rw [List.length_cons, total]
      omega

theorem le_total_of_mem {table : List α} {entry : α} (member : entry ∈ table) : size entry ≤ total size table := by
  induction table with
  | nil => simp at member
  | cons first rest ih =>
      rw [total]
      rcases List.mem_cons.mp member with rfl | later
      · omega
      · have inside := ih later
        omega

/-- An update moves the total by what it does to the entry that is found. -/
theorem total_updateFirst {accept : α → Bool} {change : α → α} {table : List α} {entry : α}
    (found : table.find? accept = some entry) :
    total size (updateFirst accept change table) + size entry = total size table + size (change entry) := by
  obtain ⟨before, after, split, updated⟩ := updateFirst_of_find? found
  rw [updated, split]
  simp only [total_append, total]
  omega

end

section

variable {σ ε : Type} {step : σ → ε → σ} {size : σ → Nat} {cost : ε → Nat}
  (each : ∀ state event, size state ≤ size (step state event) ∧ size (step state event) ≤ size state + cost event)
include each

/-- From one step to all: nothing is given back, and every input adds at most what it costs. -/
theorem foldl_grows (events : List ε) (state : σ) :
    size state ≤ size (events.foldl step state) ∧
      size (events.foldl step state) ≤ size state + total cost events := by
  induction events generalizing state with
  | nil => exact ⟨Nat.le_refl _, Nat.le_refl _⟩
  | cons event rest ih =>
      have first := each state event
      have others := ih (step state event)
      rw [List.foldl_cons, total]
      omega

/-- Where a step's work is bounded by the size it leaves, that of a run is by the number of its
steps times the most that the size can come to. -/
theorem foldl_work {work : σ → Nat} {extra : Nat}
    (makes : ∀ state event, work (step state event) ≤ work state + (size (step state event) + extra))
    (events : List ε) (state : σ) :
    work (events.foldl step state) ≤ work state + events.length * (size state + total cost events + extra) := by
  induction events generalizing state with
  | nil => exact Nat.le_add_right _ _
  | cons event rest ih =>
      have first := makes state event
      have grown := (each state event).2
      have others := ih (step state event)
      have later : rest.length * (size (step state event) + total cost rest + extra) ≤
          rest.length * (size state + total cost (event :: rest) + extra) := by
        apply Nat.mul_le_mul_left
        rw [total]
        omega
      rw [List.foldl_cons, List.length_cons, Nat.succ_mul]
      rw [total] at later ⊢
      omega

end

end Totals
