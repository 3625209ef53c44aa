/-!
Memory as a total function from offsets, and the finite windows read from it. What a
program reads past the data it was given is some value, not a failure.
-/

namespace Memory

def slice {α : Type} (memory : Nat → α) (offset count : Nat) : List α :=
  (List.range count).map fun index => memory (offset + index)

section

variable {α : Type} (memory : Nat → α)

@[simp] theorem slice_length (offset count : Nat) : (slice memory offset count).length = count := by
  simp [slice]

theorem slice_drop_take (offset count start size : Nat) (bound : start + size ≤ count) :
    ((slice memory offset count).drop start).take size = slice memory (offset + start) size := by
  apply List.ext_getElem
  · simp only [List.length_take, List.length_drop, slice_length]
    omega
  · intro index _ _
    simp [slice, Nat.add_assoc]

theorem slice_append (offset first second : Nat) :
    slice memory offset (first + second) =
      slice memory offset first ++ slice memory (offset + first) second := by
  simp [slice, List.range_add, Function.comp_def, Nat.add_assoc]

theorem slice_eq_append {offset count : Nat} {front back : List α}
    (whole : slice memory offset count = front ++ back) :
    slice memory offset front.length = front ∧
      slice memory (offset + front.length) back.length = back := by
  have size : count = front.length + back.length := by
    have lengths := congrArg List.length whole
    simpa using lengths
  rw [size, slice_append] at whole
  exact List.append_inj whole (by simp)

theorem slice_eq_cons {offset count : Nat} {first : α} {rest : List α}
    (whole : slice memory offset count = first :: rest) :
    memory offset = first ∧ slice memory (offset + 1) rest.length = rest := by
  have parts := slice_eq_append memory (show slice memory offset count = [first] ++ rest from whole)
  refine ⟨?_, parts.2⟩
  simpa [slice] using parts.1

end

/-- The memory at which a message lies, followed by whatever was there before. -/
def overlay {α : Type} (bytes : List α) (rest : Nat → α) (index : Nat) : α :=
  bytes.getD index (rest index)

theorem slice_overlay {α : Type} (bytes : List α) (rest : Nat → α) :
    slice (overlay bytes rest) 0 bytes.length = bytes := by
  apply List.ext_getElem
  · simp
  · intro index _ bound
    simp [slice, overlay, bound]

end Memory
