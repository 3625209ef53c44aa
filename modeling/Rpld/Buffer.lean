import Rpld.BufferCore

/-!
The send buffer holds exactly what was appended to it, in whole blocks of memory and
never more than 64 KiB. Appending ends the process exactly when the contents would
pass that limit.
-/

namespace Rpld

theorem or_blockMask (n : Nat) : n ||| (blocksize - 1) = n / 64 * 64 + 63 := by
  have low : ∀ rest < 64, rest ||| 63 = 63 := by decide
  have split : n = 2 ^ 6 * (n / 64) ||| n % 64 := by
    rw [← Nat.two_pow_add_eq_or_of_lt (Nat.mod_lt n (by decide))]
    omega
  have block : blocksize - 1 = 63 := rfl
  calc n ||| (blocksize - 1) = 2 ^ 6 * (n / 64) ||| (n % 64 ||| 63) := by
        rw [block, ← Nat.or_assoc, ← split]
    _ = 2 ^ 6 * (n / 64) ||| 63 := by rw [low _ (Nat.mod_lt n (by decide))]
    _ = n / 64 * 64 + 63 := by
        rw [← Nat.two_pow_add_eq_or_of_lt (by decide)]
        omega

theorem roundToBlock_eq (n : Nat) : roundToBlock n = (n + 63) / 64 * 64 := by
  have block : blocksize = 64 := rfl
  unfold roundToBlock
  rw [or_blockMask, block]
  split <;> omega

/-- `sb` is a well-formed buffer with contents `bytes`. -/
structure SafeBuffer.Holds (sb : SafeBuffer) (bytes : List UInt8) : Prop where
  contents : sb.contents = bytes
  used : sb.used = bytes.length
  storage : sb.buffer.length = sb.allocated
  fits : sb.used ≤ sb.allocated
  limit : sb.allocated ≤ safeBufferLimit
  blocks : blocksize ∣ sb.allocated

theorem safeBufferNew_holds (heap : Nat → UInt8) : (safeBufferNew heap).Holds [] :=
  ⟨rfl, rfl, rfl, Nat.le_refl _, Nat.zero_le _, ⟨0, rfl⟩⟩

theorem safeBufferResize_cases {sb : SafeBuffer} {bytes : List UInt8} (holds : sb.Holds bytes)
    (n : Nat) :
    (safeBufferLimit < n ∧ safeBufferResize sb n = .error .exit) ∨
      (n ≤ safeBufferLimit ∧ ∃ grown, safeBufferResize sb n = .ok grown ∧ grown.Holds bytes ∧
        n ≤ grown.allocated) := by
  have limit := holds.limit
  have fits := holds.fits
  have storage := holds.storage
  simp only [safeBufferLimit] at limit
  unfold safeBufferResize
  by_cases room : sb.allocated < n
  · by_cases large : safeBufferLimit < n
    · left
      have above : roundToBlock n > safeBufferLimit := by
        rw [roundToBlock_eq]
        simp only [safeBufferLimit] at large ⊢
        omega
      simp [room, above, large]
    · right
      have within : ¬ roundToBlock n > safeBufferLimit := by
        rw [roundToBlock_eq]
        simp only [safeBufferLimit] at large ⊢
        omega
      refine ⟨by omega, sb.realloc (roundToBlock n), by simp [room, within], ?_, ?_⟩
      · refine ⟨?_, holds.used, ?_, ?_, Nat.le_of_not_gt within, ?_⟩
        · have kept : sb.used ≤ sb.buffer.length := by omega
          have contents := holds.contents
          simp only [SafeBuffer.contents] at contents
          simp [SafeBuffer.contents, SafeBuffer.realloc, List.take_append_of_le_length kept, contents]
        · have grows : sb.allocated ≤ roundToBlock n := by rw [roundToBlock_eq]; omega
          simp only [SafeBuffer.realloc, List.length_append, List.length_map, List.length_range',
            storage]
          omega
        · simp only [SafeBuffer.realloc, roundToBlock_eq]
          omega
        · exact ⟨(n + 63) / 64, by
            simp only [SafeBuffer.realloc, roundToBlock_eq, blocksize]; omega⟩
      · simp only [SafeBuffer.realloc, roundToBlock_eq]
        omega
  · right
    simp only [safeBufferLimit]
    exact ⟨by omega, sb, by simp [room], holds, by omega⟩

theorem SafeBuffer.Holds.write {sb : SafeBuffer} {bytes : List UInt8} (holds : sb.Holds bytes)
    (more : List UInt8) (room : sb.used + more.length ≤ sb.allocated) :
    (sb.write more).Holds (bytes ++ more) := by
  have storage := holds.storage
  have contents := holds.contents
  simp only [SafeBuffer.contents] at contents
  have front : (sb.buffer.take sb.used).length = sb.used := by
    rw [List.length_take]
    omega
  refine ⟨?_, ?_, ?_, room, holds.limit, holds.blocks⟩
  · have whole : sb.used + more.length = (sb.buffer.take sb.used ++ more).length := by
      rw [List.length_append, front]
    simp only [SafeBuffer.contents, SafeBuffer.write]
    rw [whole, List.take_left, contents]
  · simp [SafeBuffer.write, holds.used]
  · simp only [SafeBuffer.write, List.length_append, front, List.length_drop, storage]
    omega

/-- Room is made for `more`, then `more` is written behind the contents. -/
theorem safeBufferResize_write_cases {sb : SafeBuffer} {bytes : List UInt8} (holds : sb.Holds bytes)
    (more : List UInt8) :
    (safeBufferLimit < bytes.length + more.length ∧
        (safeBufferResize sb (sb.used + more.length) >>= fun grown => pure (grown.write more)) = .error .exit) ∨
      (bytes.length + more.length ≤ safeBufferLimit ∧ ∃ next,
        (safeBufferResize sb (sb.used + more.length) >>= fun grown => pure (grown.write more)) = .ok next ∧
        next.Holds (bytes ++ more)) := by
  rcases safeBufferResize_cases holds (sb.used + more.length) with ⟨large, exits⟩ | ⟨small, grown, grows, kept, room⟩
  · left
    rw [holds.used] at large
    refine ⟨large, ?_⟩
    rw [exits]
    rfl
  · right
    have same : grown.used = sb.used := by rw [kept.used, holds.used]
    rw [holds.used] at small
    refine ⟨small, grown.write more, ?_, kept.write more (by rw [same]; exact room)⟩
    rw [grows]
    rfl

theorem safeBufferPad_cases {sb : SafeBuffer} {bytes : List UInt8} (holds : sb.Holds bytes) (count : Nat) :
    (safeBufferLimit < bytes.length + count ∧ safeBufferPad sb count = .error .exit) ∨
      (bytes.length + count ≤ safeBufferLimit ∧ ∃ next, safeBufferPad sb count = .ok next ∧
        next.Holds (bytes ++ List.replicate count 0)) := by
  have cases := safeBufferResize_write_cases holds (List.replicate count 0)
  rw [List.length_replicate] at cases
  exact cases

theorem safeBufferAppend_cases {sb : SafeBuffer} {bytes : List UInt8} (holds : sb.Holds bytes)
    (object : List UInt8) (count : Nat) (inside : count ≤ object.length) :
    (safeBufferLimit < bytes.length + count ∧ safeBufferAppend sb object count = .error .exit) ∨
      (bytes.length + count ≤ safeBufferLimit ∧ ∃ next, safeBufferAppend sb object count = .ok next ∧
        next.Holds (bytes ++ object.take count)) := by
  have notOver : ¬ object.length < count := by omega
  have written : (object.take count).length = count := List.length_take_of_le inside
  have cases := safeBufferResize_write_cases holds (object.take count)
  rw [written] at cases
  unfold safeBufferAppend
  simp only [notOver, if_false]
  exact cases

theorem safeBufferAppend_ok {sb : SafeBuffer} {bytes : List UInt8} (holds : sb.Holds bytes)
    (object : List UInt8) (count : Nat) (inside : count ≤ object.length)
    (small : bytes.length + count ≤ safeBufferLimit) :
    ∃ next, safeBufferAppend sb object count = .ok next ∧
      next.Holds (bytes ++ object.take count) := by
  rcases safeBufferAppend_cases holds object count inside with ⟨large, _⟩ | ⟨_, appended⟩
  · omega
  · exact appended

theorem safeBufferAppend_overrun {sb : SafeBuffer} {bytes : List UInt8} (holds : sb.Holds bytes)
    (object : List UInt8) (count : Nat) (outside : object.length < count)
    (small : bytes.length + count ≤ safeBufferLimit) :
    safeBufferAppend sb object count = .error .overrun := by
  rcases safeBufferResize_cases holds (sb.used + count) with ⟨large, _⟩ | ⟨_, grown, grows, _, _⟩
  · rw [holds.used] at large
    omega
  · simp [safeBufferAppend, grows, outside, Bind.bind, Except.bind, throw, throwThe,
      MonadExceptOf.throw]

end Rpld
