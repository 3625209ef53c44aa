import Mathlib.Data.List.Basic

/-!
Byte strings in the order that `memcmp` gives them, which for strings of one length is that of
the numbers they are in network order.
-/

namespace ByteOrder

def memcmp : List UInt8 → List UInt8 → Int
  | a :: as, b :: bs => if a = b then memcmp as bs else (a.toNat : Int) - b.toNat
  | _, _ => 0

/-- The number that the bytes are in network order, with `value` for those before them. -/
def bigEndian (value : Nat) : List UInt8 → Nat
  | [] => value
  | byte :: rest => bigEndian (256 * value + byte.toNat) rest

theorem bigEndian_lt {first second : List UInt8} (same : first.length = second.length) {low high : Nat}
    (less : low < high) : bigEndian low first < bigEndian high second := by
  induction first generalizing second low high with
  | nil =>
      rw [List.eq_nil_of_length_eq_zero same.symm]
      exact less
  | cons byte rest ih =>
      obtain ⟨other, others, rfl⟩ := List.exists_cons_of_length_eq_add_one same.symm
      rw [List.length_cons, List.length_cons, Nat.add_right_cancel_iff] at same
      have bound := byte.toNat_lt
      exact ih same (by omega)

theorem memcmp_le_iff {first second : List UInt8} (same : first.length = second.length) (value : Nat) :
    memcmp first second ≤ 0 ↔ bigEndian value first ≤ bigEndian value second := by
  induction first generalizing second value with
  | nil =>
      rw [List.eq_nil_of_length_eq_zero same.symm]
      simp [memcmp]
  | cons byte rest ih =>
      obtain ⟨other, others, rfl⟩ := List.exists_cons_of_length_eq_add_one same.symm
      rw [List.length_cons, List.length_cons, Nat.add_right_cancel_iff] at same
      rw [memcmp, bigEndian, bigEndian]
      split
      · rename_i equal
        rw [equal]
        exact ih same _
      · rename_i different
        have apart : byte.toNat ≠ other.toNat := fun equal => different (UInt8.toNat_inj.mp equal)
        rcases Nat.lt_or_gt_of_ne apart with less | more
        · have order := @bigEndian_lt _ _ same (256 * value + byte.toNat) (256 * value + other.toNat) (by omega)
          omega
        · have order := @bigEndian_lt _ _ same.symm (256 * value + other.toNat) (256 * value + byte.toNat) (by omega)
          omega

theorem bigEndian_inj {first second : List UInt8} (same : first.length = second.length) {value : Nat}
    (equal : bigEndian value first = bigEndian value second) : first = second := by
  induction first generalizing second value with
  | nil => exact (List.eq_nil_of_length_eq_zero same.symm).symm
  | cons byte rest ih =>
      obtain ⟨other, others, rfl⟩ := List.exists_cons_of_length_eq_add_one same.symm
      rw [List.length_cons, List.length_cons, Nat.add_right_cancel_iff] at same
      rw [bigEndian, bigEndian] at equal
      have heads : byte = other := by
        rcases Nat.lt_trichotomy byte.toNat other.toNat with less | alike | more
        · exact absurd equal (Nat.ne_of_lt (bigEndian_lt same (by omega)))
        · exact UInt8.toNat_inj.mp alike
        · exact absurd equal.symm (Nat.ne_of_lt (bigEndian_lt same.symm (by omega)))
      subst heads
      rw [ih same equal]

end ByteOrder
