import Mathlib

/-!
Bits of 32-bit registers that are selected by masks.
-/

namespace ShGateway.Lib.RegisterBits

theorem or_and (x y m : UInt32) : (x ||| y) &&& m = x &&& m ||| y &&& m :=
  UInt32.eq_of_toBitVec_eq BitVec.and_or_distrib_right

theorem and_eq_zero_of_disjoint {x m n : UInt32} (hx : x &&& m = x) (hmn : m &&& n = 0) :
    x &&& n = 0 := by
  rw [← hx, UInt32.and_assoc, hmn, UInt32.and_zero]

/-- Bits that are set outside of a mask do not matter in it. -/
theorem or_and_of_disjoint (x : UInt32) {y m : UInt32} (h : y &&& m = 0) :
    (x ||| y) &&& m = x &&& m := by
  rw [or_and, h, UInt32.or_zero]

theorem and_bit (x : UInt32) {m : UInt32} {i : Nat} (hm : m.toNat = 2 ^ i) :
    x &&& m = 0 ∨ x &&& m = m := by
  have hand : (x &&& m).toNat = (x.toNat.testBit i).toNat * 2 ^ i := by
    rw [UInt32.toNat_and, hm, Nat.and_two_pow]
  cases hbit : x.toNat.testBit i with
  | false =>
      rw [hbit, Bool.toNat_false, Nat.zero_mul] at hand
      exact .inl (UInt32.toNat_inj.mp hand)
  | true =>
      rw [hbit, Bool.toNat_true, Nat.one_mul, ← hm] at hand
      exact .inr (UInt32.toNat_inj.mp hand)

/-- Setting a bit gives what is wanted unless it has to be cleared. -/
theorem or_eq_iff (x : UInt32) {y m : UInt32} {i : Nat} (hm : m.toNat = 2 ^ i)
    (hy : y = 0 ∨ y = m) : x &&& m ||| y = y ↔ (x &&& m ≠ 0 → y = m) := by
  have hne : m ≠ 0 := by
    rintro rfl
    exact absurd hm.symm (Nat.two_pow_pos i).ne'
  rcases and_bit x hm with hx | hx
  · rw [hx, UInt32.zero_or]
    exact iff_of_true rfl fun h => absurd rfl h
  · rw [hx]
    rcases hy with rfl | rfl
    · rw [UInt32.or_zero]
      exact iff_of_false hne fun h => hne (h hne).symm
    · exact iff_of_true (UInt32.or_self ..) fun _ => rfl

end ShGateway.Lib.RegisterBits
