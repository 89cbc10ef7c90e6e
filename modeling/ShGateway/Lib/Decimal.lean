import Mathlib

/-!
Unsigned decimal numbers in ASCII.
-/

namespace ShGateway.Lib.Decimal

def IsDigit (b : UInt8) : Prop := 48 ≤ b ∧ b ≤ 57

instance (b : UInt8) : Decidable (IsDigit b) := inferInstanceAs (Decidable (_ ∧ _))

def digitValue (b : UInt8) : Nat := b.toNat - 48

/-- The number that a string of digits denotes. -/
def decimalValue (s : List UInt8) : Nat := s.foldl (fun n b => 10 * n + digitValue b) 0

def Digits (s : List UInt8) : Prop := ∀ b ∈ s, IsDigit b

instance (s : List UInt8) : Decidable (Digits s) := List.decidableBAll _ s

/-- The string consists of digits, and there is one. -/
def IsNumeral (s : List UInt8) : Prop := s ≠ [] ∧ Digits s

instance (s : List UInt8) : Decidable (IsNumeral s) := inferInstanceAs (Decidable (_ ∧ _))

variable {b : UInt8} {s : List UInt8}

theorem digits_nil : Digits [] := nofun

theorem digits_cons : Digits (b :: s) ↔ IsDigit b ∧ Digits s := List.forall_mem_cons

theorem digitValue_le (h : IsDigit b) : digitValue b ≤ 9 := by
  have hle := UInt8.le_iff_toNat_le.mp h.2
  have hmax : (57 : UInt8).toNat = 57 := rfl
  rw [hmax] at hle
  rw [digitValue]
  omega

theorem foldl_digits (n : Nat) (s : List UInt8) :
    s.foldl (fun n b => 10 * n + digitValue b) n = n * 10 ^ s.length + decimalValue s := by
  induction s generalizing n with
  | nil => simp [decimalValue]
  | cons b s ih =>
      rw [decimalValue, List.foldl_cons, List.foldl_cons, ih, ih (10 * 0 + _), List.length_cons]
      ring

theorem decimalValue_cons (b : UInt8) (s : List UInt8) :
    decimalValue (b :: s) = digitValue b * 10 ^ s.length + decimalValue s := by
  rw [decimalValue, List.foldl_cons, foldl_digits, Nat.mul_zero, Nat.zero_add]

theorem decimalValue_lt (h : Digits s) : decimalValue s < 10 ^ s.length := by
  induction s with
  | nil => exact Nat.one_pos
  | cons b s ih =>
      obtain ⟨hb, hs⟩ := digits_cons.mp h
      have hdigit := digitValue_le hb
      have hrest := ih hs
      rw [decimalValue_cons, List.length_cons]
      calc digitValue b * 10 ^ s.length + decimalValue s
          < digitValue b * 10 ^ s.length + 10 ^ s.length := by omega
        _ = (digitValue b + 1) * 10 ^ s.length := by ring
        _ ≤ 10 * 10 ^ s.length := Nat.mul_le_mul_right _ (by omega)
        _ = 10 ^ (s.length + 1) := by ring

/-! ## Writing numbers -/

/-- The digits of a number, without leading zeros. -/
def numeral (n : Nat) : List UInt8 := (Nat.toDigits 10 n).map fun c => UInt8.ofNat c.toNat

theorem digitChar_eq {d : Nat} (hd : d < 10) :
    UInt8.ofNat d.digitChar.toNat = UInt8.ofNat (d + 48) := by
  interval_cases d <;> rfl

theorem numeral_of_lt {n : Nat} (hn : n < 10) : numeral n = [UInt8.ofNat (n + 48)] := by
  rw [numeral, Nat.toDigits_of_lt_base hn, List.map_singleton, digitChar_eq hn]

theorem numeral_of_ge {n : Nat} (hn : 10 ≤ n) :
    numeral n = numeral (n / 10) ++ [UInt8.ofNat (n % 10 + 48)] := by
  rw [numeral, Nat.toDigits_of_base_le (by decide) hn, List.map_append, List.map_singleton,
    digitChar_eq (Nat.mod_lt n (by decide))]
  rfl

theorem numeral_length_le {n k : Nat} (hk : 0 < k) (hn : n < 10 ^ k) :
    (numeral n).length ≤ k := by
  rw [numeral, List.length_map]
  exact (Nat.length_toDigits_le_iff (by decide) hk).mpr hn

end ShGateway.Lib.Decimal
