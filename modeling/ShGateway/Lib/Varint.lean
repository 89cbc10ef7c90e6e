import Mathlib

/-!
Numbers as bytes of seven bits each, the lowest first, with the high bit set in all but the last.
-/

namespace ShGateway.Lib.Varint

def encode (n : Nat) : List UInt8 :=
  if n < 128 then [UInt8.ofNat n] else UInt8.ofNat (n % 128 + 128) :: encode (n / 128)
termination_by n
decreasing_by omega

/-- More bytes follow. -/
def Continues (b : UInt8) : Prop := 128 ≤ b.toNat

instance instDecidableContinues (b : UInt8) : Decidable (Continues b) :=
  inferInstanceAs (Decidable (128 ≤ b.toNat))

/-- The number that some bytes stand for. -/
def value : List UInt8 → Nat
  | [] => 0
  | b :: bs => b.toNat % 128 + 128 * value bs

/-- One number: bytes that continue, and one that does not. -/
structure IsNumber (bs : List UInt8) : Prop where
  ne_nil : bs ≠ []
  init : ∀ b ∈ bs.dropLast, Continues b
  last : ∀ b ∈ bs.getLast?, ¬ Continues b

section

variable {n : Nat} {b : UInt8} {bs : List UInt8}

theorem encode_small (h : n < 128) : encode n = [UInt8.ofNat n] := by
  rw [encode, if_pos h]

theorem encode_large (h : 128 ≤ n) :
    encode n = UInt8.ofNat (n % 128 + 128) :: encode (n / 128) := by
  rw [encode, if_neg (by omega)]

theorem encode_ne_nil (n : Nat) : encode n ≠ [] := by
  rw [encode]
  split_ifs
  · exact List.cons_ne_nil _ _
  · exact List.cons_ne_nil _ _

theorem isNumber_singleton (h : ¬ Continues b) : IsNumber [b] := by
  refine ⟨List.cons_ne_nil _ _, by simp, ?_⟩
  intro c hc
  obtain rfl : b = c := by simpa using hc
  exact h

theorem IsNumber.cons (h : IsNumber bs) (hb : Continues b) : IsNumber (b :: bs) := by
  obtain ⟨c, cs, rfl⟩ := List.exists_cons_of_ne_nil h.ne_nil
  refine ⟨List.cons_ne_nil _ _, ?_, ?_⟩
  · intro d hd
    rw [List.dropLast_cons_cons, List.mem_cons] at hd
    rcases hd with rfl | hd
    · exact hb
    · exact h.init d hd
  · intro d hd
    rw [List.getLast?_cons_cons] at hd
    exact h.last d hd

theorem encode_isNumber (n : Nat) : IsNumber (encode n) := by
  induction n using encode.induct with
  | case1 n hn =>
      rw [encode_small hn]
      apply isNumber_singleton
      rw [Continues, UInt8.toNat_ofNat']
      omega
  | case2 n hn ih =>
      rw [encode_large (by omega)]
      apply ih.cons
      rw [Continues, UInt8.toNat_ofNat']
      omega

theorem value_encode (n : Nat) : value (encode n) = n := by
  induction n using encode.induct with
  | case1 n hn =>
      rw [encode_small hn, value, value, UInt8.toNat_ofNat']
      omega
  | case2 n hn ih =>
      rw [encode_large (by omega), value, ih, UInt8.toNat_ofNat']
      omega

theorem encode_length_le {k : Nat} (h : n < 128 ^ (k + 1)) : (encode n).length ≤ k + 1 := by
  induction k generalizing n with
  | zero =>
      rw [encode_small (by simpa using h), List.length_singleton]
  | succ k ih =>
      rcases Nat.lt_or_ge n 128 with hn | hn
      · rw [encode_small hn, List.length_singleton]
        omega
      · have hnext : n / 128 < 128 ^ (k + 1) := by
          rw [Nat.pow_succ] at h
          exact Nat.div_lt_of_lt_mul (by omega)
        rw [encode_large hn, List.length_cons]
        exact Nat.succ_le_succ (ih hnext)

/-- The bytes of a number continue up to the last one. -/
theorem IsNumber.continues_iff (h : IsNumber bs) {i : Nat} (hi : i < bs.length) :
    Continues bs[i] ↔ i + 1 < bs.length := by
  constructor
  · intro hb
    by_contra hlast
    refine h.last bs[i] ?_ hb
    rw [List.getLast?_eq_getElem?, show bs.length - 1 = i by omega, List.getElem?_eq_getElem hi]
    rfl
  · intro hlt
    apply h.init
    rw [List.mem_iff_getElem]
    exact ⟨i, by rw [List.length_dropLast]; omega, List.getElem_dropLast _⟩

theorem value_lt (bs : List UInt8) : value bs < 128 ^ bs.length := by
  induction bs with
  | nil => exact Nat.one_pos
  | cons b bs ih =>
      rw [value, List.length_cons, Nat.pow_succ]
      omega

theorem value_snoc (bs : List UInt8) (b : UInt8) :
    value (bs ++ [b]) = value bs ||| (b.toNat % 128) <<< (bs.length * 7) := by
  have hpow : 128 ^ bs.length = 2 ^ (bs.length * 7) := by
    rw [Nat.mul_comm, Nat.pow_mul]
  have hlt := value_lt bs
  have hsum : value (bs ++ [b]) = (b.toNat % 128) * 128 ^ bs.length + value bs := by
    clear hlt hpow
    induction bs with
    | nil => simp [value]
    | cons c bs ih =>
        rw [List.cons_append, value, ih, value, List.length_cons, Nat.pow_succ, Nat.mul_add,
          Nat.mul_left_comm, Nat.mul_comm 128 (128 ^ bs.length)]
        omega
  rw [hpow] at hlt
  rw [hsum, Nat.or_comm, ← Nat.shiftLeft_add_eq_or_of_lt hlt, Nat.shiftLeft_eq, hpow]

theorem and_low (b : UInt8) : (b &&& 0x7F).toNat = b.toNat % 128 := by
  rw [UInt8.toNat_and]
  exact Nat.and_two_pow_sub_one_eq_mod b.toNat 7

theorem and_high (b : UInt8) : b &&& 0x80 ≠ 0 ↔ Continues b := by
  have hand : (b &&& 0x80).toNat = (b.toNat.testBit 7).toNat * 2 ^ 7 := by
    rw [UInt8.toNat_and]
    exact Nat.and_two_pow b.toNat 7
  have hbit : b.toNat.testBit 7 = decide (128 ≤ b.toNat) := by
    have hlt := b.toNat_lt
    rw [Nat.testBit_eq_decide_div_mod_eq]
    congr 1
    apply propext
    omega
  rw [ne_eq, ← UInt8.toNat_inj, hand, hbit, Continues]
  by_cases h : 128 ≤ b.toNat
  · simp [h]
  · simp [h]

end

end ShGateway.Lib.Varint
