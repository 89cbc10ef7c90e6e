import ShGateway.FieldTable
import ShGateway.Lib.Decimal

/-!
`get_uint32_number_from_str` against the number that a string denotes.
-/

namespace ShGateway.VersionNumber

open ShGateway.FieldTable
open ShGateway.FwHeader
open ShGateway.Lib.Decimal
open ShGateway.Lib.NorFlash
open ShGateway.Lib.StringTable
open ShGateway.Platform

/-- The value of up to ten digits that fits in 32 bits, and zero for any other string. -/
def versionNumber (s : List UInt8) : Nat :=
  if IsNumeral s ∧ s.length ≤ 10 ∧ decimalValue s < 2 ^ 32 then decimalValue s else 0

/-- With ten digits the product of the first one with 1000000000 does not wrap, or the
sum overflows all the same; with fewer ones the terminator is not the last byte of
flash, unless the value is zero. -/
def Exact (a : Nat) (s : List UInt8) : Prop :=
  IsNumeral s →
    (s.length = 10 → decimalValue s < 5000000000 ∨
      (2 ^ 33 ≤ decimalValue s ∧ decimalValue s < 9000000000)) ∧
    (s.length < 10 → a + s.length + 1 < flashFinish ∨ decimalValue s = 0)

instance (a : Nat) (s : List UInt8) : Decidable (Exact a s) :=
  inferInstanceAs (Decidable (_ → _))

/-! ## Counting the digits -/

section

variable {m : Mem} {a : Nat} {s : List UInt8}

/-- What the first loop needs of a string to count its digits. -/
def Countable (a : Nat) (s : List UInt8) : Prop :=
  s.length ≤ 10 ∧ (s.length = 10 ∨ a + s.length + 1 < flashFinish)

instance (a : Nat) (s : List UInt8) : Decidable (Countable a s) :=
  inferInstanceAs (Decidable (_ ∧ _))

theorem countable_iff (h : FlashString m a s) (hlen : s.length < 10) :
    Countable a s ↔ ¬ flashCheckRange (a + s.length) 2 = true := by
  have hlower := h.lower
  have hupper := h.upper
  rw [Bool.not_eq_true, flashCheckRange_eq_false_iff, Countable]
  simp only [flashLen, flashStart, flashFinish] at *
  omega

theorem byte_ten_iff (h : FlashString m a s) (hlen : 9 < s.length) :
    m ((a + 9 + 1) % 2 ^ 32) = 0 ↔ s.length = 10 := by
  obtain ⟨hbytes, hnul⟩ := h.stored.getElem
  have hupper := h.upper
  have hnext : (a + 9 + 1) % 2 ^ 32 = a + 10 := by
    simp only [flashFinish] at hupper
    omega
  rw [hnext]
  rcases Nat.eq_or_lt_of_le (Nat.succ_le_of_lt hlen) with hten | hlong
  · rw [← hten] at hnul
    exact iff_of_true hnul hten.symm
  · rw [hbytes 10 hlong]
    exact iff_of_false (h.ne_nul _ (List.getElem_mem hlong)) hlong.ne'

theorem countDigits_eq (h : FlashString m a s) {k i : Nat} (hk : i + k = 10)
    (hi : i ≤ s.length) (hten : i = 10 → s.length = 10) :
    countDigits m a k i =
      if Digits (s.drop i) ∧ Countable a s then some s.length else none := by
  obtain ⟨hbytes, hnul⟩ := h.stored.getElem
  have hlower := h.lower
  have hupper := h.upper
  induction k generalizing i with
  | zero =>
      obtain rfl : i = 10 := hk
      have hlen := hten rfl
      have hnil : s.drop 10 = [] := List.drop_eq_nil_of_le hlen.le
      have hcountable : Countable a s := ⟨hlen.le, .inl hlen⟩
      rw [countDigits, if_pos ⟨by rw [hnil]; exact digits_nil, hcountable⟩, hlen]
  | succ k ih =>
      have haddr : (a + i) % 2 ^ 32 = a + i := by
        simp only [flashFinish] at hupper
        omega
      rw [countDigits, haddr]
      rcases Nat.eq_or_lt_of_le hi with rfl | hlt
      · -- the terminator
        have hiff := countable_iff h (by omega)
        have hnil : s.drop s.length = [] := List.drop_length
        rw [hnil, hnul]
        rcases Classical.em (flashCheckRange (a + s.length) 2 = true) with hrange | hrange
        · rw [if_pos hrange]
          exact (if_neg fun h => hiff.mp h.2 hrange).symm
        · rw [if_neg hrange]
          exact (if_pos ⟨digits_nil, hiff.mpr hrange⟩).symm
      · have hrange : ¬ flashCheckRange (a + i) 2 = true := by
          rw [Bool.not_eq_true, flashCheckRange_eq_false_iff]
          simp only [flashLen, flashStart, flashFinish] at *
          omega
        have hne : s[i] ≠ 0 := h.ne_nul _ (List.getElem_mem hlt)
        have hdrop : s.drop i = s[i] :: s.drop (i + 1) := (List.cons_getElem_drop_succ).symm
        rw [if_neg hrange, hbytes i hlt, hdrop]
        simp only [digits_cons]
        rcases Classical.em (IsDigit s[i]) with hdigit | hdigit
        · rw [if_neg fun h => h.1 hdigit, if_neg hne]
          rcases Classical.em (i = 10 - 1 ∧ m ((a + i + 1) % 2 ^ 32) ≠ 0) with hlong | hlong
          · obtain ⟨rfl, hnext⟩ := hlong
            rw [if_pos ⟨rfl, hnext⟩, if_neg]
            rintro ⟨-, hle, -⟩
            exact hnext ((byte_ten_iff h hlt).mpr (Nat.le_antisymm hle hlt))
          · rw [if_neg hlong, ih (by omega) hlt ?_]
            · simp only [hdigit, true_and]
            · intro hten'
              obtain rfl : i = 9 := by omega
              exact (byte_ten_iff h hlt).mp (not_not.mp fun hnext => hlong ⟨rfl, hnext⟩)
        · rw [if_pos ⟨hdigit, hne⟩, if_neg fun h => hdigit h.1.1]

end

/-! ## Adding them up -/

section

variable {m : Mem} {a : Nat}

theorem sumDigits_eq {pre s : List UInt8} (h : FlashString m a (pre ++ s))
    (hlen : s.length ≤ 9) (hs : Digits s) :
    sumDigits m a (pre ++ s).length 1 0 =
      sumDigits m a pre.length (10 ^ s.length) (decimalValue s) := by
  obtain ⟨hbytes, -⟩ := h.stored.getElem
  have hupper := h.upper
  induction s generalizing pre with
  | nil => simp [decimalValue]
  | cons b s ih =>
      have happend : pre ++ b :: s = (pre ++ [b]) ++ s := by simp
      have hdigit := digitValue_le (digits_cons.mp hs).1
      have hrest := decimalValue_lt (digits_cons.mp hs).2
      rw [List.length_cons] at hlen
      have hpow : 10 ^ s.length ≤ 10 ^ 8 := Nat.pow_le_pow_right (by decide) (by omega)
      have hb : m ((a + pre.length) % 2 ^ 32) = b := by
        rw [List.length_append, List.length_cons] at hupper
        rw [Nat.mod_eq_of_lt (by simp only [flashFinish] at hupper; omega),
          hbytes pre.length (by simp)]
        simp
      have hmul : digitValue b * 10 ^ s.length ≤ 9 * 10 ^ 8 := Nat.mul_le_mul hdigit hpow
      have hvalue : (b.toNat - 48) * 10 ^ s.length % 2 ^ 32 = digitValue b * 10 ^ s.length :=
        Nat.mod_eq_of_lt (by rw [← digitValue]; omega)
      have hrank : 10 ^ s.length * 10 % 2 ^ 32 = 10 ^ (s.length + 1) := by
        rw [← Nat.pow_succ]
        refine Nat.mod_eq_of_lt (lt_of_le_of_lt (Nat.pow_le_pow_right (by decide) hlen) ?_)
        decide
      rw [happend] at h hbytes hupper ⊢
      rw [ih h (by omega) (digits_cons.mp hs).2 hbytes hupper, List.length_append,
        List.length_singleton, sumDigits, hb]
      rw [hvalue, hrank, if_neg (by omega), List.length_cons, decimalValue_cons,
        Nat.add_comm (decimalValue s)]

theorem sumDigits_ten {b : UInt8} {s : List UInt8} (h : FlashString m a (b :: s))
    (hlen : s.length = 9) (hs : Digits s) :
    sumDigits m a (b :: s).length 1 0 =
      if 2 ^ 32 - 1 - decimalValue s < digitValue b * 10 ^ 9 % 2 ^ 32 then 0
      else decimalValue s + digitValue b * 10 ^ 9 % 2 ^ 32 := by
  have hb : m ((a + 0) % 2 ^ 32) = b := by
    have hupper := h.upper
    rw [Nat.add_zero, Nat.mod_eq_of_lt (by simp only [flashFinish] at hupper; omega)]
    exact (cStringAt_cons.mp h.stored).1
  have hsum := @sumDigits_eq m a [b] s h hlen.le hs
  rw [List.singleton_append, List.length_singleton, sumDigits, hb, hlen] at hsum
  rw [hsum]
  rfl

end

/-! ## The number -/

section

variable {m : Mem} {a : Nat} {s : List UInt8}

theorem getUint32NumberFromStr_eq (h : FlashString m a s) :
    getUint32NumberFromStr m a =
      if Digits s ∧ Countable a s then sumDigits m a s.length 1 0 else 0 := by
  rw [getUint32NumberFromStr, countDigits_eq h rfl (Nat.zero_le _) nofun, List.drop_zero]
  split_ifs <;> rfl

theorem wrap_cases {d : Nat} (hd : d ≤ 9) :
    (d ≤ 4 ∧ d * 1000000000 % 4294967296 = d * 1000000000) ∨
      (5 ≤ d ∧ d ≤ 8 ∧ d * 1000000000 % 4294967296 + 4294967296 = d * 1000000000) ∨
      (d = 9 ∧ d * 1000000000 % 4294967296 = 410065408) := by
  interval_cases d <;> decide

theorem overflow_iff {n w : Nat} (hw : w < 1000000000) :
    4294967295 - w < n ↔ 4294967296 ≤ n + w := by
  omega

/-- The sum of ten digits is right or rightly refused. -/
theorem wrap_iff {d w : Nat} (hd : d ≤ 9) (hw : w < 1000000000) :
    (if 4294967295 - w < d * 1000000000 % 4294967296 then 0
      else w + d * 1000000000 % 4294967296) =
      (if d * 1000000000 + w < 4294967296 then d * 1000000000 + w else 0) ↔
    d * 1000000000 + w < 5000000000 ∨
      (8589934592 ≤ d * 1000000000 + w ∧ d * 1000000000 + w < 9000000000) := by
  have hwrap := wrap_cases hd
  simp only [overflow_iff hw]
  generalize d * 1000000000 % 4294967296 = n at *
  rcases hwrap with ⟨hd4, rfl⟩ | ⟨hd5, hd8, hn⟩ | ⟨rfl, rfl⟩
  · split_ifs <;> omega
  · rw [if_neg (show ¬ d * 1000000000 + w < 4294967296 by omega)]
    split_ifs <;> omega
  · rw [if_neg (show ¬ 410065408 + w ≥ 4294967296 by omega), if_neg (by omega)]
    omega

theorem versionNumber_of_digits (hs : IsNumeral s) (hlen : s.length ≤ 10) :
    versionNumber s = if decimalValue s < 4294967296 then decimalValue s else 0 := by
  simp only [versionNumber, hs, hlen, true_and]
  rfl

theorem getUint32NumberFromStr_short (h : FlashString m a s) (hs : IsNumeral s)
    (hlen : s.length < 10) :
    getUint32NumberFromStr m a =
        (if a + s.length + 1 < flashFinish then decimalValue s else 0) ∧
      versionNumber s = decimalValue s := by
  have hsum := @sumDigits_eq m a [] s h (by omega) hs.2
  rw [List.nil_append, List.length_nil, sumDigits] at hsum
  have hpow : 10 ^ s.length ≤ 10 ^ 9 := Nat.pow_le_pow_right (by decide) (by omega)
  have hfits : decimalValue s < 4294967296 :=
    ((decimalValue_lt hs.2).trans_le hpow).trans (by decide)
  constructor
  · have hcountable : Digits s ∧ Countable a s ↔ a + s.length + 1 < flashFinish := by
      rw [Countable]
      exact ⟨fun hc => hc.2.2.resolve_left (by omega), fun hc => ⟨hs.2, by omega, .inr hc⟩⟩
    rw [getUint32NumberFromStr_eq h, hsum]
    simp only [hcountable]
  · rw [versionNumber_of_digits hs hlen.le, if_pos hfits]

theorem getUint32NumberFromStr_ten {b : UInt8} (h : FlashString m a (b :: s))
    (hs : IsNumeral (b :: s)) (hlen : s.length = 9) :
    getUint32NumberFromStr m a = versionNumber (b :: s) ↔
      decimalValue (b :: s) < 5000000000 ∨
        (2 ^ 33 ≤ decimalValue (b :: s) ∧ decimalValue (b :: s) < 9000000000) := by
  obtain ⟨hb, htail⟩ := digits_cons.mp hs.2
  have hten : (b :: s).length = 10 := by rw [List.length_cons, hlen]
  have hrest := decimalValue_lt htail
  have hvalue := decimalValue_cons b s
  rw [hlen] at hrest hvalue
  rw [getUint32NumberFromStr_eq h, if_pos ⟨hs.2, hten.le, .inl hten⟩,
    sumDigits_ten h hlen htail, versionNumber_of_digits hs hten.le, hvalue]
  exact wrap_iff (digitValue_le hb) hrest

theorem getUint32NumberFromStr_other (h : FlashString m a s)
    (hs : ¬ (IsNumeral s ∧ s.length ≤ 10)) :
    getUint32NumberFromStr m a = 0 ∧ versionNumber s = 0 := by
  refine ⟨?_, if_neg fun hc => hs ⟨hc.1, hc.2.1⟩⟩
  rw [getUint32NumberFromStr_eq h]
  rcases eq_or_ne s [] with rfl | hne
  · split_ifs <;> rfl
  · exact if_neg fun hc => hs ⟨⟨hne, hc.1⟩, hc.2.1⟩

/-- The function gives the number that a string in flash denotes exactly if the string
is not one of those on which it wraps or runs into the end of flash. -/
theorem getUint32NumberFromStr_iff (h : FlashString m a s) :
    getUint32NumberFromStr m a = versionNumber s ↔ Exact a s := by
  rcases Classical.em (IsNumeral s ∧ s.length ≤ 10) with ⟨hs, hlen⟩ | hother
  · simp only [Exact, hs, forall_const]
    rcases Nat.lt_or_eq_of_le hlen with hlt | hten
    · obtain ⟨hnumber, hversion⟩ := getUint32NumberFromStr_short h hs hlt
      rw [hnumber, hversion]
      simp only [hlt, hlt.ne, false_implies, true_and, forall_const]
      split_ifs with hend
      · exact iff_of_true rfl (.inl hend)
      · rw [eq_comm]
        exact (or_iff_right hend).symm
    · obtain ⟨b, t, rfl⟩ := List.exists_cons_of_ne_nil hs.1
      have ht : t.length = 9 := by
        rw [List.length_cons] at hten
        omega
      rw [getUint32NumberFromStr_ten h hs ht]
      simp only [hten, forall_const, Nat.lt_irrefl, false_implies, and_true]
  · obtain ⟨hnumber, hversion⟩ := getUint32NumberFromStr_other h hother
    rw [hnumber, hversion]
    refine iff_of_true rfl fun hs => ?_
    have hlen : ¬ s.length ≤ 10 := fun hlen => hother ⟨hs, hlen⟩
    exact ⟨fun hten => absurd hten.le hlen, fun hlt => absurd hlt.le hlen⟩

end

/-- A flash that begins with a string and is zero behind it. -/
def stringFlash (s : List UInt8) : Mem := fun a => s.getD (a - flashStart) 0

theorem flashString_stringFlash {s : List UInt8} (hs : ∀ b ∈ s, b ≠ 0)
    (hlen : s.length < flashLen) : FlashString (stringFlash s) flashStart s where
  stored := by
    have hstored := (readBytes_eq_iff (stringFlash s) flashStart (s ++ [0])).mpr fun i hi => by
      rw [stringFlash, Nat.add_sub_cancel_left, List.getD_eq_getElem?_getD]
      rcases Nat.lt_or_ge i s.length with hlt | hge
      · rw [List.getElem?_eq_getElem hlt, List.getElem_append_left hlt]
        rfl
      · rw [List.getElem?_eq_none hge, List.getElem_append_right hge]
        simp
    rw [List.length_append] at hstored
    exact hstored
  ne_nul := hs
  lower := Nat.le_refl _
  upper := by
    simp only [flashLen, flashStart, flashFinish] at *
    omega

/-- The largest number that fits. -/
theorem getUint32NumberFromStr_iff_max :
    getUint32NumberFromStr (stringFlash (literal "4294967295")) flashStart =
        versionNumber (literal "4294967295") ∧
      versionNumber (literal "4294967295") = 4294967295 := by
  have hstring := @flashString_stringFlash (literal "4294967295") (by decide +kernel)
    (by decide +kernel)
  exact ⟨(getUint32NumberFromStr_iff hstring).mpr (by decide +kernel), by decide +kernel⟩

/-- 5000000000 is taken for 705032704. -/
theorem not_versionNumber_wrapped :
    ¬ ∀ (m : Mem) (a : Nat) (s : List UInt8), FlashString m a s →
      getUint32NumberFromStr m a = versionNumber s := by
  intro h
  have hstring := @flashString_stringFlash (literal "5000000000") (by decide +kernel)
    (by decide +kernel)
  exact absurd (h _ _ _ hstring) (by decide +kernel)

end ShGateway.VersionNumber
