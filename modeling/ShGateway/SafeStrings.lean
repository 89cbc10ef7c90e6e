import ShGateway.FwInBounds

/-!
What the safe string functions of `fw_header.c` promise, and where they keep it. The string that
`str_compare_equal_safe_first_arg` does not check is given by its characters.
-/

namespace ShGateway.SafeStrings

open ShGateway.FieldTable
open ShGateway.FwHeader
open ShGateway.FwInBounds
open ShGateway.FwReads
open ShGateway.Lib.NorFlash
open ShGateway.Lib.ReadTrace
open ShGateway.Platform

/-- The first NUL at or after `s` is at `s + n`, inside flash. -/
structure EndsAt (m : Mem) (s n : Nat) : Prop where
  lower : flashStart ≤ s
  upper : s + n < flashFinish
  nul : m (s + n) = 0
  first : ∀ i < n, m (s + i) ≠ 0

/-- `str_len_safe` reads only flash and finds the length of the string. -/
structure LenSafe (m : Mem) (s : Nat) : Prop where
  reads : ReadsIn InFlash (FwReads.strLenSafe s) m
  found : ∀ n : Nat, (FwReads.strLenSafe s).value m = n ↔ EndsAt m s n
  failed : (∀ n, ¬ EndsAt m s n) → (FwReads.strLenSafe s).value m < 0

/-- The comparison of two strings in flash. -/
structure TwoArgSafe (m : Mem) (s₁ s₂ : Nat) : Prop where
  reads : ReadsIn InFlash (FwReads.strCompareEqualSafeTwoArg s₁ s₂) m
  equal : (FwReads.strCompareEqualSafeTwoArg s₁ s₂).value m = true ↔
    ∃ t, t ≠ [] ∧ FlashString m s₁ t ∧ FlashString m s₂ t

/-- The comparison of a string in flash with another string. -/
structure FirstArgSafe (m : Mem) (s₁ : Nat) (s₂ : List UInt8) : Prop where
  reads : ReadsIn InFlash (FwReads.strCompareEqualSafeFirstArg s₁ s₂) m
  equal : (FwReads.strCompareEqualSafeFirstArg s₁ s₂).value m = true ↔
    s₂ ≠ [] ∧ FlashString m s₁ s₂

/-- The address is not the last of all, and in flash it is followed by a NUL. -/
def Terminated (m : Mem) (s : Nat) : Prop :=
  s ≠ 2 ^ 32 - 1 ∧ (InFlash s → ∃ e, s ≤ e ∧ e < flashFinish ∧ m e = 0)

section

variable {m : Mem} {s s₁ s₂ : Nat} {t : List UInt8}

/-! ## Strings that end in flash -/

theorem endsAt_iff (h : FlashString m s t) {n : Nat} : EndsAt m s n ↔ n = t.length := by
  obtain ⟨hbytes, hend⟩ := h.stored.getElem
  have hne : ∀ i < t.length, m (s + i) ≠ 0 := by
    intro i hi
    rw [hbytes i hi]
    exact h.ne_nul _ (List.getElem_mem _)
  constructor
  · intro hn
    rcases Nat.lt_trichotomy n t.length with hlt | heq | hgt
    · exact absurd hn.nul (hne n hlt)
    · exact heq
    · exact absurd hend (hn.first _ hgt)
  · rintro rfl
    exact ⟨h.lower, h.upper, hend, hne⟩

theorem flashString_unique {t' : List UInt8} (h : FlashString m s t) (h' : FlashString m s t') :
    t = t' := by
  have hlen := (endsAt_iff h).mp ((endsAt_iff h').mpr rfl)
  rw [← h.stored.readBytes, ← h'.stored.readBytes, hlen]

theorem lenSafe_of_string (h : FlashString m s t) : LenSafe m s where
  reads := readsIn_strLenSafe (.inr ⟨t, h⟩)
  found := fun n => by
    rw [value_strLenSafe, strLenSafe_eq h, endsAt_iff h, Nat.cast_inj, eq_comm]
  failed := fun hnone => absurd ((endsAt_iff h).mpr rfl) (hnone _)

theorem Terminated.string (h : Terminated m s) (hs : InFlash s) : ∃ t, FlashString m s t := by
  obtain ⟨e, hle, hlt, hnul⟩ := h.2 hs
  obtain ⟨t, ht, -⟩ := exists_flashString hs.1 hle hlt hnul
  exact ⟨t, ht⟩

/-! ## Addresses outside flash -/

theorem flashCheckRange_outside (hs : ¬ InFlash s) (hlt : s < 2 ^ 32 - 1) :
    flashCheckRange s 1 = true := by
  rw [← Bool.not_eq_false, flashCheckRange_eq_false_iff]
  rintro ⟨-, hlower, hupper⟩
  rw [Nat.mod_eq_of_lt (by omega)] at hupper
  exact hs ⟨hlower, hupper⟩

theorem strLenSafe_outside (hs : ¬ InFlash s) (hlt : s < 2 ^ 32 - 1) :
    FwReads.strLenSafe s = pure (-1) := if_pos (flashCheckRange_outside hs hlt)

theorem lenSafe_of_outside (hs : ¬ InFlash s) (hlt : s < 2 ^ 32 - 1) : LenSafe m s := by
  have hends : ∀ n, ¬ EndsAt m s n :=
    fun n hn => hs ⟨hn.lower, (Nat.le_add_right s n).trans_lt hn.upper⟩
  have hlen := strLenSafe_outside hs hlt
  constructor
  · rw [hlen]
    exact readsIn_pure _
  · intro n
    rw [hlen, value_pure]
    exact iff_of_false (by omega) (hends n)
  · intro _
    rw [hlen, value_pure]
    omega

/-! ## Reads outside flash -/

theorem not_readsIn_strLenLoop (hs : flashStart ≤ s) {i : Nat} (hi : s + i ≤ flashFinish)
    (hbytes : ∀ e, s ≤ e → e < flashFinish → m e ≠ 0) :
    ¬ ReadsIn InFlash (FwReads.strLenLoop s i) m := by
  have hfinish : flashFinish = 0x08080000 := rfl
  have hstart : flashStart = 0x08000000 := rfl
  induction hn : flashFinish - (s + i) generalizing i with
  | zero =>
      obtain heq : s + i = flashFinish := by omega
      rw [FwReads.strLenLoop, readsIn_bind, readsIn_readByte, heq]
      rintro ⟨hread, -⟩
      exact absurd hread.2 (by decide)
  | succ n ih =>
      have hrange : flashCheckRange (s + i) 0 = false := by
        rw [flashCheckRange_eq_false_iff, Nat.add_zero, Nat.mod_eq_of_lt (by omega)]
        exact ⟨Nat.zero_le _, by omega, hi⟩
      rw [FwReads.strLenLoop, readsIn_bind, Nat.mod_eq_of_lt (by omega), value_readByte,
        if_neg (hbytes _ (by omega) (by omega)), dif_neg (by simp [hrange])]
      exact fun hreads => ih (by omega) (by omega) hreads.2

theorem not_readsIn_strLenSafe_last :
    ¬ ReadsIn InFlash (FwReads.strLenSafe (2 ^ 32 - 1)) m := by
  have hrange : ¬ flashCheckRange (2 ^ 32 - 1) 1 = true := by decide
  rw [FwReads.strLenSafe, if_neg hrange, FwReads.strLenLoop, readsIn_bind, readsIn_readByte]
  rintro ⟨hread, -⟩
  exact absurd hread.2 (by decide)

/-- The length is computed without leaving flash only for a string that ends there, or outside. -/
theorem terminated_of_readsIn (h : ReadsIn InFlash (FwReads.strLenSafe s) m) :
    Terminated m s := by
  refine ⟨?_, fun hs => ?_⟩
  · rintro rfl
    exact not_readsIn_strLenSafe_last h
  · by_contra hnone
    have hrange : ¬ flashCheckRange s 1 = true := by
      have hupper := hs.2
      have hfinish : flashFinish = 0x08080000 := rfl
      rw [Bool.not_eq_true, flashCheckRange_eq_false_iff, Nat.mod_eq_of_lt (by omega)]
      exact ⟨by decide, hs.1, hs.2⟩
    rw [FwReads.strLenSafe, if_neg hrange] at h
    refine not_readsIn_strLenLoop hs.1 hs.2.le (fun e hle hlt hnul => ?_) h
    exact hnone ⟨e, hle, hlt, hnul⟩

theorem lenSafe_iff (hlt : s < 2 ^ 32) : LenSafe m s ↔ Terminated m s := by
  constructor
  · exact fun h => terminated_of_readsIn h.reads
  · intro h
    rcases Classical.em (InFlash s) with hs | hs
    · obtain ⟨t, ht⟩ := h.string hs
      exact lenSafe_of_string ht
    · have hne := h.1
      exact lenSafe_of_outside hs (by omega)

/-! ## The comparisons -/

theorem FlashString.inFlash (h : FlashString m s t) : InFlash s :=
  ⟨h.lower, (Nat.le_add_right s _).trans_lt h.upper⟩

theorem twoArgSafe_of_strings {t' : List UInt8} (h : FlashString m s₁ t)
    (h' : FlashString m s₂ t') : TwoArgSafe m s₁ s₂ := by
  refine ⟨readsIn_strCompareEqualSafeTwoArg ⟨t, h⟩ ⟨t', h'⟩, ?_⟩
  rw [value_strCompareEqualSafeTwoArg]
  rcases eq_or_ne t [] with rfl | ht
  · refine iff_of_false ?_ ?_
    · rw [FwHeader.strCompareEqualSafeTwoArg, strLenSafe_eq h]
      simp
    · rintro ⟨u, hu, hstring, -⟩
      exact hu (flashString_unique hstring h)
  · rw [strCompareEqualSafeTwoArg_iff h h' ht]
    constructor
    · rintro rfl
      exact ⟨t, ht, h, h'⟩
    · rintro ⟨u, -, hu, hu'⟩
      exact (flashString_unique h hu).trans (flashString_unique hu' h')

theorem twoArgSafe_of_outside (h₁ : LenSafe m s₁) (h₂ : LenSafe m s₂)
    (hlen : FwHeader.strLenSafe m s₁ < 0 ∨ FwHeader.strLenSafe m s₂ < 0) :
    TwoArgSafe m s₁ s₂ := by
  have hcond : FwHeader.strLenSafe m s₁ ≤ 0 ∨ FwHeader.strLenSafe m s₂ ≤ 0 ∨
      FwHeader.strLenSafe m s₁ ≠ FwHeader.strLenSafe m s₂ :=
    hlen.elim (fun h => .inl h.le) fun h => .inr (.inl h.le)
  constructor
  · refine .bind h₁.reads (.bind h₂.reads (.ite (fun _ => readsIn_pure _) fun hnot => ?_))
    rw [value_strLenSafe, value_strLenSafe] at hnot
    exact absurd hcond hnot
  · rw [value_strCompareEqualSafeTwoArg]
    refine iff_of_false ?_ ?_
    · simp only [FwHeader.strCompareEqualSafeTwoArg, if_pos hcond]
      decide
    · rintro ⟨t, -, ht, ht'⟩
      rw [strLenSafe_eq ht, strLenSafe_eq ht'] at hlen
      omega

theorem twoArgSafe_iff (h₁ : s₁ < 2 ^ 32) (h₂ : s₂ < 2 ^ 32) :
    TwoArgSafe m s₁ s₂ ↔ Terminated m s₁ ∧ Terminated m s₂ := by
  constructor
  · rintro ⟨hreads, -⟩
    obtain ⟨hfirst, hrest⟩ := readsIn_bind.mp hreads
    exact ⟨terminated_of_readsIn hfirst, terminated_of_readsIn (readsIn_bind.mp hrest).1⟩
  · rintro ⟨ht₁, ht₂⟩
    have hlen : ∀ s, Terminated m s → s < 2 ^ 32 → ¬ InFlash s →
        FwHeader.strLenSafe m s < 0 := by
      intro s hs hlt hout
      have hne := hs.1
      rw [← value_strLenSafe, strLenSafe_outside hout (by omega), value_pure]
      decide
    have hsafe₁ := (lenSafe_iff h₁).mpr ht₁
    have hsafe₂ := (lenSafe_iff h₂).mpr ht₂
    rcases Classical.em (InFlash s₁) with hin₁ | hout₁
    · rcases Classical.em (InFlash s₂) with hin₂ | hout₂
      · obtain ⟨t, ht⟩ := ht₁.string hin₁
        obtain ⟨t', ht'⟩ := ht₂.string hin₂
        exact twoArgSafe_of_strings ht ht'
      · exact twoArgSafe_of_outside hsafe₁ hsafe₂ (.inr (hlen s₂ ht₂ h₂ hout₂))
    · exact twoArgSafe_of_outside hsafe₁ hsafe₂ (.inl (hlen s₁ ht₁ h₁ hout₁))

theorem firstArgSafe_of_string (h : FlashString m s t) (key : List UInt8) :
    FirstArgSafe m s key := by
  refine ⟨readsIn_strCompareEqualSafeFirstArg ⟨t, h⟩ key, ?_⟩
  rw [value_strCompareEqualSafeFirstArg]
  rcases eq_or_ne t [] with rfl | ht
  · refine iff_of_false ?_ ?_
    · rw [FwHeader.strCompareEqualSafeFirstArg, strLenSafe_eq h]
      simp
    · rintro ⟨hkey, hstring⟩
      exact hkey (flashString_unique hstring h)
  · rw [strCompareEqualSafeFirstArg_iff h ht]
    constructor
    · rintro rfl
      exact ⟨ht, h⟩
    · exact fun hkey => flashString_unique h hkey.2

theorem firstArgSafe_of_outside (hs : ¬ InFlash s) (hlt : s < 2 ^ 32 - 1) (key : List UInt8) :
    FirstArgSafe m s key := by
  have hlen := strLenSafe_outside hs hlt
  have hvalue : (FwReads.strLenSafe s).value m = -1 := by rw [hlen, value_pure]
  constructor
  · refine .bind (hlen ▸ readsIn_pure _) (.ite (fun _ => readsIn_pure _) fun hnot => ?_)
    rw [hvalue] at hnot
    exact absurd (.inl (by decide)) hnot
  · rw [value_strLenSafe] at hvalue
    rw [value_strCompareEqualSafeFirstArg, FwHeader.strCompareEqualSafeFirstArg, hvalue]
    exact iff_of_false (by simp) fun hkey => hs (FlashString.inFlash hkey.2)

theorem firstArgSafe_iff (h : s < 2 ^ 32) (key : List UInt8) :
    FirstArgSafe m s key ↔ Terminated m s := by
  constructor
  · exact fun hsafe => terminated_of_readsIn (readsIn_bind.mp hsafe.reads).1
  · intro ht
    rcases Classical.em (InFlash s) with hs | hs
    · obtain ⟨t, hstring⟩ := ht.string hs
      exact firstArgSafe_of_string hstring key
    · have hne := ht.1
      exact firstArgSafe_of_outside hs (by omega) key

end

/-- The three functions keep their promise exactly for addresses that are terminated. -/
theorem strings_safe_iff (m : Mem) (s₁ s₂ : UInt32) (key : List UInt8) :
    (LenSafe m s₁.toNat ↔ Terminated m s₁.toNat) ∧
      (TwoArgSafe m s₁.toNat s₂.toNat ↔ Terminated m s₁.toNat ∧ Terminated m s₂.toNat) ∧
      (FirstArgSafe m s₁.toNat key ↔ Terminated m s₁.toNat) :=
  ⟨lenSafe_iff s₁.toNat_lt, twoArgSafe_iff s₁.toNat_lt s₂.toNat_lt,
    firstArgSafe_iff s₁.toNat_lt key⟩

/-- In erased flash the length of the last byte's string leads outside. -/
theorem not_lenSafe_erased : ¬ LenSafe (fun _ => 0xFF) (UInt32.toNat 0x0807FFFF) := by
  intro h
  obtain ⟨-, hend⟩ := terminated_of_readsIn h.reads
  obtain ⟨e, -, -, hnul⟩ := hend ⟨by decide, by decide⟩
  exact absurd (show (255 : UInt8) = 0 from hnul) (by decide)

end ShGateway.SafeStrings
