import ShGateway.FwReads
import ShGateway.Preldr

/-!
The image check and the field helpers read only flash.
-/

namespace ShGateway.FwInBounds

open ShGateway.Crc
open ShGateway.FieldTable
open ShGateway.FwHeader
open ShGateway.FwVerdict
open ShGateway.Lib.NorFlash
open ShGateway.Lib.ReadTrace
open ShGateway.Lib.StringTable
open ShGateway.Platform
open ShGateway.Preldr

def InFlash (a : Nat) : Prop := flashStart ≤ a ∧ a < flashFinish

/-- A NUL-terminated string inside flash. -/
def IsFlashString (m : Mem) (a : Nat) : Prop := ∃ s, FlashString m a s

section

variable {m : Mem}

theorem flashString_nil {a : Nat} (hstart : flashStart ≤ a) (hend : a < flashFinish)
    (hzero : m a = 0) : FlashString m a [] where
  stored := by rw [CStringAt, List.length_nil, readBytes_succ, hzero]; rfl
  ne_nul := by simp
  lower := hstart
  upper := hend

theorem inFlash_add {a : Nat} {s : List UInt8} (h : FlashString m a s) {j : Nat}
    (hj : j ≤ s.length) : InFlash (a + j) := by
  have hlower := h.lower
  have hupper := h.upper
  exact ⟨by omega, by omega⟩

theorem exists_flashString {a e : Nat} (hstart : flashStart ≤ a) (hle : a ≤ e)
    (hend : e < flashFinish) (hzero : m e = 0) :
    ∃ s, FlashString m a s ∧ a + s.length ≤ e := by
  obtain ⟨n, rfl⟩ := Nat.exists_eq_add_of_le hle
  induction n generalizing a with
  | zero => exact ⟨[], flashString_nil hstart hend hzero, hle⟩
  | succ n ih =>
      by_cases hbyte : m a = 0
      · exact ⟨[], flashString_nil hstart (by omega) hbyte, hle⟩
      · have hnext : a + 1 + n = a + (n + 1) := by omega
        obtain ⟨s, hs, hlen⟩ := @ih (a + 1) (by omega) (by omega) (by omega)
          (by rw [hnext]; exact hzero)
        have hupper := hs.upper
        refine ⟨m a :: s, ⟨?_, ?_, hstart, ?_⟩, ?_⟩
        · have hstored := hs.stored
          rw [CStringAt] at hstored ⊢
          rw [List.length_cons, readBytes_succ, hstored, List.cons_append]
        · simpa using ⟨hbyte, hs.ne_nul⟩
        · simp only [List.length_cons]
          omega
        · simp only [List.length_cons]
          omega

/-! ## Strings -/

theorem readsIn_strLenLoop {a : Nat} {s : List UInt8} (h : FlashString m a s) {i : Nat}
    (hi : i ≤ s.length) : ReadsIn InFlash (FwReads.strLenLoop a i) m := by
  obtain ⟨-, hend⟩ := h.stored.getElem
  have hlower := h.lower
  have hupper := h.upper
  induction hn : s.length - i generalizing i with
  | zero =>
      obtain rfl : i = s.length := by omega
      have haddr : (a + s.length) % 2 ^ 32 = a + s.length := by
        simp only [flashFinish] at hupper
        omega
      rw [FwReads.strLenLoop, haddr]
      refine .bind (readsIn_readByte.mpr ⟨by omega, hupper⟩) (.ite (fun _ => readsIn_pure _)
        fun hbyte => absurd hend hbyte)
  | succ n ih =>
      have haddr : (a + i) % 2 ^ 32 = a + i := by
        simp only [flashFinish] at hupper
        omega
      rw [FwReads.strLenLoop, haddr]
      refine .bind (readsIn_readByte.mpr ⟨by omega, by omega⟩) (.ite (fun _ => readsIn_pure _)
        fun _ => ?_)
      split
      · exact readsIn_pure _
      · exact ih (by omega) (by omega)

theorem readsIn_strLenSafe {a : Nat} (h : a = 0 ∨ IsFlashString m a) :
    ReadsIn InFlash (FwReads.strLenSafe a) m := by
  rcases h with rfl | ⟨s, hs⟩
  · exact readsIn_pure _
  · exact .ite (fun _ => readsIn_pure _) fun _ => readsIn_strLenLoop hs (Nat.zero_le _)

theorem readsIn_equalLoop {a b : Nat} {k i : Nat}
    (ha : ∀ j < i + k, InFlash (a + j)) (hb : ∀ j < i + k, InFlash (b + j)) :
    ReadsIn InFlash (FwReads.equalLoop a b k i) m := by
  induction k generalizing i with
  | zero => exact readsIn_pure _
  | succ k ih =>
      refine .bind (readsIn_readByte.mpr (ha i (by omega))) (.bind
        (readsIn_readByte.mpr (hb i (by omega))) (.ite (fun _ => readsIn_pure _) fun _ => ?_))
      exact ih (fun j hj => ha j (by omega)) fun j hj => hb j (by omega)

theorem readsIn_strCompareEqualSafeTwoArg {a b : Nat} (ha : IsFlashString m a)
    (hb : IsFlashString m b) :
    ReadsIn InFlash (FwReads.strCompareEqualSafeTwoArg a b) m := by
  have hlenA := @readsIn_strLenSafe m a (.inr ha)
  have hlenB := @readsIn_strLenSafe m b (.inr hb)
  obtain ⟨s, hs⟩ := ha
  obtain ⟨t, ht⟩ := hb
  refine .bind hlenA (.bind hlenB (.ite (fun _ => readsIn_pure _) fun hlen => ?_))
  rw [FwReads.value_strLenSafe, FwReads.value_strLenSafe, strLenSafe_eq hs,
    strLenSafe_eq ht] at hlen
  rw [FwReads.value_strLenSafe, strLenSafe_toNat hs]
  exact readsIn_equalLoop (fun j hj => inFlash_add hs (by omega)) fun j hj =>
    inFlash_add ht (by omega)

theorem readsIn_equalKeyLoop {a i : Nat} {key : List UInt8}
    (h : ∀ j < i + key.length, InFlash (a + j)) :
    ReadsIn InFlash (FwReads.equalKeyLoop a key i) m := by
  induction key generalizing i with
  | nil => exact readsIn_pure _
  | cons c key ih =>
      rw [List.length_cons] at h
      refine .bind (readsIn_readByte.mpr (h i (by omega))) (.ite (fun _ => readsIn_pure _)
        fun _ => ih fun j hj => h j (by omega))

theorem readsIn_strCompareEqualSafeFirstArg {a : Nat} (ha : IsFlashString m a)
    (key : List UInt8) :
    ReadsIn InFlash (FwReads.strCompareEqualSafeFirstArg a key) m := by
  have hlen := @readsIn_strLenSafe m a (.inr ha)
  obtain ⟨s, hs⟩ := ha
  refine .bind hlen (.ite (fun _ => readsIn_pure _) fun hsame => ?_)
  rw [FwReads.value_strLenSafe, strLenSafe_eq hs] at hsame
  exact readsIn_equalKeyLoop fun j hj => inFlash_add hs (by omega)

/-! ## Version numbers -/

theorem countDigits_inFlash {s k i count : Nat} (hs : s + i + k < 2 ^ 31)
    (h : countDigits m s k i = some count) :
    ∀ j, i ≤ j → j < count → InFlash (s + j) := by
  induction k generalizing i with
  | zero =>
      obtain rfl := Option.some.inj h
      intro j hle hlt
      omega
  | succ k ih =>
      have haddr : (s + i) % 2 ^ 32 = s + i := by omega
      rw [countDigits, haddr] at h
      by_cases hrange : flashCheckRange (s + i) 2 = true
      · rw [if_pos hrange] at h
        cases h
      rw [if_neg hrange] at h
      rw [Bool.not_eq_true, flashCheckRange_eq_false_iff] at hrange
      simp only [] at h
      split_ifs at h with hdigit hzero hlast
      · obtain rfl := Option.some.inj h
        intro j hle hlt
        omega
      · intro j hle hlt
        rcases Nat.eq_or_lt_of_le hle with rfl | hlt'
        · refine ⟨hrange.2.1, ?_⟩
          simp only [flashFinish] at hrange ⊢
          omega
        · exact ih (by omega) h j hlt' hlt

theorem readsIn_countDigits {s k i : Nat} (hs : s + i + k < 2 ^ 31) :
    ReadsIn InFlash (FwReads.countDigits s k i) m := by
  induction k generalizing i with
  | zero => exact readsIn_pure _
  | succ k ih =>
      have haddr : (s + i) % 2 ^ 32 = s + i := by omega
      have hnext : (s + i + 1) % 2 ^ 32 = s + i + 1 := by omega
      rw [FwReads.countDigits, haddr, hnext]
      refine .ite (fun _ => readsIn_pure _) fun hrange => ?_
      rw [Bool.not_eq_true, flashCheckRange_eq_false_iff] at hrange
      simp only [flashFinish] at hrange
      have hhere : InFlash (s + i) := ⟨hrange.2.1, by simp only [flashFinish]; omega⟩
      have hthere : InFlash (s + i + 1) :=
        ⟨by omega, by simp only [flashFinish]; omega⟩
      refine .bind (readsIn_readByte.mpr hhere) (.ite (fun _ => readsIn_pure _) fun _ =>
        .ite (fun _ => readsIn_pure _) fun _ => .ite (fun _ => ?_) fun _ => ih (by omega))
      exact .bind (readsIn_readByte.mpr hthere) (.ite (fun _ => readsIn_pure _) fun _ =>
        ih (by omega))

theorem readsIn_sumDigits {s count rank number : Nat} (hs : s + count < 2 ^ 32)
    (h : ∀ j < count, InFlash (s + j)) :
    ReadsIn InFlash (FwReads.sumDigits s count rank number) m := by
  induction count generalizing rank number with
  | zero => exact readsIn_pure _
  | succ i ih =>
      have haddr : (s + i) % 2 ^ 32 = s + i := by omega
      rw [FwReads.sumDigits, haddr]
      exact .bind (readsIn_readByte.mpr (h i (by omega))) (.ite (fun _ => readsIn_pure _)
        fun _ => ih (by omega) fun j hj => h j (by omega))

theorem readsIn_getUint32NumberFromStr {s : Nat} (hs : s < flashFinish) :
    ReadsIn InFlash (FwReads.getUint32NumberFromStr s) m := by
  simp only [flashFinish] at hs
  refine .bind (readsIn_countDigits (by omega)) ?_
  rw [FwReads.value_countDigits]
  rcases hcount : countDigits m s 10 0 with _ | count
  · exact readsIn_pure _
  · have hdigits := countDigits_inFlash (by omega) hcount
    refine readsIn_sumDigits ?_ fun j hj => hdigits j (Nat.zero_le j) hj
    rcases Nat.eq_zero_or_pos count with rfl | hpos
    · omega
    · have hlast := (hdigits (count - 1) (Nat.zero_le _) (by omega)).2
      simp only [flashFinish] at hlast
      omega

/-! ## Checksums and the count -/

theorem readsIn_crcLoop {unit : CrcUnit} {a k : Nat} {dr : UInt32}
    (h : ∀ i < 4 * k, InFlash (a + i)) :
    ReadsIn InFlash (FwReads.crcLoop unit k a dr) m := by
  induction k generalizing a dr with
  | zero => exact readsIn_pure _
  | succ k ih =>
      refine .bind (readsIn_readAll fun i hi => h i (by omega)) (ih fun i hi => ?_)
      rw [Nat.add_assoc]
      exact h (4 + i) (by omega)

theorem readsIn_regionCrc {unit : CrcUnit} {addr size : Nat} (hword : 4 ∣ addr)
    (hstart : flashStart ≤ addr) (hsize : headerOffset + headerSize < size)
    (hend : addr + size ≤ flashFinish) :
    ReadsIn InFlash (FwReads.regionCrc unit addr size) m := by
  have haddr : addr / 4 * 4 = addr := Nat.div_mul_cancel hword
  have hcontinue : (addr + headerOffset + headerSize) / 4 * 4 =
      addr + headerOffset + headerSize :=
    Nat.div_mul_cancel (Nat.dvd_add (Nat.dvd_add hword (by decide)) (by decide))
  rw [FwReads.regionCrc, haddr, hcontinue]
  simp only [headerOffset, headerSize] at hsize ⊢
  exact .bind (readsIn_crcLoop fun i hi => ⟨by omega, by omega⟩)
    (readsIn_crcLoop fun i hi => ⟨by omega, by omega⟩)

theorem readsIn_readWord {a : Nat} (hstart : flashStart ≤ a) (hend : a + 4 ≤ flashFinish) :
    ReadsIn InFlash (FwReads.readWord a) m :=
  .bind (readsIn_readAll fun i hi => ⟨by omega, by omega⟩) (readsIn_pure _)

theorem readsIn_countLoop {start k i n e : Nat}
    (h : ∀ j < i + k, InFlash (start + j)) :
    ReadsIn InFlash (FwReads.countLoop start k i n e) m := by
  induction k generalizing i n e with
  | zero => exact readsIn_pure _
  | succ k ih =>
      have hnext : ∀ n e, ReadsIn InFlash (FwReads.countLoop start k (i + 1) n e) m :=
        fun n e => ih fun j hj => h j (by omega)
      exact .bind (readsIn_readByte.mpr (h i (by omega))) (.ite
        (fun _ => .ite (fun _ => readsIn_pure _) fun _ =>
          .ite (fun _ => readsIn_pure _) fun _ => hnext _ _)
        fun _ => hnext _ _)

theorem readsIn_fwFieldsGetCount {start n : Nat} (h : n = 0 ∨ start + n < flashFinish) :
    ReadsIn InFlash (FwReads.fwFieldsGetCount start n) m := by
  refine .ite (fun _ => readsIn_pure _) fun hrange => readsIn_countLoop fun j hj => ?_
  rw [Bool.not_eq_true, flashCheckRange_eq_false_iff] at hrange
  exact ⟨by omega, by omega⟩

/-! ## Searching the fields -/

/-- The scanned strings end with the terminators at `start + e` and behind it. -/
structure TableEnd (m : Mem) (start e : Nat) : Prop where
  lower : flashStart ≤ start
  upper : start + e + 1 < flashFinish
  first : m (start + e) = 0
  second : m (start + e + 1) = 0

theorem exists_tableEnd {start n : Nat} {fs : Fields} (h : IsFieldTable m start n fs)
    (hlower : flashStart ≤ start) (hupper : start + n < flashFinish) :
    ∃ e, TableEnd m start e := by
  have hne : strings fs ≠ [] := by
    obtain ⟨⟨k, v⟩, gs, rfl⟩ := List.exists_cons_of_ne_nil h.ne_nil
    simp
  obtain ⟨xs, hxs⟩ := exists_tableBytes_eq hne
  have hstored := h.stored
  have hfits := h.fits
  rw [hxs] at hstored hfits
  obtain ⟨-, hzeros⟩ := readBytes_append_iff.mp hstored
  have hbytes := (readBytes_eq_iff m (start + xs.length) [0, 0]).mp hzeros
  have hfirst := hbytes 0 (by decide)
  have hsecond := hbytes 1 (by decide)
  rw [List.length_append, List.length_cons, List.length_cons, List.length_nil] at hfits
  exact ⟨xs.length, hlower, by omega, hfirst, hsecond⟩

/-- Where a scan is that has seen `n` terminators in a row before offset `i`. -/
def Scanning (e i n : Nat) : Prop := i ≤ e ∨ (i = e + 1 ∧ 1 ≤ n)

section

variable {start e i n : Nat} (h : TableEnd m start e) (hscan : Scanning e i n)

include h hscan

theorem Scanning.inFlash : InFlash (start + i) := by
  have hlower := h.lower
  have hupper := h.upper
  rcases hscan with hle | ⟨rfl, -⟩
  · exact ⟨by omega, by omega⟩
  · exact ⟨by omega, by omega⟩

omit h in
theorem Scanning.nul (hn : ¬ 2 ≤ n + 1) : Scanning e (i + 1) (n + 1) := by
  rcases hscan with hle | ⟨-, hpos⟩
  · rcases Nat.eq_or_lt_of_le hle with rfl | hlt
    · exact .inr ⟨rfl, Nat.succ_pos n⟩
    · exact .inl hlt
  · omega

theorem Scanning.lt (hbyte : m (start + i) ≠ 0) : i < e := by
  rcases hscan with hle | ⟨rfl, -⟩
  · rcases Nat.eq_or_lt_of_le hle with rfl | hlt
    · exact absurd h.first hbyte
    · exact hlt
  · exact absurd h.second hbyte

theorem Scanning.strings (hbyte : m (start + i) ≠ 0) :
    ∃ s, FlashString m (start + i) s ∧ IsFlashString m (start + i + s.length + 1) := by
  have hlt := hscan.lt h hbyte
  have hlower := h.lower
  have hupper := h.upper
  obtain ⟨s, hs, hlen⟩ := @exists_flashString m (start + i) (start + e) (by omega) (by omega)
    (by omega) h.first
  obtain ⟨t, ht, -⟩ := @exists_flashString m (start + i + s.length + 1) (start + e + 1)
    (by omega) (by omega) hupper h.second
  exact ⟨s, hs, t, ht⟩

end

/-- `NULL` or a string. -/
def NullOrString (m : Mem) (a : Nat) : Prop := a = 0 ∨ IsFlashString m a

theorem findKeyLoop_yields {start e : Nat} (h : TableEnd m start e) (key : List UInt8)
    {k i n c : Nat} {captured : Bool} (hscan : Scanning e i n) :
    Yields InFlash (NullOrString m) (FwReads.findKeyLoop start key k i n c captured) m := by
  induction k generalizing i n c captured with
  | zero => exact .pure (.inl rfl)
  | succ k ih =>
      refine .bind (readsIn_readByte.mpr (hscan.inFlash h)) (.ite
        (fun _ => .ite (fun _ => .pure (.inl rfl)) fun _ =>
          .ite (fun _ => .pure (.inl rfl)) fun hn => ih (hscan.nul hn)) fun hbyte => ?_)
      obtain ⟨s, hs, hnext⟩ := hscan.strings h hbyte
      have hrest : Scanning e (i + 1) 0 := .inl (hscan.lt h hbyte)
      refine .ite (fun _ => .bind (readsIn_strCompareEqualSafeFirstArg ⟨s, hs⟩ key) (.ite
        (fun _ => .bind (readsIn_strLenSafe (.inr ⟨s, hs⟩)) (.pure (.inr ?_)))
        fun _ => ih hrest)) fun _ => ih hrest
      rw [FwReads.value_strLenSafe, strLenSafe_toNat hs]
      exact hnext

/-- A result of the search by iterator. -/
def FoundStrings (m : Mem) (r : Bool × Nat × Nat) : Prop :=
  r.1 = true → IsFlashString m r.2.1 ∧ IsFlashString m r.2.2

theorem findIteratorLoop_yields {start e : Nat} (h : TableEnd m start e) (iterator : Nat)
    {k i n c : Nat} {captured : Bool} (hscan : Scanning e i n) :
    Yields InFlash (FoundStrings m)
      (FwReads.findIteratorLoop start iterator k i n c captured) m := by
  have hnone : FoundStrings m (false, 0, 0) := fun hfound => nomatch hfound
  induction k generalizing i n c captured with
  | zero => exact .pure hnone
  | succ k ih =>
      refine .bind (readsIn_readByte.mpr (hscan.inFlash h)) (.ite
        (fun _ => .ite (fun _ => .pure hnone) fun _ =>
          .ite (fun _ => .pure hnone) fun hn => ih (hscan.nul hn)) fun hbyte => ?_)
      obtain ⟨s, hs, hnext⟩ := hscan.strings h hbyte
      refine .ite (fun _ => .bind (readsIn_strLenSafe (.inr ⟨s, hs⟩))
        (.pure fun _ => ⟨⟨s, hs⟩, ?_⟩)) fun _ => ih (.inl (hscan.lt h hbyte))
      rw [FwReads.value_strLenSafe, strLenSafe_toNat hs]
      exact hnext

theorem fwFieldsFindByKey_yields {start e : Nat} (h : TableEnd m start e)
    (key : List UInt8) (n : Nat) :
    Yields InFlash (NullOrString m) (FwReads.fwFieldsFindByKey start key n) m :=
  .ite (fun _ => .pure (.inl rfl)) fun _ => findKeyLoop_yields h key (.inl (Nat.zero_le e))

theorem fwFieldsFindByIterator_yields {start e n : Nat} (h : TableEnd m start e)
    (hrange : flashCheckRange start n = false) (iterator pKey pValue : Nat) :
    Yields InFlash (FoundStrings m)
      (FwReads.fwFieldsFindByIterator start iterator pKey pValue n) m :=
  .ite (fun hinvalid => absurd (hrange.symm.trans hinvalid) Bool.false_ne_true) fun _ =>
    findIteratorLoop_yields h iterator (.inl (Nat.zero_le e))

/-! ## The check of a region -/

theorem checkFields_readsIn {start e : Nat} (h : TableEnd m start e) (n : Nat) (fw : FwInfo) :
    ReadsIn InFlash (FwReads.checkFields start n fw) m := by
  have hfind (key : String) := fwFieldsFindByKey_yields h (literal key) n
  have hlen (key : String) := readsIn_strLenSafe (hfind key).result
  have hnumber (key : String) : ReadsIn InFlash (FwReads.getUint32NumberFromStr
      ((FwReads.fwFieldsFindByKey start (literal key) n).value m)) m := by
    refine readsIn_getUint32NumberFromStr ?_
    rcases (hfind key).result with hnull | ⟨s, hs⟩
    · rw [hnull]
      decide
    · exact Nat.lt_of_le_of_lt (Nat.le_add_right _ _) hs.upper
  exact .bind (hfind _).reads <| .bind (hlen _) <| .bind (hfind _).reads <|
    .bind (hlen _) <| .bind (hfind _).reads <| .bind (hfind _).reads <|
    .bind (hfind _).reads <| .bind (hnumber _) <| .bind (hnumber _) <|
    .bind (hnumber _) <| readsIn_pure _

theorem region_bounds (t : FwType) (offset : Nat) :
    maxSize t.start < offset ∨ (t.start + offset) % 2 ^ 32 = t.start + offset ∧
      t.start + offset + (maxSize t.start - offset) < flashFinish := by
  obtain ⟨-, -, hupper⟩ := start_bounds t
  by_cases hoffset : maxSize t.start < offset
  · exact .inl hoffset
  · have hend : t.start + offset + (maxSize t.start - offset) < flashFinish := by omega
    refine .inr ⟨Nat.mod_eq_of_lt ?_, hend⟩
    simp only [flashFinish] at hend
    omega

theorem readsIn_fwHeaderCheckRegion (unit : CrcUnit) (t : FwType) {fw : FwInfo}
    (haddr : fw.addr = t.start) :
    ReadsIn InFlash (FwReads.fwHeaderCheckRegion unit fw (maxSize t.start)) m := by
  obtain ⟨hword, hlower, hupper⟩ := start_bounds t
  have hheader : t.start + headerOffset + headerSize ≤ flashFinish := by cases t <;> decide
  have hsizeWord : ReadsIn InFlash (FwReads.readWord (t.start + headerOffset)) m :=
    readsIn_readWord (by omega) (by simp only [headerSize] at hheader; omega)
  have hcrcWord : ReadsIn InFlash (FwReads.readWord (t.start + headerOffset + 4)) m :=
    readsIn_readWord (by omega) (by simp only [headerSize] at hheader; omega)
  have hoffsetWord : ReadsIn InFlash (FwReads.readWord (t.start + headerOffset + 8)) m :=
    readsIn_readWord (by omega) (by simp only [headerSize] at hheader; omega)
  rw [FwReads.fwHeaderCheckRegion, haddr]
  refine .bind hsizeWord ?_
  rw [FwReads.value_readWord]
  refine .ite (fun _ => readsIn_pure _) fun hunlocked => ?_
  obtain ⟨hrange, hsize⟩ : flashCheckRange t.start (readWord m (t.start + headerOffset)) =
      false ∧ headerOffset + headerSize < readWord m (t.start + headerOffset) := by
    by_cases hsize : readWord m (t.start + headerOffset) ≤ headerOffset + headerSize
    · simp [hsize] at hunlocked
    · rcases hrange : flashCheckRange t.start (readWord m (t.start + headerOffset)) with _ | _
      · exact ⟨rfl, by omega⟩
      · simp [hsize, hrange] at hunlocked
  have hend : t.start + readWord m (t.start + headerOffset) ≤ flashFinish := by
    rw [flashCheckRange_eq_false_iff] at hrange
    simp only [flashLen, flashFinish] at *
    omega
  refine .bind (readsIn_regionCrc hword hlower hsize hend) (.bind hcrcWord
    (.ite (fun _ => readsIn_pure _) fun _ => .bind hoffsetWord ?_))
  rw [FwReads.value_readWord]
  generalize readWord m (t.start + headerOffset + 8) = offset
  rcases region_bounds t offset with hbehind | ⟨hstart, hfields⟩
  · simp only [if_pos hbehind]
    refine .bind (readsIn_fwFieldsGetCount (.inl rfl)) (.ite (fun _ => readsIn_pure _)
      fun hcount => absurd ?_ hcount)
    rw [FwReads.value_fwFieldsGetCount]
    exact fwFieldsGetCount_zero m _
  · have hsub : (if maxSize t.start < offset then 0 else maxSize t.start - offset) =
        maxSize t.start - offset := by
      split_ifs <;> omega
    simp only [hsub, hstart]
    refine .bind (readsIn_fwFieldsGetCount (.inr hfields)) (.ite (fun _ => readsIn_pure _)
      fun hcount => ?_)
    rw [FwReads.value_fwFieldsGetCount] at hcount
    have hfieldsRange : flashCheckRange (t.start + offset) (maxSize t.start - offset) =
        false := by
      rw [flashCheckRange_eq_false_iff]
      simp only [flashLen, flashStart, flashFinish] at *
      omega
    obtain ⟨fs, hfs⟩ := (fwFieldsGetCount_pos_iff hfieldsRange).mp (Int.not_le.mp hcount)
    obtain ⟨e, he⟩ := exists_tableEnd hfs (by omega) hfields
    exact checkFields_readsIn he _ _

theorem RegionOk_tableEnd {unit : CrcUnit} {t : FwType} {fs : Fields}
    (h : RegionOk unit m t.start fs) :
    (t.start + fieldsAddrOffset m t.start) % 2 ^ 32 =
        t.start + fieldsAddrOffset m t.start ∧
      fieldsAddrOffset m t.start ≤ maxSize t.start ∧
      flashCheckRange (t.start + fieldsAddrOffset m t.start)
        (maxSize t.start - fieldsAddrOffset m t.start) = false ∧
      ∃ e, TableEnd m (t.start + fieldsAddrOffset m t.start) e := by
  have hlower := h.lower
  have hfits := h.table.fits
  have hpos : 0 < (tableBytes (strings fs)).length := by simp [tableBytes]
  rcases region_bounds t (fieldsAddrOffset m t.start) with hbehind | ⟨hstart, hend⟩
  · omega
  · refine ⟨hstart, by omega, ?_, exists_tableEnd h.table (by omega) hend⟩
    rw [flashCheckRange_eq_false_iff]
    simp only [flashLen, flashStart, flashFinish] at *
    omega

theorem product_strings {unit : CrcUnit} {t : FwType} {fw : FwInfo}
    (haddr : fw.addr = t.start)
    (hlocked : (fwHeaderCheckRegion unit m fw (maxSize t.start)).locked = .none) :
    let r := fwHeaderCheckRegion unit m fw (maxSize t.start)
    IsFlashString m r.fieldProductPtr ∧ IsFlashString m r.fieldProductNamePtr := by
  rw [← haddr] at hlocked ⊢
  obtain ⟨fs, hfs⟩ := (fwHeaderCheckRegion_locked_iff unit m fw haddr).mp hlocked
  obtain ⟨hrecorded, -⟩ := fwHeaderCheckRegion_of_regionOk unit m fw haddr hfs
  obtain ⟨prod, hprod⟩ := Option.isSome_iff_exists.mp hfs.prod
  obtain ⟨name, hname⟩ := Option.isSome_iff_exists.mp hfs.prodName
  exact ⟨⟨prod, (hrecorded.prod prod hprod).2⟩, name, (hrecorded.prodName name hname).2⟩

/-! ## The check of all images -/

theorem checkProd_unlocked {preldr fw : FwInfo}
    (h : (checkProd m preldr fw).locked = .none) : checkProd m preldr fw = fw := by
  rw [checkProd] at h ⊢
  split_ifs at h ⊢
  rfl

theorem checkProdName_unlocked {name : Nat} {preldr fw : FwInfo}
    (h : (checkProdName m name (checkProd m preldr fw)).locked = .none) :
    checkProdName m name (checkProd m preldr fw) = fw := by
  rw [checkProdName] at h ⊢
  split_ifs at h ⊢
  exact checkProd_unlocked h

theorem get_of_unlocked {unit : CrcUnit} {lits : NameLiterals} {infos : FwInfos}
    {t : FwType} (h : ((fwHeaderCheckAll unit lits m infos).get t).locked = .none) :
    (fwHeaderCheckAll unit lits m infos).get t =
      fwHeaderCheckRegion unit m { infos.get t with addr := t.start } (maxSize t.start) := by
  unfold fwHeaderCheckAll at h ⊢
  cases t with
  | preldr => simp only [FwInfos.get]
  | ldr =>
      simp only [FwInfos.get] at h ⊢
      exact checkProdName_unlocked h
  | app =>
      simp only [FwInfos.get] at h ⊢
      exact checkProdName_unlocked h

theorem readsIn_checkProd {preldr fw : FwInfo}
    (hpreldr : preldr.locked = .none → IsFlashString m preldr.fieldProductPtr)
    (hfw : fw.locked = .none → IsFlashString m fw.fieldProductPtr) :
    ReadsIn InFlash (FwReads.checkProd preldr fw) m :=
  .ite (fun hboth => .bind (readsIn_strCompareEqualSafeTwoArg (hpreldr hboth.1)
    (hfw hboth.2)) (readsIn_pure _)) fun _ => readsIn_pure _

theorem readsIn_checkProdName {name : Nat} {fw : FwInfo} (hname : IsFlashString m name)
    (hfw : fw.locked = .none → IsFlashString m fw.fieldProductNamePtr) :
    ReadsIn InFlash (FwReads.checkProdName name fw) m :=
  .ite (fun hunlocked => .bind (readsIn_strCompareEqualSafeTwoArg hname (hfw hunlocked))
    (readsIn_pure _)) fun _ => readsIn_pure _

theorem readsIn_fwHeaderCheckAll (unit : CrcUnit) {lits : NameLiterals}
    (hldr : IsFlashString m lits.ldrName) (happ : IsFlashString m lits.appName)
    (infos : FwInfos) : ReadsIn InFlash (FwReads.fwHeaderCheckAll unit lits infos) m := by
  have hregion (t : FwType) :=
    @readsIn_fwHeaderCheckRegion m unit t { infos.get t with addr := t.start } rfl
  have hstrings (t : FwType) :=
    @product_strings m unit t { infos.get t with addr := t.start } rfl
  refine .bind (hregion .preldr) (.bind (hregion .ldr) (.bind (hregion .app) ?_))
  simp only [FwReads.value_fwHeaderCheckRegion]
  refine .bind (readsIn_checkProd (fun h => (hstrings .preldr h).1)
    fun h => (hstrings .ldr h).1) (.bind (readsIn_checkProd
    (fun h => (hstrings .preldr h).1) fun h => (hstrings .app h).1) (.bind
    (readsIn_checkProdName hldr fun h => ?_) (.bind (readsIn_checkProdName happ fun h => ?_)
    (readsIn_pure _))))
  · rw [FwReads.value_checkProd] at h ⊢
    have hsame := checkProd_unlocked h
    rw [hsame] at h ⊢
    exact (hstrings .ldr h).2
  · rw [FwReads.value_checkProd] at h ⊢
    have hsame := checkProd_unlocked h
    rw [hsame] at h ⊢
    exact (hstrings .app h).2

/-! ## The helpers -/

/-- The helpers search an image that stays unlocked up to the end of its table. -/
theorem helperRegion_of_unlocked {unit : CrcUnit} {lits : NameLiterals} {infos : FwInfos}
    {t : FwType} {fw : FwInfo} (hfw : fw = (fwHeaderCheckAll unit lits m infos).get t)
    (hlocked : fw.locked = .none) :
    let region := FwReads.helperRegion fw (readWord m (fw.addr + headerOffset + 8))
    ReadsIn InFlash (FwReads.readWord (fw.addr + headerOffset + 8)) m ∧
      flashCheckRange region.1 region.2 = false ∧ ∃ e, TableEnd m region.1 e := by
  obtain ⟨-, hlower, -⟩ := start_bounds t
  have hheader : t.start + headerOffset + headerSize ≤ flashFinish := by cases t <;> decide
  have hget : fw = fwHeaderCheckRegion unit m { infos.get t with addr := t.start }
      (maxSize t.start) := hfw.trans (get_of_unlocked (hfw ▸ hlocked))
  obtain ⟨fs, hfs⟩ := (@fwHeaderCheckRegion_locked_iff unit m
    { infos.get t with addr := t.start } t rfl).mp (hget ▸ hlocked)
  have haddr : fw.addr = t.start := by
    rw [hget]
    exact congrArg FwInfo.addr (@fwHeaderCheckRegion_eq unit m
      { infos.get t with addr := t.start } t rfl fs hfs)
  obtain ⟨hstart, hoffset, hrange, hend⟩ := RegionOk_tableEnd hfs
  rw [haddr]
  refine ⟨readsIn_readWord (by omega) (by simp only [headerSize] at hheader; omega), ?_⟩
  have hregion : FwReads.helperRegion fw (readWord m (t.start + headerOffset + 8)) =
      (t.start + fieldsAddrOffset m t.start,
        maxSize t.start - fieldsAddrOffset m t.start) := by
    change FwReads.helperRegion fw (fieldsAddrOffset m t.start) = _
    rw [FwReads.helperRegion, haddr, hstart, if_neg (by omega)]
  simp only [hregion]
  exact ⟨hrange, hend⟩

section

variable {unit : CrcUnit} {lits : NameLiterals} {infos : FwInfos} {t : FwType} {fw : FwInfo}
  (hfw : fw = (fwHeaderCheckAll unit lits m infos).get t)

include hfw

theorem fwFieldsFindByKeyHelper_yields (key : List UInt8) :
    Yields InFlash (NullOrString m) (FwReads.fwFieldsFindByKeyHelper fw key) m := by
  refine .ite (fun _ => .pure (.inl rfl)) fun hlocked => .ite (fun _ => .pure (.inl rfl))
    fun _ => ?_
  obtain ⟨hword, -, e, hend⟩ := helperRegion_of_unlocked hfw (not_not.mp hlocked)
  refine .bind hword ?_
  rw [FwReads.value_readWord]
  exact fwFieldsFindByKey_yields hend key _

theorem fwFieldsFindByIteratorHelper_yields (iterator pKey pValue : Nat) :
    Yields InFlash (FoundStrings m)
      (FwReads.fwFieldsFindByIteratorHelper fw iterator pKey pValue) m := by
  have hnone : FoundStrings m (false, pKey, pValue) := fun hfound => nomatch hfound
  refine .ite (fun _ => .pure hnone) fun hlocked => .ite (fun _ => .pure hnone) fun _ => ?_
  obtain ⟨hword, hrange, e, hend⟩ := helperRegion_of_unlocked hfw (not_not.mp hlocked)
  refine .bind hword ?_
  rw [FwReads.value_readWord]
  exact fwFieldsFindByIterator_yields hend hrange iterator pKey pValue

end

/-- The image check reads only flash, whatever is stored there, and so do the
helpers that search the images after it. -/
theorem fwHeaderCheckAll_inFlash (unit : CrcUnit) (lits : NameLiterals) (m : Mem)
    (infos : FwInfos) (hldr : IsFlashString m lits.ldrName)
    (happ : IsFlashString m lits.appName) :
    ReadsIn InFlash (FwReads.fwHeaderCheckAll unit lits infos) m ∧
      ∀ t, let fw := ((FwReads.fwHeaderCheckAll unit lits infos).value m).get t
        (∀ key, Yields InFlash (NullOrString m) (FwReads.fwFieldsFindByKeyHelper fw key) m) ∧
        ∀ iterator pKey pValue, Yields InFlash (FoundStrings m)
          (FwReads.fwFieldsFindByIteratorHelper fw iterator pKey pValue) m := by
  refine ⟨readsIn_fwHeaderCheckAll unit hldr happ infos, fun t => ?_⟩
  rw [FwReads.value_fwHeaderCheckAll]
  exact ⟨fwFieldsFindByKeyHelper_yields rfl, fwFieldsFindByIteratorHelper_yields rfl⟩

theorem fwHeaderCheckAll_inFlash_sample :
    ReadsIn InFlash (FwReads.fwHeaderCheckAll .stm32 sampleNames {}) sampleFlash ∧
      ∀ t, let fw := ((FwReads.fwHeaderCheckAll .stm32 sampleNames {}).value sampleFlash).get t
        (∀ key, Yields InFlash (NullOrString sampleFlash)
          (FwReads.fwFieldsFindByKeyHelper fw key) sampleFlash) ∧
        ∀ iterator pKey pValue, Yields InFlash (FoundStrings sampleFlash)
          (FwReads.fwFieldsFindByIteratorHelper fw iterator pKey pValue) sampleFlash :=
  fwHeaderCheckAll_inFlash .stm32 sampleNames sampleFlash {}
    ⟨_, sampleFlash_names.ldrName⟩ ⟨_, sampleFlash_names.appName⟩

end

end ShGateway.FwInBounds
