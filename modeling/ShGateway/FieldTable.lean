import ShGateway.FwHeader
import ShGateway.Lib.StringTable

/-!
The scanners of `fw_header.c` against the documented field section: keys and
values in turn, each with its terminator, and one more terminator.
-/

namespace ShGateway.FieldTable

open ShGateway.FwHeader
open ShGateway.Lib.NorFlash
open ShGateway.Lib.StringTable
open ShGateway.Platform

/-! ## Strings -/

/-- A string that lies in flash with its terminator. -/
structure FlashString (m : Mem) (a : Nat) (s : List UInt8) : Prop where
  stored : CStringAt m a s
  ne_nul : ∀ b ∈ s, b ≠ 0
  lower : flashStart ≤ a
  upper : a + s.length < flashFinish

theorem strLenLoop_eq {m : Mem} {a : Nat} {s : List UInt8} (h : FlashString m a s)
    {i : Nat} (hi : i ≤ s.length) : strLenLoop m a i = s.length := by
  obtain ⟨hbytes, hend⟩ := h.stored.getElem
  have hlower := h.lower
  have hupper := h.upper
  simp only [flashStart, flashFinish] at hlower hupper
  induction hn : s.length - i generalizing i with
  | zero =>
      obtain rfl : i = s.length := by omega
      rw [strLenLoop, Nat.mod_eq_of_lt (by omega), if_pos hend]
  | succ n ih =>
      have hbyte : m (a + i) ≠ 0 := by
        rw [hbytes i (by omega)]
        exact h.ne_nul _ (List.getElem_mem _)
      have hrange : ¬ flashCheckRange (a + i) 0 = true := by
        rw [Bool.not_eq_true, flashCheckRange_eq_false_iff]
        simp only [flashLen, flashStart, flashFinish]
        omega
      rw [strLenLoop, Nat.mod_eq_of_lt (by omega), if_neg hbyte, if_neg hrange,
        ih (by omega) (by omega)]

theorem strLenSafe_eq {m : Mem} {a : Nat} {s : List UInt8} (h : FlashString m a s) :
    strLenSafe m a = s.length := by
  have hlower := h.lower
  have hupper := h.upper
  have hrange : ¬ flashCheckRange a 1 = true := by
    rw [Bool.not_eq_true, flashCheckRange_eq_false_iff]
    simp only [flashLen, flashStart, flashFinish] at *
    omega
  rw [strLenSafe, if_neg hrange]
  exact strLenLoop_eq h (Nat.zero_le _)

theorem strLenSafe_toNat {m : Mem} {a : Nat} {s : List UInt8} (h : FlashString m a s) :
    (strLenSafe m a).toNat = s.length := by
  rw [strLenSafe_eq h, Int.toNat_natCast]

theorem strCompareEqualSafeFirstArg_iff {m : Mem} {a : Nat} {s key : List UInt8}
    (h : FlashString m a s) (hs : s ≠ []) :
    strCompareEqualSafeFirstArg m a key = true ↔ s = key := by
  have hpos := List.length_pos_iff.mpr hs
  have hread := h.stored.readBytes
  simp only [strCompareEqualSafeFirstArg, strLenSafe_eq h]
  split_ifs with hlen
  · simp only [false_iff]
    rintro rfl
    omega
  · rw [Int.toNat_natCast, hread, decide_eq_true_eq]

theorem strCompareEqualSafeTwoArg_iff {m : Mem} {a b : Nat} {s t : List UInt8}
    (ha : FlashString m a s) (hb : FlashString m b t) (hs : s ≠ []) :
    strCompareEqualSafeTwoArg m a b = true ↔ s = t := by
  have hpos := List.length_pos_iff.mpr hs
  have hread := ha.stored.readBytes
  simp only [strCompareEqualSafeTwoArg, strLenSafe_eq ha, strLenSafe_eq hb]
  split_ifs with hlen
  · simp only [false_iff]
    rintro rfl
    omega
  · have hsame : s.length = t.length := by omega
    rw [Int.toNat_natCast, hread, hsame, hb.stored.readBytes, decide_eq_true_eq]

/-! ## Counting -/

theorem countLoop_string {s : List UInt8} (hs : IsString s) (bytes : List UInt8)
    (i n e : Nat) :
    countLoop (s ++ 0 :: bytes) i n e = countLoop bytes (i + s.length + 1) 1 (e + 1) := by
  obtain ⟨b, s, rfl⟩ := List.exists_cons_of_ne_nil hs.ne_nil
  have hb : b ≠ 0 := hs.ne_nul b (by simp)
  have htail : ∀ c ∈ s, c ≠ 0 := fun c hc => hs.ne_nul c (by simp [hc])
  clear hs
  induction s generalizing b i n with
  | nil =>
      rw [List.cons_append, List.nil_append, countLoop, if_neg hb, countLoop, if_pos rfl,
        if_neg (by omega)]
      simp
  | cons c s ih =>
      rw [List.cons_append, countLoop, if_neg hb,
        ih (i + 1) 0 c (htail c (by simp)) fun x hx => htail x (by simp [hx])]
      simp only [List.length_cons]
      congr 1
      omega

theorem countLoop_table {ss : List (List UInt8)} (hs : ∀ s ∈ ss, IsString s)
    (rest : List UInt8) {i : Nat} (e : Nat) (hi : i ≠ 0) :
    countLoop (tableBytes ss ++ rest) i 1 e =
      if (e + ss.length) % 2 = 1 then -3 else (((e + ss.length) / 2 : Nat) : Int) := by
  induction ss generalizing i e with
  | nil =>
      rw [tableBytes_nil, List.singleton_append, countLoop, if_pos rfl, if_neg hi]
      rfl
  | cons s ss ih =>
      rw [tableBytes_cons, List.append_assoc, List.cons_append,
        countLoop_string (hs s (by simp)), ih (fun t ht => hs t (by simp [ht])) (e + 1)
          (by omega), List.length_cons, Nat.add_assoc e 1, Nat.add_comm 1]

/-- A positive count means that what was scanned is a table, up to the part of
the current string that was already read. -/
theorem table_of_countLoop {bytes : List UInt8} {i n e : Nat} (hi : i ≠ 0)
    (hpos : 0 < countLoop bytes i n e) :
    (n = 1 → ∃ ss rest, bytes = tableBytes ss ++ rest ∧ (∀ s ∈ ss, IsString s) ∧
      (e + ss.length) % 2 = 0) ∧
    (n = 0 → ∃ tail ss rest, bytes = tail ++ 0 :: (tableBytes ss ++ rest) ∧
      (∀ b ∈ tail, b ≠ 0) ∧ (∀ s ∈ ss, IsString s) ∧ (e + 1 + ss.length) % 2 = 0) := by
  induction bytes generalizing i n e with
  | nil => simp [countLoop] at hpos
  | cons b bytes ih =>
      constructor
      · rintro rfl
        by_cases hb : b = 0
        · subst hb
          refine ⟨[], bytes, rfl, by simp, ?_⟩
          by_contra hodd
          rw [countLoop, if_pos rfl, if_neg hi] at hpos
          simp only [Nat.reduceAdd, Nat.reduceEqDiff, if_false, Nat.le_refl, if_true]
            at hpos
          rw [if_pos (by simp only [List.length_nil] at hodd; omega)] at hpos
          omega
        · rw [countLoop, if_neg hb] at hpos
          obtain ⟨tail, ss, rest, rfl, htail, hss, heven⟩ := (ih (by omega) hpos).2 rfl
          refine ⟨(b :: tail) :: ss, rest, by simp, ?_, by
            simp only [List.length_cons]
            omega⟩
          intro s hs
          rcases List.mem_cons.mp hs with rfl | hs
          · exact ⟨by simp, by simpa using ⟨hb, htail⟩⟩
          · exact hss s hs
      · rintro rfl
        by_cases hb : b = 0
        · subst hb
          rw [countLoop, if_pos rfl, if_neg hi] at hpos
          simp only [Nat.zero_add, if_true] at hpos
          rw [if_neg (by omega)] at hpos
          obtain ⟨ss, rest, rfl, hss, heven⟩ := (ih (by omega) hpos).1 rfl
          exact ⟨[], ss, rest, rfl, by simp, hss, heven⟩
        · rw [countLoop, if_neg hb] at hpos
          obtain ⟨tail, ss, rest, rfl, htail, hss, heven⟩ := (ih (by omega) hpos).2 rfl
          exact ⟨b :: tail, ss, rest, rfl, by simpa using ⟨hb, htail⟩, hss, heven⟩

/-! ## Tables in memory -/

/-- The region of `n` bytes at `start` begins with the field table of `fs`. -/
structure IsFieldTable (m : Mem) (start n : Nat)
    (fs : List (List UInt8 × List UInt8)) : Prop where
  ne_nil : fs ≠ []
  isString : ∀ s ∈ strings fs, IsString s
  stored : readBytes m start (tableBytes (strings fs)).length = tableBytes (strings fs)
  fits : (tableBytes (strings fs)).length ≤ n

theorem IsFieldTable.region {m : Mem} {start n : Nat}
    {fs : List (List UInt8 × List UInt8)} (h : IsFieldTable m start n fs) :
    ∃ rest, readBytes m start n = tableBytes (strings fs) ++ rest := by
  obtain ⟨k, hk⟩ := Nat.exists_eq_add_of_le h.fits
  refine ⟨readBytes m (start + (tableBytes (strings fs)).length) k, ?_⟩
  rw [hk, readBytes_add, h.stored]

theorem IsFieldTable.unique {m : Mem} {start n : Nat}
    {fs gs : List (List UInt8 × List UInt8)} (hf : IsFieldTable m start n fs)
    (hg : IsFieldTable m start n gs) : fs = gs := by
  obtain ⟨xs, hxs⟩ := hf.region
  obtain ⟨ys, hys⟩ := hg.region
  exact strings_injective (tableBytes_inj hf.isString hg.isString (hxs.symm.trans hys))

theorem countLoop_of_isFieldTable {m : Mem} {start n : Nat}
    {fs : List (List UInt8 × List UInt8)} (h : IsFieldTable m start n fs) :
    countLoop (readBytes m start n) 0 0 0 = fs.length := by
  obtain ⟨rest, hregion⟩ := h.region
  obtain ⟨⟨k, v⟩, gs, rfl⟩ := List.exists_cons_of_ne_nil h.ne_nil
  have hstrings := h.isString
  rw [strings_cons] at hstrings
  have hlen := length_strings gs
  rw [hregion, strings_cons, tableBytes_cons, List.append_assoc, List.cons_append,
    countLoop_string (hstrings k (by simp)),
    countLoop_table (fun s hs => hstrings s (by simp only [List.mem_cons] at hs ⊢; tauto))
      rest 1 (by omega), List.length_cons, List.length_cons, hlen, if_neg (by omega)]
  omega

/-- A positive count is the number of pairs of a table. -/
theorem fwFieldsGetCount_pos_iff {m : Mem} {start n : Nat}
    (hrange : flashCheckRange start n = false) :
    0 < fwFieldsGetCount m start n ↔ ∃ fs, IsFieldTable m start n fs := by
  rw [fwFieldsGetCount, hrange]
  simp only [Bool.false_eq_true, if_false]
  constructor
  · intro hpos
    rcases hbytes : readBytes m start n with _ | ⟨b, bytes⟩
    · rw [hbytes] at hpos
      simp [countLoop] at hpos
    · rw [hbytes] at hpos
      by_cases hb : b = 0
      · rw [countLoop, if_pos hb, if_pos rfl] at hpos
        omega
      · rw [countLoop, if_neg hb] at hpos
        obtain ⟨tail, ss, rest, rfl, htail, hss, heven⟩ :=
          (table_of_countLoop (by omega) hpos).2 rfl
        obtain ⟨fs, hfs⟩ : ∃ fs, strings fs = (b :: tail) :: ss := exists_strings_eq (by
          simp only [List.length_cons]
          omega)
        have hregion : readBytes m start n = tableBytes (strings fs) ++ rest := by
          rw [hbytes, hfs, tableBytes_cons]
          simp
        have hlen := congrArg List.length hregion
        rw [readBytes_length, List.length_append] at hlen
        refine ⟨fs, ?_, ?_, ?_, by omega⟩
        · rintro rfl
          simp at hfs
        · rw [hfs]
          intro s hs
          rcases List.mem_cons.mp hs with rfl | hs
          · exact ⟨by simp, by simpa using ⟨hb, htail⟩⟩
          · exact hss s hs
        · rw [hlen, readBytes_add] at hregion
          exact (List.append_inj hregion (by simp)).1
  · rintro ⟨fs, h⟩
    have hpos := List.length_pos_iff.mpr h.ne_nil
    rw [countLoop_of_isFieldTable h]
    omega

/-! ## Finding a key -/

/-- The address of the value of the first pair with a key, for pairs stored
from `start` on. -/
def fieldAddress (start : Nat) (key : List UInt8) :
    List (List UInt8 × List UInt8) → Option Nat
  | [] => none
  | (k, v) :: fs =>
      if k = key then some (start + k.length + 1)
      else fieldAddress (start + k.length + 1 + v.length + 1) key fs

theorem findKeyLoop_string {m : Mem} {start : Nat} {key s : List UInt8} (hs : IsString s)
    (bytes : List UInt8) (i n e : Nat) (captured : Bool)
    (hno : captured = true → e % 2 = 0 →
      strCompareEqualSafeFirstArg m (start + i) key = false) :
    findKeyLoop m start key (s ++ 0 :: bytes) i n e captured =
      findKeyLoop m start key bytes (i + s.length + 1) 1 (e + 1) true := by
  obtain ⟨b, s, rfl⟩ := List.exists_cons_of_ne_nil hs.ne_nil
  have hb : b ≠ 0 := hs.ne_nul b (by simp)
  have htail : ∀ c ∈ s, c ≠ 0 := fun c hc => hs.ne_nul c (by simp [hc])
  have hskip : ¬ (captured = true ∧ e % 2 = 0 ∧
      strCompareEqualSafeFirstArg m (start + i) key = true) := by
    rintro ⟨hcaptured, heven, hmatch⟩
    rw [hno hcaptured heven] at hmatch
    exact Bool.false_ne_true hmatch
  clear hs hno
  induction s generalizing b i n captured with
  | nil =>
      rw [List.cons_append, List.nil_append, findKeyLoop, if_neg hb, if_neg hskip,
        findKeyLoop, if_pos rfl, if_neg (by omega)]
      simp
  | cons c s ih =>
      rw [List.cons_append, findKeyLoop, if_neg hb, if_neg hskip,
        ih (i + 1) 0 false c (htail c (by simp)) (fun x hx => htail x (by simp [hx]))
          (by simp)]
      simp only [List.length_cons]
      congr 1
      omega

theorem findKeyLoop_table {m : Mem} {start i e c : Nat} {key : List UInt8}
    {fs : List (List UInt8 × List UInt8)} (rest : List UInt8)
    (hstrings : ∀ s ∈ strings fs, IsString s)
    (hstored : readBytes m (start + i) (tableBytes (strings fs)).length =
      tableBytes (strings fs))
    (hlower : flashStart ≤ start)
    (hupper : start + i + (tableBytes (strings fs)).length ≤ flashFinish)
    (heven : e % 2 = 0) (hfirst : fs = [] → i ≠ 0 ∧ c = 1) :
    findKeyLoop m start key (tableBytes (strings fs) ++ rest) i c e true =
      (fieldAddress (start + i) key fs).getD 0 := by
  induction fs generalizing i e c with
  | nil =>
      obtain ⟨hi, rfl⟩ := hfirst rfl
      simp [findKeyLoop, hi, fieldAddress]
  | cons f fs ih =>
      obtain ⟨k, v⟩ := f
      rw [strings_cons] at hstrings
      have hk := hstrings k (by simp)
      have hv := hstrings v (by simp)
      rw [strings_cons, tableBytes_cons, tableBytes_cons] at hstored hupper ⊢
      have hbytes : k ++ 0 :: (v ++ 0 :: tableBytes (strings fs)) =
          (k ++ [0]) ++ ((v ++ [0]) ++ tableBytes (strings fs)) := by simp
      have hlen := congrArg List.length hbytes
      rw [hbytes] at hstored
      obtain ⟨hstored, hnext⟩ := readBytes_append_iff.mp hstored
      obtain ⟨-, hnext⟩ := readBytes_append_iff.mp hnext
      simp only [List.length_append, List.length_cons, List.length_nil, Nat.zero_add]
        at hstored hnext hlen hupper
      have hstring : FlashString m (start + i) k :=
        ⟨hstored, hk.ne_nul, by omega, by omega⟩
      have hmatch : strCompareEqualSafeFirstArg m (start + i) key = true ↔ k = key :=
        strCompareEqualSafeFirstArg_iff hstring hk.ne_nil
      by_cases hkey : k = key
      · obtain ⟨b, k', hcons⟩ := List.exists_cons_of_ne_nil hk.ne_nil
        have hb : b ≠ 0 := hk.ne_nul b (by simp [hcons])
        rw [fieldAddress, if_pos hkey, Option.getD_some, ← strLenSafe_toNat hstring, hcons]
        simp only [List.cons_append]
        rw [findKeyLoop, if_neg hb, if_pos ⟨rfl, heven, hmatch.mpr hkey⟩]
      · have hno : strCompareEqualSafeFirstArg m (start + i) key = false := by
          rw [← Bool.not_eq_true, hmatch]
          exact hkey
        rw [fieldAddress, if_neg hkey, List.append_assoc, List.cons_append,
          List.append_assoc, List.cons_append,
          findKeyLoop_string hk _ i c e true fun _ _ => hno,
          findKeyLoop_string hv _ _ 1 (e + 1) true fun _ hodd => by omega,
          ih (fun s hs => hstrings s (by simp [hs]))]
        · congr 2
          omega
        · have haddr : start + (i + k.length + 1 + v.length + 1) =
              start + i + (k.length + 1) + (v.length + 1) := by omega
          rw [haddr]
          exact hnext
        · omega
        · omega
        · exact fun _ => ⟨by omega, rfl⟩

theorem fieldAddress_none {start : Nat} {key : List UInt8}
    {fs : List (List UInt8 × List UInt8)} (h : fs.lookup key = none) :
    fieldAddress start key fs = none := by
  induction fs generalizing start with
  | nil => rfl
  | cons f fs ih =>
      obtain ⟨k, v⟩ := f
      by_cases hkey : k = key
      · simp [hkey] at h
      · rw [List.lookup_cons, beq_false_of_ne (Ne.symm hkey)] at h
        rw [fieldAddress, if_neg hkey, ih h]

theorem fieldAddress_some {m : Mem} {start : Nat} {key v : List UInt8}
    {fs : List (List UInt8 × List UInt8)} (hstrings : ∀ s ∈ strings fs, IsString s)
    (hstored : readBytes m start (tableBytes (strings fs)).length = tableBytes (strings fs))
    (hlower : flashStart ≤ start)
    (hupper : start + (tableBytes (strings fs)).length ≤ flashFinish)
    (h : fs.lookup key = some v) :
    v ≠ [] ∧ ∃ a, fieldAddress start key fs = some a ∧ FlashString m a v := by
  induction fs generalizing start with
  | nil => simp at h
  | cons f fs ih =>
      obtain ⟨k, w⟩ := f
      rw [strings_cons] at hstrings
      have hw := hstrings w (by simp)
      rw [strings_cons, tableBytes_cons, tableBytes_cons] at hstored hupper
      have hbytes : k ++ 0 :: (w ++ 0 :: tableBytes (strings fs)) =
          (k ++ [0]) ++ ((w ++ [0]) ++ tableBytes (strings fs)) := by simp
      have hlen := congrArg List.length hbytes
      rw [hbytes] at hstored
      obtain ⟨-, hstored⟩ := readBytes_append_iff.mp hstored
      obtain ⟨hvalue, hnext⟩ := readBytes_append_iff.mp hstored
      simp only [List.length_append, List.length_cons, List.length_nil, Nat.zero_add,
        ← Nat.add_assoc] at hvalue hnext hlen hupper
      by_cases hkey : k = key
      · rw [List.lookup_cons, beq_iff_eq.mpr hkey.symm] at h
        obtain rfl := Option.some.inj h
        refine ⟨hw.ne_nil, _, by rw [fieldAddress, if_pos hkey], hvalue, hw.ne_nul, ?_, ?_⟩
        · omega
        · omega
      · rw [List.lookup_cons, beq_false_of_ne (Ne.symm hkey)] at h
        rw [fieldAddress, if_neg hkey]
        exact ih (fun s hs => hstrings s (by simp [hs])) hnext (by omega) (by omega) h

theorem fieldAddress_within {start a : Nat} {key : List UInt8}
    {fs : List (List UInt8 × List UInt8)} (h : fieldAddress start key fs = some a) :
    ∃ v, fs.lookup key = some v ∧ start ≤ a ∧
      a + v.length < start + (tableBytes (strings fs)).length := by
  induction fs generalizing start with
  | nil => cases h
  | cons f fs ih =>
      obtain ⟨k, v⟩ := f
      rw [strings_cons, tableBytes_cons, tableBytes_cons]
      simp only [List.length_append, List.length_cons]
      by_cases hkey : k = key
      · rw [fieldAddress, if_pos hkey] at h
        obtain rfl := Option.some.inj h
        refine ⟨v, by rw [List.lookup_cons, beq_iff_eq.mpr hkey.symm], ?_, ?_⟩ <;> omega
      · rw [fieldAddress, if_neg hkey] at h
        obtain ⟨w, hw, hlower, hupper⟩ := ih h
        refine ⟨w, by rw [List.lookup_cons, beq_false_of_ne (Ne.symm hkey), hw], ?_, ?_⟩ <;>
          omega

section

variable {m : Mem} {start n : Nat} {fs : List (List UInt8 × List UInt8)}

theorem fwFieldsFindByKey_eq (h : IsFieldTable m start n fs) (hlower : flashStart ≤ start)
    (hupper : start + n ≤ flashFinish) (key : List UInt8) :
    fwFieldsFindByKey m start key n = (fieldAddress start key fs).getD 0 := by
  obtain ⟨rest, hregion⟩ := h.region
  have hrange : flashCheckRange start n = false := by
    rw [flashCheckRange_eq_false_iff]
    simp only [flashLen, flashStart, flashFinish] at *
    omega
  have hfits := h.fits
  rw [fwFieldsFindByKey, hrange, hregion, if_neg Bool.false_ne_true]
  exact findKeyLoop_table rest h.isString h.stored hlower (by omega) rfl
    fun hnil => absurd hnil h.ne_nil

theorem fwFieldsFindByKey_none (h : IsFieldTable m start n fs)
    (hlower : flashStart ≤ start) (hupper : start + n ≤ flashFinish) {key : List UInt8}
    (hkey : fs.lookup key = none) : fwFieldsFindByKey m start key n = 0 := by
  rw [fwFieldsFindByKey_eq h hlower hupper, fieldAddress_none hkey]
  rfl

theorem fwFieldsFindByKey_some (h : IsFieldTable m start n fs)
    (hlower : flashStart ≤ start) (hupper : start + n ≤ flashFinish) {key v : List UInt8}
    (hkey : fs.lookup key = some v) :
    v ≠ [] ∧ FlashString m (fwFieldsFindByKey m start key n) v := by
  have hfits := h.fits
  obtain ⟨hne, a, haddr, hstring⟩ :=
    fieldAddress_some h.isString h.stored hlower (by omega) hkey
  rw [fwFieldsFindByKey_eq h hlower hupper, haddr]
  exact ⟨hne, hstring⟩

theorem fwFieldsFindByKey_eq_zero_iff (h : IsFieldTable m start n fs)
    (hlower : flashStart ≤ start) (hupper : start + n ≤ flashFinish) {key : List UInt8} :
    fwFieldsFindByKey m start key n = 0 ↔ fs.lookup key = none := by
  rcases hkey : fs.lookup key with _ | v
  · exact iff_of_true (fwFieldsFindByKey_none h hlower hupper hkey) rfl
  · refine iff_of_false (fun hzero => ?_) (by simp)
    have haddr := (fwFieldsFindByKey_some h hlower hupper hkey).2.lower
    rw [hzero] at haddr
    exact absurd haddr (by decide)

end

end ShGateway.FieldTable
