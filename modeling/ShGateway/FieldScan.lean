import ShGateway.FwReads

/-!
The three scanners of the field section agree on what a table is.
-/

namespace ShGateway.FieldScan

open ShGateway.FieldTable
open ShGateway.FwHeader
open ShGateway.FwReads (fwFieldsFindByIterator findIteratorLoop)
open ShGateway.FwVerdict (Fields)
open ShGateway.Lib.NorFlash
open ShGateway.Lib.ReadTrace
open ShGateway.Lib.StringTable
open ShGateway.Platform

/-- Where the key of pair `i` is stored in a table at `start`. -/
def keyAddress (start : Nat) : Fields → Nat → Nat
  | (k, v) :: fs, i + 1 => keyAddress (start + k.length + 1 + v.length + 1) fs i
  | _, _ => start

def valueAddress (start : Nat) (fs : Fields) (i : Nat) : Nat :=
  keyAddress start fs i + (fs[i]?.elim 0 fun f => f.1.length) + 1

/-- What the scanners tell of the table `fs` at the beginning of a region. -/
structure Agree (m : Mem) (start n : Nat) (fs : Fields) : Prop where
  stored : ∀ (i : Nat) f, fs[i]? = some f →
    CStringAt m (keyAddress start fs i) f.1 ∧ CStringAt m (valueAddress start fs i) f.2
  count : fwFieldsGetCount m start n = fs.length
  found : ∀ key, key ≠ [] → ∀ i, fs.findIdx? (fun f => f.1 = key) = some i →
    fwFieldsFindByKey m start key n = valueAddress start fs i
  missing : ∀ key, key ≠ [] → fs.findIdx? (fun f => f.1 = key) = none →
    fwFieldsFindByKey m start key n = 0
  iterated : ∀ i < fs.length, ∀ pKey pValue,
    (fwFieldsFindByIterator start i pKey pValue n).value m =
      (true, keyAddress start fs i, valueAddress start fs i)
  ended : ∀ i, fs.length ≤ i → ∀ pKey pValue,
    ((fwFieldsFindByIterator start i pKey pValue n).value m).1 = false

/-! ## Addresses -/

section

variable {m : Mem} {start : Nat} {k v : List UInt8} {fs : Fields}

theorem fieldAddress_eq (key : List UInt8) : fieldAddress start key fs =
    (fs.findIdx? fun f => f.1 = key).map (valueAddress start fs) := by
  induction fs generalizing start with
  | nil => rfl
  | cons f fs ih =>
      obtain ⟨k, v⟩ := f
      rw [fieldAddress, List.findIdx?_cons]
      rcases eq_or_ne k key with rfl | hne
      · rw [if_pos rfl, if_pos (decide_eq_true rfl)]
        rfl
      · rw [if_neg hne, if_neg (by simpa using hne), ih, Option.map_map]
        rfl

theorem stored_cons (h : readBytes m start (tableBytes (strings ((k, v) :: fs))).length =
    tableBytes (strings ((k, v) :: fs))) :
    CStringAt m start k ∧ CStringAt m (start + k.length + 1) v ∧
      readBytes m (start + k.length + 1 + v.length + 1) (tableBytes (strings fs)).length =
        tableBytes (strings fs) := by
  have hbytes : tableBytes (strings ((k, v) :: fs)) =
      (k ++ [0]) ++ ((v ++ [0]) ++ tableBytes (strings fs)) := by simp
  rw [hbytes] at h
  obtain ⟨hkey, h⟩ := readBytes_append_iff.mp h
  obtain ⟨hvalue, hrest⟩ := readBytes_append_iff.mp h
  simp only [List.length_append, List.length_cons, List.length_nil, Nat.zero_add,
    ← Nat.add_assoc] at hkey hvalue hrest
  exact ⟨hkey, hvalue, hrest⟩

theorem stored_pair (h : readBytes m start (tableBytes (strings fs)).length =
    tableBytes (strings fs)) (i : Nat) (f : List UInt8 × List UInt8) (hf : fs[i]? = some f) :
    CStringAt m (keyAddress start fs i) f.1 ∧ CStringAt m (valueAddress start fs i) f.2 := by
  induction fs generalizing start i with
  | nil => simp at hf
  | cons g fs ih =>
      obtain ⟨k, v⟩ := g
      obtain ⟨hkey, hvalue, hrest⟩ := stored_cons h
      cases i with
      | zero =>
          obtain rfl := Option.some.inj hf
          exact ⟨hkey, hvalue⟩
      | succ i => exact ih hrest i hf

end

/-! ## Iterating -/

section

variable {m : Mem} {start it k i n e : Nat} {captured : Bool}

theorem value_findIteratorLoop_nul (hbyte : m (start + i) = 0) :
    (findIteratorLoop start it (k + 1) i n e captured).value m =
      if i = 0 ∨ 1 ≤ n then (false, 0, 0)
      else (findIteratorLoop start it k (i + 1) 1 (e + 1) true).value m := by
  rw [findIteratorLoop, value_bind, value_readByte, hbyte, value_ite, if_pos rfl, value_ite]
  rcases Nat.eq_zero_or_pos i with rfl | hi
  · rfl
  · rw [if_neg (by omega), value_ite]
    rcases Nat.eq_zero_or_pos n with rfl | hn
    · rw [if_neg (show ¬ 2 ≤ 0 + 1 by omega),
        if_neg (show ¬ (i = 0 ∨ 1 ≤ 0) by omega)]
      rfl
    · rw [if_pos (show 2 ≤ n + 1 by omega), if_pos (.inr hn)]
      rfl

theorem value_findIteratorLoop_skip (hbyte : m (start + i) ≠ 0)
    (hskip : ¬ (captured = true ∧ e % 2 = 0 ∧ e / 2 = it)) :
    (findIteratorLoop start it (k + 1) i n e captured).value m =
      (findIteratorLoop start it k (i + 1) 0 e false).value m := by
  rw [findIteratorLoop, value_bind, value_readByte, value_ite, if_neg hbyte, value_ite,
    if_neg hskip]

theorem value_findIteratorLoop_string {s : List UInt8} (hs : IsString s)
    (hstored : CStringAt m (start + i) s)
    (hskip : ¬ (captured = true ∧ e % 2 = 0 ∧ e / 2 = it)) :
    (findIteratorLoop start it (s.length + 1 + k) i n e captured).value m =
      (findIteratorLoop start it k (i + s.length + 1) 1 (e + 1) true).value m := by
  obtain ⟨b, s, rfl⟩ := List.exists_cons_of_ne_nil hs.ne_nil
  have hb : b ≠ 0 := hs.ne_nul b (by simp)
  have htail : ∀ c ∈ s, c ≠ 0 := fun c hc => hs.ne_nul c (by simp [hc])
  clear hs
  induction s generalizing b i n captured with
  | nil =>
      obtain ⟨hbyte, hnul⟩ := cStringAt_cons.mp hstored
      have hend : m (start + (i + 1)) = 0 := cStringAt_nil.mp hnul
      have hk : [b].length + 1 + k = k + 1 + 1 := by
        rw [List.length_singleton]
        omega
      rw [hk, value_findIteratorLoop_skip (by rw [hbyte]; exact hb) hskip,
        value_findIteratorLoop_nul hend, if_neg (by omega)]
      rfl
  | cons c s ih =>
      obtain ⟨hbyte, hrest⟩ := cStringAt_cons.mp hstored
      have hk : (b :: c :: s).length + 1 + k = ((c :: s).length + 1 + k) + 1 := by
        rw [List.length_cons]
        omega
      have hi : i + (b :: c :: s).length + 1 = i + 1 + (c :: s).length + 1 := by
        rw [List.length_cons]
        omega
      rw [hk, hi, value_findIteratorLoop_skip (by rw [hbyte]; exact hb) hskip]
      exact @ih (i + 1) 0 false (by simp) c hrest (htail c (by simp))
        fun x hx => htail x (by simp [hx])

/-- The search over the pairs stored from `start + i` on, `e` being two for each
pair before them. -/
theorem value_findIteratorLoop_table {fs : Fields} {c : Nat} (hlower : flashStart ≤ start)
    (hupper : start + i + (tableBytes (strings fs)).length ≤ flashFinish)
    (hstrings : ∀ s ∈ strings fs, IsString s)
    (hstored : readBytes m (start + i) (tableBytes (strings fs)).length =
      tableBytes (strings fs))
    (hfirst : fs = [] → i ≠ 0 ∧ c = 1) (he : e / 2 ≤ it) (heven : e % 2 = 0) :
    (findIteratorLoop start it ((tableBytes (strings fs)).length + k) i c e true).value m =
      if it - e / 2 < fs.length then
        (true, keyAddress (start + i) fs (it - e / 2), valueAddress (start + i) fs (it - e / 2))
      else (false, 0, 0) := by
  induction fs generalizing i c e with
  | nil =>
      obtain ⟨hi, rfl⟩ := hfirst rfl
      have hnul : m (start + i) = 0 := (List.cons.inj hstored).1
      have hk : (tableBytes (strings ([] : Fields))).length + k = k + 1 := Nat.add_comm 1 k
      rw [hk, value_findIteratorLoop_nul hnul, if_pos (.inr (Nat.le_refl 1)),
        List.length_nil, if_neg (Nat.not_lt_zero _)]
  | cons f fs ih =>
      obtain ⟨key, v⟩ := f
      obtain ⟨hkey, hvalue, hrest⟩ := stored_cons hstored
      rw [strings_cons] at hstrings hupper ⊢
      have hkeyString := hstrings key (by simp)
      have hvalueString := hstrings v (by simp)
      have hlen : (tableBytes (key :: v :: strings fs)).length =
          key.length + 1 + (v.length + 1 + (tableBytes (strings fs)).length) := by
        rw [tableBytes_cons, tableBytes_cons, List.length_append, List.length_cons,
          List.length_append, List.length_cons]
        omega
      rw [hlen] at hupper ⊢
      rcases Nat.eq_or_lt_of_le he with rfl | hlt
      · -- the pair that is looked for
        obtain ⟨b, s, rfl⟩ := List.exists_cons_of_ne_nil hkeyString.ne_nil
        have hbyte : m (start + i) ≠ 0 := by
          rw [(cStringAt_cons.mp hkey).1]
          exact hkeyString.ne_nul b (by simp)
        have hstring : FlashString m (start + i) (b :: s) :=
          ⟨hkey, hkeyString.ne_nul, by omega, by omega⟩
        have hk : (b :: s).length + 1 + (v.length + 1 + (tableBytes (strings fs)).length) + k =
            ((b :: s).length + (v.length + 1 + (tableBytes (strings fs)).length) + k) + 1 := by
          omega
        rw [hk, findIteratorLoop, value_bind, value_readByte, value_ite, if_neg hbyte, value_ite,
          if_pos ⟨rfl, heven, rfl⟩, value_bind, FwReads.value_strLenSafe,
          strLenSafe_toNat hstring, Nat.sub_self, if_pos (by rw [List.length_cons]; omega)]
        rfl
      · have hk : key.length + 1 + (v.length + 1 + (tableBytes (strings fs)).length) + k =
            key.length + 1 + (v.length + 1 + ((tableBytes (strings fs)).length + k)) := by
          omega
        have hadd : start + (i + key.length + 1 + v.length + 1) =
            start + i + key.length + 1 + v.length + 1 := by omega
        have hnext : it - e / 2 = it - (e + 1 + 1) / 2 + 1 := by omega
        have hvalue' : CStringAt m (start + (i + key.length + 1)) v := by
          rw [← Nat.add_assoc, ← Nat.add_assoc]
          exact hvalue
        rw [hk, value_findIteratorLoop_string hkeyString hkey fun h => by omega,
          value_findIteratorLoop_string hvalueString hvalue' fun h => by omega,
          ih (by omega) (fun s hs => hstrings s (by simp [hs])) (by rw [hadd]; exact hrest)
            (fun _ => ⟨by omega, rfl⟩) (by omega) (by omega), hadd, hnext, List.length_cons]
        simp only [Nat.add_lt_add_iff_right]
        rfl

end

/-! ## Agreement -/

section

variable {m : Mem} {start n : Nat} {fs : Fields}

theorem value_fwFieldsFindByIterator (h : IsFieldTable m start n fs)
    (hlower : flashStart ≤ start) (hupper : start + n ≤ flashFinish) (i pKey pValue : Nat) :
    (fwFieldsFindByIterator start i pKey pValue n).value m =
      if i < fs.length then (true, keyAddress start fs i, valueAddress start fs i)
      else (false, 0, 0) := by
  have hrange : flashCheckRange start n = false := by
    rw [flashCheckRange_eq_false_iff]
    simp only [flashLen, flashStart, flashFinish] at *
    omega
  obtain ⟨k, hk⟩ := Nat.exists_eq_add_of_le h.fits
  have hloop := @value_findIteratorLoop_table m start i k 0 0 fs 0 hlower (by omega)
    h.isString h.stored (fun hnil => absurd hnil h.ne_nil) (Nat.zero_le _) rfl
  rw [fwFieldsFindByIterator, value_ite, hrange, if_neg Bool.false_ne_true, hk]
  exact hloop

theorem agree_of_isFieldTable (h : IsFieldTable m start n fs) (hlower : flashStart ≤ start)
    (hupper : start + n ≤ flashFinish) : Agree m start n fs where
  stored := stored_pair h.stored
  count := by
    have hrange : flashCheckRange start n = false := by
      rw [flashCheckRange_eq_false_iff]
      simp only [flashLen, flashStart, flashFinish] at *
      omega
    rw [fwFieldsGetCount, hrange, if_neg Bool.false_ne_true]
    exact countLoop_of_isFieldTable h
  found := by
    intro key _ i hi
    rw [fwFieldsFindByKey_eq h hlower hupper, fieldAddress_eq, hi]
    rfl
  missing := by
    intro key _ hi
    rw [fwFieldsFindByKey_eq h hlower hupper, fieldAddress_eq, hi]
    rfl
  iterated := by
    intro i hi pKey pValue
    rw [value_fwFieldsFindByIterator h hlower hupper, if_pos hi]
  ended := by
    intro i hi pKey pValue
    rw [value_fwFieldsFindByIterator h hlower hupper, if_neg (Nat.not_lt.mpr hi)]

end

/-- On a region in flash the scanners agree on the table at its beginning, and a
positive count means that there is one. -/
theorem scanners_agree {m : Mem} {start n : Nat} (hlower : flashStart ≤ start)
    (hupper : start + n ≤ flashFinish) :
    (∀ fs, IsFieldTable m start n fs → Agree m start n fs) ∧
      ∀ count : Nat, 0 < count → fwFieldsGetCount m start n = count →
        ∃ fs, fs.length = count ∧ IsFieldTable m start n fs := by
  refine ⟨fun fs h => agree_of_isFieldTable h hlower hupper, ?_⟩
  intro count hpos hcount
  have hrange : flashCheckRange start n = false := by
    rw [flashCheckRange_eq_false_iff]
    simp only [flashLen, flashStart, flashFinish] at *
    omega
  obtain ⟨fs, hfs⟩ := (@fwFieldsGetCount_pos_iff m start n hrange).mp (by omega)
  have hagree := (agree_of_isFieldTable hfs hlower hupper).count
  exact ⟨fs, by omega, hfs⟩

/-- The last five bytes of flash hold the table `k = v`. -/
def lastTable : Mem := fun a =>
  if a = 0x0807FFFB then 107 else if a = 0x0807FFFD then 118 else 0

theorem scanners_agree_lastTable :
    Agree lastTable 0x0807FFFB 5 [([107], [118])] ∧
      ∃ fs : Fields, fs.length = 1 ∧ IsFieldTable lastTable 0x0807FFFB 5 fs := by
  have hall := @scanners_agree lastTable 0x0807FFFB 5 (by decide) (by decide)
  refine ⟨hall.1 _ ⟨by simp, ?_, by decide, by decide⟩, hall.2 1 (by decide) (by decide)⟩
  intro s hs
  rcases List.mem_cons.mp hs with rfl | hs
  · exact ⟨by simp, by simp⟩
  · obtain rfl := List.mem_singleton.mp hs
    exact ⟨by simp, by simp⟩

end ShGateway.FieldScan
