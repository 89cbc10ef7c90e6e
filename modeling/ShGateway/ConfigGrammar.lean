import ShGateway.ConfigParser

/-!
Byte strings that are not a data area of the documented format, by the first
place where they leave it.
-/

namespace ShGateway.ConfigGrammar

open ShGateway.ConfigFormat
open ShGateway.ConfigParser
open ShGateway.ConfigSystem
open ShGateway.Lib.ByteWords

/-- What the format takes for a key. -/
structure IsKey (key : List UInt8) : Prop where
  ne_nul : ∀ b ∈ key, b ≠ 0
  ne_nil : key ≠ []
  short : key.length ≤ 31

/-- A string in which an entry starts that the format does not have: the key does
not end, the length is zero, or the string ends in the middle of the entry. -/
inductive Violation : List UInt8 → ConfigSts → Prop
  | keyLong {key rest : List UInt8} : key.length = 32 → (∀ b ∈ key, b ≠ 0) →
      Violation (key ++ rest) .keyLong
  | lengthZero {key rest : List UInt8} : IsKey key →
      Violation (key ++ 0 :: 0 :: 0 :: rest) .lengthDataZero
  | inKey {key : List UInt8} : IsKey key → Violation key .parserNotFinished
  | inLength {key size : List UInt8} : IsKey key → size.length < 2 →
      Violation (key ++ 0 :: size) .parserNotFinished
  | inValue {key value : List UInt8} {n : Nat} : IsKey key → n < 65536 → value.length < n →
      Violation (key ++ 0 :: le16 n ++ value) .parserNotFinished

/-- Zeros and whole entries up to the first violation. -/
inductive FirstViolation : List UInt8 → ConfigSts → Prop
  | here {area : List UInt8} {sts : ConfigSts} : Violation area sts → FirstViolation area sts
  | pad {area : List UInt8} {sts : ConfigSts} :
      FirstViolation area sts → FirstViolation (0 :: area) sts
  | entry {e : StoredEntry} {area : List UInt8} {sts : ConfigSts} : e.WellFormed →
      FirstViolation area sts → FirstViolation (e.bytes ++ area) sts

/-! ## Every string is one or the other -/

theorem le16_ofLe (lo hi : UInt8) : le16 (ofLe [lo, hi]) = [lo, hi] := by
  have hlo := lo.toNat_lt
  have hdiv : (lo.toNat + 256 * hi.toNat) / 256 = hi.toNat := by omega
  have hlow : UInt8.ofNat (lo.toNat + 256 * hi.toNat) = lo := by
    apply UInt8.toNat_inj.mp
    rw [UInt8.toNat_ofNat']
    omega
  simp only [le16, ofLe, Nat.mul_zero, Nat.add_zero, hdiv, hlow, UInt8.ofNat_toNat]

theorem exists_name (bs : List UInt8) :
    ∃ key rest, bs = key ++ rest ∧ (∀ b ∈ key, b ≠ 0) ∧
      (rest = [] ∨ ∃ rest', rest = 0 :: rest') := by
  induction bs with
  | nil => exact ⟨[], [], rfl, by simp, .inl rfl⟩
  | cons b bs ih =>
      by_cases hb : b = 0
      · exact ⟨[], b :: bs, rfl, by simp, .inr ⟨bs, by rw [hb]⟩⟩
      · obtain ⟨key, rest, rfl, hkey, hstop⟩ := ih
        exact ⟨b :: key, rest, rfl, by simpa [hb] using hkey, hstop⟩

theorem violation_or_entry_tail {key : List UInt8} (hkey : IsKey key) (tail : List UInt8) :
    (∃ sts, Violation (key ++ 0 :: tail) sts) ∨
      ∃ e rest, StoredEntry.WellFormed e ∧ key ++ 0 :: tail = e.bytes ++ rest := by
  rcases tail with _ | ⟨lo, _ | ⟨hi, body⟩⟩
  · exact .inl ⟨_, .inLength hkey (by decide)⟩
  · exact .inl ⟨_, .inLength hkey (Nat.lt_succ_self 1)⟩
  · have hlt : ofLe [lo, hi] < 65536 := (ofLe_lt [lo, hi]).trans_eq (by norm_num)
    have htail : key ++ 0 :: lo :: hi :: body = key ++ 0 :: le16 (ofLe [lo, hi]) ++ body := by
      rw [le16_ofLe]
      simp
    rw [htail]
    rcases Nat.lt_or_ge body.length (ofLe [lo, hi]) with hshort | henough
    · exact .inl ⟨_, .inValue hkey hlt hshort⟩
    · rcases Nat.eq_zero_or_pos (ofLe [lo, hi]) with hzero | hpos
      · rw [hzero]
        exact .inl ⟨.lengthDataZero, by simpa [le16] using @Violation.lengthZero key body hkey⟩
      · refine .inr ⟨⟨key, body.take (ofLe [lo, hi])⟩, body.drop (ofLe [lo, hi]), ?_, ?_⟩
        · refine ⟨hkey.ne_nul, hkey.ne_nil, hkey.short, ?_, ?_⟩
          · rw [ne_eq, List.take_eq_nil_iff, ← List.length_eq_zero_iff]
            omega
          · rw [List.length_take]
            exact lt_of_le_of_lt (Nat.min_le_left _ _) hlt
        · simp only [StoredEntry.bytes, List.length_take, Nat.min_eq_left henough,
            List.append_assoc, List.take_append_drop, List.cons_append, List.nil_append]

/-- A string that does not start with padding starts with an entry or leaves the
format. -/
theorem violation_or_entry {b : UInt8} (hb : b ≠ 0) (bs : List UInt8) :
    (∃ sts, Violation (b :: bs) sts) ∨
      ∃ e rest, StoredEntry.WellFormed e ∧ b :: bs = e.bytes ++ rest := by
  obtain ⟨key, rest, harea, hne_nul, hstop⟩ := exists_name (b :: bs)
  have hne_nil : key ≠ [] := by
    rintro rfl
    rcases hstop with rfl | ⟨rest', rfl⟩
    · simp at harea
    · exact hb (List.cons.inj harea).1
  rw [harea]
  rcases Nat.lt_or_ge 31 key.length with hlong | hshort
  · refine .inl ⟨.keyLong, ?_⟩
    rw [← List.take_append_drop 32 key, List.append_assoc]
    refine .keyLong ?_ fun c hc => hne_nul c (List.mem_of_mem_take hc)
    rw [List.length_take]
    omega
  · have hkey : IsKey key := ⟨hne_nul, hne_nil, hshort⟩
    rcases hstop with rfl | ⟨tail, rfl⟩
    · rw [List.append_nil]
      exact .inl ⟨_, .inKey hkey⟩
    · exact violation_or_entry_tail hkey tail

theorem bytes_ne_nil (e : StoredEntry) : 0 < e.bytes.length := by
  rw [StoredEntry.bytes_length]
  omega

theorem dataArea_or_firstViolation (pos : Nat) (area : List UInt8) :
    (∃ es, DataArea pos area es) ∨ ∃ sts, FirstViolation area sts := by
  induction hn : area.length using Nat.strongRecOn generalizing pos area with
  | ind n ih =>
      subst hn
      rcases area with _ | ⟨b, bs⟩
      · exact .inl ⟨[], .nil pos⟩
      · by_cases hb : b = 0
        · subst hb
          rcases ih bs.length (by simp) (pos + 1) bs rfl with ⟨es, hes⟩ | ⟨sts, hsts⟩
          · exact .inl ⟨es, .pad hes⟩
          · exact .inr ⟨sts, .pad hsts⟩
        · rcases violation_or_entry hb bs with ⟨sts, hsts⟩ | ⟨e, rest, hwf, harea⟩
          · exact .inr ⟨sts, .here hsts⟩
          · have hlen := bytes_ne_nil e
            rw [harea]
            rcases ih rest.length (by rw [harea, List.length_append]; omega)
              (pos + e.bytes.length) rest rfl with ⟨es, hes⟩ | ⟨sts, hsts⟩
            · exact .inl ⟨_, .entry hwf hes⟩
            · exact .inr ⟨sts, .entry hwf hsts⟩

/-! ## The parser at a violation -/

theorem FirstViolation.ne_ok {area : List UInt8} {sts : ConfigSts}
    (h : FirstViolation area sts) : sts ≠ .ok := by
  induction h with
  | here h => cases h <;> decide
  | pad _ ih => exact ih
  | entry _ _ ih => exact ih

theorem parseByte_keyLong {key : List UInt8} {b : UInt8} {pos : Nat} {s : Store}
    (hlen : key.length = 31) (hb : b ≠ 0)
    (hparser : s.parser = { nameBuffer := key, sts := .key }) :
    (parseByte pos b s).1 = .keyLong := by
  simp [parseByte, parseKey, hparser, hlen, configMaxKeySize, hb]

theorem parseData_inValue {name value : List UInt8} {n v pos : Nat} {s : Store}
    (hend : pos + value.length < v + n)
    (hparser : s.parser = {
      nameBuffer := name, lengthData := n, lengthSize := 2, offsetEntryData := v
      sts := .value }) :
    parseData pos value s = (.ok, s) := by
  induction value generalizing pos with
  | nil => rfl
  | cons b value ih =>
      rw [List.length_cons] at hend
      have hmore : v + n ≠ pos + 1 := by omega
      have hbyte : parseByte pos b s = (.ok, s) := by
        simp [parseByte, parseValue, hparser, hmore]
      rw [parseData, andThen_ok hbyte]
      exact ih (by omega)

theorem parseData_name {key : List UInt8} (hkey : IsKey key) (tail : List UInt8) {pos : Nat}
    {s : Store} (hparser : s.parser = {}) :
    parseData pos (key ++ 0 :: tail) s =
      parseData (pos + key.length + 1) tail
        { s with parser := { nameBuffer := key ++ [0], sts := .length } } := by
  rw [parseData_append, andThen_ok (parseData_key [] (by simpa using hparser) hkey.ne_nul
    (by simpa using hkey.short))]
  simp only [List.nil_append, if_neg hkey.ne_nil]
  rw [parseData, andThen_ok (parseByte_terminator hkey.ne_nil rfl)]

theorem finishParse_violation {area : List UInt8} {sts : ConfigSts} (h : Violation area sts)
    {pos : Nat} {s : Store} (hparser : s.parser = {}) :
    (finishParse (parseData pos area s)).1 = sts := by
  cases h with
  | @keyLong key rest hlen hne =>
      obtain ⟨front, b, rfl⟩ : ∃ front b, key = front ++ [b] :=
        ⟨key.dropLast, key.getLast (List.ne_nil_of_length_pos (by omega)),
          (List.dropLast_append_getLast _).symm⟩
      simp only [List.length_append, List.length_singleton] at hlen
      have hfront : front ≠ [] := List.ne_nil_of_length_pos (by omega)
      have hlast := @parseByte_keyLong front b (pos + front.length)
        { s with parser := { nameBuffer := front, sts := .key } } (by omega)
        (hne b (by simp)) rfl
      rw [List.append_assoc, parseData_append, andThen_ok (parseData_key []
        (by simpa using hparser) (fun c hc => hne c (by simp [hc]))
        (by rw [List.nil_append]; omega))]
      simp only [List.nil_append, if_neg hfront, List.singleton_append, parseData, andThen]
      rcases hbyte : parseByte (pos + front.length) b
        { s with parser := { nameBuffer := front, sts := .key } } with ⟨sts, s'⟩
      rw [hbyte] at hlast
      obtain rfl : sts = .keyLong := hlast
      rfl
  | @lengthZero key rest hkey =>
      rw [parseData_name hkey _ hparser, parseData, andThen_ok (parseByte_lengthLow rfl),
        parseData]
      simp [andThen, parseByte, parseLength, finishParse]
  | inKey hkey =>
      rw [parseData_key [] (by simpa using hparser) hkey.ne_nul (by simpa using hkey.short)]
      simp [finishParse, hkey.ne_nil]
  | @inLength key size hkey hsize =>
      rw [parseData_name hkey _ hparser]
      rcases size with _ | ⟨lo, _ | ⟨hi, size⟩⟩
      · simp [parseData, finishParse]
      · rw [parseData, andThen_ok (parseByte_lengthLow rfl)]
        simp [parseData, finishParse]
      · simp at hsize
  | @inValue key value n hkey hn hvalue =>
      rw [List.append_assoc, List.cons_append, parseData_name hkey _ hparser, parseData_append,
        andThen_ok (parseData_length hn (by omega) rfl),
        parseData_inValue (by simp only [le16_length]; omega) rfl]
      simp [finishParse]

theorem finishParse_firstViolation {area : List UInt8} {sts : ConfigSts}
    (h : FirstViolation area sts) {pos : Nat} {s : Store} (hparser : s.parser = {}) :
    (finishParse (parseData pos area s)).1 = sts := by
  induction h generalizing pos s with
  | here h => exact finishParse_violation h hparser
  | pad _ ih =>
      have hbyte : parseByte pos 0 s = (.ok, s) := by
        simp [parseByte, hparser]
      rw [parseData, andThen_ok hbyte]
      exact ih hparser
  | entry hwf _ ih =>
      rw [parseData_append, andThen_ok (parseData_entry hwf hparser)]
      exact ih (acceptEntry_idle _ _)

end ShGateway.ConfigGrammar
