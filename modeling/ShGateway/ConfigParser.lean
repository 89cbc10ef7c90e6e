import ShGateway.ConfigFormat
import ShGateway.ConfigSystem

namespace ShGateway.ConfigParser

open ShGateway.ConfigFormat
open ShGateway.ConfigSystem
open ShGateway.Crc
open ShGateway.Lib.ByteWords
open ShGateway.Lib.NorFlash
open ShGateway.Platform

@[simp] theorem andThen_ok {first second : Store → ConfigSts × Store}
    {s s' : Store} (h : first s = (.ok, s')) :
    andThen first second s = second s' := by
  simp [andThen, h]

theorem andThen_assoc (f g h : Store → ConfigSts × Store) (s : Store) :
    andThen (andThen f g) h s = andThen f (andThen g h) s := by
  simp only [andThen]
  rcases f s with ⟨sts, s'⟩
  cases sts <;> rfl

theorem parseData_append (pos : Nat) (xs ys : List UInt8) (s : Store) :
    parseData pos (xs ++ ys) s =
      andThen (parseData pos xs) (parseData (pos + xs.length) ys) s := by
  induction xs generalizing pos s with
  | nil => simp [parseData, andThen]
  | cons b xs ih =>
      simp only [List.cons_append, parseData, List.length_cons]
      rw [andThen_assoc]
      congr 1
      funext s'
      rw [ih, Nat.add_right_comm, Nat.add_assoc]

/-! ## Frame -/

/-- Rows that differ at most in the contents of their variable and the stored
address. -/
structure SameRow (e f : ConfigEntry) : Prop where
  key : f.key = e.key
  size : f.size = e.size
  null : f.data = none ↔ e.data = none

theorem SameRow.refl (e : ConfigEntry) : SameRow e e := ⟨rfl, rfl, Iff.rfl⟩

theorem SameRow.trans {e f g : ConfigEntry} (h₁ : SameRow e f) (h₂ : SameRow f g) :
    SameRow e g :=
  ⟨h₂.key.trans h₁.key, h₂.size.trans h₁.size, h₂.null.trans h₁.null⟩

theorem sameRows_refl (table : List ConfigEntry) : List.Forall₂ SameRow table table :=
  List.forall₂_same.mpr fun e _ => .refl e

theorem sameRows_trans {xs ys zs : List ConfigEntry} (h₁ : List.Forall₂ SameRow xs ys)
    (h₂ : List.Forall₂ SameRow ys zs) : List.Forall₂ SameRow xs zs := by
  induction h₁ generalizing zs with
  | nil => exact h₂
  | cons hrow _ ih =>
      cases h₂ with
      | cons hrow' h₂ => exact .cons (hrow.trans hrow') (ih h₂)

theorem findEntry_rows {name : List UInt8} {length address : Nat}
    {table table' : List ConfigEntry} (h : findEntry name length address table = some table') :
    List.Forall₂ SameRow table table' := by
  induction table generalizing table' with
  | nil => simp [findEntry] at h
  | cons e table ih =>
      rw [findEntry] at h
      split_ifs at h
      · obtain rfl := Option.some.inj h
        exact .cons ⟨rfl, rfl, Iff.rfl⟩ (sameRows_refl table)
      · obtain ⟨rest, hrest, rfl⟩ := Option.map_eq_some_iff.mp h
        exact .cons (.refl e) (ih hrest)

/-- What the parser leaves alone. -/
structure ParserFrame (s s' : Store) : Prop where
  dev : s'.dev = s.dev
  configValid : s'.configValid = s.configValid
  rows : List.Forall₂ SameRow s.table s'.table

theorem ParserFrame.refl (s : Store) : ParserFrame s s := ⟨rfl, rfl, sameRows_refl _⟩

theorem ParserFrame.trans {s₁ s₂ s₃ : Store} (h₁ : ParserFrame s₁ s₂)
    (h₂ : ParserFrame s₂ s₃) : ParserFrame s₁ s₃ :=
  ⟨h₂.dev.trans h₁.dev, h₂.configValid.trans h₁.configValid,
    sameRows_trans h₁.rows h₂.rows⟩

theorem parserFrame_set (s : Store) (p : ParseStruct) :
    ParserFrame s { s with parser := p } := ⟨rfl, rfl, sameRows_refl _⟩

theorem parseKey_frame (b : UInt8) (s : Store) : ParserFrame s (parseKey b s).2 := by
  simp only [parseKey]
  split_ifs <;> exact parserFrame_set s _

theorem parseLength_frame (pos : Nat) (b : UInt8) (s : Store) :
    ParserFrame s (parseLength pos b s).2 := by
  simp only [parseLength]
  split_ifs <;> exact parserFrame_set s _

theorem parseValue_frame (pos : Nat) (s : Store) :
    ParserFrame s (parseValue pos s).2 := by
  simp only [parseValue]
  split_ifs
  · split
    · rename_i table hfind
      exact ⟨rfl, rfl, findEntry_rows hfind⟩
    · exact ⟨rfl, rfl, sameRows_refl _⟩
  · exact .refl s

theorem parseByte_frame (pos : Nat) (b : UInt8) (s : Store) :
    ParserFrame s (parseByte pos b s).2 := by
  unfold parseByte
  cases s.parser.sts with
  | finish =>
      by_cases hb : b = 0
      · simp only [if_pos hb]
        exact .refl s
      · simp only [if_neg hb]
        exact parseKey_frame b s
  | key => exact parseKey_frame b s
  | length => exact parseLength_frame pos b s
  | value => exact parseValue_frame pos s

theorem parseData_frame (pos : Nat) (bs : List UInt8) (s : Store) :
    ParserFrame s (parseData pos bs s).2 := by
  induction bs generalizing pos s with
  | nil => exact .refl s
  | cons b bs ih =>
      have hbyte := parseByte_frame pos b s
      simp only [parseData, andThen]
      split
      · rename_i s' heq
        rw [heq] at hbyte
        exact hbyte.trans (ih (pos + 1) s')
      · exact hbyte

/-! ## One entry -/

/-- What the parser does with a complete entry. -/
def acceptEntry (s : Store) (e : LocatedEntry) : Store :=
  match findEntry (e.entry.key ++ [0]) e.entry.value.length e.address s.table with
  | some table => { s with table, parser := {} }
  | none =>
      { s with
        notFound := s.notFound ++ [⟨e.entry.key ++ [0], e.address, 2⟩]
        parser := {} }

theorem parseData_key (front : List UInt8) {key : List UInt8} {pos : Nat} {s : Store}
    (hfront : s.parser = if front = [] then {} else { nameBuffer := front, sts := .key })
    (hne : ∀ b ∈ key, b ≠ 0) (hshort : (front ++ key).length ≤ 31) :
    parseData pos key s =
      (.ok, { s with parser := if front ++ key = [] then {}
        else { nameBuffer := front ++ key, sts := .key } }) := by
  induction key generalizing front pos s with
  | nil =>
      cases s
      simp only at hfront
      simp [parseData, hfront]
  | cons b key ih =>
      have hb : b ≠ 0 := hne b (by simp)
      simp only [List.length_append, List.length_cons] at hshort
      have hbyte : parseByte pos b s =
          (.ok, { s with parser := { nameBuffer := front ++ [b], sts := .key } }) := by
        unfold parseByte
        rw [hfront]
        by_cases hf : front = []
        · subst hf
          simp [hb, parseKey, hfront, configMaxKeySize]
        · simp only [if_neg hf, parseKey, hfront, hb, configMaxKeySize, List.length_append,
            List.length_singleton]
          rw [if_neg (by omega)]
          simp
      rw [parseData, andThen_ok hbyte, ih (front ++ [b]) (by simp)
        (fun c hc => hne c (by simp [hc])) (by simp; omega)]
      simp

theorem parseByte_terminator {key : List UInt8} {pos : Nat} {s : Store}
    (hkey : key ≠ []) (hparser : s.parser = { nameBuffer := key, sts := .key }) :
    parseByte pos 0 s =
      (.ok, { s with parser := { nameBuffer := key ++ [0], sts := .length } }) := by
  have hlen : 0 < key.length := List.length_pos_iff.mpr hkey
  simp [parseByte, parseKey, hparser]
  omega

theorem parseByte_lengthLow {name : List UInt8} {lo : UInt8} {pos : Nat} {s : Store}
    (hparser : s.parser = { nameBuffer := name, sts := .length }) :
    parseByte pos lo s =
      (.ok, { s with parser := {
        nameBuffer := name, lengthData := lo.toNat, lengthSize := 1, sts := .length } }) := by
  have hlo : lo.toNat % 65536 = lo.toNat := by
    have := lo.toNat_lt
    omega
  simp [parseByte, parseLength, hparser, hlo]

theorem parseByte_lengthHigh {name : List UInt8} {lo hi : UInt8} {pos : Nat}
    {s : Store} (hne : ofLe [lo, hi] ≠ 0)
    (hparser : s.parser = {
      nameBuffer := name, lengthData := lo.toNat, lengthSize := 1, sts := .length }) :
    parseByte pos hi s =
      (.ok, { s with parser := {
        nameBuffer := name
        lengthData := ofLe [lo, hi]
        lengthSize := 2
        offsetEntryData := pos + 1
        sts := .value } }) := by
  have hword : (lo.toNat ||| hi.toNat <<< 8) % 65536 = ofLe [lo, hi] := by
    have hlt := ofLe_lt [lo, hi]
    rw [or_shiftLeft_eq_ofLe]
    simp only [List.length_cons, List.length_nil] at hlt
    omega
  simp [parseByte, parseLength, hparser, hword, hne]

theorem parseData_length {name : List UInt8} {n pos : Nat} {s : Store}
    (hn : n < 65536) (hne : n ≠ 0)
    (hparser : s.parser = { nameBuffer := name, sts := .length }) :
    parseData pos (le16 n) s =
      (.ok, { s with parser := {
        nameBuffer := name
        lengthData := n
        lengthSize := 2
        offsetEntryData := pos + 2
        sts := .value } }) := by
  have hword : ofLe [UInt8.ofNat n, UInt8.ofNat (n / 256)] = n := ofLe_le16 hn
  simp only [le16, parseData]
  rw [andThen_ok (parseByte_lengthLow hparser),
    andThen_ok (parseByte_lengthHigh (by rw [hword]; exact hne) rfl), hword]

theorem parseData_value {name value : List UInt8} {n v pos : Nat} {s : Store}
    (hvalue : value ≠ []) (hend : pos + value.length = v + n)
    (hparser : s.parser = {
      nameBuffer := name, lengthData := n, lengthSize := 2, offsetEntryData := v
      sts := .value }) :
    parseData pos value s =
      (.ok, match findEntry name n v s.table with
        | some table => { s with table, parser := {} }
        | none => { s with
            notFound := s.notFound ++ [⟨name, v, 2⟩]
            parser := {} }) := by
  induction value generalizing pos with
  | nil => exact absurd rfl hvalue
  | cons b value ih =>
      simp only [List.length_cons] at hend
      by_cases hlast : value = []
      · subst hlast
        have hdone : v + n = pos + 1 := by simpa using hend.symm
        simp only [parseData, andThen, parseByte, parseValue, hparser, hdone, if_true]
        cases hfind : findEntry name n v s.table <;> rfl
      · have hmore : v + n ≠ pos + 1 := by
          have := List.length_pos_iff.mpr hlast
          omega
        have hbyte : parseByte pos b s = (.ok, s) := by
          simp [parseByte, parseValue, hparser, hmore]
        rw [parseData, andThen_ok hbyte]
        exact ih hlast (by omega)

/-- From its initial state the parser consumes exactly one entry. -/
theorem parseData_entry {e : StoredEntry} (hwf : e.WellFormed) {pos : Nat}
    {s : Store} (hparser : s.parser = {}) :
    parseData pos e.bytes s =
      (.ok, acceptEntry s ⟨e, pos + e.key.length + 3⟩) := by
  have hlen : e.value.length ≠ 0 := by
    simpa using hwf.value_ne_nil
  simp only [StoredEntry.bytes, List.append_assoc]
  rw [parseData_append, andThen_ok (parseData_key [] (by simpa using hparser)
    hwf.key_ne_nul (by simpa using hwf.key_short))]
  simp only [List.nil_append, if_neg hwf.key_ne_nil]
  rw [List.singleton_append, parseData,
    andThen_ok (parseByte_terminator hwf.key_ne_nil rfl), parseData_append,
    andThen_ok (parseData_length hwf.value_short hlen rfl),
    parseData_value hwf.value_ne_nil (by simp only [le16_length]) rfl]
  simp only [acceptEntry, Nat.add_assoc, Nat.reduceAdd]

/-! ## The data area -/

@[simp] theorem acceptEntry_idle (s : Store) (e : LocatedEntry) :
    (acceptEntry s e).parser = {} := by
  unfold acceptEntry
  split <;> rfl

@[simp] theorem acceptEntry_dev (s : Store) (e : LocatedEntry) :
    (acceptEntry s e).dev = s.dev := by
  unfold acceptEntry
  split <;> rfl

theorem foldl_acceptEntry_idle {s : Store} (h : s.parser = {})
    (es : List LocatedEntry) : (es.foldl acceptEntry s).parser = {} := by
  induction es generalizing s with
  | nil => exact h
  | cons e es ih => exact ih (acceptEntry_idle s e)

theorem foldl_acceptEntry_dev (s : Store) (es : List LocatedEntry) :
    (es.foldl acceptEntry s).dev = s.dev := by
  induction es generalizing s with
  | nil => rfl
  | cons e es ih => rw [List.foldl_cons, ih, acceptEntry_dev]

theorem parseData_area {pos : Nat} {area : List UInt8} {es : List LocatedEntry}
    (h : DataArea pos area es) {s : Store} (hparser : s.parser = {}) :
    parseData pos area s = (.ok, es.foldl acceptEntry s) := by
  induction h generalizing s with
  | nil => rfl
  | @pad pos area es _ ih =>
      have hbyte : parseByte pos 0 s = (.ok, s) := by
        simp [parseByte, hparser]
      rw [parseData, andThen_ok hbyte, ih hparser]
  | entry hwf _ ih =>
      rw [parseData_append, andThen_ok (parseData_entry hwf hparser),
        ih (acceptEntry_idle _ _), List.foldl_cons]

/-! ## Reading in chunks -/

/-- The end of `config_validate` after the parser has seen the whole area. -/
def finishParse : ConfigSts × Store → ConfigSts × Store
  | (.ok, s) =>
      if s.parser.sts ≠ .finish then (.parserNotFinished, s)
      else (.ok, { s with configValid := true })
  | failed => failed

/-- Feeding the parser 32 bytes at a time is parsing the area in one go. -/
theorem validateLoop_eq {endData offsetRead : Nat} (s : Store)
    (hoffset : offsetRead < endData) (hend : cfgOrigin + endData < flashFinish) :
    validateLoop endData offsetRead s =
      finishParse (parseData (cfgOrigin + offsetRead)
        (readBytes s.dev.mem (cfgOrigin + offsetRead) (endData - offsetRead)) s) := by
  induction hn : endData - offsetRead using Nat.strongRecOn
    generalizing offsetRead s with
  | ind n ih =>
      subst hn
      have hchunk : readInto s.dev.mem (cfgOrigin + offsetRead)
          (List.replicate (min 32 (endData - offsetRead)) 0) =
          readBytes s.dev.mem (cfgOrigin + offsetRead)
            (min 32 (endData - offsetRead)) := by
        rw [readInto_eq_readBytes]
        · simp
        · simp only [flashStart, cfgOrigin]
          omega
        · simp only [List.length_replicate]
          omega
      rw [validateLoop, hchunk]
      by_cases hmore : offsetRead + min 32 (endData - offsetRead) < endData
      · have hsize : min 32 (endData - offsetRead) = 32 := by omega
        have hsplit : endData - offsetRead = 32 + (endData - (offsetRead + 32)) := by
          omega
        rw [hsize] at hmore ⊢
        rw [hsplit, readBytes_add, parseData_append, readBytes_length]
        have hdev := (parseData_frame (cfgOrigin + offsetRead)
          (readBytes s.dev.mem (cfgOrigin + offsetRead) 32) s).dev
        rcases hparse : parseData (cfgOrigin + offsetRead)
          (readBytes s.dev.mem (cfgOrigin + offsetRead) 32) s with ⟨sts, s'⟩
        rw [hparse] at hdev
        simp only at hdev
        cases sts with
        | ok =>
            rw [andThen_ok hparse]
            simp only [if_pos hmore]
            rw [ih (endData - (offsetRead + 32)) (by omega) s' hmore rfl, hdev,
              Nat.add_assoc]
        | _ => simp [andThen, hparse, finishParse]
      · have hsize : min 32 (endData - offsetRead) = endData - offsetRead := by omega
        rw [hsize] at hmore ⊢
        rcases parseData (cfgOrigin + offsetRead)
          (readBytes s.dev.mem (cfgOrigin + offsetRead) (endData - offsetRead)) s
          with ⟨sts, s'⟩
        cases sts with
        | ok => simp only [if_neg hmore, finishParse]
        | _ => rfl

theorem crcLoop_eq (unit : CrcUnit) (m : Mem) (dr : UInt32) {count : Nat}
    (hend : cfgOrigin + 4 + 4 * count < flashFinish) :
    crcLoop unit m dr count =
      crc32End unit dr (readBytes m (cfgOrigin + 4) (4 * count)) := by
  induction count with
  | zero => simp [crcLoop]
  | succ count ih =>
      have hword : readInto m (cfgOrigin + 4 + 4 * count) (List.replicate 4 0) =
          readBytes m (cfgOrigin + 4 + 4 * count) 4 := by
        rw [readInto_eq_readBytes]
        · rfl
        · simp only [flashStart, cfgOrigin]
          omega
        · simp only [List.length_replicate]
          omega
      have hprev := ih (by omega)
      unfold crcLoop at hprev ⊢
      rw [List.range_succ, List.foldl_append, hprev, Nat.mul_succ, readBytes_add,
        crc32End_append unit dr (by simp only [readBytes_length]; omega)]
      simp only [List.foldl_cons, List.foldl_nil, hword]

/-! ## Validation -/

/-- The store after `config_validate` accepted the entries `es`. -/
def acceptImage (s : Store) (es : List LocatedEntry) : Store :=
  { es.foldl acceptEntry s with configValid := true }

/-- `config_validate` once the size word is within its limits: it compares the
checksum word and then parses the area in one go. -/
theorem configValidate_eq {unit : CrcUnit} {s : Store} {n : Nat}
    (hsize : ofLe (readBytes s.dev.mem cfgOrigin 4) = n)
    (hmin : 8 ≤ n) (hmax : n ≤ cfgSize + 8) (halign : n % 4 = 0) :
    configValidate unit s =
      let dr := crc32 unit (readBytes s.dev.mem cfgOrigin (4 + n))
      let s := { s with configValid := false, crcDr := dr }
      if ofLe (readBytes s.dev.mem (cfgOrigin + (4 + n)) 4) ≠ dr.toNat then
        (.crcInvalid, s)
      else finishParse (parseData areaOrigin (readBytes s.dev.mem areaOrigin n)
        { s with parser := {} }) := by
  have hflash : ∀ k, k ≤ n + 8 → cfgOrigin + k < flashFinish := by
    intro k hk
    simp only [cfgSize] at hmax
    simp only [cfgOrigin, flashFinish]
    omega
  have hread : ∀ k, k ≤ n + 4 →
      readInto s.dev.mem (cfgOrigin + k) (List.replicate 4 0) =
        readBytes s.dev.mem (cfgOrigin + k) 4 := by
    intro k hk
    rw [readInto_eq_readBytes]
    · rfl
    · simp only [flashStart, cfgOrigin]
      omega
    · rw [List.length_replicate, Nat.add_assoc]
      exact hflash (k + 4) (by omega)
  have hword : readInto s.dev.mem cfgOrigin (List.replicate 4 0) =
      readBytes s.dev.mem cfgOrigin 4 := hread 0 (by omega)
  have hwrap : (4 + n) % 2 ^ 32 = 4 + n := by
    simp only [cfgSize] at hmax
    omega
  have hcrc : crcLoop unit s.dev.mem
      (crc32Start unit (readBytes s.dev.mem cfgOrigin 4)) (n / 4) =
        crc32 unit (readBytes s.dev.mem cfgOrigin (4 + n)) := by
    have hcount : 4 * (n / 4) = n := by omega
    rw [crcLoop_eq, hcount, readBytes_add, crc32, crc32End_append]
    · rfl
    · simp
    · rw [hcount, Nat.add_assoc]
      exact hflash (4 + n) (by omega)
  unfold configValidate
  simp only [hword, hsize, hwrap, hcrc]
  rw [if_neg (by omega), hread (4 + n) (by omega)]
  simp only [validateLoop_eq _ (show 4 < 4 + n by omega) (hflash (4 + n) (by omega)),
    Nat.add_sub_cancel_left, areaOrigin]

theorem configValidate_wrongSize {unit : CrcUnit} {s : Store} {n : Nat}
    (hsize : ofLe (readBytes s.dev.mem cfgOrigin 4) = n)
    (h : n < 8 ∨ n > 4 + cfgSize + 4 ∨ n % 4 ≠ 0) :
    configValidate unit s = (.wrongSizeConfig, { s with
      configValid := false
      crcDr := crc32Start unit (readBytes s.dev.mem cfgOrigin 4) }) := by
  have hword : readInto s.dev.mem cfgOrigin (List.replicate 4 0) =
      readBytes s.dev.mem cfgOrigin 4 :=
    readInto_eq_readBytes s.dev.mem _ (by decide) (by decide)
  unfold configValidate
  simp only [hword, hsize]
  rw [if_pos h]

/-- Validation never touches the flash or the variables of the firmware, and
its verdict is kept in the flag. -/
theorem configValidate_frame (unit : CrcUnit) (s : Store) :
    (configValidate unit s).2.dev = s.dev ∧
      List.Forall₂ SameRow s.table (configValidate unit s).2.table ∧
      ((configValidate unit s).2.configValid = true ↔ (configValidate unit s).1 = .ok) := by
  by_cases hsize : ofLe (readBytes s.dev.mem cfgOrigin 4) < 8 ∨
      ofLe (readBytes s.dev.mem cfgOrigin 4) > 4 + cfgSize + 4 ∨
      ofLe (readBytes s.dev.mem cfgOrigin 4) % 4 ≠ 0
  · rw [configValidate_wrongSize rfl hsize]
    exact ⟨rfl, sameRows_refl _, by simp⟩
  · rw [configValidate_eq rfl (by omega) (by omega) (by omega)]
    simp only
    by_cases hcrc : ofLe (readBytes s.dev.mem (cfgOrigin +
        (4 + ofLe (readBytes s.dev.mem cfgOrigin 4))) 4) ≠
      (crc32 unit (readBytes s.dev.mem cfgOrigin
        (4 + ofLe (readBytes s.dev.mem cfgOrigin 4)))).toNat
    · rw [if_pos hcrc]
      exact ⟨rfl, sameRows_refl _, by simp⟩
    · rw [if_neg hcrc]
      have hframe := parseData_frame areaOrigin (readBytes s.dev.mem areaOrigin
        (ofLe (readBytes s.dev.mem cfgOrigin 4))) { s with
          configValid := false
          crcDr := crc32 unit (readBytes s.dev.mem cfgOrigin
            (4 + ofLe (readBytes s.dev.mem cfgOrigin 4)))
          parser := {} }
      revert hframe
      generalize parseData areaOrigin _ _ = result
      rcases result with ⟨sts, s'⟩
      rintro ⟨hdev, hvalid, hrows⟩
      cases sts with
      | ok =>
          simp only [finishParse]
          split_ifs
          · exact ⟨hdev, hrows, by simp_all⟩
          · exact ⟨hdev, hrows, by simp⟩
      | _ => exact ⟨hdev, hrows, by simp_all [finishParse]⟩

/-! ## The verdict depends on the flash only -/

theorem parseByte_congr (pos : Nat) (b : UInt8) {s t : Store}
    (h : s.parser = t.parser) :
    (parseByte pos b s).1 = (parseByte pos b t).1 ∧
      (parseByte pos b s).2.parser = (parseByte pos b t).2.parser := by
  unfold parseByte
  rw [h]
  cases t.parser.sts with
  | finish =>
      simp only [parseKey, h]
      split_ifs <;> simp_all
  | key =>
      simp only [parseKey, h]
      split_ifs <;> simp
  | length =>
      simp only [parseLength, h]
      split_ifs <;> simp
  | value =>
      simp only [parseValue, h]
      split_ifs
      · constructor
        · split <;> split <;> rfl
        · split <;> split <;> rfl
      · exact ⟨rfl, h⟩

theorem parseData_congr (pos : Nat) (bs : List UInt8) {s t : Store}
    (h : s.parser = t.parser) :
    (parseData pos bs s).1 = (parseData pos bs t).1 ∧
      (parseData pos bs s).2.parser = (parseData pos bs t).2.parser := by
  induction bs generalizing pos s t with
  | nil => exact ⟨rfl, h⟩
  | cons b bs ih =>
      obtain ⟨hsts, hparser⟩ := parseByte_congr pos b h
      simp only [parseData, andThen]
      rcases hs : parseByte pos b s with ⟨sts, s'⟩
      rcases ht : parseByte pos b t with ⟨sts', t'⟩
      rw [hs, ht] at hsts hparser
      obtain rfl : sts = sts' := hsts
      cases sts with
      | ok => exact ih (pos + 1) hparser
      | _ => exact ⟨rfl, hparser⟩

theorem finishParse_congr (pos : Nat) (bs : List UInt8) {s t : Store}
    (h : s.parser = t.parser) :
    (finishParse (parseData pos bs s)).1 = (finishParse (parseData pos bs t)).1 := by
  obtain ⟨hsts, hparser⟩ := parseData_congr pos bs h
  rcases hs : parseData pos bs s with ⟨sts, s'⟩
  rcases ht : parseData pos bs t with ⟨sts', t'⟩
  rw [hs, ht] at hsts hparser
  obtain rfl : sts = sts' := hsts
  have hsame : s'.parser.sts = t'.parser.sts := congrArg ParseStruct.sts hparser
  cases sts with
  | ok =>
      simp only [finishParse]
      by_cases hfinish : t'.parser.sts = .finish
      · rw [if_neg (by simp [hsame, hfinish]), if_neg (by simp [hfinish])]
      · rw [if_pos (by simp [hsame, hfinish]), if_pos (by simp [hfinish])]
  | _ => rfl

theorem configValidate_sts_congr (unit : CrcUnit) {s t : Store}
    (h : s.dev.mem = t.dev.mem) :
    (configValidate unit s).1 = (configValidate unit t).1 := by
  by_cases hsize : ofLe (readBytes t.dev.mem cfgOrigin 4) < 8 ∨
      ofLe (readBytes t.dev.mem cfgOrigin 4) > 4 + cfgSize + 4 ∨
      ofLe (readBytes t.dev.mem cfgOrigin 4) % 4 ≠ 0
  · rw [configValidate_wrongSize (by rw [h]) hsize, configValidate_wrongSize rfl hsize]
  · rw [configValidate_eq (by rw [h]) (by omega) (by omega) (by omega),
      configValidate_eq rfl (by omega) (by omega) (by omega)]
    simp only [h]
    split_ifs
    · rfl
    · exact finishParse_congr _ _ rfl

theorem configValidate_of_isImage {unit : CrcUnit} {s : Store}
    {area : List UInt8} {es : List LocatedEntry}
    (h : IsImage unit s.dev.mem area es) :
    configValidate unit s =
      (.ok, acceptImage { s with
        configValid := false
        crcDr := crc32 unit (le32 area.length ++ area)
        parser := {} } es) := by
  have hmax := h.size_max
  simp only [cfgSize] at hmax
  obtain ⟨hsize, harea, hcrc⟩ := h.parts
  have hwhole : readBytes s.dev.mem cfgOrigin (4 + area.length) =
      le32 area.length ++ area := by
    rw [readBytes_add, hsize]
    exact congrArg _ harea
  have hn : ofLe (readBytes s.dev.mem cfgOrigin 4) = area.length := by
    rw [hsize, ofLe_le32 (by omega)]
  rw [configValidate_eq hn h.size_min (by simp only [cfgSize]; omega) h.size_align]
  simp only [hwhole]
  rw [← Nat.add_assoc, hcrc, ofLe_le32 (UInt32.toNat_lt _), if_neg (by simp), harea,
    parseData_area h.area_entries rfl]
  simp only [finishParse, acceptImage]
  rw [foldl_acceptEntry_idle rfl]
  simp

end ShGateway.ConfigParser
