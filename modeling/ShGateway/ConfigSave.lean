import ShGateway.ConfigParser
import ShGateway.ConfigWriter

namespace ShGateway.ConfigSave

open ShGateway.ConfigFormat
open ShGateway.ConfigParser
open ShGateway.ConfigSystem
open ShGateway.ConfigWriter
open ShGateway.Crc
open ShGateway.FlashWrite
open ShGateway.Lib.ByteWords
open ShGateway.Lib.NorFlash
open ShGateway.Platform

/-! ## Rows of the table as entries -/

/-- Rows the writer accepts: a key of 1 to 30 characters and a value. -/
structure Storable (e : ConfigEntry) : Prop where
  key_ne_nil : e.key ≠ []
  key_short : e.key.length ≤ 30
  size_pos : e.size ≠ 0

/-- The entry a row is stored as. -/
def stored (e : ConfigEntry) : StoredEntry := ⟨e.key, e.value⟩

theorem Storable.wellFormed {e : ConfigEntry} (h : Storable e) :
    (stored e).WellFormed where
  key_ne_nul := e.key_ne_nul
  key_ne_nil := h.key_ne_nil
  key_short := by
    have := h.key_short
    simp only [stored]
    omega
  value_ne_nil := by
    have hlen := e.value_length
    have hpos := h.size_pos
    intro hnil
    simp only [stored] at hnil
    simp [hnil] at hlen
    omega
  value_short := by
    simp only [stored, e.value_length]
    exact e.size_lt

theorem stored_bytes_length (e : ConfigEntry) :
    (stored e).bytes.length = e.key.length + 1 + 2 + e.size := by
  simp only [StoredEntry.bytes_length, stored, e.value_length]

/-- Length in bytes of a list of entries. -/
def entriesLength (es : List StoredEntry) : Nat := (entriesBytes es).length

@[simp] theorem entriesLength_cons (e : StoredEntry) (es : List StoredEntry) :
    entriesLength (e :: es) = e.bytes.length + entriesLength es := by
  simp [entriesLength, entriesBytes]

@[simp] theorem entriesLength_append (es fs : List StoredEntry) :
    entriesLength (es ++ fs) = entriesLength es + entriesLength fs := by
  simp [entriesLength, entriesBytes]

theorem checkEntries_eq_ok_iff {table : List ConfigEntry} {n total : Nat}
    (hn : n < 2 ^ 32) :
    checkEntries table n = .ok total ↔
      (∀ e ∈ table, Storable e) ∧
        total = (n + entriesLength (table.map stored)) % 2 ^ 32 := by
  induction table generalizing n with
  | nil =>
      have hmod : n % 2 ^ 32 = n := Nat.mod_eq_of_lt hn
      simp only [checkEntries, Except.ok.injEq, List.not_mem_nil, false_implies,
        implies_true, true_and, List.map_nil, entriesLength, entriesBytes,
        List.flatMap_nil, List.length_nil, Nat.add_zero, hmod]
      exact eq_comm
  | cons e table ih =>
      simp only [checkEntries, List.map_cons, entriesLength_cons, stored_bytes_length,
        List.mem_cons, forall_eq_or_imp]
      by_cases hlong : configMaxKeySize - 1 ≤ e.key.length
      · rw [if_pos hlong]
        simp only [reduceCtorEq, false_iff, not_and]
        rintro ⟨⟨-, hshort, -⟩, -⟩
        simp only [configMaxKeySize] at hlong
        omega
      · rw [if_neg hlong]
        by_cases hnil : e.key.length = 0
        · rw [if_pos hnil]
          simp only [reduceCtorEq, false_iff, not_and]
          rintro ⟨⟨hne, -, -⟩, -⟩
          exact absurd (List.length_eq_zero_iff.mp hnil) hne
        · rw [if_neg hnil]
          by_cases hsize : e.size = 0
          · rw [if_pos hsize]
            simp only [reduceCtorEq, false_iff, not_and]
            rintro ⟨⟨-, -, hpos⟩, -⟩
            exact absurd hsize hpos
          · have hstorable : Storable e :=
              ⟨fun h => hnil (by simp [h]), by simp only [configMaxKeySize] at hlong; omega,
                hsize⟩
            rw [if_neg hsize, ih (Nat.mod_lt _ (by decide)), Nat.mod_add_mod,
              Nat.add_assoc]
            simp [hstorable]

theorem foldl_entry_size (table : List ConfigEntry) {n : Nat} (hn : n < 2 ^ 32) :
    table.foldl (fun total e => (total + (e.key.length + 1 + 2 + e.size)) % 2 ^ 32) n =
      (n + entriesLength (table.map stored)) % 2 ^ 32 := by
  induction table generalizing n with
  | nil => exact (Nat.mod_eq_of_lt hn).symm
  | cons e table ih =>
      rw [List.foldl_cons, ih (Nat.mod_lt _ (by decide)), Nat.mod_add_mod,
        List.map_cons, entriesLength_cons, stored_bytes_length, Nat.add_assoc]

theorem writeNative_eq (hw : FlashHw) (unit : CrcUnit) (table : List ConfigEntry)
    (s : Store) :
    writeNative hw unit table s = writeStored hw unit (table.map stored) s := by
  induction table generalizing s with
  | nil => rfl
  | cons e table ih =>
      have htail : writeNative hw unit table = writeStored hw unit (table.map stored) :=
        funext ih
      simp only [writeNative, List.map_cons, writeStored, stored, e.value_length, htail]

/-! ## The image -/

theorem countZeros_lt (n : Nat) : countZeros n < 4 := by
  unfold countZeros
  split <;> omega

theorem add_countZeros_mod (n : Nat) : (n + countZeros n) % 4 = 0 := by
  unfold countZeros
  split <;> omega

/-- The data area written for the entries `es`. -/
def imageArea (es : List StoredEntry) : List UInt8 :=
  entriesBytes es ++ List.replicate (countZeros (entriesLength es)) 0

theorem imageArea_length (es : List StoredEntry) :
    (imageArea es).length = entriesLength es + countZeros (entriesLength es) := by
  simp [imageArea, entriesLength]

/-- The state after the entries `es` were saved. -/
structure Saved (unit : CrcUnit) (es : List StoredEntry) (s s' : Store) : Prop where
  valid : s'.configValid = true
  table : s'.table = s.table
  dev : FlashWritten (platformFlashEraseFlagResetSectCfg s.dev) cfgOrigin
    (imageBytes unit (imageArea es)) s'.dev
  fits : (imageArea es).length + 8 ≤ cfgSize

theorem sectorReset_reset (d : FlashDev) :
    SectorReset (platformFlashEraseFlagResetSectCfg d) := by
  simp [SectorReset, platformFlashEraseFlagResetSectCfg]

theorem beginImage_stream (unit : CrcUnit) (n : Nat) (s : Store) :
    ∃ s', beginImage .ideal unit n s = (.ok, s') ∧ s'.table = s.table ∧
      Streamed unit (platformFlashEraseFlagResetSectCfg s.dev) (le32 n) s' := by
  have hempty : Streamed unit (platformFlashEraseFlagResetSectCfg s.dev) []
      { s with
        dev := platformFlashEraseFlagResetSectCfg s.dev
        crcDr := crc32Start unit []
        flushBuffer := []
        offsetWriteData := 0 } :=
    ⟨[], {
      offset := rfl
      align := rfl
      bound := Nat.zero_le _
      room := by simp [flushBufferSize]
      dev := .nil _ _
      crc := rfl }, rfl⟩
  have hemits := emits_flushDataCalcCrc unit (le32 n) (by simp)
  obtain ⟨s', hok⟩ := hemits.complete (sectorReset_reset s.dev) hempty (by simp [cfgSize])
  refine ⟨s', hok, ?_, hemits.sound (sectorReset_reset s.dev) hempty hok⟩
  have htable := flushDataCalcCrc_table .ideal unit (le32 n) false { s with
    dev := platformFlashEraseFlagResetSectCfg s.dev
    crcDr := crc32Start unit []
    flushBuffer := []
    offsetWriteData := 0 }
  rw [hok] at htable
  exact htable

theorem endImage_stream {unit : CrcUnit} {before : FlashDev} {out : List UInt8}
    {s : Store} (hreset : SectorReset before) (hs : Streamed unit before out s)
    (zeros : Nat) (halign : (out.length + zeros) % 4 = 0)
    (hfits : out.length + zeros + 4 ≤ cfgSize) :
    ∃ s', endImage .ideal unit zeros s = (.ok, s') ∧ s'.configValid = true ∧
      s'.table = s.table ∧
      FlashWritten before cfgOrigin (out ++ List.replicate zeros 0 ++
        le32 (crc32 unit (out ++ List.replicate zeros 0)).toNat) s'.dev := by
  have hemits := emits_flushDataCalcCrc unit (List.replicate zeros 0) (by
    simp only [cfgSize, List.length_replicate] at *
    omega)
  obtain ⟨s₁, hpad⟩ := hemits.complete hreset hs (by
    simp only [List.length_append, List.length_replicate]
    omega)
  have htable := flushDataCalcCrc_table .ideal unit (List.replicate zeros 0) false s
  rw [hpad] at htable
  obtain ⟨flushed, h, hout⟩ := hemits.sound hreset hs hpad
  have hlen := congrArg List.length hout
  have hblock := h.align
  have hroom := h.room
  simp only [flushBufferSize, List.length_append, List.length_replicate] at hlen hblock hroom
  have hcrc : crc32End unit s₁.crcDr s₁.flushBuffer =
      crc32 unit (out ++ List.replicate zeros 0) := by
    rw [hout, crc32, crc32End_append unit unit.reset (by omega), h.crc]
  have hnowrap : ¬ (s₁.offsetWriteData +
      (le32 (crc32 unit (out ++ List.replicate zeros 0)).toNat).length) % 2 ^ 32 >
        cfgSize := by
    simp only [cfgSize] at hfits
    rw [h.offset, le32_length, Nat.mod_eq_of_lt (by omega)]
    simp only [cfgSize]
    omega
  obtain ⟨s₂, hlast, hdev⟩ := flushLoop_last unit
    (le32 (crc32 unit (out ++ List.replicate zeros 0)).toNat)
    { s₁ with crcDr := crc32 unit (out ++ List.replicate zeros 0) }
    ⟨h.offset, h.dev⟩ hreset (by simp [le32])
    (by simp only [le32_length, flushBufferSize]; omega)
    (by simp only [le32_length]; omega)
  have htable₂ := flushLoop_table .ideal unit
    (le32 (crc32 unit (out ++ List.replicate zeros 0)).toNat) true
    { s₁ with crcDr := crc32 unit (out ++ List.replicate zeros 0) }
  rw [hlast] at htable₂
  refine ⟨{ s₂ with configValid := true }, ?_, rfl, htable₂.trans htable, ?_⟩
  · rw [endImage, andThen_ok hpad, hcrc]
    apply andThen_eq_ok_iff.mpr
    refine ⟨s₂, ?_, rfl⟩
    rw [flushDataCalcCrc, if_neg hnowrap]
    exact hlast
  · rw [hout]
    rw [hout] at hdev
    exact hdev

/-- Size word, entries, padding and checksum in one go. -/
def writeImage (hw : FlashHw) (unit : CrcUnit) (sizeConfigData : Nat)
    (es : List StoredEntry) (zeros : Nat) : Store → ConfigSts × Store :=
  andThen (beginImage hw unit sizeConfigData)
    (andThen (writeStored hw unit es) (endImage hw unit zeros))

theorem writeImage_fits {unit : CrcUnit} {es : List StoredEntry}
    (hwf : ∀ e ∈ es, e.WellFormed) (hfits : (imageArea es).length + 8 ≤ cfgSize)
    (s : Store) :
    ∃ s', writeImage .ideal unit (imageArea es).length es
        (countZeros (entriesLength es)) s = (.ok, s') ∧ Saved unit es s s' := by
  have hreset := sectorReset_reset s.dev
  have harea := imageArea_length es
  have hmod := add_countZeros_mod (entriesLength es)
  obtain ⟨s₁, hbegin, htable₁, hs₁⟩ := beginImage_stream unit (imageArea es).length s
  have hemits := emits_writeStored unit hwf
  have hlen : (le32 (imageArea es).length ++ entriesBytes es).length =
      4 + entriesLength es := by
    simp [entriesLength]
  obtain ⟨s₂, hbody⟩ := hemits.complete hreset hs₁ (by rw [hlen]; omega)
  have hs₂ := hemits.sound hreset hs₁ hbody
  obtain ⟨s₃, hend, hvalid, htable₃, hdev⟩ := endImage_stream hreset hs₂
    (countZeros (entriesLength es)) (by rw [hlen]; omega) (by rw [hlen]; omega)
  have htable₂ := writeStored_table .ideal unit es s₁
  rw [hbody] at htable₂
  refine ⟨s₃, ?_, hvalid, htable₃.trans (htable₂.trans htable₁), ?_, hfits⟩
  · rw [writeImage, andThen_ok hbegin, andThen_ok hbody, hend]
  · simpa [imageBytes, imageArea] using hdev

/-- The part common to both paths of `config_write_storage`: the size check and
the image, all sums being taken in 32 bits. -/
def writeChecked (hw : FlashHw) (unit : CrcUnit) (es : List StoredEntry) (s : Store) :
    ConfigSts × Store :=
  let total := entriesLength es % 2 ^ 32
  let sizeConfigData := (total + countZeros total) % 2 ^ 32
  if (4 + sizeConfigData + 4) % 2 ^ 32 > cfgSize then (.storageOutOfBounds, s)
  else writeImage hw unit sizeConfigData es (countZeros total) s

theorem writeChecked_fits {unit : CrcUnit} {es : List StoredEntry}
    (hwf : ∀ e ∈ es, e.WellFormed) (hfits : (imageArea es).length + 8 ≤ cfgSize)
    (s : Store) :
    ∃ s', writeChecked .ideal unit es s = (.ok, s') ∧ Saved unit es s s' := by
  have harea := imageArea_length es
  have hbound := hfits
  simp only [cfgSize] at hbound
  have htotal : entriesLength es % 2 ^ 32 = entriesLength es :=
    Nat.mod_eq_of_lt (by omega)
  have hsize : (entriesLength es + countZeros (entriesLength es)) % 2 ^ 32 =
      (imageArea es).length := by omega
  rw [writeChecked, htotal, hsize,
    if_neg (by rw [Nat.mod_eq_of_lt (by omega)]; simp only [cfgSize]; omega)]
  exact writeImage_fits hwf hfits s

/-- A successful run has written an image that fits, no sum having wrapped
around. -/
theorem writeChecked_ok {unit : CrcUnit} {es : List StoredEntry}
    (hwf : ∀ e ∈ es, e.WellFormed) {s s' : Store}
    (hok : writeChecked .ideal unit es s = (.ok, s')) : Saved unit es s s' := by
  have himage := hok
  rw [writeChecked] at himage
  split_ifs at himage with hcheck
  · simp at himage
  · obtain ⟨s₁, hbegin, -, hs₁⟩ := beginImage_stream unit
      ((entriesLength es % 2 ^ 32 + countZeros (entriesLength es % 2 ^ 32)) % 2 ^ 32) s
    rw [writeImage, andThen_ok hbegin] at himage
    obtain ⟨s₂, hbody, -⟩ := andThen_eq_ok_iff.mp himage
    have hlt := ((emits_writeStored unit hwf).sound (sectorReset_reset s.dev) hs₁
      hbody).length_lt
    simp only [List.length_append, le32_length, cfgSize, flushBufferSize] at hlt
    change 4 + entriesLength es < 65536 + 32 at hlt
    have htotal : entriesLength es % 2 ^ 32 = entriesLength es :=
      Nat.mod_eq_of_lt (by omega)
    have hzeros := countZeros_lt (entriesLength es)
    have hfits : (imageArea es).length + 8 ≤ cfgSize := by
      rw [htotal] at hcheck
      rw [imageArea_length]
      simp only [cfgSize] at hcheck ⊢
      omega
    obtain ⟨s'', hok', hsaved⟩ := writeChecked_fits hwf hfits s
    obtain rfl : s'' = s' := (Prod.mk.inj (hok'.symm.trans hok)).2
    exact hsaved

theorem checkEntries_ne_error_ok (table : List ConfigEntry) (n : Nat) :
    checkEntries table n ≠ .error .ok := by
  induction table generalizing n with
  | nil => simp [checkEntries]
  | cons e table ih =>
      simp only [checkEntries]
      split_ifs
      · simp
      · simp
      · simp
      · exact ih _

theorem wellFormed_stored {table : List ConfigEntry}
    (h : ∀ e ∈ table, Storable e) : ∀ e ∈ table.map stored, e.WellFormed := by
  intro e he
  obtain ⟨row, hrow, rfl⟩ := List.mem_map.mp he
  exact (h row hrow).wellFormed

/-! ## Without a valid image -/

theorem writeFresh_eq (hw : FlashHw) (unit : CrcUnit) (s : Store) :
    writeFresh hw unit s =
      match checkEntries s.table 8 with
      | .error sts => (sts, { s with configValid := false })
      | .ok totalLength =>
          if totalLength > cfgSize then
            (.storageOutOfBounds, { s with configValid := false })
          else writeChecked hw unit (s.table.map stored)
            { s with configValid := false } := by
  have htotal := foldl_entry_size s.table (show 0 < 2 ^ 32 by decide)
  rw [Nat.zero_add] at htotal
  rw [writeFresh, htotal]
  rcases checkEntries s.table 8 with sts | totalLength
  · rfl
  · simp only [writeChecked, writeImage, funext (writeNative_eq hw unit s.table)]

theorem writeFresh_ok {unit : CrcUnit} {s s' : Store}
    (hok : writeFresh .ideal unit s = (.ok, s')) :
    (∀ e ∈ s.table, Storable e) ∧ Saved unit (s.table.map stored) s s' := by
  rw [writeFresh_eq] at hok
  cases hcheck : checkEntries s.table 8 with
  | error sts =>
      simp only [hcheck] at hok
      obtain ⟨rfl, -⟩ := Prod.mk.inj hok
      exact absurd hcheck (checkEntries_ne_error_ok s.table 8)
  | ok totalLength =>
      simp only [hcheck] at hok
      obtain ⟨hstorable, -⟩ := (checkEntries_eq_ok_iff (by decide)).mp hcheck
      by_cases hlarge : totalLength > cfgSize
      · simp [hlarge] at hok
      · rw [if_neg hlarge] at hok
        obtain ⟨hvalid, htable, hdev, hfits⟩ :=
          writeChecked_ok (wellFormed_stored hstorable) hok
        exact ⟨hstorable, hvalid, htable, hdev, hfits⟩

theorem writeFresh_fits {unit : CrcUnit} {s : Store}
    (hstorable : ∀ e ∈ s.table, Storable e)
    (hfits : (imageArea (s.table.map stored)).length + 8 ≤ cfgSize) :
    ∃ s', writeFresh .ideal unit s = (.ok, s') := by
  have hcheck := (checkEntries_eq_ok_iff (show 8 < 2 ^ 32 by decide)).mpr
    ⟨hstorable, rfl⟩
  have hlarge : ¬ (8 + entriesLength (s.table.map stored)) % 2 ^ 32 > cfgSize := by
    rw [imageArea_length] at hfits
    simp only [cfgSize] at hfits ⊢
    omega
  obtain ⟨s', hok, -⟩ := @writeChecked_fits unit _ (wellFormed_stored hstorable)
    hfits { s with configValid := false }
  refine ⟨s', ?_⟩
  rw [writeFresh_eq, hcheck]
  simp only [if_neg hlarge, hok]

/-! ## With a valid image -/

/-- How the walk over the RAM copy sees an entry. -/
def oldOf (e : StoredEntry) : OldEntry := ⟨e.key, e.value.length, e.value⟩

theorem walkOldData_area {pos : Nat} {area : List UInt8} {es : List LocatedEntry}
    (h : DataArea pos area es) :
    walkOldData area = some (es.map fun e => oldOf e.entry) := by
  induction h with
  | nil => simp [walkOldData]
  | pad _ ih =>
      rw [walkOldData, if_pos rfl, ih]
  | @entry pos area es e hwf _ ih =>
      obtain ⟨b, rest, hne, hb⟩ := hwf.bytes_eq_cons
      have hname := hwf.takeWhile_bytes area
      have hafter := e.drop_key_bytes area
      have hlen := congrArg List.length hb
      rw [hb, List.cons_append] at hname hafter ⊢
      rw [List.drop_succ_cons] at hafter
      simp only [StoredEntry.bytes_length, List.length_cons] at hlen
      have hroom : ¬ (rest ++ area).length < e.key.length + 2 := by
        rw [List.length_append]
        omega
      have hsize : ofLe ((le16 e.value.length ++ (e.value ++ area)).take 2) =
          e.value.length := by
        rw [List.take_left' (le16_length _), ofLe_le16 hwf.value_short]
      have hvalue : (le16 e.value.length ++ (e.value ++ area)).drop 2 =
          e.value ++ area := List.drop_left' (le16_length _)
      rw [walkOldData, if_neg hne]
      simp only [hname, if_neg hroom, hafter, hsize, hvalue, List.take_left,
        List.drop_left, ih, Option.map_some, List.map_cons, oldOf]

theorem bufOldData_of_isImage {unit : CrcUnit} {m : Mem} {area : List UInt8}
    {es : List LocatedEntry} (h : IsImage unit m area es) :
    (bufOldData m).drop 4 = area := by
  have hmax := h.size_max
  simp only [cfgSize] at hmax
  obtain ⟨hsize, harea, -⟩ := h.parts
  have hword : readInto m cfgOrigin (List.replicate 4 0) = readBytes m cfgOrigin 4 :=
    readInto_eq_readBytes m _ (by decide) (by decide)
  have hcopy : readInto m cfgOrigin (List.replicate (4 + area.length) 0) =
      readBytes m cfgOrigin (4 + area.length) := by
    rw [readInto_eq_readBytes, List.length_replicate]
    · decide
    · rw [List.length_replicate]
      simp only [cfgOrigin, flashFinish]
      omega
  simp only [bufOldData, hword, hsize]
  rw [ofLe_le32 (by omega), Nat.mod_eq_of_lt (by omega), hcopy, readBytes_add]
  rw [List.drop_left' (readBytes_length m cfgOrigin 4)]
  exact harea

/-- The entries of an image that belong to other firmwares. -/
def foreign (table : List ConfigEntry) (es : List StoredEntry) : List StoredEntry :=
  es.filter fun e => !isNative table e.key

theorem sizeOld_eq (table : List ConfigEntry) (es : List StoredEntry) {n : Nat}
    (hn : n < 2 ^ 32) :
    sizeOld table (es.map oldOf) n =
      (n + entriesLength (foreign table es)) % 2 ^ 32 := by
  induction es generalizing n with
  | nil => exact (Nat.mod_eq_of_lt hn).symm
  | cons e es ih =>
      simp only [List.map_cons, sizeOld, foreign]
      by_cases hnative : isNative table e.key = true
      · rw [if_pos (by simpa [oldOf] using hnative), ih hn,
          List.filter_cons_of_neg (by simpa using hnative)]
        rfl
      · rw [if_neg (by simpa [oldOf] using hnative), ih (Nat.mod_lt _ (by decide)),
          List.filter_cons_of_pos (by simpa using hnative), entriesLength_cons,
          Nat.mod_add_mod, StoredEntry.bytes_length, Nat.add_assoc n]
        rfl

theorem writeOld_eq (hw : FlashHw) (unit : CrcUnit) (es : List StoredEntry)
    (s : Store) :
    writeOld hw unit (es.map oldOf) s =
      some (writeStored hw unit (foreign s.table es) s) := by
  induction es generalizing s with
  | nil => rfl
  | cons e es ih =>
      simp only [List.map_cons, writeOld, foreign]
      by_cases hnative : isNative s.table e.key = true
      · rw [if_pos (by simpa [oldOf] using hnative), ih,
          List.filter_cons_of_neg (by simpa using hnative)]
        rfl
      · rw [if_neg (by simpa [oldOf] using hnative),
          List.filter_cons_of_pos (by simpa using hnative)]
        have htable := writeEntry_table hw unit e.key e.value.length e.value s
        simp only [oldOf, Nat.lt_irrefl, if_false, writeStored, andThen]
        rcases hwrite : writeEntry hw unit e.key e.value.length e.value s with ⟨sts, s₁⟩
        rw [hwrite] at htable
        cases sts with
        | ok =>
            change s₁.table = s.table at htable
            simp only [ih s₁, htable]
            rfl
        | _ => rfl

theorem writeImage_of_old (hw : FlashHw) (unit : CrcUnit) (n zeros : Nat)
    (es : List StoredEntry) (s : Store) :
    (match beginImage hw unit n s with
      | (.ok, s) =>
          match writeOld hw unit (es.map oldOf) s with
          | some (.ok, s) =>
              some (andThen (writeNative hw unit s.table) (endImage hw unit zeros) s)
          | failed => failed
      | failed => some failed) =
      some (writeImage hw unit n (foreign s.table es ++ s.table.map stored) zeros s) := by
  have htable := flushDataCalcCrc_table hw unit (le32 n) false { s with
    dev := platformFlashEraseFlagResetSectCfg s.dev
    crcDr := crc32Start unit []
    flushBuffer := []
    offsetWriteData := 0 }
  change (beginImage hw unit n s).2.table = s.table at htable
  simp only [writeImage, andThen]
  rcases hbegin : beginImage hw unit n s with ⟨sts, s₁⟩
  rw [hbegin] at htable
  cases sts with
  | ok =>
      change s₁.table = s.table at htable
      have htable₂ := writeStored_table hw unit (foreign s.table es) s₁
      simp only [writeOld_eq, htable, writeStored_append, andThen]
      rcases hold : writeStored hw unit (foreign s.table es) s₁ with ⟨sts, s₂⟩
      rw [hold] at htable₂
      cases sts with
      | ok =>
          have hrows : s₂.table = s.table := htable₂.trans htable
          simp only [hrows, writeNative_eq]
      | _ => rfl
  | _ => rfl

theorem writePreserve_eq (hw : FlashHw) {unit : CrcUnit} {s : Store}
    {area : List UInt8} {es : List LocatedEntry}
    (h : IsImage unit s.dev.mem area es) :
    writePreserve hw unit s =
      match checkEntries s.table 0 with
      | .error sts => some (sts, { s with configValid := false })
      | .ok _ => some (writeChecked hw unit
          (foreign s.table (es.map LocatedEntry.entry) ++ s.table.map stored)
          { s with configValid := false }) := by
  simp only [writePreserve]
  cases hcheck : checkEntries s.table 0 with
  | error sts => rfl
  | ok sizeNative =>
      obtain ⟨-, hnative⟩ := (checkEntries_eq_ok_iff (by decide)).mp hcheck
      rw [Nat.zero_add] at hnative
      have hwalk : walkOldData ((bufOldData s.dev.mem).drop 4) =
          some ((es.map LocatedEntry.entry).map oldOf) := by
        rw [bufOldData_of_isImage h, walkOldData_area h.area_entries, List.map_map]
        rfl
      have htotal : sizeOld s.table ((es.map LocatedEntry.entry).map oldOf) sizeNative =
          entriesLength (foreign s.table (es.map LocatedEntry.entry) ++
            s.table.map stored) % 2 ^ 32 := by
        rw [sizeOld_eq _ _ (by omega), hnative, Nat.mod_add_mod, entriesLength_append,
          Nat.add_comm]
      simp only [hwalk, htotal, writeChecked]
      split_ifs
      · rfl
      · exact writeImage_of_old hw unit _ _ _ { s with configValid := false }

theorem wellFormed_foreign_append {unit : CrcUnit} {m : Mem} {area : List UInt8}
    {es : List LocatedEntry} (h : IsImage unit m area es) {table : List ConfigEntry}
    (hstorable : ∀ e ∈ table, Storable e) :
    ∀ e ∈ foreign table (es.map LocatedEntry.entry) ++ table.map stored,
      e.WellFormed := by
  intro e he
  rcases List.mem_append.mp he with he | he
  · obtain ⟨located, hmem, rfl⟩ := List.mem_map.mp (List.mem_of_mem_filter he)
    exact h.area_entries.wellFormed located hmem
  · exact wellFormed_stored hstorable e he

theorem writePreserve_ok {unit : CrcUnit} {s s' : Store} {area : List UInt8}
    {es : List LocatedEntry} (h : IsImage unit s.dev.mem area es)
    (hok : writePreserve .ideal unit s = some (.ok, s')) :
    (∀ e ∈ s.table, Storable e) ∧
      Saved unit (foreign s.table (es.map LocatedEntry.entry) ++ s.table.map stored)
        s s' := by
  rw [writePreserve_eq .ideal h] at hok
  cases hcheck : checkEntries s.table 0 with
  | error sts =>
      simp only [hcheck, Option.some.injEq] at hok
      obtain ⟨rfl, -⟩ := Prod.mk.inj hok
      exact absurd hcheck (checkEntries_ne_error_ok s.table 0)
  | ok sizeNative =>
      simp only [hcheck, Option.some.injEq] at hok
      obtain ⟨hstorable, -⟩ := (checkEntries_eq_ok_iff (by decide)).mp hcheck
      obtain ⟨hvalid, htable, hdev, hfits⟩ :=
        writeChecked_ok (wellFormed_foreign_append h hstorable) hok
      exact ⟨hstorable, hvalid, htable, hdev, hfits⟩

theorem writePreserve_fits {unit : CrcUnit} {s : Store} {area : List UInt8}
    {es : List LocatedEntry} (h : IsImage unit s.dev.mem area es)
    (hstorable : ∀ e ∈ s.table, Storable e)
    (hfits : (imageArea (foreign s.table (es.map LocatedEntry.entry) ++
      s.table.map stored)).length + 8 ≤ cfgSize) :
    ∃ s', writePreserve .ideal unit s = some (.ok, s') := by
  have hcheck := (checkEntries_eq_ok_iff (show 0 < 2 ^ 32 by decide)).mpr
    ⟨hstorable, rfl⟩
  obtain ⟨s', hok, -⟩ := @writeChecked_fits unit _
    (wellFormed_foreign_append h hstorable) hfits { s with configValid := false }
  refine ⟨s', ?_⟩
  rw [writePreserve_eq .ideal h, hcheck]
  simp only [hok]

/-! ## The saved sector -/

theorem entriesLength_pos {es : List StoredEntry} (hwf : ∀ e ∈ es, e.WellFormed)
    (hne : es ≠ []) : 5 ≤ entriesLength es := by
  rcases es with _ | ⟨e, es⟩
  · exact absurd rfl hne
  · have hkey := List.length_pos_iff.mpr (hwf e (by simp)).key_ne_nil
    have hvalue := List.length_pos_iff.mpr (hwf e (by simp)).value_ne_nil
    rw [entriesLength_cons, StoredEntry.bytes_length]
    omega

theorem Saved.isImage {unit : CrcUnit} {es : List StoredEntry} {s s' : Store}
    (h : Saved unit es s s') (hwf : ∀ e ∈ es, e.WellFormed) (hne : es ≠ []) :
    IsImage unit s'.dev.mem (imageArea es) (locate areaOrigin es) where
  area_entries := dataArea_entriesBytes areaOrigin hwf _
  size_min := by
    have hpos := entriesLength_pos hwf hne
    have hmod := add_countZeros_mod (entriesLength es)
    rw [imageArea_length]
    omega
  size_align := by
    rw [imageArea_length]
    exact add_countZeros_mod _
  size_max := h.fits
  stored := h.dev.mem.readBytes

/-- A successful call of `config_write_storage` has saved the firmware's own
entries and, if there was an image, the entries of other firmwares. -/
theorem configWriteStorage_ok {unit : CrcUnit} {s s' : Store} {area : List UInt8}
    {es : List LocatedEntry}
    (himage : s.configValid = true → IsImage unit s.dev.mem area es)
    (hok : configWriteStorage .ideal unit s = some (.ok, s')) :
    s.table ≠ [] ∧ (∀ e ∈ s.table, Storable e) ∧
      Saved unit ((if s.configValid = true then
          foreign s.table (es.map LocatedEntry.entry) else []) ++ s.table.map stored)
        s s' := by
  rw [configWriteStorage] at hok
  have hne : s.table.length ≠ 0 := by
    intro hempty
    simp [hempty] at hok
  rw [if_neg hne] at hok
  refine ⟨by simpa using hne, ?_⟩
  cases hvalid : s.configValid with
  | false =>
      rw [if_pos hvalid] at hok
      simpa using writeFresh_ok (Option.some.inj hok)
  | true =>
      rw [if_neg (by simp [hvalid])] at hok
      simpa using writePreserve_ok (himage hvalid) hok

end ShGateway.ConfigSave
