import ShGateway.ConfigValidate
import ShGateway.Lib.ReadTrace

/-!
`config_validate` with the bytes of flash that it reads.
-/

namespace ShGateway.ConfigBounds

open ShGateway.ConfigFormat
open ShGateway.ConfigParser
open ShGateway.ConfigSave
open ShGateway.ConfigSystem
open ShGateway.ConfigValidate
open ShGateway.Crc
open ShGateway.Lib.ByteWords
open ShGateway.Lib.NorFlash
open ShGateway.Lib.ReadTrace
open ShGateway.Platform

/-- `platform_flash_read` into a buffer. -/
def readInto (addr : Nat) (buf : List UInt8) : Reading (List UInt8) :=
  if addr < flashStart ∨ (addr + buf.length) % 2 ^ 32 ≥ flashFinish then pure buf
  else readAll addr buf.length

/-- The loop of `config_validate` over the words of the data area. -/
def crcLoop (unit : CrcUnit) (dr : UInt32) : Nat → Reading UInt32
  | 0 => pure dr
  | count + 1 => do
      let dr ← crcLoop unit dr count
      let w ← readInto (cfgOrigin + 4 + 4 * count) (List.replicate 4 0)
      pure (crc32End unit dr w)

/-- The loop of `config_validate` that feeds the parser. -/
def validateLoop (endData offsetRead : Nat) (s : Store) : Reading (ConfigSts × Store) := do
  let size := min 32 (endData - offsetRead)
  let chunk ← readInto (cfgOrigin + offsetRead) (List.replicate size 0)
  match parseData (cfgOrigin + offsetRead) chunk s with
  | (.ok, s) =>
      if offsetRead + size < endData then validateLoop endData (offsetRead + size) s
      else if s.parser.sts ≠ .finish then pure (.parserNotFinished, s)
      else pure (.ok, { s with configValid := true })
  | failed => pure failed
termination_by endData - offsetRead

def configValidate (unit : CrcUnit) (s : Store) : Reading (ConfigSts × Store) := do
  let s := { s with configValid := false }
  let word ← readInto cfgOrigin (List.replicate 4 0)
  let sizeConfig := ofLe word
  let s := { s with crcDr := crc32Start unit word }
  let endData := (4 + sizeConfig) % 2 ^ 32
  if sizeConfig < 8 ∨ sizeConfig > 4 + cfgSize + 4 ∨ sizeConfig % 4 ≠ 0 then
    pure (.wrongSizeConfig, s)
  else do
    let crcCalc ← crcLoop unit s.crcDr (sizeConfig / 4)
    let s := { s with crcDr := crcCalc }
    let crcWord ← readInto (cfgOrigin + endData) (List.replicate 4 0)
    if ofLe crcWord ≠ crcCalc.toNat then pure (.crcInvalid, s)
    else validateLoop endData 4 { s with parser := {} }

/-- The copy of the old image that `config_write_storage` makes. -/
def bufOldData : Reading (List UInt8) := do
  let word ← readInto cfgOrigin (List.replicate 4 0)
  readInto cfgOrigin (List.replicate ((4 + ofLe word) % 2 ^ 32) 0)

/-! ## The same values -/

theorem value_readInto (addr : Nat) (buf : List UInt8) (m : Mem) :
    (readInto addr buf).value m = Platform.readInto m addr buf := by
  rw [readInto, value_ite, value_pure, value_readAll, Platform.readInto, platformFlashRead]
  split_ifs <;> rfl

theorem value_crcLoop (unit : CrcUnit) (dr : UInt32) (count : Nat) (m : Mem) :
    (crcLoop unit dr count).value m = ConfigSystem.crcLoop unit m dr count := by
  induction count with
  | zero => rfl
  | succ count ih =>
      rw [crcLoop, value_bind, value_bind, ih, value_readInto, value_pure,
        ConfigSystem.crcLoop, ConfigSystem.crcLoop, List.range_succ, List.foldl_append]
      rfl

theorem value_validateLoop (endData offsetRead : Nat) (s : Store) :
    (validateLoop endData offsetRead s).value s.dev.mem =
      ConfigSystem.validateLoop endData offsetRead s := by
  induction hn : endData - offsetRead using Nat.strongRecOn generalizing offsetRead s with
  | ind n ih =>
      subst hn
      rw [validateLoop, ConfigSystem.validateLoop, value_bind, value_readInto]
      have hdev := (parseData_frame (cfgOrigin + offsetRead) (Platform.readInto s.dev.mem
        (cfgOrigin + offsetRead) (List.replicate (min 32 (endData - offsetRead)) 0)) s).dev
      rcases hparse : parseData (cfgOrigin + offsetRead) (Platform.readInto s.dev.mem
        (cfgOrigin + offsetRead) (List.replicate (min 32 (endData - offsetRead)) 0)) s with
        ⟨sts, s'⟩
      rw [hparse] at hdev
      cases sts with
      | ok =>
          simp only [value_ite, value_pure, ← hdev]
          split_ifs with hmore
          · exact ih _ (by omega) _ s' rfl
          · rfl
          · rfl
      | _ => rfl

theorem value_configValidate (unit : CrcUnit) (s : Store) :
    (configValidate unit s).value s.dev.mem = ConfigSystem.configValidate unit s := by
  rw [configValidate, ConfigSystem.configValidate]
  simp only [value_bind, value_ite, value_pure, value_readInto, value_crcLoop]
  split_ifs
  · rfl
  · rfl
  · exact value_validateLoop _ 4 _

theorem value_bufOldData (m : Mem) : bufOldData.value m = ConfigSystem.bufOldData m := by
  rw [bufOldData, ConfigSystem.bufOldData, value_bind, value_readInto, value_readInto]

/-! ## Reads and addresses inside the sector -/

def InSector (a : Nat) : Prop := cfgOrigin ≤ a ∧ a < cfgEnd

theorem readsIn_readInto {offset : Nat} {buf : List UInt8} {m : Mem}
    (h : offset + buf.length ≤ cfgSize) :
    ReadsIn InSector (readInto (cfgOrigin + offset) buf) m := by
  refine .ite (fun _ => readsIn_pure _) fun _ => readsIn_readAll fun i hi => ?_
  simp only [cfgSize] at h
  simp only [InSector, cfgOrigin, cfgEnd]
  omega

section

variable {unit : CrcUnit} {m : Mem}

theorem readsIn_crcLoop {dr : UInt32} {count : Nat} (h : 4 + 4 * count ≤ cfgSize) :
    ReadsIn InSector (crcLoop unit dr count) m := by
  induction count with
  | zero => exact readsIn_pure _
  | succ count ih =>
      refine .bind (ih (by omega)) (.bind ?_ (readsIn_pure _))
      rw [Nat.add_assoc]
      exact readsIn_readInto (by rw [List.length_replicate]; omega)

theorem readsIn_validateLoop {endData offsetRead : Nat} {s : Store} (h : endData ≤ cfgSize)
    (hoffset : offsetRead ≤ endData) :
    ReadsIn InSector (validateLoop endData offsetRead s) m := by
  induction hn : endData - offsetRead using Nat.strongRecOn generalizing offsetRead s with
  | ind n ih =>
      subst hn
      rw [validateLoop]
      refine .bind (readsIn_readInto (by rw [List.length_replicate]; omega)) ?_
      split
      · refine .ite (fun hmore => ?_) fun _ => .ite (fun _ => readsIn_pure _)
          fun _ => readsIn_pure _
        exact ih _ (by omega) (by omega) rfl
      · exact readsIn_pure _

/-- With a size word that leaves room for itself and the checksum word nothing
outside the sector is read. -/
theorem readsIn_configValidate {s : Store}
    (h : ofLe (readBytes m cfgOrigin 4) + 8 ≤ cfgSize) :
    ReadsIn InSector (configValidate unit s) m := by
  have hword : (readInto cfgOrigin (List.replicate 4 0)).value m = readBytes m cfgOrigin 4 := by
    rw [value_readInto, readInto_eq_readBytes m _ (by decide) (by decide)]
    rfl
  have hwrap : (4 + ofLe (readBytes m cfgOrigin 4)) % 2 ^ 32 =
      4 + ofLe (readBytes m cfgOrigin 4) := by
    simp only [cfgSize] at h
    omega
  rw [configValidate]
  refine .bind (@readsIn_readInto 0 _ _ (by decide)) ?_
  simp only [hword, hwrap]
  refine .ite (fun _ => readsIn_pure _) fun _ => .bind (readsIn_crcLoop (by omega)) (.bind
    (readsIn_readInto (by rw [List.length_replicate]; omega)) (.ite (fun _ => readsIn_pure _)
      fun _ => readsIn_validateLoop (by omega) (by omega)))

theorem readsIn_bufOldData (h : ofLe (readBytes m cfgOrigin 4) + 8 ≤ cfgSize) :
    ReadsIn InSector bufOldData m := by
  have hword : (readInto cfgOrigin (List.replicate 4 0)).value m = readBytes m cfgOrigin 4 := by
    rw [value_readInto, readInto_eq_readBytes m _ (by decide) (by decide)]
    rfl
  rw [bufOldData]
  refine .bind (@readsIn_readInto 0 _ _ (by decide)) ?_
  rw [hword]
  refine @readsIn_readInto 0 _ _ ?_
  simp only [cfgSize, List.length_replicate] at h ⊢
  omega

end

/-- A row is left as it is or gets the address of an entry for it. -/
def Located (es : List LocatedEntry) (e e' : ConfigEntry) : Prop :=
  e'.dataAbsAddress = e.dataAbsAddress ∨ ∃ x ∈ es, Matches e x ∧ e'.dataAbsAddress = x.address

theorem findEntry_located {x : LocatedEntry} (hkey : ∀ b ∈ x.entry.key, b ≠ 0)
    {table table' : List ConfigEntry}
    (hfind : findEntry (x.entry.key ++ [0]) x.entry.value.length x.address table = some table') :
    List.Forall₂ (Located [x]) table table' := by
  induction table generalizing table' with
  | nil => simp [findEntry] at hfind
  | cons e table ih =>
      simp only [findEntry, nameMatches_iff hkey] at hfind
      by_cases he : x.entry.key = e.key ∧ x.entry.value.length = e.size
      · rw [if_pos he] at hfind
        obtain rfl := Option.some.inj hfind
        exact .cons (.inr ⟨x, List.mem_singleton_self x, he, rfl⟩)
          (List.forall₂_same.mpr fun _ _ => .inl rfl)
      · rw [if_neg he] at hfind
        obtain ⟨rest, hrest, rfl⟩ := Option.map_eq_some_iff.mp hfind
        exact .cons (.inl rfl) (ih hrest)

theorem acceptEntry_located {x : LocatedEntry} (hkey : ∀ b ∈ x.entry.key, b ≠ 0) (s : Store) :
    List.Forall₂ (Located [x]) s.table (acceptEntry s x).table := by
  rw [acceptEntry]
  split
  · rename_i table hfind
    exact findEntry_located hkey hfind
  · exact List.forall₂_same.mpr fun _ _ => .inl rfl

theorem located_trans {x : LocatedEntry} {es : List LocatedEntry}
    {xs ys zs : List ConfigEntry} (hrows : List.Forall₂ SameRow xs ys)
    (h : List.Forall₂ (Located [x]) xs ys) (h' : List.Forall₂ (Located es) ys zs) :
    List.Forall₂ (Located (x :: es)) xs zs := by
  induction hrows generalizing zs with
  | nil =>
      cases h'
      exact .nil
  | cons hrow _ ih =>
      cases h with
      | cons hfirst hrest =>
          cases h' with
          | cons hfirst' hrest' =>
              refine .cons ?_ (ih hrest hrest')
              rcases hfirst' with hsame | ⟨y, hy, hmatches, haddress⟩
              · rcases hfirst with hsame' | ⟨y, hy, hmatches, haddress⟩
                · exact .inl (hsame.trans hsame')
                · obtain rfl := List.mem_singleton.mp hy
                  exact .inr ⟨y, by simp, hmatches, hsame.trans haddress⟩
              · rw [Matches, hrow.key, hrow.size] at hmatches
                exact .inr ⟨y, by simp [hy], hmatches, haddress⟩

theorem foldl_acceptEntry_located {es : List LocatedEntry}
    (hwf : ∀ x ∈ es, x.entry.WellFormed) (s : Store) :
    List.Forall₂ (Located es) s.table (es.foldl acceptEntry s).table := by
  induction es generalizing s with
  | nil => exact List.forall₂_same.mpr fun _ _ => .inl rfl
  | cons x es ih =>
      exact located_trans (acceptEntry_rows s x)
        (acceptEntry_located (hwf x (by simp)).key_ne_nul s)
        (ih (fun y hy => hwf y (by simp [hy])) _)

/-- An accepted image and everything that is read of it lie in the sector. -/
structure Inside (unit : CrcUnit) (s : Store) : Prop where
  image : cfgOrigin + (4 + ofLe (readBytes s.dev.mem cfgOrigin 4) + 4) ≤ cfgEnd
  reads : ReadsIn InSector (configValidate unit s) s.dev.mem
  addresses : ∀ (i : Nat) (e e' : ConfigEntry), s.table[i]? = some e →
    (ConfigSystem.configValidate unit s).2.table[i]? = some e' →
    e'.dataAbsAddress ≠ e.dataAbsAddress →
    cfgOrigin ≤ e'.dataAbsAddress ∧ e'.dataAbsAddress + e.size ≤ cfgEnd
  copy : ReadsIn InSector bufOldData s.dev.mem

/-- What is accepted lies in the sector if its size word says so, which is not
what the limit of `config_validate` says. -/
theorem inside_iff {unit : CrcUnit} {s : Store}
    (hok : (ConfigSystem.configValidate unit s).1 = .ok) :
    Inside unit s ↔ ofLe (readBytes s.dev.mem cfgOrigin 4) + 8 ≤ cfgSize := by
  constructor
  · intro hinside
    have himage := hinside.image
    simp only [cfgOrigin, cfgEnd, cfgSize] at himage ⊢
    omega
  · intro hsize
    obtain ⟨-, -, es, hes⟩ := (configValidate_eq_ok_iff unit s).mp hok
    refine ⟨?_, readsIn_configValidate hsize, ?_, readsIn_bufOldData hsize⟩
    · simp only [cfgOrigin, cfgEnd, cfgSize] at hsize ⊢
      omega
    · intro i e e' he he' hne
      rw [configValidate_accepted hok hes] at he'
      obtain ⟨hi, rfl⟩ := List.getElem?_eq_some_iff.mp he
      obtain ⟨hi', rfl⟩ := List.getElem?_eq_some_iff.mp he'
      have hrow := (List.forall₂_iff_get.mp
        (foldl_acceptEntry_located hes.wellFormed (parserStart unit s))).2 i hi hi'
      obtain ⟨x, hx, hmatches, haddress⟩ := hrow.resolve_left hne
      have hstored : (ConfigSts.ok, acceptImage (parserStart unit s) es).2.table[i].dataAbsAddress =
          x.address := haddress
      have hlen : x.entry.value.length = s.table[i].size := hmatches.2
      obtain ⟨hlo, hhi⟩ := hes.address_bounds x hx
      simp only [readBytes_length, areaOrigin, cfgSize, cfgOrigin] at hlo hhi hsize
      rw [hstored, ← hlen]
      simp only [cfgOrigin, cfgEnd]
      omega

theorem inside_iff_byteImage :
    ∃ m, Inside .stm32 (powerUp m [byteRow]) ↔
      ofLe (readBytes m cfgOrigin 4) + 8 ≤ cfgSize := by
  obtain ⟨m, hm⟩ := exists_byteImage
  exact ⟨m, inside_iff (hm [byteRow]).1⟩

/-- Flash that holds a byte string from the start of the sector on. -/
def sectorWith (bytes : List UInt8) : Mem := fun a => bytes.getD (a - cfgOrigin) 0

theorem readBytes_sectorWith (bytes : List UInt8) :
    readBytes (sectorWith bytes) cfgOrigin bytes.length = bytes := by
  rw [readBytes_eq_iff]
  intro i hi
  rw [sectorWith, Nat.add_sub_cancel_left, List.getD_eq_getElem _ _ hi]

/-- A data area of zeros that fills the sector has its checksum word behind the
sector, where the application is, and is accepted. -/
theorem not_inside_fullSector :
    ∃ s, (ConfigSystem.configValidate .stm32 s).1 = .ok ∧ ¬ Inside .stm32 s := by
  obtain ⟨area, harea⟩ : ∃ area, area = List.replicate 65536 (0 : UInt8) := ⟨_, rfl⟩
  have hlen : area.length = 65536 := by rw [harea, List.length_replicate]
  have hstored := readBytes_sectorWith (imageBytes .stm32 area)
  obtain ⟨m, hm⟩ : ∃ m, m = sectorWith (imageBytes .stm32 area) := ⟨_, rfl⟩
  rw [← hm, imageBytes, readBytes_append_iff, readBytes_append_iff] at hstored
  obtain ⟨⟨hword, hdata⟩, hcrc⟩ := hstored
  simp only [List.length_append, le32_length, hlen] at hword hdata hcrc
  have hsize : ofLe (readBytes m cfgOrigin 4) = 65536 := by
    rw [hword, ofLe_le32 (by norm_num)]
  have hok : (ConfigSystem.configValidate .stm32 (powerUp m [])).1 = .ok := by
    refine (configValidate_eq_ok_iff .stm32 (powerUp m [])).mpr ?_
    simp only [powerUp, hsize]
    refine ⟨by decide, ?_, [], ?_⟩
    · rw [CrcOk, readBytes_add, hword, hdata, hcrc, ofLe_le32 (UInt32.toNat_lt _)]
    · rw [areaOrigin, hdata, harea]
      exact .replicate_zero _ _
  refine ⟨powerUp m [], hok, fun hinside => ?_⟩
  have himage := hinside.image
  simp only [powerUp] at himage
  rw [hsize] at himage
  exact absurd himage (by decide)

end ShGateway.ConfigBounds
