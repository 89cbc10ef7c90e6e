import ShGateway.ConfigSave

namespace ShGateway.ConfigRoundTrip

open ShGateway.ConfigFormat
open ShGateway.ConfigParser
open ShGateway.ConfigSave
open ShGateway.ConfigSystem
open ShGateway.Crc
open ShGateway.Lib.ByteWords
open ShGateway.Lib.NorFlash
open ShGateway.Platform

/-! ## Addresses stored in the table -/

theorem findEntry_skip {name : List UInt8} {length address : Nat}
    {done : List ConfigEntry} (h : ∀ e ∈ done, nameMatches name e.key = false)
    (rest : List ConfigEntry) :
    findEntry name length address (done ++ rest) =
      (findEntry name length address rest).map (done ++ ·) := by
  induction done with
  | nil => simp
  | cons e done ih =>
      have hhead : ¬ (nameMatches name e.key = true ∧ length = e.size) := by
        rw [h e (by simp)]
        simp
      rw [List.cons_append, findEntry, if_neg hhead, ih fun f hf => h f (by simp [hf]),
        Option.map_map]
      rfl

/-- The row and the stored entry have the same key and size. -/
def Matches (e : ConfigEntry) (l : LocatedEntry) : Prop :=
  l.entry.key = e.key ∧ l.entry.value.length = e.size

/-- A row with the address of its entry. -/
def addressed (e : ConfigEntry) (l : LocatedEntry) : ConfigEntry :=
  { e with dataAbsAddress := l.address }

theorem foldl_acceptEntry_table {done rest : List ConfigEntry}
    {es : List LocatedEntry} {s : Store} (hs : s.table = done ++ rest)
    (hkeys : ((done ++ rest).map ConfigEntry.key).Nodup)
    (hmatch : List.Forall₂ Matches rest es) :
    (es.foldl acceptEntry s).table = done ++ List.zipWith addressed rest es := by
  induction hmatch generalizing done s with
  | nil => simpa using hs
  | @cons e l rest es hel _ ih =>
      obtain ⟨hkey, hsize⟩ := hel
      have hother : ∀ f ∈ done, nameMatches (l.entry.key ++ [0]) f.key = false := by
        intro f hf
        rw [← Bool.not_eq_true, hkey, nameMatches_iff e.key_ne_nul]
        rintro heq
        rw [List.map_append, List.nodup_append] at hkeys
        exact hkeys.2.2 f.key (List.mem_map_of_mem hf) e.key (by simp) heq.symm
      have hself : nameMatches (l.entry.key ++ [0]) e.key = true := by
        rw [hkey]
        exact (nameMatches_iff e.key_ne_nul).mpr rfl
      have htable : (acceptEntry s l).table = done ++ [addressed e l] ++ rest := by
        simp only [acceptEntry, hs, findEntry_skip hother, findEntry, hself, hsize,
          and_self, if_true, Option.map_some]
        simp [addressed]
      rw [List.foldl_cons, ih htable (by simpa [addressed] using hkeys)]
      simp

/-! ## The round trip -/

/-- Rows that differ at most in the contents of their variable. -/
structure Overwritten (e f : ConfigEntry) : Prop extends SameRow e f where
  address : f.dataAbsAddress = e.dataAbsAddress

/-- The second row points at the stored value of the first. -/
structure PointsAt (m : Mem) (e f : ConfigEntry) : Prop extends SameRow e f where
  stored : readBytes m f.dataAbsAddress e.size = e.value
  lower : areaOrigin < f.dataAbsAddress
  upper : f.dataAbsAddress + e.size ≤ cfgEnd

/-- Rows with the same variable contents. -/
structure Restored (e f : ConfigEntry) : Prop extends SameRow e f where
  data : f.data = e.data

theorem matches_of_sameRow {e f : ConfigEntry} (h : SameRow e f) (address : Nat) :
    Matches f ⟨stored e, address⟩ :=
  ⟨h.key.symm, by simp only [stored, e.value_length, h.size]⟩

theorem forall₂_matches {table rows : List ConfigEntry}
    (h : List.Forall₂ SameRow table rows) (pos : Nat) :
    List.Forall₂ Matches rows (locate pos (table.map stored)) := by
  induction h generalizing pos with
  | nil => exact .nil
  | cons hrow _ ih => exact .cons (matches_of_sameRow hrow _) (ih _)

theorem map_address_zipWith {rows : List ConfigEntry} {es : List LocatedEntry}
    (h : List.Forall₂ Matches rows es) :
    (List.zipWith addressed rows es).map ConfigEntry.dataAbsAddress =
      es.map LocatedEntry.address := by
  induction h with
  | nil => rfl
  | cons _ _ ih => simp [addressed, ih]

theorem map_key_eq {table rows : List ConfigEntry}
    (h : List.Forall₂ SameRow table rows) :
    rows.map ConfigEntry.key = table.map ConfigEntry.key := by
  induction h with
  | nil => rfl
  | cons hrow _ ih => simp [hrow.key, ih]

theorem forall₂_pointsAt {table rows : List ConfigEntry} {m : Mem} {pos : Nat}
    (hrows : List.Forall₂ SameRow table rows)
    (hvalue : ∀ l ∈ locate pos (table.map stored),
      readBytes m l.address l.entry.value.length = l.entry.value)
    (hbounds : ∀ l ∈ locate pos (table.map stored),
      areaOrigin < l.address ∧ l.address + l.entry.value.length ≤ cfgEnd) :
    List.Forall₂ (PointsAt m) table
      (List.zipWith addressed rows (locate pos (table.map stored))) := by
  induction hrows generalizing pos with
  | nil => exact .nil
  | @cons e f table rows hrow _ ih =>
      simp only [List.map_cons, locate, List.mem_cons, forall_eq_or_imp] at hvalue hbounds
      simp only [List.map_cons, locate, List.zipWith_cons_cons]
      refine .cons ⟨⟨hrow.key, hrow.size, hrow.null⟩, ?_, hbounds.1.1, ?_⟩
        (ih hvalue.2 hbounds.2)
      · simpa [addressed, stored, e.value_length] using hvalue.1
      · simpa [addressed, stored, e.value_length] using hbounds.1.2

theorem readEntry_restores {m : Mem} {e f g : ConfigEntry} (hpoints : PointsAt m e f)
    (hsize : e.size ≠ 0) (hlater : Overwritten f g) : Restored e (readEntry m g) := by
  have hkey := hlater.key.trans hpoints.key
  have hgsize := hlater.size.trans hpoints.size
  have hnull := hlater.null.trans hpoints.null
  have hlower := hpoints.lower
  have hupper := hpoints.upper
  rcases hg : g.data with _ | d
  · have hread : readEntry m g = g := by
      unfold readEntry
      split
      · rfl
      · simp_all
    rw [hread]
    exact ⟨⟨hkey, hgsize, hnull⟩, hg.trans (hnull.mp hg).symm⟩
  · have hlen : d.length = e.size := (g.data_length d hg).trans hgsize
    have haddr : g.dataAbsAddress = f.dataAbsAddress := hlater.address
    have hcopy : readInto m g.dataAbsAddress d = e.value := by
      rw [haddr, readInto_eq_readBytes, hlen, hpoints.stored]
      · simp only [areaOrigin, cfgOrigin, flashStart] at *
        omega
      · simp only [cfgEnd, flashFinish] at *
        omega
    have hne : e.data ≠ none := fun hnone => by
      rw [hnull.mpr hnone] at hg
      exact absurd hg (by simp)
    obtain ⟨old, hold⟩ := Option.ne_none_iff_exists'.mp hne
    have hvalue : e.value = old := by simp [ConfigEntry.value, hold]
    have hdata : (readEntry m g).data = some old := by
      unfold readEntry
      split
      · simp_all
      · rename_i d' hd'
        obtain rfl : d' = d := Option.some.inj (hd'.symm.trans hg)
        rw [if_pos ⟨by simp only [areaOrigin] at hlower; omega, by omega⟩]
        simp only [hcopy, hvalue]
    have hrest : (readEntry m g).key = g.key ∧ (readEntry m g).size = g.size := by
      unfold readEntry
      split
      · simp
      · split_ifs <;> simp
    refine ⟨⟨hrest.1.trans hkey, hrest.2.trans hgsize, ?_⟩, hdata.trans hold.symm⟩
    simp [hdata, hold]

theorem forall₂_restored {m : Mem} {table rows later : List ConfigEntry}
    (hstorable : ∀ e ∈ table, Storable e)
    (hpoints : List.Forall₂ (PointsAt m) table rows)
    (hlater : List.Forall₂ Overwritten rows later) :
    List.Forall₂ Restored table (later.map (readEntry m)) := by
  induction hpoints generalizing later with
  | nil =>
      cases hlater
      exact .nil
  | cons hrow _ ih =>
      simp only [List.mem_cons, forall_eq_or_imp] at hstorable
      cases hlater with
      | cons hg hlater =>
          exact .cons (readEntry_restores hrow hstorable.1.size_pos hg)
            (ih hstorable.2 hlater)

/-- Validating a saved table, whatever its variables hold by then, leaves every
row pointing at its stored value. -/
theorem configValidate_saved {unit : CrcUnit} {s s' v : Store}
    (hkeys : (s.table.map ConfigEntry.key).Nodup)
    (hstorable : ∀ e ∈ s.table, Storable e) (hne : s.table ≠ [])
    (hsaved : Saved unit (s.table.map stored) s s')
    (hmem : v.dev.mem = s'.dev.mem) (hrows : List.Forall₂ SameRow s.table v.table) :
    ∃ v', configValidate unit v = (.ok, v') ∧ v'.dev = v.dev ∧
      v'.table.map ConfigEntry.dataAbsAddress =
        (locate areaOrigin (s.table.map stored)).map LocatedEntry.address ∧
      List.Forall₂ (PointsAt v.dev.mem) s.table v'.table := by
  have hwf := wellFormed_stored hstorable
  have himage := hsaved.isImage hwf (by simpa using hne)
  rw [← hmem] at himage
  have hmatch := forall₂_matches hrows areaOrigin
  have htable := @foldl_acceptEntry_table [] _ _ { v with
      configValid := false
      crcDr := crc32 unit (le32 (imageArea (s.table.map stored)).length ++
        imageArea (s.table.map stored))
      parser := {} } rfl (by simpa [map_key_eq hrows] using hkeys) hmatch
  rw [List.nil_append] at htable
  have hbounds := himage.area_entries.address_bounds
  have hmax := himage.size_max
  refine ⟨_, configValidate_of_isImage himage, ?_, ?_, ?_⟩
  · simp only [acceptImage, foldl_acceptEntry_dev]
  · simp only [acceptImage, htable, map_address_zipWith hmatch]
  · simp only [acceptImage, htable]
    refine forall₂_pointsAt hrows
      (himage.area_entries.readBytes_value himage.parts.2.1) fun l hl => ?_
    have := hbounds l hl
    simp only [areaOrigin, cfgSize, cfgOrigin, cfgEnd] at *
    omega

/-- Bytes taken by the rows of a table: key, terminator, length, value. -/
def rowsLength (table : List ConfigEntry) : Nat :=
  (table.map fun e => e.key.length + 1 + 2 + e.size).sum

/-- The image of the table, rounded up to a multiple of four, fits the sector. -/
def Fits (table : List ConfigEntry) : Prop :=
  (4 + rowsLength table + 4 + 3) / 4 * 4 ≤ cfgSize
deriving Decidable

theorem entriesLength_stored (table : List ConfigEntry) :
    entriesLength (table.map stored) = rowsLength table := by
  induction table with
  | nil => rfl
  | cons e table ih =>
      rw [List.map_cons, entriesLength_cons, stored_bytes_length, ih]
      simp [rowsLength]

theorem Fits.imageArea {table : List ConfigEntry} (h : Fits table) :
    (imageArea (table.map stored)).length + 8 ≤ cfgSize := by
  have hlen := imageArea_length (table.map stored)
  have hmod := add_countZeros_mod (entriesLength (table.map stored))
  have hlt := countZeros_lt (entriesLength (table.map stored))
  rw [entriesLength_stored] at hlen hmod hlt
  simp only [Fits] at h
  omega

/-- Without a valid image `config_write_storage` programs the configuration
sector only, what it wrote validates and is read back exactly, and it succeeds
on every non-empty table that fits. -/
theorem configWriteStorage_roundTrip (unit : CrcUnit) (s : Store)
    (hkeys : (s.table.map ConfigEntry.key).Nodup)
    (hstorable : ∀ e ∈ s.table, Storable e) (hinvalid : s.configValid = false) :
    (∀ s', configWriteStorage .ideal unit s = some (.ok, s') →
      (∃ ops, s'.dev.ops = s.dev.ops ++ ops ∧ ∀ a b, .programByte a b ∈ ops →
        cfgOrigin ≤ a ∧ a < cfgOrigin + cfgSize) ∧
      ∀ v : Store, v.dev.mem = s'.dev.mem → List.Forall₂ SameRow s.table v.table →
        ∃ v', configValidate unit v = (.ok, v') ∧ v'.dev = v.dev ∧
          v'.table.map ConfigEntry.dataAbsAddress =
            (locate areaOrigin (s.table.map stored)).map LocatedEntry.address ∧
          List.Forall₂ (PointsAt v.dev.mem) s.table v'.table ∧
          ∀ r : Store, r.dev.mem = v'.dev.mem →
            List.Forall₂ Overwritten v'.table r.table →
            List.Forall₂ Restored s.table (configReadStorage r).table) ∧
    (s.table ≠ [] → Fits s.table →
      ∃ s', configWriteStorage .ideal unit s = some (.ok, s')) := by
  constructor
  · intro s' hok
    obtain ⟨hne, -, hsaved⟩ := @configWriteStorage_ok unit s s' [] []
      (by simp [hinvalid]) hok
    simp only [hinvalid, Bool.false_eq_true, if_false, List.nil_append] at hsaved
    constructor
    · obtain ⟨ops, hops, hrange, -⟩ := hsaved.dev.ops
      refine ⟨ops, hops, fun a b hmem => ?_⟩
      have hfits := hsaved.fits
      have := hrange a b hmem
      rw [imageBytes_length] at this
      omega
    · intro v hmem hrows
      obtain ⟨v', hvalid, hdev, haddr, hpoints⟩ :=
        configValidate_saved hkeys hstorable hne hsaved hmem hrows
      refine ⟨v', hvalid, hdev, haddr, hpoints, fun r hr hlater => ?_⟩
      rw [configReadStorage, hr, hdev]
      exact forall₂_restored hstorable hpoints hlater
  · intro hne hfits
    obtain ⟨s', hok⟩ := @writeFresh_fits unit s hstorable hfits.imageArea
    refine ⟨s', ?_⟩
    rw [configWriteStorage, if_neg (by simpa using hne), if_pos hinvalid, hok]

/-- A row `ip` with a variable of four bytes. -/
def ipRow : ConfigEntry where
  key := [105, 112]
  size := 4
  dataAbsAddress := 0
  data := some [192, 168, 0, 7]
  key_ne_nul := by simp
  size_lt := by decide
  data_length := by simp

/-- On an erased sector a table with one row is saved and validates. -/
theorem configWriteStorage_ipRow :
    ∃ s' v', configWriteStorage .ideal .stm32 (powerUp (fun _ => 0xFF) [ipRow]) =
        some (.ok, s') ∧
      configValidate .stm32 s' = (.ok, v') ∧
      v'.table.map ConfigEntry.dataAbsAddress = [cfgOrigin + 9] := by
  have hstorable : ∀ e ∈ [ipRow], Storable e := by
    simp only [List.mem_singleton, forall_eq]
    exact ⟨by decide, by decide, by decide⟩
  obtain ⟨hround, hok⟩ := configWriteStorage_roundTrip .stm32
    (powerUp (fun _ => 0xFF) [ipRow]) (by decide) hstorable rfl
  obtain ⟨s', hs'⟩ := hok (by simp [powerUp]) (by decide)
  obtain ⟨-, -, hsaved⟩ := @configWriteStorage_ok _ _ _ [] []
    (by simp [powerUp]) hs'
  obtain ⟨v', hv', -, haddr, -⟩ := (hround s' hs').2 s' rfl (by
    rw [hsaved.table]
    exact sameRows_refl _)
  exact ⟨s', v', hs', hv', haddr.trans (by decide)⟩

/-- A table without rows is never saved, although nothing of it can fail to
fit. -/
theorem configWriteStorage_empty :
    ¬ ∀ s : Store, (s.table.map ConfigEntry.key).Nodup →
      (∀ e ∈ s.table, Storable e) → s.configValid = false → Fits s.table →
      ∃ s', configWriteStorage .ideal .stm32 s = some (.ok, s') := by
  intro h
  obtain ⟨s', hs'⟩ := h (powerUp (fun _ => 0xFF) []) (by simp [powerUp])
    (by simp [powerUp]) rfl (show Fits [] by decide)
  simp [configWriteStorage, powerUp] at hs'

end ShGateway.ConfigRoundTrip
