import ShGateway.ConfigRoundTrip

namespace ShGateway.ConfigRuns

open ShGateway.ConfigFormat
open ShGateway.ConfigParser
open ShGateway.ConfigRoundTrip
open ShGateway.ConfigSave
open ShGateway.ConfigSystem
open ShGateway.Crc
open ShGateway.Lib.NorFlash
open ShGateway.Platform

/-- The entry table of a firmware: distinct keys of 1 to 30 characters, no
empty variable. -/
structure ProperTable (table : List ConfigEntry) : Prop where
  keys : (table.map ConfigEntry.key).Nodup
  storable : ∀ e ∈ table, Storable e

/-- One successful `config_write_storage` after the firmware has assigned its
variables, `rows` being the table at the time of the call. -/
structure Save (unit : CrcUnit) (s : Store) (rows : List ConfigEntry) (s' : Store) :
    Prop where
  assigned : List.Forall₂ Overwritten s.table rows
  ok : configWriteStorage .ideal unit { s with table := rows } = some (.ok, s')

/-- The store of a firmware with the given table that was started on the flash
contents `m`: after its validation, and after every successful save. -/
inductive Boot (unit : CrcUnit) (m : Mem) (table : List ConfigEntry) : Store → Prop
  | validated : Boot unit m table (configValidate unit (powerUp m table)).2
  | save {s s' : Store} {rows : List ConfigEntry} :
      Boot unit m table s → Save unit s rows s' → Boot unit m table s'

/-- A boot of any firmware finds an image in the sector. -/
def Validates (unit : CrcUnit) (m : Mem) : Prop :=
  (configValidate unit (powerUp m [])).1 = .ok

/-- Flash contents after a sequence of boots that started on a sector without a
valid image. -/
inductive Reachable (unit : CrcUnit) : Mem → Prop
  | initial {m : Mem} : ¬ Validates unit m → Reachable unit m
  | boot {m : Mem} {table : List ConfigEntry} {s : Store} :
      Reachable unit m → ProperTable table → Boot unit m table s →
      Reachable unit s.dev.mem

theorem configValidate_eq_ok_iff {unit : CrcUnit} (v : Store) :
    (configValidate unit v).1 = .ok ↔ Validates unit v.dev.mem := by
  rw [Validates, configValidate_sts_congr unit
    (show v.dev.mem = (powerUp v.dev.mem []).dev.mem from rfl)]

theorem Overwritten.sameRows {table rows : List ConfigEntry}
    (h : List.Forall₂ Overwritten table rows) : List.Forall₂ SameRow table rows :=
  h.imp fun _ _ hrow => hrow.toSameRow

theorem ProperTable.sameRows {table rows : List ConfigEntry} (h : ProperTable table)
    (hrows : List.Forall₂ SameRow table rows) : ProperTable rows where
  keys := by
    rw [map_key_eq hrows]
    exact h.keys
  storable := by
    have hstorable := h.storable
    clear h
    induction hrows with
    | nil => simp
    | cons hrow _ ih =>
        simp only [List.mem_cons, forall_eq_or_imp] at hstorable ⊢
        refine ⟨⟨?_, ?_, ?_⟩, ih hstorable.2⟩
        · rw [hrow.key]
          exact hstorable.1.key_ne_nil
        · rw [hrow.key]
          exact hstorable.1.key_short
        · rw [hrow.size]
          exact hstorable.1.size_pos

/-- A sector that validates holds an image of the documented format. -/
def Imaged (unit : CrcUnit) (m : Mem) : Prop :=
  Validates unit m → ∃ area es, IsImage unit m area es

/-- What holds of a store throughout a boot. -/
structure BootInv (unit : CrcUnit) (m : Mem) (table : List ConfigEntry) (s : Store) :
    Prop where
  rows : List.Forall₂ SameRow table s.table
  image : s.configValid = true → ∃ area es, IsImage unit s.dev.mem area es
  valid : Validates unit m → s.configValid = true
  imaged : Imaged unit s.dev.mem

theorem bootInv_validated {unit : CrcUnit} {m : Mem} (hm : Imaged unit m)
    (table : List ConfigEntry) :
    BootInv unit m table (configValidate unit (powerUp m table)).2 := by
  obtain ⟨hdev, hrows, hflag⟩ := configValidate_frame unit (powerUp m table)
  rw [configValidate_eq_ok_iff] at hflag
  refine ⟨hrows, fun hvalid => ?_, hflag.mpr, ?_⟩
  · rw [hdev]
    exact hm (hflag.mp hvalid)
  · rw [hdev]
    exact hm

/-- The entries in the sector after a save. -/
def savedEntries (valid : Bool) (old : List StoredEntry) (rows : List ConfigEntry) :
    List StoredEntry :=
  (if valid = true then foreign rows old else []) ++ rows.map stored

/-- A save replaces the image by the foreign entries of the old one, if there
was one, followed by the firmware's own entries. -/
theorem save_image {unit : CrcUnit} {m : Mem} {table rows : List ConfigEntry}
    {s s' : Store} (h : BootInv unit m table s) (hsave : Save unit s rows s') :
    ∃ area es, (s.configValid = true → IsImage unit s.dev.mem area es) ∧
      s'.table = rows ∧ s'.configValid = true ∧
      IsImage unit s'.dev.mem
        (imageArea (savedEntries s.configValid (es.map LocatedEntry.entry) rows))
        (locate areaOrigin
          (savedEntries s.configValid (es.map LocatedEntry.entry) rows)) := by
  have hold : ∃ area es, s.configValid = true → IsImage unit s.dev.mem area es := by
    by_cases hvalid : s.configValid = true
    · obtain ⟨area, es, himage⟩ := h.image hvalid
      exact ⟨area, es, fun _ => himage⟩
    · exact ⟨[], [], fun hv => absurd hv hvalid⟩
  obtain ⟨area, es, himage⟩ := hold
  obtain ⟨hne, hstorable, hsaved⟩ := configWriteStorage_ok (by exact himage) hsave.ok
  refine ⟨area, es, himage, hsaved.table, hsaved.valid, hsaved.isImage ?_ ?_⟩
  · by_cases hvalid : s.configValid = true
    · simp only [hvalid, if_true]
      exact wellFormed_foreign_append (himage hvalid) hstorable
    · simp only [hvalid]
      exact wellFormed_stored hstorable
  · simpa using fun _ => hne

theorem bootInv_save {unit : CrcUnit} {m : Mem} {table rows : List ConfigEntry}
    {s s' : Store} (h : BootInv unit m table s) (hsave : Save unit s rows s') :
    BootInv unit m table s' := by
  obtain ⟨area, es, -, htable, hvalid, himage⟩ := save_image h hsave
  refine ⟨?_, fun _ => ⟨_, _, himage⟩, fun _ => hvalid, fun _ => ⟨_, _, himage⟩⟩
  rw [htable]
  exact sameRows_trans h.rows (Overwritten.sameRows hsave.assigned)

theorem boot_inv {unit : CrcUnit} {m : Mem} {table : List ConfigEntry} {s : Store}
    (hm : Imaged unit m) (h : Boot unit m table s) : BootInv unit m table s := by
  induction h with
  | validated => exact bootInv_validated hm table
  | save _ hsave ih => exact bootInv_save ih hsave

theorem reachable_imaged {unit : CrcUnit} {m : Mem} (h : Reachable unit m) :
    Imaged unit m := by
  induction h with
  | initial hm => exact fun hvalid => absurd hvalid hm
  | boot _ _ hboot ih => exact (boot_inv ih hboot).imaged

theorem exists_save {unit : CrcUnit} {m : Mem} {table : List ConfigEntry} {s : Store}
    (htable : ProperTable table) (hne : table ≠ []) (h : BootInv unit m table s)
    {area : List UInt8} {es : List LocatedEntry}
    (himage : s.configValid = true → IsImage unit s.dev.mem area es)
    (hfits : (imageArea (savedEntries s.configValid (es.map LocatedEntry.entry)
      s.table)).length + 8 ≤ cfgSize) :
    ∃ s', Save unit s s.table s' := by
  have hsame : List.Forall₂ Overwritten s.table s.table :=
    List.forall₂_same.mpr fun e _ => ⟨.refl e, rfl⟩
  have hproper := htable.sameRows h.rows
  have hrows : s.table.length ≠ 0 := by
    rw [← h.rows.length_eq]
    simpa using hne
  cases hvalid : s.configValid with
  | false =>
      simp only [hvalid, savedEntries, Bool.false_eq_true, if_false, List.nil_append]
        at hfits
      obtain ⟨s', hok⟩ := @writeFresh_fits unit s hproper.storable hfits
      exact ⟨s', hsame, by rw [configWriteStorage, if_neg hrows, if_pos hvalid, hok]⟩
  | true =>
      simp only [hvalid, savedEntries, if_true] at hfits
      obtain ⟨s', hok⟩ := writePreserve_fits (himage hvalid) hproper.storable hfits
      exact ⟨s', hsame, by
        rw [configWriteStorage, if_neg hrows, if_neg (by simp [hvalid]), hok]⟩

/-! ## Entries by key -/

theorem isNative_eq_true_iff {table : List ConfigEntry} {key : List UInt8} :
    isNative table key = true ↔ key ∈ table.map ConfigEntry.key := by
  simp only [isNative, List.any_eq_true, decide_eq_true_eq, List.mem_map]
  constructor
  · rintro ⟨e, he, hkey⟩
    exact ⟨e, he, hkey.symm⟩
  · rintro ⟨e, he, hkey⟩
    exact ⟨e, he, hkey.symm⟩

theorem foreign_stored (rows : List ConfigEntry) : foreign rows (rows.map stored) = [] := by
  rw [foreign, List.filter_eq_nil_iff]
  intro e he
  obtain ⟨row, hrow, rfl⟩ := List.mem_map.mp he
  have hnative : isNative rows row.key = true :=
    isNative_eq_true_iff.mpr (List.mem_map_of_mem hrow)
  simp [stored, hnative]

theorem foreign_foreign (rows : List ConfigEntry) (es : List StoredEntry) :
    foreign rows (foreign rows es) = foreign rows es := by
  simp [foreign]

theorem filter_stored {rows : List ConfigEntry}
    (hkeys : (rows.map ConfigEntry.key).Nodup) {e : ConfigEntry} (he : e ∈ rows) :
    (rows.map stored).filter (fun x => x.key = e.key) = [stored e] := by
  induction rows with
  | nil => simp at he
  | cons row rows ih =>
      rw [List.map_cons, List.nodup_cons] at hkeys
      rcases List.mem_cons.mp he with rfl | he
      · have hrest : (rows.map stored).filter (fun x => x.key = e.key) = [] := by
          rw [List.filter_eq_nil_iff]
          intro x hx
          obtain ⟨row, hrow, rfl⟩ := List.mem_map.mp hx
          intro hkey
          have hkey : row.key = e.key := of_decide_eq_true hkey
          exact hkeys.1 (hkey ▸ List.mem_map_of_mem hrow)
        rw [List.map_cons, List.filter_cons_of_pos (by simp [stored]), hrest]
      · have hne : row.key ≠ e.key := fun hkey =>
          hkeys.1 (hkey ▸ List.mem_map_of_mem he)
        rw [List.map_cons, List.filter_cons_of_neg (by simp [stored, hne]),
          ih hkeys.2 he]

theorem filter_foreign {rows : List ConfigEntry} {e : ConfigEntry} (he : e ∈ rows)
    (es : List StoredEntry) :
    (foreign rows es).filter (fun x => x.key = e.key) = [] := by
  rw [List.filter_eq_nil_iff]
  intro x hx
  have hforeign := (List.mem_filter.mp hx).2
  simp only [decide_eq_true_eq]
  intro hkey
  have hnative : isNative rows x.key = true :=
    isNative_eq_true_iff.mpr (hkey ▸ List.mem_map_of_mem he)
  simp [hnative] at hforeign

/-! ## Main theorem -/

/-- After every successful save of every boot the sector validates, holds every
key of the running firmware exactly once with its current value and, if the
boot had found an image, besides these exactly the entries of the previous image
with other keys, in their order. -/
theorem save_keeps_entries {unit : CrcUnit} {m : Mem} {table rows : List ConfigEntry}
    {s s' : Store} (hm : Reachable unit m) (htable : ProperTable table)
    (hboot : Boot unit m table s) (hsave : Save unit s rows s') :
    (∀ v : Store, v.dev.mem = s'.dev.mem → (configValidate unit v).1 = .ok) ∧
      ∃ area es, IsImage unit s'.dev.mem area es ∧
        (∀ e ∈ rows, (es.map LocatedEntry.entry).filter (fun x => x.key = e.key) =
          [⟨e.key, e.value⟩]) ∧
        ((configValidate unit (powerUp m table)).1 = .ok →
          ∃ oldArea old, IsImage unit s.dev.mem oldArea old ∧
            (es.map LocatedEntry.entry).filter
                (fun x => x.key ∉ rows.map ConfigEntry.key) =
              (old.map LocatedEntry.entry).filter
                (fun x => x.key ∉ rows.map ConfigEntry.key)) := by
  have hinv := boot_inv (reachable_imaged hm) hboot
  have hproper := htable.sameRows
    (sameRows_trans hinv.rows (Overwritten.sameRows hsave.assigned))
  obtain ⟨area, old, hold, -, -, himage⟩ := save_image hinv hsave
  have hforeign : ∀ es : List StoredEntry,
      es.filter (fun x => x.key ∉ rows.map ConfigEntry.key) = foreign rows es := by
    intro es
    rw [foreign]
    congr 1
    funext x
    rw [Bool.eq_iff_iff]
    simp [← isNative_eq_true_iff]
  refine ⟨fun v hv => ?_, _, _, himage, ?_, ?_⟩
  · rw [configValidate_of_isImage (by rw [hv]; exact himage)]
  · intro e he
    have hnone : (if s.configValid = true then
        foreign rows (old.map LocatedEntry.entry) else []).filter
          (fun x => x.key = e.key) = [] := by
      split_ifs
      · exact filter_foreign he _
      · rfl
    rw [locate_map_entry, savedEntries, List.filter_append, hnone, List.nil_append,
      filter_stored hproper.keys he, stored]
  · intro hboot
    have hvalid := hinv.valid ((configValidate_eq_ok_iff _).mp hboot)
    refine ⟨area, old, hold hvalid, ?_⟩
    rw [locate_map_entry, hforeign, hforeign, savedEntries, if_pos hvalid, foreign,
      List.filter_append]
    have hown := foreign_stored rows
    have hidem := foreign_foreign rows (old.map LocatedEntry.entry)
    rw [foreign] at hown hidem
    rw [hown, hidem, List.append_nil]

/-- A row `port` with a variable of two bytes. -/
def portRow : ConfigEntry where
  key := [112, 111, 114, 116]
  size := 2
  dataAbsAddress := 0
  data := some [69, 0]
  key_ne_nul := by simp
  size_lt := by decide
  data_length := by simp

theorem properTable_singleton {e : ConfigEntry} (h : Storable e) : ProperTable [e] where
  keys := by simp
  storable := by simpa using h

/-- A firmware with a row `ip` saves on an erased sector; another firmware with
a row `port` boots on the result and saves too, which keeps `ip`. -/
theorem save_keeps_ip :
    ∃ m s rows s', Reachable .stm32 m ∧ Boot .stm32 m [portRow] s ∧
      Save .stm32 s rows s' ∧ ∃ area es, IsImage .stm32 s'.dev.mem area es ∧
        (es.map LocatedEntry.entry).filter
          (fun x => x.key ∉ rows.map ConfigEntry.key) = [stored ipRow] := by
  have hip : ProperTable [ipRow] :=
    properTable_singleton ⟨by decide, by decide, by decide⟩
  have hport : ProperTable [portRow] :=
    properTable_singleton ⟨by decide, by decide, by decide⟩
  have hblank : Reachable .stm32 (fun _ => 0xFF) := by
    refine .initial ?_
    rw [Validates, configValidate_wrongSize rfl (by decide)]
    decide
  -- the first firmware finds no image
  have hboot₀ : Boot .stm32 (fun _ => 0xFF) [ipRow] _ := .validated
  have hinv₀ := boot_inv (reachable_imaged hblank) hboot₀
  rw [configValidate_wrongSize rfl (by decide)] at hboot₀ hinv₀
  obtain ⟨s₁, hsave₁⟩ := @exists_save _ _ _ _ hip (by simp) hinv₀ [] []
    (by simp) (by decide)
  obtain ⟨area₁, es₁, -, -, -, himage₁⟩ := save_image hinv₀ hsave₁
  have hm : Reachable .stm32 s₁.dev.mem := .boot hblank hip (.save hboot₀ hsave₁)
  change IsImage .stm32 s₁.dev.mem (imageArea [stored ipRow])
    (locate areaOrigin [stored ipRow]) at himage₁
  -- the second one finds the image of the first
  have hvalid := @configValidate_of_isImage .stm32 (powerUp s₁.dev.mem [portRow]) _ _
    himage₁
  have hboot₁ : Boot .stm32 s₁.dev.mem [portRow] _ := .validated
  have hinv₁ := boot_inv (reachable_imaged hm) hboot₁
  rw [hvalid] at hboot₁ hinv₁
  obtain ⟨s₂, hsave₂⟩ := exists_save hport (by simp) hinv₁ (fun _ => himage₁) (by
    change (imageArea (savedEntries true [stored ipRow] [portRow])).length + 8 ≤ cfgSize
    decide)
  obtain ⟨-, area, es, himage, -, hkept⟩ := save_keeps_entries hm hport hboot₁ hsave₂
  obtain ⟨oldArea, old, hold, hsame⟩ := hkept (by rw [hvalid])
  obtain ⟨-, rfl⟩ := hold.unique himage₁
  exact ⟨_, _, _, _, hm, hboot₁, hsave₂, area, es, himage, hsame.trans rfl⟩

end ShGateway.ConfigRuns
