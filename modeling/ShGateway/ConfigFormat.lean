import ShGateway.Crc
import ShGateway.Platform

/-!
The documented format of the configuration sector: a size word, the entries
with zero padding, and a checksum over both.
-/

namespace ShGateway.ConfigFormat

open ShGateway.Crc
open ShGateway.Lib.ByteWords
open ShGateway.Lib.NorFlash
open ShGateway.Platform

/-- A key and its value as kept in the store. -/
structure StoredEntry where
  key : List UInt8
  value : List UInt8
deriving DecidableEq, Repr

/-- Entries the format can hold. -/
structure StoredEntry.WellFormed (e : StoredEntry) : Prop where
  key_ne_nul : ∀ b ∈ e.key, b ≠ 0
  key_ne_nil : e.key ≠ []
  key_short : e.key.length ≤ 31
  value_ne_nil : e.value ≠ []
  value_short : e.value.length < 65536

/-- Key with terminator, value length, value. -/
def StoredEntry.bytes (e : StoredEntry) : List UInt8 :=
  e.key ++ [0] ++ le16 e.value.length ++ e.value

/-- An entry together with the address of its value. -/
structure LocatedEntry where
  entry : StoredEntry
  address : Nat
deriving DecidableEq, Repr

/-- `DataArea pos area es`: stored from address `pos` on, `area` consists of the
entries `es` in this order, with zeros before, between and after them. -/
inductive DataArea : Nat → List UInt8 → List LocatedEntry → Prop
  | nil (pos : Nat) : DataArea pos [] []
  | pad {pos : Nat} {area : List UInt8} {es : List LocatedEntry} :
      DataArea (pos + 1) area es → DataArea pos (0 :: area) es
  | entry {pos : Nat} {area : List UInt8} {es : List LocatedEntry}
      {e : StoredEntry} : e.WellFormed →
      DataArea (pos + e.bytes.length) area es →
      DataArea pos (e.bytes ++ area) (⟨e, pos + e.key.length + 3⟩ :: es)

@[simp] theorem StoredEntry.bytes_length (e : StoredEntry) :
    e.bytes.length = e.key.length + 3 + e.value.length := by
  simp only [bytes, List.length_append, List.length_singleton, le16_length]

theorem StoredEntry.WellFormed.bytes_eq_cons {e : StoredEntry} (h : e.WellFormed) :
    ∃ b rest, b ≠ 0 ∧ e.bytes = b :: rest := by
  rcases hkey : e.key with _ | ⟨b, key⟩
  · exact absurd hkey h.key_ne_nil
  · refine ⟨b, key ++ [0] ++ le16 e.value.length ++ e.value, ?_, by simp [bytes, hkey]⟩
    exact h.key_ne_nul b (by simp [hkey])

theorem StoredEntry.WellFormed.takeWhile_bytes {e : StoredEntry}
    (h : e.WellFormed) (rest : List UInt8) :
    (e.bytes ++ rest).takeWhile (· ≠ 0) = e.key := by
  have hkey : ∀ b ∈ e.key, decide (b ≠ 0) = true := fun b hb => by
    simpa using h.key_ne_nul b hb
  simp only [bytes, List.append_assoc, List.singleton_append]
  rw [List.takeWhile_append_of_pos hkey]
  simp

theorem StoredEntry.drop_key_bytes (e : StoredEntry) (rest : List UInt8) :
    (e.bytes ++ rest).drop (e.key.length + 1) =
      le16 e.value.length ++ (e.value ++ rest) := by
  have hsplit : e.bytes ++ rest =
      (e.key ++ [0]) ++ (le16 e.value.length ++ (e.value ++ rest)) := by
    simp [bytes]
  rw [hsplit, List.drop_left' (by simp)]

theorem StoredEntry.WellFormed.bytes_inj {e f : StoredEntry}
    (he : e.WellFormed) (hf : f.WellFormed) {xs ys : List UInt8}
    (h : e.bytes ++ xs = f.bytes ++ ys) : e = f ∧ xs = ys := by
  have hkey : e.key = f.key := by
    rw [← he.takeWhile_bytes xs, h, hf.takeWhile_bytes ys]
  have htail : le16 e.value.length ++ (e.value ++ xs) =
      le16 f.value.length ++ (f.value ++ ys) := by
    rw [← e.drop_key_bytes xs, h, hkey, f.drop_key_bytes ys]
  obtain ⟨hsize, htail⟩ := List.append_inj htail (by simp)
  have hlen : e.value.length = f.value.length := by
    rw [← ofLe_le16 he.value_short, hsize, ofLe_le16 hf.value_short]
  obtain ⟨hvalue, hrest⟩ := List.append_inj htail hlen
  refine ⟨?_, hrest⟩
  cases e
  cases f
  simp_all

/-- The bytes of an area determine its entries. -/
theorem DataArea.unique {pos : Nat} {area : List UInt8} {es fs : List LocatedEntry}
    (he : DataArea pos area es) (hf : DataArea pos area fs) : es = fs := by
  induction he generalizing fs with
  | nil pos =>
      generalize harea : ([] : List UInt8) = area at hf
      cases hf with
      | nil => rfl
      | pad => simp at harea
      | @entry _ _ _ f hwf =>
          obtain ⟨b, rest, -, hb⟩ := hwf.bytes_eq_cons
          simp [hb] at harea
  | @pad pos area es _ ih =>
      generalize harea : 0 :: area = area' at hf
      cases hf with
      | nil => simp at harea
      | pad hf =>
          obtain ⟨-, rfl⟩ := List.cons.inj harea
          exact ih hf
      | @entry _ _ _ f hwf =>
          obtain ⟨b, rest, hne, hb⟩ := hwf.bytes_eq_cons
          rw [hb, List.cons_append] at harea
          exact absurd (List.cons.inj harea).1.symm hne
  | @entry pos area es e hwf _ ih =>
      generalize harea : e.bytes ++ area = area' at hf
      cases hf with
      | nil =>
          obtain ⟨b, rest, -, hb⟩ := hwf.bytes_eq_cons
          simp [hb] at harea
      | pad =>
          obtain ⟨b, rest, hne, hb⟩ := hwf.bytes_eq_cons
          rw [hb, List.cons_append] at harea
          exact absurd (List.cons.inj harea).1 hne
      | @entry _ _ _ f hwf' hf =>
          obtain ⟨rfl, rfl⟩ := hwf.bytes_inj hwf' harea
          rw [ih hf]

theorem DataArea.wellFormed {pos : Nat} {area : List UInt8} {es : List LocatedEntry}
    (h : DataArea pos area es) : ∀ e ∈ es, e.entry.WellFormed := by
  induction h with
  | nil => simp
  | pad _ ih => exact ih
  | entry hwf _ ih =>
      intro e he
      rcases List.mem_cons.mp he with rfl | he
      · exact hwf
      · exact ih e he

theorem DataArea.address_bounds {pos : Nat} {area : List UInt8}
    {es : List LocatedEntry} (h : DataArea pos area es) :
    ∀ e ∈ es, pos < e.address ∧ e.address + e.entry.value.length ≤ pos + area.length := by
  induction h with
  | nil => simp
  | pad _ ih =>
      intro e he
      have := ih e he
      simp only [List.length_cons]
      omega
  | entry _ _ ih =>
      intro e he
      simp only [List.length_append, StoredEntry.bytes_length] at ih ⊢
      rcases List.mem_cons.mp he with rfl | he
      · simp only
        omega
      · have := ih e he
        omega

theorem DataArea.readBytes_value {pos : Nat} {area : List UInt8}
    {es : List LocatedEntry} (h : DataArea pos area es) {m : Mem}
    (hm : readBytes m pos area.length = area) :
    ∀ e ∈ es, readBytes m e.address e.entry.value.length = e.entry.value := by
  induction h with
  | nil => simp
  | @pad pos area es _ ih =>
      have hsplit := readBytes_append_iff.mp (show readBytes m pos ([0] ++ area).length =
        [0] ++ area from hm)
      exact ih hsplit.2
  | @entry pos area es e _ _ ih =>
      obtain ⟨hbytes, harea⟩ := readBytes_append_iff.mp hm
      intro f hf
      rcases List.mem_cons.mp hf with rfl | hf
      · rw [StoredEntry.bytes, readBytes_append_iff] at hbytes
        have hvalue := hbytes.2
        simpa [Nat.add_assoc] using hvalue
      · exact ih harea f hf

theorem DataArea.replicate_zero (pos n : Nat) :
    DataArea pos (List.replicate n 0) [] := by
  induction n generalizing pos with
  | zero => exact .nil pos
  | succ n ih => exact .pad (ih (pos + 1))

/-- Entries placed one after the other from `pos` on. -/
def locate (pos : Nat) : List StoredEntry → List LocatedEntry
  | [] => []
  | e :: es => ⟨e, pos + e.key.length + 3⟩ :: locate (pos + e.bytes.length) es

/-- The bytes of a list of entries. -/
def entriesBytes (es : List StoredEntry) : List UInt8 := es.flatMap StoredEntry.bytes

@[simp] theorem locate_map_entry (pos : Nat) (es : List StoredEntry) :
    (locate pos es).map LocatedEntry.entry = es := by
  induction es generalizing pos with
  | nil => rfl
  | cons e es ih => simp [locate, ih]

theorem dataArea_entriesBytes (pos : Nat) {es : List StoredEntry}
    (hwf : ∀ e ∈ es, e.WellFormed) (zeros : Nat) :
    DataArea pos (entriesBytes es ++ List.replicate zeros 0) (locate pos es) := by
  induction es generalizing pos with
  | nil => exact .replicate_zero pos zeros
  | cons e es ih =>
      have htail := ih (pos + e.bytes.length) fun f hf => hwf f (by simp [hf])
      simpa [entriesBytes, locate] using DataArea.entry (hwf e (by simp)) htail

/-- The image of a data area: its size, its bytes, and the checksum of both. -/
def imageBytes (unit : CrcUnit) (area : List UInt8) : List UInt8 :=
  le32 area.length ++ area ++ le32 (crc32 unit (le32 area.length ++ area)).toNat

/-- Address of the data area. -/
def areaOrigin : Nat := cfgOrigin + 4

/-- The configuration sector holds an image with the entries `es`. -/
structure IsImage (unit : CrcUnit) (m : Mem) (area : List UInt8)
    (es : List LocatedEntry) : Prop where
  area_entries : DataArea areaOrigin area es
  size_min : 8 ≤ area.length
  size_align : area.length % 4 = 0
  size_max : area.length + 8 ≤ cfgSize
  stored : readBytes m cfgOrigin (imageBytes unit area).length = imageBytes unit area

@[simp] theorem imageBytes_length (unit : CrcUnit) (area : List UInt8) :
    (imageBytes unit area).length = area.length + 8 := by
  simp only [imageBytes, List.length_append, le32_length]
  omega

theorem IsImage.parts {unit : CrcUnit} {m : Mem} {area : List UInt8}
    {es : List LocatedEntry} (h : IsImage unit m area es) :
    readBytes m cfgOrigin 4 = le32 area.length ∧
      readBytes m areaOrigin area.length = area ∧
      readBytes m (cfgOrigin + 4 + area.length) 4 =
        le32 (crc32 unit (le32 area.length ++ area)).toNat := by
  have hstored := h.stored
  rw [imageBytes, readBytes_append_iff, readBytes_append_iff] at hstored
  obtain ⟨⟨hsize, harea⟩, hcrc⟩ := hstored
  refine ⟨hsize, harea, ?_⟩
  simpa [Nat.add_assoc] using hcrc

theorem IsImage.unique {unit : CrcUnit} {m : Mem} {area₁ area₂ : List UInt8}
    {es₁ es₂ : List LocatedEntry} (h₁ : IsImage unit m area₁ es₁)
    (h₂ : IsImage unit m area₂ es₂) : area₁ = area₂ ∧ es₁ = es₂ := by
  have hmax₁ := h₁.size_max
  have hmax₂ := h₂.size_max
  simp only [cfgSize] at hmax₁ hmax₂
  obtain ⟨hs₁, ha₁, -⟩ := h₁.parts
  obtain ⟨hs₂, ha₂, -⟩ := h₂.parts
  have hlen : area₁.length = area₂.length := by
    rw [← @ofLe_le32 area₁.length (by omega), ← hs₁, hs₂, ofLe_le32 (by omega)]
  have harea : area₁ = area₂ := by rw [← ha₁, hlen, ha₂]
  subst harea
  exact ⟨rfl, h₁.area_entries.unique h₂.area_entries⟩

theorem IsImage.congr {unit : CrcUnit} {m m' : Mem} {area : List UInt8}
    {es : List LocatedEntry} (h : IsImage unit m area es)
    (hm : ∀ a, cfgOrigin ≤ a → a < cfgEnd → m a = m' a) :
    IsImage unit m' area es := by
  refine ⟨h.area_entries, h.size_min, h.size_align, h.size_max, ?_⟩
  have hsame : ∀ i < (imageBytes unit area).length,
      m (cfgOrigin + i) = m' (cfgOrigin + i) := by
    intro i hi
    have hmax := h.size_max
    simp only [imageBytes_length, cfgSize] at hi hmax
    exact hm _ (by omega) (by simp only [cfgOrigin, cfgEnd]; omega)
  rw [← readBytes_congr hsame, h.stored]

end ShGateway.ConfigFormat
