import ShGateway.Preldr

/-!
Which parts of an image that the check has unlocked are under its checksum.
-/

namespace ShGateway.FieldCoverage

open ShGateway.Crc
open ShGateway.FieldTable
open ShGateway.FwHeader
open ShGateway.FwVerdict
open ShGateway.Lib.ByteWords
open ShGateway.Lib.NorFlash
open ShGateway.Lib.StringTable
open ShGateway.Platform
open ShGateway.Preldr

/-- The end of the bytes under the checksum, which takes whole words only. -/
def coveredEnd (m : Mem) (start : Nat) : Nat :=
  headerOffset + headerSize + (fwSize m start - (headerOffset + headerSize)) / 4 * 4

/-- The checksum of the image at `start` takes the byte at `a`. -/
def Covered (m : Mem) (start a : Nat) : Prop :=
  (start ≤ a ∧ a < start + headerOffset) ∨
    (start + headerOffset + headerSize ≤ a ∧ a < start + coveredEnd m start)

/-- A string that the check exposes by its address, with its terminator. -/
def StringCovered (m : Mem) (start p : Nat) : Prop :=
  p ≠ 0 → ∀ a, p ≤ a → a ≤ p + (strLenSafe m p).toNat → Covered m start a

/-- The fields that were counted and the strings taken from them are under the
checksum. -/
structure MetadataCovered (unit : CrcUnit) (m : Mem) (fw : FwInfo) : Prop where
  table : ∃ fs, IsFieldTable m (fw.addr + fieldsAddrOffset m fw.addr)
      (maxSize fw.addr - fieldsAddrOffset m fw.addr) fs ∧
    ∀ i < (tableBytes (strings fs)).length,
      Covered m fw.addr (fw.addr + fieldsAddrOffset m fw.addr + i)
  prod : StringCovered m fw.addr
    (fwHeaderCheckRegion unit m fw (maxSize fw.addr)).fieldProductPtr
  prodName : StringCovered m fw.addr
    (fwHeaderCheckRegion unit m fw (maxSize fw.addr)).fieldProductNamePtr
  version : ∀ key ∈ [literal "ver_maj", literal "ver_min", literal "ver_pat"],
    StringCovered m fw.addr
      (fwFieldsFindByKey m ((fw.addr + fieldsAddrOffset m fw.addr) % 2 ^ 32) key
        (maxSize fw.addr - fieldsAddrOffset m fw.addr))

/-- Two NULs in a row between two offsets in an image. -/
def DoubleNul (m : Mem) (start lo hi : Nat) : Prop :=
  ∃ j, lo ≤ j ∧ j + 1 < hi ∧ m (start + j) = 0 ∧ m (start + j + 1) = 0

/-- The fields begin in a part of the image that is under the checksum, and two
NULs in a row follow in this part. -/
def FieldsEndCovered (m : Mem) (start : Nat) : Prop :=
  (fieldsAddrOffset m start < headerOffset ∧
      DoubleNul m start (fieldsAddrOffset m start) headerOffset) ∨
    (headerOffset + headerSize ≤ fieldsAddrOffset m start ∧
      DoubleNul m start (fieldsAddrOffset m start) (coveredEnd m start))

section

variable {unit : CrcUnit} {m : Mem} {fw : FwInfo} {t : FwType} {start n : Nat} {fs : Fields}

theorem table_covered_iff
    (h : IsFieldTable m (start + fieldsAddrOffset m start) n fs) :
    (∀ i < (tableBytes (strings fs)).length,
      Covered m start (start + fieldsAddrOffset m start + i)) ↔
      FieldsEndCovered m start := by
  have hbytes := (readBytes_eq_iff m _ _).mp h.stored
  have hnonempty : strings fs ≠ [] := by
    intro hnil
    have hlen := length_strings fs
    rw [hnil] at hlen
    have := List.length_pos_iff.mpr h.ne_nil
    simp only [List.length_nil] at hlen
    omega
  obtain ⟨xs, hxs⟩ := exists_tableBytes_eq hnonempty
  have hlen : (tableBytes (strings fs)).length = xs.length + 2 := by rw [hxs]; simp
  constructor
  · intro hcovered
    have hnul : ∀ i, xs.length ≤ i → i < xs.length + 2 →
        m (start + fieldsAddrOffset m start + i) = 0 := by
      intro i hlo hhi
      rw [hbytes i (by omega)]
      simp only [hxs]
      rw [List.getElem_append_right hlo]
      rcases (by omega : i - xs.length = 0 ∨ i - xs.length = 1) with h0 | h0 <;> simp [h0]
    have hfirst := hnul xs.length (Nat.le_refl _) (by omega)
    have hsecond := hnul (xs.length + 1) (by omega) (by omega)
    rw [Nat.add_assoc] at hfirst hsecond
    have hbegin := hcovered 0 (by omega)
    have hend := hcovered (xs.length + 1) (by omega)
    have hlast := hcovered xs.length (by omega)
    simp only [Covered] at hbegin hend hlast
    by_cases hlow : fieldsAddrOffset m start < headerOffset
    · -- a table that begins before the header must not reach it
      have hstop : fieldsAddrOffset m start + xs.length + 1 < headerOffset := by
        by_contra hover
        have hhole := hcovered (headerOffset - fieldsAddrOffset m start) (by omega)
        simp only [Covered, headerOffset, headerSize] at hhole hover hlow
        omega
      exact .inl ⟨hlow, fieldsAddrOffset m start + xs.length, by omega, hstop, hfirst,
        by rw [← hsecond]; rfl⟩
    · refine .inr ⟨by omega, fieldsAddrOffset m start + xs.length, by omega, by omega, hfirst,
        by rw [← hsecond]; rfl⟩
  · intro hends i hi
    have hstop : ∀ hi', DoubleNul m start (fieldsAddrOffset m start) hi' →
        fieldsAddrOffset m start + (tableBytes (strings fs)).length ≤ hi' := by
      rintro hi' ⟨j, hlo, hhi, hj, hj'⟩
      by_contra hover
      obtain ⟨k, rfl⟩ := Nat.exists_eq_add_of_le hlo
      have hk := hbytes k (by omega)
      have hk' := hbytes (k + 1) (by omega)
      have hend := @tableBytes_nuls (strings fs) h.isString k
        (by rw [List.getElem?_eq_getElem (by omega), ← hk, ← hj, Nat.add_assoc])
        (by rw [List.getElem?_eq_getElem (by omega), ← hk', ← hj']; congr 2; omega)
      omega
    rcases hends with ⟨hlow, hnuls⟩ | ⟨hhigh, hnuls⟩
    · have := hstop _ hnuls
      exact .inl ⟨by omega, by omega⟩
    · have := hstop _ hnuls
      exact .inr ⟨by omega, by omega⟩

theorem stringCovered_of_table (h : IsFieldTable m start n fs) (hlower : flashStart ≤ start)
    (hupper : start + n < flashFinish) {base : Nat}
    (hcovered : ∀ i < (tableBytes (strings fs)).length, Covered m base (start + i))
    (key : List UInt8) : StringCovered m base (fwFieldsFindByKey m start key n) := by
  intro hfound a hlo hhi
  have haddress := fwFieldsFindByKey_eq h hlower hupper.le key
  rcases hfield : fieldAddress start key fs with _ | p
  · rw [hfield] at haddress
    exact absurd haddress hfound
  · rw [hfield, Option.getD_some] at haddress
    obtain ⟨v, hv, hstart, hend⟩ := fieldAddress_within hfield
    have hstring := (fwFieldsFindByKey_some h hlower hupper.le hv).2
    rw [haddress] at hstring hlo hhi
    rw [strLenSafe_toNat hstring] at hhi
    have hbyte := hcovered (a - start) (by omega)
    rwa [Nat.add_sub_of_le (by omega)] at hbyte

/-- The metadata of an image that is not locked is under the checksum exactly if
two NULs end its fields there. -/
theorem metadataCovered_iff (haddr : fw.addr = t.start)
    (hlocked : (fwHeaderCheckRegion unit m fw (maxSize fw.addr)).locked = .none) :
    MetadataCovered unit m fw ↔ FieldsEndCovered m fw.addr := by
  obtain ⟨fs, hok⟩ := (fwHeaderCheckRegion_locked_iff unit m fw haddr).mp hlocked
  obtain ⟨-, hlower, hupper⟩ := start_bounds t
  rw [← haddr] at hlower hupper
  have hpos : 0 < (tableBytes (strings fs)).length := by simp [tableBytes]
  have hfits := hok.table.fits
  have hregion : fw.addr + fieldsAddrOffset m fw.addr +
      (maxSize fw.addr - fieldsAddrOffset m fw.addr) < flashFinish := by omega
  constructor
  · intro h
    obtain ⟨gs, hgs, hcovered⟩ := h.table
    exact (table_covered_iff hgs).mp hcovered
  · intro hends
    have hcovered := (table_covered_iff hok.table).mpr hends
    have hstring := stringCovered_of_table hok.table (by omega) hregion hcovered
    have hrecord := fwHeaderCheckRegion_eq unit m fw haddr hok
    constructor
    · exact ⟨fs, hok.table, hcovered⟩
    · rw [hrecord]
      simp only [checkFields]
      exact hstring (literal "prod")
    · rw [hrecord]
      simp only [checkFields]
      exact hstring (literal "prod_name")
    · intro key _
      rw [Nat.mod_eq_of_lt (by simp only [flashFinish] at hregion; omega)]
      exact hstring key

end

/-! ## Sample images -/

/-- The sample application has its fields under the checksum. -/
theorem metadataCovered_sample :
    MetadataCovered .stm32 sampleFlash { addr := appStart } := by
  have hlocked := (@fwHeaderCheckRegion_locked_iff .stm32 sampleFlash { addr := appStart }
    .app rfl).mpr ⟨sampleFields, sampleFlash_regionOk⟩
  refine (@metadataCovered_iff .stm32 sampleFlash { addr := appStart } .app rfl hlocked).mpr ?_
  exact .inr ⟨by decide, 446, by decide, by decide, by decide +kernel, by decide +kernel⟩

/-- An image of 0x1A4 bytes whose fields begin behind it. -/
def uncoveredFlash : Mem := fun a =>
  if a < appStart + 4 then 0xFF
  else if a < appStart + headerOffset then 0
  else
    (le32 0x1A4 ++ le32 0 ++ le32 0x1A4 ++ le32 0 ++ le32 0 ++
      tableBytes (strings sampleFields)).getD (a - (appStart + headerOffset)) 0xFF

theorem uncoveredFlash_crc :
    crc32 .stm32 (coveredBytes uncoveredFlash appStart) = 0 := by
  have hbytes : coveredBytes uncoveredFlash appStart =
      List.replicate 4 0xFF ++ List.replicate (4 * 100) 0 := by decide +kernel
  have hblank : crc32End .stm32 CrcUnit.stm32.reset (List.replicate 4 0xFF) = 0 := by
    decide +kernel
  rw [crc32, hbytes, crc32End_append .stm32 _ (by simp), hblank, crc32End_zeros]

theorem uncoveredFlash_regionOk :
    RegionOk .stm32 uncoveredFlash appStart sampleFields where
  header := by decide
  lower := by decide
  upper := by decide
  crc := by
    rw [uncoveredFlash_crc]
    decide
  table := by
    have hsample := sampleFlash_regionOk.table
    exact ⟨hsample.ne_nil, hsample.isString, by decide +kernel, by decide +kernel⟩
  prod := by decide
  prodName := by decide

/-- The check unlocks an image whose fields lie behind the bytes under the
checksum. -/
theorem not_metadataCovered_behind :
    ¬ ∀ (m : Mem) (fw : FwInfo), fw.addr = appStart →
      (fwHeaderCheckRegion .stm32 m fw (maxSize fw.addr)).locked = .none →
      MetadataCovered .stm32 m fw := by
  intro hall
  have hlocked := (@fwHeaderCheckRegion_locked_iff .stm32 uncoveredFlash { addr := appStart }
    .app rfl).mpr ⟨sampleFields, uncoveredFlash_regionOk⟩
  have hcovered := hall uncoveredFlash { addr := appStart } rfl hlocked
  have hsize : fwSize uncoveredFlash appStart = 0x1A4 := by decide +kernel
  have hoffset : fieldsAddrOffset uncoveredFlash appStart = 0x1A4 := by decide +kernel
  rcases (@metadataCovered_iff .stm32 uncoveredFlash { addr := appStart } .app rfl
    hlocked).mp hcovered with ⟨hlow, -⟩ | ⟨-, j, hlo, hhi, -⟩
  · rw [hoffset] at hlow
    exact absurd hlow (by decide)
  · rw [hoffset] at hlo
    rw [coveredEnd, hsize] at hhi
    simp only [headerOffset, headerSize] at hhi
    omega

end ShGateway.FieldCoverage
