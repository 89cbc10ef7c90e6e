import ShGateway.FwVerdict

/-!
`main` of the pre-loader: which image it jumps to.
-/

namespace ShGateway.Preldr

open ShGateway.Crc
open ShGateway.FieldTable
open ShGateway.FwHeader
open ShGateway.FwVerdict
open ShGateway.Lib.ByteWords
open ShGateway.Lib.NorFlash
open ShGateway.Lib.StringTable
open ShGateway.Platform

/-! Values of `load_src_t` in the retained cell. -/

def loadSrcNone : UInt32 := 0
def loadSrcBootloader : UInt32 := 0x55

/-- `main` of `preldr.c`: the start of the image it jumps to, if any, and the
load source it leaves. -/
def preldrMain (unit : CrcUnit) (lits : NameLiterals) (m : Mem) (loadSrc : UInt32) :
    Option Nat × UInt32 :=
  let infos := fwHeaderCheckAll unit lits m {}
  if loadSrc = loadSrcBootloader ∧ infos.app.locked = .none then
    (some appStart, loadSrcNone)
  else if infos.ldr.locked = .none then (some ldrStart, loadSrcNone)
  else if infos.app.locked = .none then (some appStart, loadSrcNone)
  else (none, loadSrcNone)

section

variable {unit : CrcUnit} {lits : NameLiterals} {m : Mem}

/-- The loader announces itself in the cell and hands over to a bootable
application. -/
theorem preldrMain_of_bootloader (hlits : NamesStored m lits)
    (h : Bootable unit m appStart (literal "sh_gw_app")) :
    preldrMain unit lits m loadSrcBootloader = (some appStart, loadSrcNone) := by
  have happ := (fwHeaderCheckAll_app_iff hlits {}).mpr h
  rw [preldrMain]
  exact if_pos ⟨rfl, happ⟩

/-- Every jump goes to a bootable image, and there is one if an image is bootable. -/
theorem preldrMain_bootSafety (hlits : NamesStored m lits) (loadSrc : UInt32) :
    (∀ start, (preldrMain unit lits m loadSrc).1 = some start →
      (start = ldrStart ∧ Bootable unit m ldrStart (literal "sh_gw_ldr")) ∨
      (start = appStart ∧ Bootable unit m appStart (literal "sh_gw_app"))) ∧
    ((preldrMain unit lits m loadSrc).1 = none ↔
      ¬ Bootable unit m ldrStart (literal "sh_gw_ldr") ∧
      ¬ Bootable unit m appStart (literal "sh_gw_app")) := by
  have hldr : (fwHeaderCheckAll unit lits m {}).ldr.locked = .none ↔ _ :=
    fwHeaderCheckAll_ldr_iff hlits {}
  have happ : (fwHeaderCheckAll unit lits m {}).app.locked = .none ↔ _ :=
    fwHeaderCheckAll_app_iff hlits {}
  rw [← hldr, ← happ, preldrMain]
  split_ifs with hforced hloader happlication
  · refine ⟨?_, by simp [hforced.2]⟩
    rintro start h
    exact .inr ⟨(Option.some.inj h).symm, hforced.2⟩
  · refine ⟨?_, by simp [hloader]⟩
    rintro start h
    exact .inl ⟨(Option.some.inj h).symm, hloader⟩
  · refine ⟨?_, by simp [happlication]⟩
    rintro start h
    exact .inr ⟨(Option.some.inj h).symm, happlication⟩
  · exact ⟨by simp, by simp [hloader, happlication]⟩

end

/-! ## A flash with a bootable application -/

def sampleFields : Fields :=
  [(literal "prod", literal "sh_gw"), (literal "prod_name", literal "sh_gw_app")]

/-- The literals in the pre-loader, and an application whose code is a blank
word followed by zeros. -/
def sampleFlash : Mem := fun a =>
  if a < 0x080001A0 then 0xFF
  else if a < appStart + 4 then
    nameStrings.getD (a - 0x080001A0) 0xFF
  else if a < appStart + headerOffset then 0
  else
    (le32 448 ++ le32 2841451774 ++ le32 0x1A0 ++ le32 0 ++
      tableBytes (strings sampleFields)).getD (a - (appStart + headerOffset)) 0xFF

def sampleNames : NameLiterals := ⟨0x080001A0, 0x080001AA⟩

theorem sampleFlash_names : NamesStored sampleFlash sampleNames :=
  namesStored_of_read (by decide +kernel) (by decide) (by decide)

theorem crc32End_zeros (n : Nat) :
    crc32End .stm32 0 (List.replicate (4 * n) 0) = 0 := by
  induction n with
  | zero => rfl
  | succ n ih =>
      have hword : List.replicate (4 * (n + 1)) (0 : UInt8) =
          List.replicate 4 0 ++ List.replicate (4 * n) 0 := rfl
      have hzero : crc32End .stm32 0 (List.replicate 4 0) = 0 := by
        decide +kernel
      rw [hword, crc32End_append .stm32 0 (by simp), hzero, ih]

theorem sampleFlash_zeros :
    readBytes sampleFlash (appStart + 4) (4 * 99) = List.replicate (4 * 99) 0 := by
  rw [List.eq_replicate_iff]
  refine ⟨readBytes_length _ _ _, ?_⟩
  intro b hb
  obtain ⟨i, hi, rfl⟩ := List.mem_iff_getElem.mp hb
  rw [readBytes_length] at hi
  rw [getElem_readBytes, sampleFlash, if_neg, if_neg, if_pos] <;>
    simp only [appStart, headerOffset] <;> omega

theorem sampleFlash_crc :
    crc32 .stm32 (coveredBytes sampleFlash appStart) = 2841451774 := by
  have hblank : crc32 .stm32 (readBytes sampleFlash appStart 4) = 0 := by
    decide +kernel
  have hcode : crc32 .stm32 (readBytes sampleFlash appStart headerOffset) = 0 := by
    rw [crc32] at hblank
    rw [show headerOffset = 4 + 4 * 99 from rfl, readBytes_add, sampleFlash_zeros, crc32,
      crc32End_append .stm32 _ (by simp), hblank, crc32End_zeros]
  have htable : readBytes sampleFlash (appStart + headerOffset + headerSize)
      (fwSize sampleFlash appStart - (headerOffset + headerSize)) =
      tableBytes (strings sampleFields) := rfl
  rw [crc32] at hcode
  rw [crc32, coveredBytes, crc32End_append .stm32 _ (by rw [readBytes_length]; decide),
    hcode, htable]
  decide +kernel

theorem sampleFlash_regionOk : RegionOk .stm32 sampleFlash appStart sampleFields where
  header := by decide
  lower := by decide
  upper := by decide
  crc := by
    rw [sampleFlash_crc]
    decide
  table := by
    have hstrings : ∀ s ∈ strings sampleFields, s ≠ [] ∧ ∀ b ∈ s, b ≠ 0 := by
      decide +kernel
    exact ⟨by decide, fun s hs => ⟨(hstrings s hs).1, (hstrings s hs).2⟩,
      by decide +kernel, by decide +kernel⟩
  prod := by decide
  prodName := by decide

theorem sampleFlash_bootable : Bootable .stm32 sampleFlash appStart (literal "sh_gw_app") := by
  refine ⟨sampleFields, sampleFlash_regionOk, rfl, fun gs hgs => ?_⟩
  -- the blank header of the pre-loader gives an image larger than the flash
  exact absurd hgs.upper (by decide)

/-- The application of the sample flash is started, and is bootable. -/
theorem preldrMain_bootSafety_sample :
    (preldrMain .stm32 sampleNames sampleFlash loadSrcBootloader).1 = some appStart ∧
      ((appStart = ldrStart ∧
          Bootable .stm32 sampleFlash ldrStart (literal "sh_gw_ldr")) ∨
        (appStart = appStart ∧
          Bootable .stm32 sampleFlash appStart (literal "sh_gw_app"))) := by
  have hjump : (preldrMain .stm32 sampleNames sampleFlash loadSrcBootloader).1 =
      some appStart := by
    rw [preldrMain_of_bootloader sampleFlash_names sampleFlash_bootable]
  exact ⟨hjump,
    (preldrMain_bootSafety sampleFlash_names loadSrcBootloader).1 appStart hjump⟩

end ShGateway.Preldr
