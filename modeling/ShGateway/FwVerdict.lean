import ShGateway.FieldTable

/-!
The verdict of `fw_header_check_all` against what an image has to be: of sound
size and checksum, with a field table, and of the right product and name.
-/

namespace ShGateway.FwVerdict

open ShGateway.Crc
open ShGateway.FieldTable
open ShGateway.FwHeader
open ShGateway.Lib.NorFlash
open ShGateway.Platform

abbrev Fields := List (List UInt8 × List UInt8)

/-- The bytes under the checksum: all of the image but its header. -/
def coveredBytes (m : Mem) (start : Nat) : List UInt8 :=
  readBytes m start headerOffset ++
    readBytes m (start + headerOffset + headerSize)
      (fwSize m start - (headerOffset + headerSize))

/-- A sound image at `start` whose field table holds `fs`. `crc32` folds the
whole words of the bytes under the checksum. -/
structure RegionOk (unit : CrcUnit) (m : Mem) (start : Nat) (fs : Fields) : Prop where
  header : headerOffset + headerSize < fwSize m start
  lower : flashStart ≤ start
  upper : start + fwSize m start ≤ flashFinish
  crc : (crc32 unit (coveredBytes m start)).toNat = fwCrc32 m start
  table : IsFieldTable m (start + fieldsAddrOffset m start)
    (maxSize start - fieldsAddrOffset m start) fs
  prod : (fs.lookup (literal "prod")).isSome
  prodName : (fs.lookup (literal "prod_name")).isSome

theorem RegionOk.unique {unit : CrcUnit} {m : Mem} {start : Nat} {fs gs : Fields}
    (hf : RegionOk unit m start fs) (hg : RegionOk unit m start gs) : fs = gs :=
  hf.table.unique hg.table

/-- A sound image of the given name, and of the product of the pre-loader if
that is sound too. -/
def Bootable (unit : CrcUnit) (m : Mem) (start : Nat) (name : List UInt8) : Prop :=
  ∃ fs, RegionOk unit m start fs ∧ fs.lookup (literal "prod_name") = some name ∧
    ∀ gs, RegionOk unit m preldrStart gs →
      gs.lookup (literal "prod") = fs.lookup (literal "prod")

/-! ## The check of a region -/

section

variable (unit : CrcUnit) (m : Mem) (fw : FwInfo)

theorem start_bounds (t : FwType) :
    4 ∣ t.start ∧ flashStart ≤ t.start ∧ t.start + maxSize t.start < flashFinish := by
  cases t <;> decide

theorem regionCrc_eq {start : Nat} (h : 4 ∣ start) :
    regionCrc unit m start (fwSize m start) = crc32 unit (coveredBytes m start) := by
  have hstart : start / 4 * 4 = start := Nat.div_mul_cancel h
  have hcontinue : (start + headerOffset + headerSize) / 4 * 4 =
      start + headerOffset + headerSize :=
    Nat.div_mul_cancel (Nat.dvd_add (Nat.dvd_add h (by decide)) (by decide))
  have hwhole : 4 ∣ (readBytes m start headerOffset).length := by
    rw [readBytes_length]
    decide
  rw [regionCrc, hstart, hcontinue, crc32Start, ← crc32End_append unit unit.reset hwhole]
  rfl

theorem fwHeaderCheckRegion_of_sizeSmall {n : Nat}
    (h : fwSize m fw.addr ≤ headerOffset + headerSize) :
    (fwHeaderCheckRegion unit m fw n).locked = .bySizeSmall := by
  simp [fwHeaderCheckRegion, h]

theorem fwHeaderCheckRegion_of_range {n : Nat}
    (hsize : ¬ fwSize m fw.addr ≤ headerOffset + headerSize)
    (h : flashCheckRange fw.addr (fwSize m fw.addr) = true) :
    (fwHeaderCheckRegion unit m fw n).locked = .byAddr := by
  simp [fwHeaderCheckRegion, hsize, h]

theorem fwHeaderCheckRegion_of_crc {n : Nat}
    (hsize : ¬ fwSize m fw.addr ≤ headerOffset + headerSize)
    (hrange : flashCheckRange fw.addr (fwSize m fw.addr) = false)
    (h : (regionCrc unit m fw.addr (fwSize m fw.addr)).toNat ≠ fwCrc32 m fw.addr) :
    (fwHeaderCheckRegion unit m fw n).locked = .byCrc := by
  simp [fwHeaderCheckRegion, hsize, hrange, h]

theorem fwHeaderCheckRegion_of_header (n : Nat)
    (hsize : ¬ fwSize m fw.addr ≤ headerOffset + headerSize)
    (hrange : flashCheckRange fw.addr (fwSize m fw.addr) = false)
    (hcrc : (regionCrc unit m fw.addr (fwSize m fw.addr)).toNat = fwCrc32 m fw.addr) :
    fwHeaderCheckRegion unit m fw n =
      let start := (fw.addr + fieldsAddrOffset m fw.addr) % 2 ^ 32
      let regionSize := n - fieldsAddrOffset m fw.addr
      let counted := { fw with
        locked := .none
        size := fwSize m fw.addr
        fieldsCount := fwFieldsGetCount m start regionSize }
      if fwFieldsGetCount m start regionSize ≤ 0 then
        { counted with locked := .byZeroFieldsCount }
      else checkFields m start regionSize counted := by
  have hsub : (if n < fieldsAddrOffset m fw.addr then 0
      else n - fieldsAddrOffset m fw.addr) = n - fieldsAddrOffset m fw.addr := by
    split_ifs <;> omega
  simp only [fwHeaderCheckRegion, hsize, hrange, hcrc, hsub, if_false, ne_eq,
    not_true_eq_false, Bool.false_eq_true]

theorem fwFieldsGetCount_zero (start : Nat) : fwFieldsGetCount m start 0 ≤ 0 := by
  rw [fwFieldsGetCount]
  split_ifs
  · omega
  · rw [readBytes_zero, countLoop]
    omega

theorem checkFields_locked {start n : Nat} {fs : Fields} (h : IsFieldTable m start n fs)
    (hlower : flashStart ≤ start) (hupper : start + n < flashFinish)
    (hlocked : fw.locked = .none) :
    (checkFields m start n fw).locked = .none ↔
      (fs.lookup (literal "prod")).isSome ∧ (fs.lookup (literal "prod_name")).isSome := by
  have hprod : fwFieldsFindByKey m start (literal "prod") n = 0 ↔
      fs.lookup (literal "prod") = none :=
    fwFieldsFindByKey_eq_zero_iff h hlower hupper.le
  have hname : fwFieldsFindByKey m start (literal "prod_name") n = 0 ↔
      fs.lookup (literal "prod_name") = none :=
    fwFieldsFindByKey_eq_zero_iff h hlower hupper.le
  simp only [checkFields, hprod, hname, hlocked, Option.isSome_iff_ne_none]
  by_cases hp : fs.lookup (literal "prod") = none <;>
    by_cases hn : fs.lookup (literal "prod_name") = none <;> simp [hp, hn]

/-- `fw` points at the product fields of the table. -/
structure Recorded (m : Mem) (fw : FwInfo) (fs : Fields) : Prop where
  prod : ∀ v, fs.lookup (literal "prod") = some v →
    v ≠ [] ∧ FlashString m fw.fieldProductPtr v
  prodName : ∀ v, fs.lookup (literal "prod_name") = some v →
    v ≠ [] ∧ FlashString m fw.fieldProductNamePtr v

theorem checkFields_recorded {start n : Nat} {fs : Fields}
    (h : IsFieldTable m start n fs) (hlower : flashStart ≤ start)
    (hupper : start + n < flashFinish) : Recorded m (checkFields m start n fw) fs where
  prod := fun _ hv => fwFieldsFindByKey_some h hlower hupper.le hv
  prodName := fun _ hv => fwFieldsFindByKey_some h hlower hupper.le hv

theorem fwHeaderCheckRegion_of_table {t : FwType} (haddr : fw.addr = t.start) {fs : Fields}
    (hsize : ¬ fwSize m fw.addr ≤ headerOffset + headerSize)
    (hrange : flashCheckRange fw.addr (fwSize m fw.addr) = false)
    (hcrc : (regionCrc unit m fw.addr (fwSize m fw.addr)).toNat = fwCrc32 m fw.addr)
    (htable : IsFieldTable m (fw.addr + fieldsAddrOffset m fw.addr)
      (maxSize fw.addr - fieldsAddrOffset m fw.addr) fs) :
    let r := fwHeaderCheckRegion unit m fw (maxSize fw.addr)
    Recorded m r fs ∧ (r.locked = .none ↔
      (fs.lookup (literal "prod")).isSome ∧ (fs.lookup (literal "prod_name")).isSome) := by
  obtain ⟨-, hlower, hupper⟩ := start_bounds t
  rw [← haddr] at hlower hupper
  have hfits := htable.fits
  have hpos : 0 < (Lib.StringTable.tableBytes (Lib.StringTable.strings fs)).length := by
    simp [Lib.StringTable.tableBytes]
  have hend : fw.addr + fieldsAddrOffset m fw.addr +
      (maxSize fw.addr - fieldsAddrOffset m fw.addr) < flashFinish := by omega
  have hwrap : (fw.addr + fieldsAddrOffset m fw.addr) % 2 ^ 32 =
      fw.addr + fieldsAddrOffset m fw.addr := by
    simp only [flashFinish] at hend
    omega
  have hcount : 0 < fwFieldsGetCount m (fw.addr + fieldsAddrOffset m fw.addr)
      (maxSize fw.addr - fieldsAddrOffset m fw.addr) := by
    refine (fwFieldsGetCount_pos_iff ?_).mpr ⟨fs, htable⟩
    rw [flashCheckRange_eq_false_iff]
    simp only [flashLen, flashStart, flashFinish] at *
    omega
  intro r
  have hr : r = fwHeaderCheckRegion unit m fw (maxSize fw.addr) := rfl
  rw [fwHeaderCheckRegion_of_header unit m fw _ hsize hrange hcrc, hwrap] at hr
  simp only [] at hr
  rw [if_neg (by omega)] at hr
  rw [hr]
  exact ⟨checkFields_recorded m _ htable (by omega) hend,
    checkFields_locked m _ htable (by omega) hend rfl⟩

theorem fwHeaderCheckRegion_of_regionOk {t : FwType} (haddr : fw.addr = t.start)
    {fs : Fields} (h : RegionOk unit m fw.addr fs) :
    let r := fwHeaderCheckRegion unit m fw (maxSize fw.addr)
    Recorded m r fs ∧ r.locked = .none := by
  obtain ⟨hword, -, -⟩ := start_bounds t
  rw [← haddr] at hword
  have hheader := h.header
  have hupper := h.upper
  have hlower := h.lower
  have hrange : flashCheckRange fw.addr (fwSize m fw.addr) = false := by
    rw [flashCheckRange_eq_false_iff]
    simp only [flashLen, flashStart, flashFinish] at *
    omega
  have hcrc := h.crc
  rw [← regionCrc_eq unit m hword] at hcrc
  obtain ⟨hrecorded, hlocked⟩ :=
    fwHeaderCheckRegion_of_table unit m fw haddr (by omega) hrange hcrc h.table
  exact ⟨hrecorded, hlocked.mpr ⟨h.prod, h.prodName⟩⟩

theorem fwHeaderCheckRegion_of_header_table {t : FwType} (haddr : fw.addr = t.start)
    {fs : Fields} (hheader : headerOffset + headerSize < fwSize m fw.addr)
    (hend : fw.addr + fwSize m fw.addr ≤ flashFinish)
    (hcrc : (crc32 unit (coveredBytes m fw.addr)).toNat = fwCrc32 m fw.addr)
    (htable : IsFieldTable m (fw.addr + fieldsAddrOffset m fw.addr)
      (maxSize fw.addr - fieldsAddrOffset m fw.addr) fs) :
    fwHeaderCheckRegion unit m fw (maxSize fw.addr) =
      checkFields m (fw.addr + fieldsAddrOffset m fw.addr)
        (maxSize fw.addr - fieldsAddrOffset m fw.addr)
        { fw with locked := .none, size := fwSize m fw.addr, fieldsCount := fs.length } := by
  obtain ⟨hword, hlower, hupper⟩ := start_bounds t
  rw [← haddr] at hword hlower hupper
  have hpos := List.length_pos_iff.mpr htable.ne_nil
  have hfits := htable.fits
  have hbytes : 0 < (Lib.StringTable.tableBytes (Lib.StringTable.strings fs)).length := by
    simp [Lib.StringTable.tableBytes]
  have hrange : flashCheckRange fw.addr (fwSize m fw.addr) = false := by
    rw [flashCheckRange_eq_false_iff]
    simp only [flashLen, flashStart, flashFinish] at *
    omega
  rw [← regionCrc_eq unit m hword] at hcrc
  have hwrap : (fw.addr + fieldsAddrOffset m fw.addr) % 2 ^ 32 =
      fw.addr + fieldsAddrOffset m fw.addr := by
    simp only [flashFinish] at hupper
    omega
  have hfieldsRange : flashCheckRange (fw.addr + fieldsAddrOffset m fw.addr)
      (maxSize fw.addr - fieldsAddrOffset m fw.addr) = false := by
    rw [flashCheckRange_eq_false_iff]
    simp only [flashLen, flashStart, flashFinish] at *
    omega
  have hcount : fwFieldsGetCount m (fw.addr + fieldsAddrOffset m fw.addr)
      (maxSize fw.addr - fieldsAddrOffset m fw.addr) = fs.length := by
    rw [fwFieldsGetCount, hfieldsRange, if_neg Bool.false_ne_true]
    exact countLoop_of_isFieldTable htable
  rw [fwHeaderCheckRegion_of_header unit m fw _ (by omega) hrange hcrc, hwrap]
  simp only [hcount]
  rw [if_neg (by omega)]

theorem fwHeaderCheckRegion_eq {t : FwType} (haddr : fw.addr = t.start) {fs : Fields}
    (h : RegionOk unit m fw.addr fs) :
    fwHeaderCheckRegion unit m fw (maxSize fw.addr) =
      checkFields m (fw.addr + fieldsAddrOffset m fw.addr)
        (maxSize fw.addr - fieldsAddrOffset m fw.addr)
        { fw with locked := .none, size := fwSize m fw.addr, fieldsCount := fs.length } :=
  fwHeaderCheckRegion_of_header_table unit m fw haddr h.header h.upper h.crc h.table

/-- The region check unlocks exactly the sound images. -/
theorem fwHeaderCheckRegion_locked_iff {t : FwType} (haddr : fw.addr = t.start) :
    (fwHeaderCheckRegion unit m fw (maxSize fw.addr)).locked = .none ↔
      ∃ fs, RegionOk unit m fw.addr fs := by
  constructor
  · intro hlocked
    obtain ⟨hword, hlower, hupper⟩ := start_bounds t
    rw [← haddr] at hword hlower hupper
    by_cases hsize : fwSize m fw.addr ≤ headerOffset + headerSize
    · rw [fwHeaderCheckRegion_of_sizeSmall unit m fw hsize] at hlocked
      cases hlocked
    rcases hrange : flashCheckRange fw.addr (fwSize m fw.addr) with _ | _
    swap
    · rw [fwHeaderCheckRegion_of_range unit m fw hsize hrange] at hlocked
      cases hlocked
    by_cases hcrc : (regionCrc unit m fw.addr (fwSize m fw.addr)).toNat = fwCrc32 m fw.addr
    swap
    · rw [fwHeaderCheckRegion_of_crc unit m fw hsize hrange hcrc] at hlocked
      cases hlocked
    obtain ⟨fs, htable⟩ : ∃ fs, IsFieldTable m (fw.addr + fieldsAddrOffset m fw.addr)
        (maxSize fw.addr - fieldsAddrOffset m fw.addr) fs := by
      rw [fwHeaderCheckRegion_of_header unit m fw _ hsize hrange hcrc] at hlocked
      simp only [] at hlocked
      split_ifs at hlocked with hcount
      by_cases hoffset : maxSize fw.addr < fieldsAddrOffset m fw.addr
      · rw [Nat.sub_eq_zero_of_le (Nat.le_of_lt hoffset)] at hcount
        exact absurd (fwFieldsGetCount_zero m _) hcount
      rw [Nat.mod_eq_of_lt (by simp only [flashFinish] at hupper; omega)] at hcount
      refine (fwFieldsGetCount_pos_iff ?_).mp (by omega)
      rw [flashCheckRange_eq_false_iff]
      simp only [flashLen, flashStart, flashFinish] at *
      omega
    obtain ⟨-, hiff⟩ := fwHeaderCheckRegion_of_table unit m fw haddr hsize hrange hcrc htable
    obtain ⟨hprod, hname⟩ := hiff.mp hlocked
    have hbounds := flashCheckRange_eq_false_iff.mp hrange
    refine ⟨fs, by omega, hlower, ?_, ?_, htable, hprod, hname⟩
    · simp only [flashLen, flashStart, flashFinish] at *
      omega
    · rw [← regionCrc_eq unit m hword]
      exact hcrc
  · rintro ⟨fs, h⟩
    exact (fwHeaderCheckRegion_of_regionOk unit m fw haddr h).2

end

/-! ## The check of all images -/

section

variable {unit : CrcUnit} {m : Mem} {fw : FwInfo} {fs : Fields}

theorem Recorded.checkProd (h : Recorded m fw fs) (preldr : FwInfo) :
    Recorded m (checkProd m preldr fw) fs := by
  rw [FwHeader.checkProd]
  split_ifs
  · exact ⟨h.prod, h.prodName⟩
  · exact h

theorem checkProd_locked_iff {preldr : FwInfo} (haddr : preldr.addr = preldrStart)
    (h : Recorded m fw fs) (hprod : (fs.lookup (literal "prod")).isSome)
    (hlocked : fw.locked = .none) :
    (checkProd m (fwHeaderCheckRegion unit m preldr (maxSize preldr.addr)) fw).locked =
        .none ↔
      ∀ gs, RegionOk unit m preldrStart gs →
        gs.lookup (literal "prod") = fs.lookup (literal "prod") := by
  have hstart : preldr.addr = FwType.preldr.start := haddr
  obtain ⟨v, hv⟩ := Option.isSome_iff_exists.mp hprod
  by_cases hpreldr : ∃ gs, RegionOk unit m preldrStart gs
  · obtain ⟨gs, hgs⟩ := hpreldr
    have hgs' := hgs
    rw [← haddr] at hgs'
    obtain ⟨hrecorded, hunlocked⟩ :=
      fwHeaderCheckRegion_of_regionOk unit m preldr hstart hgs'
    obtain ⟨w, hw⟩ := Option.isSome_iff_exists.mp hgs.prod
    have hcompare := strCompareEqualSafeTwoArg_iff (hrecorded.prod w hw).2 (h.prod v hv).2
      (hrecorded.prod w hw).1
    have hagree : (∀ gs, RegionOk unit m preldrStart gs →
        gs.lookup (literal "prod") = fs.lookup (literal "prod")) ↔ w = v := by
      constructor
      · intro hall
        have := hall gs hgs
        rw [hw, hv] at this
        exact Option.some.inj this
      · rintro rfl ks hks
        rw [hks.unique hgs, hw, hv]
    rw [hagree, ← hcompare, FwHeader.checkProd, hunlocked, hlocked]
    rcases hsame : strCompareEqualSafeTwoArg m
      (fwHeaderCheckRegion unit m preldr (maxSize preldr.addr)).fieldProductPtr
      fw.fieldProductPtr with _ | _ <;> simp [hlocked]
  · have hlock : ¬ (fwHeaderCheckRegion unit m preldr (maxSize preldr.addr)).locked =
        .none := by
      rw [fwHeaderCheckRegion_locked_iff unit m preldr hstart, haddr]
      exact hpreldr
    rw [FwHeader.checkProd, if_neg fun hboth => hlock hboth.1]
    exact iff_of_true hlocked fun gs hgs => absurd ⟨gs, hgs⟩ hpreldr

theorem checkProdName_locked_iff {name : List UInt8} {lit : Nat}
    (hlit : FlashString m lit name) (hne : name ≠ []) (h : Recorded m fw fs)
    (hname : (fs.lookup (literal "prod_name")).isSome) :
    (checkProdName m lit fw).locked = .none ↔
      fw.locked = .none ∧ fs.lookup (literal "prod_name") = some name := by
  obtain ⟨w, hw⟩ := Option.isSome_iff_exists.mp hname
  have hcompare := strCompareEqualSafeTwoArg_iff hlit (h.prodName w hw).2 hne
  rw [hw, Option.some_inj, eq_comm (a := w), ← hcompare, checkProdName]
  rcases hsame : strCompareEqualSafeTwoArg m lit fw.fieldProductNamePtr with _ | _
  · by_cases hlocked : fw.locked = .none <;> simp [hlocked]
  · simp

theorem checkProdName_checkProd_iff {name : List UInt8} {lit : Nat}
    (hlit : FlashString m lit name) (hne : name ≠ []) {preldr : FwInfo}
    (hpreldr : preldr.addr = preldrStart) {t : FwType} (haddr : fw.addr = t.start) :
    (checkProdName m lit (checkProd m
      (fwHeaderCheckRegion unit m preldr (maxSize preldr.addr))
      (fwHeaderCheckRegion unit m fw (maxSize fw.addr)))).locked = .none ↔
    Bootable unit m fw.addr name := by
  have hiff := fwHeaderCheckRegion_locked_iff unit m fw haddr
  by_cases hlocked : (fwHeaderCheckRegion unit m fw (maxSize fw.addr)).locked = .none
  · obtain ⟨fs, hfs⟩ := hiff.mp hlocked
    obtain ⟨hrecorded, -⟩ := fwHeaderCheckRegion_of_regionOk unit m fw haddr hfs
    rw [checkProdName_locked_iff hlit hne (hrecorded.checkProd _) hfs.prodName,
      checkProd_locked_iff hpreldr hrecorded hfs.prod hlocked]
    constructor
    · rintro ⟨hproduct, hname⟩
      exact ⟨fs, hfs, hname, hproduct⟩
    · rintro ⟨gs, hgs, hname, hproduct⟩
      rw [hfs.unique hgs]
      exact ⟨hproduct, hname⟩
  · rw [checkProd, if_neg fun h => hlocked h.2.1, checkProdName,
      if_neg fun h => hlocked h.1]
    refine iff_of_false hlocked ?_
    rintro ⟨fs, hfs, -⟩
    exact hlocked (hiff.mpr ⟨fs, hfs⟩)

end

/-- The literals `LDR_NAME` and `APP_NAME` lie in flash. -/
structure NamesStored (m : Mem) (lits : NameLiterals) : Prop where
  ldrName : FlashString m lits.ldrName (literal "sh_gw_ldr")
  appName : FlashString m lits.appName (literal "sh_gw_app")

/-- The names, one behind the other. -/
def nameStrings : List UInt8 := literal "sh_gw_ldr" ++ [0] ++ (literal "sh_gw_app" ++ [0])

theorem namesStored_of_read {m : Mem} {a : Nat} (h : readBytes m a 20 = nameStrings)
    (hlower : flashStart ≤ a) (hupper : a + 20 ≤ flashFinish) : NamesStored m ⟨a, a + 10⟩ := by
  have hread : readBytes m a (10 + 10) = nameStrings := h
  rw [readBytes_add] at hread
  obtain ⟨hldr, happ⟩ := List.append_inj hread (readBytes_length _ _ _)
  constructor
  · exact ⟨hldr, by decide +kernel, hlower, by change a + 9 < _; omega⟩
  · exact ⟨happ, by decide +kernel, Nat.le_trans hlower (Nat.le_add_right _ _),
      by change a + 10 + 9 < _; omega⟩

section

variable {unit : CrcUnit} {m : Mem} {lits : NameLiterals}

theorem fwHeaderCheckAll_ldr_iff (hlits : NamesStored m lits) (infos : FwInfos) :
    (fwHeaderCheckAll unit lits m infos).ldr.locked = .none ↔
      Bootable unit m ldrStart (literal "sh_gw_ldr") :=
  @checkProdName_checkProd_iff unit m { infos.ldr with addr := ldrStart } _ _
    hlits.ldrName (by decide) { infos.preldr with addr := preldrStart } rfl .ldr rfl

theorem fwHeaderCheckAll_app_iff (hlits : NamesStored m lits) (infos : FwInfos) :
    (fwHeaderCheckAll unit lits m infos).app.locked = .none ↔
      Bootable unit m appStart (literal "sh_gw_app") :=
  @checkProdName_checkProd_iff unit m { infos.app with addr := appStart } _ _
    hlits.appName (by decide) { infos.preldr with addr := preldrStart } rfl .app rfl

end

end ShGateway.FwVerdict
