import ShGateway.Lib.Runs
import ShGateway.Preldr

/-!
`g_fw_info` over a sequence of flash contents, each of them checked.
-/

namespace ShGateway.FwInfoRuns

open ShGateway.Crc
open ShGateway.FieldTable
open ShGateway.FwHeader
open ShGateway.FwVerdict
open ShGateway.Lib.NorFlash
open ShGateway.Lib.Runs
open ShGateway.Lib.StringTable
open ShGateway.Platform
open ShGateway.Preldr

/-! ## Images -/

/-- The size and the checksum in the header of the image at `start` are right. -/
structure HeaderOk (unit : CrcUnit) (m : Mem) (start : Nat) : Prop where
  size : headerOffset + headerSize < fwSize m start
  range : start + fwSize m start ≤ flashFinish
  crc : (crc32 unit (coveredBytes m start)).toNat = fwCrc32 m start

def tableStart (m : Mem) (start : Nat) : Nat := start + fieldsAddrOffset m start

/-- The region scanned for the fields of the image at `start` begins with `fs`. -/
def HasTable (m : Mem) (start : Nat) (fs : Fields) : Prop :=
  IsFieldTable m (tableStart m start) (maxSize start - fieldsAddrOffset m start) fs

/-- The fields of the image are read. -/
def IsRead (unit : CrcUnit) (m : Mem) (start : Nat) : Prop :=
  HeaderOk unit m start ∧ ∃ fs, HasTable m start fs

/-- The address of the value of a field, `NULL` without it. -/
def valueOf (m : Mem) (start : Nat) (fs : Fields) (key : String) : Nat :=
  (fieldAddress (tableStart m start) (literal key) fs).getD 0

/-- The image passes all checks. The product of the pre-loader counts if that passes. -/
def Accepted (unit : CrcUnit) (lits : NameLiterals) (m : Mem) : FwType → Prop
  | .preldr => ∃ fs, RegionOk unit m preldrStart fs
  | .ldr => ∃ fs, RegionOk unit m ldrStart fs ∧
      (∀ gs, RegionOk unit m preldrStart gs →
        gs.lookup (literal "prod") = fs.lookup (literal "prod")) ∧
      strCompareEqualSafeTwoArg m lits.ldrName (valueOf m ldrStart fs "prod_name") = true
  | .app => ∃ fs, RegionOk unit m appStart fs ∧
      (∀ gs, RegionOk unit m preldrStart gs →
        gs.lookup (literal "prod") = fs.lookup (literal "prod")) ∧
      strCompareEqualSafeTwoArg m lits.appName (valueOf m appStart fs "prod_name") = true

/-! ## What is known of an image -/

/-- Pointer and length are those of the value of a field in flash. -/
structure PointsAt (m : Mem) (start : Nat) (fs : Fields) (key : String) (ptr : Nat)
    (len : Int) : Prop where
  ptr_eq : ptr = valueOf m start fs key
  value : ∀ v, fs.lookup (literal key) = some v → CStringAt m ptr v ∧ len = v.length

/-- The entry of `g_fw_info` tells of the fields in flash. -/
structure Current (m : Mem) (start : Nat) (fs : Fields) (fw : FwInfo) : Prop where
  fieldsCount : fw.fieldsCount = fs.length
  prod : PointsAt m start fs "prod" fw.fieldProductPtr fw.fieldProductLen
  prodName : PointsAt m start fs "prod_name" fw.fieldProductNamePtr fw.fieldProductNameLen
  verMajor : fw.verMajor = getUint32NumberFromStr m (valueOf m start fs "ver_maj")
  verMinor : fw.verMinor = getUint32NumberFromStr m (valueOf m start fs "ver_min")
  verPatch : fw.verPatch = getUint32NumberFromStr m (valueOf m start fs "ver_pat")

/-- No product, name or version is given. -/
structure NoFields (fw : FwInfo) : Prop where
  productPtr : fw.fieldProductPtr = 0
  productLen : fw.fieldProductLen = 0
  productNamePtr : fw.fieldProductNamePtr = 0
  productNameLen : fw.fieldProductNameLen = 0
  verMajor : fw.verMajor = 0
  verMinor : fw.verMinor = 0
  verPatch : fw.verPatch = 0

structure Cleared (fw : FwInfo) : Prop extends NoFields fw where
  fieldsCount : fw.fieldsCount = 0

/-- `g_fw_info` after the last of a sequence of checks. -/
def infosAfter (unit : CrcUnit) (lits : NameLiterals) (ms : List Mem) : FwInfos :=
  ms.foldl (fun infos m => fwHeaderCheckAll unit lits m infos) {}

/-- After the check of `m` every image that passes is described as it is in flash,
and nothing is told of any other. -/
def Described (unit : CrcUnit) (lits : NameLiterals) (pre : List Mem) (m : Mem) : Prop :=
  ∀ t, let fw := (infosAfter unit lits (pre ++ [m])).get t
    (fw.locked = .none → ∃ fs, HasTable m t.start fs ∧ Current m t.start fs fw) ∧
      (fw.locked ≠ .none → Cleared fw)

/-- The same with an image that fails once its fields are read described as it is;
without a table there may be an error in place of the count. -/
def NothingLeftOver (unit : CrcUnit) (lits : NameLiterals) (pre : List Mem) (m : Mem) : Prop :=
  ∀ t, let fw := (infosAfter unit lits (pre ++ [m])).get t
    (IsRead unit m t.start → ∃ fs, HasTable m t.start fs ∧ Current m t.start fs fw) ∧
      (¬ IsRead unit m t.start → NoFields fw ∧ fw.fieldsCount ≤ 0)

/-! ## One check -/

section

variable (unit : CrcUnit) (lits : NameLiterals) (m : Mem)

/-- The check of one image, before the images are compared. -/
def checkOne (infos : FwInfos) (t : FwType) : FwInfo :=
  fwHeaderCheckRegion unit m { infos.get t with addr := t.start } (maxSize t.start)

variable {unit lits m}

theorem checkProd_eq (preldr fw : FwInfo) :
    ∃ locked, checkProd m preldr fw = { fw with locked } := by
  rw [checkProd]
  split_ifs
  · exact ⟨_, rfl⟩
  · exact ⟨fw.locked, rfl⟩

theorem checkProdName_eq (name : Nat) (fw : FwInfo) :
    ∃ locked, checkProdName m name fw = { fw with locked } := by
  rw [checkProdName]
  split_ifs
  · exact ⟨_, rfl⟩
  · exact ⟨fw.locked, rfl⟩

theorem ldr_checkAll (infos : FwInfos) : (fwHeaderCheckAll unit lits m infos).ldr =
    checkProdName m lits.ldrName
      (checkProd m (checkOne unit m infos .preldr) (checkOne unit m infos .ldr)) := by
  simp only [fwHeaderCheckAll, checkOne]

theorem app_checkAll (infos : FwInfos) : (fwHeaderCheckAll unit lits m infos).app =
    checkProdName m lits.appName
      (checkProd m (checkOne unit m infos .preldr) (checkOne unit m infos .app)) := by
  simp only [fwHeaderCheckAll, checkOne]

theorem preldr_checkAll (infos : FwInfos) : (fwHeaderCheckAll unit lits m infos).preldr =
    checkOne unit m infos .preldr := by
  simp only [fwHeaderCheckAll, checkOne]

theorem get_checkAll (infos : FwInfos) (t : FwType) :
    ∃ locked, (fwHeaderCheckAll unit lits m infos).get t =
      { checkOne unit m infos t with locked } := by
  cases t with
  | preldr =>
      rw [FwInfos.get, preldr_checkAll]
      generalize checkOne unit m infos .preldr = fw
      exact ⟨fw.locked, rfl⟩
  | ldr =>
      rw [FwInfos.get, ldr_checkAll]
      generalize checkOne unit m infos .preldr = preldr
      generalize checkOne unit m infos .ldr = fw
      obtain ⟨l, hl⟩ := @checkProd_eq m preldr fw
      obtain ⟨l', hl'⟩ := @checkProdName_eq m lits.ldrName { fw with locked := l }
      exact ⟨l', by rw [hl, hl']⟩
  | app =>
      rw [FwInfos.get, app_checkAll]
      generalize checkOne unit m infos .preldr = preldr
      generalize checkOne unit m infos .app = fw
      obtain ⟨l, hl⟩ := @checkProd_eq m preldr fw
      obtain ⟨l', hl'⟩ := @checkProdName_eq m lits.appName { fw with locked := l }
      exact ⟨l', by rw [hl, hl']⟩

theorem checkOne_of_not_header (infos : FwInfos) {t : FwType}
    (h : ¬ HeaderOk unit m t.start) :
    ∃ locked size, checkOne unit m infos t =
      { infos.get t with addr := t.start, locked, size } := by
  obtain ⟨hword, hlower, hupper⟩ := start_bounds t
  rcases Nat.lt_or_ge (headerOffset + headerSize) (fwSize m t.start) with hsize | hsize
  · have hsize' : ¬ fwSize m t.start ≤ headerOffset + headerSize := Nat.not_le.mpr hsize
    rcases hrange : flashCheckRange t.start (fwSize m t.start) with _ | _
    · have hcrc : (regionCrc unit m t.start (fwSize m t.start)).toNat ≠ fwCrc32 m t.start := by
        rw [regionCrc_eq unit m hword]
        intro hcrc
        rw [flashCheckRange_eq_false_iff] at hrange
        refine h ⟨hsize, ?_, hcrc⟩
        simp only [flashLen, flashStart, flashFinish] at *
        omega
      refine ⟨.byCrc, fwSize m t.start, ?_⟩
      simp [checkOne, fwHeaderCheckRegion, hsize', hrange, hcrc]
    · refine ⟨.byAddr, fwSize m t.start, ?_⟩
      simp [checkOne, fwHeaderCheckRegion, hsize', hrange]
  · refine ⟨.bySizeSmall, fwSize m t.start, ?_⟩
    simp [checkOne, fwHeaderCheckRegion, hsize]

theorem HeaderOk.region {t : FwType} (h : HeaderOk unit m t.start) :
    ¬ fwSize m t.start ≤ headerOffset + headerSize ∧
      flashCheckRange t.start (fwSize m t.start) = false ∧
      (regionCrc unit m t.start (fwSize m t.start)).toNat = fwCrc32 m t.start := by
  obtain ⟨hword, hlower, hupper⟩ := start_bounds t
  have hsize := h.size
  have hrange := h.range
  refine ⟨Nat.not_le.mpr hsize, ?_, ?_⟩
  · rw [flashCheckRange_eq_false_iff]
    simp only [flashLen, flashStart, flashFinish] at *
    omega
  · rw [regionCrc_eq unit m hword]
    exact h.crc

theorem countLoop_ne_zero {bytes : List UInt8} {i n e : Nat} (h : n ≠ 0 → e ≠ 0) :
    countLoop bytes i n e ≠ 0 := by
  induction bytes generalizing i n e with
  | nil => simp [countLoop]
  | cons b bytes ih =>
      rw [countLoop]
      split_ifs with hb hi
      · decide
      · dsimp only
        split_ifs
        all_goals first | omega | exact ih fun _ => by omega
      · exact ih fun hn => absurd rfl hn

theorem count_neg {start n : Nat} (h : fwFieldsGetCount m start n ≤ 0) :
    fwFieldsGetCount m start n < 0 := by
  refine lt_of_le_of_ne h ?_
  rw [fwFieldsGetCount]
  split_ifs
  · decide
  · exact countLoop_ne_zero fun hn => absurd rfl hn

theorem checkOne_of_not_table (infos : FwInfos) {t : FwType} (h : HeaderOk unit m t.start)
    (hnone : ∀ fs, ¬ HasTable m t.start fs) :
    ∃ locked size count, count < 0 ∧ checkOne unit m infos t =
      { infos.get t with addr := t.start, locked, size, fieldsCount := count } := by
  obtain ⟨-, hlower, hupper⟩ := start_bounds t
  obtain ⟨hsize, hrange, hcrc⟩ := h.region
  have hcheck := fwHeaderCheckRegion_of_header unit m { infos.get t with addr := t.start }
    (maxSize t.start) hsize hrange hcrc
  dsimp only at hcheck
  have hcount : fwFieldsGetCount m ((t.start + fieldsAddrOffset m t.start) % 2 ^ 32)
      (maxSize t.start - fieldsAddrOffset m t.start) ≤ 0 := by
    rcases Nat.lt_or_ge (maxSize t.start) (fieldsAddrOffset m t.start) with hoffset | hoffset
    · rw [Nat.sub_eq_zero_of_le hoffset.le]
      exact fwFieldsGetCount_zero m _
    · rw [Nat.mod_eq_of_lt (by simp only [flashFinish] at hupper; omega)]
      by_contra hpos
      refine absurd ((fwFieldsGetCount_pos_iff ?_).mp (not_le.mp hpos)) (not_exists.mpr hnone)
      rw [flashCheckRange_eq_false_iff]
      simp only [flashLen, flashStart, flashFinish] at *
      omega
  rw [if_pos hcount] at hcheck
  exact ⟨_, _, _, count_neg hcount, hcheck⟩

theorem HasTable.region_lt {t : FwType} {fs : Fields} (h : HasTable m t.start fs) :
    flashStart ≤ tableStart m t.start ∧
      tableStart m t.start + (maxSize t.start - fieldsAddrOffset m t.start) < flashFinish := by
  obtain ⟨-, hlower, hupper⟩ := start_bounds t
  have hfits := h.fits
  have hpos : 0 < (tableBytes (strings fs)).length := by simp [tableBytes]
  rw [tableStart]
  omega

theorem HasTable.find {t : FwType} {fs : Fields} (h : HasTable m t.start fs) (key : String) :
    fwFieldsFindByKey m (tableStart m t.start) (literal key)
      (maxSize t.start - fieldsAddrOffset m t.start) = valueOf m t.start fs key :=
  fwFieldsFindByKey_eq h h.region_lt.1 h.region_lt.2.le (literal key)

theorem HasTable.value {t : FwType} {fs : Fields} (h : HasTable m t.start fs) {key : String}
    {v : List UInt8} (hv : fs.lookup (literal key) = some v) :
    v ≠ [] ∧ FlashString m (valueOf m t.start fs key) v := by
  have hsome := fwFieldsFindByKey_some h h.region_lt.1 h.region_lt.2.le hv
  rwa [h.find key] at hsome

theorem HasTable.pointsAt {t : FwType} {fs : Fields} (h : HasTable m t.start fs)
    (key : String) : PointsAt m t.start fs key (valueOf m t.start fs key)
      (strLenSafe m (valueOf m t.start fs key)) where
  ptr_eq := rfl
  value := by
    intro v hv
    have hstring := (h.value hv).2
    exact ⟨hstring.stored, strLenSafe_eq hstring⟩

theorem HasTable.len_ne_zero {t : FwType} {fs : Fields} (h : HasTable m t.start fs)
    (key : String) : strLenSafe m (valueOf m t.start fs key) ≠ 0 := by
  rcases hv : fs.lookup (literal key) with _ | v
  · have hnull : valueOf m t.start fs key = 0 := by
      rw [valueOf, fieldAddress_none hv, Option.getD_none]
    have hlen : strLenSafe m 0 = -1 := rfl
    rw [hnull, hlen]
    decide
  · obtain ⟨hne, hstring⟩ := h.value hv
    have hpos := List.length_pos_iff.mpr hne
    rw [strLenSafe_eq hstring]
    omega

theorem checkOne_of_table (infos : FwInfos) {t : FwType} {fs : Fields}
    (h : HeaderOk unit m t.start) (hfs : HasTable m t.start fs) :
    Current m t.start fs (checkOne unit m infos t) ∧
      (checkOne unit m infos t).fieldProductLen ≠ 0 := by
  have hcheck := @fwHeaderCheckRegion_of_header_table unit m
    { infos.get t with addr := t.start } t rfl fs h.size h.range h.crc hfs
  have hfind := hfs.find
  rw [tableStart] at hfind
  rw [checkOne]
  dsimp only at hcheck
  rw [hcheck]
  simp only [checkFields, hfind]
  exact ⟨⟨rfl, hfs.pointsAt "prod", hfs.pointsAt "prod_name", rfl, rfl, rfl⟩,
    hfs.len_ne_zero "prod"⟩

theorem checkOne_locked_iff (infos : FwInfos) (t : FwType) :
    (checkOne unit m infos t).locked = .none ↔ ∃ fs, RegionOk unit m t.start fs :=
  @fwHeaderCheckRegion_locked_iff unit m { infos.get t with addr := t.start } t rfl

theorem headerOk_of_regionOk {start : Nat} {fs : Fields} (h : RegionOk unit m start fs) :
    HeaderOk unit m start := ⟨h.header, h.upper, h.crc⟩

theorem compared_locked_iff (infos : FwInfos) (t : FwType) (name : Nat) :
    (checkProdName m name (checkProd m (checkOne unit m infos .preldr)
      (checkOne unit m infos t))).locked = .none ↔
    ∃ fs, RegionOk unit m t.start fs ∧
      (∀ gs, RegionOk unit m preldrStart gs →
        gs.lookup (literal "prod") = fs.lookup (literal "prod")) ∧
      strCompareEqualSafeTwoArg m name (valueOf m t.start fs "prod_name") = true := by
  have hiff := @checkOne_locked_iff unit m infos t
  rcases Classical.em ((checkOne unit m infos t).locked = .none) with hlocked | hlocked
  · obtain ⟨fs, hfs⟩ := hiff.mp hlocked
    have hrecorded := (@fwHeaderCheckRegion_of_regionOk unit m
      { infos.get t with addr := t.start } t rfl fs hfs).1
    have hproduct := @checkProd_locked_iff unit m (checkOne unit m infos t) fs
      { infos.preldr with addr := preldrStart } rfl hrecorded hfs.prod hlocked
    have hptr : (checkProd m (checkOne unit m infos .preldr)
        (checkOne unit m infos t)).fieldProductNamePtr = valueOf m t.start fs "prod_name" := by
      obtain ⟨l, hl⟩ := @checkProd_eq m (checkOne unit m infos .preldr) (checkOne unit m infos t)
      rw [hl]
      exact (checkOne_of_table infos (headerOk_of_regionOk hfs) hfs.table).1.prodName.ptr_eq
    rw [checkProdName, hptr]
    constructor
    · intro hnone
      split_ifs at hnone with hname
      refine ⟨fs, hfs, hproduct.mp hnone, ?_⟩
      simpa using not_and.mp hname hnone
    · rintro ⟨gs, hgs, hsame, hname⟩
      obtain rfl := hgs.unique hfs
      rw [if_neg fun hwrong => by rw [hname] at hwrong; exact absurd hwrong.2 (by simp)]
      exact hproduct.mpr hsame
  · rw [checkProd, if_neg fun h => hlocked h.2.1, checkProdName, if_neg fun h => hlocked h.1]
    refine iff_of_false hlocked ?_
    rintro ⟨fs, hfs, -⟩
    exact hlocked (hiff.mpr ⟨fs, hfs⟩)

theorem locked_iff (infos : FwInfos) (t : FwType) :
    ((fwHeaderCheckAll unit lits m infos).get t).locked = .none ↔ Accepted unit lits m t := by
  cases t with
  | preldr =>
      rw [FwInfos.get, preldr_checkAll]
      exact checkOne_locked_iff infos .preldr
  | ldr =>
      rw [FwInfos.get, ldr_checkAll]
      exact compared_locked_iff infos .ldr lits.ldrName
  | app =>
      rw [FwInfos.get, app_checkAll]
      exact compared_locked_iff infos .app lits.appName

end

/-! ## Runs -/

section

variable {unit : CrcUnit} {lits : NameLiterals} {ms : List Mem} {m : Mem} {t : FwType}

theorem infosAfter_snoc : infosAfter unit lits (ms ++ [m]) =
    fwHeaderCheckAll unit lits m (infosAfter unit lits ms) := by
  rw [infosAfter, List.foldl_append, List.foldl_cons, List.foldl_nil]
  rfl

theorem noFields_default (t : FwType) : NoFields (infosAfter unit lits [] |>.get t) := by
  cases t <;> exact ⟨rfl, rfl, rfl, rfl, rfl, rfl, rfl⟩

theorem noFields_snoc_iff (h : ¬ IsRead unit m t.start) :
    NoFields ((infosAfter unit lits (ms ++ [m])).get t) ↔
      NoFields ((infosAfter unit lits ms).get t) := by
  obtain ⟨l, hl⟩ := @get_checkAll unit lits m (infosAfter unit lits ms) t
  rw [infosAfter_snoc, hl]
  rcases Classical.em (HeaderOk unit m t.start) with hheader | hheader
  · obtain ⟨_, _, _, -, heq⟩ := checkOne_of_not_table (infosAfter unit lits ms) hheader
      fun fs hfs => h ⟨hheader, fs, hfs⟩
    rw [heq]
    exact ⟨fun h => ⟨h.1, h.2, h.3, h.4, h.5, h.6, h.7⟩,
      fun h => ⟨h.1, h.2, h.3, h.4, h.5, h.6, h.7⟩⟩
  · obtain ⟨_, _, heq⟩ := checkOne_of_not_header (infosAfter unit lits ms) hheader
    rw [heq]
    exact ⟨fun h => ⟨h.1, h.2, h.3, h.4, h.5, h.6, h.7⟩,
      fun h => ⟨h.1, h.2, h.3, h.4, h.5, h.6, h.7⟩⟩

theorem current_snoc (h : IsRead unit m t.start) :
    (∃ fs, HasTable m t.start fs ∧
      Current m t.start fs ((infosAfter unit lits (ms ++ [m])).get t)) ∧
    ((infosAfter unit lits (ms ++ [m])).get t).fieldProductLen ≠ 0 := by
  obtain ⟨hheader, fs, hfs⟩ := h
  obtain ⟨l, hl⟩ := @get_checkAll unit lits m (infosAfter unit lits ms) t
  obtain ⟨hcurrent, hlen⟩ := checkOne_of_table (infosAfter unit lits ms) hheader hfs
  rw [infosAfter_snoc, hl]
  generalize checkOne unit m (infosAfter unit lits ms) t = fw at hcurrent hlen ⊢
  exact ⟨⟨fs, hfs, hcurrent.1, hcurrent.2, hcurrent.3, hcurrent.4, hcurrent.5, hcurrent.6⟩, hlen⟩

theorem noFields_iff : NoFields ((infosAfter unit lits ms).get t) ↔
    ∀ m ∈ ms, ¬ IsRead unit m t.start := by
  induction ms using List.reverseRecOn with
  | nil => exact iff_of_true (noFields_default t) nofun
  | append_singleton ms m ih =>
      rw [List.forall_mem_append, List.forall_mem_singleton, ← ih]
      rcases Classical.em (IsRead unit m t.start) with hread | hread
      · exact iff_of_false (fun h => (current_snoc hread).2 h.productLen) fun h => h.2 hread
      · rw [noFields_snoc_iff hread, and_iff_left hread]

theorem fieldsCount_snoc :
    (¬ HeaderOk unit m t.start → ((infosAfter unit lits (ms ++ [m])).get t).fieldsCount =
      ((infosAfter unit lits ms).get t).fieldsCount) ∧
    (HeaderOk unit m t.start →
      ((infosAfter unit lits (ms ++ [m])).get t).fieldsCount ≠ 0) ∧
    (HeaderOk unit m t.start → ¬ IsRead unit m t.start →
      ((infosAfter unit lits (ms ++ [m])).get t).fieldsCount < 0) := by
  obtain ⟨l, hl⟩ := @get_checkAll unit lits m (infosAfter unit lits ms) t
  rw [infosAfter_snoc, hl]
  refine ⟨?_, ?_, ?_⟩
  · intro hheader
    obtain ⟨_, _, heq⟩ := checkOne_of_not_header (infosAfter unit lits ms) hheader
    rw [heq]
  · intro hheader
    rcases Classical.em (∃ fs, HasTable m t.start fs) with ⟨fs, hfs⟩ | hnone
    · have hpos := List.length_pos_iff.mpr hfs.ne_nil
      have hcount := (checkOne_of_table (infosAfter unit lits ms) hheader hfs).1.fieldsCount
      dsimp only
      omega
    · obtain ⟨_, _, _, hneg, heq⟩ := checkOne_of_not_table (infosAfter unit lits ms) hheader
        (not_exists.mp hnone)
      rw [heq]
      exact hneg.ne
  · intro hheader hread
    obtain ⟨_, _, _, hneg, heq⟩ := checkOne_of_not_table (infosAfter unit lits ms) hheader
      fun fs hfs => hread ⟨hheader, fs, hfs⟩
    rw [heq]
    exact hneg

theorem fieldsCount_eq_zero_iff : ((infosAfter unit lits ms).get t).fieldsCount = 0 ↔
    ∀ m ∈ ms, ¬ HeaderOk unit m t.start := by
  induction ms using List.reverseRecOn with
  | nil => exact iff_of_true (by cases t <;> rfl) nofun
  | append_singleton ms m ih =>
      obtain ⟨hkeep, hset, -⟩ := @fieldsCount_snoc unit lits ms m t
      rw [List.forall_mem_append, List.forall_mem_singleton, ← ih]
      rcases Classical.em (HeaderOk unit m t.start) with hheader | hheader
      · exact iff_of_false (hset hheader) fun h => h.2 hheader
      · rw [hkeep hheader, and_iff_left hheader]

theorem fieldsCount_le_zero (h : ∀ m ∈ ms, ¬ IsRead unit m t.start) :
    ((infosAfter unit lits ms).get t).fieldsCount ≤ 0 := by
  induction ms using List.reverseRecOn with
  | nil => cases t <;> exact le_refl _
  | append_singleton ms m ih =>
      rw [List.forall_mem_append, List.forall_mem_singleton] at h
      obtain ⟨hkeep, -, hneg⟩ := @fieldsCount_snoc unit lits ms m t
      rcases Classical.em (HeaderOk unit m t.start) with hheader | hheader
      · exact (hneg hheader h.2).le
      · rw [hkeep hheader]
        exact ih h.1

theorem cleared_iff : Cleared ((infosAfter unit lits ms).get t) ↔
    ∀ m ∈ ms, ¬ HeaderOk unit m t.start := by
  constructor
  · intro h
    exact fieldsCount_eq_zero_iff.mp h.fieldsCount
  · intro h
    exact ⟨noFields_iff.mpr fun m hm hread => h m hm hread.1, fieldsCount_eq_zero_iff.mpr h⟩

theorem Accepted.isRead (h : Accepted unit lits m t) : IsRead unit m t.start := by
  obtain ⟨fs, hfs⟩ : ∃ fs, RegionOk unit m t.start fs := by
    cases t with
    | preldr => exact h
    | ldr => exact h.imp fun fs hfs => hfs.1
    | app => exact h.imp fun fs hfs => hfs.1
  exact ⟨headerOk_of_regionOk hfs, fs, hfs.table⟩

end

section

variable (unit : CrcUnit) (lits : NameLiterals)

/-- Every image passes, or has had a wrong header in every content so far. -/
def AcceptedOrNever (pre : List Mem) (m : Mem) : Prop :=
  ∀ t, Accepted unit lits m t ∨ ∀ m' ∈ pre ++ [m], ¬ HeaderOk unit m' t.start

/-- Every image has fields that are read, or has had none in any content so far. -/
def ReadOrNever (pre : List Mem) (m : Mem) : Prop :=
  ∀ t : FwType, IsRead unit m t.start ∨ ∀ m' ∈ pre ++ [m], ¬ IsRead unit m' t.start

variable {unit lits}

theorem described_iff (pre : List Mem) (m : Mem) :
    Described unit lits pre m ↔ AcceptedOrNever unit lits pre m := by
  refine forall_congr' fun t => ?_
  have hlocked := @locked_iff unit lits m (infosAfter unit lits pre) t
  rw [← infosAfter_snoc] at hlocked
  dsimp only
  rw [ne_eq, hlocked, cleared_iff]
  constructor
  · rintro ⟨-, hcleared⟩
    exact or_iff_not_imp_left.mpr hcleared
  · intro h
    exact ⟨fun haccepted => (current_snoc haccepted.isRead).1, or_iff_not_imp_left.mp h⟩

theorem nothingLeftOver_iff (pre : List Mem) (m : Mem) :
    NothingLeftOver unit lits pre m ↔ ReadOrNever unit pre m := by
  refine forall_congr' fun t => ?_
  dsimp only
  rw [noFields_iff]
  constructor
  · rintro ⟨-, hnone⟩
    exact or_iff_not_imp_left.mpr fun h => (hnone h).1
  · intro h
    refine ⟨fun hread => (current_snoc hread).1, fun hread => ?_⟩
    have hnever := or_iff_not_imp_left.mp h hread
    exact ⟨hnever, fieldsCount_le_zero hnever⟩

end

/-- The runs in which every check leaves a description of what is in flash: with the
images that fail described as cleared, and with those that fail after their fields
are read described as they are. -/
theorem run_described_iff (unit : CrcUnit) (lits : NameLiterals) (ms : List Mem) :
    (AtEach (Described unit lits) ms ↔ AtEach (AcceptedOrNever unit lits) ms) ∧
      (AtEach (NothingLeftOver unit lits) ms ↔ AtEach (ReadOrNever unit) ms) := by
  constructor
  · exact atEach_iff (fun pre m _ => described_iff pre m) ms
  · exact atEach_iff (fun pre m _ => nothingLeftOver_iff pre m) ms

def erasedFlash : Mem := fun _ => 0xFF

/-- The sample application is still described after flash has been erased. -/
theorem not_described_erased :
    ¬ AtEach (Described .stm32 sampleNames) [sampleFlash, erasedFlash] ∧
      ¬ AtEach (NothingLeftOver .stm32 sampleNames) [sampleFlash, erasedFlash] := by
  have hsample : HeaderOk .stm32 sampleFlash FwType.app.start :=
    headerOk_of_regionOk sampleFlash_regionOk
  have herased : ¬ HeaderOk .stm32 erasedFlash FwType.app.start := by
    intro h
    exact absurd h.range (by decide +kernel)
  have hread : IsRead .stm32 sampleFlash FwType.app.start :=
    ⟨hsample, sampleFields, sampleFlash_regionOk.table⟩
  constructor
  · intro h
    have hlast := h [sampleFlash] erasedFlash (List.prefix_refl _)
    rcases (described_iff _ _).mp hlast .app with haccepted | hnever
    · exact herased haccepted.isRead.1
    · exact hnever sampleFlash (by simp) hsample
  · intro h
    have hlast := h [sampleFlash] erasedFlash (List.prefix_refl _)
    rcases (nothingLeftOver_iff _ _).mp hlast .app with hread' | hnever
    · exact herased hread'.1
    · exact hnever sampleFlash (by simp) hread

end ShGateway.FwInfoRuns
