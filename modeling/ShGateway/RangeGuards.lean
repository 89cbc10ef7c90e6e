import ShGateway.FlashSession
import ShGateway.Fram
import ShGateway.GatewayFiles

/-!
The range checks in front of the flash and of the FRAM against the intervals that they stand for.
A sum of two `uint32_t` that wraps around is what most of them miss.
-/

namespace ShGateway.RangeGuards

open ShGateway.Crc
open ShGateway.FlashSession
open ShGateway.Fram
open ShGateway.FwHeader
open ShGateway.GatewayFiles
open ShGateway.Lib.NorFlash
open ShGateway.Platform

/-! ## The intervals over the integers -/

def InFlashRange (addr size : UInt32) : Prop :=
  flashStart ≤ addr.toNat ∧ addr.toNat + size.toNat ≤ flashFinish

def InFramRange (addr size : UInt32) : Prop := addr.toNat + size.toNat ≤ framSize

/-- The sum of address and size does not fit into a `uint32_t`. -/
def Wraps (addr size : UInt32) : Prop := 2 ^ 32 ≤ addr.toNat + size.toNat

/-! ## What each guard is for -/

/-- `flash_check_range` accepts the ranges in flash. -/
def CheckExact (addr size : UInt32) : Prop :=
  flashCheckRange addr.toNat size.toNat = false ↔ InFlashRange addr size

/-- `platform_flash_read` copies the ranges in flash. -/
def ReadExact (addr size : UInt32) : Prop :=
  ∀ m : Mem, platformFlashRead m addr.toNat size.toNat =
    some (readBytes m addr.toNat size.toNat) ↔ InFlashRange addr size

/-- `fram_read` performs the transfer for the ranges in the chip. -/
def FramReadExact (addr size : UInt32) : Prop :=
  ∀ c : Chip, (framRead addr size c).2.isSome ↔ InFramRange addr size

/-- The two frames of a write. -/
def Chip.transfer (c : Chip) (addr : UInt32) (data : List UInt8) : Chip :=
  (c.select [framCmdWrEn]).select
    ([framCmdWrite, (addr >>> 16).toUInt8, (addr >>> 8).toUInt8, addr.toUInt8] ++ data)

/-- `fram_write` performs the transfer for the ranges in the chip. -/
def FramWriteExact (addr size : UInt32) : Prop :=
  ∀ (c : Chip) (data : List UInt8), data.length = size.toNat →
    (framWrite addr data c = (0, Chip.transfer c addr data) ↔ InFramRange addr size)

/-- Between the two states flash was programmed. -/
def Programs (before after : FlashDev) : Prop :=
  ∃ ops a b, after.ops = before.ops ++ ops ∧ .programByte a b ∈ ops

/-- A write callback programs flash only for ranges in its partition. -/
def WriteConfined
    (write : FlashHw → CrcUnit → NameLiterals → Nat → Option (List UInt8) → Images → Int × Images)
    (first last : Nat) (addr size : UInt32) : Prop :=
  ∀ hw unit lits data s, data.length = size.toNat → 0 < size.toNat →
    Programs s.dev (write hw unit lits addr.toNat (some data) s).2.dev →
    addr.toNat + size.toNat ≤ last - first

/-! ## When it does so -/

/-- `flash_check_range` turns a size away that is larger than flash, not a sum that wraps around. -/
def CheckHolds (addr size : UInt32) : Prop := ¬ Wraps addr size ∨ flashLen < size.toNat

/-- `platform_flash_read` does not know of the wrap-around, and refuses the last byte of flash. -/
structure ReadHolds (addr size : UInt32) : Prop where
  wraps : Wraps addr size → addr.toNat < flashStart ∨ flashFinish ≤ (addr + size).toNat
  last : ¬ Wraps addr size → flashStart ≤ addr.toNat → addr.toNat + size.toNat ≠ flashFinish

def FramHolds (addr size : UInt32) : Prop :=
  Wraps addr size → framSize < (addr + size).toNat

/-- A sum that wraps around is refused by its value, or its destination belongs to no sector. -/
def WriteHolds (first last : Nat) (addr size : UInt32) : Prop :=
  Wraps addr size → last - first < (addr + size).toNat ∨
    findSector ((first + addr.toNat) % 2 ^ 32) = none

section

variable {addr size : UInt32}

theorem Wraps.toNat_add (h : Wraps addr size) :
    (addr + size).toNat + 2 ^ 32 = addr.toNat + size.toNat := by
  have haddr := addr.toNat_lt
  have hsize := size.toNat_lt
  rw [Wraps] at h
  rw [UInt32.toNat_add]
  omega

theorem toNat_add_of_not_wraps (h : ¬ Wraps addr size) :
    (addr + size).toNat = addr.toNat + size.toNat := by
  rw [Wraps] at h
  rw [UInt32.toNat_add, Nat.mod_eq_of_lt (by omega)]

/-! ## Flash -/

theorem checkExact_iff : CheckExact addr size ↔ CheckHolds addr size := by
  have hlen : flashLen = 0x80000 := rfl
  have hstart : flashStart = 0x08000000 := rfl
  have hfinish : flashFinish = 0x08080000 := rfl
  have haddr := addr.toNat_lt
  rw [CheckExact, flashCheckRange_eq_false_iff, InFlashRange, CheckHolds, Wraps]
  omega

theorem platformFlashRead_eq_some (m : Mem) :
    platformFlashRead m addr.toNat size.toNat = some (readBytes m addr.toNat size.toNat) ↔
      flashStart ≤ addr.toNat ∧ (addr + size).toNat < flashFinish := by
  rw [platformFlashRead, UInt32.toNat_add]
  split_ifs with h
  · exact iff_of_false (by simp) (by omega)
  · exact iff_of_true rfl (by omega)

theorem readExact_iff : ReadExact addr size ↔ ReadHolds addr size := by
  have hfinish : flashFinish = 0x08080000 := rfl
  simp only [ReadExact, platformFlashRead_eq_some, InFlashRange, forall_const]
  rcases Classical.em (Wraps addr size) with hwraps | hfits
  · have hsum := hwraps.toNat_add
    constructor
    · exact fun hexact => ⟨fun _ => by omega, fun hnot => absurd hwraps hnot⟩
    · intro hholds
      have hrefused := hholds.wraps hwraps
      omega
  · rw [toNat_add_of_not_wraps hfits]
    constructor
    · exact fun hexact => ⟨fun h => absurd h hfits, fun _ hlower => by omega⟩
    · intro hholds
      have hlast := hholds.last hfits
      omega

/-! ## The FRAM -/

theorem gt_framSize_iff :
    addr + size > UInt32.ofNat framSize ↔ framSize < (addr + size).toNat := by
  rw [gt_iff_lt, UInt32.lt_iff_toNat_lt]
  rfl

theorem framHolds_iff : (¬ framSize < (addr + size).toNat ↔ InFramRange addr size) ↔
    FramHolds addr size := by
  have hsize : framSize = 131072 := rfl
  rw [InFramRange, FramHolds]
  rcases Classical.em (Wraps addr size) with hwraps | hfits
  · have hsum := hwraps.toNat_add
    simp only [hwraps, forall_true_left]
    omega
  · rw [toNat_add_of_not_wraps hfits]
    simp only [hfits, false_imp_iff, iff_true]
    omega

theorem framRead_isSome (c : Chip) :
    (framRead addr size c).2.isSome ↔ ¬ framSize < (addr + size).toNat := by
  rw [framRead]
  split_ifs with h
  · exact iff_of_false (by simp) (not_not.mpr (gt_framSize_iff.mp h))
  · exact iff_of_true rfl fun hlt => h (gt_framSize_iff.mpr hlt)

theorem framReadExact_iff : FramReadExact addr size ↔ FramHolds addr size := by
  have hchip : Nonempty Chip := ⟨⟨fun _ => 0, false⟩⟩
  simp only [FramReadExact, framRead_isSome, forall_const]
  exact framHolds_iff

theorem framWrite_eq_transfer (c : Chip) {data : List UInt8} (hlen : data.length = size.toNat) :
    framWrite addr data c = (0, Chip.transfer c addr data) ↔
      ¬ framSize < (addr + size).toNat := by
  rw [framWrite, hlen, UInt32.ofNat_toNat]
  split_ifs with h
  · refine iff_of_false (fun heq => ?_) (not_not.mpr (gt_framSize_iff.mp h))
    exact absurd (Prod.mk.inj heq).1 (by decide)
  · exact iff_of_true rfl fun hlt => h (gt_framSize_iff.mpr hlt)

theorem framWriteExact_iff : FramWriteExact addr size ↔ FramHolds addr size := by
  rw [← framHolds_iff]
  constructor
  · intro hexact
    have hlen : (List.replicate size.toNat (0 : UInt8)).length = size.toNat :=
      List.length_replicate
    rw [← framWrite_eq_transfer ⟨fun _ => 0, false⟩ hlen]
    exact hexact _ _ hlen
  · intro hiff c data hlen
    rw [framWrite_eq_transfer c hlen]
    exact hiff

/-! ## The write callbacks -/

theorem Programs.findSector {hw : FlashHw} {d : FlashDev} {dest : Nat} {src : List UInt8}
    (h : Programs d (platformFlashWrite hw d dest src).2) : findSector dest ≠ none := by
  obtain ⟨ops, a, b, hops, hmem⟩ := h
  obtain ⟨ops', heffect⟩ := platformFlashWrite_effect hw d dest src
  obtain rfl : ops' = ops := List.append_cancel_left (heffect.ops_eq.symm.trans hops)
  obtain ⟨hle, -, hsome⟩ := heffect.lawful.program_mem hmem
  exact Option.isSome_iff_ne_none.mp (hsome dest le_rfl hle)

theorem programs_ideal (d : FlashDev) {dest : Nat} (hdest : findSector dest ≠ none)
    (src : List UInt8) :
    Programs d (platformFlashWrite .ideal d dest (0 :: src)).2 := by
  obtain ⟨i, hi⟩ := Option.ne_none_iff_exists'.mp hdest
  have hbyte : (platformFlashWriteByte .ideal d dest 0).1 = 0 ∧
      ∃ ops, (platformFlashWriteByte .ideal d dest 0).2.ops = d.ops ++ ops ∧
        .programByte dest 0 ∈ ops := by
    rcases hflag : d.erased i with _ | _
    · simp [platformFlashWriteByte, hi, eraseOnce, hflag, flashEraseSector, flashProgramByte,
        FlashHw.ideal, programByte]
    · simp [platformFlashWriteByte, hi, eraseOnce, hflag, flashProgramByte, FlashHw.ideal,
        programByte]
  rcases hturn : platformFlashWriteByte .ideal d dest 0 with ⟨err, d'⟩
  rw [hturn] at hbyte
  obtain ⟨rfl, ops, hops, hmem⟩ := hbyte
  obtain ⟨ops', heffect⟩ := platformFlashWrite_effect .ideal d' (dest + 1) src
  refine ⟨ops ++ ops', dest, 0, ?_, List.mem_append_left ops' hmem⟩
  rw [platformFlashWrite, hturn]
  exact heffect.ops_eq.trans (by rw [hops, List.append_assoc])

theorem cbWrGw_dev (hw : FlashHw) (unit : CrcUnit) (lits : NameLiterals) (first last : Nat)
    (s : Images) {data : List UInt8} (hlen : data.length = size.toNat) (hpos : 0 < size.toNat) :
    (cbWrGw hw unit lits first last addr.toNat (some data) s).2.dev =
      if last - first < (addr + size).toNat then s.dev
      else (platformFlashWrite hw s.dev ((first + addr.toNat) % 2 ^ 32) data).2 := by
  have hdata : ((some data).getD []).length = size.toNat := hlen
  have hfinal : ¬ (addr.toNat ≠ 0 ∧ ((some data).getD []).length = 0) := by omega
  have hsum : (addr.toNat + ((some data).getD []).length) % 2 ^ 32 = (addr + size).toNat := by
    rw [hdata, UInt32.toNat_add]
  split_ifs with h
  · rw [cbWrGw_refused hfinal (hsum.symm ▸ h)]
  · rw [cbWrGw_write hfinal (hsum.symm ▸ h)]
    rfl

theorem cbWrGw_confined_iff {first last : Nat} (hlast : last - first < 2 ^ 32) :
    WriteConfined (fun hw unit lits => cbWrGw hw unit lits first last) first last addr size ↔
      WriteHolds first last addr size := by
  constructor
  · intro hconfined hwraps
    rcases Nat.lt_or_ge (last - first) (addr + size).toNat with hlt | hge
    · exact .inl hlt
    · refine .inr ?_
      by_contra hdest
      have haddr := addr.toNat_lt
      obtain ⟨n, hn⟩ := Nat.exists_eq_add_one_of_ne_zero (show size.toNat ≠ 0 by
        rw [Wraps] at hwraps
        omega)
      have hlen : (List.replicate size.toNat (0 : UInt8)).length = size.toNat :=
        List.length_replicate
      have hprograms := programs_ideal blankImages.dev hdest (List.replicate n 0)
      rw [← List.replicate_succ, ← hn] at hprograms
      have hfits := hconfined .ideal .stm32 ⟨0, 0⟩ _ blankImages hlen (by omega)
        (by
          rw [cbWrGw_dev .ideal .stm32 ⟨0, 0⟩ first last blankImages hlen (by omega),
            if_neg (Nat.not_lt.mpr hge)]
          exact hprograms)
      rw [Wraps] at hwraps
      omega
  · intro hholds hw unit lits data s hlen hpos hprograms
    rw [cbWrGw_dev hw unit lits first last s hlen hpos] at hprograms
    split_ifs at hprograms with hlt
    · obtain ⟨ops, a, b, hops, hmem⟩ := hprograms
      rw [List.self_eq_append_right.mp hops] at hmem
      exact absurd hmem List.not_mem_nil
    · rcases Classical.em (Wraps addr size) with hwraps | hfits
      · exact absurd ((hholds hwraps).resolve_left hlt) hprograms.findSector
      · rw [toNat_add_of_not_wraps hfits] at hlt
        omega

end

/-! ## All guards -/

/-- Each guard accepts exactly the ranges it stands for where its own condition holds. -/
theorem guards_exact_iff (addr size : UInt32) :
    (CheckExact addr size ↔ CheckHolds addr size) ∧
      (ReadExact addr size ↔ ReadHolds addr size) ∧
      (FramReadExact addr size ↔ FramHolds addr size) ∧
      (FramWriteExact addr size ↔ FramHolds addr size) ∧
      (WriteConfined cbWrGwLdr ldrStart ldrEnd addr size ↔
        WriteHolds ldrStart ldrEnd addr size) ∧
      (WriteConfined cbWrGwApp appStart appEnd addr size ↔
        WriteHolds appStart appEnd addr size) :=
  ⟨checkExact_iff, readExact_iff, framReadExact_iff, framWriteExact_iff,
    cbWrGw_confined_iff (by decide), cbWrGw_confined_iff (by decide)⟩

/-- Eight bytes from the fourth last address on pass every guard. -/
theorem not_guards_exact :
    ¬ CheckExact 0xFFFFFFFC 8 ∧ ¬ ReadExact 0xFFFFFFFC 8 ∧ ¬ FramReadExact 0xFFFFFFFC 8 ∧
      ¬ FramWriteExact 0xFFFFFFFC 8 ∧
      ¬ WriteConfined cbWrGwLdr ldrStart ldrEnd 0xFFFFFFFC 8 ∧
      ¬ WriteConfined cbWrGwApp appStart appEnd 0xFFFFFFFC 8 ∧
      ¬ ReadExact 0x08000000 0x80000 := by
  have hwraps : Wraps 0xFFFFFFFC 8 := by
    rw [Wraps]
    decide
  have hfram : ¬ FramHolds 0xFFFFFFFC 8 := fun hholds => absurd (hholds hwraps) (by decide)
  refine ⟨fun h => ?_, fun h => ?_, fun h => hfram (framReadExact_iff.mp h),
    fun h => hfram (framWriteExact_iff.mp h), fun h => ?_, fun h => ?_, fun h => ?_⟩
  · exact (checkExact_iff.mp h).elim (fun hnot => hnot hwraps) (by decide)
  · exact ((readExact_iff.mp h).wraps hwraps).elim (by decide) (by decide)
  · exact ((cbWrGw_confined_iff (by decide)).mp h hwraps).elim (by decide) (by decide)
  · exact ((cbWrGw_confined_iff (by decide)).mp h hwraps).elim (by decide) (by decide)
  · have hfits : ¬ Wraps 0x08000000 0x80000 := by
      rw [Wraps]
      decide
    exact (readExact_iff.mp h).last hfits (by decide) (by decide)

end ShGateway.RangeGuards
