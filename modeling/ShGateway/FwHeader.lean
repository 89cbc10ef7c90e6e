import ShGateway.Crc
import ShGateway.Platform

/-!
Firmware headers and their check: `fw_header.c`, `fw_header_utils.c` and
`fw_headers_variables.c`. Pointers are 32-bit addresses, `NULL` being zero.
-/

namespace ShGateway.FwHeader

open ShGateway.Crc
open ShGateway.Lib.ByteWords
open ShGateway.Lib.NorFlash
open ShGateway.Platform

/-- `__header_offset` and `__header_size` of the linker script. -/
def headerOffset : Nat := 0x190
def headerSize : Nat := 0x10

/-! ## Strings -/

/-- `flash_check_range`; `true` is the verdict "not valid". -/
def flashCheckRange (addrStart size : Nat) : Bool :=
  if size > flashLen then true
  else decide (addrStart < flashStart) || decide ((addrStart + size) % 2 ^ 32 > flashFinish)

theorem flashCheckRange_eq_false_iff {addrStart size : Nat} :
    flashCheckRange addrStart size = false ↔
      size ≤ flashLen ∧ flashStart ≤ addrStart ∧
        (addrStart + size) % 2 ^ 32 ≤ flashFinish := by
  unfold flashCheckRange
  split_ifs with h
  · simp only [false_iff, not_and]
    omega
  · simp only [Bool.or_eq_false_iff, decide_eq_false_iff_not]
    omega

/-- The loop of `str_len_safe`. -/
def strLenLoop (m : Mem) (s i : Nat) : Int :=
  if m ((s + i) % 2 ^ 32) = 0 then i
  else if flashCheckRange ((s + i) % 2 ^ 32) 0 then -2
  else strLenLoop m s (i + 1)
termination_by flashFinish + 1 - (s + i) % 2 ^ 32
decreasing_by
  rename_i h
  rw [Bool.not_eq_true, flashCheckRange_eq_false_iff] at h
  simp only [flashFinish] at h ⊢
  omega

def strLenSafe (m : Mem) (s : Nat) : Int :=
  if flashCheckRange s 1 then -1 else strLenLoop m s 0

def strCompareEqualSafeTwoArg (m : Mem) (s₁ s₂ : Nat) : Bool :=
  let len₁ := strLenSafe m s₁
  let len₂ := strLenSafe m s₂
  if len₁ ≤ 0 ∨ len₂ ≤ 0 ∨ len₁ ≠ len₂ then false
  else readBytes m s₁ len₁.toNat = readBytes m s₂ len₁.toNat

/-- `str_compare_equal_safe_first_arg`; the second string is given by its
characters. -/
def strCompareEqualSafeFirstArg (m : Mem) (s₁ : Nat) (s₂ : List UInt8) : Bool :=
  let len₁ := strLenSafe m s₁
  let len₂ : Int := s₂.length
  if len₁ ≤ 0 ∨ len₂ ≤ 0 ∨ len₁ ≠ len₂ then false
  else readBytes m s₁ len₁.toNat = s₂

/-! ## The field table -/

/-- The loop of `fw_fields_get_count` over the bytes of the region from offset
`i` on. -/
def countLoop : List UInt8 → Nat → Nat → Nat → Int
  | [], _, _, _ => -4
  | b :: bytes, i, nullTermCount, elementCount =>
      if b = 0 then
        if i = 0 then -2
        else
          let nullTermCount := nullTermCount + 1
          let elementCount := if nullTermCount = 1 then elementCount + 1 else elementCount
          if 2 ≤ nullTermCount then
            if elementCount % 2 = 1 then -3 else ((elementCount / 2 : Nat) : Int)
          else countLoop bytes (i + 1) nullTermCount elementCount
      else countLoop bytes (i + 1) 0 elementCount

def fwFieldsGetCount (m : Mem) (addrFieldsStart regionSize : Nat) : Int :=
  if flashCheckRange addrFieldsStart regionSize then -1
  else countLoop (readBytes m addrFieldsStart regionSize) 0 0 0

/-- The loop of `fw_fields_find_by_key` over the bytes of the region from offset
`i` on. -/
def findKeyLoop (m : Mem) (start : Nat) (key : List UInt8) :
    List UInt8 → Nat → Nat → Nat → Bool → Nat
  | [], _, _, _, _ => 0
  | b :: bytes, i, nullTermCount, elementCount, nullCaptured =>
      if b = 0 then
        if i = 0 then 0
        else
          let nullTermCount := nullTermCount + 1
          let elementCount := if nullTermCount = 1 then elementCount + 1 else elementCount
          if 2 ≤ nullTermCount then 0
          else findKeyLoop m start key bytes (i + 1) nullTermCount elementCount true
      else if nullCaptured = true ∧ elementCount % 2 = 0 ∧
          strCompareEqualSafeFirstArg m (start + i) key = true then
        start + i + (strLenSafe m (start + i)).toNat + 1
      else findKeyLoop m start key bytes (i + 1) 0 elementCount false

def fwFieldsFindByKey (m : Mem) (addrFieldsStart : Nat) (key : List UInt8)
    (regionSize : Nat) : Nat :=
  if flashCheckRange addrFieldsStart regionSize then 0
  else findKeyLoop m addrFieldsStart key (readBytes m addrFieldsStart regionSize) 0 0 0 true

/-! ## Version numbers -/

/-- The first loop of `get_uint32_number_from_str`, with `k` turns left: the
number of digits, `none` for the early returns. -/
def countDigits (m : Mem) (s : Nat) : Nat → Nat → Option Nat
  | 0, i => some i
  | k + 1, i =>
      if flashCheckRange ((s + i) % 2 ^ 32) 2 then none
      else
        let c := m ((s + i) % 2 ^ 32)
        if ¬ (48 ≤ c ∧ c ≤ 57) ∧ c ≠ 0 then none
        else if c = 0 then some i
        else if i = 10 - 1 ∧ m ((s + i + 1) % 2 ^ 32) ≠ 0 then none
        else countDigits m s k (i + 1)

/-- The second loop, from the last of the first `i` digits down. -/
def sumDigits (m : Mem) (s : Nat) : Nat → Nat → Nat → Nat
  | 0, _, number => number
  | i + 1, rank, number =>
      let num := ((m ((s + i) % 2 ^ 32)).toNat - 48) * rank % 2 ^ 32
      if 2 ^ 32 - 1 - number < num then 0
      else sumDigits m s i (rank * 10 % 2 ^ 32) (number + num)

def getUint32NumberFromStr (m : Mem) (s : Nat) : Nat :=
  match countDigits m s 10 0 with
  | none => 0
  | some count => sumDigits m s count 1 0

/-! ## The check of a region -/

inductive FwHdrLock
  | none
  | byCrc
  | byAddr
  | bySizeSmall
  | byZeroFieldsCount
  | noProdField
  | noProdNameField
  | prodMismatch
  | prodNameFault
deriving DecidableEq, Repr

/-- `fw_info_t`. -/
structure FwInfo where
  locked : FwHdrLock := .none
  addr : Nat := 0
  size : Nat := 0
  fieldsCount : Int := 0
  fieldProductPtr : Nat := 0
  fieldProductLen : Int := 0
  fieldProductNamePtr : Nat := 0
  fieldProductNameLen : Int := 0
  verMajor : Nat := 0
  verMinor : Nat := 0
  verPatch : Nat := 0
deriving DecidableEq, Repr

def readWord (m : Mem) (addr : Nat) : Nat := ofLe (readBytes m addr 4)

/-! The words of `fw_header_v1_t`. -/

def fwSize (m : Mem) (addr : Nat) : Nat := readWord m (addr + headerOffset)
def fwCrc32 (m : Mem) (addr : Nat) : Nat := readWord m (addr + headerOffset + 4)
def fieldsAddrOffset (m : Mem) (addr : Nat) : Nat := readWord m (addr + headerOffset + 8)

/-- A string literal without its terminator. -/
def literal (s : String) : List UInt8 := s.toList.map fun c => UInt8.ofNat c.toNat

/-- The checksum `fw_header_check_region` computes. -/
def regionCrc (unit : CrcUnit) (m : Mem) (addr size : Nat) : UInt32 :=
  crc32End unit (crc32Start unit (readBytes m (addr / 4 * 4) headerOffset))
    (readBytes m ((addr + headerOffset + headerSize) / 4 * 4)
      (size - (headerOffset + headerSize)))

/-- The end of `fw_header_check_region`, once the fields are counted: the
product fields and the version are taken from the table. -/
def checkFields (m : Mem) (start regionSize : Nat) (fw : FwInfo) : FwInfo :=
  let find key := fwFieldsFindByKey m start (literal key) regionSize
  let prod := find "prod"
  let locked := if prod = 0 then .noProdField else fw.locked
  let prodName := find "prod_name"
  let locked := if prodName = 0 then .noProdNameField else locked
  { fw with
    locked
    fieldProductPtr := prod
    fieldProductLen := strLenSafe m prod
    fieldProductNamePtr := prodName
    fieldProductNameLen := strLenSafe m prodName
    verMajor := getUint32NumberFromStr m (find "ver_maj")
    verMinor := getUint32NumberFromStr m (find "ver_min")
    verPatch := getUint32NumberFromStr m (find "ver_pat") }

/-- `fw_header_check_region` with the linker script's header offset. Its result
is the `locked` field. -/
def fwHeaderCheckRegion (unit : CrcUnit) (m : Mem) (fw : FwInfo) (maxSize : Nat) :
    FwInfo :=
  let size := fwSize m fw.addr
  let locked := if flashCheckRange fw.addr size then .byAddr else .none
  let locked := if size ≤ headerOffset + headerSize then .bySizeSmall else locked
  let fw := { fw with locked, size }
  if locked ≠ .none then fw
  else if (regionCrc unit m fw.addr size).toNat ≠ fwCrc32 m fw.addr then
    { fw with locked := .byCrc }
  else
    let offset := fieldsAddrOffset m fw.addr
    let start := (fw.addr + offset) % 2 ^ 32
    let regionSize := if maxSize < offset then 0 else maxSize - offset
    let fieldsCount := fwFieldsGetCount m start regionSize
    let fw := { fw with fieldsCount }
    if fieldsCount ≤ 0 then { fw with locked := .byZeroFieldsCount }
    else checkFields m start regionSize fw

/-! ## The check of all images -/

inductive FwType
  | preldr
  | ldr
  | app
deriving DecidableEq, Repr

def FwType.start : FwType → Nat
  | preldr => preldrStart
  | ldr => ldrStart
  | app => appStart

/-- `g_fw_info`. -/
structure FwInfos where
  preldr : FwInfo := {}
  ldr : FwInfo := {}
  app : FwInfo := {}
deriving DecidableEq, Repr

def FwInfos.get (infos : FwInfos) : FwType → FwInfo
  | .preldr => infos.preldr
  | .ldr => infos.ldr
  | .app => infos.app

/-- Addresses of the literals `LDR_NAME` and `APP_NAME` in the running image. -/
structure NameLiterals where
  ldrName : Nat
  appName : Nat
deriving DecidableEq, Repr

/-- The `max_size` that `fw_header_check_all` passes. -/
def maxSize (addr : Nat) : Nat := flashFinish - headerOffset - addr - 1

/-- Locks an image whose product differs from the pre-loader's. -/
def checkProd (m : Mem) (preldr fw : FwInfo) : FwInfo :=
  if preldr.locked = .none ∧ fw.locked = .none ∧
      strCompareEqualSafeTwoArg m preldr.fieldProductPtr fw.fieldProductPtr = false then
    { fw with locked := .prodMismatch }
  else fw

/-- Locks an image that does not have the expected product name. -/
def checkProdName (m : Mem) (name : Nat) (fw : FwInfo) : FwInfo :=
  if fw.locked = .none ∧
      strCompareEqualSafeTwoArg m name fw.fieldProductNamePtr = false then
    { fw with locked := .prodNameFault }
  else fw

def fwHeaderCheckAll (unit : CrcUnit) (lits : NameLiterals) (m : Mem) (infos : FwInfos) :
    FwInfos :=
  let check (t : FwType) :=
    fwHeaderCheckRegion unit m { infos.get t with addr := t.start } (maxSize t.start)
  let preldr := check .preldr
  { preldr
    ldr := checkProdName m lits.ldrName (checkProd m preldr (check .ldr))
    app := checkProdName m lits.appName (checkProd m preldr (check .app)) }

end ShGateway.FwHeader
