import ShGateway.FwVerdict
import ShGateway.Lib.ReadTrace

/-!
The functions of `fw_header.c`, `fw_header_utils.c` and `fw_headers_variables.c`
with the bytes they read.
-/

namespace ShGateway.FwReads

open ShGateway.Crc
open ShGateway.FieldTable
open ShGateway.FwHeader
open ShGateway.FwVerdict
open ShGateway.Lib.ByteWords
open ShGateway.Lib.NorFlash
open ShGateway.Lib.ReadTrace
open ShGateway.Lib.StringTable
open ShGateway.Platform

/-! ## Strings -/

/-- The loop of `str_len_safe`. -/
def strLenLoop (s i : Nat) : Reading Int := do
  let c ← readByte ((s + i) % 2 ^ 32)
  if c = 0 then pure (i : Int)
  else if h : flashCheckRange ((s + i) % 2 ^ 32) 0 then pure (-2)
  else strLenLoop s (i + 1)
termination_by flashFinish + 1 - (s + i) % 2 ^ 32
decreasing_by
  rw [Bool.not_eq_true, flashCheckRange_eq_false_iff] at h
  simp only [flashFinish] at h ⊢
  omega

def strLenSafe (s : Nat) : Reading Int :=
  if flashCheckRange s 1 then pure (-1) else strLenLoop s 0

/-- The loop of `str_compare_equal_safe_two_arg` with `k` turns left. -/
def equalLoop (s₁ s₂ : Nat) : Nat → Nat → Reading Bool
  | 0, _ => pure true
  | k + 1, i => do
      let c₁ ← readByte (s₁ + i)
      let c₂ ← readByte (s₂ + i)
      if c₁ ≠ c₂ then pure false else equalLoop s₁ s₂ k (i + 1)

def strCompareEqualSafeTwoArg (s₁ s₂ : Nat) : Reading Bool := do
  let len₁ ← strLenSafe s₁
  let len₂ ← strLenSafe s₂
  if len₁ ≤ 0 ∨ len₂ ≤ 0 ∨ len₁ ≠ len₂ then pure false
  else equalLoop s₁ s₂ len₁.toNat 0

/-- The loop of `str_compare_equal_safe_first_arg`, over the characters of the
second string. -/
def equalKeyLoop (s₁ : Nat) : List UInt8 → Nat → Reading Bool
  | [], _ => pure true
  | c₂ :: key, i => do
      let c₁ ← readByte (s₁ + i)
      if c₁ ≠ c₂ then pure false else equalKeyLoop s₁ key (i + 1)

def strCompareEqualSafeFirstArg (s₁ : Nat) (s₂ : List UInt8) : Reading Bool := do
  let len₁ ← strLenSafe s₁
  let len₂ : Int := s₂.length
  if len₁ ≤ 0 ∨ len₂ ≤ 0 ∨ len₁ ≠ len₂ then pure false
  else equalKeyLoop s₁ s₂ 0

/-! ## The field table -/

/-- The loop of `fw_fields_get_count` with `k` turns left. -/
def countLoop (start : Nat) : Nat → Nat → Nat → Nat → Reading Int
  | 0, _, _, _ => pure (-4)
  | k + 1, i, nullTermCount, elementCount => do
      let b ← readByte (start + i)
      if b = 0 then
        if i = 0 then pure (-2)
        else
          let nullTermCount := nullTermCount + 1
          let elementCount := if nullTermCount = 1 then elementCount + 1 else elementCount
          if 2 ≤ nullTermCount then
            pure (if elementCount % 2 = 1 then -3 else ((elementCount / 2 : Nat) : Int))
          else countLoop start k (i + 1) nullTermCount elementCount
      else countLoop start k (i + 1) 0 elementCount

def fwFieldsGetCount (addrFieldsStart regionSize : Nat) : Reading Int :=
  if flashCheckRange addrFieldsStart regionSize then pure (-1)
  else countLoop addrFieldsStart regionSize 0 0 0

/-- The loop of `fw_fields_find_by_key` with `k` turns left. -/
def findKeyLoop (start : Nat) (key : List UInt8) :
    Nat → Nat → Nat → Nat → Bool → Reading Nat
  | 0, _, _, _, _ => pure 0
  | k + 1, i, nullTermCount, elementCount, nullCaptured => do
      let b ← readByte (start + i)
      if b = 0 then
        if i = 0 then pure 0
        else
          let nullTermCount := nullTermCount + 1
          let elementCount := if nullTermCount = 1 then elementCount + 1 else elementCount
          if 2 ≤ nullTermCount then pure 0
          else findKeyLoop start key k (i + 1) nullTermCount elementCount true
      else if nullCaptured = true ∧ elementCount % 2 = 0 then do
        let found ← strCompareEqualSafeFirstArg (start + i) key
        if found = true then do
          let len ← strLenSafe (start + i)
          pure (start + i + len.toNat + 1)
        else findKeyLoop start key k (i + 1) 0 elementCount false
      else findKeyLoop start key k (i + 1) 0 elementCount false

def fwFieldsFindByKey (addrFieldsStart : Nat) (key : List UInt8) (regionSize : Nat) :
    Reading Nat :=
  if flashCheckRange addrFieldsStart regionSize then pure 0
  else findKeyLoop addrFieldsStart key regionSize 0 0 0 true

/-- The loop of `fw_fields_find_by_iterator` with `k` turns left: the result,
`*p_key` and `*p_value`. -/
def findIteratorLoop (start iterator : Nat) :
    Nat → Nat → Nat → Nat → Bool → Reading (Bool × Nat × Nat)
  | 0, _, _, _, _ => pure (false, 0, 0)
  | k + 1, i, nullTermCount, elementCount, nullCaptured => do
      let b ← readByte (start + i)
      if b = 0 then
        if i = 0 then pure (false, 0, 0)
        else
          let nullTermCount := nullTermCount + 1
          let elementCount := if nullTermCount = 1 then elementCount + 1 else elementCount
          if 2 ≤ nullTermCount then pure (false, 0, 0)
          else findIteratorLoop start iterator k (i + 1) nullTermCount elementCount true
      else if nullCaptured = true ∧ elementCount % 2 = 0 ∧ elementCount / 2 = iterator then do
        let len ← strLenSafe (start + i)
        pure (true, start + i, start + i + len.toNat + 1)
      else findIteratorLoop start iterator k (i + 1) 0 elementCount false

/-- `fw_fields_find_by_iterator`; `pKey` and `pValue` are the contents of the
output variables. An invalid region is reported as found. -/
def fwFieldsFindByIterator (addrFieldsStart iterator pKey pValue regionSize : Nat) :
    Reading (Bool × Nat × Nat) :=
  if flashCheckRange addrFieldsStart regionSize then pure (true, pKey, pValue)
  else findIteratorLoop addrFieldsStart iterator regionSize 0 0 0 true

/-! ## Version numbers -/

/-- The first loop of `get_uint32_number_from_str`, with `k` turns left. -/
def countDigits (s : Nat) : Nat → Nat → Reading (Option Nat)
  | 0, i => pure (some i)
  | k + 1, i =>
      if flashCheckRange ((s + i) % 2 ^ 32) 2 then pure none
      else do
        let c ← readByte ((s + i) % 2 ^ 32)
        if ¬ (48 ≤ c ∧ c ≤ 57) ∧ c ≠ 0 then pure none
        else if c = 0 then pure (some i)
        else if i = 10 - 1 then do
          let next ← readByte ((s + i + 1) % 2 ^ 32)
          if next ≠ 0 then pure none else countDigits s k (i + 1)
        else countDigits s k (i + 1)

/-- The second loop, from the last of the first `i` digits down. -/
def sumDigits (s : Nat) : Nat → Nat → Nat → Reading Nat
  | 0, _, number => pure number
  | i + 1, rank, number => do
      let c ← readByte ((s + i) % 2 ^ 32)
      let num := (c.toNat - 48) * rank % 2 ^ 32
      if 2 ^ 32 - 1 - number < num then pure 0
      else sumDigits s i (rank * 10 % 2 ^ 32) (number + num)

def getUint32NumberFromStr (s : Nat) : Reading Nat := do
  let count ← countDigits s 10 0
  match count with
  | none => pure 0
  | some count => sumDigits s count 1 0

/-! ## The check -/

/-- The loop of `crc32_start` and `crc32_end` with `k` words left. -/
def crcLoop (unit : CrcUnit) : Nat → Nat → UInt32 → Reading UInt32
  | 0, _, dr => pure dr
  | k + 1, a, dr => do
      let w ← readAll a 4
      crcLoop unit k (a + 4) (unit.fold dr (UInt32.ofNat (ofLe w)))

/-- `crc32_start` over the image before its header and `crc32_end` over the rest. -/
def regionCrc (unit : CrcUnit) (addr size : Nat) : Reading UInt32 := do
  let dr ← crcLoop unit (headerOffset / 4) (addr / 4 * 4) unit.reset
  crcLoop unit ((size - (headerOffset + headerSize)) / 4)
    ((addr + headerOffset + headerSize) / 4 * 4) dr

def readWord (addr : Nat) : Reading Nat := do
  let w ← readAll addr 4
  pure (ofLe w)

/-- The end of `fw_header_check_region`, once the fields are counted. -/
def checkFields (start regionSize : Nat) (fw : FwInfo) : Reading FwInfo := do
  let find key := fwFieldsFindByKey start (literal key) regionSize
  let prod ← find "prod"
  let locked := if prod = 0 then .noProdField else fw.locked
  let prodLen ← strLenSafe prod
  let prodName ← find "prod_name"
  let locked := if prodName = 0 then .noProdNameField else locked
  let prodNameLen ← strLenSafe prodName
  let major ← find "ver_maj"
  let minor ← find "ver_min"
  let patch ← find "ver_pat"
  let verMajor ← getUint32NumberFromStr major
  let verMinor ← getUint32NumberFromStr minor
  let verPatch ← getUint32NumberFromStr patch
  pure { fw with
    locked
    fieldProductPtr := prod
    fieldProductLen := prodLen
    fieldProductNamePtr := prodName
    fieldProductNameLen := prodNameLen
    verMajor
    verMinor
    verPatch }

def fwHeaderCheckRegion (unit : CrcUnit) (fw : FwInfo) (maxSize : Nat) : Reading FwInfo := do
  let size ← readWord (fw.addr + headerOffset)
  let locked : FwHdrLock := if flashCheckRange fw.addr size then .byAddr else .none
  let locked := if size ≤ headerOffset + headerSize then .bySizeSmall else locked
  let fw := { fw with locked, size }
  if locked ≠ .none then pure fw
  else do
    let crc ← regionCrc unit fw.addr size
    let fwCrc32 ← readWord (fw.addr + headerOffset + 4)
    if crc.toNat ≠ fwCrc32 then pure { fw with locked := .byCrc }
    else do
      let offset ← readWord (fw.addr + headerOffset + 8)
      let start := (fw.addr + offset) % 2 ^ 32
      let regionSize := if maxSize < offset then 0 else maxSize - offset
      let fieldsCount ← fwFieldsGetCount start regionSize
      let fw := { fw with fieldsCount }
      if fieldsCount ≤ 0 then pure { fw with locked := .byZeroFieldsCount }
      else checkFields start regionSize fw

/-- Locks an image whose product differs from the pre-loader's. -/
def checkProd (preldr fw : FwInfo) : Reading FwInfo :=
  if preldr.locked = .none ∧ fw.locked = .none then do
    let same ← strCompareEqualSafeTwoArg preldr.fieldProductPtr fw.fieldProductPtr
    pure (if same = false then { fw with locked := .prodMismatch } else fw)
  else pure fw

/-- Locks an image that does not have the expected product name. -/
def checkProdName (name : Nat) (fw : FwInfo) : Reading FwInfo :=
  if fw.locked = .none then do
    let same ← strCompareEqualSafeTwoArg name fw.fieldProductNamePtr
    pure (if same = false then { fw with locked := .prodNameFault } else fw)
  else pure fw

def fwHeaderCheckAll (unit : CrcUnit) (lits : NameLiterals) (infos : FwInfos) :
    Reading FwInfos := do
  let check (t : FwType) :=
    fwHeaderCheckRegion unit { infos.get t with addr := t.start } (maxSize t.start)
  let preldr ← check .preldr
  let ldr ← check .ldr
  let app ← check .app
  let ldr ← checkProd preldr ldr
  let app ← checkProd preldr app
  let ldr ← checkProdName lits.ldrName ldr
  let app ← checkProdName lits.appName app
  pure { preldr, ldr, app }

/-! ## The helpers -/

/-- The bounds of the field search that both helpers take from the header. -/
def helperRegion (fw : FwInfo) (offset : Nat) : Nat × Nat :=
  ((fw.addr + offset) % 2 ^ 32,
    if maxSize fw.addr < offset then 0 else maxSize fw.addr - offset)

def fwFieldsFindByKeyHelper (fw : FwInfo) (key : List UInt8) : Reading Nat :=
  if fw.locked ≠ .none then pure 0
  else if fw.fieldsCount = 0 then pure 0
  else do
    let offset ← readWord (fw.addr + headerOffset + 8)
    fwFieldsFindByKey (helperRegion fw offset).1 key (helperRegion fw offset).2

/-- `fw_fields_find_by_iterator_helper`. The iterator is compared as an `int`. -/
def fwFieldsFindByIteratorHelper (fw : FwInfo) (iterator pKey pValue : Nat) :
    Reading (Bool × Nat × Nat) :=
  if fw.locked ≠ .none then pure (false, pKey, pValue)
  else if Int.bmod iterator (2 ^ 32) ≥ fw.fieldsCount then pure (false, pKey, pValue)
  else do
    let offset ← readWord (fw.addr + headerOffset + 8)
    fwFieldsFindByIterator (helperRegion fw offset).1 iterator pKey pValue
      (helperRegion fw offset).2

/-! ## The values -/

section

variable {m : Mem}

theorem value_strLenLoop (s i : Nat) :
    (strLenLoop s i).value m = FwHeader.strLenLoop m s i := by
  induction i using FwHeader.strLenLoop.induct m s with
  | case1 i hzero =>
      rw [strLenLoop, FwHeader.strLenLoop, value_bind, value_readByte, if_pos hzero,
        if_pos hzero]
      rfl
  | case2 i hbyte hrange =>
      rw [strLenLoop, FwHeader.strLenLoop, value_bind, value_readByte, if_neg hbyte,
        if_neg hbyte, dif_pos hrange, if_pos hrange]
      rfl
  | case3 i hbyte hrange ih =>
      rw [strLenLoop, FwHeader.strLenLoop, value_bind, value_readByte, if_neg hbyte,
        if_neg hbyte, dif_neg hrange, if_neg hrange, ih]

@[simp] theorem value_strLenSafe (s : Nat) :
    (strLenSafe s).value m = FwHeader.strLenSafe m s := by
  rw [strLenSafe, FwHeader.strLenSafe, value_ite, value_strLenLoop]
  rfl

theorem value_equalLoop (s₁ s₂ k i : Nat) :
    (equalLoop s₁ s₂ k i).value m =
      decide (readBytes m (s₁ + i) k = readBytes m (s₂ + i) k) := by
  induction k generalizing i with
  | zero => rfl
  | succ k ih =>
      rw [equalLoop, value_bind, value_bind, value_ite, ih, readBytes_succ, readBytes_succ]
      simp only [value_readByte, value_pure, List.cons.injEq, Nat.add_assoc]
      by_cases hbyte : m (s₁ + i) = m (s₂ + i) <;> simp [hbyte]

theorem value_equalKeyLoop (s₁ : Nat) (key : List UInt8) (i : Nat) :
    (equalKeyLoop s₁ key i).value m = decide (readBytes m (s₁ + i) key.length = key) := by
  induction key generalizing i with
  | nil => rfl
  | cons c key ih =>
      rw [equalKeyLoop, value_bind, value_ite, ih, List.length_cons, readBytes_succ]
      simp only [value_readByte, value_pure, List.cons.injEq, Nat.add_assoc]
      by_cases hbyte : m (s₁ + i) = c <;> simp [hbyte]

@[simp] theorem value_strCompareEqualSafeTwoArg (s₁ s₂ : Nat) :
    (strCompareEqualSafeTwoArg s₁ s₂).value m =
      FwHeader.strCompareEqualSafeTwoArg m s₁ s₂ := by
  rw [strCompareEqualSafeTwoArg, FwHeader.strCompareEqualSafeTwoArg, value_bind, value_bind,
    value_ite, value_strLenSafe, value_strLenSafe, value_equalLoop]
  rfl

@[simp] theorem value_strCompareEqualSafeFirstArg (s₁ : Nat) (s₂ : List UInt8) :
    (strCompareEqualSafeFirstArg s₁ s₂).value m =
      FwHeader.strCompareEqualSafeFirstArg m s₁ s₂ := by
  rw [strCompareEqualSafeFirstArg, FwHeader.strCompareEqualSafeFirstArg, value_bind,
    value_ite, value_strLenSafe, value_equalKeyLoop]
  by_cases hlen : FwHeader.strLenSafe m s₁ ≤ 0 ∨ (s₂.length : Int) ≤ 0 ∨
      FwHeader.strLenSafe m s₁ ≠ s₂.length
  · simp only [if_pos hlen]
    rfl
  · simp only [if_neg hlen]
    have hsame : (FwHeader.strLenSafe m s₁).toNat = s₂.length := by omega
    rw [hsame]
    rfl

theorem value_countLoop (start k i n e : Nat) :
    (countLoop start k i n e).value m =
      FwHeader.countLoop (readBytes m (start + i) k) i n e := by
  induction k generalizing i n e with
  | zero => rfl
  | succ k ih =>
      rw [countLoop, readBytes_succ, FwHeader.countLoop]
      simp only [value_bind, value_readByte, value_ite, value_pure, ih, Nat.add_assoc]

@[simp] theorem value_fwFieldsGetCount (start n : Nat) :
    (fwFieldsGetCount start n).value m = FwHeader.fwFieldsGetCount m start n := by
  rw [fwFieldsGetCount, FwHeader.fwFieldsGetCount, value_ite, value_countLoop]
  rfl

theorem value_findKeyLoop (start : Nat) (key : List UInt8) (k i n e : Nat)
    (captured : Bool) :
    (findKeyLoop start key k i n e captured).value m =
      FwHeader.findKeyLoop m start key (readBytes m (start + i) k) i n e captured := by
  induction k generalizing i n e captured with
  | zero => rfl
  | succ k ih =>
      rw [findKeyLoop, readBytes_succ, FwHeader.findKeyLoop]
      simp only [value_bind, value_readByte, value_ite, value_pure, ih, Nat.add_assoc,
        value_strCompareEqualSafeFirstArg, value_strLenSafe]
      split_ifs <;> simp_all

@[simp] theorem value_fwFieldsFindByKey (start : Nat) (key : List UInt8) (n : Nat) :
    (fwFieldsFindByKey start key n).value m = FwHeader.fwFieldsFindByKey m start key n := by
  rw [fwFieldsFindByKey, FwHeader.fwFieldsFindByKey, value_ite, value_findKeyLoop]
  rfl

theorem value_countDigits (s k i : Nat) :
    (countDigits s k i).value m = FwHeader.countDigits m s k i := by
  induction k generalizing i with
  | zero => rfl
  | succ k ih =>
      rw [countDigits, FwHeader.countDigits]
      simp only [value_bind, value_ite, value_pure, value_readByte, ih]
      by_cases hlast : i = 10 - 1
      · simp only [hlast, if_true, true_and]
      · simp only [hlast, if_false, false_and]

theorem value_sumDigits (s i rank number : Nat) :
    (sumDigits s i rank number).value m = FwHeader.sumDigits m s i rank number := by
  induction i generalizing rank number with
  | zero => rfl
  | succ i ih =>
      rw [sumDigits, FwHeader.sumDigits]
      simp only [value_bind, value_ite, value_pure, value_readByte, ih]

@[simp] theorem value_getUint32NumberFromStr (s : Nat) :
    (getUint32NumberFromStr s).value m = FwHeader.getUint32NumberFromStr m s := by
  rw [getUint32NumberFromStr, FwHeader.getUint32NumberFromStr, value_bind,
    value_countDigits]
  cases FwHeader.countDigits m s 10 0 with
  | none => rfl
  | some count => exact value_sumDigits s count 1 0

theorem value_crcLoop (unit : CrcUnit) (a n : Nat) (dr : UInt32) :
    (crcLoop unit (n / 4) a dr).value m = crc32End unit dr (readBytes m a n) := by
  induction hk : n / 4 generalizing a n dr with
  | zero =>
      have hshort : n < 4 := by omega
      interval_cases n <;> rfl
  | succ k ih =>
      obtain ⟨n, rfl⟩ := Nat.exists_eq_add_of_le' (show 4 ≤ n by omega)
      rw [crcLoop, value_bind, value_readAll, ih (a + 4) n _ (by omega), Nat.add_comm n 4,
        readBytes_add, crc32End, crc32End, words_cons_word (readBytes_length m a 4)]
      rfl

@[simp] theorem value_regionCrc (unit : CrcUnit) (addr size : Nat) :
    (regionCrc unit addr size).value m = FwHeader.regionCrc unit m addr size := by
  rw [regionCrc, FwHeader.regionCrc, value_bind, value_crcLoop, value_crcLoop]
  rfl

@[simp] theorem value_readWord (addr : Nat) :
    (readWord addr).value m = FwHeader.readWord m addr := by
  rw [readWord, value_bind, value_readAll]
  rfl

@[simp] theorem value_checkFields (start n : Nat) (fw : FwInfo) :
    (checkFields start n fw).value m = FwHeader.checkFields m start n fw := by
  simp only [checkFields, FwHeader.checkFields, value_bind, value_fwFieldsFindByKey,
    value_strLenSafe, value_getUint32NumberFromStr, value_pure]

@[simp] theorem value_fwHeaderCheckRegion (unit : CrcUnit) (fw : FwInfo) (n : Nat) :
    (fwHeaderCheckRegion unit fw n).value m = FwHeader.fwHeaderCheckRegion unit m fw n := by
  simp only [fwHeaderCheckRegion, FwHeader.fwHeaderCheckRegion, fwSize, fwCrc32,
    fieldsAddrOffset, value_bind, value_ite, value_readWord, value_regionCrc,
    value_fwFieldsGetCount, value_checkFields, value_pure]
  congr

@[simp] theorem value_checkProd (preldr fw : FwInfo) :
    (checkProd preldr fw).value m = FwHeader.checkProd m preldr fw := by
  simp only [checkProd, FwHeader.checkProd, value_bind, value_ite,
    value_strCompareEqualSafeTwoArg, value_pure]
  split_ifs <;> simp_all

@[simp] theorem value_checkProdName (name : Nat) (fw : FwInfo) :
    (checkProdName name fw).value m = FwHeader.checkProdName m name fw := by
  simp only [checkProdName, FwHeader.checkProdName, value_bind, value_ite,
    value_strCompareEqualSafeTwoArg, value_pure]
  split_ifs <;> simp_all

theorem value_fwHeaderCheckAll (unit : CrcUnit) (lits : NameLiterals) (infos : FwInfos) :
    (fwHeaderCheckAll unit lits infos).value m =
      FwHeader.fwHeaderCheckAll unit lits m infos := by
  simp only [fwHeaderCheckAll, FwHeader.fwHeaderCheckAll, value_bind,
    value_fwHeaderCheckRegion, value_checkProd, value_checkProdName, value_pure]

end

end ShGateway.FwReads
