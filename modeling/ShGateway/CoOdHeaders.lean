import ShGateway.FwHeader
import ShGateway.Lib.Decimal

/-!
The identity of the gateway in its object dictionary, as `CO_driver_app.c` fills it in. A store
behind the end of an object is an error.
-/

namespace ShGateway.CoOdHeaders

open ShGateway.FwHeader
open ShGateway.Lib.Decimal
open ShGateway.Lib.NorFlash

/-- The size of each of the three objects. -/
def odStringSize : Nat := 33

/-- The objects of `OD_PERSIST_COMM` that are filled in. -/
structure OdPersistComm where
  x1008ManufacturerDeviceName : List UInt8
  x1009ManufacturerHardwareVersion : List UInt8
  x100AManufacturerSoftwareVersion : List UInt8
deriving DecidableEq

/-- An object after `memset`. -/
def cleared : List UInt8 := List.replicate odStringSize 0

def put (buf : List UInt8) (i : Nat) (c : UInt8) : Option (List UInt8) :=
  if i < buf.length then some (buf.set i c) else none

def memcpy (dst src : List UInt8) : Option (List UInt8) :=
  if src.length ≤ dst.length then some (src ++ dst.drop src.length) else none

/-- The loop of `count_digits`. -/
def countLoop (value result : Nat) : Nat :=
  if value = 0 then result else countLoop (value / 10) (result + 1)
termination_by value
decreasing_by omega

def countDigits (value : Nat) : Nat :=
  let result := countLoop value 0
  if result = 0 then 1 else result

/-- The loop of `_print_num` with `k` digits left, the last of them first. -/
def fillDigits (ptr : Nat) : Nat → Nat → List UInt8 → Option (List UInt8)
  | 0, _, buf => some buf
  | k + 1, n, buf => do
      let buf ← put buf (ptr + k) (UInt8.ofNat (n % 10 + 48))
      fillDigits ptr k (n / 10) buf

def printNum (buf : List UInt8 × Nat) (sz : Int) (num : Nat) : Option (List UInt8 × Nat) :=
  let cnt := countDigits num
  if buf.2 > sz - 1 - cnt then some buf
  else do
    let chars ← fillDigits buf.2 cnt num buf.1
    some (chars, buf.2 + cnt)

def printDot (buf : List UInt8 × Nat) (sz : Int) : Option (List UInt8 × Nat) :=
  if buf.2 < sz - 1 then do
    let chars ← put buf.1 buf.2 46
    some (chars, buf.2 + 1)
  else some buf

/-- A field of the firmware header is copied into its object. -/
def copyField (m : Mem) (ptr : Nat) (len : Int) : Option (List UInt8) :=
  if ptr ≠ 0 ∧ len > 0 then memcpy cleared (readBytes m ptr (min len.toNat (odStringSize - 1)))
  else some cleared

def coOdInitHeaders (m : Mem) (fw : FwInfo) : Option OdPersistComm := do
  let name ← copyField m fw.fieldProductNamePtr fw.fieldProductNameLen
  let hardware ← copyField m fw.fieldProductPtr fw.fieldProductLen
  let buf ← printNum (cleared, 0) odStringSize fw.verMajor
  let buf ← printDot buf odStringSize
  let buf ← printNum buf odStringSize fw.verMinor
  let buf ← printDot buf odStringSize
  let buf ← printNum buf odStringSize fw.verPatch
  some ⟨name, hardware, buf.1⟩

/-! ## What the objects hold -/

/-- The text, and NULs up to the end of the object. -/
def object (text : List UInt8) : List UInt8 :=
  text ++ List.replicate (odStringSize - text.length) 0

/-- The value of a field, which is empty if there is none. -/
def fieldValue (m : Mem) (ptr : Nat) (len : Int) : List UInt8 :=
  if ptr ≠ 0 ∧ len > 0 then readBytes m ptr len.toNat else []

def versionText (major minor patch : Nat) : List UInt8 :=
  numeral major ++ [46] ++ numeral minor ++ [46] ++ numeral patch

/-- The objects hold the names and the version, each ended by a NUL. -/
structure Identifies (m : Mem) (fw : FwInfo) (od : OdPersistComm) : Prop where
  deviceName : od.x1008ManufacturerDeviceName =
    object ((fieldValue m fw.fieldProductNamePtr fw.fieldProductNameLen).take (odStringSize - 1))
  hardwareVersion : od.x1009ManufacturerHardwareVersion =
    object ((fieldValue m fw.fieldProductPtr fw.fieldProductLen).take (odStringSize - 1))
  softwareVersion : od.x100AManufacturerSoftwareVersion =
    object (versionText fw.verMajor fw.verMinor fw.verPatch)
  version_lt : (versionText fw.verMajor fw.verMinor fw.verPatch).length < odStringSize

section

variable {m : Mem} {text rest : List UInt8} {n : Nat}

theorem readBytes_take (m : Mem) (a : Nat) {n k : Nat} :
    (readBytes m a n).take k = readBytes m a (min n k) := by
  rw [readBytes, readBytes, ← List.map_take, List.take_range, Nat.min_comm]

theorem copyField_eq (m : Mem) (ptr : Nat) (len : Int) :
    copyField m ptr len = some (object ((fieldValue m ptr len).take (odStringSize - 1))) := by
  rw [copyField, fieldValue]
  split_ifs
  · have hlength : (readBytes m ptr (min len.toNat (odStringSize - 1))).length ≤
        odStringSize := by
      rw [readBytes_length, odStringSize]
      omega
    rw [readBytes_take, memcpy, if_pos (by rwa [cleared, List.length_replicate]), object, cleared,
      List.drop_replicate]
  · rw [List.take_nil, object, List.nil_append]
    rfl

theorem countLoop_eq (n r : Nat) :
    countLoop n r = r + if n = 0 then 0 else (numeral n).length := by
  induction n using Nat.strong_induction_on generalizing r with
  | _ n ih =>
      rw [countLoop]
      split_ifs with hzero
      · rfl
      · rw [ih (n / 10) (by omega)]
        rcases Nat.lt_or_ge n 10 with hlt | hge
        · rw [if_pos (by omega), numeral_of_lt hlt]
          rfl
        · rw [if_neg (by omega), numeral_of_ge hge, List.length_append, List.length_singleton]
          omega

theorem countDigits_eq (n : Nat) : countDigits n = (numeral n).length := by
  rw [countDigits, countLoop_eq]
  rcases Nat.eq_zero_or_pos n with rfl | hpos
  · rfl
  · have hne : (numeral n).length ≠ 0 := by
      rw [numeral, List.length_map]
      exact Nat.length_toDigits_pos.ne'
    rw [if_neg hpos.ne', Nat.zero_add]
    exact if_neg hne

theorem fillDigits_eq (n : Nat) {hole : List UInt8} (hhole : hole.length = (numeral n).length) :
    fillDigits text.length (numeral n).length n (text ++ (hole ++ rest)) =
      some (text ++ (numeral n ++ rest)) := by
  induction n using Nat.strong_induction_on generalizing hole rest with
  | _ n ih =>
      rcases Nat.lt_or_ge n 10 with hlt | hge
      · rw [numeral_of_lt hlt] at hhole ⊢
        obtain ⟨c, rfl⟩ := List.length_eq_one_iff.mp hhole
        simp [fillDigits, put, Nat.mod_eq_of_lt hlt]
      · rw [numeral_of_ge hge, List.length_append, List.length_singleton] at hhole ⊢
        obtain ⟨hole, c, rfl⟩ : ∃ front c, hole = front ++ [c] := by
          rcases List.eq_nil_or_concat hole with rfl | ⟨front, c, rfl⟩
          · simp at hhole
          · exact ⟨front, c, List.concat_eq_append⟩
        rw [List.length_append, List.length_singleton] at hhole
        have hlen : hole.length = (numeral (n / 10)).length := by omega
        have hput : put (text ++ (hole ++ [c] ++ rest)) (text.length + (numeral (n / 10)).length)
            (UInt8.ofNat (n % 10 + 48)) =
            some (text ++ (hole ++ (UInt8.ofNat (n % 10 + 48) :: rest))) := by
          rw [put, if_pos (by simp; omega), ← hlen]
          simp
        rw [fillDigits, hput]
        change fillDigits text.length _ (n / 10) _ = _
        rw [ih (n / 10) (by omega) hlen, List.append_assoc]
        rfl

theorem printNum_eq (hfits : text.length + (numeral n).length < odStringSize) :
    printNum (object text, text.length) odStringSize n =
      some (object (text ++ numeral n), (text ++ numeral n).length) := by
  have hzeros : List.replicate (odStringSize - text.length) (0 : UInt8) =
      List.replicate (numeral n).length 0 ++
        List.replicate (odStringSize - (text ++ numeral n).length) 0 := by
    rw [← List.replicate_add, List.length_append]
    congr 1
    omega
  rw [printNum, countDigits_eq, if_neg (by dsimp only; omega), object, hzeros]
  dsimp only
  rw [fillDigits_eq n List.length_replicate, object, List.append_assoc, List.length_append]
  rfl

theorem printDot_eq (hfits : text.length + 1 < odStringSize) :
    printDot (object text, text.length) odStringSize =
      some (object (text ++ [46]), (text ++ [46]).length) := by
  have hzeros : List.replicate (odStringSize - text.length) (0 : UInt8) =
      0 :: List.replicate (odStringSize - (text ++ [46]).length) 0 := by
    rw [← List.replicate_succ, List.length_append, List.length_singleton]
    congr 1
    omega
  rw [printDot, if_pos (by dsimp only; omega), object, hzeros, put, if_pos (by simp)]
  simp [object]

theorem object_nil : object [] = cleared := rfl

end

/-- The objects are filled in without a store outside them. -/
theorem coOdInitHeaders_identifies (m : Mem) (fw : FwInfo) (hmajor : fw.verMajor < 2 ^ 32)
    (hminor : fw.verMinor < 2 ^ 32) (hpatch : fw.verPatch < 2 ^ 32) :
    ∃ od, coOdInitHeaders m fw = some od ∧ Identifies m fw od := by
  have hlength : ∀ n < 2 ^ 32, (numeral n).length ≤ 10 :=
    fun n hn => numeral_length_le (by decide) (hn.trans (by decide))
  have hmajor := hlength _ hmajor
  have hminor := hlength _ hminor
  have hpatch := hlength _ hpatch
  have hsize : odStringSize = 33 := rfl
  have hfirst := @printNum_eq [] fw.verMajor (by rw [List.length_nil]; omega)
  rw [object_nil, List.nil_append, List.length_nil] at hfirst
  have hdot := @printDot_eq (numeral fw.verMajor) (by omega)
  have hsecond := @printNum_eq (numeral fw.verMajor ++ [46]) fw.verMinor
    (by rw [List.length_append, List.length_singleton]; omega)
  have hdot' := @printDot_eq (numeral fw.verMajor ++ [46] ++ numeral fw.verMinor)
    (by simp only [List.length_append, List.length_singleton]; omega)
  have hthird := @printNum_eq (numeral fw.verMajor ++ [46] ++ numeral fw.verMinor ++ [46])
    fw.verPatch (by simp only [List.length_append, List.length_singleton]; omega)
  refine ⟨⟨_, _, object (versionText fw.verMajor fw.verMinor fw.verPatch)⟩, ?_, rfl, rfl, rfl, ?_⟩
  · rw [coOdInitHeaders, copyField_eq, copyField_eq, hfirst]
    simp only [Option.bind_eq_bind, Option.bind_some, hdot, hsecond, hdot', hthird]
    rfl
  · simp only [versionText, List.length_append, List.length_singleton]
    omega

def longestVersion : FwInfo where
  verMajor := 4294967295
  verMinor := 4294967295
  verPatch := 4294967295

/-- The longest text leaves room for just one NUL. -/
theorem coOdInitHeaders_identifies_longest :
    ∃ od, coOdInitHeaders (fun _ => 65) longestVersion = some od ∧
      Identifies (fun _ => 65) longestVersion od :=
  coOdInitHeaders_identifies _ _ (by decide) (by decide) (by decide)

end ShGateway.CoOdHeaders
