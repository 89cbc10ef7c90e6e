import ShGateway.Lib.BinarySearch
import ShGateway.Lib.Ram

/-!
The interface of the object dictionary (`CO_ODinterface.c`): entries are found by their index,
and the variables behind them are read and written in one or more pieces.
-/

namespace ShGateway.OdInterface

open ShGateway.Lib.BinarySearch
open ShGateway.Lib.NorFlash
open ShGateway.Lib.Ram

/-! `ODR_t`. -/

abbrev Odr := Int

def odrPartial : Odr := -1
def odrOk : Odr := 0
def odrUnsuppAccess : Odr := 2
def odrIdxNotExist : Odr := 5
def odrDevIncompat : Odr := 9
def odrDataLong : Odr := 12
def odrSubNotExist : Odr := 14

/-! `OD_attributes_t`. -/

def odaSdoR : UInt8 := 0x01
def odaSdoW : UInt8 := 0x02
def odaSdoRW : UInt8 := 0x03
def odaStr : UInt8 := 0x80

/-- `OD_stream_t`; `dataOrig` and `object` are addresses, if they are not `NULL`. -/
structure OdStream where
  dataOrig : Option Nat
  object : Option Nat
  dataLength : Nat
  dataOffset : Nat
  attr : UInt8
  subIndex : UInt8

/-- The memory with the variables of the dictionary, and what else belongs to the application. -/
structure OdState (α : Type) where
  ram : Mem
  app : α

variable {α : Type}

/-- What a read function returns, with the bytes that it puts in the buffer. -/
structure Reading (α : Type) where
  odr : Odr
  bytes : List UInt8
  stream : OdStream
  state : OdState α

/-- A read function; it puts no more in the buffer than there is space for. -/
structure OdRead (α : Type) where
  read : OdStream → Nat → OdState α → Reading α
  fits : ∀ stream count s, (read stream count s).bytes.length ≤ count

/-- What a write function returns. -/
structure Writing (α : Type) where
  odr : Odr
  countWritten : Nat
  stream : OdStream
  state : OdState α

abbrev OdWrite (α : Type) := OdStream → List UInt8 → OdState α → Writing α

/-- `OD_IO_t`. -/
structure OdIo (α : Type) where
  stream : OdStream
  read : OdRead α
  write : OdWrite α

/-! ## The original read and write functions -/

def odReadOriginal (stream : OdStream) (count : Nat) (s : OdState α) : Reading α :=
  match stream.dataOrig with
  | none => ⟨odrSubNotExist, [], stream, s⟩
  | some dataOrig =>
      if stream.dataOffset > 0 ∨ stream.dataLength > count then
        if stream.dataOffset ≥ stream.dataLength then ⟨odrDevIncompat, [], stream, s⟩
        else
          let dataLenToCopy := stream.dataLength - stream.dataOffset
          let dataOrig := dataOrig + stream.dataOffset
          if dataLenToCopy > count then
            ⟨odrPartial, readBytes s.ram dataOrig count,
              { stream with dataOffset := stream.dataOffset + count }, s⟩
          else
            ⟨odrOk, readBytes s.ram dataOrig dataLenToCopy, { stream with dataOffset := 0 }, s⟩
      else ⟨odrOk, readBytes s.ram dataOrig stream.dataLength, stream, s⟩

/-- `memcpy` to a variable. -/
def OdState.store (s : OdState α) (dataOrig : Nat) (buf : List UInt8) : OdState α :=
  { s with ram := storeBytes s.ram dataOrig buf }

def odWriteOriginal (stream : OdStream) (buf : List UInt8) (s : OdState α) : Writing α :=
  match stream.dataOrig with
  | none => ⟨odrSubNotExist, 0, stream, s⟩
  | some dataOrig =>
      if stream.dataOffset > 0 ∨ stream.dataLength > buf.length then
        if stream.dataOffset ≥ stream.dataLength then ⟨odrDevIncompat, 0, stream, s⟩
        else
          let dataLenToCopy := stream.dataLength - stream.dataOffset
          let dataOrig := dataOrig + stream.dataOffset
          if dataLenToCopy > buf.length then
            ⟨odrPartial, buf.length,
              { stream with dataOffset := stream.dataOffset + buf.length },
              s.store dataOrig buf⟩
          else if dataLenToCopy < buf.length then
            ⟨odrDataLong, 0, { stream with dataOffset := 0 }, s⟩
          else ⟨odrOk, dataLenToCopy, { stream with dataOffset := 0 }, s.store dataOrig buf⟩
      else if stream.dataLength < buf.length then ⟨odrDataLong, 0, stream, s⟩
      else ⟨odrOk, stream.dataLength, stream, s.store dataOrig buf⟩

theorem odReadOriginal_fits (stream : OdStream) (count : Nat) (s : OdState α) :
    (odReadOriginal stream count s).bytes.length ≤ count := by
  unfold odReadOriginal
  split
  · exact Nat.zero_le _
  · split
    · split
      · exact Nat.zero_le _
      · dsimp only
        split
        · exact (readBytes_length ..).le
        · rw [readBytes_length]
          omega
    · rw [readBytes_length]
      omega

def readOriginal : OdRead α := ⟨odReadOriginal, odReadOriginal_fits⟩

/-- `OD_readDisabled`. -/
def odReadDisabled : OdRead α where
  read stream _ s := ⟨odrUnsuppAccess, [], stream, s⟩
  fits _ _ _ := Nat.zero_le _

def odWriteDisabled : OdWrite α := fun stream _ s => ⟨odrUnsuppAccess, 0, stream, s⟩

/-! ## Values in parts -/

/-- The return codes of the parts that are written one after the other, and what they leave. -/
def writeParts (write : OdWrite α) (stream : OdStream) (s : OdState α) :
    List (List UInt8) → List Odr × OdStream × OdState α
  | [] => ([], stream, s)
  | part :: parts =>
      let w := write stream part s
      let rest := writeParts write w.stream w.state parts
      (w.odr :: rest.1, rest.2)

/-- The return codes of the parts that are read one after the other, and their bytes. -/
def readParts (read : OdRead α) (stream : OdStream) (s : OdState α) :
    List Nat → List Odr × List UInt8
  | [] => ([], [])
  | count :: counts =>
      let r := read.read stream count s
      let rest := readParts read r.stream r.state counts
      (r.odr :: rest.1, r.bytes ++ rest.2)

theorem store_append (s : OdState α) (a : Nat) (bs cs : List UInt8) :
    s.store a (bs ++ cs) = (s.store a bs).store (a + bs.length) cs := by
  rw [OdState.store, storeBytes_append]
  rfl

section

variable {stream : OdStream} {s : OdState α} {a : Nat} (horig : stream.dataOrig = some a)

include horig

theorem odWriteOriginal_part {part : List UInt8}
    (hmore : stream.dataOffset + part.length < stream.dataLength) :
    odWriteOriginal stream part s =
      ⟨odrPartial, part.length, { stream with dataOffset := stream.dataOffset + part.length },
        s.store (a + stream.dataOffset) part⟩ := by
  rw [odWriteOriginal, horig]
  dsimp only
  rw [if_pos (by omega), if_neg (by omega), if_pos (by omega)]

theorem odWriteOriginal_last {part : List UInt8} (hpart : 0 < part.length)
    (hlen : stream.dataOffset + part.length = stream.dataLength) :
    odWriteOriginal stream part s =
      ⟨odrOk, part.length, { stream with dataOffset := 0 },
        s.store (a + stream.dataOffset) part⟩ := by
  have hrest : stream.dataLength - stream.dataOffset = part.length := by omega
  rcases Nat.eq_zero_or_pos stream.dataOffset with hzero | hpos
  · have hsame : { stream with dataOffset := 0 } = stream := by rw [← hzero]
    have hall : stream.dataLength = part.length := by omega
    rw [hsame, odWriteOriginal, horig]
    dsimp only
    rw [if_neg (by omega), if_neg (by omega), hall, hzero, Nat.add_zero]
  · rw [odWriteOriginal, horig]
    dsimp only
    rw [if_pos (.inl hpos), if_neg (by omega), if_neg (by omega), if_neg (by omega), hrest]

theorem odReadOriginal_part {count : Nat}
    (hmore : stream.dataOffset + count < stream.dataLength) :
    odReadOriginal stream count s =
      ⟨odrPartial, readBytes s.ram (a + stream.dataOffset) count,
        { stream with dataOffset := stream.dataOffset + count }, s⟩ := by
  rw [odReadOriginal, horig]
  dsimp only
  rw [if_pos (by omega), if_neg (by omega), if_pos (by omega)]

theorem odReadOriginal_last {count : Nat} (hsome : stream.dataOffset < stream.dataLength)
    (hlen : stream.dataLength ≤ stream.dataOffset + count) :
    odReadOriginal stream count s =
      ⟨odrOk, readBytes s.ram (a + stream.dataOffset) (stream.dataLength - stream.dataOffset),
        { stream with dataOffset := 0 }, s⟩ := by
  rcases Nat.eq_zero_or_pos stream.dataOffset with hzero | hpos
  · have hsame : { stream with dataOffset := 0 } = stream := by rw [← hzero]
    rw [hsame, odReadOriginal, horig]
    dsimp only
    rw [if_neg (by omega), hzero, Nat.add_zero, Nat.sub_zero]
  · rw [odReadOriginal, horig]
    dsimp only
    rw [if_pos (.inl hpos), if_neg (by omega), if_neg (by omega)]

end

theorem writeParts_original {stream : OdStream} {a : Nat} {last : List UInt8}
    (parts : List (List UInt8)) (s : OdState α) (horig : stream.dataOrig = some a)
    (hlast : 0 < last.length)
    (hlen : stream.dataOffset + (parts.flatten ++ last).length = stream.dataLength) :
    writeParts odWriteOriginal stream s (parts ++ [last]) =
      (List.replicate parts.length odrPartial ++ [odrOk], { stream with dataOffset := 0 },
        s.store (a + stream.dataOffset) (parts.flatten ++ last)) := by
  induction parts generalizing stream s with
  | nil =>
      rw [List.nil_append, writeParts, odWriteOriginal_last horig hlast hlen]
      rfl
  | cons part parts ih =>
      rw [List.flatten_cons, List.append_assoc, List.length_append] at hlen
      have hmore : stream.dataOffset + part.length < stream.dataLength := by
        rw [List.length_append] at hlen
        omega
      rw [List.cons_append, writeParts, odWriteOriginal_part horig hmore]
      have hrest := @ih { stream with dataOffset := stream.dataOffset + part.length }
        (s.store (a + stream.dataOffset) part) horig (by dsimp only; omega)
      dsimp only
      rw [hrest]
      dsimp only
      rw [List.flatten_cons, List.append_assoc, store_append s (a + stream.dataOffset) part,
        List.length_cons, List.replicate_succ, List.cons_append, Nat.add_assoc]

theorem readParts_original {stream : OdStream} {a last : Nat} (counts : List Nat) (s : OdState α)
    (horig : stream.dataOrig = some a) (hsome : stream.dataOffset + counts.sum < stream.dataLength)
    (hlast : stream.dataLength ≤ stream.dataOffset + counts.sum + last) :
    readParts readOriginal stream s (counts ++ [last]) =
      (List.replicate counts.length odrPartial ++ [odrOk],
        readBytes s.ram (a + stream.dataOffset) (stream.dataLength - stream.dataOffset)) := by
  induction counts generalizing stream with
  | nil =>
      change ((odReadOriginal stream last s).odr :: [],
        (odReadOriginal stream last s).bytes ++ []) = _
      rw [odReadOriginal_last horig hsome hlast, List.append_nil]
      rfl
  | cons count counts ih =>
      rw [List.sum_cons] at hsome hlast
      have hmore : stream.dataOffset + count < stream.dataLength := by omega
      rw [List.cons_append, readParts]
      change (let r := odReadOriginal stream count s
        let rest := readParts readOriginal r.stream r.state (counts ++ [last])
        (r.odr :: rest.1, r.bytes ++ rest.2)) = _
      rw [odReadOriginal_part horig hmore]
      have hrest := @ih { stream with dataOffset := stream.dataOffset + count } horig
        (by dsimp only; omega) (by dsimp only; omega)
      dsimp only
      rw [hrest]
      dsimp only
      have hsplit := @readBytes_split s.ram (a + stream.dataOffset)
        (stream.dataLength - stream.dataOffset) count (by omega)
      rw [hsplit, List.length_cons, List.replicate_succ, List.cons_append, Nat.add_assoc,
        Nat.sub_sub]

/-- A value that is written in parts, and then read in other parts, is what was written: the parts
before the last one are answered with `ODR_PARTIAL`, the last one with `ODR_OK`. -/
theorem parts_round_trip (stream : OdStream) (s : OdState α) (a : Nat)
    (parts : List (List UInt8)) (last : List UInt8) (counts : List Nat) (count : Nat)
    (horig : stream.dataOrig = some a) (hstart : stream.dataOffset = 0) (hlast : 0 < last.length)
    (hlen : (parts.flatten ++ last).length = stream.dataLength)
    (hmore : counts.sum < stream.dataLength) (hcount : stream.dataLength ≤ counts.sum + count) :
    ∃ s', writeParts odWriteOriginal stream s (parts ++ [last]) =
        (List.replicate parts.length odrPartial ++ [odrOk], stream, s') ∧
      readParts readOriginal stream s' (counts ++ [count]) =
        (List.replicate counts.length odrPartial ++ [odrOk], parts.flatten ++ last) ∧
      s'.app = s.app ∧ ∀ i, i < a ∨ a + stream.dataLength ≤ i → s'.ram i = s.ram i := by
  have hstream : { stream with dataOffset := 0 } = stream := by rw [← hstart]
  have hwrite := writeParts_original parts s horig hlast (by rw [hstart, Nat.zero_add]; exact hlen)
  rw [hstream, hstart, Nat.add_zero] at hwrite
  refine ⟨_, hwrite, ?_, rfl, fun i hi => storeBytes_outside (hlen ▸ hi)⟩
  rw [readParts_original counts _ horig (by omega) (by omega), hstart, Nat.add_zero, Nat.sub_zero,
    ← hlen]
  exact congrArg _ readBytes_storeBytes

/-- Three bytes, written as two and one, and read as one and two. -/
theorem parts_round_trip_sample :
    ∃ s' : OdState Unit,
      writeParts odWriteOriginal ⟨some 16, none, 3, 0, 0, 0⟩ ⟨fun _ => 0, ()⟩ [[1, 2], [3]] =
        ([odrPartial, odrOk], ⟨some 16, none, 3, 0, 0, 0⟩, s') ∧
      readParts readOriginal ⟨some 16, none, 3, 0, 0, 0⟩ s' [1, 2] =
        ([odrPartial, odrOk], [1, 2, 3]) ∧
      s'.app = () ∧ ∀ i, i < 16 ∨ 19 ≤ i → s'.ram i = 0 :=
  parts_round_trip ⟨some 16, none, 3, 0, 0, 0⟩ ⟨fun _ => 0, ()⟩ 16 [[1, 2]] [3] [1] 2 rfl rfl
    (by decide) rfl (by decide) (by decide)

/-! ## The entries -/

/-- `OD_obj_var_t`. -/
structure OdObjVar where
  dataOrig : Option Nat
  attr : UInt8
  dataLength : Nat

/-- `OD_obj_array_t`. -/
structure OdObjArray where
  dataOrig0 : Option Nat
  dataOrig : Option Nat
  attr0 : UInt8
  attr : UInt8
  dataElementLength : Nat
  dataElementSizeof : Nat

/-- `OD_obj_record_t`. -/
structure OdObjRecord extends OdObjVar where
  subIndex : UInt8

/-- `odObject` with its `odObjectType`. -/
inductive OdObject
  | var (odo : OdObjVar)
  | arr (odo : OdObjArray)
  | record (odoArr : List OdObjRecord)
  | unknown

/-- `OD_extension_t`. -/
structure OdExtension (α : Type) where
  object : Option Nat
  read : Option (OdRead α)
  write : Option (OdWrite α)

/-- `OD_entry_t`. -/
structure OdEntry (α : Type) where
  index : UInt16
  subEntriesCount : UInt8
  odObject : Option OdObject
  extension : Option (OdExtension α)

/-- `OD_t`, whose `size` is the length of the list. -/
abbrev Od (α : Type) := List (OdEntry α)

/-- The index at a position of the list. -/
def indexAt (od : Od α) (i : Nat) : Nat := ((od[i]?.map OdEntry.index).getD 0).toNat

def odFind (od : Od α) (index : UInt16) : Option (OdEntry α) :=
  if od = [] then none else (search (indexAt od) index.toNat 0 (od.length - 1)).bind (od[·]?)

/-- The entries are in the order of their indexes. -/
def Ordered (od : Od α) : Prop := od.Pairwise fun a b => a.index < b.index

theorem indexAt_eq {od : Od α} {i : Nat} {entry : OdEntry α} (h : od[i]? = some entry) :
    indexAt od i = entry.index.toNat := by
  rw [indexAt, h]
  rfl

theorem Ordered.increasing {od : Od α} (h : Ordered od) :
    Increasing (indexAt od) 0 (od.length - 1) := by
  intro i j _ hij hj
  have hj' : j < od.length := by omega
  have hi' : i < od.length := by omega
  rw [indexAt_eq (List.getElem?_eq_getElem hi'), indexAt_eq (List.getElem?_eq_getElem hj')]
  exact List.pairwise_iff_getElem.mp h i j hi' hj' hij

/-- An entry is found if, and only if, the dictionary has it. -/
theorem odFind_eq_some {od : Od α} (h : Ordered od) (index : UInt16) (entry : OdEntry α) :
    odFind od index = some entry ↔ entry ∈ od ∧ entry.index = index := by
  rw [odFind]
  split
  · rename_i hnil
    rw [hnil]
    constructor
    · exact nofun
    · rintro ⟨hmem, -⟩
      exact nomatch hmem
  rw [Option.bind_eq_some_iff]
  constructor
  · rintro ⟨i, hsearch, hentry⟩
    have hkey := ((search_eq_some h.increasing).mp hsearch).2.2
    rw [indexAt_eq hentry] at hkey
    exact ⟨List.mem_of_getElem? hentry, UInt16.toNat_inj.mp hkey⟩
  · rintro ⟨hmem, rfl⟩
    obtain ⟨i, hi⟩ := List.mem_iff_getElem?.mp hmem
    have hlt := (List.getElem?_eq_some_iff.mp hi).1
    refine ⟨i, (search_eq_some h.increasing).mpr ⟨Nat.zero_le i, by omega, indexAt_eq hi⟩, hi⟩

theorem odFind_eq_some_sample :
    odFind ([⟨0x1000, 1, none, none⟩, ⟨0x1018, 5, none, none⟩] : Od Unit) 0x1018 =
      some ⟨0x1018, 5, none, none⟩ :=
  (odFind_eq_some (List.pairwise_pair.mpr (by decide)) _ _).mpr
    ⟨List.mem_cons_of_mem _ List.mem_cons_self, rfl⟩

/-- The variable at a sub-index. -/
def OdObject.variable (odObject : OdObject) (subEntriesCount subIndex : UInt8) :
    Except Odr OdObjVar :=
  match odObject with
  | .var odo => if subIndex > 0 then .error odrSubNotExist else .ok odo
  | .arr odo =>
      if subIndex ≥ subEntriesCount then .error odrSubNotExist
      else if subIndex = 0 then .ok ⟨odo.dataOrig0, odo.attr0, 1⟩
      else
        .ok ⟨odo.dataOrig.map (· + odo.dataElementSizeof * (subIndex.toNat - 1)), odo.attr,
          odo.dataElementLength⟩
  | .record odoArr =>
      match (odoArr.take subEntriesCount.toNat).find? (·.subIndex = subIndex) with
      | none => .error odrSubNotExist
      | some odo => .ok odo.toOdObjVar
  | .unknown => .error odrDevIncompat

/-- `OD_getSub` without `odOrig`. -/
def odGetSub (entry : Option (OdEntry α)) (subIndex : UInt8) : Except Odr (OdIo α) :=
  match entry with
  | none => .error odrIdxNotExist
  | some entry =>
      match entry.odObject with
      | none => .error odrIdxNotExist
      | some odObject =>
          match odObject.variable entry.subEntriesCount subIndex with
          | .error odr => .error odr
          | .ok odo =>
              let stream : OdStream :=
                { dataOrig := odo.dataOrig
                  object := none
                  dataLength := odo.dataLength
                  dataOffset := 0
                  attr := odo.attr
                  subIndex := subIndex }
              match entry.extension with
              | none => .ok ⟨stream, readOriginal, odWriteOriginal⟩
              | some extension =>
                  .ok ⟨{ stream with object := extension.object },
                    extension.read.getD odReadDisabled, extension.write.getD odWriteDisabled⟩

theorem variable_ne_ok {odObject : OdObject} {subEntriesCount subIndex : UInt8} :
    odObject.variable subEntriesCount subIndex ≠ .error odrOk := by
  unfold OdObject.variable
  intro h
  repeat' split at h
  all_goals exact nomatch h

theorem odGetSub_ne_ok {entry : Option (OdEntry α)} {subIndex : UInt8} :
    odGetSub entry subIndex ≠ .error odrOk := by
  unfold odGetSub
  intro h
  split at h
  · exact absurd (Except.error.inj h) (by decide)
  · split at h
    · exact absurd (Except.error.inj h) (by decide)
    · split at h
      · rename_i odr hvariable
        exact variable_ne_ok (hvariable.trans (congrArg Except.error (Except.error.inj h)))
      · dsimp only at h
        split at h <;> exact nomatch h

def abortCodes : List UInt32 :=
  [0x00000000, 0x05040005, 0x06010000, 0x06010001, 0x06010002, 0x06020000, 0x06040041, 0x06040042,
    0x06040043, 0x06040047, 0x06060000, 0x06070010, 0x06070012, 0x06070013, 0x06090011, 0x06090030,
    0x06090031, 0x06090032, 0x06090036, 0x060A0023, 0x08000000, 0x08000020, 0x08000021, 0x08000022,
    0x08000023, 0x08000024]

/-- `OD_getSDOabCode`. -/
def odGetSDOabCode (returnCode : Odr) : UInt32 :=
  if returnCode < 0 ∨ returnCode ≥ 26 then abortCodes.getD odrDevIncompat.toNat 0
  else abortCodes.getD returnCode.toNat 0

end ShGateway.OdInterface
