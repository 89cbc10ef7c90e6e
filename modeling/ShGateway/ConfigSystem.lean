import ShGateway.Crc
import ShGateway.Platform

/-!
The configuration store of `config_system.c`, built with
`CFG_SYSTEM_SAVES_NON_NATIVE_DATA = 1` as both firmwares are.
-/

namespace ShGateway.ConfigSystem

open ShGateway.Crc
open ShGateway.Lib.ByteWords
open ShGateway.Lib.NorFlash
open ShGateway.Platform

inductive ConfigSts
  | ok
  | storageReadError
  | storageWriteError
  | storageWrongFormat
  | storageOutOfBounds
  | wrongSizeConfig
  | crcInvalid
  | keyLong
  | keyShort
  | lengthDataZero
  | parserNotFinished
  | noData
deriving DecidableEq, Repr

def configMaxKeySize : Nat := 32

/-- A row of `g_device_config`. The key is a C string without its terminator;
`data` is the variable the row points to, `none` standing for a null pointer. -/
structure ConfigEntry where
  key : List UInt8
  size : Nat
  dataAbsAddress : Nat
  data : Option (List UInt8)
  key_ne_nul : ∀ b ∈ key, b ≠ 0
  size_lt : size < 65536
  data_length : ∀ d ∈ data, d.length = size

/-- The bytes stored for a row: those of its variable, zeros without one. -/
def ConfigEntry.value (e : ConfigEntry) : List UInt8 :=
  e.data.getD (List.replicate e.size 0)

theorem ConfigEntry.value_length (e : ConfigEntry) : e.value.length = e.size := by
  unfold ConfigEntry.value
  cases h : e.data with
  | none => simp
  | some d => exact e.data_length d h

inductive ParserSts
  | finish
  | key
  | length
  | value
deriving DecidableEq, Repr

/-- `parse_struct_t`; `nameBuffer` lists the first `name_buffer_size` bytes of
the name buffer, all later ones being zero. -/
structure ParseStruct where
  nameBuffer : List UInt8 := []
  lengthData : Nat := 0
  lengthSize : Nat := 0
  offsetEntryData : Nat := 0
  sts : ParserSts := .finish
deriving DecidableEq, Repr

/-- A call of `config_entry_not_found_callback`. -/
structure NotFoundCall where
  key : List UInt8
  dataOffset : Nat
  dataLength : Nat
deriving DecidableEq, Repr

/-- The store's static variables, the flash, the CRC register, the table of
the running firmware, and the callback calls made so far. -/
structure Store where
  dev : FlashDev
  table : List ConfigEntry
  configValid : Bool := false
  flushBuffer : List UInt8 := []
  offsetWriteData : Nat := 0
  parser : ParseStruct := {}
  crcDr : UInt32 := 0
  notFound : List NotFoundCall := []

/-! ## Writing -/

/-- Size of `flush_buffer`. -/
def flushBufferSize : Nat := 32

section Write

variable (hw : FlashHw) (unit : CrcUnit)

/-- The loop of `flush_data_calc_crc` over the remaining bytes. -/
def flushLoop : List UInt8 → Bool → Store → ConfigSts × Store
  | [], _, s => (.ok, s)
  | b :: bs, flushAll, s =>
      let s := { s with flushBuffer := s.flushBuffer ++ [b] }
      if flushBufferSize ≤ s.flushBuffer.length ∨ (bs = [] ∧ flushAll = true) then
        match platformFlashWrite hw s.dev (cfgOrigin + s.offsetWriteData)
            s.flushBuffer with
        | (0, dev) =>
            flushLoop bs flushAll { s with
              dev
              offsetWriteData := s.offsetWriteData + s.flushBuffer.length
              crcDr := crc32End unit s.crcDr s.flushBuffer
              flushBuffer := [] }
        | (_, dev) => (.storageWriteError, { s with dev })
      else flushLoop bs flushAll s

/-- `flush_data_calc_crc`; `bytes` are the `size` bytes at `data`, zeros for a
null pointer. -/
def flushDataCalcCrc (bytes : List UInt8) (flushAll : Bool) (s : Store) :
    ConfigSts × Store :=
  if (s.offsetWriteData + bytes.length) % 2 ^ 32 > cfgSize then
    (.storageOutOfBounds, s)
  else flushLoop hw unit bytes flushAll s

/-- `sts = first(); if(sts) return sts;` before `second`. -/
def andThen (first second : Store → ConfigSts × Store) (s : Store) :
    ConfigSts × Store :=
  match first s with
  | (.ok, s) => second s
  | failed => failed

/-- The checks both save paths make on every row, adding its length in the
image to `total` in 32 bits. -/
def checkEntries : List ConfigEntry → Nat → Except ConfigSts Nat
  | [], total => .ok total
  | e :: table, total =>
      if configMaxKeySize - 1 ≤ e.key.length then .error .keyLong
      else if e.key.length = 0 then .error .keyShort
      else if e.size = 0 then .error .lengthDataZero
      else checkEntries table ((total + (e.key.length + 1 + 2 + e.size)) % 2 ^ 32)

/-- `count_zeros` for entries of `sizeConfigData` bytes in all. -/
def countZeros (sizeConfigData : Nat) : Nat :=
  if (8 + sizeConfigData) % 4 ≠ 0 then 4 - (8 + sizeConfigData) % 4 else 0

/-- One entry: key with its terminator, length, value. -/
def writeEntry (key : List UInt8) (size : Nat) (value : List UInt8) :
    Store → ConfigSts × Store :=
  andThen (flushDataCalcCrc hw unit (key ++ [0]) false)
    (andThen (flushDataCalcCrc hw unit (le16 size) false)
      (flushDataCalcCrc hw unit value false))

/-- The loop that writes the firmware's own entries. -/
def writeNative : List ConfigEntry → Store → ConfigSts × Store
  | [], s => (.ok, s)
  | e :: table, s =>
      andThen (writeEntry hw unit e.key e.size e.value) (writeNative table) s

/-- Resets the writer and writes the size field. -/
def beginImage (sizeConfigData : Nat) (s : Store) : ConfigSts × Store :=
  flushDataCalcCrc hw unit (le32 sizeConfigData) false { s with
    dev := platformFlashEraseFlagResetSectCfg s.dev
    crcDr := crc32Start unit []
    flushBuffer := []
    offsetWriteData := 0 }

/-- Writes the padding and the checksum and marks the image valid. -/
def endImage (zeros : Nat) : Store → ConfigSts × Store :=
  andThen (flushDataCalcCrc hw unit (List.replicate zeros 0) false) fun s =>
    let crc32Val := crc32End unit s.crcDr s.flushBuffer
    andThen (flushDataCalcCrc hw unit (le32 crc32Val.toNat) true)
      (fun s => (.ok, { s with configValid := true }))
      { s with crcDr := crc32Val }

/-- An entry met by the walk over the RAM copy of the old image: its name, the
two length bytes as a number, and the bytes of its value that lie in the
buffer. -/
structure OldEntry where
  name : List UInt8
  dataSz : Nat
  value : List UInt8
deriving DecidableEq, Repr

/-- The entries both loops over `buf_old_data` stop at, `none` when `strlen` or
the read of the length would leave the buffer. -/
def walkOldData : List UInt8 → Option (List OldEntry)
  | [] => some []
  | b :: rest =>
      if b = 0 then walkOldData rest
      else
        let name := (b :: rest).takeWhile (· ≠ 0)
        let after := rest.drop name.length
        if rest.length < name.length + 2 then none
        else
          let dataSz := ofLe (after.take 2)
          let entry := ⟨name, dataSz, (after.drop 2).take dataSz⟩
          (walkOldData ((after.drop 2).drop dataSz)).map (entry :: ·)
termination_by buf => buf.length
decreasing_by
  all_goals simp_wf

/-- The key belongs to the running firmware. -/
def isNative (table : List ConfigEntry) (name : List UInt8) : Bool :=
  table.any fun e => name = e.key

/-- The first loop over the old image: the size of what must be copied later,
added to `total` in 32 bits. -/
def sizeOld (table : List ConfigEntry) : List OldEntry → Nat → Nat
  | [], total => total
  | e :: old, total =>
      if isNative table e.name then sizeOld table old total
      else sizeOld table old ((total + (e.name.length + 1 + 2 + e.dataSz)) % 2 ^ 32)

/-- The second loop over the old image, which writes the entries of other
firmwares; `none` when a value leaves the buffer. -/
def writeOld : List OldEntry → Store → Option (ConfigSts × Store)
  | [], s => some (.ok, s)
  | e :: old, s =>
      if isNative s.table e.name then writeOld old s
      else if e.value.length < e.dataSz then none
      else
        match writeEntry hw unit e.name e.dataSz e.value s with
        | (.ok, s) => writeOld old s
        | failed => some failed

/-- The path of `config_write_storage` without a valid image. -/
def writeFresh (s : Store) : ConfigSts × Store :=
  let s := { s with configValid := false }
  match checkEntries s.table 8 with
  | .error sts => (sts, s)
  | .ok totalLength =>
      if totalLength > cfgSize then (.storageOutOfBounds, s)
      else
        -- the source adds the lengths once more, without the eight bytes
        let sizeEntries := s.table.foldl
          (fun total e => (total + (e.key.length + 1 + 2 + e.size)) % 2 ^ 32) 0
        let zeros := countZeros sizeEntries
        let sizeConfigData := (sizeEntries + zeros) % 2 ^ 32
        if (4 + sizeConfigData + 4) % 2 ^ 32 > cfgSize then (.storageOutOfBounds, s)
        else
          andThen (beginImage hw unit sizeConfigData)
            (andThen (writeNative hw unit s.table) (endImage hw unit zeros)) s

/-- The RAM copy of the old image. -/
def bufOldData (m : Mem) : List UInt8 :=
  let oldDataSize := ofLe (readInto m cfgOrigin (List.replicate 4 0))
  readInto m cfgOrigin (List.replicate ((4 + oldDataSize) % 2 ^ 32) 0)

/-- The path of `config_write_storage` that keeps the entries of other
firmwares. `none` stands for a read outside the buffer with the old image. -/
def writePreserve (s : Store) : Option (ConfigSts × Store) :=
  let s := { s with configValid := false }
  match checkEntries s.table 0 with
  | .error sts => some (sts, s)
  | .ok sizeNative =>
      match walkOldData ((bufOldData s.dev.mem).drop 4) with
      | none => none
      | some old =>
          let sizeEntries := sizeOld s.table old sizeNative
          let zeros := countZeros sizeEntries
          let sizeConfigData := (sizeEntries + zeros) % 2 ^ 32
          if (4 + sizeConfigData + 4) % 2 ^ 32 > cfgSize then
            some (.storageOutOfBounds, s)
          else
            match beginImage hw unit sizeConfigData s with
            | (.ok, s) =>
                match writeOld hw unit old s with
                | some (.ok, s) =>
                    some (andThen (writeNative hw unit s.table) (endImage hw unit zeros) s)
                | failed => failed
            | failed => some failed

def configWriteStorage (s : Store) : Option (ConfigSts × Store) :=
  if s.table.length = 0 then some (.noData, s)
  else if s.configValid = false then some (writeFresh hw unit s)
  else writePreserve hw unit s

end Write

/-! ## Reading -/

/-- `strcmp(name_buffer, key) == 0`. -/
def nameMatches (nameBuffer key : List UInt8) : Bool :=
  nameBuffer.takeWhile (· ≠ 0) = key

theorem nameMatches_iff {name key : List UInt8} (h : ∀ b ∈ name, b ≠ 0) :
    nameMatches (name ++ [0]) key = true ↔ name = key := by
  have hname : ∀ b ∈ name, decide (b ≠ 0) = true := fun b hb => by simpa using h b hb
  rw [nameMatches, List.takeWhile_append_of_pos hname]
  simp

/-- `find_entry`: the table with the address stored in the first row that has
the parsed key and length, `none` if there is no such row. -/
def findEntry (name : List UInt8) (length address : Nat) :
    List ConfigEntry → Option (List ConfigEntry)
  | [] => none
  | e :: table =>
      if nameMatches name e.key ∧ length = e.size then
        some ({ e with dataAbsAddress := address } :: table)
      else (findEntry name length address table).map (e :: ·)

/-- The `PROCESS_KEY` case. -/
def parseKey (b : UInt8) (s : Store) : ConfigSts × Store :=
  let nameBuffer := s.parser.nameBuffer ++ [b]
  let s := { s with parser := { s.parser with sts := .key, nameBuffer } }
  if configMaxKeySize ≤ nameBuffer.length ∧ b ≠ 0 then (.keyLong, s)
  else if b = 0 ∧ nameBuffer.length ≤ 1 then (.keyShort, s)
  else if b = 0 then (.ok, { s with parser := { s.parser with sts := .length } })
  else (.ok, s)

/-- The `PROCESS_LENGTH` case for the byte at address `pos`. -/
def parseLength (pos : Nat) (b : UInt8) (s : Store) : ConfigSts × Store :=
  let lengthData := (s.parser.lengthData |||
    b.toNat <<< (8 * s.parser.lengthSize)) % 2 ^ 16
  let lengthSize := s.parser.lengthSize + 1
  let s := { s with parser := { s.parser with lengthData, lengthSize } }
  if 2 ≤ lengthSize then
    if lengthData = 0 then (.lengthDataZero, s)
    else (.ok, { s with parser := { s.parser with
      sts := .value
      offsetEntryData := pos + 1 } })
  else (.ok, s)

/-- The `PROCESS_VALUE` case for the byte at address `pos`. -/
def parseValue (pos : Nat) (s : Store) : ConfigSts × Store :=
  let p := s.parser
  if p.offsetEntryData + p.lengthData = pos + 1 then
    match findEntry p.nameBuffer p.lengthData p.offsetEntryData s.table with
    | some table => (.ok, { s with table, parser := {} })
    | none =>
        (.ok, { s with
          notFound := s.notFound ++ [⟨p.nameBuffer, p.offsetEntryData, p.lengthSize⟩]
          parser := {} })
  else (.ok, s)

/-- One turn of the loop of `parse_data` for the byte at address `pos`. -/
def parseByte (pos : Nat) (b : UInt8) (s : Store) : ConfigSts × Store :=
  match s.parser.sts with
  | .finish => if b = 0 then (.ok, s) else parseKey b s
  | .key => parseKey b s
  | .length => parseLength pos b s
  | .value => parseValue pos s

/-- `parse_data` on bytes stored from address `offsetData` on. -/
def parseData (offsetData : Nat) : List UInt8 → Store → ConfigSts × Store
  | [], s => (.ok, s)
  | b :: data, s =>
      andThen (parseByte offsetData b) (parseData (offsetData + 1) data) s

/-- The loop of `config_validate` that feeds the parser 32 bytes at a time. -/
def validateLoop (endData offsetRead : Nat) (s : Store) : ConfigSts × Store :=
  let size := min 32 (endData - offsetRead)
  let chunk := readInto s.dev.mem (cfgOrigin + offsetRead) (List.replicate size 0)
  match parseData (cfgOrigin + offsetRead) chunk s with
  | (.ok, s) =>
      if offsetRead + size < endData then validateLoop endData (offsetRead + size) s
      else if s.parser.sts ≠ .finish then (.parserNotFinished, s)
      else (.ok, { s with configValid := true })
  | failed => failed
termination_by endData - offsetRead

/-- The CRC register after the loop of `config_validate` over the words of the
data area. -/
def crcLoop (unit : CrcUnit) (m : Mem) (dr : UInt32) (count : Nat) : UInt32 :=
  (List.range count).foldl
    (fun dr i => crc32End unit dr
      (readInto m (cfgOrigin + 4 + 4 * i) (List.replicate 4 0))) dr

def configValidate (unit : CrcUnit) (s : Store) : ConfigSts × Store :=
  let s := { s with configValid := false }
  let word := readInto s.dev.mem cfgOrigin (List.replicate 4 0)
  let sizeConfig := ofLe word
  let s := { s with crcDr := crc32Start unit word }
  let endData := (4 + sizeConfig) % 2 ^ 32
  if sizeConfig < 8 ∨ sizeConfig > 4 + cfgSize + 4 ∨ sizeConfig % 4 ≠ 0 then
    (.wrongSizeConfig, s)
  else
    let crcCalc := crcLoop unit s.dev.mem s.crcDr (sizeConfig / 4)
    let s := { s with crcDr := crcCalc }
    let crcEnd := ofLe
      (readInto s.dev.mem (cfgOrigin + endData) (List.replicate 4 0))
    if crcEnd ≠ crcCalc.toNat then (.crcInvalid, s)
    else validateLoop endData 4 { s with parser := {} }

/-- One turn of the loop of `config_read_storage`. -/
def readEntry (m : Mem) (e : ConfigEntry) : ConfigEntry :=
  match h : e.data with
  | none => e
  | some d =>
      if e.dataAbsAddress ≠ 0 ∧ e.size ≠ 0 then
        { e with
          data := some (readInto m e.dataAbsAddress d)
          data_length := by
            rintro d' ⟨⟩
            rw [readInto_length]
            exact e.data_length d h }
      else e

def configReadStorage (s : Store) : Store :=
  { s with table := s.table.map (readEntry s.dev.mem) }

/-- The store's variables after a reset, with the table of the firmware that
was started. -/
def powerUp (m : Mem) (table : List ConfigEntry) : Store where
  dev := { mem := m, erased := fun _ => false, ops := [] }
  table := table

end ShGateway.ConfigSystem
