import ShGateway.FwHeader

/-!
Node firmware over SDO: `co_sdo_flasher.c`. The transfers of `sdo.c` are a
parameter; the waits between them are left out.
-/

namespace ShGateway.SdoFlasher

open ShGateway.Crc
open ShGateway.FwHeader
open ShGateway.Lib.ByteWords

/-- `read_SDO` and `write_SDO` over a state of the bus: node, object, sub-index,
buffer size or data, and timeout. They return the abort code, zero on success;
a read also returns the bytes received, of which the buffer takes what fits. -/
structure SdoBus (β : Type*) where
  readSdo : UInt8 → Nat → Nat → Nat → Nat → β → Nat × List UInt8 × β
  writeSdo : UInt8 → Nat → Nat → List UInt8 → Nat → β → Nat × β

/-- No node answers. -/
def silentBus : SdoBus Unit where
  readSdo := fun _ _ _ _ _ b => (1, [], b)
  writeSdo := fun _ _ _ _ _ b => (1, b)

def blockSz : Nat := 534

/-! Commands and status words of `co_sdo_flasher.h`. -/

def coSdoFlasherWStop : Nat := 0x00
def coSdoFlasherWClear : Nat := 0x03
def coSdoFlasherWStartBootloader : Nat := 0x80
def coSdoFlasherCheckSignature : Nat := 0x10
def coSdoFlasherROk : Nat := 0
def coSdoFlasherRBusy : Nat := 1

/-! Error codes. -/

def sdoFlErrStsFl : Int := 10
def sdoFlErrWrCmd : Int := 11
def sdoFlErrRdIdent : Int := 12
def sdoFlErrRdIdent2 : Int := 13
def sdoFlErrIdSameSecondTime : Int := 14
def sdoFlErrSizeBiggerThanBuffer : Int := 15
def sdoFlErrWrPayload : Int := 16

section

variable {β : Type*} (bus : SdoBus β) (unit : CrcUnit) (id : UInt8)

/-- A buffer after a read into it. -/
def stored (buf bytes : List UInt8) : List UInt8 :=
  bytes.take buf.length ++ buf.drop bytes.length

/-- The loop of `read_sts_flash` with `n` turns left and `flash_sts` as it is
stored. -/
def readStsLoop : Nat → List UInt8 → β → Int × β
  | 0, _, b => (sdoFlErrStsFl, b)
  | n + 1, flashSts, b =>
      match bus.readSdo id 0x1F57 1 4 100 b with
      | (0, bytes, b) =>
          let flashSts := stored flashSts bytes
          if ofLe flashSts = coSdoFlasherROk then (0, b)
          else if ofLe flashSts ≠ coSdoFlasherRBusy then (sdoFlErrStsFl, b)
          else readStsLoop n flashSts b
      | (_, _, b) => readStsLoop n flashSts b

def readStsFlash (b : β) : Int × β :=
  readStsLoop bus id 20 (List.replicate 4 0) b

/-- Writes a command and waits for its status. -/
def command (cmd : Nat) (b : β) : Int × β :=
  match bus.writeSdo id 0x1F51 1 (le32 cmd) 3000 b with
  | (0, b) => readStsFlash bus id b
  | (_, b) => (sdoFlErrWrCmd, b)

/-- `block` as it is sent: three words, the data and the checksum over both. -/
def blockBytes (number address : Nat) (data : List UInt8) : List UInt8 :=
  let block := le32 number ++ le32 address ++ le32 data.length ++ data
  block ++ le32 (crc32 unit block).toNat

/-- `dev_read`: the result and the bytes copied to `data`. -/
def devRead (fwSel addr : Nat) (b : β) : Int × List UInt8 × β :=
  match bus.writeSdo id 0x1F50 1 (blockBytes unit fwSel addr []) 3000 b with
  | (0, b) =>
      match bus.readSdo id 0x1F50 1 1024 100 b with
      | (0, bytes, b) =>
          let pkt := bytes.take 1024
          if pkt.length < 5 then (-2, [], b)
          else if (pkt.getD 0 0).toNat ≠ fwSel ∨ ofLe ((pkt.drop 1).take 4) ≠ addr then
            (-3, [], b)
          else (((pkt.length - 5 : Nat) : Int), pkt.drop 5, b)
      | (_, _, b) => (-4, [], b)
  | (_, b) => (-1, [], b)

/-- `cb_nd_rd` for the firmware with number `fwType`: the result, the bytes
copied to `data`, and `*size_read` when it is set. -/
def cbNdRd (fwType addr sizeBuffer : Nat) (b : β) : Int × List UInt8 × Option Nat × β :=
  if sizeBuffer > blockSz then (sdoFlErrSizeBiggerThanBuffer, [], none, b)
  else
    let (sts, b) := if addr = 0 then command bus id coSdoFlasherWStop b else (0, b)
    if sts ≠ 0 then (sts, [], none, b)
    else
      let (sts, copied, b) := devRead bus unit id fwType addr b
      if sts < 0 then (-sts, [], none, b)
      else (0, copied, some (min sts.toNat sizeBuffer), b)

/-- Reads the name of the running firmware, as a string. -/
def readIdent (b : β) : Option (List UInt8) × β :=
  match bus.readSdo id 0x1008 0 64 800 b with
  | (0, bytes, b) =>
      (some ((stored (List.replicate 64 0) bytes).takeWhile (· ≠ 0)), b)
  | (_, _, b) => (none, b)

/-- The steps of `cb_nd_wr` before the first block: the node leaves the firmware
called `name` and clears its flash. -/
def prepareWrite (name : List UInt8) (b : β) : Int × β :=
  match readIdent bus id b with
  | (none, b) => (sdoFlErrRdIdent, b)
  | (some str, b) =>
      let (sts, b) :=
        if str = name then
          let (_, b) :=
            bus.writeSdo id 0x1F51 1 (le32 coSdoFlasherWStartBootloader) 100 b
          match readIdent bus id b with
          | (none, b) => (sdoFlErrRdIdent2, b)
          | (some str, b) => (if str = name then sdoFlErrIdSameSecondTime else 0, b)
        else (0, b)
      if sts ≠ 0 then (sts, b)
      else
        match command bus id coSdoFlasherWStop b with
        | (0, b) => command bus id coSdoFlasherWClear b
        | failed => failed

/-- `cb_nd_wr` for the firmware called `name`. -/
def cbNdWr (name : List UInt8) (addr : Nat) (data : List UInt8) (b : β) : Int × β :=
  if addr ≠ 0 ∧ data.length = 0 then command bus id coSdoFlasherCheckSignature b
  else
    let (sts, b) := if addr = 0 then prepareWrite bus id name b else (0, b)
    if sts ≠ 0 then (sts, b)
    else if data.length > blockSz then (sdoFlErrSizeBiggerThanBuffer, b)
    else
      match bus.writeSdo id 0x1F50 1 (blockBytes unit addr addr data) 3000 b with
      | (0, b) => readStsFlash bus id b
      | (_, b) => (sdoFlErrWrPayload, b)

def cbNdWrPreldr (_ : Nat) (_ : List UInt8) (b : β) : Int × β := (1, b)

end

/-! ## The table `nd` -/

/-- The names in `nd`, by their firmware type. -/
def ndName : FwType → List UInt8
  | .preldr => literal "sh_nd_preldr"
  | .ldr => literal "sh_nd_ldr"
  | .app => literal "sh_nd_app"

/-- `FW_PRELDR`, `FW_LDR` and `FW_APP`. -/
def fwNumber : FwType → Nat
  | .preldr => 0
  | .ldr => 1
  | .app => 2

end ShGateway.SdoFlasher
