import ShGateway.GatewayFiles
import ShGateway.SdoFlasher
import ShGateway.TftpSessions

/-!
The files of the application: its `tftp_server_callback.c`.
-/

namespace ShGateway.AppFiles

open ShGateway.Crc
open ShGateway.FwHeader
open ShGateway.GatewayFiles
open ShGateway.Platform
open ShGateway.SdoFlasher
open ShGateway.TftpServer
open ShGateway.TftpSessions
open ShGateway.TftpUtils

/-- What `tftp_cb.write` can be set to. -/
inductive WriteCb
  | gwLdr
  | ndPreldr
  | nd
deriving DecidableEq, Repr

/-- What `tftp_cb.read` can be set to. -/
inductive ReadCb
  | gw (t : FwType)
  | nd
deriving DecidableEq, Repr

/-- The flash with `g_fw_info`, the nodes, and the variables that select a file:
`tftp_cb`, `g_nd_fw_cb` and `g_sdo_flasher_id`. -/
structure AppWorld (β : Type*) where
  images : Images
  nodes : β
  cbWrite : Option WriteCb
  cbRead : Option ReadCb
  ndFwCb : Option FwType
  sdoFlasherId : UInt8

/-- The application before its first request. -/
def appInit {β : Type*} (images : Images) (nodes : β) : AppWorld β :=
  ⟨images, nodes, none, none, none, 0⟩

/-! ## Selecting a file -/

def isSpace (b : UInt8) : Bool := b = 32 ∨ (9 ≤ b ∧ b ≤ 13)

/-- The digits at the head of a string as a number, `none` without any. -/
def scanDigits (s : List UInt8) : Option Nat :=
  match s.takeWhile fun b => 48 ≤ b ∧ b ≤ 57 with
  | [] => none
  | ds => some (ds.foldl (fun n b => 10 * n + (b.toNat - 48)) 0)

/-- What `sscanf` with `%u` stores, `none` when nothing matches. A number that
does not fit is stored as the largest one. -/
def scanUnsigned (s : List UInt8) : Option Nat :=
  let fit n := min n (2 ^ 32 - 1)
  match s.dropWhile isSpace with
  | 45 :: s => (scanDigits s).map fun n =>
      if n ≤ 2 ^ 32 - 1 then (2 ^ 32 - n) % 2 ^ 32 else 2 ^ 32 - 1
  | 43 :: s => (scanDigits s).map fit
  | s => (scanDigits s).map fit

def getCanId (s : List UInt8) : UInt8 :=
  match s with
  | [] => 0
  | s =>
      match scanUnsigned s with
      | none => 0
      | some id => UInt8.ofNat id

/-- The rest of the file name after the name of the first entry of `nd` that is
a proper prefix of it, with the entry. -/
def findNd (fileName : List UInt8) : Option (FwType × List UInt8) :=
  [FwType.preldr, .ldr, .app].findSome? fun t =>
    if ndName t <+: fileName ∧ fileName.length ≠ (ndName t).length then
      some (t, fileName.drop (ndName t).length)
    else none

/-- `p_wr` of the entries of `nd`. -/
def ndWriteCb : FwType → WriteCb
  | .preldr => .ndPreldr
  | .ldr => .nd
  | .app => .nd

section

variable {β : Type*} (unit : CrcUnit) (lits : NameLiterals)

/-- `tftp_server_check_file` of the application. -/
def tftpServerCheckFile (isWrite : Bool) (fileName : List UInt8) (w : AppWorld β) :
    Int × AppWorld β :=
  let w := { w with images := w.images.checkAll unit lits }
  if fileName = literal "sh_gw_ldr" ∧ isWrite = true then
    (0, { w with
      images := { w.images with dev := platformFlashEraseFlagReset w.images.dev }
      cbWrite := some .gwLdr })
  else
    match (if isWrite then none else findGwRd fileName) with
    | some t => (0, { w with cbRead := some (.gw t) })
    | none =>
        match findNd fileName with
        | none => (1, w)
        | some (t, rest) =>
            let id := getCanId rest
            if id = 0 then (1, w)
            else (0, { w with
              sdoFlasherId := id
              cbRead := some .nd
              cbWrite := some (ndWriteCb t)
              ndFwCb := some t })

end

/-! ## The callbacks -/

section

variable {β : Type*} (bus : SdoBus β) (hw : FlashHw) (unit : CrcUnit)
  (lits : NameLiterals)

/-- A callback on the gateway's own flash. -/
def writeGwLdr (addr : Nat) (data : Option (List UInt8)) (w : AppWorld β) :
    Int × AppWorld β :=
  let (sts, images) := cbWrGwLdr hw unit lits addr data w.images
  (sts, { w with images })

/-- A callback on a node, with the node and the firmware that are selected. -/
def writeNd (f : WriteCb) (id : UInt8) (t : FwType) (addr : Nat)
    (data : Option (List UInt8)) (w : AppWorld β) : Int × AppWorld β :=
  let (sts, nodes) :=
    if f = .ndPreldr then cbNdWrPreldr addr (data.getD []) w.nodes
    else cbNdWr bus unit id (ndName t) addr (data.getD []) w.nodes
  (sts, { w with nodes })

def readGw (t : FwType) (addr : Nat) (w : AppWorld β) : Int × List UInt8 × AppWorld β :=
  (0, cbGwRd t addr w.images, w)

/-- `data_len` and the buffer are only changed by a successful read. -/
def readNd (id : UInt8) (t : FwType) (addr : Nat) (data : List UInt8) (w : AppWorld β) :
    Int × List UInt8 × AppWorld β :=
  match cbNdRd bus unit id (fwNumber t) addr tftpDataLenMax w.nodes with
  | (sts, copied, some sizeRead, nodes) => (sts, copied.take sizeRead, { w with nodes })
  | (sts, _, none, nodes) => (sts, data, { w with nodes })

/-- Calls through `tftp_cb`. A null pointer in it or in `g_nd_fw_cb` is never
used, since every session begins with a request that sets them. -/
def appCb : TftpCb (AppWorld β) where
  write := fun addr data w =>
    match w.cbWrite, w.ndFwCb with
    | some .gwLdr, _ => writeGwLdr hw unit lits addr data w
    | some f, some t => writeNd bus unit f w.sdoFlasherId t addr data w
    | _, _ => (0, w)
  read := fun addr data w =>
    match w.cbRead, w.ndFwCb with
    | some (.gw t), _ => readGw t addr w
    | some .nd, some t => readNd bus unit w.sdoFlasherId t addr data w
    | _, _ => (0, data, w)

def appFirmware : Firmware (AppWorld β) where
  cb := appCb bus hw unit lits
  checkFile := tftpServerCheckFile unit lits

end

end ShGateway.AppFiles
