import ShGateway.FwHeader
import ShGateway.TftpServer

/-!
The gateway's own images as files: what `tftp_server_callback.c` of the loader
and of the application have in common.
-/

namespace ShGateway.GatewayFiles

open ShGateway.Crc
open ShGateway.FwHeader
open ShGateway.Lib.NorFlash
open ShGateway.Platform
open ShGateway.TftpUtils

/-- The flash and `g_fw_info`. -/
structure Images where
  dev : FlashDev
  infos : FwInfos

def blankImages : Images := ⟨⟨fun _ => 0xFF, fun _ => false, []⟩, {}⟩

/-- The value of `locked` as an `int`. -/
def lockCode : FwHdrLock → Int
  | .none => 0
  | .byCrc => 1
  | .byAddr => 2
  | .bySizeSmall => 3
  | .byZeroFieldsCount => 4
  | .noProdField => 5
  | .noProdNameField => 6
  | .prodMismatch => 7
  | .prodNameFault => 8

def Images.checkAll (unit : CrcUnit) (lits : NameLiterals) (s : Images) : Images :=
  { s with infos := fwHeaderCheckAll unit lits s.dev.mem s.infos }

section Write

variable (hw : FlashHw) (unit : CrcUnit) (lits : NameLiterals)

/-- The write callback for the partition between two addresses. -/
def cbWrGw (first last addr : Nat) (data : Option (List UInt8)) (s : Images) :
    Int × Images :=
  let bytes := data.getD []
  if addr ≠ 0 ∧ bytes.length = 0 then
    let s := s.checkAll unit lits
    (lockCode s.infos.ldr.locked, s)
  else if (addr + bytes.length) % 2 ^ 32 > last - first then (6, s)
  else
    let (err, dev) := platformFlashWrite hw s.dev ((first + addr) % 2 ^ 32) bytes
    (err, { s with dev })

/-- `cb_wr_gw_ldr` of the application. -/
def cbWrGwLdr (addr : Nat) (data : Option (List UInt8)) : Images → Int × Images :=
  cbWrGw hw unit lits ldrStart ldrEnd addr data

/-- `cb_wr_gw_app` of the loader. It too returns the verdict on the loader. -/
def cbWrGwApp (addr : Nat) (data : Option (List UInt8)) : Images → Int × Images :=
  cbWrGw hw unit lits appStart appEnd addr data

end Write

/-- `gw_read` into a buffer of 512 bytes: the bytes it copies. -/
def gwRead (t : FwType) (first last addr : Nat) (s : Images) : List UInt8 :=
  let fw := s.infos.get t
  let last :=
    if fw.locked = .none ∧ last - first > fw.size then (first + fw.size) % 2 ^ 32
    else last
  let start := (addr + first) % 2 ^ 32
  readBytes s.dev.mem start (min (last - start) tftpDataLenMax)

def cbGwRdPreldr (addr : Nat) (s : Images) : List UInt8 :=
  gwRead .preldr preldrStart preldrEnd addr s

def cbGwRdLdr (addr : Nat) (s : Images) : List UInt8 :=
  gwRead .ldr ldrStart ldrEnd addr s

def cbGwRdApp (addr : Nat) (s : Images) : List UInt8 :=
  gwRead .app appStart appEnd addr s

/-- The callbacks in `gw_rd`. -/
def cbGwRd : FwType → Nat → Images → List UInt8
  | .preldr => cbGwRdPreldr
  | .ldr => cbGwRdLdr
  | .app => cbGwRdApp

/-- The names in `gw_rd`. -/
def gwRdName : FwType → List UInt8
  | .preldr => literal "sh_gw_preldr"
  | .ldr => literal "sh_gw_ldr"
  | .app => literal "sh_gw_app"

/-- The loop over `gw_rd`. -/
def findGwRd (fileName : List UInt8) : Option FwType :=
  [FwType.preldr, .ldr, .app].find? fun t => fileName = gwRdName t

section

variable {hw : FlashHw} {unit : CrcUnit} {lits : NameLiterals} {first last addr : Nat}
  {data : Option (List UInt8)} {s : Images}

theorem cbWrGw_final (h : addr ≠ 0 ∧ (data.getD []).length = 0) :
    cbWrGw hw unit lits first last addr data s =
      (lockCode (s.checkAll unit lits).infos.ldr.locked, s.checkAll unit lits) :=
  if_pos h

theorem cbWrGw_refused (h : ¬ (addr ≠ 0 ∧ (data.getD []).length = 0))
    (hsize : (addr + (data.getD []).length) % 2 ^ 32 > last - first) :
    cbWrGw hw unit lits first last addr data s = (6, s) := by
  rw [cbWrGw]
  exact (if_neg h).trans (if_pos hsize)

theorem cbWrGw_write (h : ¬ (addr ≠ 0 ∧ (data.getD []).length = 0))
    (hsize : ¬ (addr + (data.getD []).length) % 2 ^ 32 > last - first) :
    cbWrGw hw unit lits first last addr data s =
      (((platformFlashWrite hw s.dev ((first + addr) % 2 ^ 32) (data.getD [])).1 : Int),
        { s with
          dev := (platformFlashWrite hw s.dev ((first + addr) % 2 ^ 32) (data.getD [])).2 }) := by
  rw [cbWrGw]
  exact (if_neg h).trans (if_neg hsize)

theorem cbWrGw_none_dev :
    (cbWrGw hw unit lits first last addr none s).2.dev = s.dev := by
  by_cases hfinal : addr ≠ 0 ∧ ((none : Option (List UInt8)).getD []).length = 0
  · rw [cbWrGw_final hfinal]
    rfl
  · by_cases hsize : (addr + ((none : Option (List UInt8)).getD []).length) % 2 ^ 32 >
        last - first
    · rw [cbWrGw_refused hfinal hsize]
    · rw [cbWrGw_write hfinal hsize]
      rfl

end

end ShGateway.GatewayFiles
