import ShGateway.ConfigSystem
import ShGateway.GatewayFiles
import ShGateway.Preldr
import ShGateway.TftpSessions

/-!
The loader: `ldr.c`, its `console.c` and its `tftp_server_callback.c`.
-/

namespace ShGateway.Ldr

open ShGateway.ConfigSystem
open ShGateway.Crc
open ShGateway.FwHeader
open ShGateway.GatewayFiles
open ShGateway.Lib.NorFlash
open ShGateway.Platform
open ShGateway.Preldr
open ShGateway.TftpServer
open ShGateway.TftpSessions

/-! ## Files -/

/-- The configuration store with the flash, `g_fw_info`, and `tftp_cb`: whether
`write` was set to `cb_wr_gw_app`, and the image `read` was set to. -/
structure LdrWorld where
  store : Store
  infos : FwInfos
  cbWrite : Bool
  cbRead : Option FwType

def LdrWorld.images (w : LdrWorld) : Images := ⟨w.store.dev, w.infos⟩

def LdrWorld.setImages (w : LdrWorld) (s : Images) : LdrWorld :=
  { w with store := { w.store with dev := s.dev }, infos := s.infos }

section Files

variable (hw : FlashHw) (unit : CrcUnit) (lits : NameLiterals)

/-- Calls through `tftp_cb`. A null pointer in it is never called, since every
session begins with a request that sets it. -/
def ldrCb : TftpCb LdrWorld where
  write := fun addr data w =>
    if w.cbWrite then
      let (sts, s) := cbWrGwApp hw unit lits addr data w.images
      (sts, w.setImages s)
    else (0, w)
  read := fun addr data w =>
    match w.cbRead with
    | some t => (0, cbGwRd t addr w.images, w)
    | none => (0, data, w)

/-- `tftp_server_check_file` of the loader. -/
def tftpServerCheckFile (isWrite : Bool) (fileName : List UInt8) (w : LdrWorld) :
    Int × LdrWorld :=
  let w := w.setImages (w.images.checkAll unit lits)
  if fileName = literal "sh_gw_app" ∧ isWrite = true then
    (0, { w with
      store := { w.store with dev := platformFlashEraseFlagReset w.store.dev }
      cbWrite := true })
  else if isWrite = false then
    match findGwRd fileName with
    | some t => (0, { w with cbRead := some t })
    | none => (1, w)
  else (1, w)

def ldrFirmware : Firmware LdrWorld where
  cb := ldrCb hw unit lits
  checkFile := tftpServerCheckFile unit lits

end Files

/-! ## The main loop -/

/-- The commands of `console_cmd`; any other text only prints. -/
inductive ConsoleCmd
  | fw
  | reset
  | save
  | cfgstate
deriving DecidableEq, Repr

/-- A packet that `LwIP_periodic_handle` hands to a callback. -/
inductive Packet
  | tftp (ev : TftpSessions.Event)
  | console (cmd : Option ConsoleCmd)

/-- Why `platform_reset` was called. -/
inductive ResetCause
  | bootDelay
  | console
deriving DecidableEq, Repr

/-- The loader's variables, and the retained load source. -/
structure LdrState where
  server : Server LdrWorld
  loadSrc : UInt32
  bootDelay : Nat
  stayInBoot : Bool
  reset : Option ResetCause

/-- A turn of the main loop: the milliseconds since the last one and the packets
that are handled. -/
structure Turn where
  diffMs : Nat
  packets : List Packet

/-- `BOOT_DELAY`. -/
def bootDelayInit : Nat := 5000

theorem addressSize_lt : 4 < 65536 := by decide

/-- `g_device_config` of the loader. -/
def ldrDeviceConfig : List ConfigEntry :=
  [{ key := literal "ip"
     size := 4
     dataAbsAddress := 0
     data := some [192, 168, 0, 200]
     key_ne_nul := by simp [literal]
     size_lt := addressSize_lt
     data_length := by simp }]

section Loop

variable (hw : FlashHw) (unit : CrcUnit) (lits : NameLiterals)

/-- The callbacks of `console_cmd`, less what they print. A save that reads
outside its buffer is taken to change nothing. -/
def consoleCb (cmd : ConsoleCmd) (s : LdrState) : LdrState :=
  let w := s.server.world
  match cmd with
  | .fw => { s with server.world := w.setImages (w.images.checkAll unit lits) }
  | .reset => { s with reset := some .console }
  | .save =>
      match configWriteStorage hw unit w.store with
      | some (.ok, store) =>
          { s with server.world.store := (configValidate unit store).2 }
      | some (_, store) => { s with server.world.store := store }
      | none => s
  | .cfgstate => { s with server.world.store := (configValidate unit w.store).2 }

def cbUdpConsole (cmd : Option ConsoleCmd) (s : LdrState) : LdrState :=
  let s := { s with stayInBoot := true }
  match cmd with
  | some cmd => consoleCb hw unit lits cmd s
  | none => s

/-- A packet of TFTP; `recv_callback_tftp` handles the requests. -/
def tftpPacket (ev : TftpSessions.Event) (s : LdrState) : LdrState :=
  let server := serverStep (ldrFirmware hw unit lits) s.server ev
  match ev with
  | .request _ _ => { s with server, stayInBoot := true }
  | .datagram _ _ => { s with server }

/-- One packet, unless the console has just reset the gateway. -/
def handlePacket (s : LdrState) (p : Packet) : LdrState :=
  if s.reset.isSome then s
  else
    match p with
    | .tftp ev => tftpPacket hw unit lits ev s
    | .console cmd => cbUdpConsole hw unit lits cmd s

/-- One turn of the main loop. -/
def ldrTurn (s : LdrState) (turn : Turn) : LdrState :=
  if s.reset.isSome then s
  else if s.bootDelay = 0 ∧ s.stayInBoot = false ∧
      s.server.world.infos.app.locked = .none then
    { s with reset := some .bootDelay }
  else
    turn.packets.foldl (handlePacket hw unit lits)
      { s with bootDelay := s.bootDelay - turn.diffMs }

/-- The loader when it enters its main loop. -/
def ldrInit (m : Mem) : LdrState :=
  let infos := fwHeaderCheckAll unit lits m {}
  let store :=
    match configValidate unit (powerUp m ldrDeviceConfig) with
    | (.ok, store) => configReadStorage store
    | (_, store) => store
  { server := ⟨{ store, infos, cbWrite := false, cbRead := none }, []⟩
    loadSrc := loadSrcBootloader
    bootDelay := bootDelayInit
    stayInBoot := false
    reset := none }

/-- `main` of `ldr.c` on the flash contents `m`. -/
def ldrRun (m : Mem) (turns : List Turn) : LdrState :=
  turns.foldl (ldrTurn hw unit lits) (ldrInit unit lits m)

end Loop

end ShGateway.Ldr
