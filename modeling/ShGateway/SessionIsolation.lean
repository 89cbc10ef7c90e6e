import ShGateway.FlashWrite
import ShGateway.Lib.Runs
import ShGateway.SessionTargets
import ShGateway.TftpRead
import ShGateway.TftpWrite

/-!
Sessions of the application side by side: when each of them keeps to the target
of its own request.
-/

namespace ShGateway.SessionIsolation

open ShGateway.AppFiles
open ShGateway.Crc
open ShGateway.FlashWrite
open ShGateway.FwHeader
open ShGateway.GatewayFiles
open ShGateway.Lib.NorFlash
open ShGateway.Lib.Runs
open ShGateway.Platform
open ShGateway.SdoFlasher
open ShGateway.SessionTargets
open ShGateway.TftpRead
open ShGateway.TftpServer
open ShGateway.TftpSessions
open ShGateway.TftpUtils
open ShGateway.TftpWrite

variable {β : Type*}

def isWrq (op : TftpOpcode) : Bool := decide (op = .wrq)

/-- The target of the request that a connection was opened for. -/
def named (c : Connection) : Option Target := fileTarget (isWrq c.op) c.fileName

/-- The target of a request. -/
def requestTarget (d : Datagram) : Option Target :=
  match tftpDecodeOp d.payload with
  | .rrq => fileTarget false (tftpExtractFilename d.payload)
  | .wrq => fileTarget true (tftpExtractFilename d.payload)
  | _ => none

/-- An open session that writes the gateway's own flash. -/
structure WritesGw (c : Connection) : Prop where
  isOpen : c.isOpen = true
  op : c.op = .wrq
  target : named c = some (.gw .ldr)

/-! ## Writing the gateway's flash -/

/-- What a session has written fits the partition and lies in sectors that are
marked as erased. -/
structure WrittenKept (dev : FlashDev) (totBytes : Nat) : Prop where
  fits : totBytes ≤ ldrEnd - ldrStart
  erased : ∀ i, Touched findSector ldrStart totBytes i → dev.erased i = true

theorem WrittenKept.zero (dev : FlashDev) : WrittenKept dev 0 :=
  ⟨Nat.zero_le _, fun i h => absurd h (not_touched_zero ldrStart i)⟩

section

variable {bus : SdoBus β} {hw : FlashHw} {unit : CrcUnit} {lits : NameLiterals}

/-- A data call that succeeds extends what the session has written; one that
fails leaves it alone as well. -/
theorem cbWrGwLdr_data {totBytes : Nat} {data : List UInt8} {s : Images}
    (h : WrittenKept s.dev totBytes) (hne : data ≠ []) (hlen : data.length < 65536) :
    (∀ a, ldrStart ≤ a → a < ldrStart + totBytes →
      (cbWrGwLdr hw unit lits totBytes (some data) s).2.dev.mem a = s.dev.mem a) ∧
    ((cbWrGwLdr hw unit lits totBytes (some data) s).1 = 0 →
      WrittenKept (cbWrGwLdr hw unit lits totBytes (some data) s).2.dev
        (totBytes + data.length)) := by
  have hpos := List.length_pos_iff.mpr hne
  have hfits := h.fits
  have hfinal : ¬ (totBytes ≠ 0 ∧ ((some data).getD []).length = 0) := by
    simp only [Option.getD_some]
    omega
  rw [cbWrGwLdr]
  by_cases hsize : (totBytes + ((some data).getD []).length) % 2 ^ 32 > ldrEnd - ldrStart
  · rw [cbWrGw_refused hfinal hsize]
    exact ⟨fun _ _ _ => rfl, fun hsts => absurd (show (6 : Int) = 0 from hsts) (by decide)⟩
  · rw [cbWrGw_write hfinal hsize]
    simp only [Option.getD_some, ldrStart, ldrEnd] at hsize hfits ⊢
    obtain ⟨hframe, hset⟩ := platformFlashWrite_frame hw s.dev
      ((0x08004000 + totBytes) % 2 ^ 32) data
    rw [Nat.mod_eq_of_lt (by omega)] at hframe hset ⊢
    refine ⟨fun a hlo hhi => hframe.mem a (by omega) fun i hi =>
      h.erased i ⟨a, hlo, hhi, hi⟩, fun hsts => ⟨?_, ?_⟩⟩
    · rw [Nat.mod_eq_of_lt (by omega)] at hsize
      simp only [ldrStart, ldrEnd]
      omega
    · rintro i ⟨a, hlo, hhi, hi⟩
      simp only [ldrStart] at hlo hhi
      by_cases hold : a < ldrStart + totBytes
      · exact hframe.erased i (h.erased i ⟨a, hlo, hold, hi⟩)
      · simp only [ldrStart] at hold
        exact hset (by exact_mod_cast hsts) i ⟨a, by omega, by omega, hi⟩

theorem acceptBlock_gw {s : Session (AppWorld β)} (d : Datagram)
    (h : WrittenKept s.world.images.dev s.args.totBytes) :
    let t := acceptBlock (targetCb bus hw unit lits (.gw .ldr)) d s
    (∀ a, ldrStart ≤ a → a < ldrStart + s.args.totBytes →
      t.world.images.dev.mem a = s.world.images.dev.mem a) ∧
    (t.isOpen = true → WrittenKept t.world.images.dev t.args.totBytes) := by
  intro t
  have hworld : t.world = _ := acceptBlock_world (targetCb bus hw unit lits (.gw .ldr)) s d
  have hargs : t.args = _ := acceptBlock_args (targetCb bus hw unit lits (.gw .ldr)) s d
  have hopen : t.isOpen = true ↔ _ :=
    acceptBlock_isOpen (targetCb bus hw unit lits (.gw .ldr)) s d
  rw [(calls_acceptEffects _ s d).2.2] at hopen
  rw [hworld, hargs, hopen]
  by_cases hnext : NextData s d
  · have hlen := d.len_le
    have htot := d.totLen_lt
    have hlong := hnext.1
    simp only [tftpDataPktHdrLen] at hlong
    obtain ⟨hmem, hkept⟩ := @cbWrGwLdr_data hw unit lits _ d.data _ h
      (List.ne_nil_of_length_pos (by rw [d.data_length]; omega))
      (by rw [d.data_length]; omega)
    rw [if_pos hnext, if_pos hnext, if_pos hnext]
    refine ⟨hmem, fun hok => ?_⟩
    have hfits := hkept (hok.2 _ (List.mem_singleton_self _))
    have hbytes := hfits.fits
    simp only [d.data_length, ldrStart, ldrEnd] at hbytes
    rw [d.data_length] at hfits
    simp only [tftpDataPktHdrLen]
    rw [Nat.mod_eq_of_lt (by omega)]
    exact hfits
  · rw [if_neg hnext, if_neg hnext, if_neg hnext]
    exact ⟨fun _ _ _ => rfl, fun _ => h⟩

theorem wrqRecvCallback_gw {s : Session (AppWorld β)} (d : Datagram)
    (h : WrittenKept s.world.images.dev s.args.totBytes) :
    let r := wrqRecvCallback (targetCb bus hw unit lits (.gw .ldr)) s d
    (∀ a, ldrStart ≤ a → a < ldrStart + s.args.totBytes →
      r.world.images.dev.mem a = s.world.images.dev.mem a) ∧
    (r.isOpen = true → WrittenKept r.world.images.dev r.args.totBytes) := by
  intro r
  by_cases hlen : d.len = d.totLen
  · obtain ⟨hmem, hkept⟩ := @acceptBlock_gw β bus hw unit lits s d h
    have hworld : r.world = _ := wrqRecvCallback_world hlen
    have hargs : r.args = _ := args_eq hlen
    have hopen : r.isOpen = _ := isOpen_eq hlen
    have hdev : r.world.images.dev =
        (acceptBlock (targetCb bus hw unit lits (.gw .ldr)) d s).world.images.dev := by
      rw [hworld]
      split_ifs
      · exact @cbWrGw_none_dev hw unit lits ldrStart ldrEnd _ _
      · rfl
    rw [hdev, hargs, hopen]
    refine ⟨hmem, fun hboth => hkept ?_⟩
    exact (Bool.and_eq_true_iff.mp hboth).1
  · have hr : r = s := wrqRecvCallback_dropped hlen
    rw [hr]
    exact ⟨fun _ _ _ => rfl, fun _ => h⟩

end

/-! ## One event -/

section

variable (bus : SdoBus β) (hw : FlashHw) (unit : CrcUnit) (lits : NameLiterals)

/-- The application with the callbacks of a target in the place of `tftp_cb`. -/
def targetFirmware (T : Target) : Firmware (AppWorld β) where
  cb := targetCb bus hw unit lits T
  checkFile := AppFiles.tftpServerCheckFile unit lits

/-- What isolation asks of an event: a datagram is handled with the callbacks of
the target its session was opened for, and so is the first block of a request;
the selected target of an open session stays; so do the bytes that it has
written to the gateway's flash. -/
structure Isolated (srv : Server (AppWorld β)) (ev : Event) : Prop where
  own : ∀ k d, ev = .datagram k d → ∀ c, srv.connections[k]? = some c →
    c.isOpen = true → ∃ T, named c = some T ∧
      c.handler (appCb bus hw unit lits) (c.session srv.world) d =
        c.handler (targetCb bus hw unit lits T) (c.session srv.world) d
  opened : ∀ d res, ev = .request d res → ∀ T, requestTarget d = some T →
    requestSession (appFirmware bus hw unit lits) d res.heap srv.world =
      requestSession (targetFirmware bus hw unit lits T) d res.heap srv.world
  target : ∀ c ∈ srv.connections, c.isOpen = true →
    selected (isWrq c.op) (serverStep (appFirmware bus hw unit lits) srv ev).world =
      selected (isWrq c.op) srv.world
  content : ∀ c ∈ srv.connections, WritesGw c →
    ∀ a, ldrStart ≤ a → a < ldrStart + c.args.totBytes →
      (serverStep (appFirmware bus hw unit lits) srv ev).world.images.dev.mem a =
        srv.world.images.dev.mem a

/-- The variables select what an open connection was opened for. -/
structure Owned (w : AppWorld β) (c : Connection) : Prop where
  op : c.op = .rrq ∨ c.op = .wrq
  target : ∃ T, named c = some T ∧ selected (isWrq c.op) w = some T

/-- All open sessions are selected, and at most one of them writes the
gateway's flash. -/
structure SessionInv (srv : Server (AppWorld β)) : Prop where
  consistent : Consistent srv.world
  owned : ∀ c ∈ srv.connections, c.isOpen = true → Owned srv.world c
  kept : ∀ c ∈ srv.connections, WritesGw c →
    WrittenKept srv.world.images.dev c.args.totBytes
  unique : ∀ (j k : Nat) (c c' : Connection), srv.connections[j]? = some c →
    srv.connections[k]? = some c' → WritesGw c → WritesGw c' → j = k

/-- What the handler of an open connection does to the state behind it. -/
structure HandlerFrame (w : AppWorld β) (c : Connection) (r : Session (AppWorld β)) :
    Prop where
  selection : selection r.world = selection w
  dev : ¬ WritesGw c → r.world.images.dev = w.images.dev
  content : WritesGw c → ∀ a, ldrStart ≤ a → a < ldrStart + c.args.totBytes →
    r.world.images.dev.mem a = w.images.dev.mem a
  kept : WritesGw c → r.isOpen = true → WrittenKept r.world.images.dev r.args.totBytes

end

section

variable {bus : SdoBus β} {hw : FlashHw} {unit : CrcUnit} {lits : NameLiterals}
  {w : AppWorld β} {c : Connection}

theorem handler_rrq (hop : c.op = .rrq) {T : Target}
    (hselected : selected false w = some T) (d : Datagram) :
    c.handler (appCb bus hw unit lits) (c.session w) d =
        c.handler (targetCb bus hw unit lits T) (c.session w) d ∧
      HandlerFrame w c (c.handler (appCb bus hw unit lits) (c.session w) d) := by
  have hread : ¬ WritesGw c := fun h => by
    have := h.op
    rw [hop] at this
    cases this
  have hhandler : ∀ cb : TftpCb (AppWorld β), c.handler cb = rrqRecvCallback cb := by
    intro cb
    rw [Connection.handler, hop]
  rw [hhandler, hhandler]
  have hframe := appCb_read_frame bus hw unit lits c.args.totBytes c.args.data w
  have hworld : (rrqRecvCallback (appCb bus hw unit lits) (c.session w) d).world =
      ((appCb bus hw unit lits).read c.args.totBytes c.args.data w).2.2 := by
    rw [rrqRecvCallback_eq]
    rfl
  refine ⟨rrqRecvCallback_congr (fun addr data =>
    read_selected bus hw unit lits hselected addr data) d, ?_, ?_, ?_, ?_⟩
  · rw [hworld]
    exact hframe.1
  · intro _
    rw [hworld, hframe.2]
  · exact fun h => absurd h hread
  · exact fun h => absurd h hread

theorem handler_wrq (hopen : c.isOpen = true) (hop : c.op = .wrq) {T : Target}
    (hc : Consistent w) (hnamed : named c = some T) (hselected : selected true w = some T)
    (hkept : WritesGw c → WrittenKept w.images.dev c.args.totBytes) (d : Datagram) :
    c.handler (appCb bus hw unit lits) (c.session w) d =
        c.handler (targetCb bus hw unit lits T) (c.session w) d ∧
      HandlerFrame w c (c.handler (appCb bus hw unit lits) (c.session w) d) := by
  have hhandler : ∀ cb : TftpCb (AppWorld β), c.handler cb = wrqRecvCallback cb := by
    intro cb
    rw [Connection.handler, hop]
  have hselection : ∀ addr data v,
      selection ((appCb bus hw unit lits).write addr data v).2 = selection v :=
    appCb_write_selection bus hw unit lits
  have haccept : selection (acceptBlock (appCb bus hw unit lits) d (c.session w)).world =
      selection w := by
    rw [acceptBlock_world]
    split_ifs
    · exact hselection _ _ _
    · rfl
  have hown : wrqRecvCallback (appCb bus hw unit lits) (c.session w) d =
      wrqRecvCallback (targetCb bus hw unit lits T) (c.session w) d := by
    refine wrqRecvCallback_congr
      (fun addr data => write_selected bus hw unit lits hc hselected addr data)
      (fun addr data => write_selected bus hw unit lits (hc.congr haccept) ?_ addr data)
    rw [selected_congr haccept]
    exact hselected
  have hsel := wrqRecvCallback_proj selection hselection (c.session w) d
  rw [hhandler, hhandler]
  refine ⟨hown, hsel, fun hother => ?_, fun hgw => ?_, fun hgw => ?_⟩
  · -- the target is a node
    rcases T with t | ⟨id, t⟩
    · rw [named, hop] at hnamed
      obtain rfl := fileTarget_write hnamed
      exact absurd ⟨hopen, hop, by rw [named, hop]; exact hnamed⟩ hother
    · rw [hown]
      have himages := @wrqRecvCallback_proj _ _ AppWorld.images
        (targetCb bus hw unit lits (.node id t))
        (fun addr data v => (writeNd_frame bus unit (ndWriteCb t) id t addr data v).2)
        (c.session w) d
      exact congrArg Images.dev himages
  · obtain rfl := Option.some.inj (hnamed.symm.trans hgw.target)
    rw [hown]
    exact (@wrqRecvCallback_gw β bus hw unit lits (c.session w) d (hkept hgw)).1
  · obtain rfl := Option.some.inj (hnamed.symm.trans hgw.target)
    rw [hown]
    exact (@wrqRecvCallback_gw β bus hw unit lits (c.session w) d (hkept hgw)).2

theorem handler_frame (hopen : c.isOpen = true) (hc : Consistent w) (hown : Owned w c)
    (hkept : WritesGw c → WrittenKept w.images.dev c.args.totBytes) (d : Datagram) :
    (∃ T, named c = some T ∧
      c.handler (appCb bus hw unit lits) (c.session w) d =
        c.handler (targetCb bus hw unit lits T) (c.session w) d) ∧
      HandlerFrame w c (c.handler (appCb bus hw unit lits) (c.session w) d) := by
  obtain ⟨T, hnamed, hselected⟩ := hown.target
  rcases hown.op with hop | hop
  · rw [hop] at hselected
    obtain ⟨heq, hframe⟩ := @handler_rrq β bus hw unit lits w c hop T hselected d
    exact ⟨⟨T, hnamed, heq⟩, hframe⟩
  · rw [hop] at hselected
    obtain ⟨heq, hframe⟩ :=
      @handler_wrq β bus hw unit lits w c hopen hop T hc hnamed hselected hkept d
    exact ⟨⟨T, hnamed, heq⟩, hframe⟩

end

/-! ## Requests -/

section

variable {bus : SdoBus β} {hw : FlashHw} {unit : CrcUnit} {lits : NameLiterals}
  {w : AppWorld β} {d : Datagram} {heap : Option ConnectionArgs}

theorem requestSession_none (h : requestTarget d = none) :
    let r := requestSession (appFirmware bus hw unit lits) d heap w
    selection r.world = selection w ∧ r.world.images.dev = w.images.dev ∧
      r.isOpen = false := by
  intro r
  have hr : r = requestSession (appFirmware bus hw unit lits) d heap w := rfl
  rw [requestSession] at hr
  rw [requestTarget] at h
  cases hop : tftpDecodeOp d.payload with
  | rrq =>
      simp only [hop, tftpProcessRead, appFirmware, tftpServerCheckFile_eq] at h hr
      rw [h] at hr
      have hworld : r.world = checked unit lits w := congrArg Session.world hr
      rw [hworld]
      exact ⟨selection_checked unit lits w, checked_dev unit lits w, congrArg Session.isOpen hr⟩
  | wrq =>
      simp only [hop, tftpProcessWrite, appFirmware, tftpServerCheckFile_eq] at h hr
      rw [h] at hr
      have hworld : r.world = checked unit lits w := congrArg Session.world hr
      rw [hworld]
      exact ⟨selection_checked unit lits w, checked_dev unit lits w, congrArg Session.isOpen hr⟩
  | data | ack | error | other =>
      simp only [hop] at hr
      rw [hr]
      exact ⟨rfl, rfl, rfl⟩

/-- What a request with a target does. -/
structure Requested (bus : SdoBus β) (hw : FlashHw) (unit : CrcUnit)
    (lits : NameLiterals) (w : AppWorld β) (d : Datagram)
    (heap : Option ConnectionArgs) (T : Target) : Prop where
  op : tftpDecodeOp d.payload = .rrq ∨ tftpDecodeOp d.payload = .wrq
  file : fileTarget (isWrq (tftpDecodeOp d.payload)) (tftpExtractFilename d.payload) =
    some T
  selection : selection (requestSession (appFirmware bus hw unit lits) d heap w).world =
    selection (select (isWrq (tftpDecodeOp d.payload)) T w)
  dev : (requestSession (appFirmware bus hw unit lits) d heap w).world.images.dev =
    (select (isWrq (tftpDecodeOp d.payload)) T w).images.dev
  start : tftpDecodeOp d.payload = .wrq →
    (requestSession (appFirmware bus hw unit lits) d heap w).isOpen = true →
    (requestSession (appFirmware bus hw unit lits) d heap w).args.totBytes = 0
  own : requestSession (appFirmware bus hw unit lits) d heap w =
    requestSession (targetFirmware bus hw unit lits T) d heap w

theorem select_checked (isWrite : Bool) (T : Target) :
    selection (select isWrite T (checked unit lits w)) = selection (select isWrite T w) ∧
      (select isWrite T (checked unit lits w)).images.dev =
        (select isWrite T w).images.dev := by
  cases T <;> cases isWrite <;>
    simp [select, checked, Images.checkAll, selection]

theorem requestSession_read {T : Target} (hop : tftpDecodeOp d.payload = .rrq)
    (h : fileTarget false (tftpExtractFilename d.payload) = some T)
    (cb : TftpCb (AppWorld β)) :
    requestSession ⟨cb, AppFiles.tftpServerCheckFile unit lits⟩ d heap w =
      openRead cb heap d.source (select false T (checked unit lits w)) := by
  simp only [requestSession, hop, tftpProcessRead, tftpServerCheckFile_eq, h]

theorem requestSession_write {T : Target} (hop : tftpDecodeOp d.payload = .wrq)
    (h : fileTarget true (tftpExtractFilename d.payload) = some T)
    (cb : TftpCb (AppWorld β)) :
    requestSession ⟨cb, AppFiles.tftpServerCheckFile unit lits⟩ d heap w =
      openWrite heap d.source (select true T (checked unit lits w)) := by
  simp only [requestSession, hop, tftpProcessWrite, tftpServerCheckFile_eq, h]

theorem openRead_frame (T : Target) (dst : Peer) :
    selection (openRead (appCb bus hw unit lits) heap dst
        (select false T (checked unit lits w))).world = selection (select false T w) ∧
      (openRead (appCb bus hw unit lits) heap dst
        (select false T (checked unit lits w))).world.images.dev =
          (select false T w).images.dev := by
  have hchecked := @select_checked β unit lits w false T
  rcases heap with _ | args
  · exact hchecked
  · have hread := appCb_read_frame bus hw unit lits 0 args.data
      (select false T (checked unit lits w))
    rw [openRead, tftpRdSendNextBlock_eq]
    exact ⟨hread.1.trans hchecked.1, (congrArg Images.dev hread.2).trans hchecked.2⟩

theorem requested_read {T : Target} (hop : tftpDecodeOp d.payload = .rrq)
    (h : fileTarget false (tftpExtractFilename d.payload) = some T) :
    Requested bus hw unit lits w d heap T := by
  have happ : requestSession (appFirmware bus hw unit lits) d heap w = _ :=
    requestSession_read hop h _
  have htarget : requestSession (targetFirmware bus hw unit lits T) d heap w = _ :=
    requestSession_read hop h _
  have hframe := @openRead_frame β bus hw unit lits w heap T d.source
  have hisWrq : isWrq (tftpDecodeOp d.payload) = false := by rw [hop]; rfl
  constructor
  · exact .inl hop
  · rw [hisWrq, h]
  · rw [hisWrq, happ]
    exact hframe.1
  · rw [hisWrq, happ]
    exact hframe.2
  · rw [hop]
    exact fun h => absurd h (by decide)
  · rw [happ, htarget]
    rcases heap with _ | args
    · rfl
    · rw [openRead, openRead]
      apply tftpRdSendNextBlock_congr
      exact read_selected bus hw unit lits (selected_select h (checked unit lits w))

theorem requested_write {T : Target} (hop : tftpDecodeOp d.payload = .wrq)
    (h : fileTarget true (tftpExtractFilename d.payload) = some T) :
    Requested bus hw unit lits w d heap T := by
  have happ : requestSession (appFirmware bus hw unit lits) d heap w = _ :=
    requestSession_write hop h _
  have htarget : requestSession (targetFirmware bus hw unit lits T) d heap w = _ :=
    requestSession_write hop h _
  have hchecked := @select_checked β unit lits w true T
  have hisWrq : isWrq (tftpDecodeOp d.payload) = true := by rw [hop]; rfl
  have hworld : (openWrite heap d.source (select true T (checked unit lits w))).world =
      select true T (checked unit lits w) := by cases heap <;> rfl
  constructor
  · exact .inr hop
  · rw [hisWrq, h]
  · rw [hisWrq, happ, hworld]
    exact hchecked.1
  · rw [hisWrq, happ, hworld]
    exact hchecked.2
  · rw [happ]
    cases heap <;> exact fun _ _ => rfl
  · rw [happ, htarget]

theorem requested {T : Target} (h : requestTarget d = some T) :
    Requested bus hw unit lits w d heap T := by
  rw [requestTarget] at h
  cases hop : tftpDecodeOp d.payload with
  | rrq =>
      simp only [hop] at h
      exact requested_read hop h
  | wrq =>
      simp only [hop] at h
      exact requested_write hop h
  | data | ack | error | other => simp [hop] at h

end

/-! ## Undisturbed runs -/

/-- A request for a target leaves an open session its own. -/
def LeavesAlone (isWrite : Bool) (T : Target) (c : Connection) : Prop :=
  match T, isWrite with
  | .gw _, true => c.op ≠ .wrq
  | .gw t, false => c.op = .rrq → named c = some (.gw t)
  | .node id t, _ => named c = some (.node id t)

/-- A request that is accepted leaves all open sessions alone. -/
def Undisturbing (srv : Server (AppWorld β)) : Event → Prop
  | .request d res => res.pcb = true → ∀ T, requestTarget d = some T →
      ∀ c ∈ srv.connections, c.isOpen = true →
        LeavesAlone (isWrq (tftpDecodeOp d.payload)) T c
  | .datagram _ _ => True

section

variable {bus : SdoBus β} {hw : FlashHw} {unit : CrcUnit} {lits : NameLiterals}
  {w : AppWorld β} {srv : Server (AppWorld β)}

theorem LeavesAlone.selected {isWrite : Bool} {T : Target} {c : Connection}
    (h : LeavesAlone isWrite T c) (hown : Owned w c) :
    selected (isWrq c.op) (select isWrite T w) = selected (isWrq c.op) w := by
  obtain ⟨U, hnamed, hselected⟩ := hown.target
  rcases T with t | ⟨id, t⟩
  · cases isWrite with
    | true =>
        have hop : isWrq c.op = false := decide_eq_false h
        rw [hop]
        rfl
    | false =>
        rcases hown.op with hop | hop
        · have hU := Option.some.inj (hnamed.symm.trans (h hop))
          rw [hop, hU] at hselected
          rw [hop]
          exact hselected.symm
        · rw [hop]
          rfl
  · have hU := Option.some.inj (hnamed.symm.trans h)
    rw [selected_select_node, hselected, hU]

theorem select_mem (isWrite : Bool) (T : Target) (w : AppWorld β) :
    (select isWrite T w).images.dev.mem = w.images.dev.mem := by
  cases T <;> cases isWrite <;> rfl

/-- Only a request that writes the gateway changes the flash device. -/
theorem LeavesAlone.dev {isWrite : Bool} {T : Target} {c : Connection}
    (h : LeavesAlone isWrite T c) (hgw : WritesGw c) :
    (select isWrite T w).images.dev = w.images.dev := by
  rcases T with t | ⟨id, t⟩
  · cases isWrite with
    | true => exact absurd hgw.op h
    | false => rfl
  · rfl

/-- What a request does to the open sessions. -/
structure RequestFrame (srv : Server (AppWorld β)) (w : AppWorld β) : Prop where
  consistent : Consistent w
  selected : ∀ c ∈ srv.connections, c.isOpen = true →
    selected (isWrq c.op) w = selected (isWrq c.op) srv.world
  mem : w.images.dev.mem = srv.world.images.dev.mem
  dev : ∀ c ∈ srv.connections, WritesGw c → w.images.dev = srv.world.images.dev

theorem request_frame (hinv : SessionInv srv) {d : Datagram} {res : Resources}
    (hpcb : res.pcb = true) (hu : Undisturbing srv (.request d res)) :
    RequestFrame srv (requestSession (appFirmware bus hw unit lits) d res.heap
      srv.world).world := by
  rcases htarget : requestTarget d with _ | T
  · obtain ⟨hsel, hdev, -⟩ :=
      @requestSession_none β bus hw unit lits srv.world d res.heap htarget
    exact ⟨hinv.consistent.congr hsel, fun c _ _ => selected_congr hsel _,
      congrArg FlashDev.mem hdev, fun c _ _ => hdev⟩
  · have hreq := @requested β bus hw unit lits srv.world d res.heap T htarget
    have hleaves := hu hpcb T htarget
    constructor
    · exact (hinv.consistent.select _ T).congr hreq.selection
    · intro c hc hopen
      rw [selected_congr hreq.selection]
      exact (hleaves c hc hopen).selected (hinv.owned c hc hopen)
    · rw [hreq.dev]
      exact select_mem _ T srv.world
    · intro c hc hgw
      rw [hreq.dev]
      exact (hleaves c hc hgw.isOpen).dev hgw

theorem serverStep_request (d : Datagram) {res : Resources} (hpcb : res.pcb = true) :
    serverStep (appFirmware bus hw unit lits) srv (.request d res) =
      { world := (requestSession (appFirmware bus hw unit lits) d res.heap srv.world).world
        connections := srv.connections ++
          [⟨tftpDecodeOp d.payload, tftpExtractFilename d.payload,
            (requestSession (appFirmware bus hw unit lits) d res.heap srv.world).args,
            (requestSession (appFirmware bus hw unit lits) d res.heap srv.world).isOpen,
            (requestSession (appFirmware bus hw unit lits) d res.heap
              srv.world).trace⟩] } :=
  if_pos hpcb

theorem serverStep_noPcb (d : Datagram) {res : Resources} (hpcb : ¬ res.pcb = true) :
    serverStep (appFirmware bus hw unit lits) srv (.request d res) = srv :=
  if_neg hpcb

theorem request_isolated (hinv : SessionInv srv) {d : Datagram} {res : Resources}
    (hu : Undisturbing srv (.request d res)) :
    Isolated bus hw unit lits srv (.request d res) := by
  constructor
  · intro k d' heq
    cases heq
  · intro d' res' heq T htarget
    cases heq
    exact (requested htarget).own
  · intro c hc hopen
    by_cases hpcb : res.pcb = true
    · rw [serverStep_request d hpcb]
      exact (request_frame hinv hpcb hu).selected c hc hopen
    · rw [serverStep_noPcb d hpcb]
  · intro c hc hgw a hlo hhi
    by_cases hpcb : res.pcb = true
    · rw [serverStep_request d hpcb]
      exact congrFun (request_frame hinv hpcb hu).mem a
    · rw [serverStep_noPcb d hpcb]

theorem request_opened {d : Datagram} {heap : Option ConnectionArgs}
    (hopen : (requestSession (appFirmware bus hw unit lits) d heap w).isOpen = true) :
    ∃ T, requestTarget d = some T ∧ Requested bus hw unit lits w d heap T := by
  rcases htarget : requestTarget d with _ | T
  · have hclosed := (@requestSession_none β bus hw unit lits w d heap htarget).2.2
    rw [hclosed] at hopen
    cases hopen
  · exact ⟨T, rfl, requested htarget⟩

theorem getElem?_snoc {cs : List Connection} {x c : Connection} {k : Nat}
    (h : (cs ++ [x])[k]? = some c) : cs[k]? = some c ∨ (k = cs.length ∧ c = x) := by
  rw [List.getElem?_append] at h
  by_cases hk : k < cs.length
  · rw [if_pos hk] at h
    exact .inl h
  · rw [if_neg hk] at h
    obtain ⟨hlen, hget⟩ := List.getElem?_eq_some_iff.mp h
    simp only [List.length_singleton] at hlen
    have hzero : k - cs.length = 0 := by omega
    simp only [hzero, List.getElem_cons_zero] at hget
    exact .inr ⟨by omega, hget.symm⟩

theorem request_inv (hinv : SessionInv srv) {d : Datagram} {res : Resources}
    (hu : Undisturbing srv (.request d res)) :
    SessionInv (serverStep (appFirmware bus hw unit lits) srv (.request d res)) := by
  by_cases hpcb : res.pcb = true
  · have hframe := @request_frame β bus hw unit lits srv hinv d res hpcb hu
    rw [serverStep_request d hpcb]
    -- no session that is open writes the gateway's flash beside the new one
    have halone : ∀ c ∈ srv.connections, WritesGw c → tftpDecodeOp d.payload = .wrq →
        fileTarget true (tftpExtractFilename d.payload) = some (.gw .ldr) → False := by
      intro c hc hgw hop hfile
      have htarget : requestTarget d = some (.gw .ldr) := by
        rw [requestTarget, hop]
        exact hfile
      have hleaves := hu hpcb _ htarget c hc hgw.isOpen
      rw [hop] at hleaves
      exact hleaves hgw.op
    constructor
    · exact hframe.consistent
    · intro c hc hopen
      rcases List.mem_append.mp hc with hc | hc
      · obtain ⟨hop, T, hnamed, hselected⟩ := hinv.owned c hc hopen
        exact ⟨hop, T, hnamed, (hframe.selected c hc hopen).trans hselected⟩
      · obtain rfl := List.mem_singleton.mp hc
        obtain ⟨T, -, hreq⟩ := request_opened hopen
        refine ⟨hreq.op, T, hreq.file, ?_⟩
        rw [selected_congr hreq.selection]
        exact selected_select hreq.file srv.world
    · intro c hc hgw
      rcases List.mem_append.mp hc with hc | hc
      · have hdev := hframe.dev c hc hgw
        simp only [hdev]
        exact hinv.kept c hc hgw
      · obtain rfl := List.mem_singleton.mp hc
        obtain ⟨T, -, hreq⟩ := request_opened hgw.isOpen
        have hstart := hreq.start hgw.op hgw.isOpen
        simp only [hstart]
        exact WrittenKept.zero _
    · intro j k c c' hj hk hgw hgw'
      rcases getElem?_snoc hj with hj | ⟨rfl, rfl⟩
      · rcases getElem?_snoc hk with hk | ⟨rfl, rfl⟩
        · exact hinv.unique j k c c' hj hk hgw hgw'
        · exact absurd (hgw'.target) fun hfile =>
            halone c (List.mem_of_getElem? hj) hgw hgw'.op (by
              rw [named, hgw'.op] at hfile
              exact hfile)
      · rcases getElem?_snoc hk with hk | ⟨rfl, rfl⟩
        · exact absurd (hgw.target) fun hfile =>
            halone c' (List.mem_of_getElem? hk) hgw' hgw.op (by
              rw [named, hgw.op] at hfile
              exact hfile)
        · rfl
  · rw [serverStep_noPcb d hpcb]
    exact hinv

theorem getElem?_update {cs : List Connection} {x c : Connection} {j k : Nat}
    (h : (cs.set k x)[j]? = some c) : (j = k ∧ c = x) ∨ (j ≠ k ∧ cs[j]? = some c) := by
  rw [List.getElem?_set] at h
  by_cases hjk : k = j
  · rw [if_pos hjk] at h
    split_ifs at h
    exact .inl ⟨hjk.symm, (Option.some.inj h).symm⟩
  · rw [if_neg hjk] at h
    exact .inr ⟨Ne.symm hjk, h⟩

theorem SessionInv.frame (hinv : SessionInv srv) {k : Nat} {c : Connection}
    (hc : srv.connections[k]? = some c) (hopen : c.isOpen = true) (d : Datagram) :
    (∃ T, named c = some T ∧
      c.handler (appCb bus hw unit lits) (c.session srv.world) d =
        c.handler (targetCb bus hw unit lits T) (c.session srv.world) d) ∧
      HandlerFrame srv.world c
        (c.handler (appCb bus hw unit lits) (c.session srv.world) d) := by
  have hmem := List.mem_of_getElem? hc
  exact handler_frame hopen hinv.consistent (hinv.owned c hmem hopen) (hinv.kept c hmem) d

theorem datagram_isolated (hinv : SessionInv srv) (k : Nat) (d : Datagram) :
    Isolated bus hw unit lits srv (.datagram k d) := by
  constructor
  · intro k' d' heq c hc hopen
    cases heq
    exact (hinv.frame hc hopen d).1
  · intro d' res heq
    cases heq
  · intro c _ _
    rcases hk : srv.connections[k]? with _ | c'
    · rw [serverStep, deliverTo_none hk]
    · by_cases hopen : c'.isOpen = true
      · rw [serverStep, deliverTo_open hk hopen]
        exact selected_congr (hinv.frame hk hopen d).2.selection _
      · rw [serverStep, deliverTo_closed hk hopen]
  · intro c hc hgw a hlo hhi
    rcases hk : srv.connections[k]? with _ | c'
    · rw [serverStep, deliverTo_none hk]
    · by_cases hopen : c'.isOpen = true
      · have hframe := (@SessionInv.frame β bus hw unit lits srv hinv k c' hk hopen d).2
        rw [serverStep, deliverTo_open hk hopen]
        by_cases hgw' : WritesGw c'
        · obtain ⟨j, hj⟩ := List.mem_iff_getElem?.mp hc
          have hjk := hinv.unique j k c c' hj hk hgw hgw'
          rw [hjk, hk] at hj
          obtain rfl := Option.some.inj hj
          exact hframe.content hgw a hlo hhi
        · exact congrFun (congrArg FlashDev.mem (hframe.dev hgw')) a
      · rw [serverStep, deliverTo_closed hk hopen]

theorem datagram_inv (hinv : SessionInv srv) (k : Nat) (d : Datagram) :
    SessionInv (serverStep (appFirmware bus hw unit lits) srv (.datagram k d)) := by
  rcases hk : srv.connections[k]? with _ | c
  · rw [serverStep, deliverTo_none hk]
    exact hinv
  by_cases hopen : c.isOpen = true
  · have hframe := (@SessionInv.frame β bus hw unit lits srv hinv k c hk hopen d).2
    have hcfg : (appFirmware bus hw unit lits).cb = appCb bus hw unit lits := rfl
    rw [serverStep, deliverTo_open hk hopen, hcfg]
    generalize c.handler (appCb bus hw unit lits) (c.session srv.world) d = s at hframe ⊢
    have hupdate : WritesGw (c.update s) → WritesGw c :=
      fun h => ⟨hopen, h.op, h.target⟩
    constructor
    · exact hinv.consistent.congr hframe.selection
    · intro c' hc' hopen'
      obtain ⟨j, hj⟩ := List.mem_iff_getElem?.mp hc'
      rcases getElem?_update hj with ⟨-, rfl⟩ | ⟨-, hj⟩
      · obtain ⟨hop, T, hnamed, hselected⟩ := hinv.owned c (List.mem_of_getElem? hk) hopen
        exact ⟨hop, T, hnamed, (selected_congr hframe.selection _).trans hselected⟩
      · obtain ⟨hop, T, hnamed, hselected⟩ := hinv.owned c' (List.mem_of_getElem? hj) hopen'
        exact ⟨hop, T, hnamed, (selected_congr hframe.selection _).trans hselected⟩
    · intro c' hc' hgw
      obtain ⟨j, hj⟩ := List.mem_iff_getElem?.mp hc'
      rcases getElem?_update hj with ⟨-, rfl⟩ | ⟨hjk, hj⟩
      · exact hframe.kept (hupdate hgw) hgw.isOpen
      · have hother : ¬ WritesGw c := fun h => hjk (hinv.unique j k c' c hj hk hgw h)
        have hdev := hframe.dev hother
        simp only [hdev]
        exact hinv.kept c' (List.mem_of_getElem? hj) hgw
    · intro i j c₁ c₂ hi hj hgw₁ hgw₂
      rcases getElem?_update hi with ⟨rfl, rfl⟩ | ⟨-, hold⟩
      · rcases getElem?_update hj with ⟨rfl, -⟩ | ⟨-, hold'⟩
        · rfl
        · exact hinv.unique _ j c c₂ hk hold' (hupdate hgw₁) hgw₂
      · rcases getElem?_update hj with ⟨rfl, rfl⟩ | ⟨-, hold'⟩
        · exact hinv.unique i _ c₁ c hold hk hgw₁ (hupdate hgw₂)
        · exact hinv.unique i j c₁ c₂ hold hold' hgw₁ hgw₂
  · rw [serverStep, deliverTo_closed hk hopen]
    exact hinv

end

section Run

variable (bus : SdoBus β) (hw : FlashHw) (unit : CrcUnit) (lits : NameLiterals)
  (images : Images) (nodes : β)

/-- The server of the application after the events `evs`. -/
def appRun (evs : List Event) : Server (AppWorld β) :=
  serverRun (appFirmware bus hw unit lits) (appInit images nodes) evs

/-- Every event leaves the sessions isolated. -/
def AlwaysIsolated (evs : List Event) : Prop :=
  AtEach (fun pre ev => Isolated bus hw unit lits (appRun bus hw unit lits images nodes pre)
    ev) evs

/-- No request disturbs a session that is open when it comes. -/
def AlwaysUndisturbing (evs : List Event) : Prop :=
  AtEach (fun pre ev => Undisturbing (appRun bus hw unit lits images nodes pre) ev) evs

theorem appInit_inv : SessionInv (⟨appInit images nodes, []⟩ : Server (AppWorld β)) where
  consistent := fun f hf => by cases hf
  owned := fun c hc => by cases hc
  kept := fun c hc => by cases hc
  unique := fun j k c c' hj => by simp at hj

variable {bus hw unit lits images nodes}

/-- Sessions stay isolated in every run whose requests leave the open ones alone. -/
theorem alwaysIsolated_of_undisturbing {evs : List Event}
    (h : AlwaysUndisturbing bus hw unit lits images nodes evs) :
    AlwaysIsolated bus hw unit lits images nodes evs := by
  refine atEach_of_invariant (serverStep (appFirmware bus hw unit lits))
    (fun _ srv => SessionInv srv) (appInit_inv images nodes) ?_ ?_ h
  · intro pre ev hinv hu
    rcases ev with ⟨d, res⟩ | ⟨k, d⟩
    · exact request_inv hinv hu
    · exact datagram_inv hinv k d
  · intro pre ev hinv hu
    rcases ev with ⟨d, res⟩ | ⟨k, d⟩
    · exact request_isolated hinv hu
    · exact datagram_isolated hinv k d

end Run

/-! ## Sample requests -/

def sampleHeap : Resources := ⟨true, some ⟨[], 0, 0⟩⟩

def writeLdr : Event := .request (sampleRequest 2 "sh_gw_ldr") sampleHeap

def readApp : Event := .request (sampleRequest 1 "sh_gw_app") sampleHeap

def writeNode5 : Event := .request (sampleRequest 2 "sh_nd_app5") sampleHeap

/-- The first DATA packet of the session that was opened first, with 512 zero bytes. -/
def firstData : Event :=
  .datagram 0
    { source := ⟨0, 0⟩
      payload := fun i => if i = 1 then 3 else if i = 3 then 1 else 0
      len := 516
      totLen := 516
      len_le := Nat.le_refl 516
      totLen_lt := by decide }

theorem requestTarget_writeLdr :
    requestTarget (sampleRequest 2 "sh_gw_ldr") = some (.gw .ldr) := by
  decide +kernel

theorem requestTarget_readApp :
    requestTarget (sampleRequest 1 "sh_gw_app") = some (.gw .app) := by
  decide +kernel

theorem requestTarget_writeNode5 :
    requestTarget (sampleRequest 2 "sh_nd_app5") = some (.node 5 .app) := by
  decide +kernel

/-- The server after a request to write the loader. -/
abbrev afterWriteLdr : Server (AppWorld Unit) :=
  appRun silentBus .ideal .stm32 ⟨0, 0⟩ blankImages () [writeLdr]

theorem op_afterFirstData {c : Connection}
    (h : c ∈ (serverStep (appFirmware silentBus .ideal .stm32 ⟨0, 0⟩) afterWriteLdr
      firstData).connections) : c.op = .wrq := by
  obtain rfl := List.mem_singleton.mp h
  rfl

/-- The application is read while the loader is written. -/
theorem alwaysIsolated_readApp :
    AlwaysIsolated silentBus .ideal .stm32 ⟨0, 0⟩ blankImages ()
      [writeLdr, firstData, readApp] := by
  apply alwaysIsolated_of_undisturbing
  refine (@atEach_snoc _ _ [writeLdr, firstData] readApp).mpr
    ⟨(@atEach_snoc _ _ [writeLdr] firstData).mpr
      ⟨(@atEach_snoc _ _ [] writeLdr).mpr ⟨atEach_nil _, ?_⟩, trivial⟩, ?_⟩
  · intro _ T _ c hc
    cases hc
  · intro _ T htarget c hc _
    obtain rfl := Option.some.inj (requestTarget_readApp.symm.trans htarget)
    intro hop
    rw [op_afterFirstData hc] at hop
    exact absurd hop (by decide)

theorem selected_afterWriteLdr : selected true afterWriteLdr.world = some (.gw .ldr) := by
  have hreq := @requested Unit silentBus .ideal .stm32 ⟨0, 0⟩ (appInit blankImages ()) _
    sampleHeap.heap _ requestTarget_writeLdr
  exact (selected_congr hreq.selection true).trans rfl

/-- A request for a node takes the target of the session that writes the loader. -/
theorem not_alwaysIsolated_writeNode5 :
    ¬ ∀ (bus : SdoBus Unit) (evs : List Event),
      AlwaysIsolated bus .ideal .stm32 ⟨0, 0⟩ blankImages () evs := by
  intro h
  have hstep := (atEach_snoc.mp (h silentBus ([writeLdr] ++ [writeNode5]))).2
  have hopen := hstep.target _ (List.mem_singleton_self _) rfl
  have hreq := @requested Unit silentBus .ideal .stm32 ⟨0, 0⟩ afterWriteLdr.world _
    sampleHeap.heap _ requestTarget_writeNode5
  have hnode : selected true (serverStep (appFirmware silentBus .ideal .stm32 ⟨0, 0⟩)
      afterWriteLdr writeNode5).world = some (.node 5 .app) :=
    (selected_congr hreq.selection true).trans (selected_select_node true true 5 .app _)
  have hboth := hnode.symm.trans (hopen.trans selected_afterWriteLdr)
  exact absurd hboth (by decide)

end ShGateway.SessionIsolation
