import ShGateway.AppFiles

/-!
The files of the application by what they stand for, and the variables through
which a request selects one of them.
-/

namespace ShGateway.SessionTargets

open ShGateway.AppFiles
open ShGateway.Crc
open ShGateway.FwHeader
open ShGateway.GatewayFiles
open ShGateway.Platform
open ShGateway.SdoFlasher
open ShGateway.TftpServer

/-- What a request names: an image of the gateway, or a firmware of a node. -/
inductive Target
  | gw (t : FwType)
  | node (id : UInt8) (t : FwType)
deriving DecidableEq, Repr

/-- The target a file name stands for. -/
def fileTarget (isWrite : Bool) (fileName : List UInt8) : Option Target :=
  if fileName = literal "sh_gw_ldr" ∧ isWrite = true then some (.gw .ldr)
  else
    match (if isWrite then none else findGwRd fileName) with
    | some t => some (.gw t)
    | none =>
        match findNd fileName with
        | none => none
        | some (t, rest) =>
            if getCanId rest = 0 then none else some (.node (getCanId rest) t)

variable {β : Type*}

/-- The target that calls through `tftp_cb` reach. -/
def selected (isWrite : Bool) (w : AppWorld β) : Option Target :=
  match isWrite with
  | true =>
      match w.cbWrite, w.ndFwCb with
      | some .gwLdr, _ => some (.gw .ldr)
      | some _, some t => some (.node w.sdoFlasherId t)
      | _, _ => none
  | false =>
      match w.cbRead, w.ndFwCb with
      | some (.gw t), _ => some (.gw t)
      | some .nd, some t => some (.node w.sdoFlasherId t)
      | _, _ => none

/-- The variables that a request sets for a target. -/
def select (isWrite : Bool) (T : Target) (w : AppWorld β) : AppWorld β :=
  match T, isWrite with
  | .gw _, true =>
      { w with
        images := { w.images with dev := platformFlashEraseFlagReset w.images.dev }
        cbWrite := some .gwLdr }
  | .gw t, false => { w with cbRead := some (.gw t) }
  | .node id t, _ =>
      { w with
        sdoFlasherId := id
        cbRead := some .nd
        cbWrite := some (ndWriteCb t)
        ndFwCb := some t }

def checked (unit : CrcUnit) (lits : NameLiterals) (w : AppWorld β) : AppWorld β :=
  { w with images := w.images.checkAll unit lits }

theorem tftpServerCheckFile_eq (unit : CrcUnit) (lits : NameLiterals) (isWrite : Bool)
    (fileName : List UInt8) (w : AppWorld β) :
    AppFiles.tftpServerCheckFile unit lits isWrite fileName w =
      match fileTarget isWrite fileName with
      | none => (1, checked unit lits w)
      | some T => (0, select isWrite T (checked unit lits w)) := by
  unfold AppFiles.tftpServerCheckFile fileTarget
  by_cases hldr : fileName = literal "sh_gw_ldr" ∧ isWrite = true
  · obtain ⟨-, rfl⟩ := id hldr
    rw [if_pos hldr, if_pos hldr]
    rfl
  · rw [if_neg hldr, if_neg hldr]
    rcases hgw : (if isWrite then none else findGwRd fileName) with _ | t
    · rcases hnd : findNd fileName with _ | ⟨t, rest⟩
      · rfl
      · by_cases hid : getCanId rest = 0
        · simp only [hid, if_true]
          rfl
        · simp only [hid, if_false]
          rfl
    · cases isWrite with
      | true => simp at hgw
      | false => rfl

theorem fileTarget_write {fileName : List UInt8} {t : FwType}
    (h : fileTarget true fileName = some (.gw t)) : t = .ldr := by
  unfold fileTarget at h
  by_cases hldr : fileName = literal "sh_gw_ldr" ∧ true = true
  · rw [if_pos hldr] at h
    cases h
    rfl
  · rw [if_neg hldr] at h
    rcases hnd : findNd fileName with _ | ⟨u, rest⟩
    · simp [hnd] at h
    · by_cases hid : getCanId rest = 0 <;> simp [hnd, hid] at h

/-- The variables that select a file. -/
def selection (w : AppWorld β) :
    Option WriteCb × Option ReadCb × Option FwType × UInt8 :=
  (w.cbWrite, w.cbRead, w.ndFwCb, w.sdoFlasherId)

theorem selection_checked (unit : CrcUnit) (lits : NameLiterals) (w : AppWorld β) :
    selection (checked unit lits w) = selection w := by
  simp only [selection, checked]

theorem checked_dev (unit : CrcUnit) (lits : NameLiterals) (w : AppWorld β) :
    (checked unit lits w).images.dev = w.images.dev := by
  simp only [checked, Images.checkAll]

/-- `tftp_cb.write` and `g_nd_fw_cb` come from the same entry of `nd`. -/
def Consistent (w : AppWorld β) : Prop :=
  ∀ f, w.cbWrite = some f → f = .gwLdr ∨ ∃ t, w.ndFwCb = some t ∧ f = ndWriteCb t

theorem selected_congr {w w' : AppWorld β} (h : selection w' = selection w)
    (isWrite : Bool) : selected isWrite w' = selected isWrite w := by
  simp only [selection, Prod.mk.injEq] at h
  simp only [selected, h]

theorem Consistent.congr {w w' : AppWorld β} (h : selection w' = selection w)
    (hw : Consistent w) : Consistent w' := by
  simp only [selection, Prod.mk.injEq] at h
  intro f hf
  rw [h.1] at hf
  rw [h.2.2.1]
  exact hw f hf

theorem Consistent.select {w : AppWorld β} (hw : Consistent w) (isWrite : Bool)
    (T : Target) : Consistent (select isWrite T w) := by
  rcases T with t | ⟨id, t⟩
  · cases isWrite with
    | true => exact fun f hf => .inl (Option.some.inj hf).symm
    | false => exact hw
  · exact fun f hf => .inr ⟨t, rfl, (Option.some.inj hf).symm⟩

theorem selected_select_node (isWrite b : Bool) (id : UInt8) (t : FwType)
    (w : AppWorld β) :
    selected isWrite (select b (.node id t) w) = some (.node id t) := by
  cases isWrite with
  | true => cases t <;> rfl
  | false => rfl

theorem selected_select {isWrite : Bool} {fileName : List UInt8} {T : Target}
    (h : fileTarget isWrite fileName = some T) (w : AppWorld β) :
    selected isWrite (select isWrite T w) = some T := by
  rcases T with t | ⟨id, t⟩
  · cases isWrite with
    | true =>
        obtain rfl := fileTarget_write h
        rfl
    | false => rfl
  · exact selected_select_node isWrite isWrite id t w

/-! ## Callbacks of a target -/

section

variable (bus : SdoBus β) (hw : FlashHw) (unit : CrcUnit) (lits : NameLiterals)

/-- The callbacks of a target, which depend on no variable. -/
def targetCb : Target → TftpCb (AppWorld β)
  | .gw t =>
      { write := writeGwLdr hw unit lits
        read := fun addr _ w => readGw t addr w }
  | .node id t =>
      { write := writeNd bus unit (ndWriteCb t) id t
        read := readNd bus unit id t }

theorem write_selected {w : AppWorld β} {T : Target} (hc : Consistent w)
    (h : selected true w = some T) (addr : Nat) (data : Option (List UInt8)) :
    (appCb bus hw unit lits).write addr data w =
      (targetCb bus hw unit lits T).write addr data w := by
  rcases hcb : w.cbWrite with _ | f
  · simp [selected, hcb] at h
  · by_cases hgw : f = .gwLdr
    · subst hgw
      simp only [selected, hcb, Option.some.injEq] at h
      subst h
      simp only [appCb, hcb]
      rfl
    · obtain ⟨t, hnd, rfl⟩ := (hc f hcb).resolve_left hgw
      cases t <;>
        · simp only [selected, hcb, hnd, ndWriteCb, Option.some.injEq] at h
          subst h
          simp only [appCb, hcb, hnd, ndWriteCb]
          rfl

theorem read_selected {w : AppWorld β} {T : Target} (h : selected false w = some T)
    (addr : Nat) (data : List UInt8) :
    (appCb bus hw unit lits).read addr data w =
      (targetCb bus hw unit lits T).read addr data w := by
  rcases hcb : w.cbRead with _ | _ | t
  · simp [selected, hcb] at h
  · simp only [selected, hcb, Option.some.injEq] at h
    subst h
    simp only [appCb, hcb]
    rfl
  · rcases hnd : w.ndFwCb with _ | t
    · simp [selected, hcb, hnd] at h
    · simp only [selected, hcb, hnd, Option.some.injEq] at h
      subst h
      simp only [appCb, hcb, hnd]
      rfl

theorem writeNd_frame (f : WriteCb) (id : UInt8) (t : FwType) (addr : Nat)
    (data : Option (List UInt8)) (w : AppWorld β) :
    selection (writeNd bus unit f id t addr data w).2 = selection w ∧
      (writeNd bus unit f id t addr data w).2.images = w.images := ⟨rfl, rfl⟩

theorem readNd_frame (id : UInt8) (t : FwType) (addr : Nat) (data : List UInt8)
    (w : AppWorld β) :
    selection (readNd bus unit id t addr data w).2.2 = selection w ∧
      (readNd bus unit id t addr data w).2.2.images = w.images := by
  unfold readNd
  rcases cbNdRd bus unit id (fwNumber t) addr TftpUtils.tftpDataLenMax w.nodes with
    ⟨sts, copied, _ | sizeRead, nodes⟩ <;> exact ⟨rfl, rfl⟩

theorem appCb_write_selection (addr : Nat) (data : Option (List UInt8))
    (w : AppWorld β) :
    selection ((appCb bus hw unit lits).write addr data w).2 = selection w := by
  simp only [appCb]
  split <;> rfl

theorem appCb_read_frame (addr : Nat) (data : List UInt8) (w : AppWorld β) :
    selection ((appCb bus hw unit lits).read addr data w).2.2 = selection w ∧
      ((appCb bus hw unit lits).read addr data w).2.2.images = w.images := by
  simp only [appCb]
  split
  · exact ⟨rfl, rfl⟩
  · exact readNd_frame bus unit _ _ addr data w
  · exact ⟨rfl, rfl⟩

end

end ShGateway.SessionTargets
