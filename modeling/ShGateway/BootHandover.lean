import ShGateway.ConfigParser
import ShGateway.Ldr

/-!
The loader hands over to the pre-loader: a reset after the boot delay is
followed by a jump to the application.
-/

namespace ShGateway.BootHandover

open ShGateway.ConfigParser
open ShGateway.ConfigSystem
open ShGateway.Crc
open ShGateway.FwHeader
open ShGateway.FwVerdict
open ShGateway.Ldr
open ShGateway.Lib.NorFlash
open ShGateway.Platform
open ShGateway.Preldr
open ShGateway.TftpSessions

section

variable (unit : CrcUnit) (m : Mem)

/-- The flash is as it was when the loader was started, no session has been
opened, and the cached verdict on the application is the one on that flash. -/
structure Untouched (s : LdrState) : Prop where
  mem : s.server.world.store.dev.mem = m
  connections : s.server.connections = []
  verdict : s.server.world.infos.app.locked = .none ↔
    Bootable unit m appStart (literal "sh_gw_app")

/-- While the loader has not been told to stay, nothing has touched the flash. -/
structure HandoverInv (s : LdrState) : Prop where
  loadSrc : s.loadSrc = loadSrcBootloader
  untouched : s.stayInBoot = false → Untouched unit m s
  reset : s.reset = some .bootDelay →
    Untouched unit m s ∧ s.server.world.infos.app.locked = .none

end

section

variable {hw : FlashHw} {unit : CrcUnit} {lits : NameLiterals} {m : Mem} {s : LdrState}

theorem ldrInit_inv (hlits : NamesStored m lits) :
    HandoverInv unit m (ldrInit unit lits m) where
  loadSrc := rfl
  reset := fun h => by cases h
  untouched := fun _ => by
    refine ⟨?_, rfl, fwHeaderCheckAll_app_iff hlits {}⟩
    have hframe := (configValidate_frame unit (powerUp m ldrDeviceConfig)).1
    rw [ldrInit]
    rcases hvalidated : configValidate unit (powerUp m ldrDeviceConfig) with ⟨sts, store⟩
    have hmem : store.dev.mem = m := by
      rw [hvalidated] at hframe
      rw [hframe]
      rfl
    cases sts <;> exact hmem

/-- A console command leaves the load source alone, and resets for no other
reason. -/
theorem consoleCb_frame (cmd : ConsoleCmd) (hreset : s.reset = none) :
    (consoleCb hw unit lits cmd s).loadSrc = s.loadSrc ∧
      (consoleCb hw unit lits cmd s).stayInBoot = s.stayInBoot ∧
      (consoleCb hw unit lits cmd s).reset ≠ some .bootDelay := by
  cases cmd with
  | fw => simp [consoleCb, hreset]
  | reset => simp [consoleCb]
  | save =>
      simp only [consoleCb]
      rcases configWriteStorage hw unit s.server.world.store with _ | ⟨sts, store⟩
      · simp [hreset]
      · cases sts <;> simp [hreset]
  | cfgstate => simp [consoleCb, hreset]

theorem handlePacket_inv (h : HandoverInv unit m s) (p : Packet) :
    HandoverInv unit m (handlePacket hw unit lits s p) := by
  by_cases hreset : s.reset.isSome = true
  · have hsame : handlePacket hw unit lits s p = s := if_pos hreset
    rw [hsame]
    exact h
  unfold handlePacket
  rw [if_neg hreset]
  have hnone : s.reset = none := by simpa using hreset
  rcases p with ev | cmd
  · rcases ev with ⟨d, res⟩ | ⟨k, d⟩
    · -- a request keeps the loader from resetting itself
      exact ⟨h.loadSrc, fun hstay => absurd hstay (by simp [tftpPacket]),
        fun hr => absurd hr (by simp [tftpPacket, hnone])⟩
    · refine ⟨h.loadSrc, fun hstay => ?_,
        fun hr => absurd hr (by simp [tftpPacket, hnone])⟩
      have hu := h.untouched hstay
      have hsame : tftpPacket hw unit lits (.datagram k d) s = s := by
        rw [tftpPacket, serverStep, deliverTo_none (by rw [hu.connections]; rfl)]
      change Untouched unit m (tftpPacket hw unit lits (.datagram k d) s)
      rw [hsame]
      exact hu
  · rcases cmd with _ | cmd
    · exact ⟨h.loadSrc, fun hstay => absurd hstay (by simp [cbUdpConsole]),
        fun hr => absurd hr (by simp [cbUdpConsole, hnone])⟩
    · obtain ⟨hsrc, hstay, hr⟩ :=
        @consoleCb_frame hw unit lits { s with stayInBoot := true } cmd hnone
      refine ⟨hsrc.trans h.loadSrc, fun hfalse => ?_, fun hdelay => absurd hdelay hr⟩
      have htrue : (consoleCb hw unit lits cmd { s with stayInBoot := true }).stayInBoot =
          false := hfalse
      rw [hstay] at htrue
      cases htrue

theorem ldrTurn_inv (h : HandoverInv unit m s) (turn : Turn) :
    HandoverInv unit m (ldrTurn hw unit lits s turn) := by
  by_cases hreset : s.reset.isSome = true
  · rw [ldrTurn, if_pos hreset]
    exact h
  rw [ldrTurn, if_neg hreset]
  have hnone : s.reset = none := by simpa using hreset
  split_ifs with helapsed
  · have hu := h.untouched helapsed.2.1
    exact ⟨h.loadSrc, fun _ => ⟨hu.mem, hu.connections, hu.verdict⟩, fun _ =>
      ⟨⟨hu.mem, hu.connections, hu.verdict⟩, helapsed.2.2⟩⟩
  · have hstart : HandoverInv unit m { s with bootDelay := s.bootDelay - turn.diffMs } := by
      refine ⟨h.loadSrc, fun hstay => ?_, fun hr => absurd hr (by simp [hnone])⟩
      have hu := h.untouched hstay
      exact ⟨hu.mem, hu.connections, hu.verdict⟩
    revert hstart
    generalize { s with bootDelay := s.bootDelay - turn.diffMs } = t
    induction turn.packets generalizing t with
    | nil => exact id
    | cons p packets ih => exact fun ht => ih _ (handlePacket_inv ht p)

theorem ldrRun_inv (hlits : NamesStored m lits) (turns : List Turn) :
    HandoverInv unit m (ldrRun hw unit lits m turns) := by
  induction turns using List.reverseRecOn with
  | nil => exact ldrInit_inv hlits
  | append_singleton turns turn ih =>
      rw [ldrRun, List.foldl_append]
      exact ldrTurn_inv ih turn

/-- A loader that resets itself after the boot delay is followed by the
application: the retained load source and the pre-loader's own verdict agree
with what the loader found. -/
theorem ldrRun_handover {preldrLits : NameLiterals} (hldr : NamesStored m lits)
    (hpreldr : NamesStored m preldrLits) {turns : List Turn}
    (hreset : (ldrRun hw unit lits m turns).reset = some .bootDelay) :
    let s := ldrRun hw unit lits m turns
    let flash := s.server.world.store.dev.mem
    s.loadSrc = loadSrcBootloader ∧
      s.server.world.infos.app.locked = .none ∧
      (fwHeaderCheckAll unit preldrLits flash {}).app.locked = .none ∧
      preldrMain unit preldrLits flash s.loadSrc = (some appStart, loadSrcNone) := by
  have hinv := @ldrRun_inv hw unit lits m hldr turns
  obtain ⟨hu, hlocked⟩ := hinv.reset hreset
  have hbootable := hu.verdict.mp hlocked
  intro s flash
  have hflash : flash = m := hu.mem
  rw [hflash, hinv.loadSrc]
  exact ⟨rfl, hlocked, (fwHeaderCheckAll_app_iff hpreldr {}).mpr hbootable,
    preldrMain_of_bootloader hpreldr hbootable⟩

/-- With the sample flash the loader resets itself in the second turn, after
five seconds without packets. -/
theorem ldrRun_handover_sample :
    let s := ldrRun .ideal .stm32 sampleNames sampleFlash [⟨5000, []⟩, ⟨0, []⟩]
    preldrMain .stm32 sampleNames s.server.world.store.dev.mem s.loadSrc =
      (some appStart, loadSrcNone) := by
  have happ : (fwHeaderCheckAll .stm32 sampleNames sampleFlash {}).app.locked = .none :=
    (fwHeaderCheckAll_app_iff sampleFlash_names {}).mpr sampleFlash_bootable
  have hreset : (ldrRun .ideal .stm32 sampleNames sampleFlash
      [⟨5000, []⟩, ⟨0, []⟩]).reset = some .bootDelay := by
    simp [ldrRun, ldrTurn, ldrInit, bootDelayInit, happ]
  exact (ldrRun_handover sampleFlash_names sampleFlash_names hreset).2.2.2

end

end ShGateway.BootHandover
