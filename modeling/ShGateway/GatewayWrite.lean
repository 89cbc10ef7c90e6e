import ShGateway.AppFiles
import ShGateway.FlashWrite
import ShGateway.Ldr
import ShGateway.TftpRead
import ShGateway.TftpWrite

/-!
A firmware image written into the gateway by a lock-step client over a network
that loses and repeats packets.
-/

namespace ShGateway.GatewayWrite

open ShGateway.AppFiles
open ShGateway.Crc
open ShGateway.FlashWrite
open ShGateway.FwHeader
open ShGateway.GatewayFiles
open ShGateway.Ldr
open ShGateway.Lib.NorFlash
open ShGateway.Platform
open ShGateway.SdoFlasher
open ShGateway.TftpRead
open ShGateway.TftpServer
open ShGateway.TftpSessions
open ShGateway.TftpUtils
open ShGateway.TftpWrite

variable {σ : Type*}

/-! ## The client and the network -/

/-- The number of blocks of a file. The last one has fewer than 512 bytes. -/
def blockCount (file : List UInt8) : Nat := file.length / 512 + 1

/-- A datagram with block `k` of the file. One that comes in several buffers
is only known by its length. -/
structure CarriesData (file : List UInt8) (k : Nat) (d : Datagram) : Prop where
  totLen : d.totLen = tftpDataPktHdrLen + (fileBlock file k).length
  packet : d.len = d.totLen → tftpDecodeOp d.payload = .data ∧
    tftpExtractBlock d.payload = k ∧ d.data = fileBlock file k

/-- A transfer: the session of the server, the block that the client wants to
have acknowledged, and the last one that it has sent. -/
structure Transfer (σ : Type*) where
  server : Session σ
  next : Nat
  sent : Nat

/-- The client sends its block for the first time or again; the network delivers
any block sent so far; or it delivers an acknowledgement that the client waits
for. Packets may stay on the network or never arrive. -/
inductive TransferStep (cb : TftpCb σ) (file : List UInt8) :
    Transfer σ → Transfer σ → Prop
  | send (t : Transfer σ) : 1 ≤ t.next → t.next ≤ blockCount file →
      TransferStep cb file t { t with sent := t.next }
  | data (t : Transfer σ) (k : Nat) (d : Datagram) : 1 ≤ k → k ≤ t.sent →
      CarriesData file k d →
      TransferStep cb file t { t with server := deliver (wrqRecvCallback cb) t.server d }
  | ack (t : Transfer σ) (dst : Peer) : .send dst (ackPacket t.next) ∈ t.server.trace →
      TransferStep cb file t { t with next := t.next + 1 }

/-- The transfer that a request begins. -/
def Transfer.start (s : Session σ) : Transfer σ := ⟨s, 0, 0⟩

/-! ## A partition as the target -/

/-- The write callback writes the partition between two addresses, in the states
that are `ready`. -/
structure WritesPartition (cb : TftpCb σ) (unit : CrcUnit) (lits : NameLiterals)
    (images : σ → Images) (ready : σ → Prop) (first last : Nat) : Prop where
  sts : ∀ addr data w, ready w → (cb.write addr data w).1 =
    (cbWrGw .ideal unit lits first last addr data (images w)).1
  images : ∀ addr data w, ready w → images (cb.write addr data w).2 =
    (cbWrGw .ideal unit lits first last addr data (images w)).2
  ready : ∀ addr data w, ready w → ready (cb.write addr data w).2

section

variable {unit : CrcUnit} {lits : NameLiterals} {first last : Nat}

theorem cbWrGw_append {before : FlashDev} {content data : List UInt8} {s : Images}
    (h : FlashWritten before first content s.dev) (hfresh : Fresh before first (last - first))
    (hlast : last < 2 ^ 32) (hne : data ≠ [])
    (hfits : content.length + data.length ≤ last - first) :
    (cbWrGw .ideal unit lits first last content.length (some data) s).1 = 0 ∧
      FlashWritten before first (content ++ data)
        (cbWrGw .ideal unit lits first last content.length (some data) s).2.dev := by
  have hpos := List.length_pos_iff.mpr hne
  have hnotFinal : ¬ (content.length ≠ 0 ∧ ((some data).getD []).length = 0) := by
    simp only [Option.getD_some]
    omega
  have hsize : ¬ (content.length + ((some data).getD []).length) % 2 ^ 32 >
      last - first := by
    simp only [Option.getD_some]
    rw [Nat.mod_eq_of_lt (by omega)]
    omega
  obtain ⟨d', hwrite, hwritten⟩ := platformFlashWrite_ideal h data
    (fun a hlo hhi => hfresh a hlo (by omega))
  rw [cbWrGw_write hnotFinal hsize, Nat.mod_eq_of_lt (by omega)]
  simp only [Option.getD_some, hwrite]
  exact ⟨rfl, hwritten⟩

end

/-! ## Blocks of the file -/

section

variable {file : List UInt8} {n k : Nat}

theorem take_append_fileBlock :
    file.take (512 * n) ++ fileBlock file (n + 1) = file.take (512 * (n + 1)) := by
  rw [fileBlock, Nat.add_sub_cancel, Nat.mul_comm n, Nat.mul_succ, List.take_add]

theorem fileBlock_full (h₁ : 1 ≤ k) (h₂ : k < blockCount file) :
    (fileBlock file k).length = 512 := by
  have hdiv := Nat.div_add_mod file.length 512
  rw [fileBlock, List.length_take, List.length_drop]
  simp only [blockCount] at h₂
  omega

theorem fileBlock_last :
    (fileBlock file (blockCount file)).length < 512 := by
  have hmod := Nat.mod_lt file.length (show 0 < 512 by decide)
  have hdiv := Nat.div_add_mod file.length 512
  rw [fileBlock, List.length_take, List.length_drop, blockCount]
  omega

theorem take_blockCount : file.take (512 * blockCount file) = file := by
  have hmod := Nat.mod_lt file.length (show 0 < 512 by decide)
  have hdiv := Nat.div_add_mod file.length 512
  apply List.take_of_length_le
  rw [blockCount]
  omega

end

theorem ackPacket_inj {m n : Nat} (hm : m < 65536) (hn : n < 65536)
    (h : ackPacket m = ackPacket n) : m = n := by
  have hdata : dataPacket m [] = dataPacket n [] := by
    simp only [ackPacket, packetHeader, List.cons.injEq] at h
    simp only [dataPacket, packetHeader, h]
  exact (dataPacket_inj hm hn hdata).1

/-! ## One datagram of the transfer -/

/-- The packets that effects send, with their destination. -/
def sends (es : List Effect) : List (Peer × List UInt8) :=
  es.filterMap fun
    | .send dst packet => some (dst, packet)
    | _ => none

theorem mem_sends {es : List Effect} {dst : Peer} {packet : List UInt8} :
    (dst, packet) ∈ sends es ↔ .send dst packet ∈ es := by
  rw [sends, List.mem_filterMap]
  constructor
  · rintro ⟨e, he, hsome⟩
    cases e with
    | send dst' packet' =>
        obtain ⟨rfl, rfl⟩ := Prod.mk.inj (Option.some.inj hsome)
        exact he
    | write | read | useArgs | freeArgs | removePcb | freePbuf => cases hsome
  · exact fun h => ⟨_, h, rfl⟩

theorem wrqRecvCallback_trace {cb : TftpCb σ} {s : Session σ} {d : Datagram}
    (h : d.len = d.totLen) :
    (wrqRecvCallback cb s d).trace = s.trace ++ effects (wrqRecvCallback cb) s d := by
  rw [effects_eq h, wrqRecvCallback_eq h, finishEffects]
  by_cases hshort : d.len < tftpDataPktLenMax
  · rw [finishBlock_short hshort, if_pos hshort]
    simp
  · rw [finishBlock_long hshort, if_neg hshort]
    simp [Session.emit]

theorem sends_effects {cb : TftpCb σ} {s : Session σ} {d : Datagram} (h : d.len = d.totLen)
    (hok : NextData s d → (cb.write s.args.totBytes (some d.data) s.world).1 = 0) :
    sends (effects (wrqRecvCallback cb) s d) =
      [(d.source, ackPacket (acceptBlock cb d s).args.block)] := by
  have haccept : sends (acceptEffects cb s d) = [] := by
    unfold acceptEffects
    by_cases hnext : NextData s d
    · simp only [if_pos hnext, if_pos (hok hnext)]
      rfl
    · simp only [if_neg hnext]
      split_ifs <;> rfl
  have hfinish : ∀ t, sends (finishEffects cb t d) = [] := by
    intro t
    unfold finishEffects
    split_ifs <;> rfl
  have happend : ∀ es fs, sends (es ++ fs) = sends es ++ sends fs := fun es fs =>
    List.filterMap_append ..
  rw [effects_eq h, happend, happend, haccept, hfinish]
  rfl

/-! ## The invariant of a transfer -/

/-- The server has stored the blocks up to `block` and acknowledged no other; the
client has sent at most one more. -/
structure TransferInv (images : σ → Images) (ready : σ → Prop) (before : FlashDev)
    (first : Nat) (file : List UInt8) (t : Transfer σ) : Prop where
  ready : ready t.server.world
  sent : t.sent ≤ t.next
  next : t.next ≤ t.server.args.block + 1
  block : t.server.args.block ≤ blockCount file
  isOpen : t.server.isOpen = true ↔ t.server.args.block < blockCount file
  acks : ∀ dst packet, .send dst packet ∈ t.server.trace →
    ∃ m, m ≤ t.server.args.block ∧ packet = ackPacket m
  totBytes : t.server.args.totBytes = (file.take (512 * t.server.args.block)).length
  flash : FlashWritten before first (file.take (512 * t.server.args.block))
    (images t.server.world).dev
  final : finalCalls t.server.trace =
    if t.server.args.block < blockCount file then [] else [file.length]

section

variable {cb : TftpCb σ} {unit : CrcUnit} {lits : NameLiterals} {images : σ → Images}
  {ready : σ → Prop} {before : FlashDev} {first last : Nat} {file : List UInt8}
  {t : Transfer σ} {s : Session σ} {d : Datagram}

theorem wrqRecvCallback_dev (hw : WritesPartition cb unit lits images ready first last)
    (hready : ready s.world) (h : d.len = d.totLen) :
    ready (wrqRecvCallback cb s d).world ∧
      (images (wrqRecvCallback cb s d).world).dev =
        if NextData s d then (cbWrGw .ideal unit lits first last s.args.totBytes
          (some d.data) (images s.world)).2.dev
        else (images s.world).dev := by
  have haccept : ready (acceptBlock cb d s).world ∧
      (images (acceptBlock cb d s).world).dev =
        if NextData s d then (cbWrGw .ideal unit lits first last s.args.totBytes
          (some d.data) (images s.world)).2.dev
        else (images s.world).dev := by
    rw [acceptBlock_world]
    by_cases hnext : NextData s d
    · rw [if_pos hnext, if_pos hnext]
      exact ⟨hw.ready _ _ _ hready, congrArg Images.dev (hw.images _ _ _ hready)⟩
    · rw [if_neg hnext, if_neg hnext]
      exact ⟨hready, rfl⟩
  rw [wrqRecvCallback_world h]
  by_cases hshort : d.len < tftpDataPktLenMax
  · rw [if_pos hshort]
    refine ⟨hw.ready _ _ _ haccept.1, ?_⟩
    rw [hw.images _ _ _ haccept.1, cbWrGw_none_dev]
    exact haccept.2
  · rw [if_neg hshort]
    exact haccept

theorem TransferInv.accept (hw : WritesPartition cb unit lits images ready first last)
    (hinv : TransferInv images ready before first file t)
    (hfresh : Fresh before first (last - first)) (hlast : last < 2 ^ 32)
    (hfile : file.length ≤ last - first) (h : d.len = d.totLen)
    (hd : CarriesData file (t.server.args.block + 1) d) :
    (NextData t.server d →
        (cb.write t.server.args.totBytes (some d.data) t.server.world).1 = 0) ∧
      FlashWritten before first (file.take (512 * (t.server.args.block + 1)))
        (images (wrqRecvCallback cb t.server d).world).dev ∧
      (wrqRecvCallback cb t.server d).args.totBytes =
        (file.take (512 * (t.server.args.block + 1))).length := by
  obtain ⟨-, hnumber, hdata⟩ := hd.packet h
  have hlen := d.data_length
  have htake := @take_append_fileBlock file t.server.args.block
  have hdev := (wrqRecvCallback_dev hw hinv.ready h).2
  have hargs := args_eq h ▸ acceptBlock_args cb t.server d
  by_cases hnext : NextData t.server d
  · have hne : d.data ≠ [] := by
      apply List.ne_nil_of_length_pos
      have := hnext.1
      simp only [tftpDataPktHdrLen] at this
      omega
    have hbytes : (file.take (512 * t.server.args.block)).length + d.data.length ≤
        last - first := by
      rw [← List.length_append, hdata, htake]
      exact (List.length_take_le' _ _).trans hfile
    obtain ⟨hsts, hwritten⟩ := @cbWrGw_append unit lits first last before
      (file.take (512 * t.server.args.block)) d.data (images t.server.world) hinv.flash
      hfresh hlast hne hbytes
    rw [← hinv.totBytes] at hsts hwritten
    refine ⟨fun _ => (hw.sts _ _ _ hinv.ready).trans hsts, ?_, ?_⟩
    · rw [hdev, if_pos hnext, ← htake, ← hdata]
      exact hwritten
    · rw [hargs, ← htake, List.length_append, ← hdata]
      simp only [if_pos hnext, hinv.totBytes, hlen, tftpDataPktHdrLen]
      rw [Nat.mod_eq_of_lt (by omega)]
  · have hempty : fileBlock file (t.server.args.block + 1) = [] := by
      apply List.eq_nil_of_length_eq_zero
      have hshort : ¬ d.len > tftpDataPktHdrLen := fun hlong => hnext ⟨hlong, hnumber⟩
      simp only [tftpDataPktHdrLen] at hshort
      rw [← hdata, hlen]
      omega
    rw [hempty, List.append_nil] at htake
    refine ⟨fun hn => absurd hn hnext, ?_, ?_⟩
    · rw [hdev, if_neg hnext, ← htake]
      exact hinv.flash
    · rw [hargs, ← htake]
      simp only [if_neg hnext, hinv.totBytes]

theorem CarriesData.short_iff {k : Nat} (hd : CarriesData file k d) (h : d.len = d.totLen)
    (h₁ : 1 ≤ k) (h₂ : k ≤ blockCount file) :
    d.len < tftpDataPktLenMax ↔ ¬ k < blockCount file := by
  rw [h, hd.totLen]
  simp only [tftpDataPktHdrLen, tftpDataPktLenMax]
  rcases Nat.eq_or_lt_of_le h₂ with rfl | hlt
  · have hlen := @fileBlock_last file
    omega
  · rw [fileBlock_full h₁ hlt]
    simp [hlt]

theorem TransferInv.duplicate (hw : WritesPartition cb unit lits images ready first last)
    (hinv : TransferInv images ready before first file t) (hopen : t.server.isOpen = true)
    (h : d.len = d.totLen) {k : Nat} (h₁ : 1 ≤ k) (h₂ : k ≤ t.server.args.block)
    (hd : CarriesData file k d) :
    TransferInv images ready before first file
      { t with server := wrqRecvCallback cb t.server d } := by
  have hlt := hinv.isOpen.mp hopen
  have hmore := Nat.lt_of_le_of_lt h₂ hlt
  have hnumber := (hd.packet h).2.1
  have hother : tftpExtractBlock d.payload ≠ t.server.args.block + 1 := by omega
  have hnext : ¬ NextData t.server d := fun hn => hother hn.2
  have hlong : ¬ d.len < tftpDataPktLenMax := fun hshort =>
    (hd.short_iff h h₁ hmore.le).mp hshort hmore
  have hdev := wrqRecvCallback_dev (d := d) hw hinv.ready h
  rw [if_neg hnext] at hdev
  have hargs : (wrqRecvCallback cb t.server d).args = t.server.args := by
    rw [args_eq h, acceptBlock_args, if_neg hother, if_neg hnext]
  have hacceptOpen : (acceptBlock cb d t.server).isOpen = true := by
    rw [acceptBlock_isOpen, (calls_acceptEffects _ _ _).2.2, if_neg hnext]
    exact ⟨hopen, by simp⟩
  have htrace := @wrqRecvCallback_trace _ cb t.server d h
  have hsends := @sends_effects _ cb t.server d h fun hn => absurd hn hnext
  have hfinal := (@calls_effects _ cb t.server d h).2.1
  rw [if_neg hlong] at hfinal
  constructor
  · exact hdev.1
  · exact hinv.sent
  · simp only [hargs]
    exact hinv.next
  · simp only [hargs]
    exact hinv.block
  · simp only [hargs, isOpen_eq h, hacceptOpen, hlong, not_false_eq_true, decide_true,
      Bool.and_self, true_iff]
    exact hlt
  · intro dst packet hmem
    simp only [hargs]
    rw [htrace, List.mem_append] at hmem
    rcases hmem with hmem | hmem
    · exact hinv.acks dst packet hmem
    · rw [← mem_sends, hsends, List.mem_singleton, acceptBlock_block, if_neg hother] at hmem
      exact ⟨_, Nat.le_refl _, (Prod.mk.inj hmem).2⟩
  · simp only [hargs]
    exact hinv.totBytes
  · simp only [hargs, hdev.2]
    exact hinv.flash
  · simp only [hargs, htrace, finalCalls_append, hfinal, List.append_nil]
    exact hinv.final

theorem TransferInv.advance (hw : WritesPartition cb unit lits images ready first last)
    (hinv : TransferInv images ready before first file t)
    (hfresh : Fresh before first (last - first)) (hlast : last < 2 ^ 32)
    (hfile : file.length ≤ last - first) (hopen : t.server.isOpen = true)
    (h : d.len = d.totLen) (hd : CarriesData file (t.server.args.block + 1) d) :
    TransferInv images ready before first file
      { t with server := wrqRecvCallback cb t.server d } := by
  have hlt := hinv.isOpen.mp hopen
  obtain ⟨hok, hflash, htot⟩ := hinv.accept hw hfresh hlast hfile h hd
  have hnumber := (hd.packet h).2.1
  have hready := (wrqRecvCallback_dev (d := d) hw hinv.ready h).1
  have hblock : (wrqRecvCallback cb t.server d).args.block = t.server.args.block + 1 := by
    rw [args_eq h, acceptBlock_block, if_pos hnumber]
  have hacceptOpen : (acceptBlock cb d t.server).isOpen = true := by
    rw [acceptBlock_isOpen, (calls_acceptEffects _ _ _).2.2]
    refine ⟨hopen, fun sts hsts => ?_⟩
    by_cases hnext : NextData t.server d
    · rw [if_pos hnext, List.mem_singleton] at hsts
      rw [hsts, hok hnext]
    · rw [if_neg hnext] at hsts
      cases hsts
  have hshort := hd.short_iff h (Nat.succ_pos _) (Nat.succ_le_of_lt hlt)
  have htrace := @wrqRecvCallback_trace _ cb t.server d h
  have hsends := @sends_effects _ cb t.server d h hok
  have hfinal := (@calls_effects _ cb t.server d h).2.1
  rw [← args_eq h, htot] at hfinal
  constructor
  · exact hready
  · exact hinv.sent
  · have := hinv.next
    simp only [hblock]
    omega
  · simp only [hblock]
    omega
  · simp only [hblock, isOpen_eq h, hacceptOpen, Bool.true_and, decide_eq_true_eq, hshort,
      not_not]
  · intro dst packet hmem
    simp only [hblock]
    rw [htrace, List.mem_append] at hmem
    rcases hmem with hmem | hmem
    · obtain ⟨m, hm, hpacket⟩ := hinv.acks dst packet hmem
      exact ⟨m, by omega, hpacket⟩
    · rw [← mem_sends, hsends, List.mem_singleton, acceptBlock_block, if_pos hnumber] at hmem
      exact ⟨_, Nat.le_refl _, (Prod.mk.inj hmem).2⟩
  · simp only [hblock]
    exact htot
  · simp only [hblock]
    exact hflash
  · simp only [hblock, htrace, finalCalls_append, hinv.final, if_pos hlt, List.nil_append,
      hfinal, hshort]
    by_cases hmore : t.server.args.block + 1 < blockCount file
    · rw [if_neg (not_not.mpr hmore), if_pos hmore]
    · have heq : t.server.args.block + 1 = blockCount file := by omega
      rw [if_pos hmore, if_neg hmore, heq, take_blockCount]

theorem TransferInv.step (hw : WritesPartition cb unit lits images ready first last)
    (hinv : TransferInv images ready before first file t)
    (hfresh : Fresh before first (last - first)) (hlast : last < 2 ^ 32)
    (hfile : file.length ≤ last - first) (hsize : blockCount file + 1 < 65536)
    {t' : Transfer σ} (hstep : TransferStep cb file t t') :
    TransferInv images ready before first file t' := by
  cases hstep with
  | send =>
      exact { hinv with sent := Nat.le_refl _ }
  | data k d h₁ h₂ hd =>
      by_cases hopen : t.server.isOpen = true
      · rw [deliver_open hopen]
        by_cases h : d.len = d.totLen
        · have hsent := hinv.sent
          have hnext := hinv.next
          rcases Nat.lt_or_ge t.server.args.block k with hlt | hge
          · have hk : k = t.server.args.block + 1 := by omega
            rw [hk] at hd
            exact hinv.advance hw hfresh hlast hfile hopen h hd
          · exact hinv.duplicate hw hopen h h₁ hge hd
        · rw [wrqRecvCallback_dropped h]
          exact hinv
      · rw [deliver_closed hopen]
        exact hinv
  | ack dst hmem =>
      obtain ⟨m, hm, hpacket⟩ := hinv.acks dst _ hmem
      have hblock := hinv.block
      have hnext := hinv.next
      have heq := ackPacket_inj (by omega) (by omega) hpacket
      exact { hinv with
        sent := Nat.le_succ_of_le hinv.sent
        next := by
          change t.next + 1 ≤ t.server.args.block + 1
          omega }

/-- The invariant holds after every run of the client and the network. -/
theorem TransferInv.run (hw : WritesPartition cb unit lits images ready first last)
    (hinv : TransferInv images ready before first file t)
    (hfresh : Fresh before first (last - first)) (hlast : last < 2 ^ 32)
    (hfile : file.length ≤ last - first) (hsize : blockCount file + 1 < 65536)
    {t' : Transfer σ} (hrun : Relation.ReflTransGen (TransferStep cb file) t t') :
    TransferInv images ready before first file t' := by
  induction hrun with
  | refl => exact hinv
  | tail _ hstep ih => exact ih.step hw hfresh hlast hfile hsize hstep

end

/-! ## The two firmwares -/

theorem findSector_isSome {a : Nat} (h₁ : flashStart ≤ a) (h₂ : a < flashFinish) :
    ∃ i, findSector a = some i := by
  simp only [flashStart, flashFinish] at h₁ h₂
  rw [findSector_eq, if_neg (by omega)]
  split_ifs
  · exact ⟨_, rfl⟩
  · exact ⟨_, rfl⟩
  · exact ⟨_, rfl⟩

theorem fresh_reset (dev : FlashDev) {first n : Nat} (h₁ : flashStart ≤ first)
    (h₂ : first + n ≤ flashFinish) :
    Fresh (platformFlashEraseFlagReset dev) first n := by
  intro a hlo hhi
  obtain ⟨i, hi⟩ := findSector_isSome (a := a) (by omega) (by omega)
  exact ⟨i, hi, rfl⟩

/-- An image stored in a partition: what a complete transfer leaves behind. -/
structure ImageStored (before after : FlashDev) (first last : Nat) (file : List UInt8)
    (trace : List Effect) : Prop where
  content : readBytes after.mem first file.length = file
  blank : ∀ a i, findSector a = some i → Touched findSector first file.length i →
    (a < first ∨ first + file.length ≤ a) → after.mem a = 0xFF
  untouched : ∀ a i, findSector a = some i → ¬ Touched findSector first file.length i →
    after.mem a = before.mem a
  outside : ∀ a, (a < first ∨ last ≤ a) → after.mem a = before.mem a
  erasures : ∃ ops, after.ops = before.ops ++ ops ∧
    (∀ i, Touched findSector first file.length i → ops.count (.eraseSector i) = 1) ∧
    ∀ i, ¬ Touched findSector first file.length i → ops.count (.eraseSector i) = 0
  finalised : finalCalls trace = [file.length]

/-- Sectors do not cross the limits of a partition. -/
def Aligned (first last : Nat) : Prop :=
  ∀ a b i, findSector a = some i → findSector b = some i → first ≤ a → a < last →
    first ≤ b ∧ b < last

theorem ldr_aligned : Aligned ldrStart ldrEnd := by
  intro a b i ha hb h₁ h₂
  rw [findSector_eq] at ha hb
  simp only [ldrStart, ldrEnd] at h₁ h₂ ⊢
  rw [if_neg (by omega), if_pos (by omega)] at ha
  split_ifs at hb <;> grind

theorem app_aligned : Aligned appStart appEnd := by
  intro a b i ha hb h₁ h₂
  rw [findSector_eq] at ha hb
  simp only [appStart, appEnd] at h₁ h₂ ⊢
  rw [if_neg (by omega), if_neg (by omega), if_neg (by omega), if_pos (by omega)] at ha
  split_ifs at hb <;> grind

/-- A session that a request for a partition has opened. -/
structure Opened (ready : σ → Prop) (images : σ → Images) (before : FlashDev)
    (s : Session σ) : Prop where
  ready : ready s.world
  dev : (images s.world).dev = platformFlashEraseFlagReset before
  block : s.args.block = 0
  totBytes : s.args.totBytes = 0
  isOpen : s.isOpen = true
  trace : ∃ dst, s.trace = [.useArgs, .send dst (ackPacket 0)]

section

variable {cb : TftpCb σ} {unit : CrcUnit} {lits : NameLiterals} {images : σ → Images}
  {ready : σ → Prop} {before : FlashDev} {first last : Nat} {file : List UInt8}
  {s : Session σ} {t : Transfer σ}

theorem Opened.inv (h : Opened ready images before s) :
    TransferInv images ready (platformFlashEraseFlagReset before) first file
      (Transfer.start s) := by
  obtain ⟨dst, htrace⟩ := h.trace
  constructor
  · exact h.ready
  · exact Nat.le_refl 0
  · exact Nat.zero_le _
  · change s.args.block ≤ _
    rw [h.block]
    exact Nat.zero_le _
  · change s.isOpen = true ↔ s.args.block < _
    rw [h.isOpen, h.block]
    exact iff_of_true rfl (Nat.succ_pos _)
  · intro dst' packet hmem
    change _ ∈ s.trace at hmem
    rw [htrace] at hmem
    simp only [List.mem_cons, reduceCtorEq, Effect.send.injEq, List.not_mem_nil, or_false,
      false_or] at hmem
    exact ⟨0, Nat.zero_le _, hmem.2⟩
  · change s.args.totBytes = (file.take (512 * s.args.block)).length
    rw [h.totBytes, h.block]
    simp
  · change FlashWritten _ first (file.take (512 * s.args.block)) (images s.world).dev
    rw [h.block, h.dev]
    exact FlashWritten.nil _ first
  · change finalCalls s.trace = if s.args.block < blockCount file then [] else _
    rw [htrace, h.block, if_pos (show 0 < blockCount file from Nat.succ_pos _)]
    rfl

theorem Opened.stored (h : Opened ready images before s)
    (hw : WritesPartition cb unit lits images ready first last)
    (hfirst : flashStart ≤ first) (hlast : last ≤ flashFinish) (hle : first ≤ last)
    (haligned : Aligned first last) (hfile : file.length ≤ last - first)
    (hrun : Relation.ReflTransGen (TransferStep cb file) (Transfer.start s) t)
    (hdone : t.server.args.block = blockCount file) :
    ImageStored before (images t.server.world).dev first last file t.server.trace := by
  have hlimit : last ≤ 0x08080000 := hlast
  have hstart : 0x08000000 ≤ first := hfirst
  have hsize : blockCount file + 1 < 65536 := by
    rw [blockCount]
    omega
  have hfresh := fresh_reset before hfirst (n := last - first) (by omega)
  have hinv := h.inv.run hw hfresh (by omega) hfile hsize hrun
  have hflash := hinv.flash
  have hfinal := hinv.final
  rw [hdone, take_blockCount] at hflash
  rw [hdone, if_neg (Nat.lt_irrefl _)] at hfinal
  have hinside : ∀ i, Touched findSector first file.length i → ∀ a, findSector a = some i →
      first ≤ a ∧ a < last := by
    rintro i ⟨b, hlo, hhi, hb⟩ a ha
    exact haligned b a i hb ha hlo (by omega)
  constructor
  · exact hflash.mem.readBytes
  · exact hflash.mem.blank
  · intro a i ha htouched
    have hout : a < first ∨ first + file.length ≤ a := by
      by_contra hin
      exact htouched ⟨a, by omega, by omega, ha⟩
    refine hflash.mem.frame a (fun j hj => ?_) hout
    obtain rfl := Option.some.inj (ha.symm.trans hj)
    exact htouched
  · intro a hout
    refine hflash.mem.frame a (fun i hi htouched => ?_) (by omega)
    have := hinside i htouched a hi
    omega
  · obtain ⟨ops, hops, -, hone, hzero⟩ := hflash.ops
    exact ⟨ops, hops, hone, hzero⟩
  · exact hfinal

end

/-! ## A transfer that completes -/

/-- The DATA packet with a block of the file. -/
def dataDatagram (file : List UInt8) (k : Nat) : Datagram where
  source := ⟨0, 0⟩
  payload := fun i => (dataPacket k (fileBlock file k)).getD i 0
  len := 4 + (fileBlock file k).length
  totLen := 4 + (fileBlock file k).length
  len_le := Nat.le_refl _
  totLen_lt := by
    have hle := fileBlock_length_le file k
    omega

/-- The first blocks of the file, each of them twice. -/
def doubled (file : List UInt8) : Nat → List Datagram
  | 0 => []
  | k + 1 => doubled file k ++ [dataDatagram file (k + 1), dataDatagram file (k + 1)]

theorem dataDatagram_carries (file : List UInt8) {k : Nat} (hk : k < 65536) :
    CarriesData file k (dataDatagram file k) := by
  refine ⟨rfl, fun _ => ⟨rfl, ?_, ?_⟩⟩
  · change 256 * (UInt8.ofNat (k / 256)).toNat + (UInt8.ofNat k).toNat = k
    rw [UInt8.toNat_ofNat', UInt8.toNat_ofNat']
    omega
  · apply List.ext_getElem
    · rw [Datagram.data, List.length_map, List.length_range]
      exact Nat.add_sub_cancel_left _ _
    · intro i hi hi'
      simp only [Datagram.data, List.getElem_map, List.getElem_range]
      change (dataPacket k (fileBlock file k)).getD (4 + i) 0 = _
      rw [dataPacket, List.getD_append_right _ _ _ _ (Nat.le_add_right 4 i)]
      change (fileBlock file k).getD (4 + i - 4) 0 = _
      rw [Nat.add_sub_cancel_left, List.getD_eq_getElem _ _ hi']

section

variable {cb : TftpCb σ} {unit : CrcUnit} {lits : NameLiterals} {images : σ → Images}
  {ready : σ → Prop} {before : FlashDev} {first last : Nat} {file : List UInt8}
  {s : Session σ} {t : Transfer σ} {d : Datagram}

theorem TransferInv.answers (hw : WritesPartition cb unit lits images ready first last)
    (hinv : TransferInv images ready before first file t)
    (hfresh : Fresh before first (last - first)) (hlast : last < 2 ^ 32)
    (hfile : file.length ≤ last - first) (hopen : t.server.isOpen = true)
    (h : d.len = d.totLen) (hd : CarriesData file (t.server.args.block + 1) d) :
    (deliver (wrqRecvCallback cb) t.server d).args.block = t.server.args.block + 1 ∧
      .send d.source (ackPacket (t.server.args.block + 1)) ∈
        (deliver (wrqRecvCallback cb) t.server d).trace := by
  have hok := (hinv.accept hw hfresh hlast hfile h hd).1
  have hblock : (acceptBlock cb d t.server).args.block = t.server.args.block + 1 := by
    rw [acceptBlock_block, if_pos (hd.packet h).2.1]
  rw [deliver_open hopen, args_eq h, wrqRecvCallback_trace h, List.mem_append, ← mem_sends,
    ← mem_sends, sends_effects h hok, hblock]
  exact ⟨rfl, .inr (List.mem_singleton_self _)⟩

theorem deliver_other (cb : TftpCb σ) {s : Session σ} (h : d.len = d.totLen)
    (hother : tftpExtractBlock d.payload ≠ s.args.block + 1) :
    (deliver (wrqRecvCallback cb) s d).args.block = s.args.block ∧
      ∀ e ∈ s.trace, e ∈ (deliver (wrqRecvCallback cb) s d).trace := by
  by_cases hopen : s.isOpen = true
  · rw [deliver_open hopen, args_eq h, acceptBlock_block, if_neg hother, wrqRecvCallback_trace h]
    exact ⟨rfl, fun e he => List.mem_append_left _ he⟩
  · rw [deliver_closed hopen]
    exact ⟨rfl, fun _ => id⟩

/-- Every file that fits can be transferred, here with each DATA packet delivered twice. -/
theorem Opened.completes (h : Opened ready images before s)
    (hw : WritesPartition cb unit lits images ready first last)
    (hfirst : flashStart ≤ first) (hlast : last ≤ flashFinish) (hle : first ≤ last)
    (hfile : file.length ≤ last - first) :
    ∃ t, Relation.ReflTransGen (TransferStep cb file) (Transfer.start s) t ∧
      t.server = runWrite cb s (doubled file (blockCount file)) ∧
      t.server.args.block = blockCount file := by
  have hlimit : last ≤ 0x08080000 := hlast
  have hstart : 0x08000000 ≤ first := hfirst
  have hsize : blockCount file + 1 < 65536 := by
    rw [blockCount]
    omega
  have hfresh := fresh_reset before hfirst (n := last - first) (by omega)
  have hreach : ∀ k ≤ blockCount file,
      Relation.ReflTransGen (TransferStep cb file) (Transfer.start s)
          ⟨runWrite cb s (doubled file k), k, k⟩ ∧
        (runWrite cb s (doubled file k)).args.block = k ∧
        ∃ dst, .send dst (ackPacket k) ∈ (runWrite cb s (doubled file k)).trace := by
    intro k hk
    induction k with
    | zero =>
        obtain ⟨dst, htrace⟩ := h.trace
        exact ⟨.refl, h.block, dst, by rw [doubled, runWrite, List.foldl_nil, htrace]; simp⟩
    | succ k ih =>
        obtain ⟨hrun, hblock, dst, hack⟩ := ih (by omega)
        have hinv := h.inv.run hw hfresh (by omega) hfile hsize hrun
        have hopen := hinv.isOpen.mpr (by rw [hblock]; omega)
        have hcarries := dataDatagram_carries file (k := k + 1) (by omega)
        have hnumber := (hcarries.packet rfl).2.1
        obtain ⟨hone, hanswer⟩ := hinv.answers hw hfresh (by omega) hfile hopen
          (d := dataDatagram file (k + 1)) rfl (by rw [hblock]; exact hcarries)
        rw [hblock] at hone hanswer
        obtain ⟨htwo, hkept⟩ := deliver_other cb (d := dataDatagram file (k + 1)) rfl
          (s := deliver (wrqRecvCallback cb) (runWrite cb s (doubled file k))
            (dataDatagram file (k + 1))) (by rw [hnumber, hone]; omega)
        have hserver : runWrite cb s (doubled file (k + 1)) =
            deliver (wrqRecvCallback cb) (deliver (wrqRecvCallback cb)
              (runWrite cb s (doubled file k)) (dataDatagram file (k + 1)))
              (dataDatagram file (k + 1)) := by
          rw [doubled, runWrite, List.foldl_append]
          rfl
        rw [hserver]
        refine ⟨?_, htwo.trans hone, _, hkept _ hanswer⟩
        refine (((hrun.tail (.ack _ dst hack)).tail (.send _ (Nat.succ_pos k) hk)).tail
          (.data _ (k + 1) _ (Nat.succ_pos k) (Nat.le_refl _) hcarries)).tail
          (.data _ (k + 1) _ (Nat.succ_pos k) (Nat.le_refl _) hcarries)
  obtain ⟨hrun, hblock, -⟩ := hreach _ (Nat.le_refl _)
  exact ⟨_, hrun, rfl, hblock⟩

end

/-! ## The uploads -/

section

variable {β : Type*} {bus : SdoBus β} {unit : CrcUnit} {lits : NameLiterals}
  {d : Datagram} {args : ConnectionArgs}

theorem appCb_writesPartition :
    WritesPartition (appCb bus .ideal unit lits) unit lits AppWorld.images
      (fun w => w.cbWrite = some .gwLdr) ldrStart ldrEnd := by
  constructor
  · intro addr data w hw
    simp only [appCb, hw]
    rfl
  · intro addr data w hw
    simp only [appCb, hw]
    rfl
  · intro addr data w hw
    simp only [appCb, hw]
    exact hw

theorem ldrCb_writesPartition :
    WritesPartition (ldrCb .ideal unit lits) unit lits LdrWorld.images
      (fun w => w.cbWrite = true) appStart appEnd := by
  constructor
  · intro addr data w hw
    simp only [ldrCb, if_pos hw]
    rfl
  · intro addr data w hw
    simp only [ldrCb, if_pos hw]
    rfl
  · intro addr data w hw
    simp only [ldrCb, if_pos hw]
    exact hw

theorem app_opened (w : AppWorld β) (hop : tftpDecodeOp d.payload = .wrq)
    (hname : tftpExtractFilename d.payload = literal "sh_gw_ldr") :
    Opened (fun w => w.cbWrite = some .gwLdr) AppWorld.images w.images.dev
      (requestSession (appFirmware bus .ideal unit lits) d (some args) w) := by
  have hsession : requestSession (appFirmware bus .ideal unit lits) d (some args) w =
      openWrite (some args) d.source
        { w with
          images := { w.images.checkAll unit lits with
            dev := platformFlashEraseFlagReset w.images.dev }
          cbWrite := some .gwLdr } := by
    simp only [requestSession, hop, hname, tftpProcessWrite, appFirmware,
      AppFiles.tftpServerCheckFile, and_self, if_true, Images.checkAll]
  rw [hsession]
  exact ⟨rfl, rfl, rfl, rfl, rfl, d.source, rfl⟩

theorem ldr_opened (w : LdrWorld) (hop : tftpDecodeOp d.payload = .wrq)
    (hname : tftpExtractFilename d.payload = literal "sh_gw_app") :
    Opened (fun w => w.cbWrite = true) LdrWorld.images w.images.dev
      (requestSession (ldrFirmware .ideal unit lits) d (some args) w) := by
  have hsession : requestSession (ldrFirmware .ideal unit lits) d (some args) w =
      openWrite (some args) d.source
        { w.setImages (w.images.checkAll unit lits) with
          store := { w.store with dev := platformFlashEraseFlagReset w.store.dev }
          cbWrite := true } := by
    simp only [requestSession, hop, hname, tftpProcessWrite, ldrFirmware,
      Ldr.tftpServerCheckFile, and_self, if_true, Images.checkAll, LdrWorld.setImages,
      LdrWorld.images]
  rw [hsession]
  exact ⟨rfl, rfl, rfl, rfl, rfl, d.source, rfl⟩

/-- However packets are lost and repeated, the loader written through the
application and the application written through the loader end up in their
partitions, and nothing else changes. -/
theorem gatewayWrite_stored (bus : SdoBus β) (unit : CrcUnit) (lits : NameLiterals)
    (file : List UInt8) (d : Datagram) (args : ConnectionArgs)
    (hop : tftpDecodeOp d.payload = .wrq) :
    (tftpExtractFilename d.payload = literal "sh_gw_ldr" →
      file.length ≤ ldrEnd - ldrStart → ∀ (w : AppWorld β) (t : Transfer (AppWorld β)),
      Relation.ReflTransGen (TransferStep (appCb bus .ideal unit lits) file)
        (Transfer.start
          (requestSession (appFirmware bus .ideal unit lits) d (some args) w)) t →
      t.server.args.block = blockCount file →
      ImageStored w.images.dev t.server.world.images.dev ldrStart ldrEnd file
        t.server.trace) ∧
    (tftpExtractFilename d.payload = literal "sh_gw_app" →
      file.length ≤ appEnd - appStart → ∀ (w : LdrWorld) (t : Transfer LdrWorld),
      Relation.ReflTransGen (TransferStep (ldrCb .ideal unit lits) file)
        (Transfer.start (requestSession (ldrFirmware .ideal unit lits) d (some args) w)) t →
      t.server.args.block = blockCount file →
      ImageStored w.images.dev t.server.world.images.dev appStart appEnd file
        t.server.trace) := by
  constructor
  · intro hname hfile w t hrun hdone
    exact (app_opened w hop hname).stored appCb_writesPartition (by decide) (by decide)
      (by decide) ldr_aligned hfile hrun hdone
  · intro hname hfile w t hrun hdone
    exact (ldr_opened w hop hname).stored ldrCb_writesPartition (by decide) (by decide)
      (by decide) app_aligned hfile hrun hdone

end

/-- Two blocks, the second one of a single byte. -/
def twoBlocks : List UInt8 := List.replicate 512 0x55 ++ [0xAA]

theorem twoBlocks_length : twoBlocks.length = 513 := by
  rw [twoBlocks, List.length_append, List.length_replicate]
  rfl

/-- The request of the loader, in an application that has just started. -/
def ldrRequested : Session (AppWorld Unit) :=
  requestSession (appFirmware silentBus .ideal .stm32 ⟨0, 0⟩) (sampleRequest 2 "sh_gw_ldr")
    (some ⟨[], 0, 0⟩) (appInit blankImages ())

/-- The blocks, each delivered twice. -/
def twoBlocksUploaded : Session (AppWorld Unit) :=
  runWrite (appCb silentBus .ideal .stm32 ⟨0, 0⟩) ldrRequested
    [dataDatagram twoBlocks 1, dataDatagram twoBlocks 1, dataDatagram twoBlocks 2,
      dataDatagram twoBlocks 2]

theorem gatewayWrite_stored_twoBlocks :
    ImageStored blankImages.dev twoBlocksUploaded.world.images.dev ldrStart ldrEnd twoBlocks
      twoBlocksUploaded.trace := by
  have hname : tftpExtractFilename (sampleRequest 2 "sh_gw_ldr").payload =
      literal "sh_gw_ldr" := by decide +kernel
  have hcount : blockCount twoBlocks = 2 := by rw [blockCount, twoBlocks_length]
  have hfile : twoBlocks.length ≤ ldrEnd - ldrStart := by
    rw [twoBlocks_length]
    decide
  obtain ⟨t, hrun, hserver, hdone⟩ := (app_opened (appInit blankImages ()) rfl hname).completes
    (@appCb_writesPartition _ silentBus .stm32 ⟨0, 0⟩) (by decide) (by decide) (by decide)
    hfile
  have hstored := (gatewayWrite_stored silentBus .stm32 ⟨0, 0⟩ twoBlocks _ ⟨[], 0, 0⟩ rfl).1
    hname hfile (appInit blankImages ()) t hrun hdone
  have huploaded : t.server = twoBlocksUploaded := by
    rw [hserver, hcount]
    rfl
  rw [huploaded] at hstored
  exact hstored

end ShGateway.GatewayWrite
