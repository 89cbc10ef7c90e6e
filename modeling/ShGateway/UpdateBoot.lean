import ShGateway.BootHandover
import ShGateway.GatewayWrite
import ShGateway.SignedImage

/-!
From the signer to the jump: a signed image that is uploaded over TFTP is the
one that the gateway starts.
-/

namespace ShGateway.UpdateBoot

open ShGateway.AppFiles
open ShGateway.BootHandover
open ShGateway.Crc
open ShGateway.FieldTable
open ShGateway.FwHeader
open ShGateway.FwVerdict
open ShGateway.GatewayFiles
open ShGateway.GatewayWrite
open ShGateway.Ldr
open ShGateway.Lib.ByteWords
open ShGateway.Lib.NorFlash
open ShGateway.Lib.StringTable
open ShGateway.Platform
open ShGateway.Preldr
open ShGateway.SdoFlasher
open ShGateway.Sign
open ShGateway.SignedImage
open ShGateway.TftpRead
open ShGateway.TftpServer
open ShGateway.TftpSessions
open ShGateway.TftpUtils
open ShGateway.TftpWrite

/-! ## Signed images in flash -/

/-- A file that the signer made for the partition of `t`, whose fields lie where
the device looks for them. -/
structure Release (t : FwType) (prod name input : List UInt8) (args : List Argument)
    (out : List UInt8) : Prop where
  pattern : (input.drop fieldsOffset).take 16 = pattern
  signed : signMain (signLimit t) input args = .ok out
  limit : out.length ≤ signLimit t
  fits : input.length / 4 * 4 + 4 + tableLength args ≤ maxSize t.start
  prod : (argumentFields args).lookup (literal "prod") = some prod
  name : (argumentFields args).lookup (literal "prod_name") = some name

/-- Some release lies in the partition of `t`. -/
def Installed (m : Mem) (t : FwType) (prod name : List UInt8) : Prop :=
  ∃ input args out, Release t prod name input args out ∧ Flashed m t.start out

/-- Two flashes agree on the partition of `t`. -/
def AgreeOn (t : FwType) (m m' : Mem) : Prop :=
  ∀ a, t.start ≤ a → a < t.start + signLimit t → m' a = m a

section

variable {m m' : Mem} {t : FwType} {prod name input out : List UInt8} {args : List Argument}

theorem flashed_agree (h : Flashed m t.start out) (hlimit : out.length ≤ signLimit t)
    (hagree : AgreeOn t m m') : Flashed m' t.start out := by
  refine ⟨?_⟩
  rw [← h.stored, readBytes_length]
  apply readBytes_congr
  intro i hi
  exact hagree (t.start + i) (Nat.le_add_right _ _) (by omega)

theorem Installed.agree (h : Installed m t prod name) (hagree : AgreeOn t m m') :
    Installed m' t prod name := by
  rcases h with ⟨input, args, out, hrelease, hflashed⟩
  exact ⟨input, args, out, hrelease, flashed_agree hflashed hrelease.limit hagree⟩

theorem Release.regionOk (h : Release t prod name input args out)
    (hflash : Flashed m t.start out) : RegionOk .stm32 m t.start (argumentFields args) := by
  rcases signMain_ok h.signed with ⟨before, after, pad, hsigned⟩
  have hpos : 0 < tableLength args := Nat.succ_pos _
  have hpadded := alignContent_length input
  have hinput : fieldsOffset + 16 ≤ (alignContent input).length := by
    have hlen := congrArg List.length h.pattern
    rw [List.length_take, List.length_drop] at hlen
    have hpattern : Sign.pattern.length = 16 := rfl
    omega
  have hlower : flashStart ≤ t.start := (start_bounds t).2.1
  have hupper : t.start + out.length ≤ flashFinish := by
    have hlimit := h.limit
    cases t <;> simp only [signLimit, FwType.start, preldrStart, ldrStart, appStart,
      flashFinish] at hlimit ⊢ <;> omega
  have hlen : out.length < 2 ^ 32 := by
    rw [flashFinish] at hupper
    omega
  have hread := hsigned.headerRead hflash hlen hinput
  have hne : args ≠ [] := by
    rintro rfl
    exact absurd h.prod (by simp [argumentFields])
  have hfits := h.fits
  have htotal := hsigned.length.1
  refine ⟨?_, hlower, ?_, hread.fwCrc32.symm, ?_, ?_, ?_⟩
  · rw [hread.fwSize]
    change fieldsOffset + 16 < _
    omega
  · rw [hread.fwSize]
    exact hupper
  · apply hsigned.isFieldTable hread hne
    rw [hread.offset, hpadded]
    omega
  · rw [h.prod]
    rfl
  · rw [h.name]
    rfl

theorem Installed.bootable {pname : List UInt8} (hpreldr : Installed m .preldr prod pname)
    (h : Installed m t prod name) : Bootable .stm32 m t.start name := by
  rcases hpreldr with ⟨pinput, pargs, pout, hp, hpflash⟩
  rcases h with ⟨input, args, out, hr, hflash⟩
  refine ⟨argumentFields args, hr.regionOk hflash, hr.name, ?_⟩
  intro gs hgs
  rw [hgs.unique (hp.regionOk hpflash), hp.prod, hr.prod]

end

/-! ## The board -/

/-- The literals of an image lie in its partition. -/
structure NamesWithin (t : FwType) (lits : NameLiterals) : Prop where
  ldrName : t.start ≤ lits.ldrName ∧ lits.ldrName + 10 ≤ t.start + signLimit t
  appName : t.start ≤ lits.appName ∧ lits.appName + 10 ≤ t.start + signLimit t

theorem NamesStored.agree {m m' : Mem} {t : FwType} {lits : NameLiterals}
    (h : NamesStored m lits) (hwithin : NamesWithin t lits) (hagree : AgreeOn t m m') :
    NamesStored m' lits := by
  have hmove : ∀ a s, s.length = 9 → FlashString m a s → t.start ≤ a →
      a + 10 ≤ t.start + signLimit t → FlashString m' a s := by
    intro a s hlen hs hlower hupper
    refine ⟨?_, hs.ne_nul, hs.lower, hs.upper⟩
    have hstored : readBytes m a (s.length + 1) = s ++ [0] := hs.stored
    change readBytes m' a (s.length + 1) = s ++ [0]
    rw [← hstored]
    apply readBytes_congr
    intro i hi
    exact hagree (a + i) (by omega) (by omega)
  exact ⟨hmove _ _ rfl h.ldrName hwithin.ldrName.1 hwithin.ldrName.2,
    hmove _ _ rfl h.appName hwithin.appName.1 hwithin.appName.2⟩

/-- An image of the boot chain: a release with the literals that its code
compares names with. -/
structure Stage (m : Mem) (t : FwType) (prod name : List UInt8) (lits : NameLiterals) :
    Prop where
  installed : Installed m t prod name
  stored : NamesStored m lits
  within : NamesWithin t lits

theorem Stage.agree {m m' : Mem} {t : FwType} {prod name : List UInt8} {lits : NameLiterals}
    (h : Stage m t prod name lits) (hagree : AgreeOn t m m') : Stage m' t prod name lits :=
  ⟨h.installed.agree hagree, NamesStored.agree h.stored h.within hagree, h.within⟩

/-- A board with a pre-loader and a loader of one product. -/
structure Board (m : Mem) (prod pname : List UInt8) (preldrLits ldrLits : NameLiterals) :
    Prop where
  preldr : Stage m .preldr prod pname preldrLits
  ldr : Stage m .ldr prod (literal "sh_gw_ldr") ldrLits

/-! ## Idle turns of the loader -/

section

variable {hw : FlashHw} {unit : CrcUnit} {lits : NameLiterals} {m : Mem}

/-- A loader that waits to hand over: nothing was received, and the application
is bootable. -/
structure Waiting (s : LdrState) : Prop where
  stayInBoot : s.stayInBoot = false
  locked : s.server.world.infos.app.locked = .none
  reset : s.reset = none ∨ s.reset = some .bootDelay

theorem Waiting.turn {s : LdrState} (h : Waiting s) (diffMs : Nat) :
    Waiting (ldrTurn hw unit lits s ⟨diffMs, []⟩) ∧
      ((ldrTurn hw unit lits s ⟨diffMs, []⟩).bootDelay ≤ s.bootDelay - diffMs ∨
        (ldrTurn hw unit lits s ⟨diffMs, []⟩).reset = some .bootDelay) := by
  rcases h.reset with hnone | hdone
  · by_cases hzero : s.bootDelay = 0
    · rw [ldrTurn, if_neg (by simp [hnone]), if_pos ⟨hzero, h.stayInBoot, h.locked⟩]
      exact ⟨⟨h.stayInBoot, h.locked, .inr rfl⟩, .inr rfl⟩
    · rw [ldrTurn, if_neg (by simp [hnone]), if_neg fun hall => hzero hall.1]
      exact ⟨⟨h.stayInBoot, h.locked, .inl hnone⟩, .inl (Nat.le_refl _)⟩
  · rw [ldrTurn, if_pos (by simp [hdone])]
    exact ⟨h, .inr hdone⟩

theorem ldrTurn_reset {s : LdrState} (h : s.reset = some .bootDelay) (turn : Turn) :
    ldrTurn hw unit lits s turn = s := by
  rw [ldrTurn, if_pos (by simp [h])]

theorem ldrTurns_reset {s : LdrState} (h : s.reset = some .bootDelay) (turns : List Turn) :
    turns.foldl (ldrTurn hw unit lits) s = s := by
  induction turns with
  | nil => rfl
  | cons turn turns ih => rw [List.foldl_cons, ldrTurn_reset h, ih]

theorem Waiting.turns {s : LdrState} (h : Waiting s) (delays : List Nat) :
    let t := (delays.map fun d => (⟨d, []⟩ : Turn)).foldl (ldrTurn hw unit lits) s
    Waiting t ∧ (t.bootDelay ≤ s.bootDelay - delays.sum ∨ t.reset = some .bootDelay) := by
  induction delays generalizing s with
  | nil => exact ⟨h, .inl (Nat.le_refl _)⟩
  | cons d delays ih =>
      rw [List.map_cons, List.foldl_cons, List.sum_cons]
      rcases h.turn d with ⟨hnext, hstep⟩
      rcases ih hnext with ⟨hlast, hrest⟩
      refine ⟨hlast, ?_⟩
      rcases hstep with hdelay | hreset
      · exact hrest.imp_left fun hle => by omega
      · right
        rw [ldrTurns_reset hreset]
        exact hreset

theorem ldrInit_waiting (hlits : NamesStored m lits)
    (h : Bootable unit m appStart (literal "sh_gw_app")) : Waiting (ldrInit unit lits m) :=
  ⟨rfl, (fwHeaderCheckAll_app_iff hlits {}).mpr h, .inl rfl⟩

/-- Without packets the loader resets itself in the first turn after the boot
delay. -/
theorem ldrRun_idle (hlits : NamesStored m lits)
    (h : Bootable unit m appStart (literal "sh_gw_app")) (delays : List Nat)
    (hsum : bootDelayInit ≤ delays.sum) (turn : Turn) :
    (ldrRun hw unit lits m (delays.map (fun d => ⟨d, []⟩) ++ [turn])).reset =
      some .bootDelay := by
  have hstart := ldrInit_waiting hlits h
  rcases @Waiting.turns hw unit lits _ hstart delays with ⟨hlast, hdelay⟩
  rw [ldrRun, List.foldl_append, List.foldl_cons, List.foldl_nil]
  generalize (delays.map fun d => (⟨d, []⟩ : Turn)).foldl (ldrTurn hw unit lits)
    (ldrInit unit lits m) = s at hlast hdelay
  rcases hlast.reset with hnone | hdone
  · have hzero : s.bootDelay = 0 := by
      rcases hdelay with hle | hreset
      · have hinit : (ldrInit unit lits m).bootDelay = bootDelayInit := rfl
        omega
      · rw [hnone] at hreset
        cases hreset
    rw [ldrTurn, if_neg (by simp [hnone]), if_pos ⟨hzero, hlast.stayInBoot, hlast.locked⟩]
  · rw [ldrTurn_reset hdone]
    exact hdone

end

/-! ## An upload -/

section

variable {before after : FlashDev} {file : List UInt8} {trace : List Effect} {m : Mem}
  {prod pname name : List UInt8} {preldrLits ldrLits : NameLiterals}

theorem ImageStored.agree {first last : Nat}
    (h : ImageStored before after first last file trace) {t : FwType}
    (ht : t.start + signLimit t ≤ first ∨ last ≤ t.start) :
    AgreeOn t before.mem after.mem :=
  fun a hlower hupper => h.outside a (by omega)

/-- What the gateway does from a power-up on if nothing is sent to it. -/
structure BootsApp (m : Mem) (preldrLits ldrLits : NameLiterals) : Prop where
  powerUp : preldrMain .stm32 preldrLits m loadSrcNone = (some ldrStart, loadSrcNone)
  handOver : ∀ (hw : FlashHw) (delays : List Nat), bootDelayInit ≤ delays.sum →
    ∀ turn, let s := ldrRun hw .stm32 ldrLits m (delays.map (fun d => ⟨d, []⟩) ++ [turn])
      s.reset = some .bootDelay ∧
        preldrMain .stm32 preldrLits s.server.world.store.dev.mem s.loadSrc =
          (some appStart, loadSrcNone)

theorem preldrMain_ldr (hlits : NamesStored m preldrLits)
    (h : Bootable .stm32 m ldrStart (literal "sh_gw_ldr")) :
    preldrMain .stm32 preldrLits m loadSrcNone = (some ldrStart, loadSrcNone) := by
  have hldr := (fwHeaderCheckAll_ldr_iff hlits {}).mpr h
  rw [preldrMain, if_neg fun hboth => absurd hboth.1 (by decide)]
  exact if_pos hldr

theorem Board.bootsApp (h : Board m prod pname preldrLits ldrLits)
    (happ : Installed m .app prod (literal "sh_gw_app")) :
    BootsApp m preldrLits ldrLits := by
  have hldr := h.preldr.installed.bootable h.ldr.installed
  have hbootable := h.preldr.installed.bootable happ
  refine ⟨preldrMain_ldr h.preldr.stored hldr, ?_⟩
  intro hw delays hsum turn s
  have hreset := @ldrRun_idle hw .stm32 _ _ h.ldr.stored hbootable delays hsum turn
  have hinv := @ldrRun_inv hw .stm32 _ _ h.ldr.stored
    (delays.map (fun d => ⟨d, []⟩) ++ [turn])
  have hflash : s.server.world.store.dev.mem = m := (hinv.reset hreset).1.mem
  refine ⟨hreset, ?_⟩
  rw [hflash, hinv.loadSrc]
  exact preldrMain_of_bootloader h.preldr.stored hbootable

end

section

variable {β : Type*}

/-- Whatever the network loses and repeats: a release of the loader uploaded to
the application, and a release of the application uploaded to the loader, lie in
their partitions, nothing else has changed, and they are what the gateway starts
from then on. -/
theorem update_boots (bus : SdoBus β) (lits : NameLiterals)
    {prod pname input file : List UInt8} {fields : List Argument}
    {preldrLits ldrLits : NameLiterals} {d : Datagram} (args : ConnectionArgs)
    (hop : tftpDecodeOp d.payload = .wrq) :
    (tftpExtractFilename d.payload = literal "sh_gw_ldr" →
      Release .ldr prod (literal "sh_gw_ldr") input fields file →
      (∀ m, Flashed m ldrStart file → NamesStored m ldrLits) → NamesWithin .ldr ldrLits →
      ∀ (w : AppWorld β) (t : Transfer (AppWorld β)),
      Stage w.images.dev.mem .preldr prod pname preldrLits →
      Relation.ReflTransGen (TransferStep (appCb bus .ideal .stm32 lits) file)
        (Transfer.start
          (requestSession (appFirmware bus .ideal .stm32 lits) d (some args) w)) t →
      t.server.args.block = blockCount file →
      ImageStored w.images.dev t.server.world.images.dev ldrStart ldrEnd file t.server.trace ∧
        Board t.server.world.images.dev.mem prod pname preldrLits ldrLits ∧
        preldrMain .stm32 preldrLits t.server.world.images.dev.mem loadSrcNone =
          (some ldrStart, loadSrcNone) ∧
        (Installed w.images.dev.mem .app prod (literal "sh_gw_app") →
          BootsApp t.server.world.images.dev.mem preldrLits ldrLits)) ∧
    (tftpExtractFilename d.payload = literal "sh_gw_app" →
      Release .app prod (literal "sh_gw_app") input fields file →
      ∀ (w : LdrWorld) (t : Transfer LdrWorld),
      Board w.images.dev.mem prod pname preldrLits ldrLits →
      Relation.ReflTransGen (TransferStep (ldrCb .ideal .stm32 lits) file)
        (Transfer.start
          (requestSession (ldrFirmware .ideal .stm32 lits) d (some args) w)) t →
      t.server.args.block = blockCount file →
      ImageStored w.images.dev t.server.world.images.dev appStart appEnd file t.server.trace ∧
        Board t.server.world.images.dev.mem prod pname preldrLits ldrLits ∧
        BootsApp t.server.world.images.dev.mem preldrLits ldrLits) := by
  constructor
  · intro hname hrelease hnames hwithin w t hpreldr hrun hdone
    have hstored := (@app_opened _ bus .stm32 lits d args w hop hname).stored
      appCb_writesPartition (by decide) (by decide) (by decide) ldr_aligned hrelease.limit
      hrun hdone
    have hpart := hpreldr.agree (ImageStored.agree hstored (.inl (by decide)))
    have hflashed : Flashed t.server.world.images.dev.mem ldrStart file := ⟨hstored.content⟩
    have hinstalled : Installed t.server.world.images.dev.mem .ldr prod
        (literal "sh_gw_ldr") := ⟨input, fields, file, hrelease, hflashed⟩
    have hboard : Board t.server.world.images.dev.mem prod pname preldrLits ldrLits :=
      ⟨hpart, hinstalled, hnames _ hflashed, hwithin⟩
    refine ⟨hstored, hboard, ?_, ?_⟩
    · exact preldrMain_ldr hpart.stored (hpart.installed.bootable hinstalled)
    · intro happ
      exact hboard.bootsApp (happ.agree (ImageStored.agree hstored (.inr (by decide))))
  · intro hname hrelease w t hboard hrun hdone
    have hstored := (@ldr_opened .stm32 lits d args w hop hname).stored
      ldrCb_writesPartition (by decide) (by decide) (by decide) app_aligned hrelease.limit
      hrun hdone
    have hboard' : Board t.server.world.images.dev.mem prod pname preldrLits ldrLits :=
      ⟨hboard.preldr.agree (ImageStored.agree hstored (.inl (by decide))),
        hboard.ldr.agree (ImageStored.agree hstored (.inl (by decide)))⟩
    exact ⟨hstored, hboard', hboard'.bootsApp ⟨input, fields, file, hrelease, ⟨hstored.content⟩⟩⟩

end

/-! ## A board with small images -/

theorem prodField_ne_nul : ∀ b ∈ literal "prod=gw", b ≠ 0 := by decide +kernel

theorem nameField_ne_nul (t : FwType) : ∀ b ∈ literal "prod_name=" ++ gwRdName t, b ≠ 0 := by
  cases t <;> decide +kernel

def sampleFields (t : FwType) : List Argument :=
  [⟨literal "prod=gw", prodField_ne_nul⟩,
    ⟨literal "prod_name=" ++ gwRdName t, nameField_ne_nul t⟩]

theorem sampleFields_append (t : FwType) (content : List UInt8) :
    (sampleFields t).foldlM appendField content =
      .ok (content ++ (strings (argumentFields (sampleFields t))).flatMap (· ++ [0])) := by
  cases t <;>
  · change Except.ok _ = Except.ok _
    rw [List.append_assoc]
    rfl

theorem exists_sample (t : FwType) : ∃ out,
    Release t (literal "gw") (gwRdName t) (sampleInput 0) (sampleFields t) out ∧
      out.length < 512 ∧ out.take sampleCode.length = sampleCode := by
  have hpattern := sampleInput_pattern 0 []
  rw [List.append_nil] at hpattern
  have hpadded := alignContent_length (sampleInput 0)
  rw [sampleInput_length] at hpadded
  have hcontent := sampleFields_append t (alignContent (sampleInput 0))
  have halign := alignContent_length (alignContent (sampleInput 0) ++
    (strings (argumentFields (sampleFields t))).flatMap (· ++ [0]))
  have hsmall : (alignContent (sampleInput 0) ++
      (strings (argumentFields (sampleFields t))).flatMap (· ++ [0])).length ≤ 451 := by
    rw [List.length_append, hpadded]
    cases t <;> decide +kernel
  have hlimit : 4096 ≤ signLimit t := by cases t <;> decide
  obtain ⟨out, hout, hlen⟩ := @signMain_succeeds (signLimit t) _ _ _ hpattern hcontent
    (by omega) (by omega)
  rcases signMain_ok hout with ⟨before, after, pad, hsigned⟩
  have hbefore : before = sampleCode := by
    have hstart := hsigned.content
    rw [alignContent_eq, sampleInput, List.append_assoc, List.append_assoc] at hstart
    exact (List.append_inj hstart (hsigned.before_length.trans sampleCode_length.symm)).1
  refine ⟨out, ⟨hpattern, hout, by omega, ?_, ?_, ?_⟩, by omega, ?_⟩
  · rw [sampleInput_length]
    cases t <;> decide +kernel
  · cases t <;> decide +kernel
  · cases t <;> decide +kernel
  · rw [hsigned.out_eq, hbefore, List.take_left]

/-- The names in an image with the sample code. -/
def sampleLits (t : FwType) : NameLiterals := ⟨t.start, t.start + 10⟩

theorem sampleLits_within (t : FwType) : NamesWithin t (sampleLits t) := by
  have hlimit : 4096 ≤ signLimit t := by cases t <;> decide
  constructor
  · exact ⟨Nat.le_refl _, by change t.start + 10 ≤ _; omega⟩
  · exact ⟨Nat.le_add_right _ _, by change t.start + 10 + 10 ≤ _; omega⟩

theorem sampleLits_stored {t : FwType} {out : List UInt8} {m : Mem}
    (hout : out.take sampleCode.length = sampleCode) (h : Flashed m t.start out) :
    NamesStored m (sampleLits t) := by
  have hlower : flashStart ≤ t.start := (start_bounds t).2.1
  have hupper := (start_bounds t).2.2
  have hmax : 100 ≤ maxSize t.start := by cases t <;> decide
  have hstored := h.stored
  rw [← List.take_append_drop sampleCode.length out, hout] at hstored
  have hread := (readBytes_append_iff.mp hstored).1
  exact namesStored_of_read (readBytes_append_iff.mp hread).1 hlower (by omega)

/-- A flash with a file at the start of the pre-loader and one at the start of the
loader. -/
def boardMem (preldr ldr : List UInt8) : Mem := fun a =>
  if a < ldrStart then flashOf preldrStart preldr a else flashOf ldrStart ldr a

theorem boardMem_flashed {preldr ldr : List UInt8} (h : preldr.length < 512) :
    Flashed (boardMem preldr ldr) preldrStart preldr ∧
      Flashed (boardMem preldr ldr) ldrStart ldr := by
  have hpreldr : readBytes (boardMem preldr ldr) preldrStart preldr.length =
      readBytes (flashOf preldrStart preldr) preldrStart preldr.length := by
    refine readBytes_congr fun i hi => if_pos ?_
    simp only [preldrStart, ldrStart]
    omega
  have hldr : readBytes (boardMem preldr ldr) ldrStart ldr.length =
      readBytes (flashOf ldrStart ldr) ldrStart ldr.length :=
    readBytes_congr fun i hi => if_neg (by omega)
  exact ⟨⟨hpreldr.trans (flashOf_flashed _ _).stored⟩,
    ⟨hldr.trans (flashOf_flashed _ _).stored⟩⟩

theorem exists_board : ∃ m,
    Board m (literal "gw") (literal "sh_gw_preldr") (sampleLits .preldr) (sampleLits .ldr) := by
  obtain ⟨preldr, hpreldr, hplen, hpcode⟩ := exists_sample .preldr
  obtain ⟨ldr, hldr, -, hlcode⟩ := exists_sample .ldr
  obtain ⟨hpflash, hlflash⟩ := @boardMem_flashed preldr ldr hplen
  refine ⟨boardMem preldr ldr, ⟨⟨_, _, _, hpreldr, hpflash⟩, ?_, sampleLits_within _⟩,
    ⟨⟨_, _, _, hldr, hlflash⟩, ?_, sampleLits_within _⟩⟩
  · exact sampleLits_stored hpcode hpflash
  · exact sampleLits_stored hlcode hlflash

/-- On that board a new loader is uploaded by the application, and an application
by the loader. -/
theorem update_boots_sample :
    (∃ m file, Flashed m ldrStart file ∧
      preldrMain .stm32 (sampleLits .preldr) m loadSrcNone = (some ldrStart, loadSrcNone)) ∧
    ∃ m file, Flashed m appStart file ∧ BootsApp m (sampleLits .preldr) (sampleLits .ldr) := by
  obtain ⟨m, hboard⟩ := exists_board
  constructor
  · obtain ⟨file, hrelease, hlen, hcode⟩ := exists_sample .ldr
    have hname : tftpExtractFilename (sampleRequest 2 "sh_gw_ldr").payload =
        literal "sh_gw_ldr" := by decide +kernel
    let w : AppWorld Unit := appInit ⟨⟨m, fun _ => false, []⟩, {}⟩ ()
    obtain ⟨t, hrun, -, hdone⟩ := (app_opened w rfl hname).completes
      (@appCb_writesPartition _ silentBus .stm32 ⟨0, 0⟩) (by decide) (by decide) (by decide)
      (hlen.le.trans (by decide))
    obtain ⟨hstored, -, hboots, -⟩ := (update_boots silentBus ⟨0, 0⟩ ⟨[], 0, 0⟩ rfl).1 hname
      hrelease (fun _ h => @sampleLits_stored .ldr _ _ hcode h) (sampleLits_within .ldr) w t
      hboard.preldr hrun hdone
    exact ⟨_, file, ⟨hstored.content⟩, hboots⟩
  · obtain ⟨file, hrelease, hlen, hcode⟩ := exists_sample .app
    have hname : tftpExtractFilename (sampleRequest 2 "sh_gw_app").payload =
        literal "sh_gw_app" := by decide +kernel
    let w : LdrWorld := ⟨{ dev := ⟨m, fun _ => false, []⟩, table := [] }, {}, false, none⟩
    obtain ⟨t, hrun, -, hdone⟩ := (ldr_opened w rfl hname).completes
      (@ldrCb_writesPartition .stm32 ⟨0, 0⟩) (by decide) (by decide) (by decide)
      (hlen.le.trans (by decide))
    obtain ⟨hstored, -, hboots⟩ := (update_boots silentBus ⟨0, 0⟩ ⟨[], 0, 0⟩ rfl).2 hname
      hrelease w t hboard hrun hdone
    exact ⟨_, file, ⟨hstored.content⟩, hboots⟩

end ShGateway.UpdateBoot
