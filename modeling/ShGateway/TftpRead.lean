import ShGateway.Lib.Runs
import ShGateway.TftpServer

namespace ShGateway.TftpRead

open ShGateway.Lib.Runs
open ShGateway.TftpServer
open ShGateway.TftpUtils

variable {σ : Type*}

/-! ## One datagram -/

/-- What `tftp_rd_send_next_block` adds to the trace. -/
def nextEffects (cb : TftpCb σ) (dst : Peer) (s : Session σ) : List Effect :=
  let (sts, data, _) := cb.read s.args.totBytes s.args.data s.world
  if sts = 0 then
    [.useArgs, .read s.args.totBytes 0 data, .useArgs,
      .send dst (dataPacket s.args.block data)]
  else
    [.useArgs, .read s.args.totBytes sts data,
      .send dst (errorPacket tftpErrIllegalop), .freeArgs, .removePcb, .useArgs,
      .send dst (dataPacket s.args.block data)]

/-- The args after `tftp_rd_send_next_block`. -/
def nextArgs (cb : TftpCb σ) (s : Session σ) : ConnectionArgs :=
  let (_, data, _) := cb.read s.args.totBytes s.args.data s.world
  { s.args with data, totBytes := (s.args.totBytes + data.length) % 2 ^ 32 }

theorem tftpRdSendNextBlock_eq (cb : TftpCb σ) (dst : Peer) (s : Session σ) :
    tftpRdSendNextBlock cb dst s = {
      world := (cb.read s.args.totBytes s.args.data s.world).2.2
      args := nextArgs cb s
      isOpen := s.isOpen && decide ((cb.read s.args.totBytes s.args.data s.world).1 = 0)
      trace := s.trace ++ nextEffects cb dst s } := by
  unfold tftpRdSendNextBlock nextEffects nextArgs
  rcases cb.read s.args.totBytes s.args.data s.world with ⟨sts, data, world⟩
  by_cases hsts : sts = 0
  · simp [hsts, Session.emit]
  · simp [hsts, Session.emit, tftpCleanup]

/-- The block number after a datagram. -/
def nextBlock (s : Session σ) (d : Datagram) : Nat :=
  if tftpIsCorrectAck d.payload s.args.block then s.args.block + 1 else s.args.block

/-- The session when `rrq_recv_callback` has looked at the ACK. -/
def acked (s : Session σ) (d : Datagram) : Session σ :=
  { s with args := { s.args with block := nextBlock s d } }

/-- What `rrq_recv_callback` adds to the trace. -/
def rrqEffects (cb : TftpCb σ) (s : Session σ) (d : Datagram) : List Effect :=
  (if tftpIsCorrectAck d.payload s.args.block then [.useArgs, .useArgs, .useArgs]
    else [.useArgs, .useArgs]) ++
    (if s.args.data.length < tftpDataLenMax then [.freeArgs, .removePcb, .freePbuf]
      else []) ++
    nextEffects cb d.source (acked s d) ++ [.freePbuf]

theorem rrqRecvCallback_eq (cb : TftpCb σ) (s : Session σ) (d : Datagram) :
    rrqRecvCallback cb s d = {
      world := (cb.read s.args.totBytes s.args.data s.world).2.2
      args := nextArgs cb (acked s d)
      isOpen := s.isOpen && decide (¬ s.args.data.length < tftpDataLenMax) &&
        decide ((cb.read s.args.totBytes s.args.data s.world).1 = 0)
      trace := s.trace ++ rrqEffects cb s d } := by
  simp only [rrqRecvCallback, tftpRdSendNextBlock_eq]
  by_cases hack : tftpIsCorrectAck d.payload s.args.block = true
  · by_cases hshort : s.args.data.length < tftpDataLenMax
    · simp [hack, hshort, rrqEffects, acked, nextBlock, Session.emit, tftpCleanup,
        nextEffects, nextArgs]
    · simp [hack, hshort, rrqEffects, acked, nextBlock, Session.emit, nextEffects, nextArgs]
  · by_cases hshort : s.args.data.length < tftpDataLenMax
    · simp [hack, hshort, rrqEffects, acked, nextBlock, Session.emit, tftpCleanup,
        nextEffects, nextArgs]
    · simp [hack, hshort, rrqEffects, acked, nextBlock, Session.emit, nextEffects, nextArgs]

theorem effects_eq (cb : TftpCb σ) (s : Session σ) (d : Datagram) :
    effects (rrqRecvCallback cb) s d = rrqEffects cb s d := by
  rw [effects, rrqRecvCallback_eq, List.drop_left]

theorem tftpRdSendNextBlock_congr {cb cb' : TftpCb σ} {s : Session σ}
    (h : ∀ addr data, cb.read addr data s.world = cb'.read addr data s.world)
    (dst : Peer) : tftpRdSendNextBlock cb dst s = tftpRdSendNextBlock cb' dst s := by
  simp only [tftpRdSendNextBlock_eq, nextArgs, nextEffects, h]

/-- Only the calls at the session's own state count. -/
theorem rrqRecvCallback_congr {cb cb' : TftpCb σ} {s : Session σ}
    (h : ∀ addr data, cb.read addr data s.world = cb'.read addr data s.world)
    (d : Datagram) : rrqRecvCallback cb s d = rrqRecvCallback cb' s d := by
  simp only [rrqRecvCallback_eq, nextArgs, rrqEffects, nextEffects, acked, h]
  rfl

section Run

variable (cb : TftpCb σ) (heap : ConnectionArgs) (dst : Peer) (world : σ)

/-- The read session after the datagrams `ds`. -/
def readRun (ds : List Datagram) : Session σ :=
  runRead cb (openRead cb (some heap) dst world) ds

theorem readRun_snoc (ds : List Datagram) (d : Datagram) :
    readRun cb heap dst world (ds ++ [d]) =
      deliver (rrqRecvCallback cb) (readRun cb heap dst world ds) d :=
  runRead_snoc cb _ ds d

/-- The session before its first block is read. -/
def started : Session σ where
  world := world
  args := { heap with block := 1, totBytes := 0 }
  isOpen := true
  trace := [.useArgs]

theorem readRun_nil :
    readRun cb heap dst world [] = tftpRdSendNextBlock cb dst (started heap world) := rfl

end Run

/-! ## Freed memory -/

/-- Nothing freed is used again: no access to the args or second free after
they were freed, nothing sent after the pcb was removed. -/
def CleanTrace (es : List Effect) : Prop :=
  es.Pairwise fun x y =>
    (x = .freeArgs → y ≠ .useArgs ∧ y ≠ .freeArgs) ∧
      (x = .removePcb → ∀ dst packet, y ≠ .send dst packet)

/-- Nothing is freed. -/
def KeepsAll (es : List Effect) : Prop := .freeArgs ∉ es ∧ .removePcb ∉ es

theorem KeepsAll.append {es fs : List Effect} (h : KeepsAll es) (h' : KeepsAll fs) :
    KeepsAll (es ++ fs) := by
  simp only [KeepsAll, List.mem_append, not_or] at *
  exact ⟨⟨h.1, h'.1⟩, h.2, h'.2⟩

theorem KeepsAll.clean {es : List Effect} (h : KeepsAll es) : CleanTrace es := by
  refine List.Pairwise.imp_of_mem ?_ (List.pairwise_of_forall fun _ _ => trivial)
  intro x y hx _ _
  constructor
  · rintro rfl
    exact absurd hx h.1
  · rintro rfl
    exact absurd hx h.2

theorem CleanTrace.sublist {es fs : List Effect} (h : CleanTrace fs)
    (hsub : es.Sublist fs) : CleanTrace es :=
  List.Pairwise.sublist hsub h

theorem cleanTrace_nextEffects_iff (cb : TftpCb σ) (dst : Peer) (s : Session σ) :
    CleanTrace (nextEffects cb dst s) ↔
      (cb.read s.args.totBytes s.args.data s.world).1 = 0 := by
  unfold nextEffects
  rcases cb.read s.args.totBytes s.args.data s.world with ⟨sts, data, world⟩
  by_cases hsts : sts = 0
  · simp [hsts, CleanTrace]
  · simp [hsts, CleanTrace]

theorem keepsAll_nextEffects {cb : TftpCb σ} {dst : Peer} {s : Session σ}
    (h : (cb.read s.args.totBytes s.args.data s.world).1 = 0) :
    KeepsAll (nextEffects cb dst s) := by
  unfold nextEffects
  rcases hread : cb.read s.args.totBytes s.args.data s.world with ⟨sts, data, world⟩
  rw [hread] at h
  simp only at h
  simp [h, KeepsAll]

/-- The datagram finds the session in the middle of the file, and the next
block can be read. -/
def Continues (cb : TftpCb σ) (s : Session σ) : Prop :=
  ¬ s.args.data.length < tftpDataLenMax ∧
    (cb.read s.args.totBytes s.args.data s.world).1 = 0

theorem keepsAll_rrqEffects {cb : TftpCb σ} {s : Session σ} {d : Datagram}
    (h : Continues cb s) : KeepsAll (rrqEffects cb s d) := by
  rw [rrqEffects, if_neg h.1]
  have hnext : KeepsAll (nextEffects cb d.source (acked s d)) :=
    keepsAll_nextEffects h.2
  refine ((KeepsAll.append ?_ ?_).append hnext).append ?_
  · split_ifs <;> simp [KeepsAll]
  · simp [KeepsAll]
  · simp [KeepsAll]

theorem count_freePbuf_nextEffects (cb : TftpCb σ) (dst : Peer) (s : Session σ) :
    (nextEffects cb dst s).count .freePbuf = 0 := by
  unfold nextEffects
  rcases cb.read s.args.totBytes s.args.data s.world with ⟨sts, data, world⟩
  simp only
  split_ifs <;> simp

theorem count_freePbuf_rrqEffects {cb : TftpCb σ} {s : Session σ} {d : Datagram}
    (h : Continues cb s) : (rrqEffects cb s d).count .freePbuf = 1 := by
  rw [rrqEffects, if_neg h.1]
  simp only [List.count_append, count_freePbuf_nextEffects]
  split_ifs <;> simp

/-- A datagram is handled without touching freed memory only in the middle of
the file. -/
theorem continues_of_clean {cb : TftpCb σ} {s : Session σ} {d : Datagram}
    (h : CleanTrace (rrqEffects cb s d)) : Continues cb s := by
  have hnext : (nextEffects cb d.source (acked s d)).Sublist (rrqEffects cb s d) := by
    rw [rrqEffects]
    exact (List.sublist_append_right _ _).trans (List.sublist_append_left _ _)
  refine ⟨fun hshort => ?_, (cleanTrace_nextEffects_iff cb d.source (acked s d)).mp
    (h.sublist hnext)⟩
  rw [rrqEffects, if_pos hshort, CleanTrace, List.append_assoc, List.append_assoc,
    List.pairwise_append] at h
  have hfree := h.2.1
  rw [List.pairwise_append] at hfree
  have huse : .useArgs ∈ nextEffects cb d.source (acked s d) ++ [Effect.freePbuf] := by
    unfold nextEffects
    rcases cb.read (acked s d).args.totBytes (acked s d).args.data (acked s d).world
      with ⟨sts, data, world⟩
    simp only
    split_ifs <;> simp
  exact ((hfree.2.2 .freeArgs (by simp) .useArgs huse).1 rfl).1 rfl

section Clean

variable {cb : TftpCb σ} {heap : ConnectionArgs} {dst : Peer} {world : σ}

/-- The first block can be read, and every datagram that reaches the session
finds it in the middle of the file. -/
def NeverEnds (cb : TftpCb σ) (heap : ConnectionArgs) (dst : Peer) (world : σ)
    (ds : List Datagram) : Prop :=
  (cb.read 0 heap.data world).1 = 0 ∧
    AtEach (fun pre _ => (readRun cb heap dst world pre).isOpen = true →
      Continues cb (readRun cb heap dst world pre)) ds

/-- The args are not used after they were freed, nothing is sent on a removed
pcb, and every received buffer is freed once. -/
def EndsCleanly (cb : TftpCb σ) (heap : ConnectionArgs) (dst : Peer) (world : σ)
    (ds : List Datagram) : Prop :=
  CleanTrace (readRun cb heap dst world ds).trace ∧
    AtEach (fun pre d => (readRun cb heap dst world pre).isOpen = true →
      (effects (rrqRecvCallback cb) (readRun cb heap dst world pre) d).count .freePbuf
        = 1) ds

theorem NeverEnds.open {ds : List Datagram} (h : NeverEnds cb heap dst world ds) :
    (readRun cb heap dst world ds).isOpen = true ∧
      KeepsAll (readRun cb heap dst world ds).trace := by
  obtain ⟨hfirst, hsteps⟩ := h
  refine foldl_invariant (fun _ (s : Session σ) => s.isOpen = true ∧ KeepsAll s.trace)
    ?_ ?_ hsteps
  · change (tftpRdSendNextBlock cb dst (started heap world)).isOpen = true ∧
      KeepsAll (tftpRdSendNextBlock cb dst (started heap world)).trace
    rw [tftpRdSendNextBlock_eq]
    refine ⟨?_, KeepsAll.append ?_ (keepsAll_nextEffects hfirst)⟩
    · exact Bool.and_eq_true_iff.mpr ⟨rfl, decide_eq_true hfirst⟩
    · simp [started, KeepsAll]
  · rintro pre d ⟨hopen, hkeeps⟩ hcont
    have hcont := hcont hopen
    rw [deliver_open hopen, rrqRecvCallback_eq]
    refine ⟨?_, hkeeps.append (keepsAll_rrqEffects hcont)⟩
    change (_ && _ && _) = true
    rw [Bool.and_eq_true, Bool.and_eq_true]
    exact ⟨⟨hopen, decide_eq_true hcont.1⟩, decide_eq_true hcont.2⟩

/-- A read session is clean if and only if it never comes to an end. -/
theorem endsCleanly_iff (cb : TftpCb σ) (heap : ConnectionArgs) (dst : Peer)
    (world : σ) (ds : List Datagram) :
    EndsCleanly cb heap dst world ds ↔ NeverEnds cb heap dst world ds := by
  constructor
  · induction ds using List.reverseRecOn with
    | nil =>
        rintro ⟨hclean, -⟩
        refine ⟨?_, atEach_nil _⟩
        rw [readRun_nil, tftpRdSendNextBlock_eq] at hclean
        exact (cleanTrace_nextEffects_iff cb dst (started heap world)).mp
          (hclean.sublist (List.sublist_append_right _ _))
    | append_singleton ds d ih =>
        rintro ⟨hclean, hcount⟩
        obtain ⟨hcount, -⟩ := atEach_snoc.mp hcount
        rw [readRun_snoc] at hclean
        have hpre : CleanTrace (readRun cb heap dst world ds).trace := by
          refine hclean.sublist ?_
          by_cases hopen : (readRun cb heap dst world ds).isOpen = true
          · rw [deliver_open hopen, rrqRecvCallback_eq]
            exact List.sublist_append_left _ _
          · rw [deliver_closed hopen]
        obtain ⟨hfirst, hsteps⟩ := ih ⟨hpre, hcount⟩
        refine ⟨hfirst, atEach_snoc.mpr ⟨hsteps, fun hopen => ?_⟩⟩
        rw [deliver_open hopen, rrqRecvCallback_eq] at hclean
        exact continues_of_clean (hclean.sublist (List.sublist_append_right _ _))
  · intro h
    refine ⟨h.open.2.clean, fun pre d hpre hopen => ?_⟩
    rw [effects_eq]
    exact count_freePbuf_rrqEffects (h.2 pre d hpre hopen)

end Clean

/-- A file without contents. -/
def emptyFileCb : TftpCb Unit where
  write := fun _ _ w => (0, w)
  read := fun _ _ w => (0, [], w)

/-- The ACK of block 1. -/
def firstAck : Datagram where
  source := ⟨0, 0⟩
  payload := fun i => if i = 1 then 4 else if i = 3 then 1 else 0
  len := 4
  totLen := 4
  len_le := headerLen_le
  totLen_lt := headerLen_lt

/-- The ACK of the last block makes the server use the freed args, and free the
received buffer twice. -/
theorem not_endsCleanly_firstAck :
    ¬ ∀ (cb : TftpCb Unit) (ds : List Datagram),
      EndsCleanly cb ⟨[], 0, 0⟩ ⟨0, 0⟩ () ds := by
  intro h
  have hcount := (atEach_snoc.mp (h emptyFileCb ([] ++ [firstAck])).2).2 rfl
  exact absurd hcount (by decide)

/-! ## Blocks of a file -/

/-- The bytes of block `n` of a file. -/
def fileBlock (file : List UInt8) (n : Nat) : List UInt8 :=
  (file.drop ((n - 1) * 512)).take 512

theorem fileBlock_length_le (file : List UInt8) (n : Nat) :
    (fileBlock file n).length ≤ 512 := by
  rw [fileBlock, List.length_take]
  exact Nat.min_le_left _ _

/-- The read callback serves `file` whenever it does not fail. -/
def Serves (cb : TftpCb σ) (file : List UInt8) : Prop :=
  ∀ addr data w, (cb.read addr data w).1 = 0 →
    (cb.read addr data w).2.1 = (file.drop addr).take 512

/-- A DATA packet carries the bytes its block number stands for. -/
def CarriesBlock (file packet : List UInt8) : Prop :=
  ∀ n data, n < 65536 → packet = dataPacket n data →
    1 ≤ n ∧ data = fileBlock file n

/-- The packets sent before the pcb was removed. -/
def openSends (es : List Effect) : List (List UInt8) :=
  (es.takeWhile (· ≠ .removePcb)).filterMap fun
    | .send _ packet => some packet
    | _ => none

/-- Every DATA packet sent while the session is open carries the bytes of its
block, and a datagram other than the expected ACK makes the server send the
current block again. -/
def StaysInStep (cb : TftpCb σ) (file : List UInt8) (heap : ConnectionArgs)
    (dst : Peer) (world : σ) (ds : List Datagram) : Prop :=
  (∀ packet ∈ openSends (readRun cb heap dst world ds).trace, CarriesBlock file packet) ∧
    AtEach (fun pre d => (readRun cb heap dst world pre).isOpen = true →
      ¬ tftpIsCorrectAck d.payload (readRun cb heap dst world pre).args.block →
      dataPacket (readRun cb heap dst world pre).args.block
          (fileBlock file (readRun cb heap dst world pre).args.block) ∈
        openSends (effects (rrqRecvCallback cb) (readRun cb heap dst world pre) d)) ds

/-- The datagram is the ACK of the current block, and the next block, if there
is one, has a 16-bit number. -/
def Expected (s : Session σ) (d : Datagram) : Prop :=
  tftpIsCorrectAck d.payload s.args.block = true ∧
    (s.args.block < 65535 ∨ s.args.data.length < tftpDataLenMax)

/-- The open session has sent block `block` of the file last. -/
structure AtBlock (file : List UInt8) (s : Session σ) : Prop where
  block_pos : 1 ≤ s.args.block
  block_lt : s.args.block < 65536
  data : s.args.data = fileBlock file s.args.block
  totBytes : s.args.totBytes = (s.args.block - 1) * 512 + s.args.data.length

theorem dataPacket_inj {m n : Nat} {data data' : List UInt8} (hm : m < 65536)
    (hn : n < 65536) (h : dataPacket m data = dataPacket n data') :
    m = n ∧ data = data' := by
  simp only [dataPacket, packetHeader, List.cons_append, List.nil_append,
    List.cons.injEq] at h
  obtain ⟨-, -, hhi, hlo, hdata⟩ := h
  have hhi := congrArg UInt8.toNat hhi
  have hlo := congrArg UInt8.toNat hlo
  simp only [UInt8.toNat_ofNat'] at hhi hlo
  exact ⟨by omega, hdata⟩

theorem carriesBlock_dataPacket {file : List UInt8} {n : Nat} (hpos : 1 ≤ n)
    (hlt : n < 65536) : CarriesBlock file (dataPacket n (fileBlock file n)) := by
  intro m data hm heq
  obtain ⟨rfl, hdata⟩ := dataPacket_inj hlt hm heq
  exact ⟨hpos, hdata.symm⟩

theorem carriesBlock_errorPacket (file : List UInt8) (err : Int) :
    CarriesBlock file (errorPacket err) := by
  intro n data _ heq
  simp [errorPacket, dataPacket, packetHeader, TftpOpcode.value] at heq

theorem openSends_append {es fs : List Effect} (h : .removePcb ∉ es) :
    openSends (es ++ fs) = openSends es ++ openSends fs := by
  have hall : ∀ e ∈ es, decide (e ≠ .removePcb) = true := by
    intro e he
    rw [decide_eq_true_eq]
    rintro rfl
    exact h he
  have htake : es.takeWhile (fun e => decide (e ≠ .removePcb)) = es :=
    List.takeWhile_eq_self_iff.mpr hall
  rw [openSends, List.takeWhile_append_of_pos hall, List.filterMap_append, openSends,
    openSends, htake]

theorem openSends_freePbuf (es : List Effect) :
    openSends (es ++ [.freePbuf]) = openSends es := by
  rw [openSends, List.takeWhile_append]
  split_ifs with hall
  · rw [List.filterMap_append, openSends,
      (List.takeWhile_sublist _).eq_of_length hall]
    simp
  · rfl

/-- The next block is sent with its own number as long as the offset fits the
number. -/
theorem nextEffects_carry {cb : TftpCb σ} {file : List UInt8} (hcb : Serves cb file)
    (dst : Peer) {s : Session σ} (hpos : 1 ≤ s.args.block) (hlt : s.args.block < 65536)
    (htot : s.args.totBytes = (s.args.block - 1) * 512) :
    ∀ packet ∈ openSends (nextEffects cb dst s), CarriesBlock file packet := by
  have hread := hcb s.args.totBytes s.args.data s.world
  unfold nextEffects
  generalize cb.read s.args.totBytes s.args.data s.world = result at hread ⊢
  rcases result with ⟨sts, data, world⟩
  simp only at hread ⊢
  split_ifs with hsts
  · have hdata : data = fileBlock file s.args.block := by
      rw [hread hsts, htot, fileBlock]
    intro packet hpacket
    obtain rfl : packet = dataPacket s.args.block data := by
      simpa [openSends] using hpacket
    rw [hdata]
    exact carriesBlock_dataPacket hpos hlt
  · intro packet hpacket
    obtain rfl : packet = errorPacket tftpErrIllegalop := by
      simpa [openSends] using hpacket
    exact carriesBlock_errorPacket file _

theorem nextArgs_atBlock {cb : TftpCb σ} {file : List UInt8} (hcb : Serves cb file)
    {s t : Session σ} (hpos : 1 ≤ s.args.block) (hlt : s.args.block < 65536)
    (htot : s.args.totBytes = (s.args.block - 1) * 512)
    (hok : (cb.read s.args.totBytes s.args.data s.world).1 = 0)
    (ht : t.args = nextArgs cb s) : AtBlock file t := by
  have hread := hcb s.args.totBytes s.args.data s.world hok
  have hdata : t.args.data = fileBlock file s.args.block := by
    rw [ht, fileBlock, ← htot, ← hread]
    rfl
  have hlen := fileBlock_length_le file s.args.block
  have hblock : t.args.block = s.args.block := by
    rw [ht]
    rfl
  refine ⟨by omega, by omega, by rw [hblock, hdata], ?_⟩
  have htotal : t.args.totBytes =
      (s.args.totBytes + (fileBlock file s.args.block).length) % 2 ^ 32 := by
    rw [← hdata, ht]
    rfl
  rw [htotal, hdata, hblock, htot, Nat.mod_eq_of_lt (by omega)]

/-- Whatever was sent while the session was open carries its block, and an open
session stands at the block it sent last. -/
def SentBlocks (file : List UInt8) (s : Session σ) : Prop :=
  (∀ packet ∈ openSends s.trace, CarriesBlock file packet) ∧
    (s.isOpen = true → AtBlock file s ∧ .removePcb ∉ s.trace)

theorem sentBlocks_started {cb : TftpCb σ} {file : List UInt8} (hcb : Serves cb file)
    (heap : ConnectionArgs) (dst : Peer) (world : σ) :
    SentBlocks file (readRun cb heap dst world []) := by
  have hblock : (started heap world).args.block = 1 := rfl
  have htot : (started heap world).args.totBytes =
      ((started heap world).args.block - 1) * 512 := by
    simp [started]
  rw [readRun_nil, tftpRdSendNextBlock_eq]
  constructor
  · rw [openSends_append (by simp [started])]
    intro packet hpacket
    rcases List.mem_append.mp hpacket with hpacket | hpacket
    · simp [openSends, started] at hpacket
    · exact @nextEffects_carry _ cb file hcb dst (started heap world) (by omega) (by omega)
        htot packet hpacket
  · intro hopen
    have hok : (cb.read 0 heap.data world).1 = 0 :=
      of_decide_eq_true (Bool.and_eq_true_iff.mp (show (true && _) = true from hopen)).2
    refine ⟨@nextArgs_atBlock _ cb file hcb (started heap world) _ (by omega) (by omega)
      htot hok rfl, ?_⟩
    rw [List.mem_append, not_or]
    exact ⟨by simp [started],
      (@keepsAll_nextEffects _ cb dst (started heap world) hok).2⟩

theorem SentBlocks.step {cb : TftpCb σ} {file : List UInt8} (hcb : Serves cb file)
    {s : Session σ} {d : Datagram} (hs : SentBlocks file s) (hopen : s.isOpen = true)
    (hexpected : Expected s d) : SentBlocks file (rrqRecvCallback cb s d) := by
  obtain ⟨hsent, hat⟩ := hs
  obtain ⟨⟨hpos, hlt, hdata, htot⟩, hkeeps⟩ := hat hopen
  obtain ⟨hack, hnext⟩ := hexpected
  rw [rrqRecvCallback_eq]
  by_cases hshort : s.args.data.length < tftpDataLenMax
  · constructor
    · rw [openSends_append hkeeps]
      intro packet hpacket
      rcases List.mem_append.mp hpacket with hpacket | hpacket
      · exact hsent packet hpacket
      · simp [rrqEffects, hack, hshort, openSends] at hpacket
    · intro hclosed
      simp [hshort] at hclosed
  · have hlen : s.args.data.length ≤ 512 := by
      rw [hdata]
      exact fileBlock_length_le file _
    have hblock : (acked s d).args.block = s.args.block + 1 := if_pos hack
    have hlt' : (acked s d).args.block < 65536 := by
      rcases hnext with hnext | hnext
      · omega
      · exact absurd hnext hshort
    have htot' : (acked s d).args.totBytes = ((acked s d).args.block - 1) * 512 := by
      have hfull : s.args.data.length = 512 := by
        simp only [tftpDataLenMax] at hshort
        omega
      change s.args.totBytes = _
      rw [hblock, htot, hfull, Nat.add_sub_cancel]
      omega
    constructor
    · rw [openSends_append hkeeps]
      intro packet hpacket
      rcases List.mem_append.mp hpacket with hpacket | hpacket
      · exact hsent packet hpacket
      · rw [rrqEffects, if_pos hack, if_neg hshort, List.append_nil,
          openSends_freePbuf, openSends_append (by simp)] at hpacket
        exact nextEffects_carry hcb d.source (by omega) hlt' htot' packet
          (by simpa [openSends] using hpacket)
    · intro hstill
      have hok : (cb.read s.args.totBytes s.args.data s.world).1 = 0 :=
        of_decide_eq_true
          (Bool.and_eq_true_iff.mp (show (_ && _) = true from hstill)).2
      refine ⟨nextArgs_atBlock hcb (by omega) hlt' htot' hok rfl, ?_⟩
      rw [List.mem_append, not_or]
      exact ⟨hkeeps, (keepsAll_rrqEffects ⟨hshort, hok⟩).2⟩

/-- As long as every datagram that reaches the session is the expected ACK, block
numbers and bytes stay in step. -/
theorem staysInStep_of_expected {cb : TftpCb σ} {file : List UInt8} (hcb : Serves cb file)
    (heap : ConnectionArgs) (dst : Peer) (world : σ) {ds : List Datagram}
    (h : AtEach (fun pre d => (readRun cb heap dst world pre).isOpen = true →
      Expected (readRun cb heap dst world pre) d) ds) :
    StaysInStep cb file heap dst world ds := by
  have hsent : SentBlocks file (readRun cb heap dst world ds) := by
    refine foldl_invariant (fun _ s => SentBlocks file s)
      (sentBlocks_started hcb heap dst world) ?_ h
    intro pre d hs hexpected
    by_cases hopen : (readRun cb heap dst world pre).isOpen = true
    · rw [deliver_open (by exact hopen)]
      exact hs.step hcb hopen (hexpected hopen)
    · rw [deliver_closed (by exact hopen)]
      exact hs
  refine ⟨hsent.1, fun pre d hpre hopen hwrong => ?_⟩
  exact absurd (h pre d hpre hopen).1 hwrong

/-- Callbacks that serve a file and fail every write. -/
def fileCb (file : List UInt8) : TftpCb Unit where
  write := fun _ _ w => (1, w)
  read := fun addr _ w => (0, (file.drop addr).take 512, w)

/-- A file of one full block and one more byte is sent in step when block 1 is
acknowledged. -/
theorem staysInStep_firstAck :
    StaysInStep (fileCb (List.replicate 513 7)) (List.replicate 513 7) ⟨[], 0, 0⟩ ⟨0, 0⟩
      () [firstAck] := by
  refine staysInStep_of_expected (fun _ _ _ _ => rfl) _ _ _ ?_
  refine (@atEach_snoc _ _ [] firstAck).mpr ⟨atEach_nil _, fun _ => ⟨rfl, ?_⟩⟩
  exact .inl (show 1 < 65535 by decide)

/-- The ACK of a block that was never sent. -/
def wrongAck : Datagram where
  source := ⟨0, 0⟩
  payload := fun i => if i = 1 then 4 else 0
  len := 4
  totLen := 4
  len_le := headerLen_le
  totLen_lt := headerLen_lt

/-- After a wrong ACK the bytes of block 2 are sent under block number 1. -/
theorem not_staysInStep_wrongAck :
    ¬ ∀ (cb : TftpCb Unit) (file : List UInt8) (ds : List Datagram), Serves cb file →
      StaysInStep cb file ⟨[], 0, 0⟩ ⟨0, 0⟩ () ds := by
  intro h
  obtain ⟨hsent, -⟩ := h (fileCb (List.replicate 513 7)) (List.replicate 513 7)
    [wrongAck] (fun _ _ _ _ => rfl)
  have hstart : tftpRdSendNextBlock (fileCb (List.replicate 513 7)) ⟨0, 0⟩
      (started ⟨[], 0, 0⟩ ()) = {
        world := ()
        args := ⟨List.replicate 512 7, 1, 512⟩
        isOpen := true
        trace := [.useArgs, .useArgs, .read 0 0 (List.replicate 512 7), .useArgs,
          .send ⟨0, 0⟩ (dataPacket 1 (List.replicate 512 7))] } := by
    simp [tftpRdSendNextBlock_eq, started, fileCb, nextArgs, nextEffects,
      -List.reduceReplicate]
  have hmem : dataPacket 1 [7] ∈ openSends (readRun (fileCb (List.replicate 513 7))
      ⟨[], 0, 0⟩ ⟨0, 0⟩ () [wrongAck]).trace := by
    rw [← List.nil_append [wrongAck], readRun_snoc, readRun_nil, hstart, deliver_open rfl,
      rrqRecvCallback_eq]
    simp [rrqEffects, nextEffects, acked, nextBlock, fileCb, openSends, tftpDataLenMax,
      tftpIsCorrectAck, tftpExtractBlock, tftpDecodeOp, wrongAck, -List.reduceReplicate]
  have hblock := (hsent (dataPacket 1 [7]) hmem 1 [7] (by decide) rfl).2
  have hlen := congrArg List.length hblock
  simp [fileBlock, -List.reduceReplicate] at hlen

end ShGateway.TftpRead
