import ShGateway.Lib.Runs
import ShGateway.TftpServer

namespace ShGateway.TftpWrite

open ShGateway.Lib.Runs
open ShGateway.TftpServer
open ShGateway.TftpUtils

variable {σ : Type*}

/-! ## The calls in a trace -/

/-- Calls of the write callback with data: offset and data. -/
def dataCalls (es : List Effect) : List (Nat × List UInt8) :=
  es.filterMap fun
    | .write addr (some data) _ => some (addr, data)
    | _ => none

/-- Finalising calls: their offset. -/
def finalCalls (es : List Effect) : List Nat :=
  es.filterMap fun
    | .write addr none _ => some addr
    | _ => none

/-- What the calls of the write callback returned. -/
def callResults (es : List Effect) : List Int :=
  es.filterMap fun
    | .write _ _ sts => some sts
    | _ => none

/-! ## One datagram -/

/-- The next block, with data in it. -/
abbrev NextData (s : Session σ) (d : Datagram) : Prop :=
  d.len > tftpDataPktHdrLen ∧ tftpExtractBlock d.payload = s.args.block + 1

/-- What handing a block to the callback adds to the trace. -/
def acceptEffects (cb : TftpCb σ) (s : Session σ) (d : Datagram) : List Effect :=
  let sts := (cb.write s.args.totBytes (some d.data) s.world).1
  if d.len > tftpDataPktHdrLen ∧ tftpExtractBlock d.payload = s.args.block + 1 then
    if sts = 0 then [.useArgs, .write s.args.totBytes (some d.data) 0, .useArgs]
    else
      [.useArgs, .write s.args.totBytes (some d.data) sts,
        .send d.source (errorPacket (sts + 10)), .freeArgs, .removePcb, .useArgs]
  else if tftpExtractBlock d.payload = s.args.block + 1 then [.useArgs, .useArgs]
  else [.useArgs]

/-- What the end of the handler adds. -/
def finishEffects (cb : TftpCb σ) (s : Session σ) (d : Datagram) : List Effect :=
  if d.len < tftpDataPktLenMax then
    [.useArgs, .write s.args.totBytes none (cb.write s.args.totBytes none s.world).1,
      .freeArgs, .removePcb, .freePbuf]
  else [.freePbuf]

theorem writeBlock_ok {cb : TftpCb σ} {s : Session σ} {d : Datagram}
    (h : (cb.write s.args.totBytes (some d.data) s.world).1 = 0) :
    writeBlock cb d s = {
      world := (cb.write s.args.totBytes (some d.data) s.world).2
      args := { s.args with
        block := s.args.block + 1
        totBytes := (s.args.totBytes + (d.len - tftpDataPktHdrLen)) % 2 ^ 32 }
      isOpen := s.isOpen
      trace := s.trace ++ [.write s.args.totBytes (some d.data) 0, .useArgs] } := by
  simp [writeBlock, callWrite, Session.emit, h]

theorem writeBlock_failed {cb : TftpCb σ} {s : Session σ} {d : Datagram}
    (h : (cb.write s.args.totBytes (some d.data) s.world).1 ≠ 0) :
    writeBlock cb d s = {
      world := (cb.write s.args.totBytes (some d.data) s.world).2
      args := { s.args with
        block := s.args.block + 1
        totBytes := (s.args.totBytes + (d.len - tftpDataPktHdrLen)) % 2 ^ 32 }
      isOpen := false
      trace := s.trace ++
        [.write s.args.totBytes (some d.data)
            (cb.write s.args.totBytes (some d.data) s.world).1,
          .send d.source (errorPacket
            ((cb.write s.args.totBytes (some d.data) s.world).1 + 10)),
          .freeArgs, .removePcb, .useArgs] } := by
  simp [writeBlock, callWrite, tftpCleanup, Session.emit, h]

theorem finishBlock_short {cb : TftpCb σ} {s : Session σ} {d : Datagram}
    (h : d.len < tftpDataPktLenMax) :
    finishBlock cb d s = {
      world := (cb.write s.args.totBytes none s.world).2
      args := s.args
      isOpen := false
      trace := s.trace ++
        [.useArgs, .write s.args.totBytes none (cb.write s.args.totBytes none s.world).1,
          .freeArgs, .removePcb, .freePbuf] } := by
  rw [finishBlock, if_pos h]
  simp [callWrite, tftpCleanup, Session.emit]

theorem finishBlock_long {cb : TftpCb σ} {s : Session σ} {d : Datagram}
    (h : ¬ d.len < tftpDataPktLenMax) : finishBlock cb d s = s.emit .freePbuf := by
  rw [finishBlock, if_neg h]

theorem acceptBlock_nextData {cb : TftpCb σ} {s : Session σ} {d : Datagram}
    (h : NextData s d) : acceptBlock cb d s = writeBlock cb d (s.emit .useArgs) :=
  if_pos h

theorem acceptBlock_nextEmpty {cb : TftpCb σ} {s : Session σ} {d : Datagram}
    (hlen : d.len ≤ tftpDataPktHdrLen)
    (hblock : tftpExtractBlock d.payload = s.args.block + 1) :
    acceptBlock cb d s = skipBlock (s.emit .useArgs) := by
  rw [acceptBlock, if_neg (by omega), if_pos hblock]

theorem acceptBlock_other {cb : TftpCb σ} {s : Session σ} {d : Datagram}
    (hblock : tftpExtractBlock d.payload ≠ s.args.block + 1) :
    acceptBlock cb d s = s.emit .useArgs := by
  rw [acceptBlock, if_neg (fun h => hblock h.2), if_neg hblock]

theorem acceptBlock_trace (cb : TftpCb σ) (s : Session σ) (d : Datagram) :
    (acceptBlock cb d s).trace = s.trace ++ acceptEffects cb s d := by
  by_cases hblock : tftpExtractBlock d.payload = s.args.block + 1
  · by_cases hlen : d.len ≤ tftpDataPktHdrLen
    · rw [acceptBlock_nextEmpty hlen hblock, acceptEffects, if_neg (by omega),
        if_pos hblock]
      simp [skipBlock, Session.emit]
    · have hnext : NextData s d := ⟨by omega, hblock⟩
      rw [acceptBlock_nextData hnext, acceptEffects, if_pos hnext]
      by_cases hsts : (cb.write s.args.totBytes (some d.data) s.world).1 = 0
      · rw [if_pos hsts, writeBlock_ok (by exact hsts)]
        simp [Session.emit]
      · rw [if_neg hsts, writeBlock_failed (by exact hsts)]
        simp [Session.emit]
  · rw [acceptBlock_other hblock, acceptEffects, if_neg (fun h => hblock h.2),
      if_neg hblock]
    rfl

theorem wrqRecvCallback_eq {cb : TftpCb σ} {s : Session σ} {d : Datagram}
    (h : d.len = d.totLen) :
    wrqRecvCallback cb s d = finishBlock cb d { acceptBlock cb d s with
      trace := s.trace ++ (acceptEffects cb s d ++
        [.useArgs, .send d.source (ackPacket (acceptBlock cb d s).args.block)]) } := by
  rw [wrqRecvCallback, if_neg (by simpa using h)]
  simp [Session.emit, acceptBlock_trace]

theorem effects_eq {cb : TftpCb σ} {s : Session σ} {d : Datagram}
    (h : d.len = d.totLen) :
    effects (wrqRecvCallback cb) s d =
      acceptEffects cb s d ++
        [.useArgs, .send d.source (ackPacket (acceptBlock cb d s).args.block)] ++
        finishEffects cb (acceptBlock cb d s) d := by
  rw [effects, wrqRecvCallback_eq h, finishEffects]
  by_cases hshort : d.len < tftpDataPktLenMax
  · rw [finishBlock_short hshort, if_pos hshort]
    simp
  · rw [finishBlock_long hshort, if_neg hshort]
    simp [Session.emit]

theorem wrqRecvCallback_dropped {cb : TftpCb σ} {s : Session σ} {d : Datagram}
    (h : d.len ≠ d.totLen) : wrqRecvCallback cb s d = s :=
  if_pos h

theorem effects_dropped {cb : TftpCb σ} {s : Session σ} {d : Datagram}
    (h : d.len ≠ d.totLen) : effects (wrqRecvCallback cb) s d = [] := by
  rw [effects, wrqRecvCallback_dropped h, List.drop_length]

theorem isOpen_eq {cb : TftpCb σ} {s : Session σ} {d : Datagram} (h : d.len = d.totLen) :
    (wrqRecvCallback cb s d).isOpen =
      ((acceptBlock cb d s).isOpen && decide (¬ d.len < tftpDataPktLenMax)) := by
  rw [wrqRecvCallback_eq h]
  by_cases hshort : d.len < tftpDataPktLenMax
  · rw [finishBlock_short hshort]
    simp [hshort]
  · rw [finishBlock_long hshort]
    simp [hshort, Session.emit]

theorem args_eq {cb : TftpCb σ} {s : Session σ} {d : Datagram} (h : d.len = d.totLen) :
    (wrqRecvCallback cb s d).args = (acceptBlock cb d s).args := by
  rw [wrqRecvCallback_eq h]
  by_cases hshort : d.len < tftpDataPktLenMax
  · rw [finishBlock_short hshort]
  · rw [finishBlock_long hshort]
    rfl

/-! ## The calls of one datagram -/

theorem dataCalls_append (es fs : List Effect) :
    dataCalls (es ++ fs) = dataCalls es ++ dataCalls fs := List.filterMap_append ..

theorem finalCalls_append (es fs : List Effect) :
    finalCalls (es ++ fs) = finalCalls es ++ finalCalls fs := List.filterMap_append ..

theorem callResults_append (es fs : List Effect) :
    callResults (es ++ fs) = callResults es ++ callResults fs := List.filterMap_append ..

theorem calls_acceptEffects (cb : TftpCb σ) (s : Session σ) (d : Datagram) :
    dataCalls (acceptEffects cb s d) =
        (if NextData s d then [(s.args.totBytes, d.data)] else []) ∧
      finalCalls (acceptEffects cb s d) = [] ∧
      callResults (acceptEffects cb s d) =
        if NextData s d then [(cb.write s.args.totBytes (some d.data) s.world).1]
        else [] := by
  unfold acceptEffects
  by_cases hnext : NextData s d
  · simp only [if_pos hnext]
    split_ifs with hsts
    · exact ⟨rfl, rfl, congrArg (fun x => [x]) hsts.symm⟩
    · exact ⟨rfl, rfl, rfl⟩
  · simp only [if_neg hnext]
    split_ifs
    · exact ⟨rfl, rfl, rfl⟩
    · exact ⟨rfl, rfl, rfl⟩

theorem calls_finishEffects (cb : TftpCb σ) (s : Session σ) (d : Datagram) :
    dataCalls (finishEffects cb s d) = [] ∧
      finalCalls (finishEffects cb s d) =
        (if d.len < tftpDataPktLenMax then [s.args.totBytes] else []) ∧
      callResults (finishEffects cb s d) =
        if d.len < tftpDataPktLenMax then [(cb.write s.args.totBytes none s.world).1]
        else [] := by
  unfold finishEffects
  split_ifs
  · exact ⟨rfl, rfl, rfl⟩
  · exact ⟨rfl, rfl, rfl⟩

theorem acceptBlock_isOpen (cb : TftpCb σ) (s : Session σ) (d : Datagram) :
    (acceptBlock cb d s).isOpen = true ↔
      s.isOpen = true ∧ ∀ sts ∈ callResults (acceptEffects cb s d), sts = 0 := by
  rw [(calls_acceptEffects cb s d).2.2]
  by_cases hnext : NextData s d
  · rw [acceptBlock_nextData hnext]
    by_cases hsts : (cb.write s.args.totBytes (some d.data) s.world).1 = 0
    · rw [writeBlock_ok (by exact hsts)]
      simp [hsts, Session.emit]
    · rw [writeBlock_failed (by exact hsts)]
      simp [hnext, hsts]
  · rw [acceptBlock, if_neg hnext]
    split_ifs
    · simp [skipBlock, Session.emit]
    · simp [Session.emit]

theorem acceptBlock_args (cb : TftpCb σ) (s : Session σ) (d : Datagram) :
    (acceptBlock cb d s).args = { s.args with
      block := if tftpExtractBlock d.payload = s.args.block + 1 then s.args.block + 1
        else s.args.block
      totBytes := if NextData s d then
          (s.args.totBytes + (d.len - tftpDataPktHdrLen)) % 2 ^ 32
        else s.args.totBytes } := by
  by_cases hnext : NextData s d
  · rw [acceptBlock_nextData hnext, if_pos hnext, if_pos hnext.2]
    by_cases hsts : (cb.write s.args.totBytes (some d.data) s.world).1 = 0
    · rw [writeBlock_ok (by exact hsts)]
      rfl
    · rw [writeBlock_failed (by exact hsts)]
      rfl
  · rw [acceptBlock, if_neg hnext, if_neg hnext]
    split_ifs
    · rfl
    · rfl

theorem acceptBlock_block (cb : TftpCb σ) (s : Session σ) (d : Datagram) :
    (acceptBlock cb d s).args.block =
      if tftpExtractBlock d.payload = s.args.block + 1 then s.args.block + 1
      else s.args.block := by
  rw [acceptBlock_args]

theorem acceptBlock_world (cb : TftpCb σ) (s : Session σ) (d : Datagram) :
    (acceptBlock cb d s).world =
      if NextData s d then (cb.write s.args.totBytes (some d.data) s.world).2
      else s.world := by
  by_cases hnext : NextData s d
  · rw [acceptBlock_nextData hnext, if_pos hnext]
    by_cases hsts : (cb.write s.args.totBytes (some d.data) s.world).1 = 0
    · rw [writeBlock_ok (by exact hsts)]
      rfl
    · rw [writeBlock_failed (by exact hsts)]
      rfl
  · rw [acceptBlock, if_neg hnext, if_neg hnext]
    split_ifs
    · rfl
    · rfl

theorem wrqRecvCallback_world {cb : TftpCb σ} {s : Session σ} {d : Datagram}
    (h : d.len = d.totLen) :
    (wrqRecvCallback cb s d).world =
      if d.len < tftpDataPktLenMax then
        (cb.write (acceptBlock cb d s).args.totBytes none (acceptBlock cb d s).world).2
      else (acceptBlock cb d s).world := by
  rw [wrqRecvCallback_eq h]
  by_cases hshort : d.len < tftpDataPktLenMax
  · rw [finishBlock_short hshort, if_pos hshort]
  · rw [finishBlock_long hshort, if_neg hshort]
    rfl

theorem wrqRecvCallback_proj {τ : Type*} (f : σ → τ) {cb : TftpCb σ}
    (h : ∀ addr data w, f (cb.write addr data w).2 = f w) (s : Session σ) (d : Datagram) :
    f (wrqRecvCallback cb s d).world = f s.world := by
  by_cases hlen : d.len = d.totLen
  · have haccept : f (acceptBlock cb d s).world = f s.world := by
      rw [acceptBlock_world]
      split_ifs
      · exact h _ _ _
      · rfl
    rw [wrqRecvCallback_world hlen]
    split_ifs
    · rw [h, haccept]
    · exact haccept
  · rw [wrqRecvCallback_dropped hlen]

theorem callWrite_congr {cb cb' : TftpCb σ} {s : Session σ} {data : Option (List UInt8)}
    (h : cb.write s.args.totBytes data s.world = cb'.write s.args.totBytes data s.world) :
    callWrite cb data s = callWrite cb' data s := by
  rw [callWrite, callWrite, h]

theorem wrqRecvCallback_congr {cb cb' : TftpCb σ} {s : Session σ} {d : Datagram}
    (hdata : ∀ addr data, cb.write addr data s.world = cb'.write addr data s.world)
    (hfinal : ∀ addr data, cb.write addr data (acceptBlock cb d s).world =
      cb'.write addr data (acceptBlock cb d s).world) :
    wrqRecvCallback cb s d = wrqRecvCallback cb' s d := by
  have hwrite : writeBlock cb d (s.emit .useArgs) = writeBlock cb' d (s.emit .useArgs) := by
    have hcall : callWrite cb (some d.data) (s.emit .useArgs) =
        callWrite cb' (some d.data) (s.emit .useArgs) := callWrite_congr (hdata _ _)
    rw [writeBlock, writeBlock, hcall]
  have haccept : acceptBlock cb d s = acceptBlock cb' d s := by
    rw [acceptBlock, acceptBlock, hwrite]
  have hfinish : ∀ t : Session σ, t.world = (acceptBlock cb d s).world →
      finishBlock cb d t = finishBlock cb' d t := by
    intro t ht
    have hcall : callWrite cb none (t.emit .useArgs) =
        callWrite cb' none (t.emit .useArgs) := by
      refine callWrite_congr ?_
      change cb.write _ _ t.world = cb'.write _ _ t.world
      rw [ht, hfinal]
    rw [finishBlock, finishBlock, hcall]
  rw [wrqRecvCallback, wrqRecvCallback, ← haccept]
  split_ifs
  · rfl
  · exact hfinish _ rfl

/-! ## In-sequence data -/

/-- What has been received in order: blocks and bytes. -/
structure Receiver where
  blocks : Nat
  bytes : Nat
deriving DecidableEq, Repr

/-- A datagram in one buffer that is the DATA packet after the last one
accepted. -/
def Accepts (r : Receiver) (d : Datagram) : Prop :=
  d.len = d.totLen ∧ tftpDataPktHdrLen ≤ d.len ∧ tftpDecodeOp d.payload = .data ∧
    tftpExtractBlock d.payload = r.blocks + 1
deriving Decidable

/-- The last packet of a transfer. -/
def Final (r : Receiver) (d : Datagram) : Prop :=
  Accepts r d ∧ d.data.length < tftpDataLenMax
deriving Decidable

def Receiver.step (r : Receiver) (d : Datagram) : Receiver :=
  if Accepts r d then ⟨r.blocks + 1, r.bytes + d.data.length⟩ else r

def received (ds : List Datagram) : Receiver := ds.foldl Receiver.step ⟨0, 0⟩

/-- What the handling of a datagram is meant to do: data calls for accepted data
only, the finalising call exactly for the final packet, and the session is
closed by that packet or after a failing call. -/
structure InSequence (r : Receiver) (d : Datagram) (es : List Effect) (closed : Bool) :
    Prop where
  data : ∀ call ∈ dataCalls es, Accepts r d ∧ call = (r.bytes, d.data)
  final : finalCalls es = if Final r d then [(r.step d).bytes] else []
  closed : closed = true ↔ Final r d ∨ ∃ sts ∈ callResults es, sts ≠ 0

/-- Short datagrams are the next DATA packet, and longer ones with the next
block number are DATA packets. -/
def Conforms (r : Receiver) (d : Datagram) : Prop :=
  d.len = d.totLen →
    if d.len < tftpDataPktLenMax then Accepts r d
    else tftpExtractBlock d.payload = r.blocks + 1 → tftpDecodeOp d.payload = .data
deriving Decidable

/-- The session has accepted what the receiver has. -/
structure InStep (r : Receiver) (s : Session σ) : Prop where
  block : s.args.block = r.blocks
  totBytes : s.args.totBytes = r.bytes
  blocks_lt : r.blocks < 65536
  bytes_le : r.bytes ≤ r.blocks * 65531

theorem inSequence_dropped {cb : TftpCb σ} {r : Receiver} {s : Session σ}
    {d : Datagram} (hopen : s.isOpen = true) (h : d.len ≠ d.totLen) :
    InSequence r d (effects (wrqRecvCallback cb) s d)
      (!(wrqRecvCallback cb s d).isOpen) := by
  have hfinal : ¬ Final r d := fun hfinal => h hfinal.1.1
  rw [effects_dropped h, wrqRecvCallback_dropped h]
  refine ⟨by simp [dataCalls], ?_, ?_⟩
  · rw [if_neg hfinal]
    rfl
  · simp [hopen, hfinal, callResults]

theorem calls_effects {cb : TftpCb σ} {s : Session σ} {d : Datagram}
    (h : d.len = d.totLen) :
    dataCalls (effects (wrqRecvCallback cb) s d) =
        (if NextData s d then [(s.args.totBytes, d.data)] else []) ∧
      finalCalls (effects (wrqRecvCallback cb) s d) =
        (if d.len < tftpDataPktLenMax then [(acceptBlock cb d s).args.totBytes] else []) ∧
      callResults (effects (wrqRecvCallback cb) s d) =
        callResults (acceptEffects cb s d) ++
          callResults (finishEffects cb (acceptBlock cb d s) d) := by
  obtain ⟨hdata, hfinal, -⟩ := calls_acceptEffects cb s d
  obtain ⟨hdata', hfinal', -⟩ := calls_finishEffects cb (acceptBlock cb d s) d
  rw [effects_eq h, dataCalls_append, dataCalls_append, finalCalls_append,
    finalCalls_append, callResults_append, callResults_append, hdata, hdata', hfinal,
    hfinal']
  refine ⟨?_, ?_, ?_⟩
  · simp [dataCalls]
  · simp [finalCalls]
  · simp [callResults]

theorem closed_iff {cb : TftpCb σ} {s : Session σ} {d : Datagram}
    (hopen : s.isOpen = true) (h : d.len = d.totLen) :
    (!(wrqRecvCallback cb s d).isOpen) = true ↔
      d.len < tftpDataPktLenMax ∨
        ∃ sts ∈ callResults (acceptEffects cb s d), sts ≠ 0 := by
  have haccept := acceptBlock_isOpen cb s d
  rw [isOpen_eq h]
  by_cases hshort : d.len < tftpDataPktLenMax
  · simp [hshort]
  · rw [Bool.not_eq_true', Bool.and_eq_false_iff, ← Bool.not_eq_true, haccept]
    simp [hshort, hopen]

theorem InStep.step {cb : TftpCb σ} {r : Receiver} {s : Session σ} {d : Datagram}
    (hs : InStep r s) (hsingle : d.len = d.totLen)
    (haccept : tftpExtractBlock d.payload = r.blocks + 1 → Accepts r d) :
    InStep (r.step d) (wrqRecvCallback cb s d) := by
  obtain ⟨hblock, hbytes, hlt, hle⟩ := hs
  have hargs := acceptBlock_args cb s d
  have hdata := d.data_length
  have htot := d.totLen_lt
  rw [← args_eq hsingle] at hargs
  by_cases hnext : tftpExtractBlock d.payload = r.blocks + 1
  · have hacc := haccept hnext
    have hbound := tftpExtractBlock_lt d.payload
    rw [Receiver.step, if_pos hacc]
    refine ⟨?_, ?_, ?_, ?_⟩
    · rw [hargs]
      simp [hblock, hnext]
    · rw [hargs]
      simp only [NextData, hblock, hnext, and_true, tftpDataPktHdrLen, hbytes, hdata]
      split_ifs with hlen
      · omega
      · omega
    · change r.blocks + 1 < 65536
      omega
    · simp only [hdata]
      omega
  · have hno : ¬ Accepts r d := fun h => hnext h.2.2.2
    rw [Receiver.step, if_neg hno]
    refine ⟨?_, ?_, hlt, hle⟩
    · rw [hargs]
      simp [hblock, hnext]
    · rw [hargs]
      simp [NextData, hblock, hnext, hbytes]

theorem inSequence_iff {cb : TftpCb σ} {r : Receiver} {s : Session σ} {d : Datagram}
    (hopen : s.isOpen = true) (hs : InStep r s) :
    InSequence r d (effects (wrqRecvCallback cb) s d)
        (!(wrqRecvCallback cb s d).isOpen) ↔ Conforms r d := by
  by_cases hsingle : d.len = d.totLen
  · obtain ⟨hdata, hfinal, hresults⟩ := @calls_effects _ cb s d hsingle
    have hnextData : NextData s d ↔
        4 < d.len ∧ tftpExtractBlock d.payload = r.blocks + 1 := by
      simp only [NextData, hs.block, tftpDataPktHdrLen, gt_iff_lt]
    have hlen := d.data_length
    constructor
    · rintro ⟨hdataOk, hfinalOk, -⟩ -
      split_ifs with hshort
      · rw [hfinal, if_pos hshort] at hfinalOk
        by_contra hno
        rw [if_neg (fun h => hno h.1)] at hfinalOk
        simp at hfinalOk
      · intro hblock
        have hnext := hnextData.mpr
          ⟨by simp only [tftpDataPktLenMax] at hshort; omega, hblock⟩
        rw [hdata, if_pos hnext] at hdataOk
        exact (hdataOk _ (List.mem_singleton_self _)).1.2.2.1
    · intro hconf
      have hconf := hconf hsingle
      have haccept : tftpExtractBlock d.payload = r.blocks + 1 → Accepts r d := by
        intro hblock
        split_ifs at hconf with hshort
        · exact hconf
        · exact ⟨hsingle, by simp only [tftpDataPktLenMax, tftpDataPktHdrLen] at *; omega,
            hconf hblock, hblock⟩
      refine ⟨?_, ?_, ?_⟩
      · intro call hcall
        rw [hdata] at hcall
        split_ifs at hcall with hnext
        · rw [List.mem_singleton.mp hcall, hs.totBytes]
          exact ⟨haccept (hnextData.mp hnext).2, rfl⟩
        · simp at hcall
      · rw [hfinal]
        split_ifs with hshort hfin hfin
        · have hbytes := (@InStep.step _ cb _ _ _ hs hsingle haccept).totBytes
          rw [args_eq hsingle] at hbytes
          rw [hbytes]
        · rw [if_pos hshort] at hconf
          exact absurd ⟨hconf, by
            simp only [tftpDataPktLenMax, tftpDataLenMax] at *; omega⟩ hfin
        · have hfew := hfin.2
          simp only [tftpDataPktLenMax, tftpDataLenMax] at *
          omega
        · rfl
      · rw [closed_iff hopen hsingle, hresults, (calls_finishEffects _ _ _).2.2]
        split_ifs at hconf ⊢ with hshort
        · have hfin : Final r d := ⟨hconf, by
            simp only [tftpDataPktLenMax, tftpDataLenMax] at *; omega⟩
          exact iff_of_true (.inl hshort) (.inl hfin)
        · have hfin : ¬ Final r d := by
            rintro ⟨-, hfew⟩
            simp only [tftpDataPktLenMax, tftpDataLenMax] at *
            omega
          simp [hshort, hfin]
  · exact iff_of_true (inSequence_dropped hopen hsingle) fun h => absurd h hsingle

theorem InStep.deliver {cb : TftpCb σ} {r : Receiver} {s : Session σ} {d : Datagram}
    (hs : s.isOpen = true → InStep r s) (hconf : s.isOpen = true → Conforms r d)
    (hopen : (deliver (wrqRecvCallback cb) s d).isOpen = true) :
    InStep (r.step d) (deliver (wrqRecvCallback cb) s d) := by
  by_cases hpre : s.isOpen = true
  · rw [deliver_open hpre] at hopen ⊢
    by_cases hsingle : d.len = d.totLen
    · have hlong : ¬ d.len < tftpDataPktLenMax := by
        rw [isOpen_eq hsingle, Bool.and_eq_true, decide_eq_true_eq] at hopen
        exact hopen.2
      have hconf := hconf hpre hsingle
      rw [if_neg hlong] at hconf
      refine (hs hpre).step hsingle fun hblock => ⟨hsingle, ?_, hconf hblock, hblock⟩
      simp only [tftpDataPktLenMax, tftpDataPktHdrLen] at *
      omega
    · rw [wrqRecvCallback_dropped hsingle, Receiver.step,
        if_neg fun hacc => hsingle hacc.1]
      exact hs hpre
  · rw [deliver_closed hpre] at hopen
    exact absurd hopen hpre

theorem received_snoc (ds : List Datagram) (d : Datagram) :
    received (ds ++ [d]) = (received ds).step d := by
  rw [received, List.foldl_append]
  rfl

section Run

variable (cb : TftpCb σ) (heap : ConnectionArgs) (dst : Peer) (world : σ)

/-- The write session after the datagrams `ds`. -/
def writeRun (ds : List Datagram) : Session σ :=
  runWrite cb (openWrite (some heap) dst world) ds

theorem writeRun_snoc (ds : List Datagram) (d : Datagram) :
    writeRun cb heap dst world (ds ++ [d]) =
      deliver (wrqRecvCallback cb) (writeRun cb heap dst world ds) d :=
  runWrite_snoc cb _ ds d

/-- Every datagram is handled in sequence. -/
def AlwaysInSequence (ds : List Datagram) : Prop :=
  AtEach (fun pre d => (writeRun cb heap dst world pre).isOpen = true →
    InSequence (received pre) d
      (effects (wrqRecvCallback cb) (writeRun cb heap dst world pre) d)
      (!(writeRun cb heap dst world (pre ++ [d])).isOpen)) ds

/-- Every datagram that reaches the session conforms. -/
def AlwaysConforms (ds : List Datagram) : Prop :=
  AtEach (fun pre d => (writeRun cb heap dst world pre).isOpen = true →
    Conforms (received pre) d) ds

variable {cb heap dst world}

/-- While every datagram conforms, the open session is in step. -/
theorem AlwaysConforms.inStep {ds : List Datagram}
    (h : AlwaysConforms cb heap dst world ds)
    (hopen : (writeRun cb heap dst world ds).isOpen = true) :
    InStep (received ds) (writeRun cb heap dst world ds) := by
  refine foldl_invariant (fun pre s => s.isOpen = true → InStep (received pre) s)
    ?_ ?_ h hopen
  · intro _
    exact ⟨rfl, rfl, by decide, by decide⟩
  · intro pre d hinv hconf hopen'
    rw [received_snoc]
    exact InStep.deliver hinv hconf hopen'

/-- A write session hands over in-sequence data only and finalises exactly at
its end if and only if every datagram that reaches it conforms. -/
theorem alwaysInSequence_iff (ds : List Datagram) :
    AlwaysInSequence cb heap dst world ds ↔ AlwaysConforms cb heap dst world ds := by
  refine atEach_iff ?_ ds
  intro pre d hpre
  refine forall_congr' fun hopen => ?_
  rw [writeRun_snoc, deliver_open hopen]
  exact inSequence_iff hopen (AlwaysConforms.inStep hpre hopen)

end Run

/-- Callbacks that always succeed. -/
def quietCb : TftpCb Unit where
  write := fun _ _ w => (0, w)
  read := fun _ _ w => (0, [], w)

/-- An ERROR packet of four bytes. -/
def errorDatagram : Datagram where
  source := ⟨0, 0⟩
  payload := fun i => if i = 1 then 5 else 0
  len := 4
  totLen := 4
  len_le := headerLen_le
  totLen_lt := headerLen_lt

/-- An ERROR packet ends a write session that has received nothing yet. -/
theorem not_alwaysInSequence_errorDatagram :
    ¬ ∀ (cb : TftpCb Unit) (ds : List Datagram),
      AlwaysInSequence cb ⟨[], 0, 0⟩ ⟨0, 0⟩ () ds := by
  intro h
  have hstep := (atEach_snoc.mp (h quietCb ([] ++ [errorDatagram]))).2 rfl
  rw [writeRun_snoc, deliver_open rfl] at hstep
  have hconf := (inSequence_iff rfl ⟨rfl, rfl, by decide, by decide⟩).mp hstep
  exact absurd hconf (by decide)

end ShGateway.TftpWrite
