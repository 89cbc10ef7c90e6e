import ShGateway.TftpWrite

namespace ShGateway.TftpFailure

open ShGateway.Lib.Runs
open ShGateway.TftpServer
open ShGateway.TftpUtils
open ShGateway.TftpWrite

variable {σ : Type*}

/-- What should follow a failing call of the write callback while `d` is
handled: an ERROR packet, no ACK for the block, no further call, and the session
is closed once. -/
def ReportsFailure (d : Datagram) (es : List Effect) (closed : Bool) : Prop :=
  ∀ pre addr data sts post, es = pre ++ .write addr data sts :: post → sts ≠ 0 →
    (∃ err, .send d.source (errorPacket err) ∈ post) ∧
      (∀ dst, .send dst (ackPacket (tftpExtractBlock d.payload)) ∉ es) ∧
      callResults post = [] ∧
      es.count .freeArgs = 1 ∧ es.count .removePcb = 1 ∧ closed = true

theorem mem_callResults_iff {es : List Effect} {sts : Int} :
    sts ∈ callResults es ↔
      ∃ pre addr data post, es = pre ++ .write addr data sts :: post := by
  rw [callResults, List.mem_filterMap]
  constructor
  · rintro ⟨e, he, hsts⟩
    obtain ⟨pre, post, rfl⟩ := List.append_of_mem he
    cases e with
    | write addr data sts' =>
        obtain rfl := Option.some.inj hsts
        exact ⟨pre, addr, data, post, rfl⟩
    | _ => simp at hsts
  · rintro ⟨pre, addr, data, post, rfl⟩
    exact ⟨.write addr data sts, by simp, rfl⟩

/-- The failing call of the branch for a block with data is still followed by
the block's ACK. -/
theorem ack_mem_effects {cb : TftpCb σ} {s : Session σ} {d : Datagram}
    (h : d.len = d.totLen) (hnext : NextData s d) :
    .send d.source (ackPacket (tftpExtractBlock d.payload)) ∈
      effects (wrqRecvCallback cb) s d := by
  rw [effects_eq h, acceptBlock_block, if_pos hnext.2, ← hnext.2]
  simp

theorem finalCall_last {cb : TftpCb σ} {s : Session σ} {d : Datagram}
    (h : d.len = d.totLen) (hshort : d.len < tftpDataPktLenMax) :
    ∃ pre, effects (wrqRecvCallback cb) s d =
      pre ++ .write (acceptBlock cb d s).args.totBytes none
        (cb.write (acceptBlock cb d s).args.totBytes none (acceptBlock cb d s).world).1 ::
        [.freeArgs, .removePcb, .freePbuf] := by
  rw [effects_eq h, finishEffects, if_pos hshort]
  exact ⟨acceptEffects cb s d ++
    [.useArgs, .send d.source (ackPacket (acceptBlock cb d s).args.block), .useArgs],
    by simp⟩

/-- A datagram is handled as meant exactly if no call fails. -/
theorem reportsFailure_iff {cb : TftpCb σ} {s : Session σ} {d : Datagram} (closed : Bool) :
    ReportsFailure d (effects (wrqRecvCallback cb) s d) closed ↔
      ∀ sts ∈ callResults (effects (wrqRecvCallback cb) s d), sts = 0 := by
  constructor
  · intro hreports sts hmem
    by_contra hsts
    by_cases hsingle : d.len = d.totLen
    · obtain ⟨-, -, hresults⟩ := @calls_effects _ cb s d hsingle
      have hmem' := hmem
      rw [hresults, List.mem_append] at hmem'
      rcases hmem' with haccept | hfinish
      · rw [(calls_acceptEffects cb s d).2.2] at haccept
        split_ifs at haccept with hnext
        · obtain ⟨pre, addr, data, post, heq⟩ := mem_callResults_iff.mp hmem
          exact (hreports pre addr data sts post heq hsts).2.1 d.source
            (ack_mem_effects hsingle hnext)
        · simp at haccept
      · rw [(calls_finishEffects cb _ d).2.2] at hfinish
        split_ifs at hfinish with hshort
        · obtain ⟨pre, heq⟩ := @finalCall_last _ cb s d hsingle hshort
          rw [← List.mem_singleton.mp hfinish] at heq
          obtain ⟨err, herr⟩ := (hreports _ _ _ _ _ heq hsts).1
          simp at herr
        · simp at hfinish
    · rw [effects_dropped hsingle] at hmem
      simp [callResults] at hmem
  · intro hzero pre addr data sts post heq hsts
    exact absurd (hzero sts (mem_callResults_iff.mpr ⟨pre, addr, data, post, heq⟩)) hsts

/-- Over a whole run every failure is reported if and only if no call fails. -/
theorem alwaysReportsFailure_iff (cb : TftpCb σ) (s : Session σ) (ds : List Datagram) :
    AtEach (fun pre d => (runWrite cb s pre).isOpen = true →
      ReportsFailure d (effects (wrqRecvCallback cb) (runWrite cb s pre) d)
        (!(runWrite cb s (pre ++ [d])).isOpen)) ds ↔
      AtEach (fun pre d => (runWrite cb s pre).isOpen = true →
        ∀ sts ∈ callResults (effects (wrqRecvCallback cb) (runWrite cb s pre) d),
          sts = 0) ds := by
  refine atEach_iff (fun pre d _ => forall_congr' fun _ => ?_) ds
  exact reportsFailure_iff _

/-- Callbacks whose writes all fail. -/
def failingCb : TftpCb Unit where
  write := fun _ _ w => (1, w)
  read := fun _ _ w => (0, [], w)

/-- The DATA packet of a file with one byte: the first and the last block. -/
def firstBlock : Datagram where
  source := ⟨0, 0⟩
  payload := fun i => if i = 1 then 3 else if i = 3 then 1 else 0
  len := 5
  totLen := 5
  len_le := Nat.le_refl 5
  totLen_lt := by decide

/-- A block that could not be written is acknowledged. -/
theorem not_alwaysReportsFailure_firstBlock :
    ¬ ∀ (cb : TftpCb Unit) (ds : List Datagram),
      AtEach (fun pre d =>
        (runWrite cb (openWrite (some ⟨[], 0, 0⟩) ⟨0, 0⟩ ()) pre).isOpen = true →
          ReportsFailure d (effects (wrqRecvCallback cb)
              (runWrite cb (openWrite (some ⟨[], 0, 0⟩) ⟨0, 0⟩ ()) pre) d)
            (!(runWrite cb (openWrite (some ⟨[], 0, 0⟩) ⟨0, 0⟩ ()) (pre ++ [d])).isOpen))
        ds := by
  intro h
  have hstep := (atEach_snoc.mp (h failingCb ([] ++ [firstBlock]))).2 rfl
  have hzero := (reportsFailure_iff _).mp hstep 1 (by
    rw [(calls_effects rfl).2.2, (calls_acceptEffects _ _ _).2.2,
      if_pos ⟨by decide, by decide⟩]
    simp [failingCb])
  exact absurd hzero (by decide)

end ShGateway.TftpFailure
