import ShGateway.Lib.Outcome
import ShGateway.SdoServer

/-!
Runs of the SDO server: whatever messages arrive, it stays inside its buffer.
-/

namespace ShGateway.SdoServerRuns

open ShGateway.Crc16
open ShGateway.Lib.ByteBuffer
open ShGateway.Lib.Outcome
open ShGateway.OdInterface
open ShGateway.SdoServer

variable {α : Type}

/-! ## Errors -/

theorem odGetSDOabCode_ne {odr : Odr} (h : odr ≠ odrOk) : odGetSDOabCode odr ≠ abNone := by
  rw [odGetSDOabCode]
  split
  · decide
  · rename_i hrange
    obtain ⟨hlow, hhigh⟩ := not_or.mp hrange
    have hpos : 0 < odr := lt_of_le_of_ne (not_lt.mp hlow) (Ne.symm h)
    have hlt : odr < 26 := not_le.mp hhigh
    interval_cases odr <;> decide

theorem tooLongOrShort_ne (long : Bool) : tooLongOrShort long ≠ abNone := by
  cases long <;> decide

/-- Something went wrong. -/
def Failed (p : Progress α) : Prop :=
  p.abortCode ≠ abNone ∧ p.srv.state = .abort ∧ p.srv.buf.length = bufferSize + 1

theorem failed_abort {p : Progress α} {code : UInt32} (hcode : code ≠ abNone)
    (hlen : p.srv.buf.length = bufferSize + 1) : Failed (p.abort code) :=
  ⟨hcode, rfl, hlen⟩

theorem Ends.next {p : Progress α} {f : Progress α → Option (Progress α)} {Q : Progress α → Prop}
    (hfailed : p.abortCode ≠ abNone → Q p) (hf : p.abortCode = abNone → Ends (f p) Q) :
    Ends (p.next f) Q := by
  rw [Progress.next]
  exact Ends.ite hf fun h => Ends.some (hfailed h)

/-! ## Access to the object dictionary -/

/-- The part of the server that the access to the dictionary leaves alone. -/
structure Kept (srv srv' : Server α) : Prop where
  state : srv'.state = srv.state
  toggle : srv'.toggle = srv.toggle
  blockSeqno : srv'.blockSeqno = srv.blockSeqno
  blockBlksize : srv'.blockBlksize = srv.blockBlksize
  blockNoData : srv'.blockNoData = srv.blockNoData
  canRxNew : srv'.canRxNew = srv.canRxNew
  timeoutTimer : srv'.timeoutTimer = srv.timeoutTimer
  sdoTimeoutTimeUs : srv'.sdoTimeoutTimeUs = srv.sdoTimeoutTimeUs

theorem Kept.refl (srv : Server α) : Kept srv srv := by constructor <;> rfl

theorem Kept.trans {a b c : Server α} (h : Kept a b) (h' : Kept b c) : Kept a c :=
  ⟨h'.state.trans h.state, h'.toggle.trans h.toggle, h'.blockSeqno.trans h.blockSeqno,
    h'.blockBlksize.trans h.blockBlksize, h'.blockNoData.trans h.blockNoData,
    h'.canRxNew.trans h.canRxNew, h'.timeoutTimer.trans h.timeoutTimer,
    h'.sdoTimeoutTimeUs.trans h.sdoTimeoutTimeUs⟩

theorem store_ends {buf xs : List UInt8} {i : Nat} (h : i + xs.length ≤ buf.length) :
    Ends (store buf i xs) fun buf' => buf'.length = buf.length := by
  obtain ⟨buf', hbuf⟩ := exists_store h
  exact ⟨buf', hbuf, store_length hbuf⟩

theorem load_ends {buf : List UInt8} {i n : Nat} (h : i + n ≤ buf.length) :
    Ends (load buf i n) fun xs => xs = (buf.drop i).take n := ⟨_, load_of_le h, rfl⟩

theorem minus_ends {a b : Nat} (h : b ≤ a) : Ends (minus a b) fun d => d = a - b :=
  ⟨_, minus_of_le h, rfl⟩

/-- There is data in the buffer up to `bufOffsetWr`. -/
structure Filled (srv : Server α) (n : Nat) : Prop where
  length : srv.buf.length = bufferSize + 1
  wr : srv.bufOffsetWr ≤ n

theorem putZero_ends {srv : Server α} {n : Nat} (h : Filled srv n) (hn : n ≤ bufferSize) :
    Ends srv.putZero fun srv' => Filled srv' (n + 1) ∧ Kept srv srv' := by
  have hwr := h.wr
  rw [Server.putZero]
  refine Ends.bind (store_ends ?_) fun buf hbuf => ?_
  · rw [h.length, List.length_singleton]
    omega
  · exact Ends.some ⟨⟨hbuf.trans h.length, Nat.succ_le_succ hwr⟩, by constructor <;> rfl⟩

theorem terminate_ends {srv : Server α} (sizeInOd : Nat) (h : Filled srv (bufferSize - 2)) :
    Ends (srv.terminate sizeInOd) fun srv' => Filled srv' bufferSize ∧ Kept srv srv' := by
  rw [Server.terminate]
  refine Ends.bind (putZero_ends h (by decide)) fun one hone => ?_
  have htwo : Ends (one.putSecondZero sizeInOd) fun two =>
      Filled two bufferSize ∧ Kept srv two := by
    refine Ends.ite (fun _ => ?_) fun _ => ?_
    · exact (putZero_ends hone.1 (by decide)).mono fun two htwo =>
        ⟨htwo.1, hone.2.trans htwo.2⟩
    · exact Ends.some ⟨⟨hone.1.length, hone.1.wr.trans (by decide)⟩, hone.2⟩
  refine Ends.bind htwo fun two htwo => ?_
  exact Ends.some ⟨⟨htwo.1.length, htwo.1.wr⟩, htwo.2.trans (by constructor <;> rfl)⟩

/-- What is true behind a step of `validateAndWriteToOD`. -/
def Written (p p' : Progress α) (n : Nat) : Prop :=
  Failed p' ∨ p'.abortCode = p.abortCode ∧ Filled p'.srv n ∧ Kept p.srv p'.srv

theorem checkSize_ends {p : Progress α} (h : Filled p.srv bufferSize) :
    Ends (checkSize p) fun p' => Written p p' bufferSize := by
  have hfail : ∀ code, code ≠ abNone → Written p (p.abort code) bufferSize :=
    fun code hcode => .inl (failed_abort hcode h.length)
  have hsame : Written p p bufferSize := .inr ⟨rfl, h, Kept.refl _⟩
  rw [checkSize]
  refine Ends.ite (fun _ => Ends.ite (fun _ => ?_) fun _ => Ends.ite (fun hstr => ?_) fun _ =>
    Ends.ite (fun _ => ?_) fun _ => Ends.ite (fun _ => ?_) fun _ => ?_) fun _ =>
    Ends.ite (fun _ => ?_) fun _ => ?_
  · exact Ends.some (hfail _ (tooLongOrShort_ne _))
  · refine Ends.bind (terminate_ends _ ⟨h.length, ?_⟩) fun srv hsrv =>
      Ends.some (.inr ⟨rfl, hsrv.1, hsrv.2⟩)
    have := hstr.2.2
    omega
  · exact Ends.some (.inr ⟨rfl, ⟨h.length, h.wr⟩, by constructor <;> rfl⟩)
  · exact Ends.some (hfail _ (tooLongOrShort_ne _))
  · exact Ends.some hsame
  · exact Ends.some (hfail _ (by decide))
  · exact Ends.some hsame

theorem checkCrc_ends {p : Progress α} {count crcOperation : Nat} {crcClient : UInt16}
    (h : Filled p.srv bufferSize) (hcount : count ≤ bufferSize) :
    Ends (checkCrc p count crcOperation crcClient) fun p' => Written p p' bufferSize := by
  rw [checkCrc]
  refine Ends.ite (fun _ => ?_) fun _ => Ends.some (.inr ⟨rfl, h, Kept.refl _⟩)
  rw [load_of_le (by rw [h.length]; omega)]
  refine Ends.ite (fun _ => ?_) fun _ => ?_
  · exact Ends.some (.inl (failed_abort (by decide) h.length))
  · exact Ends.some (.inr ⟨rfl, ⟨h.length, h.wr⟩, by constructor <;> rfl⟩)

theorem writeToOD_ends {p : Progress α} (h : Filled p.srv bufferSize) :
    Ends (writeToOD p) fun p' => Written p p' 0 := by
  rw [writeToOD, load_of_le (by rw [h.length]; have := h.wr; omega)]
  refine Ends.ite (fun herr => ?_) fun _ => Ends.ite (fun _ => ?_) fun _ =>
    Ends.ite (fun _ => ?_) fun _ => ?_
  · exact Ends.some (.inl (failed_abort (odGetSDOabCode_ne herr.1) h.length))
  · exact Ends.some (.inl (failed_abort (by decide) h.length))
  · exact Ends.some (.inl (failed_abort (by decide) h.length))
  · exact Ends.some (.inr ⟨rfl, ⟨h.length, Nat.le_refl 0⟩, by constructor <;> rfl⟩)

theorem Written.next {p p' : Progress α} {n k : Nat} {f : Progress α → Option (Progress α)}
    (hp : p.abortCode = abNone) (h : Written p p' n)
    (hf : Filled p'.srv n → Ends (f p') fun p'' => Written p' p'' k) :
    Ends (p'.next f) fun p'' => Written p p'' k := by
  rcases h with hfailed | ⟨hcode, hfilled, hkept⟩
  · refine Ends.next (fun _ => .inl hfailed) fun hnone => absurd hnone hfailed.1
  · refine Ends.next (fun herr => absurd (hcode.trans hp) herr) fun _ => ?_
    refine (hf hfilled).mono fun p'' hp'' => ?_
    rcases hp'' with hfailed | ⟨hcode', hfilled', hkept'⟩
    · exact .inl hfailed
    · exact .inr ⟨hcode'.trans hcode, hfilled', hkept.trans hkept'⟩

theorem validateAndWriteToOD_ends {p : Progress α} {crcOperation : Nat} {crcClient : UInt16}
    (hp : p.abortCode = abNone) (h : Filled p.srv bufferSize) :
    Ends (validateAndWriteToOD p crcOperation crcClient) fun p' => Written p p' 0 := by
  rw [validateAndWriteToOD]
  refine Ends.bind (checkSize_ends h) fun p₁ h₁ => ?_
  refine Ends.bind (h₁.next hp fun hfilled => checkCrc_ends hfilled h.wr) fun p₂ h₂ => ?_
  exact h₂.next hp writeToOD_ends

/-- There is data in the buffer between `bufOffsetRd` and `bufOffsetWr`. -/
structure Loaded (srv : Server α) : Prop where
  length : srv.buf.length = bufferSize + 1
  rd : srv.bufOffsetRd ≤ srv.bufOffsetWr
  wr : srv.bufOffsetWr ≤ bufferSize

theorem cutString_length (srv : Server α) (r : Reading α) :
    (cutString srv r).1.length ≤ r.bytes.length := by
  unfold cutString
  split
  · dsimp only
    split
    · exact List.length_take_le' _ _
    · exact Nat.le_refl _
  · exact Nat.le_refl _

theorem endString_ends {buf : List UInt8} {countRemain : Nat} {r : Reading α}
    (h : countRemain + r.bytes.length < buf.length) :
    Ends (endString buf countRemain r) fun buf' => buf'.length = buf.length := by
  refine Ends.ite (fun _ => store_ends ?_) fun _ => Ends.some rfl
  rw [List.length_singleton]
  omega

/-- What is true behind `readFromOd`. -/
def Refilled (p p' : Progress α) : Prop :=
  Failed p' ∨ p'.abortCode = p.abortCode ∧ Loaded p'.srv ∧ Kept p.srv p'.srv

theorem refill_ends {p : Progress α} (h : Loaded p.srv) :
    Ends (refill p (p.srv.bufOffsetWr - p.srv.bufOffsetRd)) fun (r, p') =>
      p'.abortCode = p.abortCode ∧ Kept p.srv p'.srv ∧ p'.srv.buf.length = bufferSize + 1 ∧
        p'.srv.bufOffsetRd = 0 ∧
        p.srv.bufOffsetWr - p.srv.bufOffsetRd + r.bytes.length ≤ bufferSize := by
  obtain ⟨hlen, hrd, hwr⟩ := h
  generalize hremain : p.srv.bufOffsetWr - p.srv.bufOffsetRd = countRemain
  have hfits := p.srv.odIo.read.fits p.srv.odIo.stream (bufferSize - countRemain) p.od
  rw [refill]
  refine Ends.bind (load_ends (by omega)) fun remaining hload => ?_
  refine Ends.bind (store_ends ?_) fun buf hbuf => ?_
  · rw [hload, List.length_take]
    omega
  refine Ends.bind (minus_ends (by omega)) ?_
  rintro _ rfl
  refine Ends.bind (store_ends ?_) fun buf' hbuf' => ?_
  · rw [hbuf, hlen]
    omega
  refine Ends.some ⟨rfl, by constructor <;> rfl, (hbuf'.trans hbuf).trans hlen, rfl, ?_⟩
  omega

theorem accept_ends {p : Progress α} {r : Reading α} {countRemain countMinimum : Nat}
    {calculateCrc : Bool} (hlen : p.srv.buf.length = bufferSize + 1)
    (hrd : p.srv.bufOffsetRd = 0) (hfits : countRemain + r.bytes.length ≤ bufferSize) :
    Ends (accept p r countRemain countMinimum calculateCrc) (Refilled p) := by
  rw [accept]
  refine Ends.bind (endString_ends (by omega)) fun buf hbuf => ?_
  have hcut := cutString_length p.srv r
  generalize cutString p.srv r = cut at hcut ⊢
  have hwr : countRemain + cut.1.length ≤ bufferSize := by omega
  refine Ends.ite (fun _ => ?_) fun _ => Ends.ite (fun _ => ?_) fun _ => ?_
  · exact Ends.some (.inl (failed_abort (by decide) (hbuf.trans hlen)))
  · exact Ends.some (.inr ⟨rfl, ⟨hbuf.trans hlen, hrd.le.trans (Nat.zero_le _), hwr⟩,
      by constructor <;> rfl⟩)
  · exact Ends.some (.inr ⟨rfl, ⟨hbuf.trans hlen, hrd.le.trans (Nat.zero_le _), hwr⟩,
      by constructor <;> rfl⟩)

theorem readFromOd_ends {p : Progress α} {countMinimum : Nat} {calculateCrc : Bool}
    (h : Loaded p.srv) : Ends (readFromOd p countMinimum calculateCrc) (Refilled p) := by
  rw [readFromOd, minus_of_le h.rd]
  refine Ends.ite (fun _ => ?_) fun _ => Ends.some (.inr ⟨rfl, h, Kept.refl _⟩)
  refine Ends.bind (refill_ends h) ?_
  rintro ⟨r, p'⟩ ⟨hcode, hkept, hlen, hrd, hfits⟩
  refine Ends.ite (fun herr => ?_) fun _ => ?_
  · exact Ends.some (.inl (failed_abort (odGetSDOabCode_ne herr.1) hlen))
  · refine (accept_ends hlen hrd hfits).mono fun p'' h'' => ?_
    rcases h'' with hfailed | ⟨hcode', hloaded, hkept'⟩
    · exact .inl hfailed
    · exact .inr ⟨hcode'.trans hcode, hloaded, hkept.trans hkept'⟩

/-! ## The invariant -/

/-- The offsets in each state. In a sub-block each segment has its space, or is still there to be
sent again. -/
def Sound (srv : Server α) : Prop :=
  srv.buf.length = bufferSize + 1 ∧
    match srv.state with
    | .downloadSegmentReq | .downloadSegmentRsp => srv.bufOffsetWr ≤ bufferSize - 9
    | .downloadBlkSubblockReq =>
        srv.bufOffsetWr + 7 * (srv.blockBlksize.toNat - srv.blockSeqno.toNat) ≤ bufferSize - 2 ∧
          srv.blockSeqno < srv.blockBlksize
    | .downloadBlkSubblockRsp | .downloadBlkEndReq => srv.bufOffsetWr ≤ bufferSize - 2
    | .uploadInitiateReq | .uploadInitiateRsp | .uploadSegmentReq | .uploadSegmentRsp
    | .uploadBlkInitiateReq => Loaded srv
    | .uploadBlkInitiateRsp | .uploadBlkInitiateReq2 => Loaded srv ∧ validBlksize srv.blockBlksize
    | .uploadBlkSubblockSreq =>
        Loaded srv ∧ validBlksize srv.blockBlksize ∧ srv.blockSeqno < srv.blockBlksize ∧
          (0 < srv.blockSeqno → srv.blockNoData = 0 ∧ 7 * srv.blockSeqno.toNat ≤ srv.bufOffsetRd)
    | .uploadBlkSubblockCrsp =>
        Loaded srv ∧ srv.blockNoData ≤ 7 ∧
          7 * srv.blockSeqno.toNat ≤ srv.bufOffsetRd + srv.blockNoData.toNat
    | _ => True

theorem sound_of_failed {p : Progress α} (h : Failed p) : Sound p.srv := by
  refine ⟨h.2.2, ?_⟩
  rw [h.2.1]
  trivial

/-- Messages are expected, or have led to an error. -/
def Good (p : Progress α) : Prop :=
  Failed p ∨ p.abortCode = abNone ∧ Sound p.srv

theorem good_abort {p : Progress α} {code : UInt32} (hcode : code ≠ abNone)
    (hlen : p.srv.buf.length = bufferSize + 1) : Good (p.abort code) :=
  .inl (failed_abort hcode hlen)

theorem Good.sound {p : Progress α} (h : Good p) : Sound p.srv := by
  rcases h with h | h
  · exact sound_of_failed h
  · exact h.2

theorem next_good {p : Progress α} {f : Progress α → Option (Progress α)} {R : Prop}
    (h : Failed p ∨ p.abortCode = abNone ∧ R)
    (hf : p.abortCode = abNone → R → Ends (f p) Good) : Ends (p.next f) Good := by
  rcases h with hfailed | ⟨hcode, hr⟩
  · exact Ends.next (fun _ => .inl hfailed) fun hnone => absurd hnone hfailed.1
  · exact Ends.next (fun herr => absurd hcode herr) fun _ => hf hcode hr

/-! ## A received message -/

theorem sound_of_length {srv : Server α} (hlen : srv.buf.length = bufferSize + 1)
    (hstate : srv.state = .idle ∨ srv.state = .abort ∨ srv.state = .downloadInitiateReq ∨
      srv.state = .downloadInitiateRsp ∨ srv.state = .downloadBlkInitiateReq ∨
      srv.state = .downloadBlkInitiateRsp ∨ srv.state = .downloadBlkEndRsp ∨
      srv.state = .uploadBlkEndSreq ∨ srv.state = .uploadBlkEndCrsp) : Sound srv := by
  refine ⟨hlen, ?_⟩
  rcases hstate with h | h | h | h | h | h | h | h | h <;> rw [h] <;> trivial

theorem findObject_good (od : Od α) {p : Progress α} (upload : Bool)
    (hp : p.abortCode = abNone) (hlen : p.srv.buf.length = bufferSize + 1) :
    Failed (findObject od p upload) ∨
      (findObject od p upload).abortCode = abNone ∧
        (findObject od p upload).srv.buf.length = bufferSize + 1 ∧
        (findObject od p upload).srv.state = p.srv.state := by
  unfold findObject
  dsimp only
  split
  · rename_i odr hget
    refine .inl (failed_abort (odGetSDOabCode_ne ?_) hlen)
    rintro rfl
    exact odGetSub_ne_ok hget
  · split
    · exact .inl (failed_abort (by decide) hlen)
    · split
      · exact .inl (failed_abort (by decide) hlen)
      · split
        · exact .inl (failed_abort (by decide) hlen)
        · exact .inr ⟨hp, hlen, rfl⟩

theorem loadObject_good {p : Progress α} (hp : p.abortCode = abNone)
    (hlen : p.srv.buf.length = bufferSize + 1)
    (hstate : p.srv.state = .uploadInitiateReq ∨ p.srv.state = .uploadBlkInitiateReq) :
    Ends (loadObject p) Good := by
  have hsound : ∀ srv : Server α, Loaded srv →
      srv.state = .uploadInitiateReq ∨ srv.state = .uploadBlkInitiateReq → Sound srv := by
    intro srv hloaded hstate
    refine ⟨hloaded.length, ?_⟩
    rcases hstate with h | h <;> rw [h] <;> exact hloaded
  rw [loadObject]
  refine Ends.bind (readFromOd_ends ⟨hlen, Nat.le_refl 0, Nat.zero_le _⟩) fun p' hp' => ?_
  refine next_good (hp'.imp_right fun h' => ⟨h'.1.trans hp, h'.2⟩) ?_
  rintro hnone ⟨⟨hlen', hrd, hwr⟩, hkept⟩
  have hstate' : p'.srv.state = .uploadInitiateReq ∨ p'.srv.state = .uploadBlkInitiateReq := by
    rw [hkept.state]
    exact hstate
  refine Ends.ite (fun _ => Ends.ite (fun _ => ?_) fun _ => ?_) fun _ => ?_
  · exact Ends.some (.inr ⟨hnone, hsound _ ⟨hlen', hrd, hwr⟩ hstate'⟩)
  · refine Ends.some ?_
    split
    · exact good_abort (by decide) hlen'
    · exact .inr ⟨hnone, hsound _ ⟨hlen', hrd, hwr⟩ hstate'⟩
  · exact Ends.some (.inr ⟨hnone, hsound _ ⟨hlen', hrd, hwr⟩ hstate'⟩)

theorem requested_state {command : UInt8} {upload : Bool} {state : State}
    (h : requested command = some (upload, state)) :
    (upload = false ∧ (state = .downloadInitiateReq ∨ state = .downloadBlkInitiateReq)) ∨
      upload = true ∧ (state = .uploadInitiateReq ∨ state = .uploadBlkInitiateReq) := by
  unfold requested at h
  repeat' split at h
  all_goals cases h
  all_goals simp

theorem newCommunication_good (od : Od α) {p : Progress α} (hp : p.abortCode = abNone)
    (h : Sound p.srv) : Ends (newCommunication od p) Good := by
  refine Ends.ite (fun _ => Ends.some (.inr ⟨hp, h⟩)) fun _ => ?_
  cases hreq : requested (p.rx 0) with
  | none => exact Ends.some (good_abort (by decide) h.1)
  | some request =>
      obtain ⟨upload, state⟩ := request
      have hfind := findObject_good od (p := p.setState state) upload hp h.1
      dsimp only
      rcases requested_state hreq with ⟨rfl, hstate⟩ | ⟨rfl, hstate⟩
      · refine Ends.some ?_
        rcases hfind with hfailed | ⟨hcode, hlen, hsame⟩
        · exact .inl hfailed
        · refine .inr ⟨hcode, sound_of_length hlen ?_⟩
          rw [hsame]
          rcases hstate with rfl | rfl
          · exact .inr (.inr (.inl rfl))
          · exact .inr (.inr (.inr (.inr (.inl rfl))))
      · rw [if_pos rfl]
        refine next_good hfind ?_
        rintro hcode ⟨hlen, hsame⟩
        refine loadObject_good hcode hlen ?_
        rw [hsame]
        exact hstate

theorem downloadExpedited_good {p : Progress α} (hp : p.abortCode = abNone)
    (hlen : p.srv.buf.length = bufferSize + 1) : Good (downloadExpedited p) := by
  have hrsp : ∀ q : Progress α, q.abortCode = abNone → q.srv.buf.length = bufferSize + 1 →
      q.srv.state = .downloadInitiateRsp → Good q := fun q hq hq' hstate =>
    .inr ⟨hq, sound_of_length hq' (.inr (.inr (.inr (.inl hstate))))⟩
  unfold downloadExpedited
  dsimp only
  repeat' split
  all_goals first
    | exact good_abort (tooLongOrShort_ne _) hlen
    | exact hrsp _ hp hlen rfl
    | exact good_abort (odGetSDOabCode_ne ‹_›) hlen

theorem indicateSize_good {p : Progress α} {indicated : Bool} {rsp : State}
    (hp : p.abortCode = abNone) (hlen : p.srv.buf.length = bufferSize + 1)
    (hrsp : rsp = .downloadInitiateRsp ∨ rsp = .downloadBlkInitiateRsp) :
    Good (indicateSize p indicated rsp) := by
  have hsound : ∀ q : Progress α, q.abortCode = abNone → q.srv.buf.length = bufferSize + 1 →
      q.srv.state = rsp → Good q := by
    rintro q hq hq' rfl
    refine .inr ⟨hq, sound_of_length hq' ?_⟩
    rcases hrsp with h | h
    · exact .inr (.inr (.inr (.inl h)))
    · exact .inr (.inr (.inr (.inr (.inr (.inl h)))))
  unfold indicateSize
  dsimp only
  repeat' split
  all_goals first
    | exact good_abort (by decide) hlen
    | exact hsound _ hp hlen rfl

theorem emptyBuffer_ends {p : Progress α} (hp : p.abortCode = abNone)
    (h : Filled p.srv (bufferSize - 2)) :
    Ends (emptyBuffer p) fun p' => Written p p' (bufferSize - 9) := by
  rw [emptyBuffer, minus_of_le (by have := h.wr; omega)]
  refine Ends.ite (fun _ => ?_) fun hspace => ?_
  · refine (validateAndWriteToOD_ends hp ⟨h.length, h.wr.trans (by decide)⟩).mono fun p' hp' => ?_
    rcases hp' with hfailed | ⟨hcode, hfilled, hkept⟩
    · exact .inl hfailed
    · exact .inr ⟨hcode, ⟨hfilled.length, hfilled.wr.trans (Nat.zero_le _)⟩, hkept⟩
  · refine Ends.some (.inr ⟨rfl, ⟨h.length, ?_⟩, Kept.refl _⟩)
    have := not_or.mp hspace
    omega

theorem segment_length (data : Vector UInt8 8) (command : UInt8) :
    ((data.toList.drop 1).take (7 - ((command >>> 1) &&& 0x07).toNat)).length ≤ 7 :=
  (List.length_take_le _ _).trans (Nat.sub_le 7 _)

theorem downloadSegment_good {p : Progress α} (hp : p.abortCode = abNone)
    (h : Filled p.srv (bufferSize - 9)) : Ends (downloadSegment p) Good := by
  have hsize : bufferSize = 1024 := rfl
  have hwr := h.wr
  rw [downloadSegment]
  refine Ends.ite (fun _ => ?_) fun _ => Ends.some (good_abort (by decide) h.length)
  refine Ends.ite (fun _ => Ends.some (good_abort (by decide) h.length)) fun _ => ?_
  refine Ends.bind (store_ends ?_) fun buf hbuf => ?_
  · have hspace : bufferSize - 9 + 7 ≤ p.srv.buf.length := by rw [h.length]; decide
    exact (Nat.add_le_add hwr (segment_length p.srv.canRxData (p.rx 0))).trans hspace
  have hlen := hbuf.trans h.length
  refine Ends.ite (fun _ => Ends.some (good_abort (by decide) hlen)) fun _ => ?_
  refine Ends.bind (emptyBuffer_ends hp ⟨hlen, ?_⟩) fun p' hp' => ?_
  · change p.srv.bufOffsetWr + (7 - _) ≤ _
    omega
  refine next_good (hp'.imp_right fun h' => ⟨h'.1.trans hp, h'.2.1⟩) fun hnone hfilled => ?_
  exact Ends.some (.inr ⟨hnone, hfilled.length, hfilled.wr⟩)

theorem downloadBlkEnd_good {p : Progress α} (hp : p.abortCode = abNone)
    (h : Filled p.srv (bufferSize - 2)) : Ends (downloadBlkEnd p) Good := by
  rw [downloadBlkEnd]
  refine Ends.ite (fun _ => ?_) fun _ => Ends.some (good_abort (by decide) h.length)
  refine Ends.ite (fun _ => Ends.some (good_abort (by decide) h.length)) fun _ => ?_
  refine Ends.bind (validateAndWriteToOD_ends hp ⟨h.length, ?_⟩) fun p' hp' => ?_
  · exact (Nat.sub_le _ _).trans (h.wr.trans (by decide))
  · refine next_good (hp'.imp_right fun h' => ⟨h'.1.trans hp, h'.2.1⟩) fun hnone hfilled => ?_
    refine Ends.some (.inr ⟨hnone, sound_of_length hfilled.length ?_⟩)
    exact .inr (.inr (.inr (.inr (.inr (.inr (.inl rfl))))))

theorem startCrc_ends {p : Progress α} (h : Loaded p.srv) : Ends (startCrc p) Loaded := by
  rw [startCrc]
  refine Ends.ite (fun _ => ?_) fun _ => Ends.some ⟨h.length, h.rd, h.wr⟩
  refine Ends.bind (load_ends ?_) fun block _ => Ends.some ⟨h.length, h.rd, h.wr⟩
  rw [h.length, Nat.zero_add]
  exact h.wr.trans (Nat.le_succ _)

theorem uploadBlkInitiate_good {p : Progress α} (hp : p.abortCode = abNone) (h : Loaded p.srv) :
    Ends (uploadBlkInitiate p) Good := by
  rw [uploadBlkInitiate]
  refine Ends.ite (fun _ => ?_) fun _ => ?_
  · exact Ends.some (.inr ⟨hp, h.length, ⟨h.length, h.rd, h.wr⟩⟩)
  refine Ends.bind (startCrc_ends h) fun srv hsrv => ?_
  refine Ends.ite (fun _ => Ends.some (good_abort (by decide) hsrv.length)) fun hvalid => ?_
  refine Ends.ite (fun _ => Ends.some (good_abort (by decide) hsrv.length)) fun _ => Ends.some ?_
  exact .inr ⟨hp, hsrv.length, ⟨hsrv.length, hsrv.rd, hsrv.wr⟩, not_not.mp hvalid⟩

theorem pos_of_validBlksize {blksize : UInt8} (h : validBlksize blksize) : 0 < blksize :=
  (of_decide_eq_true h).1

/-- What has been sent in the sub-block is still there. -/
def CanResend (srv : Server α) : Prop :=
  0 < srv.blockSeqno → srv.blockNoData ≤ 7 ∧
    7 * srv.blockSeqno.toNat ≤ srv.bufOffsetRd + srv.blockNoData.toNat

theorem stepBack_ends {srv : Server α} {ackseq : UInt8} (h : Loaded srv) (hsent : CanResend srv) :
    Ends (stepBack srv ackseq) fun srv' => Loaded srv' ∧ Kept srv srv' := by
  rw [stepBack]
  refine Ends.ite (fun hack => ?_) fun _ => Ends.some ⟨h, Kept.refl _⟩
  have hlt : ackseq.toNat < srv.blockSeqno.toNat := hack
  have hpos : 0 < srv.blockSeqno.toNat := Nat.zero_lt_of_lt hlt
  obtain ⟨hnoData, hrd⟩ := hsent hpos
  have hseven : srv.blockNoData.toNat ≤ 7 := hnoData
  have hdiff : (srv.blockSeqno - ackseq).toNat = srv.blockSeqno.toNat - ackseq.toNat :=
    UInt8.toNat_sub_of_le _ _ (UInt8.le_iff_toNat_le.mpr hlt.le)
  refine Ends.bind (minus_ends (by rw [hdiff]; omega)) ?_
  rintro _ rfl
  refine Ends.bind (minus_ends (by rw [hdiff]; omega)) ?_
  rintro _ rfl
  exact Ends.some ⟨⟨h.length, (Nat.sub_le _ _).trans h.rd, h.wr⟩, by constructor <;> rfl⟩

theorem sound_subblock {srv : Server α} (h : Loaded srv) (hvalid : validBlksize srv.blockBlksize) :
    Sound { srv with blockSeqno := 0, state := .uploadBlkSubblockSreq } :=
  ⟨h.length, ⟨h.length, h.rd, h.wr⟩, hvalid, pos_of_validBlksize hvalid,
    fun hpos => (UInt8.lt_irrefl 0 hpos).elim⟩

theorem uploadBlkSubblock_good {p : Progress α} (hp : p.abortCode = abNone) (h : Loaded p.srv)
    (hsent : CanResend p.srv) : Ends (uploadBlkSubblock p) Good := by
  rw [uploadBlkSubblock]
  refine Ends.ite (fun _ => ?_) fun _ => Ends.some (good_abort (by decide) h.length)
  refine Ends.ite (fun _ => Ends.some (good_abort (by decide) h.length)) fun hvalid => ?_
  refine Ends.ite (fun _ => Ends.some (good_abort (by decide) h.length)) fun _ => ?_
  refine Ends.bind (stepBack_ends ⟨h.length, h.rd, h.wr⟩ hsent) fun srv hsrv => ?_
  refine Ends.bind (readFromOd_ends hsrv.1) fun p' hp' => ?_
  refine next_good (hp'.imp_right fun h' => ⟨h'.1.trans hp, h'.2⟩) ?_
  rintro hnone ⟨hloaded, hkept⟩
  have hblksize : validBlksize p'.srv.blockBlksize := by
    rw [hkept.blockBlksize, hsrv.2.blockBlksize]
    exact not_not.mp hvalid
  refine Ends.ite (fun _ => Ends.some ?_) fun _ => Ends.some ?_
  · refine .inr ⟨hnone, sound_of_length hloaded.length ?_⟩
    exact .inr (.inr (.inr (.inr (.inr (.inr (.inr (.inl rfl)))))))
  · exact .inr ⟨hnone, sound_subblock hloaded hblksize⟩

theorem handleMessage_good {p : Progress α} (h : Good p) : Ends (handleMessage p) Good := by
  rcases h with hfailed | ⟨hp, hsound⟩
  · rw [handleMessage, hfailed.2.1]
    exact Ends.some (.inl hfailed)
  obtain ⟨hlen, hstate⟩ := id hsound
  unfold handleMessage
  split <;> rename_i hs
  case h_14 => exact Ends.some (good_abort (by decide) hlen)
  all_goals rw [hs] at hstate
  · exact Ends.some (.inr ⟨hp, hsound⟩)
  · exact Ends.some (.inr ⟨hp, hsound⟩)
  · refine Ends.ite (fun _ => ?_) fun _ => ?_
    · exact Ends.some (downloadExpedited_good hp hlen)
    · exact Ends.some (indicateSize_good hp hlen (.inl rfl))
  · exact downloadSegment_good hp ⟨hlen, hstate⟩
  · exact Ends.some (.inr ⟨hp, hlen, ⟨hlen, hstate.rd, hstate.wr⟩⟩)
  · refine Ends.some ?_
    unfold uploadSegment
    split
    · split
      · exact good_abort (by decide) hlen
      · exact .inr ⟨hp, hlen, ⟨hlen, hstate.rd, hstate.wr⟩⟩
    · exact good_abort (by decide) hlen
  · exact Ends.some (indicateSize_good hp hlen (.inr rfl))
  · exact Ends.some (.inr ⟨hp, hsound⟩)
  · exact downloadBlkEnd_good hp ⟨hlen, hstate⟩
  · exact uploadBlkInitiate_good hp hstate
  · refine Ends.ite (fun _ => Ends.some ?_) fun _ => Ends.some (good_abort (by decide) hlen)
    exact .inr ⟨hp, sound_subblock hstate.1 hstate.2⟩
  · refine uploadBlkSubblock_good hp hstate.1 fun hpos => ?_
    obtain ⟨hnoData, hrd⟩ := hstate.2.2.2 hpos
    rw [hnoData]
    exact ⟨by decide, hrd⟩
  · exact uploadBlkSubblock_good hp hstate.1 fun _ => hstate.2

theorem Sound.setTimers {srv : Server α} (h : Sound srv) (canRxNew : Bool)
    (canRxData : Vector UInt8 8) (timeoutTimer blockTimeoutTimer : UInt32) :
    Sound { srv with canRxNew, canRxData, timeoutTimer, blockTimeoutTimer } := by
  obtain ⟨hlen, hstate⟩ := h
  refine ⟨hlen, ?_⟩
  cases hs : srv.state <;> simp only [hs] at hstate ⊢
  all_goals first
    | exact hstate
    | exact ⟨hstate.length, hstate.rd, hstate.wr⟩
    | exact ⟨⟨hstate.1.length, hstate.1.rd, hstate.1.wr⟩, hstate.2⟩

theorem received_good (od : Od α) {p : Progress α} (hp : p.abortCode = abNone)
    (h : Sound p.srv) : Ends (received od p) Good := by
  rw [received]
  refine Ends.bind (newCommunication_good od hp h) fun p₁ h₁ => ?_
  refine Ends.bind (handleMessage_good h₁) fun p₂ h₂ => Ends.some ?_
  exact h₂.imp (fun hfailed => hfailed) fun hgood => ⟨hgood.1, hgood.2.setTimers _ _ _ _⟩

/-! ## `CO_SDOserver_process` -/

theorem blockTick_sound {srv : Server α} (timeDifferenceUs : UInt32) (h : Sound srv) :
    Sound (srv.blockTick timeDifferenceUs) := by
  unfold Server.blockTick
  split
  · rename_i hs
    have hwr : srv.bufOffsetWr ≤ bufferSize - 2 := by
      have hstate := h.2
      rw [hs] at hstate
      exact (Nat.le_add_right _ _).trans hstate.1
    dsimp only
    repeat' split
    all_goals first
      | exact ⟨h.1, hwr⟩
      | exact h.setTimers _ _ _ _
  · exact h

theorem timers_good {p : Progress α} (timeDifferenceUs : UInt32) (h : Good p) :
    Good (timers timeDifferenceUs p) := by
  have htick : Good { p with srv := p.srv.tick timeDifferenceUs } := by
    unfold Server.tick
    split
    · exact h.imp (fun hfailed => hfailed) fun hgood => ⟨hgood.1, hgood.2.setTimers _ _ _ _⟩
    · exact h
  have hcheck : Good (checkTimeout { p with srv := p.srv.tick timeDifferenceUs }) := by
    unfold checkTimeout
    split
    · exact good_abort (by decide) htick.sound.1
    · exact htick
  rcases hcheck with hfailed | ⟨hcode, hsound⟩
  · refine .inl ⟨hfailed.1, ?_, (blockTick_sound _ (sound_of_failed hfailed)).1⟩
    change (Server.blockTick _ _).state = _
    rw [Server.blockTick, if_neg (by rw [hfailed.2.1]; decide)]
    exact hfailed.2.1
  · exact .inr ⟨hcode, blockTick_sound _ hsound⟩

theorem finish_sound {q : Pass α} {data : Vector UInt8 8} {srv : Server α}
    (hlen : srv.buf.length = bufferSize + 1) : Sound (q.finish data srv).p.srv :=
  sound_of_length hlen (.inl rfl)

theorem fail_sound {q : Pass α} {code : UInt32} (hlen : q.p.srv.buf.length = bufferSize + 1) :
    Sound (q.fail code).p.srv :=
  sound_of_length hlen (.inr (.inl rfl))

/-- The server is sound behind a pass. -/
def Passed (q : Pass α) : Prop := Sound q.p.srv

theorem sendDownloadInitiate_passed {q : Pass α} (hlen : q.p.srv.buf.length = bufferSize + 1) :
    Passed (sendDownloadInitiate q) := by
  unfold sendDownloadInitiate
  dsimp only
  split
  · exact finish_sound hlen
  · exact ⟨hlen, Nat.zero_le _⟩

theorem sendDownloadSegment_passed {q : Pass α} (h : Filled q.p.srv (bufferSize - 9)) :
    Passed (sendDownloadSegment q) := by
  unfold sendDownloadSegment
  dsimp only
  split
  · exact finish_sound h.length
  · exact ⟨h.length, h.wr⟩

theorem load_sizeInd_ends {srv : Server α} (h : Loaded srv) (hfour : srv.sizeInd ≤ 4) :
    Ends (load srv.buf 0 srv.sizeInd.toNat) fun _ => True := by
  have hsize : bufferSize = 1024 := rfl
  have hle : srv.sizeInd.toNat ≤ 4 := hfour
  refine (load_ends ?_).mono fun _ _ => trivial
  rw [h.length]
  omega

theorem sendUploadInitiate_ends {q : Pass α} (h : Loaded q.p.srv) :
    Ends (sendUploadInitiate q) Passed := by
  rw [sendUploadInitiate]
  refine Ends.ite (fun hsize => ?_) fun _ => ?_
  · exact Ends.bind (load_sizeInd_ends h hsize.2) fun _ _ => Ends.some (finish_sound h.length)
  · exact Ends.some ⟨h.length, ⟨h.length, h.rd, h.wr⟩⟩

theorem nextBytes_ends {srv : Server α} (h : Loaded srv) :
    Ends (nextBytes srv) fun (_, bytes) => bytes.length ≤ 7 ∧
      srv.bufOffsetRd + bytes.length ≤ srv.bufOffsetWr ∧
      (bytes.length = 7 ∨ srv.bufOffsetRd + bytes.length = srv.bufOffsetWr) := by
  obtain ⟨hlen, hrd, hwr⟩ := h
  rw [nextBytes]
  refine Ends.bind (minus_ends hrd) ?_
  rintro _ rfl
  dsimp only
  generalize hlast : decide (srv.bufOffsetWr - srv.bufOffsetRd < 7 ∨
    srv.finished = true ∧ srv.bufOffsetWr - srv.bufOffsetRd = 7) = last
  have hcount : (if last then srv.bufOffsetWr - srv.bufOffsetRd else 7) ≤ 7 ∧
      srv.bufOffsetRd + (if last then srv.bufOffsetWr - srv.bufOffsetRd else 7) ≤
        srv.bufOffsetWr ∧
      ((if last then srv.bufOffsetWr - srv.bufOffsetRd else 7) = 7 ∨
        srv.bufOffsetRd + (if last then srv.bufOffsetWr - srv.bufOffsetRd else 7) =
          srv.bufOffsetWr) := by
    cases last with
    | true =>
        have := of_decide_eq_true hlast
        rw [if_pos rfl]
        omega
    | false =>
        have := of_decide_eq_false hlast
        rw [if_neg (by decide)]
        omega
  refine Ends.bind (load_ends (by omega)) ?_
  rintro _ rfl
  refine Ends.some ?_
  rw [List.length_take_of_le (by rw [List.length_drop]; omega)]
  exact hcount

theorem sendUploadSegment_ends {q : Pass α} (hcode : q.p.abortCode = abNone)
    (h : Loaded q.p.srv) : Ends (sendUploadSegment q) Passed := by
  rw [sendUploadSegment]
  refine Ends.bind (readFromOd_ends h) fun p hp => ?_
  refine Ends.ite (fun herr => ?_) fun hnone => ?_
  · rcases hp with hfailed | ⟨hsame, -⟩
    · exact Ends.some (sound_of_failed hfailed)
    · exact absurd (hsame.trans hcode) herr
  rcases hp with hfailed | ⟨-, hloaded, -⟩
  · exact absurd hfailed.1 hnone
  refine Ends.bind (nextBytes_ends hloaded) ?_
  rintro ⟨last, bytes⟩ ⟨-, hrd, -⟩
  refine Ends.ite (fun _ => Ends.some (fail_sound hloaded.length)) fun _ => ?_
  refine Ends.ite (fun _ => Ends.some (fail_sound hloaded.length)) fun _ => ?_
  refine Ends.ite (fun _ => Ends.some (finish_sound hloaded.length)) fun _ => ?_
  exact Ends.some ⟨hloaded.length, ⟨hloaded.length, hrd, hloaded.wr⟩⟩

theorem sendDownloadBlkInitiate_passed {q : Pass α}
    (hlen : q.p.srv.buf.length = bufferSize + 1) : Passed (sendDownloadBlkInitiate q) :=
  ⟨hlen, by
    change 0 + 7 * ((UInt8.ofNat (min ((bufferSize - 2) / 7) 127)).toNat - 0) ≤ bufferSize - 2 ∧
      (0 : UInt8) < UInt8.ofNat (min ((bufferSize - 2) / 7) 127)
    decide⟩

theorem subblockSpace_ends {p : Progress α} (hcode : p.abortCode = abNone)
    (h : Filled p.srv (bufferSize - 2)) :
    Ends (subblockSpace p) fun (p', count) => Failed p' ∨
      p'.abortCode = abNone ∧ p'.srv.buf.length = bufferSize + 1 ∧ 0 < count ∧ count ≤ 127 ∧
        p'.srv.bufOffsetWr + 7 * count ≤ bufferSize - 2 ∧ Kept p.srv p'.srv := by
  have hsize : bufferSize = 1024 := rfl
  have hwr := h.wr
  rw [subblockSpace]
  refine Ends.bind (minus_ends hwr) ?_
  rintro _ rfl
  refine Ends.ite (fun hspace => ?_) fun hspace => Ends.ite (fun _ => ?_) fun hempty => ?_
  · exact Ends.some (.inr ⟨hcode, h.length, by decide, Nat.le_refl _, by omega, Kept.refl _⟩)
  · refine Ends.bind (validateAndWriteToOD_ends hcode ⟨h.length, by omega⟩) fun p' hp' => ?_
    refine Ends.ite (fun herr => ?_) fun hnone => ?_
    · rcases hp' with hfailed | ⟨hsame, -⟩
      · exact Ends.some (.inl hfailed)
      · exact absurd (hsame.trans hcode) herr
    rcases hp' with hfailed | ⟨hsame, hfilled, hkept⟩
    · exact absurd hfailed.1 hnone
    have hzero : p'.srv.bufOffsetWr = 0 := Nat.le_zero.mp hfilled.wr
    refine Ends.bind (minus_ends (by omega)) ?_
    rintro _ rfl
    refine Ends.some (.inr ⟨hsame.trans hcode, hfilled.length, ?_⟩)
    rw [hzero]
    exact ⟨by decide, by decide, by decide, hkept⟩
  · omega

theorem sendDownloadBlkSubblock_ends {q : Pass α} (hcode : q.p.abortCode = abNone)
    (h : Filled q.p.srv (bufferSize - 2)) : Ends (sendDownloadBlkSubblock q) Passed := by
  rw [sendDownloadBlkSubblock]
  refine Ends.ite (fun _ => Ends.some ⟨h.length, h.wr⟩) fun _ => ?_
  refine Ends.bind (subblockSpace_ends hcode h) ?_
  rintro ⟨p, count⟩ hp
  refine Ends.ite (fun herr => ?_) fun hnone => ?_
  · rcases hp with hfailed | ⟨hok, -⟩
    · exact Ends.some (sound_of_failed hfailed)
    · exact absurd hok herr
  rcases hp with hfailed | ⟨-, hlen, hpos, hmax, hspace, -⟩
  · exact absurd hfailed.1 hnone
  have hcount : (UInt8.ofNat count).toNat = count :=
    UInt8.toNat_ofNat'.trans (Nat.mod_eq_of_lt (by omega))
  refine Ends.some ⟨hlen, ?_, ?_⟩
  · change p.srv.bufOffsetWr + 7 * ((UInt8.ofNat count).toNat - 0) ≤ _
    rw [hcount]
    exact hspace
  · change 0 < (UInt8.ofNat count).toNat
    rw [hcount]
    exact hpos

theorem sendUploadBlkInitiate_passed {q : Pass α} (h : Loaded q.p.srv)
    (hvalid : validBlksize q.p.srv.blockBlksize) : Passed (sendUploadBlkInitiate q) := by
  unfold sendUploadBlkInitiate
  dsimp only
  split <;> exact ⟨h.length, ⟨h.length, h.rd, h.wr⟩, hvalid⟩

theorem toNat_succ {a b : UInt8} (h : a < b) : (a + 1).toNat = a.toNat + 1 := by
  have hlt := UInt8.lt_iff_toNat_lt.mp h
  have hmax := UInt8.toNat_lt b
  rw [UInt8.toNat_add]
  exact Nat.mod_eq_of_lt (lt_of_le_of_lt (Nat.succ_le_of_lt hlt) hmax)

theorem sendUploadBlkSubblock_ends {q : Pass α} (h : Loaded q.p.srv)
    (hvalid : validBlksize q.p.srv.blockBlksize)
    (hmore : q.p.srv.blockSeqno < q.p.srv.blockBlksize)
    (hsent : 0 < q.p.srv.blockSeqno → q.p.srv.blockNoData = 0 ∧
      7 * q.p.srv.blockSeqno.toNat ≤ q.p.srv.bufOffsetRd)
    (hstate : q.p.srv.state = .uploadBlkSubblockSreq) :
    Ends (sendUploadBlkSubblock q) Passed := by
  have hbefore : 7 * q.p.srv.blockSeqno.toNat ≤ q.p.srv.bufOffsetRd := by
    rcases Nat.eq_zero_or_pos q.p.srv.blockSeqno.toNat with hzero | hpos
    · omega
    · exact (hsent hpos).2
  have hseqno := toNat_succ hmore
  rw [sendUploadBlkSubblock]
  refine Ends.bind (nextBytes_ends h) ?_
  rintro ⟨last, bytes⟩ ⟨hseven, hrd, hall⟩
  refine Ends.ite (fun _ => Ends.some (fail_sound h.length)) fun _ => ?_
  have hnoData : (7 - UInt8.ofNat bytes.length).toNat = 7 - bytes.length := by
    interval_cases bytes.length <;> rfl
  refine Ends.ite (fun _ => Ends.some (fail_sound h.length)) fun _ =>
    Ends.ite (fun _ => Ends.some ?_) fun hend => Ends.some ?_
  · refine ⟨h.length, ⟨h.length, hrd, h.wr⟩, ?_, ?_⟩
    · change (7 - UInt8.ofNat bytes.length).toNat ≤ 7
      omega
    · change 7 * (q.p.srv.blockSeqno + 1).toNat ≤
        q.p.srv.bufOffsetRd + bytes.length + (7 - UInt8.ofNat bytes.length).toNat
      omega
  · obtain ⟨hleft, hseq⟩ := not_or.mp hend
    refine ⟨h.length, ?_⟩
    dsimp only [Pass.send, Server.took]
    rw [hstate]
    refine ⟨⟨h.length, hrd, h.wr⟩, hvalid, UInt8.not_le.mp hseq, fun _ => ?_⟩
    have hfull : bytes.length = 7 := hall.resolve_right fun heq => hleft heq.symm
    refine ⟨?_, ?_⟩
    · rw [hfull]
      rfl
    · omega

theorem transmit_ends {q : Pass α} (h : Good q.p) : Ends (transmit q) Passed := by
  rcases h with hfailed | ⟨hcode, hsound⟩
  · rw [transmit, hfailed.2.1]
    exact Ends.some (sound_of_failed hfailed)
  obtain ⟨hlen, hstate⟩ := id hsound
  unfold transmit
  split <;> rename_i hs
  case h_11 => exact Ends.some hsound
  all_goals rw [hs] at hstate
  · exact Ends.some (sendDownloadInitiate_passed hlen)
  · exact Ends.some (sendDownloadSegment_passed ⟨hlen, hstate⟩)
  · exact sendUploadInitiate_ends hstate
  · exact sendUploadSegment_ends hcode hstate
  · exact Ends.some (sendDownloadBlkInitiate_passed hlen)
  · exact sendDownloadBlkSubblock_ends hcode ⟨hlen, hstate⟩
  · exact Ends.some (finish_sound hlen)
  · exact Ends.some (sendUploadBlkInitiate_passed hstate.1 hstate.2)
  · exact sendUploadBlkSubblock_ends hstate.1 hstate.2.1 hstate.2.2.1 hstate.2.2.2 hs
  · refine Ends.some (sound_of_length hlen ?_)
    exact .inr (.inr (.inr (.inr (.inr (.inr (.inr (.inr rfl)))))))

theorem conclude_passed {q : Pass α} (h : Passed q) : Passed (conclude q) := by
  unfold conclude
  split
  · split
    · exact sound_of_length h.1 (.inl rfl)
    · exact h
    · exact h
    · exact h
  · exact h

theorem proceed_ends {p : Progress α} (timeDifferenceUs : UInt32) (txBufferFull : Bool)
    (h : Good p) : Ends (proceed timeDifferenceUs txBufferFull p) Passed := by
  have htimers := timers_good timeDifferenceUs h
  rw [proceed]
  refine Ends.ite (fun _ => Ends.some htimers.sound) fun _ => ?_
  refine Ends.bind (transmit_ends htimers) fun q hq => Ends.some (conclude_passed hq)

theorem coSDOserverProcess_ends (list : Od α) {srv : Server α} (od : OdState α)
    (nmtIsPreOrOperational : Bool) (timeDifferenceUs : UInt32) (txBufferFull : Bool)
    (h : Sound srv) :
    Ends (coSDOserverProcess list srv od nmtIsPreOrOperational timeDifferenceUs txBufferFull)
      Passed := by
  rw [coSDOserverProcess]
  refine Ends.ite (fun _ => Ends.some h) fun _ => Ends.ite (fun _ => ?_) fun _ =>
    Ends.ite (fun _ => ?_) fun _ => ?_
  · exact Ends.some (sound_of_length h.1 (.inl rfl))
  · exact Ends.bind (received_good list rfl h) fun p hp => proceed_ends 0 txBufferFull hp
  · exact proceed_ends timeDifferenceUs txBufferFull (.inr ⟨rfl, h⟩)

/-! ## `CO_SDO_receive` -/

theorem receiveSegment_ends {srv : Server α} (data : Vector UInt8 8) (h : Sound srv)
    (hs : srv.state = .downloadBlkSubblockReq) : Ends (receiveSegment srv data) Sound := by
  have hsize : bufferSize = 1024 := rfl
  obtain ⟨hlen, hstate⟩ := id h
  rw [hs] at hstate
  obtain ⟨hspace, hmore⟩ := hstate
  have hwr : srv.bufOffsetWr ≤ bufferSize - 2 := (Nat.le_add_right _ _).trans hspace
  rw [receiveSegment]
  refine Ends.ite (fun hroom => ?_) fun _ => Ends.some h
  refine Ends.ite (fun hnext => ?_) fun _ => Ends.ite (fun _ => ?_) fun _ => ?_
  · obtain ⟨hle, hseqno⟩ := hnext
    have hseven : (data.toList.drop 1).length = 7 := by simp
    have hle' : (data.toList.headD 0 &&& 0x7F).toNat ≤ srv.blockBlksize.toNat := hle
    dsimp only at hseqno
    refine Ends.bind (store_ends ?_) fun buf hbuf => ?_
    · rw [hseven]
      change srv.bufOffsetWr + 7 ≤ srv.buf.length
      omega
    refine Ends.ite (fun _ => Ends.some ⟨hbuf.trans hlen, ?_⟩) fun _ =>
      Ends.ite (fun _ => Ends.some ⟨hbuf.trans hlen, ?_⟩) fun hne => Ends.some ⟨hbuf.trans hlen, ?_⟩
    · change srv.bufOffsetWr + 7 ≤ bufferSize - 2
      omega
    · change srv.bufOffsetWr + 7 ≤ bufferSize - 2
      omega
    · have hlt : (data.toList.headD 0 &&& 0x7F).toNat < srv.blockBlksize.toNat :=
        lt_of_le_of_ne hle' fun heq => hne (UInt8.toNat_inj.mp heq)
      rw [hs]
      refine ⟨?_, hlt⟩
      change srv.bufOffsetWr + 7 +
        7 * (srv.blockBlksize.toNat - (data.toList.headD 0 &&& 0x7F).toNat) ≤ _
      omega
  · exact Ends.some ⟨hlen, hwr⟩
  · exact Ends.some (h.setTimers _ _ _ _)

theorem coSDOReceive_ends {srv : Server α} (dlc : Nat) (data : Vector UInt8 8) (h : Sound srv) :
    Ends (coSDOReceive srv dlc data) Sound := by
  rw [coSDOReceive]
  refine Ends.ite (fun _ => Ends.some h) fun _ => ?_
  refine Ends.ite (fun _ => Ends.some (sound_of_length h.1 (.inl rfl))) fun _ => ?_
  refine Ends.ite (fun _ => Ends.some h) fun _ => ?_
  refine Ends.ite (fun _ => Ends.some (sound_of_length h.1 (.inl rfl))) fun _ => ?_
  refine Ends.ite (fun hs => receiveSegment_ends data h hs) fun _ => ?_
  refine Ends.ite (fun _ => Ends.some h) fun _ => Ends.some (h.setTimers _ _ _ _)

/-! ## Runs -/

/-- `CO_SDOserver_init`, with what was in the memory before. -/
def coSDOserverInit (srv : Server α) (valid : Bool) (sdoTimeoutTimeMs : UInt16) : Server α :=
  { srv with
    sdoTimeoutTimeUs := sdoTimeoutTimeMs.toUInt32 * 1000
    blockSdoTimeoutTimeUs := sdoTimeoutTimeMs.toUInt32 * 700
    state := .idle
    canRxNew := false
    valid }

/-- The server is started, a message arrives, `CO_SDOserver_process` is called, or the application
changes its variables. -/
inductive Event (α : Type)
  | init (valid : Bool) (sdoTimeoutTimeMs : UInt16)
  | receive (dlc : Nat) (data : Vector UInt8 8)
  | process (nmtIsPreOrOperational : Bool) (timeDifferenceUs : UInt32) (txBufferFull : Bool)
  | change (od : OdState α)

def step (list : Od α) (s : Server α × OdState α) : Event α → Option (Server α × OdState α)
  | .init valid sdoTimeoutTimeMs => some (coSDOserverInit s.1 valid sdoTimeoutTimeMs, s.2)
  | .receive dlc data => do
      let srv ← coSDOReceive s.1 dlc data
      some (srv, s.2)
  | .process nmtIsPreOrOperational timeDifferenceUs txBufferFull => do
      let q ← coSDOserverProcess list s.1 s.2 nmtIsPreOrOperational timeDifferenceUs txBufferFull
      some (q.p.srv, q.p.od)
  | .change od => some (s.1, od)

theorem step_ends (list : Od α) (s : Server α × OdState α) (ev : Event α) (h : Sound s.1) :
    Ends (step list s ev) fun s' => Sound s'.1 := by
  cases ev with
  | init valid sdoTimeoutTimeMs => exact Ends.some (sound_of_length h.1 (.inl rfl))
  | receive dlc data => exact Ends.bind (coSDOReceive_ends dlc data h) fun _ hsrv => Ends.some hsrv
  | process nmtIsPreOrOperational timeDifferenceUs txBufferFull =>
      exact Ends.bind (coSDOserverProcess_ends list s.2 _ _ _ h) fun _ hq => Ends.some hq
  | change od => exact Ends.some h

/-- Whatever messages arrive, and whatever the read and write functions do, the server stays inside
its buffer, no difference of its offsets wraps around, and what it may have to send again is still
there. -/
theorem run_inside_buffer (list : Od α) (srv : Server α) (od : OdState α) (valid : Bool)
    (sdoTimeoutTimeMs : UInt16) (evs : List (Event α)) (hbuf : srv.buf.length = bufferSize + 1) :
    Ends (evs.foldlM (step list) (coSDOserverInit srv valid sdoTimeoutTimeMs, od)) fun s =>
      Sound s.1 := by
  refine Ends.foldlM ?_ (step_ends list) evs
  exact sound_of_length hbuf (.inl rfl)

/-- A server in memory that has been cleared. -/
def cleared : Server Unit where
  valid := false
  state := .idle
  odIo := ⟨⟨none, none, 0, 0, 0, 0⟩, odReadDisabled, odWriteDisabled⟩
  index := 0
  subIndex := 0
  canRxNew := false
  canRxData := Vector.replicate 8 0
  sizeInd := 0
  sizeTran := 0
  toggle := 0
  finished := false
  sdoTimeoutTimeUs := 0
  timeoutTimer := 0
  buf := List.replicate (bufferSize + 1) 0
  bufOffsetWr := 0
  bufOffsetRd := 0
  blockSdoTimeoutTimeUs := 0
  blockTimeoutTimer := 0
  blockSeqno := 0
  blockBlksize := 0
  blockNoData := 0
  blockCrcEnabled := false
  blockCrc := 0

/-- A request for an object that the dictionary does not have. -/
theorem run_inside_buffer_sample :
    Ends ([Event.receive 8 (message 0x40 [0x18, 0x10, 0x01]), .process true 1000 false].foldlM
      (step []) (coSDOserverInit cleared true 1000, ⟨fun _ => 0, ()⟩)) fun s => Sound s.1 :=
  run_inside_buffer [] cleared _ true 1000 _ List.length_replicate

end ShGateway.SdoServerRuns
