import ShGateway.SdoServerRuns

/-!
An SDO server that gets no more messages: it sends what it has to send, its timer runs out, and it
is back in `CO_SDO_ST_IDLE`.
-/

namespace ShGateway.SdoServerIdle

open ShGateway.Lib.Outcome
open ShGateway.OdInterface
open ShGateway.SdoServer
open ShGateway.SdoServerRuns

variable {α : Type}

/-- The messages that the server sends before it waits for one. -/
def toSend (srv : Server α) : Nat :=
  match srv.state with
  | .downloadInitiateRsp | .downloadSegmentRsp | .uploadInitiateRsp | .uploadSegmentRsp
  | .downloadBlkInitiateRsp | .downloadBlkEndRsp | .uploadBlkInitiateRsp | .uploadBlkEndSreq => 1
  | .uploadBlkSubblockSreq => srv.blockBlksize.toNat - srv.blockSeqno.toNat
  | _ => 0

/-- A bound for the passes until the server is idle. -/
def remaining (srv : Server α) : Nat :=
  toSend srv * (srv.sdoTimeoutTimeUs.toNat + 1) +
    (srv.sdoTimeoutTimeUs.toNat - srv.timeoutTimer.toNat)

/-- A message has been sent, or the timer goes on. -/
structure Waits (srv srv' : Server α) : Prop where
  canRxNew : srv'.canRxNew = false
  sdoTimeoutTimeUs : srv'.sdoTimeoutTimeUs = srv.sdoTimeoutTimeUs
  less : toSend srv' < toSend srv ∨
    toSend srv' = toSend srv ∧ srv'.timeoutTimer = srv.timeoutTimer

/-- What is true behind the switch over the states in which a message is sent. -/
def Closing (q q' : Pass α) : Prop :=
  q'.p.srv.state = .idle ∨ (q'.ret = rtWaitingResponse ∧ q'.p.srv.state = .abort) ∨
    Waits q.p.srv q'.p.srv

theorem closing_of_sent {q q' : Pass α} (hnew : q'.p.srv.canRxNew = false)
    (htime : q'.p.srv.sdoTimeoutTimeUs = q.p.srv.sdoTimeoutTimeUs) (hsend : 0 < toSend q.p.srv)
    (hsent : toSend q'.p.srv = 0) : Closing q q' :=
  .inr (.inr ⟨hnew, htime, .inl (hsent.trans_lt hsend)⟩)

/-! ## The messages -/

section

variable {q : Pass α} (hnew : q.p.srv.canRxNew = false)

include hnew

theorem sendDownloadInitiate_closing (hsend : 0 < toSend q.p.srv) :
    Closing q (sendDownloadInitiate q) := by
  unfold sendDownloadInitiate
  dsimp only
  split
  · exact .inl rfl
  · exact closing_of_sent hnew rfl hsend rfl

theorem sendDownloadSegment_closing (hsend : 0 < toSend q.p.srv) :
    Closing q (sendDownloadSegment q) := by
  unfold sendDownloadSegment
  dsimp only
  split
  · exact .inl rfl
  · exact closing_of_sent hnew rfl hsend rfl

theorem sendUploadInitiate_closing (h : Loaded q.p.srv) (hsend : 0 < toSend q.p.srv) :
    Ends (sendUploadInitiate q) (Closing q) := by
  rw [sendUploadInitiate]
  refine Ends.ite (fun hsize => ?_) fun _ => ?_
  · refine Ends.bind (load_sizeInd_ends h hsize.2) fun bytes _ => Ends.some (.inl rfl)
  · exact Ends.some (closing_of_sent hnew rfl hsend rfl)

theorem sendUploadSegment_closing (hcode : q.p.abortCode = abNone)
    (hret : q.ret = rtWaitingResponse) (h : Loaded q.p.srv) (hsend : 0 < toSend q.p.srv) :
    Ends (sendUploadSegment q) (Closing q) := by
  rw [sendUploadSegment]
  refine Ends.bind (readFromOd_ends h) fun p hp => ?_
  rcases hp with hfailed | ⟨hsame, hloaded, hkept⟩
  · rw [if_pos hfailed.1]
    exact Ends.some (.inr (.inl ⟨hret, hfailed.2.1⟩))
  rw [if_neg (not_not.mpr (hsame.trans hcode))]
  refine Ends.bind (nextBytes_ends hloaded) ?_
  rintro ⟨last, bytes⟩ -
  have hnew' : p.srv.canRxNew = false := hkept.canRxNew.trans hnew
  refine Ends.ite (fun _ => Ends.some ?_) fun _ => ?_
  · cases last with
    | true => exact closing_of_sent hnew' hkept.sdoTimeoutTimeUs hsend rfl
    | false => exact .inr (.inl ⟨hret, rfl⟩)
  refine Ends.ite (fun _ => Ends.some (.inr (.inl ⟨hret, rfl⟩))) fun _ => ?_
  refine Ends.ite (fun _ => Ends.some (.inl rfl)) fun _ => ?_
  exact Ends.some (closing_of_sent hnew' hkept.sdoTimeoutTimeUs hsend rfl)

theorem sendDownloadBlkSubblock_closing (hcode : q.p.abortCode = abNone)
    (hret : q.ret = rtWaitingResponse) (h : Filled q.p.srv (bufferSize - 2))
    (hsend : toSend q.p.srv = 0) : Ends (sendDownloadBlkSubblock q) (Closing q) := by
  rw [sendDownloadBlkSubblock]
  refine Ends.ite (fun _ => Ends.some ?_) fun _ => ?_
  · exact .inr (.inr ⟨hnew, rfl, .inr ⟨hsend.symm, rfl⟩⟩)
  refine Ends.bind (subblockSpace_ends hcode h) ?_
  rintro ⟨p, count⟩ hp
  dsimp only
  rcases hp with hfailed | ⟨hok, -, -, -, -, hkept⟩
  · rw [if_pos hfailed.1]
    exact Ends.some (.inr (.inl ⟨hret, hfailed.2.1⟩))
  · rw [if_neg (not_not.mpr hok)]
    exact Ends.some (.inr (.inr ⟨rfl, hkept.sdoTimeoutTimeUs,
      .inr ⟨hsend.symm, hkept.timeoutTimer⟩⟩))

theorem sendUploadBlkInitiate_closing (hsend : 0 < toSend q.p.srv) :
    Closing q (sendUploadBlkInitiate q) := by
  unfold sendUploadBlkInitiate
  dsimp only
  split <;> exact closing_of_sent hnew rfl hsend rfl

theorem sendUploadBlkSubblock_closing (hret : q.ret = rtWaitingResponse) (h : Loaded q.p.srv)
    (hmore : q.p.srv.blockSeqno < q.p.srv.blockBlksize)
    (hs : q.p.srv.state = .uploadBlkSubblockSreq) :
    Ends (sendUploadBlkSubblock q) (Closing q) := by
  have hseqno := toNat_succ hmore
  have hlt := UInt8.lt_iff_toNat_lt.mp hmore
  have hsend : toSend q.p.srv = q.p.srv.blockBlksize.toNat - q.p.srv.blockSeqno.toNat := by
    rw [toSend, hs]
  rw [sendUploadBlkSubblock]
  refine Ends.bind (nextBytes_ends h) ?_
  rintro ⟨last, bytes⟩ -
  refine Ends.ite (fun _ => Ends.some (.inr (.inl ⟨hret, rfl⟩))) fun _ => ?_
  refine Ends.ite (fun _ => Ends.some (.inr (.inl ⟨hret, rfl⟩))) fun _ => ?_
  refine Ends.ite (fun _ => Ends.some ?_) fun _ => Ends.some (.inr (.inr ⟨hnew, rfl, .inl ?_⟩))
  · exact closing_of_sent hnew rfl (by omega) rfl
  · rw [hsend, toSend]
    dsimp only [Pass.send, Server.took]
    rw [hs]
    dsimp only
    omega

theorem transmit_closing (h : Good q.p) (hret : q.ret = rtWaitingResponse) :
    Ends (transmit q) (Closing q) := by
  rcases h with hfailed | ⟨hcode, hlen, hstate⟩
  · rw [transmit, hfailed.2.1]
    exact Ends.some (.inr (.inl ⟨hret, hfailed.2.1⟩))
  have hone : ∀ state, q.p.srv.state = state → toSend { q.p.srv with state } = 1 →
      0 < toSend q.p.srv := by
    rintro _ rfl hsend
    exact hsend ▸ Nat.one_pos
  unfold transmit
  split <;> rename_i hs
  case h_11 => exact Ends.some (.inr (.inr ⟨hnew, rfl, .inr ⟨rfl, rfl⟩⟩))
  all_goals rw [hs] at hstate
  · exact Ends.some (sendDownloadInitiate_closing hnew (hone _ hs rfl))
  · exact Ends.some (sendDownloadSegment_closing hnew (hone _ hs rfl))
  · exact sendUploadInitiate_closing hnew hstate (hone _ hs rfl)
  · exact sendUploadSegment_closing hnew hcode hret hstate (hone _ hs rfl)
  · exact Ends.some (closing_of_sent rfl rfl (hone _ hs rfl) rfl)
  · exact sendDownloadBlkSubblock_closing hnew hcode hret ⟨hlen, hstate⟩ (by rw [toSend, hs])
  · exact Ends.some (.inl rfl)
  · exact Ends.some (sendUploadBlkInitiate_closing hnew (hone _ hs rfl))
  · exact sendUploadBlkSubblock_closing hnew hret hstate.1 hstate.2.2.1 hs
  · exact Ends.some (closing_of_sent hnew rfl (hone _ hs rfl) rfl)

end

theorem conclude_closing {q q' : Pass α} (h : Closing q q') :
    (conclude q').p.srv.state = .idle ∨ Waits q.p.srv (conclude q').p.srv := by
  rcases h with hidle | ⟨hret, habort⟩ | hwaits
  · refine .inl ?_
    rw [conclude, hidle]
    split <;> exact hidle
  · refine .inl ?_
    rw [conclude, if_pos hret, habort]
    rfl
  · unfold conclude
    split
    · split
      · exact .inl rfl
      · exact .inr hwaits
      · exact .inr hwaits
      · exact .inr hwaits
    · exact .inr hwaits

/-! ## The timers -/

/-- The server behind its timers: the one has run for a while, without an end. -/
structure Ticked (srv srv' : Server α) (timeDifferenceUs : UInt32) : Prop where
  canRxNew : srv'.canRxNew = false
  sdoTimeoutTimeUs : srv'.sdoTimeoutTimeUs = srv.sdoTimeoutTimeUs
  toSend : toSend srv' = toSend srv
  timeoutTimer : srv'.timeoutTimer.toNat = srv.timeoutTimer.toNat + timeDifferenceUs.toNat
  running : srv'.timeoutTimer.toNat < srv.sdoTimeoutTimeUs.toNat

theorem blockTick_keeps (srv : Server α) (timeDifferenceUs : UInt32)
    (hnew : srv.canRxNew = false) :
    (srv.blockTick timeDifferenceUs).canRxNew = false ∧
      (srv.blockTick timeDifferenceUs).sdoTimeoutTimeUs = srv.sdoTimeoutTimeUs ∧
      (srv.blockTick timeDifferenceUs).timeoutTimer = srv.timeoutTimer ∧
      toSend (srv.blockTick timeDifferenceUs) = toSend srv := by
  unfold Server.blockTick
  split
  · rename_i hs
    have hsend : toSend srv = 0 := by rw [toSend, hs]
    rw [hsend]
    dsimp only
    repeat' split
    all_goals first
      | exact ⟨rfl, rfl, rfl, rfl⟩
      | refine ⟨hnew, rfl, rfl, ?_⟩
        rw [toSend, hs]
  · exact ⟨hnew, rfl, rfl, rfl⟩

theorem timers_tick {srv : Server α} (od : OdState α) {timeDifferenceUs : UInt32}
    (hnew : srv.canRxNew = false)
    (hwrap : timeDifferenceUs.toNat + srv.sdoTimeoutTimeUs.toNat < 2 ^ 32) :
    (timers timeDifferenceUs ⟨abNone, srv, od⟩).srv.state = .abort ∨
      Ticked srv (timers timeDifferenceUs ⟨abNone, srv, od⟩).srv timeDifferenceUs := by
  rcases lt_or_ge (srv.tick timeDifferenceUs).timeoutTimer.toNat
    srv.sdoTimeoutTimeUs.toNat with hrunning | hended
  · have htick : srv.tick timeDifferenceUs =
        { srv with timeoutTimer := srv.timeoutTimer + timeDifferenceUs } := by
      unfold Server.tick at hrunning ⊢
      split at hrunning
      · rename_i hlt
        rw [if_pos hlt]
      · rename_i hge
        exact absurd hrunning hge
    rw [htick] at hrunning
    have htime : (srv.timeoutTimer + timeDifferenceUs).toNat =
        srv.timeoutTimer.toNat + timeDifferenceUs.toNat := by
      have hbefore : srv.timeoutTimer.toNat < srv.sdoTimeoutTimeUs.toNat := by
        rcases lt_or_ge srv.timeoutTimer.toNat srv.sdoTimeoutTimeUs.toNat with hlt | hge
        · exact hlt
        · have hsame : srv.tick timeDifferenceUs = srv :=
            if_neg (UInt32.not_lt.mpr (UInt32.le_iff_toNat_le.mpr hge))
          rw [htick] at hsame
          have htimer := congrArg Server.timeoutTimer hsame
          dsimp only at htimer hrunning
          rw [htimer] at hrunning
          exact hrunning
      rw [UInt32.toNat_add]
      exact Nat.mod_eq_of_lt (by omega)
    have hcheck : checkTimeout ⟨abNone, srv.tick timeDifferenceUs, od⟩ =
        ⟨abNone, srv.tick timeDifferenceUs, od⟩ := by
      rw [checkTimeout, htick]
      exact if_neg (UInt32.not_le.mpr (UInt32.lt_iff_toNat_lt.mpr hrunning))
    have hblock := blockTick_keeps (srv.tick timeDifferenceUs) timeDifferenceUs
      (by rw [htick]; exact hnew)
    right
    change Ticked srv ((checkTimeout _).srv.blockTick timeDifferenceUs) timeDifferenceUs
    rw [hcheck]
    rw [htick] at hblock ⊢
    obtain ⟨hnew', htimeout, htimer, hsend⟩ := hblock
    exact ⟨hnew', htimeout, hsend, by rw [htimer]; exact htime, by rw [htimer]; exact hrunning⟩
  · left
    have htimeout : (srv.tick timeDifferenceUs).sdoTimeoutTimeUs = srv.sdoTimeoutTimeUs := by
      unfold Server.tick
      split <;> rfl
    have hcheck : checkTimeout ⟨abNone, srv.tick timeDifferenceUs, od⟩ =
        (Progress.mk abNone (srv.tick timeDifferenceUs) od).abort abTimeout := by
      rw [checkTimeout]
      exact if_pos (UInt32.le_iff_toNat_le.mpr (htimeout ▸ hended))
    change ((checkTimeout _).srv.blockTick timeDifferenceUs).state = _
    rw [hcheck]
    rfl

/-! ## Passes -/

/-- No message waits, and the timeout is `timeoutUs`. -/
structure Alone (timeoutUs : UInt32) (srv : Server α) : Prop where
  sound : Sound srv
  canRxNew : srv.canRxNew = false
  sdoTimeoutTimeUs : srv.sdoTimeoutTimeUs = timeoutUs

/-- A call of `CO_SDOserver_process` with a free transmit buffer. Time has passed, but not so much
that the timer would wrap around. -/
def Passing (timeoutUs : UInt32) (ev : Event α) : Prop :=
  ∃ nmtIsPreOrOperational timeDifferenceUs,
    ev = .process nmtIsPreOrOperational timeDifferenceUs false ∧ 0 < timeDifferenceUs.toNat ∧
      timeDifferenceUs.toNat + timeoutUs.toNat < 2 ^ 32

theorem remaining_lt {srv ticked srv' : Server α} {timeDifferenceUs : UInt32}
    (hpos : 0 < timeDifferenceUs.toNat) (hticked : Ticked srv ticked timeDifferenceUs)
    (hwaits : Waits ticked srv') : remaining srv' < remaining srv := by
  have hrunning := hticked.running
  have htimer := hticked.timeoutTimer
  rw [remaining, remaining, hwaits.sdoTimeoutTimeUs, hticked.sdoTimeoutTimeUs]
  rcases hwaits.less with hless | ⟨hsame, htime⟩
  · rw [hticked.toSend] at hless
    have hmul := Nat.mul_le_mul_right (srv.sdoTimeoutTimeUs.toNat + 1) (Nat.succ_le_of_lt hless)
    rw [Nat.succ_mul] at hmul
    omega
  · rw [hsame, htime, hticked.toSend]
    omega

/-- A pass leads to `CO_SDO_ST_IDLE`, or closer to it. -/
theorem process_closer (list : Od α) {srv : Server α} (od : OdState α)
    (nmtIsPreOrOperational : Bool) {timeoutUs timeDifferenceUs : UInt32} (h : Alone timeoutUs srv)
    (hpos : 0 < timeDifferenceUs.toNat)
    (hfits : timeDifferenceUs.toNat + timeoutUs.toNat < 2 ^ 32) :
    Ends (coSDOserverProcess list srv od nmtIsPreOrOperational timeDifferenceUs false) fun q =>
      q.p.srv.state = .idle ∨
        Alone timeoutUs q.p.srv ∧ remaining q.p.srv < remaining srv := by
  have hsound := coSDOserverProcess_ends list od nmtIsPreOrOperational timeDifferenceUs false
    h.sound
  have hgood : Good (timers timeDifferenceUs ⟨abNone, srv, od⟩) :=
    timers_good timeDifferenceUs (.inr ⟨rfl, h.sound⟩)
  have hcloser :
      Ends (coSDOserverProcess list srv od nmtIsPreOrOperational timeDifferenceUs false) fun q =>
        q.p.srv.state = .idle ∨ q.p.srv.canRxNew = false ∧
          q.p.srv.sdoTimeoutTimeUs = srv.sdoTimeoutTimeUs ∧ remaining q.p.srv < remaining srv := by
    rw [coSDOserverProcess]
    refine Ends.ite (fun hidle => Ends.some (.inl hidle.2.1)) fun _ =>
      Ends.ite (fun _ => Ends.some (.inl rfl)) fun _ =>
      Ends.ite (fun hnew => absurd (h.canRxNew.symm.trans hnew) (by decide)) fun _ => ?_
    rw [proceed, if_neg (by decide)]
    rcases timers_tick od h.canRxNew (h.sdoTimeoutTimeUs ▸ hfits) with habort | hticked
    · rw [transmit, habort]
      refine Ends.some (.inl ?_)
      rw [conclude, if_pos rfl, habort]
      rfl
    · refine Ends.bind (transmit_closing hticked.canRxNew hgood rfl) fun q hq => Ends.some ?_
      rcases conclude_closing hq with hidle | hwaits
      · exact .inl hidle
      · exact .inr ⟨hwaits.canRxNew, hwaits.sdoTimeoutTimeUs.trans hticked.sdoTimeoutTimeUs,
          remaining_lt hpos hticked hwaits⟩
  refine (hsound.and hcloser).mono ?_
  rintro q ⟨hpassed, hidle | ⟨hnew, htime, hless⟩⟩
  · exact .inl hidle
  · exact .inr ⟨⟨hpassed, hnew, htime.trans h.sdoTimeoutTimeUs⟩, hless⟩

/-- A server that gets no more messages is idle after some passes. -/
theorem passes_idle (list : Od α) {timeoutUs : UInt32} (s : Server α × OdState α)
    (h : Alone timeoutUs s.1) (calls : List (Event α))
    (hcalls : ∀ ev ∈ calls, Passing timeoutUs ev) (hlong : remaining s.1 < calls.length) :
    ∃ k ≤ remaining s.1 + 1,
      Ends ((calls.take k).foldlM (step list) s) fun s' => s'.1.state = .idle := by
  have hstep : ∀ (s : Server α × OdState α) (ev : Event α), Alone timeoutUs s.1 →
      Passing timeoutUs ev → Ends (step list s ev) fun s' =>
        s'.1.state = .idle ∨ Alone timeoutUs s'.1 ∧ remaining s'.1 < remaining s.1 := by
    rintro s ev hs ⟨nmt, diff, rfl, hpos, hfits⟩
    exact Ends.bind (process_closer list s.2 nmt hs hpos hfits) fun _ hq => Ends.some hq
  exact Ends.waiting (fun s => remaining s.1) hstep s h calls hcalls hlong

/-- No messages can block the server for ever: after every run, it is idle again when it gets no
more of them and the time goes on. -/
theorem idle_when_left_alone (list : Od α) (srv : Server α) (od : OdState α) (valid : Bool)
    (sdoTimeoutTimeMs : UInt16) (evs : List (Event α)) (hbuf : srv.buf.length = bufferSize + 1) :
    Ends (evs.foldlM (step list) (coSDOserverInit srv valid sdoTimeoutTimeMs, od)) fun s =>
      s.1.canRxNew = false → ∀ calls : List (Event α),
        (∀ ev ∈ calls, Passing s.1.sdoTimeoutTimeUs ev) → remaining s.1 < calls.length →
          ∃ k ≤ remaining s.1 + 1,
            Ends ((calls.take k).foldlM (step list) s) fun s' => s'.1.state = .idle := by
  have hrun : Ends (evs.foldlM (step list) (coSDOserverInit srv valid sdoTimeoutTimeMs, od))
      fun s => Sound s.1 := by
    refine Ends.foldlM ?_ (step_ends list) evs
    exact sound_of_length hbuf (.inl rfl)
  exact hrun.mono fun s hs hnew => passes_idle list s ⟨hs, hnew, rfl⟩

/-- Time that goes on in steps of one, two and three milliseconds. -/
def sampleCalls (n : Nat) : List (Event α) :=
  (List.range n).map fun i => .process true (UInt32.ofNat (1000 * (i % 3 + 1))) false

/-- A request for an object that the dictionary does not have. -/
theorem idle_when_left_alone_sample :
    ∃ s, [Event.receive 8 (message 0x40 [0x18, 0x10, 0x01]), .process true 1000 false].foldlM
        (step []) (coSDOserverInit cleared true 1000, ⟨fun _ => 0, ()⟩) = some s ∧
      ∃ k ≤ remaining s.1 + 1,
        Ends (((sampleCalls (remaining s.1 + 1)).take k).foldlM (step []) s) fun s' =>
          s'.1.state = .idle := by
  obtain ⟨s, hs, hidle⟩ := idle_when_left_alone [] cleared ⟨fun _ => 0, ()⟩ true 1000
    [Event.receive 8 (message 0x40 [0x18, 0x10, 0x01]), .process true 1000 false]
    List.length_replicate
  have hnew : ([Event.receive 8 (message 0x40 [0x18, 0x10, 0x01]),
      .process true 1000 false].foldlM (step []) (coSDOserverInit cleared true 1000,
        ⟨fun _ => 0, ()⟩)).map (fun s => (s.1.canRxNew, s.1.sdoTimeoutTimeUs)) =
      some (false, 1000000) := rfl
  rw [hs] at hnew
  obtain ⟨hrx, htime⟩ := Prod.mk.inj (Option.some.inj hnew)
  refine ⟨s, hs, hidle hrx (sampleCalls (remaining s.1 + 1)) ?_ ?_⟩
  · intro ev hev
    obtain ⟨i, -, rfl⟩ := List.mem_map.mp hev
    have hmod : i % 3 < 3 := Nat.mod_lt i (by decide)
    have htimeout : s.1.sdoTimeoutTimeUs.toNat = 1000000 := by rw [htime]; rfl
    have hdiff : (UInt32.ofNat (1000 * (i % 3 + 1))).toNat = 1000 * (i % 3 + 1) :=
      UInt32.toNat_ofNat_of_lt' (by rw [UInt32.size]; omega)
    refine ⟨true, _, rfl, ?_, ?_⟩
    · omega
    · omega
  · rw [sampleCalls, List.length_map, List.length_range]
    exact Nat.lt_succ_self _

end ShGateway.SdoServerIdle
