import ShGateway.SdoTransfer

/-!
When the transfers of `sdo.c` give up on a server that does not answer.
-/

namespace ShGateway.SdoTimeout

open ShGateway.CanDriver
open ShGateway.CanTransmit
open ShGateway.Lib.PollLoop
open ShGateway.SdoTransfer

/-! ## The driver while the transfer waits -/

/-- The module behind the first `n` delays. -/
def driverAt (delays : Nat → List BusEvent) (m : CANmodule) : Nat → CANmodule
  | 0 => m
  | n + 1 => (busRun (driverAt delays m n) (delays n)).2

/-- A call that reaches the client. -/
def Reaches (c : SdoClient) : Call → Prop
  | .rxed _ => False
  | .callback f object _ => f = coSDOclientReceive ∧ object = some c.object

section

variable {c : SdoClient} {m : CANmodule}

theorem receive_of_not_reaches {call : Call} (h : ¬ Reaches c call) : c.receive call = c := by
  cases call with
  | rxed msg => rfl
  | callback f object msg => exact if_neg fun hmsg => h ⟨hmsg.1, hmsg.2.1⟩

theorem foldl_receive {calls : List Call} (h : ∀ call ∈ calls, ¬ Reaches c call) :
    calls.foldl SdoClient.receive c = c := by
  induction calls with
  | nil => rfl
  | cons call calls ih =>
      rw [List.foldl_cons, receive_of_not_reaches (h call List.mem_cons_self)]
      exact ih fun call hcall => h call (List.mem_cons_of_mem _ hcall)

/-! ### The client's buffer -/

theorem full_of_txArray {m' : CANmodule} (h : m'.txArray = m.txArray) :
    c.txBufferFull m' = c.txBufferFull m := by
  rw [SdoClient.txBufferFull, SdoClient.txBufferFull, h]

theorem full_busStep (ev : BusEvent) (h : c.txBufferFull (busStep m ev).2 = true) :
    c.txBufferFull m = true := by
  cases ev with
  | complete k =>
      rw [← h]
      refine (full_of_txArray ?_).symm
      rw [busStep]
      dsimp only
      split_ifs <;> rfl
  | receive fifo fovr => exact h
  | interrupt =>
      rcases interrupt_cases (m := m) rfl with
        ⟨-, -, -, htx, -⟩ | ⟨-, htx, -⟩ | ⟨i, b, k, hb, -, -, -, -, -, -, htx⟩
      · exact (full_of_txArray htx).symm.trans h
      · exact (full_of_txArray htx).symm.trans h
      · rw [SdoClient.txBufferFull, busStep, htx, List.getElem?_set] at h
        rw [SdoClient.txBufferFull]
        split_ifs at h
        exact h

theorem full_busRun {events : List BusEvent} (h : c.txBufferFull (busRun m events).2 = true) :
    c.txBufferFull m = true := by
  induction events generalizing m with
  | nil => exact h
  | cons ev events ih => exact full_busStep ev (ih h)

theorem free_driverAt {delays : Nat → List BusEvent} {n k : Nat} (hle : n ≤ k)
    (h : c.txBufferFull (driverAt delays m n) = false) :
    c.txBufferFull (driverAt delays m k) = false := by
  induction k, hle using Nat.le_induction with
  | base => exact h
  | succ k _ ih =>
      rw [← Bool.not_eq_true]
      intro hfull
      exact absurd ((full_busRun hfull).symm.trans ih) (by decide)

end

/-! ## One turn -/

/-- A kind of transfer whose message in the state `request` makes it wait in the state
`response`. -/
structure Waits (kind : Kind) (request response : State) : Prop where
  ne_local : request ≠ kind.localState ∧ response ≠ kind.localState ∧ .abort ≠ kind.localState
  ne_idle : request ≠ .idle ∧ response ≠ .idle ∧ response ≠ .abort
  timeoutCode : ∀ state, state = request ∨ state = response ∨ state = .abort →
    kind.timeoutCode state = abTimeout
  transmit : ∀ p : Pass, p.c.state = response ∨ p.c.state = .abort → kind.transmit p = p

theorem upload_waits (answers : Answers) :
    Waits answers.upload .uploadInitiateReq .uploadInitiateRsp := by
  have hlocal : answers.upload.localState = .uploadLocalTransfer := rfl
  constructor
  · rw [hlocal]
    exact ⟨by decide, by decide, by decide⟩
  · exact ⟨by decide, by decide, by decide⟩
  · rintro state (rfl | rfl | rfl) <;> rfl
  · rintro p (hstate | hstate)
    · change uploadTransmit p = p
      rw [uploadTransmit, hstate]
    · change uploadTransmit p = p
      rw [uploadTransmit, hstate]

theorem download_waits (answers : Answers) (bufferPartial : Bool) :
    Waits (answers.download bufferPartial) .downloadInitiateReq .downloadInitiateRsp := by
  have hlocal : (answers.download bufferPartial).localState = .downloadLocalTransfer := rfl
  constructor
  · rw [hlocal]
    exact ⟨by decide, by decide, by decide⟩
  · exact ⟨by decide, by decide, by decide⟩
  · rintro state (rfl | rfl | rfl) <;> rfl
  · rintro p (hstate | hstate)
    · change downloadTransmit bufferPartial p = p
      rw [downloadTransmit, hstate]
    · change downloadTransmit bufferPartial p = p
      rw [downloadTransmit, hstate]

def Expired (c : SdoClient) : Prop := (c.tick 1000).sdoTimeoutTimeUs ≤ (c.tick 1000).timeoutTimer

instance (c : SdoClient) : Decidable (Expired c) := inferInstanceAs (Decidable (_ ≤ _))

/-- The client once its timer has been updated. -/
def timed (c : SdoClient) : SdoClient :=
  if Expired c then { c.tick 1000 with state := .abort } else c.tick 1000

section

variable {kind : Kind} {request response : State} {c : SdoClient} {m : CANmodule}

theorem tick_cases (c : SdoClient) : ∃ timer, c.tick 1000 = { c with timeoutTimer := timer } := by
  rw [SdoClient.tick]
  split_ifs
  · exact ⟨_, rfl⟩
  · exact ⟨c.timeoutTimer, rfl⟩

theorem full_timed : (timed c).txBufferFull m = c.txBufferFull m := by
  obtain ⟨timer, htick⟩ := tick_cases c
  rw [timed, htick]
  split_ifs <;> rfl

theorem timers_eq (hcode : kind.timeoutCode c.state = abTimeout) :
    ∃ code, kind.timers 1000 ⟨rtWaitingResponse, abNone, c, m⟩ =
        ⟨if c.txBufferFull m = true then rtTransmittBufferFull else rtWaitingResponse, code,
          timed c, m⟩ ∧ (Expired c → code = abTimeout) := by
  have hcheck : ∃ code, kind.checkTimeout ⟨rtWaitingResponse, abNone, c.tick 1000, m⟩ =
      ⟨rtWaitingResponse, code, timed c, m⟩ ∧ (Expired c → code = abTimeout) := by
    rw [Kind.checkTimeout, timed]
    rcases Classical.em (Expired c) with hexpired | hrunning
    · refine ⟨abTimeout, ?_, fun _ => rfl⟩
      obtain ⟨timer, htick⟩ := tick_cases c
      rw [if_pos hexpired, ← hcode]
      refine (if_pos hexpired).trans ?_
      rw [htick]
    · refine ⟨abNone, ?_, fun h => absurd h hrunning⟩
      rw [if_neg hrunning]
      exact if_neg hrunning
  obtain ⟨code, hcheck, htimeout⟩ := hcheck
  refine ⟨code, ?_, htimeout⟩
  rw [Kind.timers, if_neg (not_not.mpr rfl)]
  dsimp only
  rw [hcheck]
  rcases Classical.em (c.txBufferFull m = true) with hfull | hfree
  · rw [if_pos hfull]
    exact if_pos (full_timed.trans hfull)
  · rw [if_neg hfree]
    exact if_neg fun h => hfree (full_timed.symm.trans h)

theorem timeout_ne_none : abTimeout ≠ abNone := by decide

theorem mismatch_ne_none : abTypeMismatch ≠ abNone := by decide

theorem full_ne_waiting : rtTransmittBufferFull ≠ rtWaitingResponse := by decide

theorem Waits.state_ne (hkind : Waits kind request response) {state : State}
    (h : state = request ∨ state = response ∨ state = .abort) :
    state ≠ kind.localState ∧ state ≠ .idle := by
  obtain ⟨hrequest, hresponse, habort⟩ := hkind.ne_local
  obtain ⟨hrequest', hresponse', -⟩ := hkind.ne_idle
  rcases h with rfl | rfl | rfl
  · exact ⟨hrequest, hrequest'⟩
  · exact ⟨hresponse, hresponse'⟩
  · exact ⟨habort, by decide⟩

/-- A call without an answer updates the timer, and sends a message unless the buffer is
full. -/
theorem pass_eq (hkind : Waits kind request response) (hvalid : c.valid = true)
    (hstate : c.state = request ∨ c.state = response ∨ c.state = .abort)
    (hnew : c.canRxNew = false) :
    ∃ code, kind.pass 1000 c m =
        (if c.txBufferFull m = true then ⟨rtTransmittBufferFull, code, timed c, m⟩
          else (kind.transmit ⟨rtWaitingResponse, code, timed c, m⟩).sendAbort) ∧
      (Expired c → code = abTimeout) := by
  obtain ⟨hlocal, hidle⟩ := hkind.state_ne hstate
  have hbegin : kind.begin 1000 c m = (1000, ⟨rtWaitingResponse, abNone, c, m⟩) := by
    rw [Kind.begin, if_neg (by rw [hvalid]; decide), if_neg hidle, if_neg hlocal,
      if_neg (by rw [hnew]; decide)]
  obtain ⟨code, htimers, htimeout⟩ :=
    @timers_eq kind c m (hkind.timeoutCode c.state hstate)
  refine ⟨code, ?_, htimeout⟩
  rw [Kind.pass, hbegin]
  dsimp only
  rw [htimers]
  rcases Classical.em (c.txBufferFull m = true) with hfull | hfree
  · rw [if_pos hfull, if_pos hfull, if_neg full_ne_waiting]
    exact if_neg fun h => full_ne_waiting h.1
  · rw [if_neg hfree, if_neg hfree, if_pos rfl]

theorem turn_full (hkind : Waits kind request response) (hvalid : c.valid = true)
    (hstate : c.state = request ∨ c.state = response ∨ c.state = .abort)
    (hnew : c.canRxNew = false) (hfull : c.txBufferFull m = true) :
    transferTurn kind.pass (c, m) = .inr (timed c, m) := by
  obtain ⟨code, hpass, -⟩ := pass_eq hkind (m := m) hvalid hstate hnew
  rw [if_pos hfull] at hpass
  rw [transferTurn, hpass]
  rfl

theorem turn_expired (hkind : Waits kind request response) (hvalid : c.valid = true)
    (hstate : c.state = request ∨ c.state = response ∨ c.state = .abort)
    (hnew : c.canRxNew = false) (hfree : c.txBufferFull m = false) (hexpired : Expired c) :
    ∃ c', transferTurn kind.pass (c, m) = .inl (abTimeout, c') := by
  obtain ⟨code, hpass, hcode⟩ := pass_eq hkind (m := m) hvalid hstate hnew
  have habort : (timed c).state = .abort := by rw [timed, if_pos hexpired]
  rw [if_neg (by rw [hfree]; decide), hkind.transmit _ (.inr habort), Pass.sendAbort,
    if_pos ⟨rfl, habort⟩, hcode hexpired] at hpass
  refine ⟨{ timed c with state := .idle }, ?_⟩
  rw [transferTurn, hpass]
  rfl

theorem turn_response (hkind : Waits kind request response) (hvalid : c.valid = true)
    (hstate : c.state = response) (hnew : c.canRxNew = false) (hrunning : ¬ Expired c) :
    transferTurn kind.pass (c, m) = .inr (timed c, m) := by
  rcases Classical.em (c.txBufferFull m = true) with hfull | hfree
  · exact turn_full hkind hvalid (.inr (.inl hstate)) hnew hfull
  · obtain ⟨code, hpass, -⟩ := pass_eq hkind (m := m) hvalid (.inr (.inl hstate)) hnew
    have hwait : (timed c).state = response := by
      obtain ⟨timer, htick⟩ := tick_cases c
      rw [timed, if_neg hrunning, htick]
      exact hstate
    rw [if_neg hfree, hkind.transmit _ (.inl hwait), Pass.sendAbort,
      if_neg fun h => hkind.ne_idle.2.2 (hwait.symm.trans h.2)] at hpass
    rw [transferTurn, hpass]
    rfl

theorem turn_request (hkind : Waits kind request response) (hvalid : c.valid = true)
    (hstate : c.state = request) (hnew : c.canRxNew = false) (hfree : c.txBufferFull m = false)
    {data : Vector UInt8 8} {c' : SdoClient}
    (hrunning : ¬ Expired c)
    (hsend : ∀ timer code, kind.transmit
        ⟨rtWaitingResponse, code, { c with timeoutTimer := timer }, m⟩ =
      (⟨rtWaitingResponse, code, c', m⟩ : Pass).request data response) :
    transferTurn kind.pass (c, m) =
      .inr ({ c' with timeoutTimer := 0, state := response }, c'.send m data) := by
  obtain ⟨code, hpass, -⟩ := pass_eq hkind (m := m) hvalid (.inl hstate) hnew
  obtain ⟨timer, htick⟩ := tick_cases c
  rw [if_neg (by rw [hfree]; decide), timed, if_neg hrunning, htick, hsend, Pass.sendAbort,
    if_neg fun h => hkind.ne_idle.2.2 h.2] at hpass
  rw [transferTurn, hpass]
  rfl

end

/-! ## The loop -/

/-- The state of a loop before turn `i`, when the request has left the client `c` with the
module `m` in the first turn: the timer counts the turns since then. -/
structure Waiting (response : State) (delays : Nat → List BusEvent) (c : SdoClient)
    (m : CANmodule) (timeout i : Nat) (s : SdoClient × CANmodule) : Prop where
  pos : 1 ≤ i
  driver : s.2 = driverAt delays m i
  client : ∃ timer state, s.1 = { c with timeoutTimer := timer, state := state } ∧
    (i ≤ timeout ∧ state = response ∧ timer.toNat = 1000 * (i - 1) ∨
      timeout < i ∧ state = .abort ∧ timer.toNat = 1000 * timeout)

section

variable {kind : Kind} {request response : State} {delays : Nat → List BusEvent}
  {c : SdoClient} {m : CANmodule} {timeout i : Nat} {s : SdoClient × CANmodule}

theorem timed_waiting (htimeout : c.sdoTimeoutTimeUs.toNat = 1000 * timeout)
    (hlt : timeout < 65536) (hs : Waiting response delays c m timeout i s) :
    (Expired s.1 ↔ timeout ≤ i) ∧ ∃ timer state,
      timed s.1 = { c with timeoutTimer := timer, state := state } ∧
        (i + 1 ≤ timeout ∧ state = response ∧ timer.toNat = 1000 * i ∨
          timeout < i + 1 ∧ state = .abort ∧ timer.toNat = 1000 * timeout) := by
  obtain ⟨hi, -, timer, state, hclient, hcases⟩ := hs
  have htick : ∃ timer', s.1.tick 1000 = { c with timeoutTimer := timer', state := state } ∧
      timer'.toNat = 1000 * min i timeout := by
    rw [SdoClient.tick, hclient]
    rcases hcases with ⟨hle, -, htimer⟩ | ⟨hgt, -, htimer⟩
    · have hrunning : timer < c.sdoTimeoutTimeUs := by
        rw [UInt32.lt_iff_toNat_lt, htimer, htimeout]
        omega
      refine ⟨timer + 1000, if_pos hrunning, ?_⟩
      rw [UInt32.toNat_add, htimer]
      have hstep : (1000 : UInt32).toNat = 1000 := rfl
      rw [hstep, Nat.mod_eq_of_lt (by omega)]
      omega
    · have hover : ¬ timer < c.sdoTimeoutTimeUs := by
        rw [UInt32.lt_iff_toNat_lt, htimer, htimeout]
        omega
      exact ⟨timer, if_neg hover, by rw [htimer]; omega⟩
  obtain ⟨timer', htick, htimer'⟩ := htick
  have hexpired : Expired s.1 ↔ timeout ≤ i := by
    rw [Expired, htick, UInt32.le_iff_toNat_le, htimer', htimeout]
    omega
  refine ⟨hexpired, ?_⟩
  rw [timed, htick]
  rcases Classical.em (Expired s.1) with h | h
  · rw [if_pos h]
    have hi' := hexpired.mp h
    exact ⟨timer', .abort, rfl, .inr ⟨by omega, rfl, by omega⟩⟩
  · rw [if_neg h]
    have hi' := mt hexpired.mpr h
    refine ⟨timer', state, rfl, .inl ⟨by omega, ?_, by omega⟩⟩
    rcases hcases with ⟨-, hstate, -⟩ | ⟨hgt, -, -⟩
    · exact hstate
    · omega

theorem turn_waiting (hkind : Waits kind request response) (hvalid : c.valid = true)
    (hnew : c.canRxNew = false) (htimeout : c.sdoTimeoutTimeUs.toNat = 1000 * timeout)
    (hlt : timeout < 65536) (hs : Waiting response delays c m timeout i s)
    (hsilent : ∀ n, ∀ call ∈ (busRun (driverAt delays m n) (delays n)).1, ¬ Reaches c call) :
    if timeout ≤ i ∧ c.txBufferFull (driverAt delays m i) = false then
      ∃ r, transferTurn kind.pass s = .inl r ∧ r.1 = abTimeout
    else
      ∃ s', transferTurn kind.pass s = .inr s' ∧
        Waiting response delays c m timeout (i + 1) (delayMsWCanPoll (delays i) s') := by
  obtain ⟨hexpired, timer', state', htimed, hnext⟩ := timed_waiting htimeout hlt hs
  obtain ⟨hi, hdriver, timer, state, hclient, hcases⟩ := hs
  obtain ⟨c₁, m₁⟩ := s
  dsimp only at hdriver hclient hexpired htimed
  have hvalid₁ : c₁.valid = true := by rw [hclient]; exact hvalid
  have hnew₁ : c₁.canRxNew = false := by rw [hclient]; exact hnew
  have hfull₁ : c₁.txBufferFull m₁ = c.txBufferFull (driverAt delays m i) := by
    rw [hclient, hdriver]
    rfl
  have hstate₁ : c₁.state = response ∨ c₁.state = .abort := by
    rw [hclient]
    exact hcases.imp (·.2.1) (·.2.1)
  have hwait : Waiting response delays c m timeout (i + 1)
      (delayMsWCanPoll (delays i) (timed c₁, m₁)) := by
    constructor
    · exact Nat.le_add_left 1 i
    · rw [delayMsWCanPoll, hdriver]
      rfl
    · refine ⟨timer', state', ?_, hnext⟩
      rw [delayMsWCanPoll, hdriver, htimed]
      exact foldl_receive (hsilent i)
  rcases Classical.em (timeout ≤ i ∧ c.txBufferFull (driverAt delays m i) = false) with h | h
  · rw [if_pos h]
    obtain ⟨c', hturn⟩ := turn_expired hkind hvalid₁ (.inr hstate₁) hnew₁ (hfull₁.trans h.2)
      (hexpired.mpr h.1)
    exact ⟨_, hturn, rfl⟩
  · rw [if_neg h]
    refine ⟨_, ?_, hwait⟩
    rcases Classical.em (c.txBufferFull (driverAt delays m i) = true) with hfull | hfree
    · exact turn_full hkind hvalid₁ (.inr hstate₁) hnew₁ (hfull₁.trans hfull)
    · have hi' : ¬ timeout ≤ i := fun hle => h ⟨hle, Bool.not_eq_true _ ▸ hfree⟩
      have hresponse : c₁.state = response := by
        rcases hcases with ⟨-, hstate, -⟩ | ⟨hgt, -⟩
        · rw [hclient]
          exact hstate
        · omega
      exact turn_response hkind hvalid₁ hresponse hnew₁ (mt hexpired.mp hi')

/-- A loop that has sent its request ends with the timeout once the client's buffer is free. -/
theorem waiting_iff (hkind : Waits kind request response) (hvalid : c.valid = true)
    (hnew : c.canRxNew = false) (htimeout : c.sdoTimeoutTimeUs.toNat = 1000 * timeout)
    (hlt : timeout < 65536) (hpos : 1 ≤ timeout) {n : Nat} (hn : timeout ≤ n)
    (hs : Waiting response delays c m timeout 1 s)
    (hsilent : ∀ n, ∀ call ∈ (busRun (driverAt delays m n) (delays n)).1, ¬ Reaches c call) :
    (∃ r, poll (transferTurn kind.pass) (fun i => delayMsWCanPoll (delays i)) n 1 s = some r ∧
        r.1 ≠ abNone) ↔
      c.txBufferFull (driverAt delays m n) = false := by
  have hstep : ∀ i s, Waiting response delays c m timeout i s →
      ¬ (timeout ≤ i ∧ c.txBufferFull (driverAt delays m i) = false) →
      ∃ s', transferTurn kind.pass s = .inr s' ∧
        Waiting response delays c m timeout (i + 1) (delayMsWCanPoll (delays i) s') := by
    intro i s hs hnot
    have h := turn_waiting hkind hvalid hnew htimeout hlt hs hsilent
    rwa [if_neg hnot] at h
  constructor
  · rintro ⟨r, hpoll, -⟩
    rw [← Bool.not_eq_true]
    intro hfull
    have hturn : ∀ i s, i < n + 1 → Waiting response delays c m timeout i s →
        ∃ s', transferTurn kind.pass s = .inr s' ∧
          Waiting response delays c m timeout (i + 1) (delayMsWCanPoll (delays i) s') := by
      intro i s hi hs
      refine hstep i s hs fun h => ?_
      have hfree := free_driverAt (Nat.le_of_lt_succ hi) h.2
      exact absurd (hfull.symm.trans hfree) (by decide)
    rw [poll_none hturn hs (by omega)] at hpoll
    cases hpoll
  · intro hfree
    -- the first turn behind the timeout with a free buffer
    have hex : ∃ k, timeout ≤ k ∧ c.txBufferFull (driverAt delays m k) = false := ⟨n, hn, hfree⟩
    have hspec := Nat.find_spec hex
    have hle : Nat.find hex ≤ n := Nat.find_le ⟨hn, hfree⟩
    have hturn : ∀ i s, i < Nat.find hex → Waiting response delays c m timeout i s →
        ∃ s', transferTurn kind.pass s = .inr s' ∧
          Waiting response delays c m timeout (i + 1) (delayMsWCanPoll (delays i) s') :=
      fun i s hi hs => hstep i s hs (Nat.find_min hex hi)
    have hend : ∀ s, Waiting response delays c m timeout (Nat.find hex) s →
        ∃ r, transferTurn kind.pass s = .inl r ∧ r.1 = abTimeout := by
      intro s hs
      have h := turn_waiting hkind hvalid hnew htimeout hlt hs hsilent
      rwa [if_pos hspec] at h
    obtain ⟨r, hpoll, hcode⟩ := @poll_some _ _ _ _ _ _ _ n _ _ hturn hend hs
      (hpos.trans hspec.1) (by omega)
    exact ⟨r, hpoll, hcode ▸ timeout_ne_none⟩

/-- The timeout comes in the first turn if it is at most a millisecond. -/
theorem expired_iff (htimer : c.timeoutTimer = 0)
    (htimeout : c.sdoTimeoutTimeUs.toNat = 1000 * timeout) : Expired c ↔ timeout ≤ 1 := by
  rw [Expired, SdoClient.tick]
  have hzero : (0 : UInt32).toNat = 0 := rfl
  have hstep : ((0 : UInt32) + 1000).toNat = 1000 := rfl
  split_ifs with hrunning
  · rw [UInt32.le_iff_toNat_le, htimeout, htimer, hstep]
    omega
  · rw [UInt32.lt_iff_toNat_lt, htimer, htimeout, hzero] at hrunning
    rw [UInt32.le_iff_toNat_le, htimeout, htimer, hzero]
    omega

/-- The loop of a transfer ends by the turn behind its first `n` delays exactly if the request
has left the client's buffer in these delays, unless the first turn ends it. -/
theorem loop_iff (hkind : Waits kind request response) (hvalid : c.valid = true)
    (hstate : c.state = request) (hnew : c.canRxNew = false) (hfree : c.txBufferFull m = false)
    (htimer : c.timeoutTimer = 0) (htimeout : c.sdoTimeoutTimeUs.toNat = 1000 * timeout)
    (hlt : timeout < 65536) {n : Nat} (hn : timeout ≤ n) {data : Vector UInt8 8}
    {fifo : List UInt8} {sizeTran : Nat} {finished : Bool}
    (hsend : ∀ timer code, kind.transmit
        ⟨rtWaitingResponse, code, { c with timeoutTimer := timer }, m⟩ =
      (⟨rtWaitingResponse, code, { c with
        bufFifo := fifo, sizeTran := sizeTran, finished := finished }, m⟩ : Pass).request
          data response)
    (hsilent : ∀ n, ∀ call ∈ (busRun (driverAt delays (c.send m data) n) (delays n)).1,
      ¬ Reaches c call) :
    (∃ r, transferLoop kind.pass delays (n + 1) (c, m) = some r ∧ r.1 ≠ abNone) ↔
      (1 < timeout → c.txBufferFull (driverAt delays (c.send m data) n) = false) := by
  have hexpired := expired_iff htimer htimeout
  rcases Nat.lt_or_ge 1 timeout with hgt | hle
  · have hrunning := mt hexpired.mp (Nat.not_le.mpr hgt)
    have hturn := turn_request hkind hvalid hstate hnew hfree hrunning hsend
    rw [transferLoop, poll_of_inr hturn]
    refine Iff.trans ?_ (forall_prop_of_true hgt).symm
    refine waiting_iff (c := { c with
      bufFifo := fifo, sizeTran := sizeTran, finished := finished })
      (m := c.send m data) hkind hvalid hnew htimeout hlt hgt.le hn ?_ hsilent
    constructor
    · exact Nat.le_refl 1
    · rfl
    · refine ⟨0, response, ?_, .inl ⟨hgt.le, rfl, rfl⟩⟩
      exact foldl_receive (hsilent 0)
  · refine iff_of_true ?_ fun h => absurd h (Nat.not_lt.mpr hle)
    obtain ⟨c₁, hturn⟩ := turn_expired hkind hvalid (.inl hstate) hnew hfree (hexpired.mpr hle)
    exact ⟨_, poll_of_inl hturn, timeout_ne_none⟩

end

/-! ## The requests -/

section

variable {c : SdoClient} {m : CANmodule}

theorem upload_request {answers : Answers} (hstate : c.state = .uploadInitiateReq)
    (timer code : UInt32) :
    answers.upload.transmit ⟨rtWaitingResponse, code, { c with timeoutTimer := timer }, m⟩ =
      (⟨rtWaitingResponse, code, { c with
        bufFifo := c.bufFifo, sizeTran := c.sizeTran, finished := c.finished }, m⟩ : Pass).request
          (uploadRequest c) .uploadInitiateRsp := by
  change uploadTransmit _ = _
  simp only [uploadTransmit, hstate]
  rfl

theorem downloadRequest_timer (timer : UInt32) :
    downloadRequest { c with timeoutTimer := timer } =
      (downloadRequest c).map fun r => (r.1, { r.2 with timeoutTimer := timer }) := by
  simp only [downloadRequest]
  split_ifs <;> rfl

theorem downloadTransmit_some {bufferPartial : Bool} {p : Pass} {data : Vector UInt8 8}
    {c' : SdoClient} (hstate : p.c.state = .downloadInitiateReq)
    (hrequest : downloadRequest p.c = some (data, c')) :
    downloadTransmit bufferPartial p = ({ p with c := c' }).request data .downloadInitiateRsp := by
  rw [downloadTransmit, hstate]
  dsimp only
  rw [hrequest]

theorem downloadTransmit_none {bufferPartial : Bool} {p : Pass}
    (hstate : p.c.state = .downloadInitiateReq) (hrequest : downloadRequest p.c = none) :
    downloadTransmit bufferPartial p = { p with
      ret := rtEndedWithClientAbort
      abortCode := abTypeMismatch
      c := { p.c with state := .idle } } := by
  rw [downloadTransmit, hstate]
  dsimp only
  rw [hrequest]

theorem download_request {answers : Answers} {bufferPartial : Bool}
    (hstate : c.state = .downloadInitiateReq) {data : Vector UInt8 8} {c' : SdoClient}
    (hrequest : downloadRequest c = some (data, c')) :
    ∃ fifo sizeTran finished, ∀ timer code, (answers.download bufferPartial).transmit
        ⟨rtWaitingResponse, code, { c with timeoutTimer := timer }, m⟩ =
      (⟨rtWaitingResponse, code, { c with
        bufFifo := fifo, sizeTran := sizeTran, finished := finished }, m⟩ : Pass).request
          data .downloadInitiateRsp := by
  have hc' : ∃ fifo sizeTran finished, c' = { c with
      bufFifo := fifo, sizeTran := sizeTran, finished := finished } := by
    simp only [downloadRequest] at hrequest
    split_ifs at hrequest
    · obtain ⟨-, rfl⟩ := Prod.mk.inj (Option.some.inj hrequest)
      exact ⟨_, _, _, rfl⟩
    · obtain ⟨-, rfl⟩ := Prod.mk.inj (Option.some.inj hrequest)
      exact ⟨_, _, _, rfl⟩
    · obtain ⟨-, rfl⟩ := Prod.mk.inj (Option.some.inj hrequest)
      exact ⟨_, _, _, rfl⟩
    · obtain ⟨-, rfl⟩ := Prod.mk.inj (Option.some.inj hrequest)
      exact ⟨_, _, _, rfl⟩
  obtain ⟨fifo, sizeTran, finished, rfl⟩ := hc'
  refine ⟨fifo, sizeTran, finished, fun timer code => ?_⟩
  have hrequest' := downloadRequest_timer (c := c) timer
  rw [hrequest] at hrequest'
  have htransmit := @downloadTransmit_some bufferPartial
    ⟨rtWaitingResponse, code, { c with timeoutTimer := timer }, m⟩ _ _ hstate hrequest'
  exact htransmit

theorem download_mismatch {answers : Answers} {bufferPartial : Bool} (hvalid : c.valid = true)
    (hstate : c.state = .downloadInitiateReq) (hnew : c.canRxNew = false)
    (hfree : c.txBufferFull m = false) (hrequest : downloadRequest c = none) :
    ∃ r, transferTurn (answers.download bufferPartial).pass (c, m) = .inl r ∧ r.1 ≠ abNone := by
  rcases Classical.em (Expired c) with hexpired | hrunning
  · obtain ⟨c', hturn⟩ := turn_expired (download_waits answers bufferPartial) hvalid (.inl hstate)
      hnew hfree hexpired
    exact ⟨_, hturn, timeout_ne_none⟩
  · obtain ⟨code, hpass, -⟩ := pass_eq (download_waits answers bufferPartial) (m := m) hvalid
      (.inl hstate) hnew
    obtain ⟨timer, htick⟩ := tick_cases c
    have hrequest' := downloadRequest_timer (c := c) timer
    rw [hrequest] at hrequest'
    have htransmit := @downloadTransmit_none bufferPartial
      ⟨rtWaitingResponse, code, { c with timeoutTimer := timer }, m⟩ hstate hrequest'
    refine ⟨(abTypeMismatch, { c with timeoutTimer := timer, state := .idle }), ?_,
      mismatch_ne_none⟩
    rw [if_neg (by rw [hfree]; decide), timed, if_neg hrunning, htick] at hpass
    have hpass' := hpass.trans (congrArg Pass.sendAbort htransmit)
    rw [transferTurn, hpass']
    rfl

end

/-! ## The start of a transfer -/

theorem txBufferInit_free {m m' : CANmodule} {index ident : UInt16} {rtr sync : Bool}
    {noOfBytes : UInt8} (h : coCANtxBufferInit m index ident rtr noOfBytes sync = some m') :
    ∃ b, m'.txArray[index.toNat]? = some b ∧ b.bufferFull = false := by
  obtain ⟨b, hb, rfl⟩ := Option.map_eq_some_iff.mp h
  exact ⟨_, List.getElem?_set_self (List.getElem?_eq_some_iff.mp hb).1, rfl⟩

theorem setup_free {s : SdoClient × CANmodule} {nodeId : UInt8} {c : SdoClient} {m : CANmodule}
    (h : setupServer s nodeId = some (c, m)) : c.txBufferFull m = false := by
  rw [setupServer, coSDOclientSetup] at h
  dsimp only at h
  generalize coCANrxBufferInit _ _ = init at h
  obtain ⟨ret, m₁⟩ := init
  dsimp only at h
  split at h
  · rename_i s' hsetup
    obtain rfl := Option.some.inj h
    generalize hbuffer : coCANtxBufferInit _ _ _ _ _ _ = buffer at hsetup
    cases buffer with
    | none => exact absurd (Prod.mk.inj hsetup).1 (by decide)
    | some m₂ =>
        dsimp only at hsetup
        rcases Classical.em (ret ≠ .no) with hret | hret
        · rw [if_pos hret] at hsetup
          exact absurd (Prod.mk.inj hsetup).1 (by decide)
        · rw [if_neg hret] at hsetup
          obtain ⟨-, hstate⟩ := Prod.mk.inj hsetup
          obtain ⟨rfl, rfl⟩ := Prod.mk.inj hstate
          obtain ⟨b, hb, hfree⟩ := txBufferInit_free hbuffer
          rw [SdoClient.txBufferFull, hb]
          exact hfree
  · cases h

/-- A client before the first turn of its loop. -/
structure Started (c : SdoClient) (m : CANmodule) (request : State) (timeoutMs : UInt32) :
    Prop where
  valid : c.valid = true
  state : c.isLocal = false → c.state = request
  new : c.canRxNew = false
  free : c.txBufferFull m = false
  timer : c.timeoutTimer = 0
  timeout : c.sdoTimeoutTimeUs.toNat = 1000 * timeoutMs.toUInt16.toNat

theorem start_started {c c' : SdoClient} {m : CANmodule} {index : UInt16} {subIndex : UInt8}
    {sizeInd : Nat} {timeoutMs : UInt32} {localTransfer request : State}
    (hfree : c.txBufferFull m = false)
    (h : c.start index subIndex sizeInd timeoutMs.toUInt16 localTransfer request = (0, c')) :
    Started c' m request timeoutMs := by
  rw [SdoClient.start] at h
  rcases Classical.em (c.valid = false) with hvalid | hvalid
  · rw [if_pos hvalid] at h
    exact absurd (Prod.mk.inj h).1 (by decide)
  · rw [if_neg hvalid] at h
    obtain ⟨-, rfl⟩ := Prod.mk.inj h
    constructor
    · exact Bool.not_eq_false _ ▸ hvalid
    · intro hremote
      have hlocal : c.isLocal = false := hremote
      rw [hlocal]
      rfl
    · rfl
    · exact hfree
    · rfl
    · have hlt := timeoutMs.toUInt16.toNat_lt
      change (timeoutMs.toUInt16.toUInt32 * 1000).toNat = _
      have hstep : (1000 : UInt32).toNat = 1000 := rfl
      rw [UInt32.toNat_mul, UInt16.toNat_toUInt32, hstep, Nat.mod_eq_of_lt (by omega)]
      omega

theorem readStart_started {s : SdoClient × CANmodule} {nodeId subIndex : UInt8} {index : UInt16}
    {timeoutMs : UInt32} {c : SdoClient} {m : CANmodule}
    (h : readStart s nodeId index subIndex timeoutMs = some (c, m)) :
    Started c m .uploadInitiateReq timeoutMs := by
  rw [readStart] at h
  split at h
  · cases h
  · rename_i c₁ m₁ hsetup
    split at h
    · rename_i c₂ hstart
      obtain ⟨rfl, rfl⟩ := Prod.mk.inj (Option.some.inj h)
      exact start_started (setup_free hsetup) hstart
    · cases h

theorem writeStart_started {s : SdoClient × CANmodule} {nodeId subIndex : UInt8} {index : UInt16}
    {timeoutMs : UInt32} {data : List UInt8} {bufferPartial : Bool} {c : SdoClient} {m : CANmodule}
    (h : writeStart s nodeId index subIndex timeoutMs data = some (bufferPartial, c, m)) :
    Started c m .downloadInitiateReq timeoutMs := by
  rw [writeStart] at h
  split at h
  · cases h
  · rename_i c₁ m₁ hsetup
    split at h
    · rename_i c₂ hstart
      obtain ⟨-, hclient⟩ := Prod.mk.inj (Option.some.inj h)
      obtain ⟨rfl, rfl⟩ := Prod.mk.inj hclient
      obtain ⟨hvalid, hstate, hnew, hfree, htimer, htimeout⟩ :=
        start_started (setup_free hsetup) hstart
      exact ⟨hvalid, hstate, hnew, hfree, htimer, htimeout⟩
    · cases h

/-! ## Giving up -/

/-- The server is another node, and none of its messages reaches the client once the request
has been sent. -/
def ServerSilent (delays : Nat → List BusEvent) (start : Option (SdoClient × CANmodule))
    (request : SdoClient → Option (Vector UInt8 8)) : Prop :=
  ∀ c m, start = some (c, m) → c.isLocal = false ∧ ∀ data ∈ request c, ∀ n,
    ∀ call ∈ (busRun (driverAt delays (c.send m data) n) (delays n)).1, ¬ Reaches c call

/-- The driver has moved the request out of the client's buffer, if it ever was in there, in
the first `n` delays. -/
def RequestLeaves (delays : Nat → List BusEvent) (start : Option (SdoClient × CANmodule))
    (request : SdoClient → Option (Vector UInt8 8)) (n : Nat) : Prop :=
  ∀ c m, start = some (c, m) → ∀ data ∈ request c,
    c.txBufferFull (driverAt delays (c.send m data) n) = false

section

variable (answers : Answers) (delays : Nat → List BusEvent) (extra : Nat)
  (s : SdoClient × CANmodule) (nodeId : UInt8) (index : UInt16) (subIndex : UInt8)
  (timeoutMs : UInt32)

/-- A read from a silent server ends with an abort code after at most `timeout_ms + extra + 1`
turns. -/
def ReadGivesUp (bufSize : Nat) : Prop :=
  ServerSilent delays (readStart s nodeId index subIndex timeoutMs)
      (fun c => some (uploadRequest c)) →
    ∃ code bytes, readSDO answers delays (timeoutMs.toNat + extra + 1) s nodeId index subIndex
      timeoutMs bufSize = some (code, bytes) ∧ code ≠ abNone

/-- A write to a silent server ends with an abort code after at most `timeout_ms + extra + 1`
turns. -/
def WriteGivesUp (data : List UInt8) : Prop :=
  ServerSilent delays ((writeStart s nodeId index subIndex timeoutMs data).map Prod.snd)
      (fun c => (downloadRequest c).map Prod.fst) →
    ∃ code, writeSDO answers delays (timeoutMs.toNat + extra + 1) s nodeId index subIndex
      timeoutMs data = some code ∧ code ≠ abNone

/-- The request of a read leaves the client's buffer in the first `timeout_ms + extra` delays,
unless the timeout comes at once. -/
def ReadRequestLeaves : Prop :=
  ServerSilent delays (readStart s nodeId index subIndex timeoutMs)
      (fun c => some (uploadRequest c)) →
    1 < timeoutMs.toUInt16.toNat →
      RequestLeaves delays (readStart s nodeId index subIndex timeoutMs)
        (fun c => some (uploadRequest c)) (timeoutMs.toNat + extra)

/-- The same for the request of a write. -/
def WriteRequestLeaves (data : List UInt8) : Prop :=
  ServerSilent delays ((writeStart s nodeId index subIndex timeoutMs data).map Prod.snd)
      (fun c => (downloadRequest c).map Prod.fst) →
    1 < timeoutMs.toUInt16.toNat →
      RequestLeaves delays ((writeStart s nodeId index subIndex timeoutMs data).map Prod.snd)
        (fun c => (downloadRequest c).map Prod.fst) (timeoutMs.toNat + extra)

theorem toUInt16_le : timeoutMs.toUInt16.toNat ≤ timeoutMs.toNat + extra := by
  rw [UInt32.toNat_toUInt16]
  exact (Nat.mod_le _ _).trans (Nat.le_add_right _ _)

theorem readGivesUp_iff (bufSize : Nat) :
    ReadGivesUp answers delays extra s nodeId index subIndex timeoutMs bufSize ↔
      ReadRequestLeaves delays extra s nodeId index subIndex timeoutMs := by
  refine forall_congr' fun hsilent => ?_
  rw [readSDO]
  rcases hstart : readStart s nodeId index subIndex timeoutMs with _ | ⟨c, m⟩
  · refine iff_of_true ⟨abGeneral, [], rfl, by decide⟩ ?_
    intro _ c m h
    cases h
  · obtain ⟨hremote, hreceived⟩ := hsilent c m hstart
    have hstarted := readStart_started hstart
    have hloop := loop_iff (upload_waits answers) hstarted.valid (hstarted.state hremote)
      hstarted.new hstarted.free hstarted.timer hstarted.timeout timeoutMs.toUInt16.toNat_lt
      (toUInt16_le extra timeoutMs) (upload_request (hstarted.state hremote)) (hreceived _ rfl)
    constructor
    · rintro ⟨code, bytes, hrun, hcode⟩ hpos c' m' h data hdata
      obtain ⟨rfl, rfl⟩ := Prod.mk.inj (Option.some.inj h)
      obtain rfl := Option.some.inj hdata
      obtain ⟨r, hr, heq⟩ := Option.map_eq_some_iff.mp hrun
      refine hloop.mp ⟨r, hr, ?_⟩ hpos
      rwa [← (Prod.mk.inj heq).1] at hcode
    · intro h
      obtain ⟨r, hr, hcode⟩ := hloop.mpr fun hpos => h hpos c m rfl _ rfl
      exact ⟨r.1, _, Option.map_eq_some_iff.mpr ⟨r, hr, rfl⟩, hcode⟩

theorem writeGivesUp_iff (data : List UInt8) :
    WriteGivesUp answers delays extra s nodeId index subIndex timeoutMs data ↔
      WriteRequestLeaves delays extra s nodeId index subIndex timeoutMs data := by
  refine forall_congr' fun hsilent => ?_
  rw [writeSDO]
  rcases hstart : writeStart s nodeId index subIndex timeoutMs data with _ | ⟨bufferPartial, c, m⟩
  · refine iff_of_true ⟨abGeneral, rfl, by decide⟩ ?_
    intro _ c m h
    cases h
  · rw [hstart] at hsilent
    obtain ⟨hremote, hreceived⟩ := hsilent c m rfl
    have hstarted := writeStart_started hstart
    have hstate := hstarted.state hremote
    have hrun : (∃ code, (transferLoop (coSDOclientDownload answers bufferPartial) delays
          (timeoutMs.toNat + extra + 1) (c, m)).map Prod.fst = some code ∧ code ≠ abNone) ↔
        ∃ r, transferLoop (answers.download bufferPartial).pass delays
          (timeoutMs.toNat + extra + 1) (c, m) = some r ∧ r.1 ≠ abNone := by
      constructor
      · rintro ⟨code, hmap, hcode⟩
        obtain ⟨r, hr, rfl⟩ := Option.map_eq_some_iff.mp hmap
        exact ⟨r, hr, hcode⟩
      · rintro ⟨r, hr, hcode⟩
        exact ⟨r.1, Option.map_eq_some_iff.mpr ⟨r, hr, rfl⟩, hcode⟩
    refine hrun.trans ?_
    rcases hrequest : downloadRequest c with _ | ⟨message, c'⟩
    · have hmessage : (downloadRequest c).map Prod.fst = none := by
        rw [hrequest]
        rfl
      obtain ⟨r, hturn, hcode⟩ := @download_mismatch c m answers bufferPartial hstarted.valid
        hstate hstarted.new hstarted.free hrequest
      refine iff_of_true ⟨r, poll_of_inl hturn, hcode⟩ ?_
      rintro - _ _ ⟨⟩ data hdata
      exact absurd (hmessage.symm.trans hdata) (by simp)
    · have hmessage : (downloadRequest c).map Prod.fst = some message := by
        rw [hrequest]
        rfl
      obtain ⟨fifo, sizeTran, finished, hsend⟩ :=
        @download_request c m answers bufferPartial hstate _ _ hrequest
      refine (loop_iff (download_waits answers bufferPartial) hstarted.valid hstate
        hstarted.new hstarted.free hstarted.timer hstarted.timeout timeoutMs.toUInt16.toNat_lt
        (toUInt16_le extra timeoutMs) hsend (hreceived message hmessage)).trans ?_
      constructor
      · rintro h hpos _ _ ⟨⟩ data hdata
        obtain rfl := Option.some.inj (hmessage.symm.trans hdata)
        exact h hpos
      · intro h hpos
        exact h hpos c m rfl message hmessage

/-- Reads and writes give up on a silent server exactly if their requests leave the client's
buffer in time. -/
theorem givesUp_iff (bufSize : Nat) (data : List UInt8) :
    (ReadGivesUp answers delays extra s nodeId index subIndex timeoutMs bufSize ↔
        ReadRequestLeaves delays extra s nodeId index subIndex timeoutMs) ∧
      (WriteGivesUp answers delays extra s nodeId index subIndex timeoutMs data ↔
        WriteRequestLeaves delays extra s nodeId index subIndex timeoutMs data) :=
  ⟨readGivesUp_iff answers delays extra s nodeId index subIndex timeoutMs bufSize,
    writeGivesUp_iff answers delays extra s nodeId index subIndex timeoutMs data⟩

end

/-! ## A disconnected bus -/

theorem noCompletion (_ : Fin 3) (h : false = true) : false = true := h

/-- Requests that are never completed in all mailboxes. -/
def occupied : Controller := { tme := fun _ => false, tme_of_rqcp := noCompletion }

theorem zero_txrq : (0 : UInt32) &&& canTxrq = 0 := by decide

theorem zero_dlc : (0 : UInt8) &&& 0xF = 0 := by decide

/-- The client of node 127 with the buffers at index 0. -/
def disconnected : SdoClient × CANmodule :=
  ({ od := true, nodeId := 127, object := 0, canDevRxIdx := 0, canDevTxIdx := 0 },
    coCANmoduleInit occupied 1 1
      (Vector.replicate 1 { ident_txrq := zero_txrq, dlc_and := zero_dlc }))

/-- Nothing happens on the bus, and each delay polls the driver. -/
def onlyPolls (_ : Nat) : List BusEvent := [.interrupt]

theorem interrupt_idle {m : CANmodule} (hfifo : m.dev.fifo = [])
    (hsent : canDrvIsMessageSent m.dev = none) : coCANinterrupt m = ([], m) := by
  rw [coCANinterrupt, hfifo, hsent]

theorem busRun_onlyPolls {m : CANmodule} (hidle : coCANinterrupt m = ([], m)) (n : Nat) :
    busRun m (onlyPolls n) = ([], m) := by
  rw [onlyPolls, busRun, busStep, hidle]
  rfl

theorem driverAt_onlyPolls {m : CANmodule} (hidle : coCANinterrupt m = ([], m)) (n : Nat) :
    driverAt onlyPolls m n = m := by
  induction n with
  | zero => rfl
  | succ n ih => rw [driverAt, ih, busRun_onlyPolls hidle]

theorem readStart_disconnected : ∃ c m, readStart disconnected 5 0x1000 0 800 = some (c, m) ∧
    c.isLocal = false ∧ c.txBufferFull (c.send m (uploadRequest c)) = true ∧
      coCANinterrupt (c.send m (uploadRequest c)) = ([], c.send m (uploadRequest c)) :=
  ⟨_, _, rfl, rfl, rfl, interrupt_idle rfl rfl⟩

theorem not_readGivesUp_disconnected :
    ¬ ∃ answers extra, ReadGivesUp answers onlyPolls extra disconnected 5 0x1000 0 800 4 := by
  rintro ⟨answers, extra, h⟩
  obtain ⟨c, m, hstart, hremote, hfull, hidle⟩ := readStart_disconnected
  have hsilent : ServerSilent onlyPolls (readStart disconnected 5 0x1000 0 800)
      (fun c => some (uploadRequest c)) := by
    intro c' m' hstart'
    obtain ⟨rfl, rfl⟩ := Prod.mk.inj (Option.some.inj (hstart.symm.trans hstart'))
    refine ⟨hremote, fun data hdata n call hcall => ?_⟩
    obtain rfl := Option.some.inj hdata
    rw [driverAt_onlyPolls hidle, busRun_onlyPolls hidle] at hcall
    exact absurd hcall List.not_mem_nil
  have hfree := (readGivesUp_iff answers onlyPolls extra disconnected 5 0x1000 0 800 4).mp h
    hsilent (by decide) c m hstart _ rfl
  rw [driverAt_onlyPolls hidle] at hfree
  exact absurd (hfull.symm.trans hfree) (by decide)

end ShGateway.SdoTimeout
