import ShGateway.I2cReceive

/-!
The writes of `i2c_common.c`: a byte goes to `DR` only after a status register has shown that it
can take one, and the stop condition comes after the last byte has left.
-/

namespace ShGateway.I2cTransmit

open ShGateway.I2cReceive
open ShGateway.Lib.LoopRules

/-! ## Requests -/

def i2cMasterRequestWrite (devAddress : UInt16) (fuel : Nat) : I2c Int := do
  emit (.setBit .start)
  awaitStart (-2) fuel do
    emit (.writeDr (devAddress &&& 0xFE).toUInt8)
    if (← i2cWaitOnMasterAddressFlagUntilTimeout halI2cFlagAddr fuel) ≠ 0 then pure (-1)
    else pure 0

def i2cRequestMemoryWrite (addr memAddress : UInt16) (isMem16Bit : Bool) (fuel : Nat) :
    I2c Int := do
  emit (.setBit .start)
  awaitStart (-3) fuel do
    emit (.writeDr (addr &&& 0xFE).toUInt8)
    if (← i2cWaitOnMasterAddressFlagUntilTimeout halI2cFlagAddr fuel) ≠ 0 then pure (-1)
    else
      clearAddrFlag
      awaitTxe fuel do
        if isMem16Bit then
          emit (.writeDr (memAddress >>> 8).toUInt8)
          awaitTxe fuel do
            emit (.writeDr memAddress.toUInt8)
            pure 0
        else
          emit (.writeDr memAddress.toUInt8)
          pure 0

def i2cWaitOnBtfFlagUntilTimeout : Nat → I2c Int :=
  wait halI2cFlagBtf false i2cIsAcknowledgeFailed

/-! ## Transmission -/

/-- The next byte of the buffer to `DR`. -/
def putByte (pData : Nat → UInt8) (l : Locals) : I2c Locals := do
  emit (.writeDr (pData l.pBuffPtr))
  emit (.countDown l.xferSize)
  pure ⟨l.pBuffPtr + 1, decrement l.xferCount, decrement l.xferSize⟩

/-- One byte, and another one if both registers are empty by now. -/
def putBytes (pData : Nat → UInt8) (l : Locals) : I2c Locals := do
  let l ← putByte pData l
  if (← getFlag halI2cFlagBtf) = true ∧ l.xferSize ≠ 0 then putByte pData l
  else pure l

/-- A wait that fails with the stop condition when the device did not acknowledge, and with
`I2C_ERR_GENERAL`. -/
def awaitFlag {α : Type} (x : I2c Int) (next : I2c (Int ⊕ α)) : I2c (Int ⊕ α) := do
  if (← x) ≠ 0 then
    if (← getState).errorCode = halI2cErrorAf then emit (.setBit .stop)
    pure (.inl i2cErrGeneral)
  else next

/-- A turn of the loop of `i2c_tx`. -/
def txTurn (pData : Nat → UInt8) (fuel : Nat) (l : Locals) : I2c (Int ⊕ Locals) :=
  if 0 < l.xferSize then
    awaitFlag (i2cWaitOnTxeFlagUntilTimeout fuel) do
      let l ← putBytes pData l
      awaitFlag (i2cWaitOnBtfFlagUntilTimeout fuel) (pure (.inr l))
  else pure (.inl 0)

def i2cTx (devAddress : UInt16) (pData : Nat → UInt8) (size : UInt16) (fuel : Nat) :
    I2c Int := do
  if (← checkBusy fuel) ≠ 0 then pure i2cErrBusy
  else
    emit (.clearBit .pos)
    setErrorCode 0
    if (← i2cMasterRequestWrite devAddress fuel) ≠ 0 then pure i2cErrGeneral
    else
      clearAddrFlag
      if (← iterate (txTurn pData fuel) fuel ⟨0, size.toNat, size.toNat⟩) ≠ 0 then pure i2cErrGeneral
      else
        emit (.setBit .stop)
        pure 0

/-- A turn of the loop of `i2c_mem_write`. -/
def memTurn (pData : Nat → UInt8) (fuel : Nat) (l : Locals) : I2c (Int ⊕ Locals) :=
  if 0 < l.xferSize then
    awaitFlag (i2cWaitOnTxeFlagUntilTimeout fuel) do
      let l ← putBytes pData l
      pure (.inr l)
  else pure (.inl 0)

def i2cMemWrite (addr memAddress : UInt16) (isMem16Bit : Bool) (pData : Nat → UInt8)
    (size : UInt16) (fuel : Nat) : I2c Int := do
  if (← checkBusy fuel) ≠ 0 then pure i2cErrBusy
  else
    emit (.clearBit .pos)
    setErrorCode 0
    if (← i2cRequestMemoryWrite addr memAddress isMem16Bit fuel) ≠ 0 then pure i2cErrGeneral
    else
      if (← iterate (memTurn pData fuel) fuel ⟨0, size.toNat, size.toNat⟩) ≠ 0 then pure i2cErrGeneral
      else
        if (← i2cWaitOnBtfFlagUntilTimeout fuel) ≠ 0 then
          if (← getState).errorCode = halI2cErrorAf then emit (.setBit .stop)
          pure i2cErrGeneral
        else
          emit (.setBit .stop)
          pure 0

/-! ## What has happened -/

/-- The bytes written to `DR`. -/
def written : List Event → List UInt8
  | [] => []
  | .writeDr v :: log => written log ++ [v]
  | _ :: log => written log

/-- Whether `SR1` has shown one of the flags since the last write to `DR`. -/
def shown (flags : UInt16) : List Event → Bool
  | [] => false
  | .writeDr _ :: _ => false
  | .read .sr1 v :: log => v &&& flags ≠ 0 || shown flags log
  | _ :: log => shown flags log

def sbFlag : UInt16 := 0x01
def addrFlag : UInt16 := 0x02
def btfFlag : UInt16 := 0x04

/-- `TXE` and `BTF`: the data register is empty. -/
def emptyFlags : UInt16 := 0x84

/-- Every byte was invited: the first one by the start condition, the others by an empty data
register. -/
def Paced : List Event → Prop
  | [] => True
  | .writeDr _ :: log =>
      shown (if written log = [] then sbFlag else emptyFlags) log = true ∧ Paced log
  | _ :: log => Paced log

/-- What never goes wrong in a write, whether it has ended or not. -/
structure Orderly (expected : List UInt8) (log : List Event) : Prop where
  written : written log <+: expected
  paced : Paced log
  stops : stops log ≤ 1
  counted : ∀ n ∈ counts log, n ≠ 0

/-- A write that has succeeded: all bytes, and then a stop condition, after the device has
acknowledged its address or the last byte has left. -/
structure Sent (expected : List UInt8) (log : List Event) : Prop where
  written : written log = expected
  stop : ∃ rest, log = .setBit .stop :: rest ∧ stops rest = 0 ∧
    shown (if expected.length = 1 then addrFlag else btfFlag) rest = true

/-! ## Between the writes -/

/-- Events that neither write nor stop. -/
def Calm : Event → Prop
  | .writeDr _ => False
  | .setBit b => b ≠ .stop
  | .countDown _ => False
  | _ => True

/-- A write that has written `n` bytes and goes on. -/
structure Sending (expected : List UInt8) (n : Nat) (log : List Event) : Prop where
  written : written log = expected.take n
  le : n ≤ expected.length
  paced : Paced log
  stops : stops log = 0
  counted : ∀ n ∈ counts log, n ≠ 0

section

variable {expected : List UInt8} {n : Nat} {log : List Event} {e : Event}

theorem calm_same (he : Calm e) : written (e :: log) = written log ∧ (Paced log → Paced (e :: log)) ∧
    stops (e :: log) = stops log ∧ counts (e :: log) = counts log := by
  cases e with
  | writeDr v => exact he.elim
  | countDown k => exact he.elim
  | setBit b =>
      cases b with
      | stop => exact absurd rfl he
      | _ => exact ⟨rfl, id, rfl, rfl⟩
  | _ => exact ⟨rfl, id, rfl, rfl⟩

theorem Sending.calm (h : Sending expected n log) (he : Calm e) :
    Sending expected n (e :: log) := by
  rcases @calm_same log e he with ⟨hwritten, hpaced, hstops, hcounts⟩
  exact ⟨hwritten.trans h.written, h.le, hpaced h.paced, hstops.trans h.stops, hcounts ▸ h.counted⟩

theorem Orderly.calm (h : Orderly expected log) (he : Calm e) : Orderly expected (e :: log) := by
  rcases @calm_same log e he with ⟨hwritten, hpaced, hstops, hcounts⟩
  exact ⟨hwritten ▸ h.written, hpaced h.paced, hstops ▸ h.stops, hcounts ▸ h.counted⟩

theorem Sending.orderly (h : Sending expected n log) : Orderly expected log := by
  refine ⟨?_, h.paced, h.stops.trans_le (Nat.zero_le 1), h.counted⟩
  rw [h.written]
  exact List.take_prefix n expected

theorem Sending.stop (h : Sending expected n log) : Orderly expected (.setBit .stop :: log) := by
  refine ⟨h.orderly.written, h.paced, ?_, h.counted⟩
  change I2cReceive.stops log + 1 ≤ 1
  rw [h.stops]

theorem Sending.countDown (h : Sending expected n log) {k : Nat} (hk : k ≠ 0) :
    Sending expected n (.countDown k :: log) := by
  refine ⟨h.written, h.le, h.paced, h.stops, ?_⟩
  change ∀ m ∈ counts log ++ [k], m ≠ 0
  exact List.forall_mem_append.mpr ⟨h.counted, by simpa using hk⟩

theorem Sending.write (h : Sending expected n log) {v : UInt8} (hv : expected[n]? = some v)
    (hshown : shown (if n = 0 then sbFlag else emptyFlags) log = true) :
    Sending expected (n + 1) (.writeDr v :: log) := by
  rcases List.getElem?_eq_some_iff.mp hv with ⟨hlt, hget⟩
  have hnil : I2cTransmit.written log = [] ↔ n = 0 := by
    rw [h.written, List.take_eq_nil_iff]
    exact ⟨fun hor => hor.elim id fun hnil => absurd hnil (List.ne_nil_of_length_pos (by omega)),
      .inl⟩
  refine ⟨?_, hlt, ⟨?_, h.paced⟩, h.stops, h.counted⟩
  · change I2cTransmit.written log ++ [v] = _
    rw [h.written, List.take_succ_eq_append_getElem hlt, hget]
  · simp only [hnil]
    exact hshown

theorem shown_calm (flags : UInt16) (he : Calm e) (h : shown flags log = true) :
    shown flags (e :: log) = true := by
  cases e with
  | writeDr v => exact he.elim
  | read r v =>
      cases r with
      | sr1 =>
          rw [shown, h]
          exact Bool.or_true _
      | _ => exact h
  | _ => exact h

theorem shown_read {flags flag v : UInt16} (hsub : flags &&& flag = flag) (hne : flag ≠ 0)
    (h : v &&& flag = flag) : shown flags (.read .sr1 v :: log) = true := by
  have hv : v &&& flags ≠ 0 := by
    intro hzero
    refine hne ?_
    rw [← h, ← hsub, ← UInt16.and_assoc, hzero, UInt16.zero_and]
  rw [shown, decide_eq_true hv]
  exact Bool.true_or _

end

/-! ## Waits -/

/-- The newest event is a read of the flag's register, with the flag. -/
def Shows (flag : UInt32) (log : List Event) : Prop :=
  ∃ v rest, log = .read (if (flag >>> 16).toUInt8 = 1 then .sr1 else .sr2) v :: rest ∧
    v &&& flag.toUInt16 = flag.toUInt16

theorem shown_of_shows {flags : UInt16} {flag : UInt32} {log : List Event}
    (h : Shows flag log) (hreg : (flag >>> 16).toUInt8 = 1)
    (hsub : flags &&& flag.toUInt16 = flag.toUInt16) (hne : flag.toUInt16 ≠ 0) :
    shown flags log = true := by
  rcases h with ⟨v, rest, rfl, hv⟩
  rw [if_pos hreg]
  exact shown_read hsub hne hv

/-- From `b` the call ends with zero and `mid`, or `fail` holds. -/
def Tests (x : I2c Int) (mid fail : List Event → Prop) (b : Bus) : Prop :=
  Wp x (fun r b => (r = 0 → mid b.log) ∧ (r ≠ 0 → fail b.log)) (fail ·.log) b

section

variable {expected : List UInt8} {n : Nat} {fuel : Nat} {b : Bus}

/-- A wait until a flag is set: `I` holds up to then, and `F` after a failure. -/
theorem wait_ends {I F : List Event → Prop} {flag : UInt32} {failed : I2c Bool} (fuel : Nat)
    (hread : ∀ r v log, I log → I (.read r v :: log)) (hfail : ∀ log, I log → F log)
    (hfailed : ∀ b, I b.log → Wp failed
      (fun r b => (r = false → I b.log) ∧ (r = true → F b.log)) (F ·.log) b)
    (h : I b.log) :
    Tests (wait flag false failed fuel) (fun log => I log ∧ Shows flag log) F b := by
  have hminus : ∀ b : Bus, F b.log →
      ((-1 : Int) = 0 → I b.log ∧ Shows flag b.log) ∧ ((-1 : Int) ≠ 0 → F b.log) :=
    fun b h => ⟨fun hzero => absurd hzero (by decide), fun _ => h⟩
  have hflag : ∀ (b : Bus) (Q : Bool → Bus → Prop), I b.log →
      (∀ set b', I b'.log → (set = true → Shows flag b'.log) → Q set b') →
      Wp (getFlag flag) Q (F ·.log) b := by
    intro b Q h hQ
    rw [getFlag, wp_bind, wp_readReg]
    refine hQ _ _ (hread _ _ _ h) fun hset => ?_
    exact ⟨_, b.log, rfl, of_decide_eq_true hset⟩
  rw [Tests, wait, wp_bind, wp_setTime]
  refine .iterate (fun _ b => I b.log) (fun _ b h => ?_) (fun _ _ h => hfail _ h) fuel h
  rw [wp_bind]
  refine hflag b _ h fun set b h hset => .ite (fun _ => ?_) fun hne => ?_
  · rw [wp_bind]
    refine (hfailed b h).mono ?_ fun _ => id
    rintro (_ | _) b ⟨hgo, hstop⟩
    · rw [if_neg Bool.false_ne_true, wp_bind, wp_timeIsUp]
      refine .ite (fun _ => ?_) fun _ => hgo rfl
      rw [wp_bind]
      refine hflag _ _ (hgo rfl) fun set b h _ => .ite (fun _ => ?_) fun _ => h
      exact hminus _ (hfail _ h)
    · exact hminus _ (hstop rfl)
  · exact ⟨fun _ => ⟨h, hset (by simpa using hne)⟩, fun hzero => absurd rfl hzero⟩

theorem getFlag_sending {flag : UInt32} {Q : Bool → Bus → Prop} {E : Bus → Prop}
    (h : Sending expected n b.log)
    (hQ : ∀ set b', Sending expected n b'.log → (∀ flags, shown flags b.log = true →
      shown flags b'.log = true) → (set = true → Shows flag b'.log) → Q set b') :
    Wp (getFlag flag) Q E b := by
  rw [getFlag, wp_bind, wp_readReg]
  refine hQ _ _ (h.calm trivial) (fun flags hshown => shown_calm flags trivial hshown)
    fun hset => ?_
  exact ⟨_, b.log, rfl, of_decide_eq_true hset⟩

theorem i2cIsAcknowledgeFailed_sending (h : Sending expected n b.log) :
    Wp i2cIsAcknowledgeFailed
      (fun r b => (r = false → Sending expected n b.log) ∧ (r = true → Sending expected n b.log))
      (Sending expected n ·.log) b := by
  rw [i2cIsAcknowledgeFailed, wp_bind]
  refine getFlag_sending h fun set b h _ _ => .ite (fun _ => ?_) fun _ => ?_
  · have hcleared := h.calm (show Calm (.clearFlag halI2cFlagAf) from trivial)
    exact ⟨fun _ => hcleared, fun _ => hcleared⟩
  · exact ⟨fun _ => h, fun _ => h⟩

theorem waitEmpty_ends {flag : UInt32} (h : Sending expected n b.log) :
    Tests (wait flag false i2cIsAcknowledgeFailed fuel)
      (fun log => Sending expected n log ∧ Shows flag log) (Sending expected n) b :=
  wait_ends fuel (fun _ _ _ h => h.calm trivial) (fun _ => id)
    (fun _ h => i2cIsAcknowledgeFailed_sending h) h

theorem waitStart_ends {flag : UInt32} (h : Sending expected n b.log) :
    Tests (i2cWaitOnFlagUntilTimeout flag false fuel)
      (fun log => Sending expected n log ∧ Shows flag log) (Sending expected n) b :=
  wait_ends fuel (fun _ _ _ h => h.calm trivial) (fun _ => id)
    (fun _ h => ⟨fun _ => h, fun _ => h⟩) h

theorem waitAddress_ends {flag : UInt32} (h : Sending expected n b.log) :
    Tests (i2cWaitOnMasterAddressFlagUntilTimeout flag fuel)
      (fun log => Sending expected n log ∧ Shows flag log) (Orderly expected) b := by
  refine wait_ends fuel (fun _ _ _ h => h.calm trivial) (fun _ => Sending.orderly) (fun b h => ?_) h
  rw [wp_bind]
  refine getFlag_sending h fun set b h _ _ => .ite (fun _ => ?_) fun _ => ?_
  · have hcleared := h.stop.calm (show Calm (.clearFlag halI2cFlagAf) from trivial)
    exact ⟨fun hfalse => absurd hfalse (by decide), fun _ => hcleared⟩
  · exact ⟨fun _ => h, fun hfalse => absurd hfalse (by decide)⟩

/-! ## Checked calls -/

/-- From `b` the call succeeds with `post`, or leaves an orderly write behind. -/
def Ends (expected : List UInt8) (x : I2c Int) (post : List Event → Prop) (b : Bus) : Prop :=
  Tests x post (Orderly expected) b

variable {post : List Event → Prop} {next : I2c Int}

theorem Ends.success (h : post b.log) : Ends expected (pure 0) post b :=
  ⟨fun _ => h, fun hzero => absurd rfl hzero⟩

theorem Ends.failure {code : Int} (hcode : code ≠ 0) (h : Orderly expected b.log) :
    Ends expected (pure code) post b :=
  ⟨fun hzero => absurd hzero hcode, fun _ => h⟩

theorem ends_emit {e : Event} (h : Ends expected next post (b.emit e)) :
    Ends expected (do emit e; next) post b := h

theorem ends_setErrorCode {e : UInt32}
    (h : Ends expected next post { b with errorCode := e }) :
    Ends expected (do setErrorCode e; next) post b := h

theorem Ends.check {x y z : I2c Int} {mid fail : List Event → Prop}
    (hx : Tests x mid fail b) (hfail : ∀ log, fail log → Orderly expected log)
    (hy : ∀ b, fail b.log → Ends expected y post b)
    (hz : ∀ b, mid b.log → Ends expected z post b) :
    Ends expected (do if (← x) ≠ 0 then y else z) post b := by
  rw [Ends, Tests, wp_bind]
  refine hx.mono (fun r b h => ?_) fun b => hfail b.log
  refine .ite (fun hr => hy b (h.2 hr)) fun hr => hz b (h.1 (not_not.mp hr))

theorem Ends.stopIfRefused {code : Int} (hcode : code ≠ 0) (h : Sending expected n b.log) :
    Ends expected (do
      if (← getState).errorCode = halI2cErrorAf then emit (.setBit .stop)
      pure code) post b := by
  rw [Ends, Tests, wp_bind, wp_getState]
  refine .ite (fun _ => ?_) fun _ => ?_
  · exact Ends.failure hcode (b := b.emit (.setBit .stop)) h.stop
  · exact Ends.failure hcode h.orderly

theorem awaitStart_ends {code : Int} (hcode : code ≠ 0) (h : Sending expected 0 b.log)
    (hnext : ∀ b, Sending expected 0 b.log → shown sbFlag b.log = true →
      Ends expected next post b) : Ends expected (awaitStart code fuel next) post b := by
  refine .check (waitStart_ends h) (fun _ => Sending.orderly) (fun b h => ?_) fun b h => ?_
  · rw [Ends, Tests, wp_bind, wp_readReg]
    have hread := h.calm (show Calm (.read .cr1 (b.values b.now)) from trivial)
    exact .ite (fun _ => ⟨fun hzero => absurd hzero hcode, fun _ => hread.orderly⟩)
      fun _ => ⟨fun hzero => absurd hzero hcode, fun _ => hread.orderly⟩
  · exact hnext b h.1 (shown_of_shows h.2 (by decide) (by decide) (by decide))

theorem awaitTxe_ends (h : Sending expected n b.log)
    (hnext : ∀ b, Sending expected n b.log → shown emptyFlags b.log = true →
      Ends expected next post b) : Ends expected (awaitTxe fuel next) post b := by
  refine .check (x := i2cWaitOnTxeFlagUntilTimeout fuel) (waitEmpty_ends h) (fun _ => Sending.orderly)
    (fun b h => .stopIfRefused (by decide) h) fun b h => ?_
  exact hnext b h.1 (shown_of_shows h.2 (by decide) (by decide) (by decide))

theorem awaitAddress_ends (h : Sending expected n b.log)
    (hnext : ∀ b, Sending expected n b.log → shown addrFlag b.log = true →
      Ends expected next post b) :
    Ends expected (do
      if (← i2cWaitOnMasterAddressFlagUntilTimeout halI2cFlagAddr fuel) ≠ 0 then pure (-1)
      else next) post b := by
  refine .check (waitAddress_ends h) (fun _ => id) (fun b h => .failure (by decide) h) fun b h => ?_
  exact hnext b h.1 (shown_of_shows h.2 (by decide) (by decide) (by decide))

/-! ## Requests -/

theorem clearAddrFlag_ends (h : Sending expected n b.log)
    (hnext : ∀ b', Sending expected n b'.log → (∀ flags, shown flags b.log = true →
      shown flags b'.log = true) → Ends expected next post b') :
    Ends expected (do clearAddrFlag; next) post b := by
  have hsr1 : Calm (.read .sr1 (b.values b.now)) := trivial
  have hsr2 : Calm (.read .sr2 (b.values (b.now + 1))) := trivial
  refine hnext ((b.read .sr1).read .sr2) ((h.calm hsr1).calm hsr2) ?_
  intro flags hshown
  exact shown_calm flags hsr2 (shown_calm flags hsr1 hshown)

theorem i2cMasterRequestWrite_ends {devAddress : UInt16} (h : Sending expected 0 b.log)
    (haddr : expected[0]? = some (devAddress &&& 0xFE).toUInt8) :
    Ends expected (i2cMasterRequestWrite devAddress fuel)
      (fun log => Sending expected 1 log ∧ shown addrFlag log = true) b := by
  have hstart := h.calm (show Calm (.setBit .start) from Cr1Bit.noConfusion)
  refine ends_emit (awaitStart_ends (show (-2 : Int) ≠ 0 by decide) hstart fun b h hshown => ?_)
  refine ends_emit (awaitAddress_ends (h.write haddr hshown) fun b h hshown => ?_)
  exact .success ⟨h, hshown⟩

/-- The bytes of a memory address. -/
def memAddressBytes (memAddress : UInt16) (isMem16Bit : Bool) : List UInt8 :=
  if isMem16Bit then [(memAddress >>> 8).toUInt8, memAddress.toUInt8] else [memAddress.toUInt8]

theorem i2cRequestMemoryWrite_ends {addr memAddress : UInt16} {isMem16Bit : Bool}
    {data : List UInt8}
    (hexpected : expected = (addr &&& 0xFE).toUInt8 :: (memAddressBytes memAddress isMem16Bit ++ data))
    (h : Sending expected 0 b.log) :
    Ends expected (i2cRequestMemoryWrite addr memAddress isMem16Bit fuel)
      (Sending expected ((memAddressBytes memAddress isMem16Bit).length + 1)) b := by
  have hstart := h.calm (show Calm (.setBit .start) from Cr1Bit.noConfusion)
  refine ends_emit (awaitStart_ends (show (-3 : Int) ≠ 0 by decide) hstart fun b h hshown => ?_)
  refine ends_emit (awaitAddress_ends (h.write (by rw [hexpected]; rfl) hshown) fun b h _ => ?_)
  refine clearAddrFlag_ends h fun b h _ => ?_
  refine awaitTxe_ends h fun b h hshown => ?_
  cases isMem16Bit with
  | true =>
      refine ends_emit (awaitTxe_ends (h.write (by rw [hexpected]; rfl) hshown)
        fun b h hshown => ?_)
      exact ends_emit (.success (h.write (by rw [hexpected]; rfl) hshown))
  | false => exact ends_emit (.success (h.write (by rw [hexpected]; rfl) hshown))

end

/-! ## The loops -/

/-- What goes to `DR` in a write. -/
def message (header : List UInt8) (pData : Nat → UInt8) (size : Nat) : List UInt8 :=
  header ++ (List.range size).map pData

/-- A write whose local variables agree with what has been written. -/
structure At (header : List UInt8) (pData : Nat → UInt8) (size : Nat) (l : Locals)
    (log : List Event) : Prop where
  header_ne_nil : header ≠ []
  total : l.pBuffPtr + l.xferSize = size
  fits : size < 2 ^ 32
  sending : Sending (message header pData size) (header.length + l.pBuffPtr) log

/-- The end of a turn: the loop is over with success, or it has failed, or it goes on. -/
def Turned {α : Type} (expected : List UInt8) (done : List Event → Prop)
    (again : α → List Event → Prop) (r : Int ⊕ α) (b : Bus) : Prop :=
  r.elim (fun r => (r = 0 → done b.log) ∧ (r ≠ 0 → Orderly expected b.log)) (again · b.log)

section

variable {header : List UInt8} {pData : Nat → UInt8} {size fuel n : Nat} {l : Locals} {b : Bus}
  {E : Bus → Prop} {expected : List UInt8}

theorem message_length : (message header pData size).length = header.length + size := by
  rw [message, List.length_append, List.length_map, List.length_range]

theorem message_getElem {p : Nat} (hp : p < size) :
    (message header pData size)[header.length + p]? = some (pData p) := by
  rw [message, List.getElem?_append_right (Nat.le_add_right _ _), Nat.add_sub_cancel_left,
    List.getElem?_map, List.getElem?_range hp]
  rfl

theorem putByte_at {Q : Locals → Bus → Prop} (h : At header pData size l b.log)
    (hpos : 0 < l.xferSize) (hshown : shown emptyFlags b.log = true)
    (hQ : ∀ l' b', At header pData size l' b'.log → l'.pBuffPtr = l.pBuffPtr + 1 → Q l' b') :
    Wp (putByte pData l) Q E b := by
  have htotal := h.total
  have hfits := h.fits
  have hsub : decrement l.xferSize + 1 = l.xferSize := by
    change (l.xferSize + (2 ^ 32 - 1)) % 2 ^ 32 + 1 = l.xferSize
    omega
  have hfirst := List.length_pos_iff.mpr h.header_ne_nil
  have hwrite := h.sending.write (message_getElem (show l.pBuffPtr < size by omega))
    (by rw [if_neg (by omega)]; exact hshown)
  refine hQ ⟨_, _, _⟩ ((b.emit (.writeDr _)).emit (.countDown _)) ⟨h.header_ne_nil, ?_, hfits, ?_⟩ rfl
  · change l.pBuffPtr + 1 + decrement l.xferSize = size
    omega
  · exact hwrite.countDown hpos.ne'

theorem putBytes_at (h : At header pData size l b.log) (hpos : 0 < l.xferSize)
    (hshown : shown emptyFlags b.log = true) :
    Wp (putBytes pData l) (fun l' b' => At header pData size l' b'.log ∧ 0 < l'.pBuffPtr) E b := by
  rw [putBytes, wp_bind]
  refine putByte_at h hpos hshown fun l₁ b₁ h₁ hp₁ => ?_
  rw [wp_bind]
  refine getFlag_sending h₁.sending fun set b₂ hsending _ hset => .ite (fun hboth => ?_) fun _ => ?_
  · have hempty : shown emptyFlags b₂.log = true :=
      shown_of_shows (hset hboth.1) (by decide) (by decide) (by decide)
    refine putByte_at ⟨h.header_ne_nil, h₁.total, h.fits, hsending⟩ (by omega) hempty
      fun l₃ b₃ h₃ hp₃ => ⟨h₃, by omega⟩
  · exact ⟨⟨h.header_ne_nil, h₁.total, h.fits, hsending⟩, by omega⟩

theorem awaitFlag_turned {α : Type} {flag : UInt32} {next : I2c (Int ⊕ α)}
    {done : List Event → Prop} {again : α → List Event → Prop}
    (h : Sending expected n b.log)
    (hnext : ∀ b, Sending expected n b.log → Shows flag b.log →
      Wp next (Turned expected done again) (Orderly expected ·.log) b) :
    Wp (awaitFlag (wait flag false i2cIsAcknowledgeFailed fuel) next)
      (Turned expected done again) (Orderly expected ·.log) b := by
  rw [awaitFlag, wp_bind]
  refine (waitEmpty_ends h).mono (fun r b h => .ite (fun hr => ?_) fun hr => ?_)
    fun _ => Sending.orderly
  · have hfailed := h.2 hr
    rw [wp_bind, wp_getState]
    exact .ite (fun _ => ⟨fun hzero => absurd hzero (by decide), fun _ => hfailed.stop⟩)
      fun _ => ⟨fun hzero => absurd hzero (by decide), fun _ => hfailed.orderly⟩
  · rcases h.1 (not_not.mp hr) with ⟨hsending, hshows⟩
    exact hnext b hsending hshows

theorem txTurn_turned (fuel : Nat) (h : At header pData size l b.log)
    (hshown : shown (if l.pBuffPtr = 0 then addrFlag else btfFlag) b.log = true) :
    Wp (txTurn pData fuel l) (Turned (message header pData size)
      (fun log => Sending (message header pData size) (header.length + size) log ∧
        shown (if size = 0 then addrFlag else btfFlag) log = true)
      (fun l log => At header pData size l log ∧
        shown (if l.pBuffPtr = 0 then addrFlag else btfFlag) log = true))
      (Orderly (message header pData size) ·.log) b := by
  have htotal := h.total
  refine .ite (fun hpos => ?_) fun hzero => ?_
  · refine awaitFlag_turned h.sending fun b hsending hshows => ?_
    rw [wp_bind]
    refine (putBytes_at ⟨h.header_ne_nil, htotal, h.fits, hsending⟩ hpos (shown_of_shows hshows
      (by decide) (by decide) (by decide))).mono (fun l b h => ?_) fun _ => id
    refine awaitFlag_turned h.1.sending fun b hsending hshows => ?_
    refine ⟨⟨h.1.header_ne_nil, h.1.total, h.1.fits, hsending⟩, ?_⟩
    rw [if_neg h.2.ne']
    exact shown_of_shows hshows (by decide) (by decide) (by decide)
  · have hall : l.pBuffPtr = size := by omega
    exact ⟨fun _ => ⟨hall ▸ h.sending, hall ▸ hshown⟩, fun hne => absurd rfl hne⟩

theorem memTurn_turned (fuel : Nat) (h : At header pData size l b.log) :
    Wp (memTurn pData fuel l) (Turned (message header pData size)
      (Sending (message header pData size) (header.length + size)) (At header pData size))
      (Orderly (message header pData size) ·.log) b := by
  have htotal := h.total
  refine .ite (fun hpos => ?_) fun hzero => ?_
  · refine awaitFlag_turned h.sending fun b hsending hshows => ?_
    rw [wp_bind]
    exact (putBytes_at ⟨h.header_ne_nil, htotal, h.fits, hsending⟩ hpos (shown_of_shows hshows
      (by decide) (by decide) (by decide))).mono (fun l b h => h.1) fun _ => id
  · have hall : l.pBuffPtr = size := by omega
    exact ⟨fun _ => hall ▸ h.sending, fun hne => absurd rfl hne⟩

theorem iterate_ends {turn : Locals → I2c (Int ⊕ Locals)} {done : List Event → Prop}
    {again : Locals → List Event → Prop}
    (hturn : ∀ l (b : Bus), again l b.log →
      Wp (turn l) (Turned expected done again) (Orderly expected ·.log) b)
    (horderly : ∀ l log, again l log → Orderly expected log) (h : again l b.log) :
    Ends expected (iterate turn fuel l) done b :=
  Wp.iterate (fun l b => again l b.log) hturn (fun l b => horderly l b.log) fuel h

/-! ## Whole writes -/

theorem checkBusyOnce_sending (h : Sending expected n b.log) :
    Wp checkBusyOnce (fun _ b => Sending expected n b.log) (Sending expected n ·.log) b := by
  rw [checkBusyOnce, wp_bind]
  refine getFlag_sending h fun set b h _ _ => .ite (fun _ => ?_) fun _ => h
  have hagain : ∀ b : Bus, Sending expected n b.log →
      Wp (do if ← getFlag halI2cFlagBusy then pure i2cErrBusy else pure 0)
        (fun _ b => Sending expected n b.log) (Sending expected n ·.log) b := by
    intro b h
    rw [wp_bind]
    exact getFlag_sending h fun set b h _ _ => .ite (fun _ => h) fun _ => h
  have hsr1 := h.calm (show Calm (.read .sr1 (b.values b.now)) from trivial)
  rw [wp_bind, wp_readReg]
  refine .ite (fun _ => ?_) fun _ => hagain _ hsr1
  rw [wp_bind, wp_update, wp_bind, wp_emit]
  exact hagain _ (hsr1.calm (show Calm .restart from trivial))

theorem checkBusy_ends (h : Sending expected n b.log) :
    Tests (checkBusy fuel) (Sending expected n) (Sending expected n) b := by
  rw [Tests, checkBusy, wp_bind, wp_setTime]
  refine .iterate (fun _ b => Sending expected n b.log) (fun _ b h => ?_) (fun _ _ h => h) fuel h
  rw [wp_bind]
  refine (checkBusyOnce_sending h).mono (fun r b h => ?_) fun _ => id
  refine .ite (fun _ => ?_) fun _ => ⟨fun _ => h, fun _ => h⟩
  rw [wp_bind, wp_timeIsUp]
  exact .ite (fun _ => ⟨fun _ => h, fun _ => h⟩) fun _ => h

theorem stop_ends (h : Sending expected expected.length b.log)
    (hshown : shown (if expected.length = 1 then addrFlag else btfFlag) b.log = true) :
    Ends expected (do emit (.setBit .stop); pure 0)
      (fun log => Orderly expected log ∧ Sent expected log) b := by
  refine ends_emit (.success ⟨h.stop, ?_, b.log, rfl, h.stops, hshown⟩)
  exact h.written.trans List.take_length

theorem i2cTx_ends {devAddress size : UInt16}
    (h : Sending (message [(devAddress &&& 0xFE).toUInt8] pData size.toNat) 0 b.log) :
    Ends (message [(devAddress &&& 0xFE).toUInt8] pData size.toNat)
      (i2cTx devAddress pData size fuel)
      (fun log => Orderly (message [(devAddress &&& 0xFE).toUInt8] pData size.toNat) log ∧
        Sent (message [(devAddress &&& 0xFE).toUInt8] pData size.toNat) log) b := by
  have hsize := size.toNat_lt
  refine .check (checkBusy_ends h) (fun _ => Sending.orderly)
    (fun b h => .failure (by decide) h.orderly) fun b h => ?_
  have hpos := h.calm (show Calm (.clearBit .pos) from trivial)
  refine ends_emit (ends_setErrorCode (.check (i2cMasterRequestWrite_ends hpos rfl) (fun _ => id)
    (fun b h => .failure (show i2cErrGeneral ≠ 0 by decide) h) fun b h => ?_))
  refine clearAddrFlag_ends h.1 fun b' hsending hkeep => ?_
  have hat : At [(devAddress &&& 0xFE).toUInt8] pData size.toNat ⟨0, size.toNat, size.toNat⟩
      b'.log := ⟨List.cons_ne_nil _ _, Nat.zero_add _, by omega, hsending⟩
  refine Ends.check (iterate_ends (fun l b h => txTurn_turned fuel h.1 h.2)
    (fun _ _ h => h.1.sending.orderly) ⟨hat, hkeep _ h.2⟩) (fun _ => id)
    (fun b h => .failure (show i2cErrGeneral ≠ 0 by decide) h) fun b h => ?_
  refine stop_ends ?_ ?_
  · rw [message_length]
    exact h.1
  · rw [message_length]
    refine Eq.trans (congrArg (shown · b.log) (if_congr ?_ rfl rfl)) h.2
    change 1 + size.toNat = 1 ↔ _
    omega

theorem i2cMemWrite_ends {addr memAddress size : UInt16} {isMem16Bit : Bool}
    (hexpected : expected = message
      ((addr &&& 0xFE).toUInt8 :: memAddressBytes memAddress isMem16Bit) pData size.toNat)
    (h : Sending expected 0 b.log) :
    Ends expected (i2cMemWrite addr memAddress isMem16Bit pData size fuel)
      (fun log => Orderly expected log ∧ Sent expected log) b := by
  have hsize := size.toNat_lt
  refine .check (checkBusy_ends h) (fun _ => Sending.orderly)
    (fun b h => .failure (by decide) h.orderly) fun b h => ?_
  have hpos := h.calm (show Calm (.clearBit .pos) from trivial)
  refine ends_emit (ends_setErrorCode (.check (i2cRequestMemoryWrite_ends hexpected hpos)
    (fun _ => id) (fun b h => .failure (show i2cErrGeneral ≠ 0 by decide) h) fun b h => ?_))
  have hat : At ((addr &&& 0xFE).toUInt8 :: memAddressBytes memAddress isMem16Bit) pData
      size.toNat ⟨0, size.toNat, size.toNat⟩ b.log :=
    ⟨List.cons_ne_nil _ _, Nat.zero_add _, by omega, hexpected ▸ h⟩
  subst hexpected
  refine Ends.check (iterate_ends (fun l b h => memTurn_turned fuel h) (fun _ _ h => h.sending.orderly)
    hat) (fun _ => id) (fun b h => .failure (show i2cErrGeneral ≠ 0 by decide) h) fun b h => ?_
  refine Ends.check (waitEmpty_ends h) (fun _ => Sending.orderly)
    (fun b h => .stopIfRefused (show i2cErrGeneral ≠ 0 by decide) h) fun b h => ?_
  refine stop_ends ?_ ?_
  · rw [message_length]
    exact h.1
  · rw [if_neg]
    · exact shown_of_shows h.2 (by decide) (by decide) (by decide)
    · have hheader : 1 ≤ (memAddressBytes memAddress isMem16Bit).length := by
        cases isMem16Bit with
        | true => exact Nat.le_succ 1
        | false => exact Nat.le_refl 1
      rw [message_length, List.length_cons]
      omega

end

/-- What a write of these bytes ends with. -/
structure Outcome (expected : List UInt8) (r : Option Int × Bus) : Prop where
  sent : r.1 = some 0 → Sent expected r.2.log
  orderly : Orderly expected r.2.log

theorem outcome_of_ends {expected : List UInt8} {x : I2c Int} {b : Bus}
    (h : Ends expected x (fun log => Orderly expected log ∧ Sent expected log) b) :
    Outcome expected (x b) := by
  refine ⟨fun hr => ((h.result hr).1 rfl).2, h.reached (fun r b h => ?_) fun _ => id⟩
  by_cases hr : r = 0
  · exact (h.1 hr).1
  · exact h.2 hr

/-- Whatever the bus shows, the writes send the address and the buffer in order, each byte when
the data register can take it, or fail. -/
theorem i2c_writes_deliver (values : Nat → UInt16) (errorCode i2cErrRestarts time : UInt32)
    (addr memAddress : UInt16) (isMem16Bit : Bool) (pData : Nat → UInt8) (size : UInt16)
    (fuel : Nat) :
    Outcome (message [(addr &&& 0xFE).toUInt8] pData size.toNat)
        (i2cTx addr pData size fuel (.start values errorCode i2cErrRestarts time)) ∧
      Outcome (message ((addr &&& 0xFE).toUInt8 :: memAddressBytes memAddress isMem16Bit) pData
          size.toNat)
        (i2cMemWrite addr memAddress isMem16Bit pData size fuel
          (.start values errorCode i2cErrRestarts time)) := by
  have hstart : ∀ expected, Sending expected 0
      (Bus.start values errorCode i2cErrRestarts time).log := fun expected =>
    ⟨rfl, Nat.zero_le _, trivial, rfl, by simp [Bus.start, counts]⟩
  constructor
  · exact outcome_of_ends (i2cTx_ends (hstart _))
  · exact outcome_of_ends (i2cMemWrite_ends rfl (hstart _))

-- On a bus that is always ready the writes succeed.
example : (i2cMemWrite 0x70 0x1234 true (fun i => UInt8.ofNat i) 5 7
    (.start (fun n => if n = 0 then 0 else 0xC7) 0 0 0)).1 = some 0 := by
  decide

end ShGateway.I2cTransmit
