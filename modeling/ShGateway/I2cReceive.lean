import ShGateway.Lib.LoopRules

/-!
The reads of `i2c_common.c`. Every register read takes the next of the values that the bus shows
during the call, whatever they are.
-/

namespace ShGateway.I2cReceive

open ShGateway.Lib.LoopRules

inductive Reg
  | cr1 | sr1 | sr2 | dr
deriving DecidableEq, Repr

/-- The bits of `CR1` that the reads set and clear. -/
inductive Cr1Bit
  | start | stop | ack | pos
deriving DecidableEq, Repr

inductive Event
  | read (r : Reg) (v : UInt16)
  | setBit (b : Cr1Bit)
  | clearBit (b : Cr1Bit)
  | writeDr (v : UInt8)
  | clearFlag (flag : UInt32)
  | restart
  | store (offset : Nat) (b : UInt8)
  | countDown (xferSize : Nat)
deriving DecidableEq, Repr

/-- The values still to be read, the variables of `i2c_common.c`, and what has happened, the
newest first. -/
structure Bus where
  values : Nat → UInt16
  now : Nat
  log : List Event
  errorCode : UInt32
  i2cErrRestarts : UInt32
  time : UInt32

def timeout : UInt32 := 0xFFF

def halI2cFlagAf : UInt32 := 0x00010400
def halI2cFlagTxe : UInt32 := 0x00010080
def halI2cFlagRxne : UInt32 := 0x00010040
def halI2cFlagStopf : UInt32 := 0x00010010
def halI2cFlagBtf : UInt32 := 0x00010004
def halI2cFlagAddr : UInt32 := 0x00010002
def halI2cFlagSb : UInt32 := 0x00010001
def halI2cFlagBusy : UInt32 := 0x00100002

def halI2cErrorAf : UInt32 := 0x00000004
def halI2cErrorTimeout : UInt32 := 0x00000020
def halI2cWrongStart : UInt32 := 0x00000200

def i2cErrBusy : Int := -2
def i2cErrGeneral : Int := -1

/-- `OVR`, `AF`, `ARLO` and `BERR` in `SR1`. -/
def errorFlags : UInt16 := 0x0F00

def i2cCr1Start : UInt16 := 0x0100

/-! ## Registers and variables -/

def Bus.emit (e : Event) (b : Bus) : Bus := { b with log := e :: b.log }

abbrev I2c := Attempt Bus

def emit (e : Event) : I2c Unit := update (Bus.emit e)

def Bus.read (r : Reg) (b : Bus) : Bus := { b.emit (.read r (b.values b.now)) with now := b.now + 1 }

def readReg (r : Reg) : I2c UInt16 := do
  let b ← getState
  update (Bus.read r)
  pure (b.values b.now)

/-- `__HAL_I2C_GET_FLAG`. -/
def getFlag (flag : UInt32) : I2c Bool := do
  let v ← readReg (if (flag >>> 16).toUInt8 = 1 then .sr1 else .sr2)
  pure (v &&& flag.toUInt16 = flag.toUInt16)

/-- `__HAL_I2C_CLEAR_ADDRFLAG`. -/
def clearAddrFlag : I2c Unit := do
  let _ ← readReg .sr1
  let _ ← readReg .sr2

def setTime (t : UInt32) : I2c Unit := update fun b => { b with time := t }

/-- `--time == 0`. -/
def timeIsUp : I2c Bool := do
  update fun b => { b with time := b.time - 1 }
  let b ← getState
  pure (b.time = 0)

def setErrorCode (e : UInt32) : I2c Unit := update fun b => { b with errorCode := e }

def orErrorCode (e : UInt32) : I2c Unit :=
  update fun b => { b with errorCode := b.errorCode ||| e }

/-! ## Waiting -/

/-- The wait for a flag to change. `failed` is what the loop looks at before the clock. -/
def wait (flag : UInt32) (status : Bool) (failed : I2c Bool) (fuel : Nat) : I2c Int := do
  setTime timeout
  iterate (fun _ => do
    if (← getFlag flag) = status then
      if ← failed then pure (.inl (-1))
      else if ← timeIsUp then
        if (← getFlag flag) = status then
          orErrorCode halI2cErrorTimeout
          pure (.inl (-1))
        else pure (.inr ())
      else pure (.inr ())
    else pure (.inl 0)) fuel ()

def i2cIsAcknowledgeFailed : I2c Bool := do
  if ← getFlag halI2cFlagAf then
    emit (.clearFlag halI2cFlagAf)
    orErrorCode halI2cErrorAf
    pure true
  else pure false

def i2cWaitOnFlagUntilTimeout (flag : UInt32) (status : Bool) : Nat → I2c Int :=
  wait flag status (pure false)

def i2cWaitOnTxeFlagUntilTimeout : Nat → I2c Int :=
  wait halI2cFlagTxe false i2cIsAcknowledgeFailed

def i2cWaitOnMasterAddressFlagUntilTimeout (flag : UInt32) : Nat → I2c Int :=
  wait flag false do
    if ← getFlag halI2cFlagAf then
      emit (.setBit .stop)
      emit (.clearFlag halI2cFlagAf)
      orErrorCode halI2cErrorAf
      pure true
    else pure false

def i2cWaitOnRxneFlagUntilTimeout : Nat → I2c Int :=
  wait halI2cFlagRxne false do
    if ← getFlag halI2cFlagStopf then
      emit (.clearFlag halI2cFlagStopf)
      pure true
    else pure false

/-- `check_busy_`. The restart toggles the clock line and initialises the peripheral anew. -/
def checkBusyOnce : I2c Int := do
  if ← getFlag halI2cFlagBusy then
    let sr1 ← readReg .sr1
    if sr1 &&& errorFlags ≠ 0 then
      update fun b => { b with i2cErrRestarts := b.i2cErrRestarts + 1 }
      emit .restart
    if ← getFlag halI2cFlagBusy then pure i2cErrBusy else pure 0
  else pure 0

def checkBusy (fuel : Nat) : I2c Int := do
  setTime timeout
  iterate (fun _ => do
    if (← checkBusyOnce) ≠ 0 then
      if ← timeIsUp then pure (.inl (-1)) else pure (.inr ())
    else pure (.inl 0)) fuel ()

/-! ## Requests -/

/-- The wait for the start condition, with the code for its failure. -/
def awaitStart (code : Int) (fuel : Nat) (next : I2c Int) : I2c Int := do
  if (← i2cWaitOnFlagUntilTimeout halI2cFlagSb false fuel) ≠ 0 then
    if (← readReg .cr1) &&& i2cCr1Start = i2cCr1Start then setErrorCode halI2cWrongStart
    pure code
  else next

/-- The wait for `TXE`, with the stop condition when the device did not acknowledge. -/
def awaitTxe (fuel : Nat) (next : I2c Int) : I2c Int := do
  if (← i2cWaitOnTxeFlagUntilTimeout fuel) ≠ 0 then
    if (← getState).errorCode = halI2cErrorAf then emit (.setBit .stop)
    pure (-1)
  else next

def i2cMasterRequestRead (devAddress : UInt16) (fuel : Nat) : I2c Int := do
  emit (.setBit .ack)
  emit (.setBit .start)
  awaitStart (-2) fuel do
    emit (.writeDr (devAddress ||| 1).toUInt8)
    if (← i2cWaitOnMasterAddressFlagUntilTimeout halI2cFlagAddr fuel) ≠ 0 then pure (-1)
    else pure 0

/-- The end of a memory request: the device is addressed once more, for reading. -/
def requestAgain (addr : UInt16) (fuel : Nat) : I2c Int :=
  awaitTxe fuel do
    emit (.setBit .start)
    awaitStart (-3) fuel do
      emit (.writeDr (addr ||| 1).toUInt8)
      if (← i2cWaitOnMasterAddressFlagUntilTimeout halI2cFlagAddr fuel) ≠ 0 then pure (-1)
      else pure 0

def i2cRequestMemoryRead (addr memAddress : UInt16) (isMem16Bit : Bool) (fuel : Nat) :
    I2c Int := do
  emit (.setBit .ack)
  emit (.setBit .start)
  awaitStart (-3) fuel do
    emit (.writeDr (addr &&& 0xFE).toUInt8)
    if (← i2cWaitOnMasterAddressFlagUntilTimeout halI2cFlagAddr fuel) ≠ 0 then pure (-1)
    else
      clearAddrFlag
      awaitTxe fuel do
        if isMem16Bit then
          emit (.writeDr (memAddress >>> 8).toUInt8)
          awaitTxe fuel do
            emit (.writeDr memAddress.toUInt8)
            requestAgain addr fuel
        else
          emit (.writeDr memAddress.toUInt8)
          requestAgain addr fuel

/-! ## Reception -/

/-- The local variables of a read, the pointer as its distance from `pData`. -/
structure Locals where
  pBuffPtr : Nat
  xferCount : Nat
  xferSize : Nat
deriving DecidableEq, Repr

/-- `XferSize--` of a `uint32_t`. -/
def decrement (n : Nat) : Nat := (n + (2 ^ 32 - 1)) % 2 ^ 32

/-- One byte from `DR` into the buffer. -/
def takeByte (l : Locals) : I2c Locals := do
  let v ← readReg .dr
  emit (.store l.pBuffPtr v.toUInt8)
  emit (.countDown l.xferSize)
  pure ⟨l.pBuffPtr + 1, decrement l.xferCount, decrement l.xferSize⟩

/-- A turn of the loop with more than three bytes to come. -/
def receiveMany (fuel : Nat) (l : Locals) : I2c (Int ⊕ Locals) := do
  if (← i2cWaitOnRxneFlagUntilTimeout fuel) ≠ 0 then pure (.inl i2cErrGeneral)
  else
    let l ← takeByte l
    if ← getFlag halI2cFlagBtf then
      if l.xferSize = 3 then emit (.clearBit .ack)
      let l ← takeByte l
      pure (.inr l)
    else pure (.inr l)

def receiveLast (fuel : Nat) (l : Locals) : I2c (Int ⊕ Locals) := do
  if (← i2cWaitOnRxneFlagUntilTimeout fuel) ≠ 0 then pure (.inl i2cErrGeneral)
  else
    let l ← takeByte l
    pure (.inr l)

def receiveLastTwo (fuel : Nat) (l : Locals) : I2c (Int ⊕ Locals) := do
  if (← i2cWaitOnFlagUntilTimeout halI2cFlagBtf false fuel) ≠ 0 then pure (.inl i2cErrGeneral)
  else
    emit (.setBit .stop)
    let l ← takeByte l
    let l ← takeByte l
    pure (.inr l)

def receiveLastThree (fuel : Nat) (l : Locals) : I2c (Int ⊕ Locals) := do
  if (← i2cWaitOnFlagUntilTimeout halI2cFlagBtf false fuel) ≠ 0 then pure (.inl i2cErrGeneral)
  else
    emit (.clearBit .ack)
    let l ← takeByte l
    receiveLastTwo fuel l

/-- The loop that both reads have in common. -/
def receive (fuel : Nat) (l : Locals) : I2c Int :=
  iterate (fun l =>
    if 0 < l.xferSize then
      if l.xferSize ≤ 3 then
        if l.xferSize = 1 then receiveLast fuel l
        else if l.xferSize = 2 then receiveLastTwo fuel l
        else receiveLastThree fuel l
      else receiveMany fuel l
    else pure (.inl 0)) fuel l

/-- What is set up before the address is released, by the size. -/
def prepare (xferSize : Nat) (many : I2c Unit) : I2c Unit := do
  if xferSize = 0 then
    clearAddrFlag
    emit (.setBit .stop)
  else if xferSize = 1 then
    emit (.clearBit .ack)
    clearAddrFlag
    emit (.setBit .stop)
  else if xferSize = 2 then
    emit (.clearBit .ack)
    emit (.setBit .pos)
    clearAddrFlag
  else
    many
    clearAddrFlag

/-- A read after its request. -/
def i2cRead (request : I2c Int) (many : I2c Unit) (size : UInt16) (fuel : Nat) : I2c Int := do
  if (← checkBusy fuel) ≠ 0 then pure i2cErrBusy
  else
    emit (.clearBit .pos)
    setErrorCode 0
    if (← request) ≠ 0 then pure i2cErrGeneral
    else
      prepare size.toNat many
      receive fuel ⟨0, size.toNat, size.toNat⟩

def i2cRx (devAddress size : UInt16) (fuel : Nat) : I2c Int :=
  i2cRead (i2cMasterRequestRead devAddress fuel) (emit (.setBit .ack)) size fuel

def i2cMemRead (addr memAddress : UInt16) (isMem16Bit : Bool) (size : UInt16) (fuel : Nat) :
    I2c Int :=
  i2cRead (i2cRequestMemoryRead addr memAddress isMem16Bit fuel) (pure ()) size fuel

/-! ## What has happened -/

/-- Whether the last change of `ACK` has enabled it. -/
def ackEnabled : List Event → Bool
  | [] => true
  | .setBit .ack :: _ => true
  | .clearBit .ack :: _ => false
  | .restart :: _ => true
  | _ :: log => ackEnabled log

/-- The bytes taken from `DR`, each with `ACK` at that time. -/
def dataReads : List Event → List (UInt8 × Bool)
  | [] => []
  | .read .dr v :: log => dataReads log ++ [(v.toUInt8, ackEnabled log)]
  | _ :: log => dataReads log

/-- The bytes stored, each with its offset. -/
def stores : List Event → List (UInt8 × Nat)
  | [] => []
  | .store offset b :: log => stores log ++ [(b, offset)]
  | _ :: log => stores log

/-- The number of stop conditions requested. -/
def stops : List Event → Nat
  | [] => 0
  | .setBit .stop :: log => stops log + 1
  | _ :: log => stops log

/-- The values that were counted down. -/
def counts : List Event → List Nat
  | [] => []
  | .countDown n :: log => counts log ++ [n]
  | _ :: log => counts log

/-- The bus before a call. -/
def Bus.start (values : Nat → UInt16) (errorCode i2cErrRestarts time : UInt32) : Bus :=
  ⟨values, 0, [], errorCode, i2cErrRestarts, time⟩

/-- A read has stored `size` bytes, in order. -/
structure Delivered (size : Nat) (log : List Event) : Prop where
  length : (dataReads log).length = size
  stored : stores log = ((dataReads log).map Prod.fst).zipIdx
  stop : stops log = 1
  nack : ∀ last, (dataReads log).getLast? = some last → last.2 = false

/-- What never goes wrong, whether a read has ended or not. -/
structure Bounded (size : Nat) (log : List Event) : Prop where
  length : (stores log).length ≤ size
  counted : ∀ n ∈ counts log, n ≠ 0

/-! ## Calls that take no byte -/

/-- The events of a successful wait. -/
def Quiet : Event → Prop
  | .read r _ => r ≠ .dr
  | .clearFlag _ => True
  | _ => False

/-- The events before reception starts. -/
def Setup : Event → Prop
  | .read r _ => r ≠ .dr
  | .setBit b => b ≠ .stop
  | .store _ _ => False
  | .countDown _ => False
  | _ => True

/-- The events that leave the buffer alone. -/
def Idle : Event → Prop
  | .read r _ => r ≠ .dr
  | .store _ _ => False
  | .countDown _ => False
  | _ => True

theorem Quiet.setup {e : Event} (h : Quiet e) : Setup e := by
  cases e with
  | read r v => exact h
  | clearFlag flag => trivial
  | _ => exact h.elim

theorem Setup.idle {e : Event} (h : Setup e) : Idle e := by
  cases e with
  | setBit b => trivial
  | _ => exact h

/-- Only events of one kind have come since `b₀`. -/
def Appends (P : Event → Prop) (b₀ b : Bus) : Prop :=
  ∃ new, b.log = new ++ b₀.log ∧ ∀ e ∈ new, P e

section

variable {P P' : Event → Prop} {b₀ b b' : Bus}

theorem Appends.refl (b : Bus) : Appends P b b := ⟨[], rfl, by simp⟩

theorem Appends.mono (h : Appends P b₀ b) (hP : ∀ e, P e → P' e) : Appends P' b₀ b := by
  obtain ⟨new, hlog, hnew⟩ := h
  exact ⟨new, hlog, fun e he => hP e (hnew e he)⟩

theorem Appends.trans {b₁ : Bus} (h : Appends P b₀ b₁) (h' : Appends P b₁ b) :
    Appends P b₀ b := by
  obtain ⟨new, hlog, hnew⟩ := h
  obtain ⟨new', hlog', hnew'⟩ := h'
  refine ⟨new' ++ new, by rw [hlog', hlog, List.append_assoc], ?_⟩
  exact List.forall_mem_append.mpr ⟨hnew', hnew⟩

theorem Appends.same (h : Appends P b₀ b) (hlog : b'.log = b.log) : Appends P b₀ b' := by
  obtain ⟨new, heq, hnew⟩ := h
  exact ⟨new, hlog.trans heq, hnew⟩

theorem Appends.emit (h : Appends P b₀ b) {e : Event} (he : P e) :
    Appends P b₀ (b.emit e) := by
  obtain ⟨new, hlog, hnew⟩ := h
  refine ⟨e :: new, congrArg (e :: ·) hlog, ?_⟩
  simpa using ⟨he, hnew⟩

theorem Appends.read (h : Appends P b₀ b) {r : Reg} (hr : ∀ v, P (.read r v)) :
    Appends P b₀ (b.read r) := (h.emit (hr _)).same rfl

theorem Appends.bytes (h : Appends Idle b₀ b) : dataReads b.log = dataReads b₀.log ∧
    stores b.log = stores b₀.log ∧ counts b.log = counts b₀.log := by
  obtain ⟨new, hlog, hnew⟩ := h
  rw [hlog]
  clear hlog
  induction new with
  | nil => exact ⟨rfl, rfl, rfl⟩
  | cons e new ih =>
      obtain ⟨he, hnew⟩ := List.forall_mem_cons.mp hnew
      obtain ⟨hreads, hstores, hcounts⟩ := ih hnew
      rw [← hreads, ← hstores, ← hcounts]
      cases e with
      | read r v =>
          cases r with
          | dr => exact absurd rfl he
          | _ => exact ⟨rfl, rfl, rfl⟩
      | store offset b => exact he.elim
      | countDown n => exact he.elim
      | _ => exact ⟨rfl, rfl, rfl⟩

theorem Appends.stops (h : Appends Setup b₀ b) : stops b.log = stops b₀.log := by
  obtain ⟨new, hlog, hnew⟩ := h
  rw [hlog]
  clear hlog
  induction new with
  | nil => rfl
  | cons e new ih =>
      obtain ⟨he, hnew⟩ := List.forall_mem_cons.mp hnew
      rw [← ih hnew]
      cases e with
      | setBit b =>
          cases b with
          | stop => exact absurd rfl he
          | _ => rfl
      | _ => rfl

theorem Appends.ackEnabled (h : Appends Quiet b₀ b) :
    ackEnabled b.log = ackEnabled b₀.log := by
  obtain ⟨new, hlog, hnew⟩ := h
  rw [hlog]
  clear hlog
  induction new with
  | nil => rfl
  | cons e new ih =>
      obtain ⟨he, hnew⟩ := List.forall_mem_cons.mp hnew
      rw [← ih hnew]
      cases e with
      | read r v => rfl
      | clearFlag flag => rfl
      | _ => exact he.elim

end

section

variable {P : Event → Prop} {b₀ b : Bus} {E : Bus → Prop}

@[simp] theorem wp_emit {e : Event} {Q : Unit → Bus → Prop} :
    Wp (emit e) Q E b ↔ Q () (b.emit e) := Iff.rfl

@[simp] theorem wp_readReg {r : Reg} {Q : UInt16 → Bus → Prop} :
    Wp (readReg r) Q E b ↔ Q (b.values b.now) (b.read r) := Iff.rfl

@[simp] theorem wp_setErrorCode {e : UInt32} {Q : Unit → Bus → Prop} :
    Wp (setErrorCode e) Q E b ↔ Q () { b with errorCode := e } := Iff.rfl

@[simp] theorem wp_setTime {t : UInt32} {Q : Unit → Bus → Prop} :
    Wp (setTime t) Q E b ↔ Q () { b with time := t } := Iff.rfl

@[simp] theorem wp_timeIsUp {Q : Bool → Bus → Prop} :
    Wp timeIsUp Q E b ↔ Q (decide (b.time - 1 = 0)) { b with time := b.time - 1 } := Iff.rfl

theorem wp_getFlag {flag : UInt32} {Q : Bool → Bus → Prop} (hP : ∀ r v, r ≠ .dr → P (.read r v))
    (h : Appends P b₀ b) (hQ : ∀ set b, Appends P b₀ b → Q set b) :
    Wp (getFlag flag) Q E b := by
  rw [getFlag, wp_bind, wp_readReg]
  refine hQ _ _ (h.read fun v => hP _ v ?_)
  split_ifs <;> simp

/-- Only idle events come, and of `P` when the result is `ok`. -/
def Emits {α : Type} (P : Event → Prop) (ok : α → Prop) (x : I2c α) : Prop :=
  ∀ b₀ b, Appends P b₀ b →
    Wp x (fun a b => Appends Idle b₀ b ∧ (ok a → Appends P b₀ b)) (Appends Idle b₀) b

theorem Appends.idle (h : Appends Setup b₀ b) : Appends Idle b₀ b := h.mono fun _ he => he.idle

theorem Appends.setup (h : Appends Quiet b₀ b) : Appends Setup b₀ b :=
  h.mono fun _ he => he.setup

/-! ### Waits -/

theorem i2cIsAcknowledgeFailed_emits : Emits Quiet (· = false) i2cIsAcknowledgeFailed := by
  intro b₀ b h
  rw [i2cIsAcknowledgeFailed, wp_bind]
  refine wp_getFlag (fun _ _ => id) h fun set b h => .ite (fun _ => ?_) fun _ => ?_
  · have hcleared := h.emit (show Quiet (.clearFlag halI2cFlagAf) from trivial)
    exact ⟨hcleared.setup.idle.same rfl, fun hfalse => absurd hfalse (by decide)⟩
  · exact ⟨h.setup.idle, fun _ => h⟩

theorem wait_emits {flag : UInt32} {status : Bool} {failed : I2c Bool} (fuel : Nat)
    (hfailed : Emits Quiet (· = false) failed) :
    Emits Quiet (· = 0) (wait flag status failed fuel) := by
  intro b₀ b h
  rw [wait, wp_bind, wp_setTime]
  refine .iterate (fun _ => Appends Quiet b₀) (fun _ b h => ?_) (fun _ _ h => h.setup.idle) fuel
    (h.same rfl)
  have hminus : ∀ b, Appends Idle b₀ b →
      Appends Idle b₀ b ∧ ((-1 : Int) = 0 → Appends Quiet b₀ b) :=
    fun b h => ⟨h, fun hzero => absurd hzero (by decide)⟩
  rw [wp_bind]
  refine wp_getFlag (fun _ _ => id) h fun set b h => .ite (fun _ => ?_) fun _ => ?_
  · rw [wp_bind]
    refine (hfailed b₀ b h).mono ?_ fun _ => id
    rintro (_ | _) b ⟨hidle, hquiet⟩
    · have h := hquiet rfl
      rw [if_neg Bool.false_ne_true, wp_bind, wp_timeIsUp]
      refine .ite (fun _ => ?_) fun _ => h.same rfl
      rw [wp_bind]
      refine wp_getFlag (fun _ _ => id) (h.same rfl) fun set b h => .ite (fun _ => ?_) fun _ => h
      exact hminus _ (h.setup.idle.same rfl)
    · exact hminus _ hidle
  · exact ⟨h.setup.idle, fun _ => h⟩

theorem i2cWaitOnFlagUntilTimeout_emits (flag : UInt32) (status : Bool) (fuel : Nat) :
    Emits Quiet (· = 0) (i2cWaitOnFlagUntilTimeout flag status fuel) :=
  wait_emits fuel fun _ _ h => ⟨h.setup.idle, fun _ => h⟩

theorem i2cWaitOnTxeFlagUntilTimeout_emits (fuel : Nat) :
    Emits Quiet (· = 0) (i2cWaitOnTxeFlagUntilTimeout fuel) :=
  wait_emits fuel i2cIsAcknowledgeFailed_emits

theorem i2cWaitOnMasterAddressFlagUntilTimeout_emits (flag : UInt32) (fuel : Nat) :
    Emits Quiet (· = 0) (i2cWaitOnMasterAddressFlagUntilTimeout flag fuel) := by
  refine wait_emits fuel fun b₀ b h => ?_
  rw [wp_bind]
  refine wp_getFlag (fun _ _ => id) h fun set b h => .ite (fun _ => ?_) fun _ => ?_
  · have hstop := h.setup.idle.emit (show Idle (.setBit .stop) from trivial)
    have hcleared := hstop.emit (show Idle (.clearFlag halI2cFlagAf) from trivial)
    exact ⟨hcleared.same rfl, fun hfalse => absurd hfalse (by decide)⟩
  · exact ⟨h.setup.idle, fun _ => h⟩

theorem i2cWaitOnRxneFlagUntilTimeout_emits (fuel : Nat) :
    Emits Quiet (· = 0) (i2cWaitOnRxneFlagUntilTimeout fuel) := by
  refine wait_emits fuel fun b₀ b h => ?_
  rw [wp_bind]
  refine wp_getFlag (fun _ _ => id) h fun set b h => .ite (fun _ => ?_) fun _ => ?_
  · have hcleared := h.emit (show Quiet (.clearFlag halI2cFlagStopf) from trivial)
    exact ⟨hcleared.setup.idle, fun hfalse => absurd hfalse (by decide)⟩
  · exact ⟨h.setup.idle, fun _ => h⟩

/-! ### Checks -/

theorem Emits.setup {α : Type} {ok : α → Prop} {x : I2c α} (h : Emits Quiet ok x) :
    Emits Setup ok x := by
  intro b₀ b hb
  refine (h b b (.refl b)).mono ?_ fun b' hidle => hb.idle.trans hidle
  rintro a b' ⟨hidle, hquiet⟩
  exact ⟨hb.idle.trans hidle, fun hok => hb.trans (hquiet hok).setup⟩

/-- The code after a failure. -/
def Fails (x : I2c Int) : Prop :=
  ∀ b₀ b, Appends Idle b₀ b →
    Wp x (fun r b => Appends Idle b₀ b ∧ r ≠ 0) (Appends Idle b₀) b

theorem Fails.pure {code : Int} (hcode : code ≠ 0) : Fails (pure code) :=
  fun _ _ h => ⟨h, hcode⟩

theorem Emits.pure {α : Type} {ok : α → Prop} (a : α) : Emits Setup ok (pure a) :=
  fun _ _ h => ⟨h.idle, fun _ => h⟩

theorem Emits.emit {e : Event} {α : Type} {ok : α → Prop} {x : I2c α} (he : Setup e)
    (hx : Emits Setup ok x) : Emits Setup ok (do I2cReceive.emit e; x) :=
  fun b₀ _ h => hx b₀ _ (h.emit he)

theorem Emits.check {x y z : I2c Int} (hx : Emits Setup (· = 0) x) (hy : Fails y)
    (hz : Emits Setup (· = 0) z) :
    Emits Setup (· = 0) (do if (← x) ≠ 0 then y else z) := by
  intro b₀ b h
  rw [wp_bind]
  refine (hx b₀ b h).mono ?_ fun _ => id
  rintro r b ⟨hidle, hsetup⟩
  refine .ite (fun hr => ?_) fun hr => ?_
  · refine (hy b₀ b hidle).mono ?_ fun _ => id
    rintro r b ⟨hidle, hne⟩
    exact ⟨hidle, fun hzero => absurd hzero hne⟩
  · exact hz b₀ b (hsetup (not_not.mp hr))

theorem awaitStart_emits {code : Int} {next : I2c Int} (fuel : Nat) (hcode : code ≠ 0)
    (hnext : Emits Setup (· = 0) next) : Emits Setup (· = 0) (awaitStart code fuel next) := by
  refine .check (i2cWaitOnFlagUntilTimeout_emits _ _ fuel).setup (fun b₀ b h => ?_) hnext
  rw [wp_bind, wp_readReg]
  have hread := h.read (show ∀ v, Idle (.read .cr1 v) from fun _ => Reg.noConfusion)
  exact .ite (fun _ => ⟨hread.same rfl, hcode⟩) fun _ => ⟨hread, hcode⟩

theorem awaitTxe_emits {next : I2c Int} (fuel : Nat) (hnext : Emits Setup (· = 0) next) :
    Emits Setup (· = 0) (awaitTxe fuel next) := by
  refine .check (i2cWaitOnTxeFlagUntilTimeout_emits fuel).setup (fun b₀ b h => ?_) hnext
  have hstop := h.emit (show Idle (.setBit .stop) from trivial)
  rw [wp_bind, wp_getState]
  exact .ite (fun _ => ⟨hstop, by decide⟩) fun _ => ⟨h, by decide⟩

theorem awaitAddress_emits {next : I2c Int} (fuel : Nat) (hnext : Emits Setup (· = 0) next) :
    Emits Setup (· = 0) (do
      if (← i2cWaitOnMasterAddressFlagUntilTimeout halI2cFlagAddr fuel) ≠ 0 then pure (-1)
      else next) :=
  .check (i2cWaitOnMasterAddressFlagUntilTimeout_emits _ fuel).setup (.pure (by decide)) hnext

theorem clearAddrFlag_appends (h : Appends P b₀ b) (hP : ∀ r v, r ≠ .dr → P (.read r v))
    {Q : Unit → Bus → Prop} (hQ : ∀ b, Appends P b₀ b → Q () b) : Wp clearAddrFlag Q E b :=
  hQ _ ((h.read fun v => hP .sr1 v (by decide)).read fun v => hP .sr2 v (by decide))

theorem i2cMasterRequestRead_emits (devAddress : UInt16) (fuel : Nat) :
    Emits Setup (· = 0) (i2cMasterRequestRead devAddress fuel) := by
  refine .emit Cr1Bit.noConfusion (.emit Cr1Bit.noConfusion ?_)
  refine awaitStart_emits fuel (by decide) (.emit trivial ?_)
  exact awaitAddress_emits fuel (.pure 0)

theorem requestAgain_emits (addr : UInt16) (fuel : Nat) :
    Emits Setup (· = 0) (requestAgain addr fuel) := by
  refine awaitTxe_emits fuel (.emit Cr1Bit.noConfusion ?_)
  refine awaitStart_emits fuel (by decide) (.emit trivial ?_)
  exact awaitAddress_emits fuel (.pure 0)

theorem i2cRequestMemoryRead_emits (addr memAddress : UInt16) (isMem16Bit : Bool) (fuel : Nat) :
    Emits Setup (· = 0) (i2cRequestMemoryRead addr memAddress isMem16Bit fuel) := by
  refine .emit Cr1Bit.noConfusion (.emit Cr1Bit.noConfusion ?_)
  refine awaitStart_emits fuel (by decide) (.emit trivial (awaitAddress_emits fuel ?_))
  intro b₀ b h
  rw [wp_bind]
  refine clearAddrFlag_appends h (fun _ _ => id) fun b h => ?_
  refine awaitTxe_emits fuel ?_ b₀ b h
  cases isMem16Bit with
  | true => exact .emit trivial (awaitTxe_emits fuel (.emit trivial (requestAgain_emits addr fuel)))
  | false => exact .emit trivial (requestAgain_emits addr fuel)

theorem checkBusyOnce_emits : Emits Setup (fun _ => True) checkBusyOnce := by
  have hread : ∀ r v, r ≠ .dr → Setup (.read r v) := fun _ _ => id
  intro b₀ b h
  rw [checkBusyOnce, wp_bind]
  refine wp_getFlag hread h fun set b h => .ite (fun _ => ?_) fun _ => ⟨h.idle, fun _ => h⟩
  have hsr1 := h.read fun v => hread .sr1 v (by decide)
  have hagain : ∀ b, Appends Setup b₀ b →
      Wp (do if ← getFlag halI2cFlagBusy then pure i2cErrBusy else pure 0)
        (fun _ b => Appends Idle b₀ b ∧ (True → Appends Setup b₀ b)) (Appends Idle b₀) b := by
    intro b h
    rw [wp_bind]
    refine wp_getFlag hread h fun set b h => ?_
    exact .ite (fun _ => ⟨h.idle, fun _ => h⟩) fun _ => ⟨h.idle, fun _ => h⟩
  rw [wp_bind, wp_readReg]
  refine .ite (fun _ => ?_) fun _ => hagain _ hsr1
  rw [wp_bind, wp_update, wp_bind, wp_emit]
  exact hagain _ ((hsr1.same rfl).emit (show Setup .restart from trivial))

theorem checkBusy_emits (fuel : Nat) : Emits Setup (· = 0) (checkBusy fuel) := by
  intro b₀ b h
  rw [checkBusy, wp_bind, wp_setTime]
  refine .iterate (fun _ => Appends Setup b₀) (fun _ b h => ?_) (fun _ _ h => h.idle) fuel
    (h.same rfl)
  rw [wp_bind]
  refine (checkBusyOnce_emits b₀ b h).mono ?_ fun _ => id
  rintro r b ⟨-, hsetup⟩
  have h := hsetup trivial
  refine .ite (fun _ => ?_) fun _ => ⟨h.idle, fun _ => h⟩
  rw [wp_bind, wp_timeIsUp]
  refine .ite (fun _ => ?_) fun _ => h.same rfl
  exact ⟨h.idle.same rfl, fun hzero => absurd hzero (by decide)⟩

end

/-! ## Taking bytes -/

/-- What has been taken fits together with what the local variables say. -/
structure Core (size : Nat) (l : Locals) (log : List Event) : Prop where
  stored : stores log = ((dataReads log).map Prod.fst).zipIdx
  counted : ∀ n ∈ counts log, n ≠ 0
  taken : (dataReads log).length = l.pBuffPtr
  total : l.pBuffPtr + l.xferSize = size
  count : l.xferCount = l.xferSize
  fits : size < 2 ^ 32

def Locals.next (l : Locals) : Locals :=
  ⟨l.pBuffPtr + 1, decrement l.xferCount, decrement l.xferSize⟩

def Bus.take (l : Locals) (b : Bus) : Bus :=
  ((b.read .dr).emit (.store l.pBuffPtr (b.values b.now).toUInt8)).emit (.countDown l.xferSize)

section

variable {size fuel : Nat} {l : Locals} {b b' : Bus} {E : Bus → Prop}

@[simp] theorem wp_takeByte {Q : Locals → Bus → Prop} :
    Wp (takeByte l) Q E b ↔ Q l.next (b.take l) := Iff.rfl

theorem take_dataReads : dataReads (b.take l).log =
    dataReads b.log ++ [((b.values b.now).toUInt8, ackEnabled b.log)] := rfl

theorem take_stores : stores (b.take l).log =
    stores b.log ++ [((b.values b.now).toUInt8, l.pBuffPtr)] := rfl

theorem take_counts : counts (b.take l).log = counts b.log ++ [l.xferSize] := rfl

theorem take_stops : stops (b.take l).log = stops b.log := rfl

theorem take_ackEnabled : ackEnabled (b.take l).log = ackEnabled b.log := rfl

theorem take_last {last : UInt8 × Bool}
    (h : (dataReads (b.take l).log).getLast? = some last) : last.2 = ackEnabled b.log := by
  rw [take_dataReads, List.getLast?_concat] at h
  obtain rfl := Option.some.inj h
  rfl

theorem Core.idle (h : Core size l b.log) (hidle : Appends Idle b b') : Core size l b'.log := by
  obtain ⟨hreads, hstores, hcounts⟩ := hidle.bytes
  constructor
  · rw [hstores, hreads]
    exact h.stored
  · rw [hcounts]
    exact h.counted
  · rw [hreads]
    exact h.taken
  · exact h.total
  · exact h.count
  · exact h.fits

theorem Core.bounded (h : Core size l b.log) : Bounded size b.log := by
  refine ⟨?_, h.counted⟩
  rw [h.stored, List.length_zipIdx, List.length_map, h.taken]
  have htotal := h.total
  omega

theorem Core.next_xferSize (h : Core size l b.log) (hpos : 0 < l.xferSize) :
    l.next.xferSize + 1 = l.xferSize := by
  have htotal := h.total
  have hfits := h.fits
  change (l.xferSize + (2 ^ 32 - 1)) % 2 ^ 32 + 1 = l.xferSize
  omega

theorem Core.take (h : Core size l b.log) (hpos : 0 < l.xferSize) :
    Core size l.next (b.take l).log := by
  have hnext := h.next_xferSize hpos
  have htotal := h.total
  constructor
  · rw [take_stores, take_dataReads, h.stored, List.map_append, List.zipIdx_append,
      List.length_map, h.taken, Nat.zero_add]
    rfl
  · rw [take_counts]
    refine List.forall_mem_append.mpr ⟨h.counted, ?_⟩
    simpa using hpos.ne'
  · rw [take_dataReads, List.length_append, h.taken]
    rfl
  · change l.pBuffPtr + 1 + l.next.xferSize = size
    omega
  · exact congrArg decrement h.count
  · exact h.fits

/-- The state of a read between two turns of its loop. A single byte is left over only of a read
of one byte, for the turns before the last take two or three. -/
structure Receiving (size : Nat) (l : Locals) (log : List Event) : Prop
    extends Core size l log where
  stop : stops log = if size ≤ 1 ∨ l.xferSize = 0 then 1 else 0
  single : l.xferSize = 1 → size = 1
  nack : l.xferSize = 1 ∨ l.xferSize = 2 → ackEnabled log = false
  last : l.xferSize = 0 → ∀ last, (dataReads log).getLast? = some last → last.2 = false

/-- What a turn ends with. -/
def Turn (size : Nat) (r : Int ⊕ Locals) (b : Bus) : Prop :=
  r.elim (fun r => Bounded size b.log ∧ (r = 0 → Delivered size b.log))
    (Receiving size · b.log)

theorem wp_await {x : I2c Int} {z : I2c (Int ⊕ Locals)} (hx : Emits Quiet (· = 0) x)
    (hcore : Core size l b.log)
    (hz : ∀ b', Core size l b'.log → stops b'.log = stops b.log →
      ackEnabled b'.log = ackEnabled b.log → Wp z (Turn size) (Bounded size ·.log) b') :
    Wp (do if (← x) ≠ 0 then pure (.inl i2cErrGeneral) else z) (Turn size)
      (Bounded size ·.log) b := by
  rw [wp_bind]
  refine (hx b b (.refl b)).mono ?_ fun b' hidle => (hcore.idle hidle).bounded
  rintro r b' ⟨hidle, hquiet⟩
  refine .ite (fun _ => ?_) fun hr => ?_
  · exact ⟨(hcore.idle hidle).bounded, fun hzero => absurd hzero (by decide)⟩
  · have h := hquiet (not_not.mp hr)
    exact hz b' (hcore.idle hidle) h.setup.stops h.ackEnabled

theorem receiveLast_turn (h : Receiving size l b.log) (hl : l.xferSize = 1) :
    Wp (receiveLast fuel l) (Turn size) (Bounded size ·.log) b := by
  have hsize := h.single hl
  refine wp_await (i2cWaitOnRxneFlagUntilTimeout_emits fuel) h.toCore fun b' hcore hstops hack => ?_
  have hnext := hcore.next_xferSize (by omega)
  rw [wp_bind, wp_takeByte]
  refine ⟨hcore.take (by omega), ?_, by omega, by omega, fun _ last hlast => ?_⟩
  · rw [take_stops, hstops, h.stop, if_pos (.inl hsize.le), if_pos (.inl hsize.le)]
  · rw [take_last hlast, hack, h.nack (.inl hl)]

theorem receiveLastTwo_turn (h : Core size l b.log) (hl : l.xferSize = 2)
    (hstop : stops b.log = 0) (hnack : ackEnabled b.log = false) :
    Wp (receiveLastTwo fuel l) (Turn size) (Bounded size ·.log) b := by
  refine wp_await (i2cWaitOnFlagUntilTimeout_emits _ _ fuel) h fun b' hcore hstops hack => ?_
  rw [wp_bind, wp_emit, wp_bind, wp_takeByte, wp_bind, wp_takeByte]
  have hcore₀ := hcore.idle ((Appends.refl b').emit (show Idle (.setBit .stop) from trivial))
  have hnext₁ := hcore₀.next_xferSize (by omega)
  have hcore₁ := hcore₀.take (by omega)
  have hnext₂ := hcore₁.next_xferSize (by omega)
  refine ⟨hcore₁.take (by omega), ?_, by omega, by omega, fun _ last hlast => ?_⟩
  · rw [take_stops, take_stops, if_pos (.inr (by omega))]
    exact congrArg (· + 1) (hstops.trans hstop)
  · rw [take_last hlast, take_ackEnabled]
    exact hack.trans hnack

theorem Receiving.stops_eq (h : Receiving size l b.log) (hl : 2 ≤ l.xferSize) :
    stops b.log = 0 := by
  have htotal := h.total
  rw [h.stop, if_neg (by omega)]

theorem receiveLastThree_turn (h : Receiving size l b.log) (hl : l.xferSize = 3) :
    Wp (receiveLastThree fuel l) (Turn size) (Bounded size ·.log) b := by
  refine wp_await (i2cWaitOnFlagUntilTimeout_emits _ _ fuel) h.toCore
    fun b' hcore hstops hack => ?_
  rw [wp_bind, wp_emit, wp_bind, wp_takeByte]
  have hcore₀ := hcore.idle ((Appends.refl b').emit (show Idle (.clearBit .ack) from trivial))
  have hnext := hcore₀.next_xferSize (by omega)
  refine receiveLastTwo_turn (hcore₀.take (by omega)) (by omega) ?_ rfl
  rw [take_stops]
  exact hstops.trans (h.stops_eq (by omega))

theorem receiveMany_turn (h : Receiving size l b.log) (hl : 3 < l.xferSize) :
    Wp (receiveMany fuel l) (Turn size) (Bounded size ·.log) b := by
  have htotal := h.total
  refine wp_await (i2cWaitOnRxneFlagUntilTimeout_emits fuel) h.toCore fun b' hcore hstops hack => ?_
  have hzero : stops b'.log = 0 := hstops.trans (h.stops_eq (by omega))
  have hnext₁ := hcore.next_xferSize (by omega)
  have hcore₁ := hcore.take (by omega)
  rw [wp_bind, wp_takeByte, wp_bind]
  have hrefl : Appends Quiet (b'.take l) (b'.take l) := .refl _
  refine wp_getFlag (fun _ _ => id) hrefl fun set b₁ hquiet => ?_
  have hcore₂ := hcore₁.idle hquiet.setup.idle
  have hstops₂ : stops b₁.log = 0 := hquiet.setup.stops.trans hzero
  have hlast : ∀ b₂ : Bus, Core size l.next b₂.log → stops b₂.log = 0 →
      (l.next.xferSize = 3 → ackEnabled b₂.log = false) →
      Receiving size l.next.next (b₂.take l.next).log := by
    intro b₂ hcore hstops hack
    have hnext₂ := hcore.next_xferSize (by omega)
    refine ⟨hcore.take (by omega), ?_, by omega, fun htwo => ?_, by omega⟩
    · rw [take_stops, hstops, if_neg (by omega)]
    · rw [take_ackEnabled]
      exact hack (by omega)
  refine .ite (fun _ => ?_) fun _ => ?_
  · generalize l.next = l' at *
    refine .ite (fun hthree => ?_) fun hthree => ?_
    · rw [wp_bind, wp_emit, wp_bind, wp_takeByte]
      refine hlast _ (hcore₂.idle ?_) hstops₂ fun _ => rfl
      exact (Appends.refl b₁).emit (show Idle (.clearBit .ack) from trivial)
    · rw [wp_bind, wp_takeByte]
      exact hlast _ hcore₂ hstops₂ fun h => absurd h hthree
  · refine ⟨hcore₂, ?_, by omega, by omega, by omega⟩
    rw [hstops₂, if_neg (by omega)]

/-- The loop delivers, or ends with an error. -/
theorem receive_delivers (h : Receiving size l b.log) :
    Wp (receive fuel l) (fun r b => Bounded size b.log ∧ (r = 0 → Delivered size b.log))
      (Bounded size ·.log) b := by
  refine .iterate (fun l b => Receiving size l b.log) (fun l b h => ?_)
    (fun _ _ h => h.toCore.bounded) fuel h
  refine .ite (fun hpos => .ite (fun hthree => .ite (fun hone => ?_) fun hone =>
    .ite (fun htwo => ?_) fun htwo => ?_) fun hmany => ?_) fun hzero => ?_
  · exact receiveLast_turn h hone
  · exact receiveLastTwo_turn h.toCore htwo (h.stops_eq htwo.ge) (h.nack (.inr htwo))
  · exact receiveLastThree_turn h (by omega)
  · exact receiveMany_turn h (by omega)
  · have htotal := h.total
    refine ⟨h.toCore.bounded, fun _ => ⟨?_, h.stored, ?_, h.last (by omega)⟩⟩
    · rw [h.taken]
      omega
    · rw [h.stop, if_pos (.inr (by omega))]

/-! ## Whole reads -/

theorem Core.receiving (hcore : Core size ⟨0, size, size⟩ b.log)
    (hstop : stops b.log = if size ≤ 1 then 1 else 0)
    (hnack : size = 1 ∨ size = 2 → ackEnabled b.log = false) :
    Receiving size ⟨0, size, size⟩ b.log := by
  have hnone : dataReads b.log = [] := List.length_eq_zero_iff.mp hcore.taken
  refine ⟨hcore, ?_, id, hnack, fun _ last hlast => ?_⟩
  · rw [hstop]
    exact if_congr ⟨.inl, fun h => h.elim id fun hzero => hzero.trans_le (Nat.zero_le 1)⟩ rfl rfl
  · rw [hnone] at hlast
    cases hlast

theorem prepare_receiving {many : I2c Unit} (hmany : Emits Setup (fun _ => True) many)
    (hcore : Core size ⟨0, size, size⟩ b.log) (hstops : stops b.log = 0) :
    Wp (prepare size many) (fun _ b => Receiving size ⟨0, size, size⟩ b.log)
      (Bounded size ·.log) b := by
  have hquiet : ∀ r v, r ≠ .dr → Quiet (.read r v) := fun _ _ => id
  have hidle : ∀ e : Event, Setup e → Appends Idle b (b.emit e) :=
    fun e he => ((Appends.refl b).emit he).idle
  refine .ite (fun hsize => ?_) fun hzero => .ite (fun hsize => ?_) fun hone =>
    .ite (fun hsize => ?_) fun htwo => ?_
  · rw [wp_bind]
    refine clearAddrFlag_appends (.refl b) hquiet fun b' h => ?_
    refine Core.receiving (hcore.idle (h.setup.idle.emit (show Idle (.setBit .stop) from trivial)))
      ?_ (by omega)
    rw [if_pos (by omega)]
    exact congrArg (· + 1) (h.setup.stops.trans hstops)
  · rw [wp_bind, wp_emit, wp_bind]
    refine clearAddrFlag_appends (.refl _) hquiet fun b' h => ?_
    have hack := hidle (.clearBit .ack) trivial
    refine Core.receiving (hcore.idle ((hack.trans h.setup.idle).emit
      (show Idle (.setBit .stop) from trivial))) ?_ fun _ => h.ackEnabled
    rw [if_pos (by omega)]
    exact congrArg (· + 1) (h.setup.stops.trans hstops)
  · rw [wp_bind, wp_emit, wp_bind, wp_emit]
    refine clearAddrFlag_appends (.refl _) hquiet fun b' h => ?_
    have hpos := (hidle (.clearBit .ack) trivial).emit (show Idle (.setBit .pos) from trivial)
    refine Core.receiving (hcore.idle (hpos.trans h.setup.idle)) ?_ fun _ => h.ackEnabled
    rw [if_neg (by omega)]
    exact h.setup.stops.trans hstops
  · rw [wp_bind]
    refine (hmany b b (.refl b)).mono ?_ fun b' h => (hcore.idle h).bounded
    rintro _ b' ⟨-, hsetup⟩
    refine clearAddrFlag_appends (hsetup trivial) (fun _ _ => id) fun b' h => ?_
    refine Core.receiving (hcore.idle h.idle) ?_ (by omega)
    rw [if_neg (by omega)]
    exact h.stops.trans hstops

end

/-- What a read of `size` bytes ends with. -/
structure Outcome (size : Nat) (r : Option Int × Bus) : Prop where
  delivered : r.1 = some 0 → Delivered size r.2.log
  bounded : Bounded size r.2.log

theorem i2cRead_outcome {request : I2c Int} {many : I2c Unit}
    (hrequest : Emits Setup (· = 0) request) (hmany : Emits Setup (fun _ => True) many)
    (size : UInt16) (fuel : Nat) (values : Nat → UInt16)
    (errorCode i2cErrRestarts time : UInt32) :
    Outcome size.toNat
      (i2cRead request many size fuel (.start values errorCode i2cErrRestarts time)) := by
  generalize hstart : Bus.start values errorCode i2cErrRestarts time = b₀
  have hcore : Core size.toNat ⟨0, size.toNat, size.toNat⟩ b₀.log := by
    have hsize := size.toNat_lt
    rw [← hstart]
    exact ⟨rfl, by simp [Bus.start, counts], rfl, Nat.zero_add _, rfl, by omega⟩
  have hstops : stops b₀.log = 0 := by
    rw [← hstart]
    rfl
  suffices h : Wp (i2cRead request many size fuel)
      (fun r b => Bounded size.toNat b.log ∧ (r = 0 → Delivered size.toNat b.log))
      (Bounded size.toNat ·.log) b₀ from
    ⟨fun hr => (h.result hr).2 rfl, h.reached (fun _ _ h => h.1) fun _ => id⟩
  rw [i2cRead, wp_bind]
  refine (checkBusy_emits fuel b₀ b₀ (.refl b₀)).mono ?_ fun b h => (hcore.idle h).bounded
  rintro r b ⟨hidle, hsetup⟩
  refine .ite (fun _ => ?_) fun hr => ?_
  · exact ⟨(hcore.idle hidle).bounded, fun hzero => absurd hzero (by decide)⟩
  have hpos := (hsetup (not_not.mp hr)).emit (show Setup (.clearBit .pos) from trivial)
  rw [wp_bind, wp_emit, wp_bind, wp_setErrorCode, wp_bind]
  generalize hb : ({ b.emit (.clearBit .pos) with errorCode := 0 } : Bus) = b' at *
  have hpos : Appends Setup b₀ b' := hpos.same (hb ▸ rfl)
  refine (hrequest b₀ b' hpos).mono ?_ fun b h => (hcore.idle h).bounded
  rintro r b ⟨hidle, hsetup⟩
  refine .ite (fun _ => ?_) fun hr => ?_
  · exact ⟨(hcore.idle hidle).bounded, fun hzero => absurd hzero (by decide)⟩
  have h := hsetup (not_not.mp hr)
  rw [wp_bind]
  refine (prepare_receiving hmany (hcore.idle h.idle) (h.stops.trans hstops)).mono ?_
    fun _ => id
  exact fun _ b hreceiving => receive_delivers hreceiving

theorem ackAgain_emits : Emits Setup (fun _ => True) (emit (.setBit .ack)) := by
  intro b₀ b h
  have hack := h.emit (show Setup (.setBit .ack) from Cr1Bit.noConfusion)
  exact ⟨hack.idle, fun _ => hack⟩

/-- Whatever the bus shows, the reads deliver what was asked for or fail. -/
theorem i2c_reads_deliver (values : Nat → UInt16) (errorCode i2cErrRestarts time : UInt32)
    (addr memAddress : UInt16) (isMem16Bit : Bool) (size : UInt16) (fuel : Nat) :
    Outcome size.toNat (i2cRx addr size fuel (.start values errorCode i2cErrRestarts time)) ∧
      Outcome size.toNat (i2cMemRead addr memAddress isMem16Bit size fuel
        (.start values errorCode i2cErrRestarts time)) := by
  constructor
  · exact i2cRead_outcome (i2cMasterRequestRead_emits addr fuel) ackAgain_emits
      size fuel values errorCode i2cErrRestarts time
  · exact i2cRead_outcome (i2cRequestMemoryRead_emits addr memAddress isMem16Bit fuel) (.pure ())
      size fuel values errorCode i2cErrRestarts time

-- On a bus that is always ready the reads succeed.
example : (i2cRx 0x70 7 4 (.start (fun n => if n = 0 then 0 else 0xC7) 0 0 0)).1 = some 0 := by
  decide

end ShGateway.I2cReceive
