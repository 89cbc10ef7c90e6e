import Mathlib

/-!
The CAN controller as `can_driver.c` drives it, and the transmit and receive
paths of `CO_driver_target.c` on top of it.
-/

namespace ShGateway.CanDriver

def canTxrq : UInt32 := 0x1
def canRtr : UInt32 := 0x2
def canIde : UInt32 := 0x4

/-! ## The controller -/

/-- The registers of a transmit mailbox. -/
structure TxMailbox where
  tir : UInt32 := 0
  tdtr : UInt32 := 0
  tdlr : UInt32 := 0
  tdhr : UInt32 := 0

structure Frame where
  ident : UInt32
  dlc : UInt8
  data : Vector UInt8 8
deriving DecidableEq, Repr

/-- What the controller puts on the bus for the contents of a mailbox. -/
def TxMailbox.frame (r : TxMailbox) : Frame where
  ident := r.tir &&& ~~~canTxrq
  dlc := (r.tdtr &&& 0xF).toUInt8
  data := #v[r.tdlr.toUInt8, (r.tdlr >>> 8).toUInt8, (r.tdlr >>> 16).toUInt8,
    (r.tdlr >>> 24).toUInt8, r.tdhr.toUInt8, (r.tdhr >>> 8).toUInt8,
    (r.tdhr >>> 16).toUInt8, (r.tdhr >>> 24).toUInt8]

/-- The registers that show the oldest received message. -/
structure RxMailbox where
  rir : UInt32
  rdtr : UInt32
  data : Vector UInt8 8
deriving DecidableEq, Repr

/-- Three transmit mailboxes with their `TME` and `RQCP` flags, the receive FIFO
with its overrun flag, and the frames whose transmission was requested so far,
oldest first. A mailbox is empty once its request is completed. -/
structure Controller where
  txMailBox : Fin 3 → TxMailbox := fun _ => {}
  tme : Fin 3 → Bool := fun _ => true
  rqcp : Fin 3 → Bool := fun _ => false
  fifo : List RxMailbox := []
  fovr : Bool := false
  requested : List Frame := []
  tme_of_rqcp : ∀ k, rqcp k = true → tme k = true := by simp

/-- The mailbox `can_drv_tx` takes. -/
def Controller.emptyMailbox (d : Controller) : Option (Fin 3) :=
  if d.tme 0 then some 0 else if d.tme 1 then some 1 else if d.tme 2 then some 2 else none

def pack (d₃ d₂ d₁ d₀ : UInt8) : UInt32 :=
  d₃.toUInt32 <<< 24 ||| d₂.toUInt32 <<< 16 ||| d₁.toUInt32 <<< 8 ||| d₀.toUInt32

/-- What `can_drv_tx` leaves in the registers of its mailbox. -/
def TxMailbox.load (r : TxMailbox) (ident : UInt32) (dlc : UInt8) (d : Vector UInt8 8) :
    TxMailbox where
  tir := ident ||| canTxrq
  tdtr := r.tdtr &&& 0xFFFFFFF0 ||| dlc.toUInt32
  tdlr := pack d[3] d[2] d[1] d[0]
  tdhr := pack d[7] d[6] d[5] d[4]

/-- Setting `TXRQ` fills the mailbox and clears the flag of its last request. -/
def Controller.request (d : Controller) (k : Fin 3) (r : TxMailbox) : Controller :=
  { d with
    txMailBox := Function.update d.txMailBox k r
    tme := Function.update d.tme k false
    rqcp := Function.update d.rqcp k false
    requested := d.requested ++ [r.frame]
    tme_of_rqcp := by
      intro j hj
      rcases eq_or_ne j k with rfl | hne
      · simp at hj
      · simp only [Function.update_of_ne hne] at hj ⊢
        exact d.tme_of_rqcp j hj }

def canDrvTx (d : Controller) (ident : UInt32) (dlc : UInt8) (data : Vector UInt8 8) :
    Bool × Controller :=
  match d.emptyMailbox with
  | some k => (true, d.request k ((d.txMailBox k).load ident dlc data))
  | none => (false, d)

def canDrvIsTransmitting (d : Controller) : Bool :=
  !(d.tme 0 && d.tme 1 && d.tme 2)

/-- The flag `can_drv_is_message_sent` reports. -/
def canDrvIsMessageSent (d : Controller) : Option (Fin 3) :=
  if d.rqcp 0 then some 0 else if d.rqcp 1 then some 1 else if d.rqcp 2 then some 2 else none

/-- `TSR |= mask` writes back the flags it reads, and each of them is cleared by
writing a one. -/
def canDrvReleaseTxMessage (d : Controller) (_mask : Fin 3) : Controller :=
  { d with rqcp := fun _ => false, tme_of_rqcp := nofun }

/-- An aborted request is completed as well. -/
def canDrvTxAbort (d : Controller) : Controller :=
  { d with
    tme := fun _ => true
    rqcp := fun k => d.rqcp k || !d.tme k
    tme_of_rqcp := fun _ _ => rfl }

def canDrvReleaseRxMessage (d : Controller) : Controller :=
  { d with fifo := d.fifo.tail }

/-- A mailbox is done with its frame. -/
def Controller.complete (d : Controller) (k : Fin 3) : Controller :=
  { d with
    tme := Function.update d.tme k true
    rqcp := Function.update d.rqcp k true
    tme_of_rqcp := by
      intro j hj
      rcases eq_or_ne j k with rfl | hne
      · exact Function.update_self ..
      · simp only [Function.update_of_ne hne] at hj ⊢
        exact d.tme_of_rqcp j hj }

/-! ### Register contents -/

theorem toUInt8_pack (d₃ d₂ d₁ d₀ : UInt8) :
    (pack d₃ d₂ d₁ d₀).toUInt8 = d₀ ∧ (pack d₃ d₂ d₁ d₀ >>> 8).toUInt8 = d₁ ∧
      (pack d₃ d₂ d₁ d₀ >>> 16).toUInt8 = d₂ ∧ (pack d₃ d₂ d₁ d₀ >>> 24).toUInt8 = d₃ := by
  refine ⟨?_, ?_, ?_, ?_⟩ <;>
    refine UInt8.eq_of_toBitVec_eq (BitVec.eq_of_getLsbD_eq fun i hi => ?_) <;>
    interval_cases i <;> simp [pack]

theorem or_and_not {x y : UInt32} (h : x &&& y = 0) : (x ||| y) &&& ~~~y = x := by
  refine UInt32.eq_of_toBitVec_eq (BitVec.eq_of_getLsbD_eq fun i hi => ?_)
  have hbit := congrArg (fun z : UInt32 => z.toBitVec.getLsbD i) h
  simp only [UInt32.toBitVec_and, UInt32.toBitVec_or, UInt32.toBitVec_not, BitVec.getLsbD_and,
    BitVec.getLsbD_or, BitVec.getLsbD_not, UInt32.toBitVec_zero, BitVec.getLsbD_zero, hi,
    decide_true, Bool.true_and] at hbit ⊢
  grind

theorem toUInt8_or_and (x : UInt32) {dlc : UInt8} (h : dlc &&& 0xF = dlc) :
    ((x &&& 0xFFFFFFF0 ||| dlc.toUInt32) &&& 0xF).toUInt8 = dlc := by
  have hand : (x &&& 0xFFFFFFF0 ||| dlc.toUInt32) &&& 0xF =
      x &&& 0xFFFFFFF0 &&& 0xF ||| dlc.toUInt32 &&& 0xF :=
    UInt32.eq_of_toBitVec_eq BitVec.and_or_distrib_right
  have hmask : (0xFFFFFFF0 : UInt32) &&& 0xF = 0 := by decide
  rw [hand, UInt32.and_assoc, hmask, UInt32.and_zero, UInt32.zero_or, UInt32.toUInt8_and,
    UInt8.toUInt8_toUInt32]
  exact h

/-- The frame of a loaded mailbox is the one `can_drv_tx` was called with. -/
theorem frame_load (r : TxMailbox) {ident : UInt32} {dlc : UInt8} (d : Vector UInt8 8)
    (hident : ident &&& canTxrq = 0) (hdlc : dlc &&& 0xF = dlc) :
    (r.load ident dlc d).frame = ⟨ident, dlc, d⟩ := by
  obtain ⟨h0, h1, h2, h3⟩ := toUInt8_pack d[3] d[2] d[1] d[0]
  obtain ⟨h4, h5, h6, h7⟩ := toUInt8_pack d[7] d[6] d[5] d[4]
  simp only [TxMailbox.frame, TxMailbox.load, or_and_not hident, toUInt8_or_and _ hdlc, h0, h1,
    h2, h3, h4, h5, h6, h7, Frame.mk.injEq, true_and]
  ext i hi
  interval_cases i <;> rfl

/-! ## The driver -/

/-- An entry of `rxArray`; pointers are `none` if they are `NULL`. -/
structure CANrx where
  ident : UInt32 := 0
  mask : UInt32 := 0xFFFF
  object : Option Nat := none
  canRxCallback : Option Nat := none
deriving DecidableEq, Repr

/-- An entry of `txArray`, zero or as `CO_CANtxBufferInit` has set it up. -/
structure CANtx where
  ident : UInt32 := 0
  dlc : UInt8 := 0
  data : Vector UInt8 8 := Vector.replicate 8 0
  bufferFull : Bool := false
  syncFlag : Bool := false
  ident_txrq : ident &&& canTxrq = 0 := by decide
  dlc_and : dlc &&& 0xF = dlc := by decide

def CANtx.frame (b : CANtx) : Frame := ⟨b.ident, b.dlc, b.data⟩

inductive ReturnError
  | no
  | illegalArgument
  | txOverflow
deriving DecidableEq, Repr

def errTxOverflow : UInt16 := 0x0008
def errTxPdoLate : UInt16 := 0x0080

structure CANmodule where
  dev : Controller
  rxArray : List CANrx
  txArray : List CANtx
  canErrorStatus : UInt16
  useCANrxFilters : Bool
  bufferInhibitFlag : Bool
  firstCANtxMessage : Bool
  canTxCount : UInt16

/-- `CO_CANmodule_init` on arrays of the given sizes. -/
def coCANmoduleInit (dev : Controller) (rxSize txSize : UInt16)
    (txArray : Vector CANtx txSize.toNat) : CANmodule where
  dev := dev
  rxArray := List.replicate rxSize.toNat {}
  txArray := txArray.toList.map fun b => { b with bufferFull := false }
  canErrorStatus := 0
  useCANrxFilters := false
  bufferInhibitFlag := false
  firstCANtxMessage := true
  canTxCount := 0

/-- The arguments of `CO_CANrxBufferInit`. -/
structure RxInit where
  index : UInt16
  ident : UInt16
  mask : UInt16
  rtr : Bool
  object : Option Nat
  canRxCallback : Option Nat
deriving DecidableEq, Repr

def RxInit.buffer (a : RxInit) : CANrx where
  ident := (a.ident &&& 0x7FF).toUInt32 <<< 21 ||| if a.rtr then canRtr else 0
  mask := (a.mask &&& 0x7FF).toUInt32 <<< 21 ||| canRtr ||| canIde
  object := a.object
  canRxCallback := a.canRxCallback

def coCANrxBufferInit (m : CANmodule) (a : RxInit) : ReturnError × CANmodule :=
  if a.object.isSome ∧ a.canRxCallback.isSome ∧ a.index.toNat < m.rxArray.length then
    (.no, { m with rxArray := m.rxArray.set a.index.toNat a.buffer })
  else (.illegalArgument, m)

theorem ident_txrq_shiftLeft (ident : UInt16) (rtr : Bool) :
    ((ident &&& 0x7FF).toUInt32 <<< 21 ||| if rtr then canRtr else 0) &&& canTxrq = 0 := by
  apply UInt32.eq_of_toBitVec_eq
  refine BitVec.eq_of_getLsbD_eq fun i hi => ?_
  rcases rtr with _ | _ <;> rcases i with _ | i <;> simp [canRtr, canTxrq]

/-- `CO_CANtxBufferInit`; the result is `none` instead of a null pointer. -/
def coCANtxBufferInit (m : CANmodule) (index ident : UInt16) (rtr : Bool) (noOfBytes : UInt8)
    (syncFlag : Bool) : Option CANmodule :=
  m.txArray[index.toNat]?.map fun b =>
    { m with
      txArray := m.txArray.set index.toNat
        { b with
          ident := (ident &&& 0x7FF).toUInt32 <<< 21 ||| if rtr then canRtr else 0
          dlc := noOfBytes &&& 0xF
          bufferFull := false
          syncFlag := syncFlag
          ident_txrq := ident_txrq_shiftLeft ident rtr
          dlc_and := by rw [UInt8.and_assoc]; rfl } }

/-- `CO_CANsend` on the buffer with the given index. -/
def coCANsend (m : CANmodule) (index : Nat) : Option (ReturnError × CANmodule) :=
  m.txArray[index]?.map fun b =>
    let err : ReturnError := if b.bufferFull then .txOverflow else .no
    let status := if b.bufferFull && !m.firstCANtxMessage then
      m.canErrorStatus ||| errTxOverflow else m.canErrorStatus
    let (sts, dev) := canDrvTx m.dev b.ident b.dlc b.data
    let m : CANmodule := { m with canErrorStatus := status, dev := dev }
    if sts && m.canTxCount == 0 then
      (err, { m with bufferInhibitFlag := b.syncFlag })
    else
      (err, { m with
        txArray := m.txArray.set index { b with bufferFull := true }
        canTxCount := m.canTxCount + 1 })

/-- The loop of `CO_CANclearPendingSyncPDOs` over `txArray`: the array, the counter
and whether a message was deleted. -/
def clearSync : List CANtx → UInt16 → List CANtx × UInt16 × Bool
  | [], count => ([], count, false)
  | b :: bs, count =>
      if b.bufferFull && b.syncFlag then
        let rest := clearSync bs (count - 1)
        ({ b with bufferFull := false } :: rest.1, rest.2.1, true)
      else
        let rest := clearSync bs count
        (b :: rest.1, rest.2)

def coCANclearPendingSyncPDOs (m : CANmodule) : CANmodule :=
  let abort := canDrvIsTransmitting m.dev && m.bufferInhibitFlag
  let cleared :=
    if m.canTxCount ≠ 0 then clearSync m.txArray m.canTxCount
    else (m.txArray, m.canTxCount, false)
  { m with
    dev := if abort then canDrvTxAbort m.dev else m.dev
    bufferInhibitFlag := if abort then false else m.bufferInhibitFlag
    txArray := cleared.1
    canTxCount := cleared.2.1
    canErrorStatus := if abort || cleared.2.2 then m.canErrorStatus ||| errTxPdoLate
      else m.canErrorStatus }

/-- The message handed to a receive callback. -/
structure RxMsg where
  ident : UInt32
  dlc : UInt8
  data : Vector UInt8 8
deriving DecidableEq, Repr

def RxMailbox.msg (r : RxMailbox) : RxMsg := ⟨r.rir, (r.rdtr &&& 0xFF).toUInt8, r.data⟩

/-- A call of `can_drv_rxed`, `can_msg_t` without its time stamp. -/
structure CanMsg where
  id : UInt32
  ide : Bool
  rtr : Bool
  dlc : UInt8
  data : Vector UInt8 8
deriving DecidableEq, Repr

def RxMailbox.canMsg (r : RxMailbox) : CanMsg where
  id := if r.rir &&& canIde ≠ 0 then r.rir >>> 3 else r.rir >>> 21
  ide := r.rir &&& canIde ≠ 0
  rtr := r.rir &&& canRtr ≠ 0
  dlc := (r.rdtr &&& 0xFF).toUInt8 &&& 0x3F
  data := r.data

/-- What `CO_CANinterrupt` calls for a received message. -/
inductive Call
  | rxed (msg : CanMsg)
  | callback (canRxCallback : Nat) (object : Option Nat) (msg : RxMsg)
deriving DecidableEq, Repr

/-- `((rcv_msg.ident ^ ident) & mask) == 0`. -/
def CANrx.Matches (b : CANrx) (ident : UInt32) : Prop := (ident ^^^ b.ident) &&& b.mask = 0

instance (b : CANrx) (ident : UInt32) : Decidable (b.Matches ident) :=
  inferInstanceAs (Decidable ((ident ^^^ b.ident) &&& b.mask = 0))

/-- The search of `rxArray` from its end; the first `n` entries are left. -/
def searchRxArray (rxArray : List CANrx) (ident : UInt32) : Nat → Option CANrx
  | 0 => none
  | n + 1 =>
      match rxArray[n]? with
      | some b => if b.Matches ident then some b else searchRxArray rxArray ident n
      | none => searchRxArray rxArray ident n

def matchRx (m : CANmodule) (r : RxMailbox) : Option CANrx :=
  if m.useCANrxFilters then
    m.rxArray[((r.rdtr >>> 8) &&& 0xFF).toNat]?.filter fun b => b.Matches r.rir
  else searchRxArray m.rxArray r.rir m.rxArray.length

def callRx (r : RxMailbox) : Option CANrx → List Call
  | some b => match b.canRxCallback with
    | some f => [.callback f b.object r.msg]
    | none => []
  | none => []

/-- The scan of `CO_CANinterrupt` for a message that waits. -/
def sendPending (m : CANmodule) : CANmodule :=
  match m.txArray.findIdx? (·.bufferFull) with
  | some i => match m.txArray[i]? with
    | some b =>
        { m with
          txArray := m.txArray.set i { b with bufferFull := false }
          canTxCount := m.canTxCount - 1
          bufferInhibitFlag := b.syncFlag
          dev := (canDrvTx m.dev b.ident b.dlc b.data).2 }
    | none => m
  | none => { m with canTxCount := 0 }

def coCANinterrupt (m : CANmodule) : List Call × CANmodule :=
  match m.dev.fifo with
  | r :: _ =>
      if m.dev.fovr then ([], { m with dev := { m.dev with fovr := false } })
      else
        (.rxed r.canMsg :: callRx r (matchRx m r),
          { m with dev := canDrvReleaseRxMessage m.dev })
  | [] =>
      match canDrvIsMessageSent m.dev with
      | some txMask =>
          let m := { m with
            dev := canDrvReleaseTxMessage m.dev txMask
            firstCANtxMessage := false
            bufferInhibitFlag := false }
          ([], if m.canTxCount ≠ 0 then sendPending m else m)
      | none => ([], m)

end ShGateway.CanDriver
