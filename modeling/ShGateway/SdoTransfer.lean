import ShGateway.CanTransmit
import ShGateway.Lib.ByteWords
import ShGateway.Lib.PollLoop

/-!
The SDO client of CANopenNode (`CO_SDOclient.c`, segmented and local transfers, no block
transfers) and the transfers of `sdo.c` with it.
-/

namespace ShGateway.SdoTransfer

open ShGateway.CanDriver
open ShGateway.CanTransmit
open ShGateway.Lib.ByteWords
open ShGateway.Lib.PollLoop

/-- `CO_SDO_state_t`. -/
inductive State
  | idle
  | abort
  | downloadLocalTransfer
  | downloadInitiateReq
  | downloadInitiateRsp
  | downloadSegmentReq
  | downloadSegmentRsp
  | uploadLocalTransfer
  | uploadInitiateReq
  | uploadInitiateRsp
  | uploadSegmentReq
  | uploadSegmentRsp
deriving DecidableEq, Repr

/-! `CO_SDO_return_t`. -/

def rtUploadDataBufferFull : Int := 5
def rtTransmittBufferFull : Int := 4
def rtWaitingResponse : Int := 1
def rtOkCommunicationEnd : Int := 0
def rtWrongArguments : Int := -2
def rtEndedWithClientAbort : Int := -9

/-! `CO_SDO_abortCode_t`. -/

def abNone : UInt32 := 0x00000000
def abTimeout : UInt32 := 0x05040000
def abDeviceIncompat : UInt32 := 0x06040047
def abTypeMismatch : UInt32 := 0x06070010
def abDataLong : UInt32 := 0x06070012
def abDataShort : UInt32 := 0x06070013
def abGeneral : UInt32 := 0x08000000

def canIdSdoSrv : UInt32 := 0x580
def canIdSdoCli : UInt32 := 0x600

/-- `CO_CONFIG_SDO_CLI_BUFFER_SIZE`. -/
def bufferSize : Nat := 1024

/-- `CO_SDOclient_t`; `od` tells whether it has an object dictionary, and `object` stands for
its address. -/
structure SdoClient where
  od : Bool
  nodeId : UInt8
  object : Nat
  canDevRxIdx : UInt16
  canDevTxIdx : UInt16
  nodeIDOfTheSDOServer : UInt8 := 0
  valid : Bool := false
  index : UInt16 := 0
  subIndex : UInt8 := 0
  finished : Bool := false
  sizeInd : Nat := 0
  sizeTran : Nat := 0
  state : State := .idle
  sdoTimeoutTimeUs : UInt32 := 0
  timeoutTimer : UInt32 := 0
  bufFifo : List UInt8 := []
  canRxNew : Bool := false
  canRxData : Vector UInt8 8 := Vector.replicate 8 0
  toggle : UInt8 := 0

/-- The function `CO_SDOclient_receive` among the receive callbacks. -/
def coSDOclientReceive : Nat := 0

/-- A call from `CO_CANinterrupt`. -/
def SdoClient.receive (c : SdoClient) : Call → SdoClient
  | .rxed _ => c
  | .callback f object msg =>
      if f = coSDOclientReceive ∧ object = some c.object ∧ c.state ≠ .idle ∧ msg.dlc = 8 ∧
          (¬ c.canRxNew ∨ msg.data.toList.head? = some 0x80) then
        { c with canRxData := msg.data, canRxNew := true }
      else c

/-! ## Setting up a transfer -/

def coSDOclientSetup (c : SdoClient) (m : CANmodule)
    (cobIDClientToServer cobIDServerToClient : UInt32) (nodeIDOfTheSDOServer : UInt8) :
    Int × SdoClient × CANmodule :=
  let c := { c with state := .idle, canRxNew := false, nodeIDOfTheSDOServer }
  let canIdC2S : UInt16 :=
    if cobIDClientToServer &&& 0x80000000 = 0 then (cobIDClientToServer &&& 0x7FF).toUInt16 else 0
  let canIdS2C : UInt16 :=
    if cobIDServerToClient &&& 0x80000000 = 0 then (cobIDServerToClient &&& 0x7FF).toUInt16 else 0
  let valid := canIdC2S ≠ 0 ∧ canIdS2C ≠ 0
  let canIdC2S := if valid then canIdC2S else 0
  let canIdS2C := if valid then canIdS2C else 0
  let (ret, m) := coCANrxBufferInit m
    ⟨c.canDevRxIdx, canIdS2C, 0x7FF, false, some c.object, some coSDOclientReceive⟩
  match coCANtxBufferInit m c.canDevTxIdx canIdC2S false 8 false with
  | none => (rtWrongArguments, { c with valid := false }, m)
  | some m =>
      if ret ≠ .no then (rtWrongArguments, { c with valid := false }, m)
      else (rtOkCommunicationEnd, { c with valid := valid }, m)

/-- The server is this node. -/
def SdoClient.isLocal (c : SdoClient) : Bool :=
  c.od ∧ c.nodeId ≠ 0 ∧ c.nodeIDOfTheSDOServer = c.nodeId

/-- What both kinds of transfers start with. -/
def SdoClient.start (c : SdoClient) (index : UInt16) (subIndex : UInt8) (sizeInd : Nat)
    (sdoTimeoutTimeMs : UInt16) (localTransfer request : State) : Int × SdoClient :=
  if c.valid = false then (rtWrongArguments, c)
  else
    (rtOkCommunicationEnd, { c with
      index, subIndex, sizeInd
      sizeTran := 0
      finished := false
      sdoTimeoutTimeUs := sdoTimeoutTimeMs.toUInt32 * 1000
      timeoutTimer := 0
      bufFifo := []
      state := if c.isLocal then localTransfer else request
      canRxNew := false })

def coSDOclientUploadInitiate (c : SdoClient) (index : UInt16) (subIndex : UInt8)
    (sdoTimeoutTimeMs : UInt16) : Int × SdoClient :=
  c.start index subIndex 0 sdoTimeoutTimeMs .uploadLocalTransfer .uploadInitiateReq

def coSDOclientDownloadInitiate (c : SdoClient) (index : UInt16) (subIndex : UInt8)
    (sizeIndicated : Nat) (sdoTimeoutTimeMs : UInt16) : Int × SdoClient :=
  c.start index subIndex sizeIndicated sdoTimeoutTimeMs .downloadLocalTransfer
    .downloadInitiateReq

/-- How many bytes are written, and the client with them. -/
def coSDOclientDownloadBufWrite (c : SdoClient) (buf : List UInt8) : Nat × SdoClient :=
  let written := buf.take (bufferSize - c.bufFifo.length)
  (written.length, { c with bufFifo := c.bufFifo ++ written })

/-! ## One call of `CO_SDOclientUpload` or `CO_SDOclientDownload` -/

/-- `ret` and `abortCode` with the client and the CAN module. -/
structure Pass where
  ret : Int
  abortCode : UInt32
  c : SdoClient
  m : CANmodule

/-- `CANtxBuff->bufferFull`. -/
def SdoClient.txBufferFull (c : SdoClient) (m : CANmodule) : Bool :=
  match m.txArray[c.canDevTxIdx.toNat]? with
  | some b => b.bufferFull
  | none => false

/-- Fills `CANtxBuff` and sends it. -/
def SdoClient.send (c : SdoClient) (m : CANmodule) (data : Vector UInt8 8) : CANmodule :=
  match coCANsend (fill m c.canDevTxIdx.toNat data) c.canDevTxIdx.toNat with
  | some (_, m) => m
  | none => m

/-- A message about the object, with a command and the bytes behind it. -/
def SdoClient.objectData (c : SdoClient) (command : UInt8) (bytes : List UInt8) :
    Vector UInt8 8 :=
  #v[command, c.index.toUInt8, (c.index >>> 8).toUInt8, c.subIndex,
    bytes.getD 0 0, bytes.getD 1 0, bytes.getD 2 0, bytes.getD 3 0]

/-- A message with a segment. -/
def segmentData (command : UInt8) (bytes : List UInt8) : Vector UInt8 8 :=
  #v[command, bytes.getD 0 0, bytes.getD 1 0, bytes.getD 2 0, bytes.getD 3 0, bytes.getD 4 0,
    bytes.getD 5 0, bytes.getD 6 0]

/-- What the two kinds of transfers do differently. The local transfer and the handling of a
received message are parameters. -/
structure Kind where
  localState : State
  localTransfer : SdoClient → CANmodule → Pass
  received : SdoClient → CANmodule → Pass
  timeoutCode : State → UInt32
  transmit : Pass → Pass

/-- The first part of a call, with the time difference for the timer. -/
def Kind.begin (kind : Kind) (timeDifferenceUs : UInt32) (c : SdoClient) (m : CANmodule) :
    UInt32 × Pass :=
  if c.valid = false then (timeDifferenceUs, ⟨rtWrongArguments, abDeviceIncompat, c, m⟩)
  else if c.state = .idle then (timeDifferenceUs, ⟨rtOkCommunicationEnd, abNone, c, m⟩)
  else if c.state = kind.localState then (timeDifferenceUs, kind.localTransfer c m)
  else if c.canRxNew then
    let p := kind.received c m
    (0, { p with c := { p.c with timeoutTimer := 0, canRxNew := false } })
  else (timeDifferenceUs, ⟨rtWaitingResponse, abNone, c, m⟩)

/-- The timeout timer runs up to the timeout. -/
def SdoClient.tick (c : SdoClient) (timeDifferenceUs : UInt32) : SdoClient :=
  if c.timeoutTimer < c.sdoTimeoutTimeUs then
    { c with timeoutTimer := c.timeoutTimer + timeDifferenceUs }
  else c

def Kind.checkTimeout (kind : Kind) (p : Pass) : Pass :=
  if p.c.timeoutTimer ≥ p.c.sdoTimeoutTimeUs then
    { p with abortCode := kind.timeoutCode p.c.state, c := { p.c with state := .abort } }
  else p

/-- The timeout timer and `bufferFull`. -/
def Kind.timers (kind : Kind) (timeDifferenceUs : UInt32) (p : Pass) : Pass :=
  if p.ret ≠ rtWaitingResponse then p
  else
    let p := kind.checkTimeout { p with c := p.c.tick timeDifferenceUs }
    if p.c.txBufferFull p.m then { p with ret := rtTransmittBufferFull } else p

/-- The abort message. -/
def Pass.sendAbort (p : Pass) : Pass :=
  if p.ret = rtWaitingResponse ∧ p.c.state = .abort then
    { p with
      ret := rtEndedWithClientAbort
      m := p.c.send p.m (p.c.objectData 0x80 (le32 p.abortCode.toNat))
      c := { p.c with state := .idle } }
  else p

def Kind.pass (kind : Kind) (timeDifferenceUs : UInt32) (c : SdoClient) (m : CANmodule) : Pass :=
  let (timeDifferenceUs, p) := kind.begin timeDifferenceUs c m
  let p := kind.timers timeDifferenceUs p
  (if p.ret = rtWaitingResponse then kind.transmit p else p).sendAbort

/-- The timer restarts with each message to the server. -/
def Pass.request (p : Pass) (data : Vector UInt8 8) (state : State) : Pass :=
  { p with m := p.c.send p.m data, c := { p.c with timeoutTimer := 0, state := state } }

/-- The message that an upload starts with. -/
def uploadRequest (c : SdoClient) : Vector UInt8 8 := c.objectData 0x40 []

/-- The switch of `CO_SDOclientUpload`. -/
def uploadTransmit (p : Pass) : Pass :=
  match p.c.state with
  | .uploadInitiateReq => p.request (uploadRequest p.c) .uploadInitiateRsp
  | .uploadSegmentReq =>
      -- Not until there is enough space for a segment.
      if bufferSize - p.c.bufFifo.length < 7 then { p with ret := rtUploadDataBufferFull }
      else p.request (segmentData (0x60 ||| p.c.toggle) []) .uploadSegmentRsp
  | _ => p

/-- The message that a download starts with, and the client then; `none` when the length is
wrong. -/
def downloadRequest (c : SdoClient) : Option (Vector UInt8 8 × SdoClient) :=
  let count := c.bufFifo.length
  if c.sizeInd = 0 ∧ count ≤ 4 ∨ c.sizeInd > 0 ∧ c.sizeInd ≤ 4 then
    if count = 0 ∨ c.sizeInd > 0 ∧ c.sizeInd ≠ count then none
    else
      let size : UInt8 := if c.sizeInd > 0 then 1 ||| UInt8.ofNat (4 * (4 - count)) else 0
      some (c.objectData (0x22 ||| size) c.bufFifo,
        { c with bufFifo := [], sizeTran := count, finished := true })
  else if c.sizeInd > 0 then some (c.objectData 0x21 (le32 c.sizeInd), c)
  else some (c.objectData 0x20 [], c)

/-- The switch of `CO_SDOclientDownload`. -/
def downloadTransmit (bufferPartial : Bool) (p : Pass) : Pass :=
  match p.c.state with
  | .downloadInitiateReq =>
      match downloadRequest p.c with
      | none =>
          { p with
            ret := rtEndedWithClientAbort
            abortCode := abTypeMismatch
            c := { p.c with state := .idle } }
      | some (data, c) => ({ p with c }).request data .downloadInitiateRsp
  | .downloadSegmentReq =>
      let bytes := p.c.bufFifo.take 7
      let bufFifo := p.c.bufFifo.drop 7
      let sizeTran := p.c.sizeTran + bytes.length
      if p.c.sizeInd > 0 ∧ sizeTran > p.c.sizeInd then
        { p with abortCode := abDataLong, c := { p.c with bufFifo, state := .abort } }
      else if bufFifo.length = 0 ∧ ¬ bufferPartial ∧ p.c.sizeInd > 0 ∧ sizeTran < p.c.sizeInd then
        { p with abortCode := abDataShort, c := { p.c with bufFifo, sizeTran, state := .abort } }
      else
        let last : Bool := bufFifo.length = 0 ∧ ¬ bufferPartial
        let command := p.c.toggle ||| UInt8.ofNat (2 * (7 - bytes.length))
        let data := segmentData (if last then command ||| 0x01 else command) bytes
        let c := { p.c with bufFifo, sizeTran, finished := p.c.finished || last }
        ({ p with c := c }).request data .downloadSegmentRsp
  | _ => p

/-- The parameters of both kinds of transfers. -/
structure Answers where
  uploadLocal : SdoClient → CANmodule → Pass
  uploadReceived : SdoClient → CANmodule → Pass
  downloadLocal : Bool → SdoClient → CANmodule → Pass
  downloadReceived : SdoClient → CANmodule → Pass

def Answers.upload (answers : Answers) : Kind where
  localState := .uploadLocalTransfer
  localTransfer := answers.uploadLocal
  received := answers.uploadReceived
  timeoutCode state := if state = .uploadSegmentReq then abGeneral else abTimeout
  transmit := uploadTransmit

def Answers.download (answers : Answers) (bufferPartial : Bool) : Kind where
  localState := .downloadLocalTransfer
  localTransfer := answers.downloadLocal bufferPartial
  received := answers.downloadReceived
  timeoutCode _ := abTimeout
  transmit := downloadTransmit bufferPartial

/-- `CO_SDOclientUpload` without an abort. -/
def coSDOclientUpload (answers : Answers) : UInt32 → SdoClient → CANmodule → Pass :=
  answers.upload.pass

/-- `CO_SDOclientDownload` without an abort. -/
def coSDOclientDownload (answers : Answers) (bufferPartial : Bool) :
    UInt32 → SdoClient → CANmodule → Pass :=
  (answers.download bufferPartial).pass

/-! ## `sdo.c` -/

/-- What the CAN controller and `CO_CANinterrupt` do while a transfer waits. -/
inductive BusEvent
  | complete (k : Fin 3)
  | receive (fifo : List RxMailbox) (fovr : Bool)
  | interrupt

/-- The calls of receive callbacks, and the module. -/
def busStep (m : CANmodule) : BusEvent → List Call × CANmodule
  | .complete k => ([], if m.dev.tme k then m else { m with dev := m.dev.complete k })
  | .receive fifo fovr => ([], { m with dev := { m.dev with fifo := fifo, fovr := fovr } })
  | .interrupt => coCANinterrupt m

def busRun : CANmodule → List BusEvent → List Call × CANmodule
  | m, [] => ([], m)
  | m, ev :: events =>
      let (calls, m) := busStep m ev
      let (later, m) := busRun m events
      (calls ++ later, m)

/-- `delay_ms_w_can_poll` with what happens meanwhile. -/
def delayMsWCanPoll (events : List BusEvent) (s : SdoClient × CANmodule) :
    SdoClient × CANmodule :=
  let (calls, m) := busRun s.2 events
  (calls.foldl SdoClient.receive s.1, m)

/-- A turn of the loop in `read_SDO` or `write_SDO`: the code that the loop ends with and the
client then, or the state in which it waits. -/
def transferTurn (pass : UInt32 → SdoClient → CANmodule → Pass) (s : SdoClient × CANmodule) :
    (UInt32 × SdoClient) ⊕ (SdoClient × CANmodule) :=
  let p := pass 1000 s.1 s.2
  if p.ret < 0 then .inl (p.abortCode, p.c)
  else if p.ret > 0 then .inr (p.c, p.m)
  else .inl (abNone, p.c)

/-- At most `fuel` turns of the loop. -/
def transferLoop (pass : UInt32 → SdoClient → CANmodule → Pass) (delays : Nat → List BusEvent)
    (fuel : Nat) (s : SdoClient × CANmodule) : Option (UInt32 × SdoClient) :=
  poll (transferTurn pass) (fun i => delayMsWCanPoll (delays i)) fuel 0 s

section

variable (answers : Answers) (delays : Nat → List BusEvent) (fuel : Nat)
  (s : SdoClient × CANmodule) (nodeId : UInt8) (index : UInt16) (subIndex : UInt8)
  (timeoutMs : UInt32)

/-- `CO_SDOclient_setup` for the server of a node. -/
def setupServer : Option (SdoClient × CANmodule) :=
  match coSDOclientSetup s.1 s.2 (canIdSdoCli + nodeId.toUInt32) (canIdSdoSrv + nodeId.toUInt32)
      nodeId with
  | (0, s) => some s
  | _ => none

/-- `read_SDO` before its loop. -/
def readStart : Option (SdoClient × CANmodule) :=
  match setupServer s nodeId with
  | none => none
  | some (c, m) =>
      match coSDOclientUploadInitiate c index subIndex timeoutMs.toUInt16 with
      | (0, c) => some (c, m)
      | _ => none

/-- `read_SDO`: the abort code and what is read. -/
def readSDO (bufSize : Nat) : Option (UInt32 × List UInt8) :=
  match readStart s nodeId index subIndex timeoutMs with
  | none => some (abGeneral, [])
  | some s =>
      (transferLoop (coSDOclientUpload answers) delays fuel s).map fun (code, c) =>
        (code, if code = abNone then c.bufFifo.take bufSize else [])

/-- `write_SDO` before its loop, with `bufferPartial`. -/
def writeStart (data : List UInt8) : Option (Bool × SdoClient × CANmodule) :=
  match setupServer s nodeId with
  | none => none
  | some (c, m) =>
      match coSDOclientDownloadInitiate c index subIndex data.length timeoutMs.toUInt16 with
      | (0, c) =>
          let (nWritten, c) := coSDOclientDownloadBufWrite c data
          some (nWritten < data.length, c, m)
      | _ => none

/-- `write_SDO`: the abort code. -/
def writeSDO (data : List UInt8) : Option UInt32 :=
  match writeStart s nodeId index subIndex timeoutMs data with
  | none => some abGeneral
  | some (bufferPartial, s) =>
      (transferLoop (coSDOclientDownload answers bufferPartial) delays fuel s).map Prod.fst

end

end ShGateway.SdoTransfer
