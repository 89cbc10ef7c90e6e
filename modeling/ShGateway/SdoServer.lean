import ShGateway.Crc16
import ShGateway.Lib.ByteBuffer
import ShGateway.Lib.ByteWords
import ShGateway.OdInterface

/-!
The SDO server of CANopenNode (`CO_SDOserver.c`) with expedited, segmented and block transfers.
An access behind the end of `buf`, and an offset that wraps around, is `none`.
-/

namespace ShGateway.SdoServer

open ShGateway.Crc16
open ShGateway.Lib.ByteBuffer
open ShGateway.Lib.ByteWords
open ShGateway.OdInterface

/-- `CO_SDO_state_t` of a server. -/
inductive State
  | idle
  | abort
  | downloadInitiateReq
  | downloadInitiateRsp
  | downloadSegmentReq
  | downloadSegmentRsp
  | uploadInitiateReq
  | uploadInitiateRsp
  | uploadSegmentReq
  | uploadSegmentRsp
  | downloadBlkInitiateReq
  | downloadBlkInitiateRsp
  | downloadBlkSubblockReq
  | downloadBlkSubblockRsp
  | downloadBlkEndReq
  | downloadBlkEndRsp
  | uploadBlkInitiateReq
  | uploadBlkInitiateRsp
  | uploadBlkInitiateReq2
  | uploadBlkSubblockSreq
  | uploadBlkSubblockCrsp
  | uploadBlkEndSreq
  | uploadBlkEndCrsp
deriving DecidableEq, Repr

/-! `CO_SDO_return_t`. -/

def rtTransmittBufferFull : Int := 4
def rtBlockDownldInProgress : Int := 3
def rtBlockUploadInProgress : Int := 2
def rtWaitingResponse : Int := 1
def rtOkCommunicationEnd : Int := 0
def rtEndedWithServerAbort : Int := -10

/-! `CO_SDO_abortCode_t`. -/

def abNone : UInt32 := 0x00000000
def abToggleBit : UInt32 := 0x05030000
def abTimeout : UInt32 := 0x05040000
def abCmd : UInt32 := 0x05040001
def abBlockSize : UInt32 := 0x05040002
def abCrc : UInt32 := 0x05040004
def abUnsupportedAccess : UInt32 := 0x06010000
def abWriteonly : UInt32 := 0x06010001
def abReadonly : UInt32 := 0x06010002
def abDeviceIncompat : UInt32 := 0x06040047
def abDataLong : UInt32 := 0x06070012
def abDataShort : UInt32 := 0x06070013

/-- `CO_CONFIG_SDO_SRV_BUFFER_SIZE`; `buf` has one more byte. -/
def bufferSize : Nat := 1024

/-- `CO_SDOserver_t`. -/
structure Server (α : Type) where
  valid : Bool
  state : State
  odIo : OdIo α
  index : UInt16
  subIndex : UInt8
  canRxNew : Bool
  canRxData : Vector UInt8 8
  sizeInd : UInt32
  sizeTran : UInt32
  toggle : UInt8
  finished : Bool
  sdoTimeoutTimeUs : UInt32
  timeoutTimer : UInt32
  buf : List UInt8
  bufOffsetWr : Nat
  bufOffsetRd : Nat
  blockSdoTimeoutTimeUs : UInt32
  blockTimeoutTimer : UInt32
  blockSeqno : UInt8
  blockBlksize : UInt8
  blockNoData : UInt8
  blockCrcEnabled : Bool
  blockCrc : UInt16

variable {α : Type}

/-! ## `CO_SDO_receive` -/

/-- A segment of a sub-block. -/
def receiveSegment (srv : Server α) (data : Vector UInt8 8) : Option (Server α) :=
  if srv.bufOffsetWr ≤ bufferSize - (7 + 2) then
    let seqno := data.toList.headD 0 &&& 0x7F
    let srv := { srv with timeoutTimer := 0, blockTimeoutTimer := 0 }
    if seqno ≤ srv.blockBlksize ∧ seqno.toNat = srv.blockSeqno.toNat + 1 then do
      let buf ← store srv.buf srv.bufOffsetWr (data.toList.drop 1)
      let srv := { srv with
        blockSeqno := seqno
        buf
        bufOffsetWr := srv.bufOffsetWr + 7
        sizeTran := srv.sizeTran + 7 }
      if data.toList.headD 0 &&& 0x80 ≠ 0 then
        some { srv with finished := true, canRxNew := false, state := .downloadBlkSubblockRsp }
      else if seqno = srv.blockBlksize then
        some { srv with canRxNew := false, state := .downloadBlkSubblockRsp }
      else some srv
    else if seqno ≠ srv.blockSeqno ∧ srv.blockSeqno ≠ 0 then
      some { srv with canRxNew := false, state := .downloadBlkSubblockRsp }
    else some srv
  else some srv

def coSDOReceive (srv : Server α) (dlc : Nat) (data : Vector UInt8 8) : Option (Server α) :=
  if dlc ≠ 8 then some srv
  else if data.toList.headD 0 = 0x80 then some { srv with state := .idle }
  else if srv.canRxNew then some srv
  else if srv.state = .uploadBlkEndCrsp ∧ data.toList.headD 0 = 0xA1 then
    some { srv with state := .idle }
  else if srv.state = .downloadBlkSubblockReq then receiveSegment srv data
  else if srv.state = .downloadBlkSubblockRsp then some srv
  else some { srv with canRxData := data, canRxNew := true }

/-! ## Access to the object dictionary -/

/-- `abortCode`, which is `abNone` as long as nothing went wrong, with the server and the
dictionary. -/
structure Progress (α : Type) where
  abortCode : UInt32
  srv : Server α
  od : OdState α

/-- An error sets `abortCode` and the state. -/
def Progress.abort (p : Progress α) (abortCode : UInt32) : Progress α :=
  { p with abortCode, srv := { p.srv with state := .abort } }

def Server.setStream (srv : Server α) (stream : OdStream) : Server α :=
  { srv with odIo := { srv.odIo with stream } }

def Server.setDataLength (srv : Server α) (dataLength : Nat) : Server α :=
  srv.setStream { srv.odIo.stream with dataLength }

/-- A zero behind the downloaded data. -/
def Server.putZero (srv : Server α) : Option (Server α) := do
  let buf ← store srv.buf srv.bufOffsetWr [0]
  some { srv with buf, bufOffsetWr := srv.bufOffsetWr + 1, sizeTran := srv.sizeTran + 1 }

def Server.putSecondZero (srv : Server α) (sizeInOd : Nat) : Option (Server α) :=
  if sizeInOd = 0 ∨ srv.sizeTran.toNat < sizeInOd then srv.putZero else some srv

/-- One or two zeros behind a string. -/
def Server.terminate (srv : Server α) (sizeInOd : Nat) : Option (Server α) := do
  let srv ← srv.putZero
  let srv ← srv.putSecondZero sizeInOd
  some (srv.setDataLength srv.sizeTran.toNat)

def tooLongOrShort (long : Bool) : UInt32 := if long then abDataLong else abDataShort

/-- The first part of `validateAndWriteToOD`: the size of what is downloaded. -/
def checkSize (p : Progress α) : Option (Progress α) :=
  let srv := p.srv
  if srv.finished then
    if srv.sizeInd > 0 ∧ srv.sizeTran ≠ srv.sizeInd then
      some (p.abort (tooLongOrShort (srv.sizeTran > srv.sizeInd)))
    else
      let sizeInOd := srv.odIo.stream.dataLength
      if srv.odIo.stream.attr &&& odaStr ≠ 0 ∧ (sizeInOd = 0 ∨ srv.sizeTran.toNat < sizeInOd) ∧
          srv.bufOffsetWr + 2 ≤ bufferSize then do
        let srv ← srv.terminate sizeInOd
        some { p with srv }
      else if sizeInOd = 0 then some { p with srv := srv.setDataLength srv.sizeTran.toNat }
      else if srv.sizeTran.toNat ≠ sizeInOd then
        some (p.abort (tooLongOrShort (srv.sizeTran.toNat > sizeInOd)))
      else some p
  else if srv.sizeInd > 0 ∧ srv.sizeTran > srv.sizeInd then some (p.abort abDataLong)
  else some p

/-- The checksum of the first `count` bytes of `buf`. -/
def checkCrc (p : Progress α) (count : Nat) (crcOperation : Nat) (crcClient : UInt16) :
    Option (Progress α) :=
  if p.srv.blockCrcEnabled ∧ crcOperation > 0 then do
    let block ← load p.srv.buf 0 count
    let p := { p with srv := { p.srv with blockCrc := crc16Ccitt block p.srv.blockCrc } }
    if crcOperation = 2 ∧ crcClient ≠ p.srv.blockCrc then some (p.abort abCrc) else some p
  else some p

/-- The last part: the buffer is handed to the write function. -/
def writeToOD (p : Progress α) : Option (Progress α) := do
  let srv := p.srv
  let data ← load srv.buf 0 srv.bufOffsetWr
  let w := srv.odIo.write srv.odIo.stream data p.od
  let p := { p with srv := { srv.setStream w.stream with bufOffsetWr := 0 }, od := w.state }
  if w.odr ≠ odrOk ∧ w.odr ≠ odrPartial then some (p.abort (odGetSDOabCode w.odr))
  else if srv.finished ∧ w.odr = odrPartial then some (p.abort abDataShort)
  else if srv.finished = false ∧ w.odr = odrOk then some (p.abort abDataLong)
  else some p

/-- What comes next is done unless something went wrong. -/
def Progress.next (p : Progress α) (f : Progress α → Option (Progress α)) : Option (Progress α) :=
  if p.abortCode = abNone then f p else some p

def validateAndWriteToOD (p : Progress α) (crcOperation : Nat) (crcClient : UInt16) :
    Option (Progress α) := do
  let bufOffsetWrOrig := p.srv.bufOffsetWr
  let p ← checkSize p
  let p ← p.next (checkCrc · bufOffsetWrOrig crcOperation crcClient)
  p.next writeToOD

/-- A string is read up to its terminator: the bytes and the return code then. -/
def cutString (srv : Server α) (r : Reading α) : List UInt8 × Odr × OdStream :=
  if r.bytes ≠ [] ∧ r.stream.attr &&& odaStr ≠ 0 then
    let countStr := max (r.bytes.takeWhile (· ≠ 0)).length 1
    if countStr < r.bytes.length then
      (r.bytes.take countStr, odrOk,
        { r.stream with dataLength := (srv.sizeTran + UInt32.ofNat countStr).toNat })
    else (r.bytes, r.odr, r.stream)
  else (r.bytes, r.odr, r.stream)

/-- The zero behind the bytes of a string. -/
def endString (buf : List UInt8) (countRemain : Nat) (r : Reading α) : Option (List UInt8) :=
  if r.bytes ≠ [] ∧ r.stream.attr &&& odaStr ≠ 0 then store buf (countRemain + r.bytes.length) [0]
  else some buf

/-- The remaining data is moved to the start of the buffer, and more is read behind it. -/
def refill (p : Progress α) (countRemain : Nat) : Option (Reading α × Progress α) := do
  let srv := p.srv
  let remaining ← load srv.buf srv.bufOffsetRd countRemain
  let buf ← store srv.buf 0 remaining
  let countRdRequest ← minus bufferSize countRemain
  let r := srv.odIo.read.read srv.odIo.stream countRdRequest p.od
  let buf ← store buf countRemain r.bytes
  let srv := { srv.setStream r.stream with buf, bufOffsetRd := 0, bufOffsetWr := countRemain }
  some (r, { p with srv, od := r.state })

/-- The read data becomes a part of the buffer. -/
def accept (p : Progress α) (r : Reading α) (countRemain countMinimum : Nat)
    (calculateCrc : Bool) : Option (Progress α) := do
  let buf ← endString p.srv.buf countRemain r
  let (bytes, odr, stream) := cutString p.srv r
  let srv : Server α := { p.srv.setStream stream with
    buf
    bufOffsetWr := countRemain + bytes.length
    finished := ¬ (countRemain + bytes.length = 0 ∨ odr = odrPartial) }
  if srv.finished = false ∧ srv.bufOffsetWr < countMinimum then
    some ({ p with srv }.abort abDeviceIncompat)
  else if calculateCrc ∧ srv.blockCrcEnabled then
    some { p with srv := { srv with blockCrc := crc16Ccitt bytes srv.blockCrc } }
  else some { p with srv }

def readFromOd (p : Progress α) (countMinimum : Nat) (calculateCrc : Bool) :
    Option (Progress α) := do
  let countRemain ← minus p.srv.bufOffsetWr p.srv.bufOffsetRd
  if p.srv.finished = false ∧ countRemain < countMinimum then do
    let (r, p) ← refill p countRemain
    if r.odr ≠ odrOk ∧ r.odr ≠ odrPartial then some (p.abort (odGetSDOabCode r.odr))
    else accept p r countRemain countMinimum calculateCrc
  else some p

/-! ## A received message -/

/-- `CANrxData[i]`. -/
def Progress.rx (p : Progress α) (i : Nat) : UInt8 := p.srv.canRxData.toList.getD i 0

/-- The number in the last four bytes of the message. -/
def Progress.rxSize (p : Progress α) : UInt32 :=
  UInt32.ofNat (ofLe (p.srv.canRxData.toList.drop 4))

def Progress.setState (p : Progress α) (state : State) : Progress α :=
  { p with srv := { p.srv with state } }

/-- The request that a transfer starts with, and whether it is an upload. -/
def requested (command : UInt8) : Option (Bool × State) :=
  if command &&& 0xF0 = 0x20 then some (false, .downloadInitiateReq)
  else if command = 0x40 then some (true, .uploadInitiateReq)
  else if command &&& 0xF9 = 0xC0 then some (false, .downloadBlkInitiateReq)
  else if command &&& 0xFB = 0xA0 then some (true, .uploadBlkInitiateReq)
  else none

/-- The object of the request, with its read and write attributes. -/
def findObject (od : Od α) (p : Progress α) (upload : Bool) : Progress α :=
  let index : UInt16 := ((p.rx 2).toUInt16 <<< 8) ||| (p.rx 1).toUInt16
  let p := { p with srv := { p.srv with index, subIndex := p.rx 3 } }
  match odGetSub (odFind od index) p.srv.subIndex with
  | .error odr => p.abort (odGetSDOabCode odr)
  | .ok odIo =>
      let p := { p with srv := { p.srv with odIo } }
      let attr := odIo.stream.attr
      if attr &&& odaSdoRW = 0 then p.abort abUnsupportedAccess
      else if upload ∧ attr &&& odaSdoR = 0 then p.abort abWriteonly
      else if ¬ upload ∧ attr &&& odaSdoW = 0 then p.abort abReadonly
      else p

/-- The data of an upload is read in advance, to tell its size. -/
def loadObject (p : Progress α) : Option (Progress α) := do
  let srv := { p.srv with bufOffsetRd := 0, bufOffsetWr := 0, sizeTran := 0, finished := false }
  let p ← readFromOd { p with srv } 7 false
  p.next fun p =>
    let stream := p.srv.odIo.stream
    if p.srv.finished then
      let sizeInd := UInt32.ofNat stream.dataLength
      if sizeInd = 0 then
        some { p with srv := { p.srv with sizeInd := UInt32.ofNat p.srv.bufOffsetWr } }
      else
        let p := { p with srv := { p.srv with sizeInd } }
        some (if sizeInd.toNat ≠ p.srv.bufOffsetWr then p.abort abDeviceIncompat else p)
    else
      let sizeInd := if stream.attr &&& odaStr = 0 then UInt32.ofNat stream.dataLength else 0
      some { p with srv := { p.srv with sizeInd } }

/-- In `CO_SDO_ST_IDLE` a message starts a new communication. -/
def newCommunication (od : Od α) (p : Progress α) : Option (Progress α) :=
  if p.srv.state ≠ .idle then some p
  else match requested (p.rx 0) with
  | none => some (p.abort abCmd)
  | some (upload, state) => do
      let p := findObject od (p.setState state) upload
      if upload then p.next loadObject else some p

/-- An expedited download. -/
def downloadExpedited (p : Progress α) : Progress α :=
  let sizeInOd := p.srv.odIo.stream.dataLength
  let dataSizeToWrite :=
    if p.rx 0 &&& 0x01 ≠ 0 then 4 - ((p.rx 0 >>> 2) &&& 0x03).toNat
    else if sizeInOd > 0 ∧ sizeInOd < 4 then sizeInOd
    else 4
  let buf := (p.srv.canRxData.toList.drop 4).take dataSizeToWrite
  let write (zeros : Nat) (srv : Server α) : Progress α :=
    let w := srv.odIo.write srv.odIo.stream (buf ++ List.replicate zeros 0) p.od
    let p := { p with srv := srv.setStream w.stream, od := w.state }
    if w.odr ≠ odrOk then p.abort (odGetSDOabCode w.odr)
    else { p with srv := { p.srv with state := .downloadInitiateRsp, finished := true } }
  if p.srv.odIo.stream.attr &&& odaStr ≠ 0 ∧ (sizeInOd = 0 ∨ dataSizeToWrite < sizeInOd) then
    let zeros := if sizeInOd - dataSizeToWrite = 1 then 1 else 2
    write zeros (p.srv.setDataLength (dataSizeToWrite + zeros))
  else if sizeInOd = 0 then write 0 (p.srv.setDataLength dataSizeToWrite)
  else if dataSizeToWrite ≠ sizeInOd then
    p.abort (tooLongOrShort (dataSizeToWrite > sizeInOd))
  else write 0 p.srv

/-- The size that the client indicates, or not, and the state in which the server answers. -/
def indicateSize (p : Progress α) (indicated : Bool) (rsp : State) : Progress α :=
  if indicated then
    let sizeInOd := p.srv.odIo.stream.dataLength
    let p := { p with srv := { p.srv with sizeInd := p.rxSize } }
    if sizeInOd > 0 ∧ p.srv.sizeInd.toNat > sizeInOd then p.abort abDataLong
    else if sizeInOd > 0 ∧ p.srv.sizeInd.toNat < sizeInOd ∧
        p.srv.odIo.stream.attr &&& odaStr = 0 then
      p.abort abDataShort
    else { p with srv := { p.srv with state := rsp, finished := false } }
  else { p with srv := { p.srv with sizeInd := 0, state := rsp, finished := false } }

/-- The buffer is emptied when the transfer is finished or there may be no space for a segment. -/
def emptyBuffer (p : Progress α) : Option (Progress α) := do
  let space ← minus bufferSize p.srv.bufOffsetWr
  if p.srv.finished ∨ space < 7 + 2 then validateAndWriteToOD p 0 0 else some p

def downloadSegment (p : Progress α) : Option (Progress α) :=
  if p.rx 0 &&& 0xE0 = 0x00 then
    let p : Progress α := { p with srv := { p.srv with finished := p.rx 0 &&& 0x01 != 0 } }
    if p.rx 0 &&& 0x10 ≠ p.srv.toggle then some (p.abort abToggleBit)
    else do
      let count := 7 - ((p.rx 0 >>> 1) &&& 0x07).toNat
      let srv := p.srv
      let buf ← store srv.buf srv.bufOffsetWr ((srv.canRxData.toList.drop 1).take count)
      let srv := { srv with
        buf
        bufOffsetWr := srv.bufOffsetWr + count
        sizeTran := srv.sizeTran + UInt32.ofNat count }
      let p := { p with srv }
      let dataLength := srv.odIo.stream.dataLength
      if dataLength > 0 ∧ srv.sizeTran.toNat > dataLength then some (p.abort abDataLong)
      else do
        let p ← emptyBuffer p
        p.next fun p => some (p.setState .downloadSegmentRsp)
  else some (p.abort abCmd)

def uploadSegment (p : Progress α) : Progress α :=
  if p.rx 0 &&& 0xEF = 0x60 then
    if p.rx 0 &&& 0x10 ≠ p.srv.toggle then p.abort abToggleBit else p.setState .uploadSegmentRsp
  else p.abort abCmd

def downloadBlkInitiate (p : Progress α) : Progress α :=
  indicateSize { p with srv := { p.srv with blockCrcEnabled := p.rx 0 &&& 0x04 != 0 } }
    (p.rx 0 &&& 0x02 != 0) .downloadBlkInitiateRsp

def downloadBlkEnd (p : Progress α) : Option (Progress α) :=
  if p.rx 0 &&& 0xE3 = 0xC1 then
    let noData := (p.rx 0 >>> 2) &&& 0x07
    if p.srv.bufOffsetWr ≤ noData.toNat then some (p.abort abDeviceIncompat)
    else do
      let srv := { p.srv with
        sizeTran := p.srv.sizeTran - noData.toUInt32
        bufOffsetWr := p.srv.bufOffsetWr - noData.toNat }
      let crcClient : UInt16 :=
        if srv.blockCrcEnabled then ((p.rx 2).toUInt16 <<< 8) ||| (p.rx 1).toUInt16 else 0
      let p ← validateAndWriteToOD { p with srv } 2 crcClient
      p.next fun p => some (p.setState .downloadBlkEndRsp)
  else some (p.abort abCmd)

def validBlksize (blksize : UInt8) : Bool := 1 ≤ blksize ∧ blksize ≤ 127

/-- The checksum of what has been read in advance. -/
def startCrc (p : Progress α) : Option (Server α) :=
  if p.rx 0 &&& 0x04 ≠ 0 then do
    let block ← load p.srv.buf 0 p.srv.bufOffsetWr
    some { p.srv with blockCrcEnabled := true, blockCrc := crc16Ccitt block 0 }
  else some { p.srv with blockCrcEnabled := false }

def uploadBlkInitiate (p : Progress α) : Option (Progress α) :=
  if p.srv.sizeInd > 0 ∧ p.rx 5 > 0 ∧ (p.rx 5).toNat ≥ p.srv.sizeInd.toNat then
    some (p.setState .uploadInitiateRsp)
  else do
    let srv ← startCrc p
    let p := { p with srv := { srv with blockBlksize := p.rx 4 } }
    if ¬ validBlksize p.srv.blockBlksize then some (p.abort abBlockSize)
    else if p.srv.finished = false ∧ p.srv.bufOffsetWr < p.srv.blockBlksize.toNat * 7 then
      some (p.abort abDeviceIncompat)
    else some (p.setState .uploadBlkInitiateRsp)

/-- The segments that the client does not confirm are sent again. -/
def stepBack (srv : Server α) (ackseq : UInt8) : Option (Server α) :=
  if ackseq < srv.blockSeqno then do
    let cntFailed ← minus ((srv.blockSeqno - ackseq).toNat * 7) srv.blockNoData.toNat
    let bufOffsetRd ← minus srv.bufOffsetRd cntFailed
    some { srv with bufOffsetRd, sizeTran := srv.sizeTran - UInt32.ofNat cntFailed }
  else some srv

def uploadBlkSubblock (p : Progress α) : Option (Progress α) :=
  if p.rx 0 = 0xA2 then
    let p := { p with srv := { p.srv with blockBlksize := p.rx 2 } }
    if ¬ validBlksize p.srv.blockBlksize then some (p.abort abBlockSize)
    else if p.rx 1 > p.srv.blockSeqno then some (p.abort abCmd)
    else do
      let srv ← stepBack p.srv (p.rx 1)
      let p ← readFromOd { p with srv } (srv.blockBlksize.toNat * 7) true
      p.next fun p =>
        if p.srv.bufOffsetWr = p.srv.bufOffsetRd then some (p.setState .uploadBlkEndSreq)
        else some { p with srv := { p.srv with blockSeqno := 0, state := .uploadBlkSubblockSreq } }
  else some (p.abort abCmd)

/-- The switch over the states in which a message is expected. -/
def handleMessage (p : Progress α) : Option (Progress α) :=
  match p.srv.state with
  | .idle | .abort => some p
  | .downloadInitiateReq =>
      if p.rx 0 &&& 0x02 ≠ 0 then some (downloadExpedited p)
      else some (indicateSize p (p.rx 0 &&& 0x01 != 0) .downloadInitiateRsp)
  | .downloadSegmentReq => downloadSegment p
  | .uploadInitiateReq => some (p.setState .uploadInitiateRsp)
  | .uploadSegmentReq => some (uploadSegment p)
  | .downloadBlkInitiateReq => some (downloadBlkInitiate p)
  | .downloadBlkSubblockReq => some p
  | .downloadBlkEndReq => downloadBlkEnd p
  | .uploadBlkInitiateReq => uploadBlkInitiate p
  | .uploadBlkInitiateReq2 =>
      if p.rx 0 = 0xA3 then
        some { p with srv := { p.srv with blockSeqno := 0, state := .uploadBlkSubblockSreq } }
      else some (p.abort abCmd)
  | .uploadBlkSubblockSreq | .uploadBlkSubblockCrsp => uploadBlkSubblock p
  | _ => some (p.abort abCmd)

/-- A new message. -/
def received (od : Od α) (p : Progress α) : Option (Progress α) := do
  let p ← newCommunication od p
  let p ← handleMessage p
  some { p with srv := { p.srv with timeoutTimer := 0, canRxNew := false } }

/-! ## `CO_SDOserver_process` -/

/-- `ret` and the message that is sent, if there is one, with what has been done so far. -/
structure Pass (α : Type) where
  ret : Int
  p : Progress α
  sent : Option (Vector UInt8 8) := none

def Server.tick (srv : Server α) (timeDifferenceUs : UInt32) : Server α :=
  if srv.timeoutTimer < srv.sdoTimeoutTimeUs then
    { srv with timeoutTimer := srv.timeoutTimer + timeDifferenceUs }
  else srv

/-- The timer of the sub-block. -/
def Server.blockTick (srv : Server α) (timeDifferenceUs : UInt32) : Server α :=
  if srv.state = .downloadBlkSubblockReq then
    let srv :=
      if srv.blockTimeoutTimer < srv.blockSdoTimeoutTimeUs then
        { srv with blockTimeoutTimer := srv.blockTimeoutTimer + timeDifferenceUs }
      else srv
    if srv.blockTimeoutTimer ≥ srv.blockSdoTimeoutTimeUs then
      { srv with state := .downloadBlkSubblockRsp, canRxNew := false }
    else srv
  else srv

def checkTimeout (p : Progress α) : Progress α :=
  if p.srv.timeoutTimer ≥ p.srv.sdoTimeoutTimeUs then p.abort abTimeout else p

def timers (timeDifferenceUs : UInt32) (p : Progress α) : Progress α :=
  let p := checkTimeout { p with srv := p.srv.tick timeDifferenceUs }
  { p with srv := p.srv.blockTick timeDifferenceUs }

/-- A message with up to seven bytes behind the command. -/
def message (command : UInt8) (bytes : List UInt8) : Vector UInt8 8 :=
  Vector.ofFn fun i => (command :: bytes).getD i 0

/-- A message about the object. -/
def Server.objectMessage (srv : Server α) (command : UInt8) (bytes : List UInt8) :
    Vector UInt8 8 :=
  message command ([srv.index.toUInt8, (srv.index >>> 8).toUInt8, srv.subIndex] ++ bytes)

def otherToggle (toggle : UInt8) : UInt8 := if toggle = 0x00 then 0x10 else 0x00

/-- A message is sent and the communication goes on, or ends. -/
def Pass.send (q : Pass α) (data : Vector UInt8 8) (srv : Server α) : Pass α :=
  { q with sent := some data, p := { q.p with srv } }

def Pass.finish (q : Pass α) (data : Vector UInt8 8) (srv : Server α) : Pass α :=
  { q with
    ret := rtOkCommunicationEnd
    sent := some data
    p := { q.p with srv := { srv with state := .idle } } }

def Pass.fail (q : Pass α) (abortCode : UInt32) : Pass α := { q with p := q.p.abort abortCode }

def sendDownloadInitiate (q : Pass α) : Pass α :=
  let srv : Server α := { q.p.srv with timeoutTimer := 0 }
  let data := srv.objectMessage 0x60 []
  if srv.finished then q.finish data srv
  else
    q.send data { srv with
      toggle := 0x00
      sizeTran := 0
      bufOffsetWr := 0
      bufOffsetRd := 0
      state := .downloadSegmentReq }

def sendDownloadSegment (q : Pass α) : Pass α :=
  let data := message (0x20 ||| q.p.srv.toggle) []
  let srv : Server α := { q.p.srv with toggle := otherToggle q.p.srv.toggle, timeoutTimer := 0 }
  if srv.finished then q.finish data srv else q.send data { srv with state := .downloadSegmentReq }

def sendUploadInitiate (q : Pass α) : Option (Pass α) :=
  let srv := q.p.srv
  if srv.sizeInd > 0 ∧ srv.sizeInd ≤ 4 then do
    let bytes ← load srv.buf 0 srv.sizeInd.toNat
    some (q.finish (srv.objectMessage ((0x43 : UInt8) ||| ((4 - srv.sizeInd.toUInt8) <<< 2)) bytes) srv)
  else
    let data :=
      if srv.sizeInd > 0 then srv.objectMessage 0x41 (le32 srv.sizeInd.toNat)
      else srv.objectMessage 0x40 []
    some (q.send data { srv with toggle := 0x00, timeoutTimer := 0, state := .uploadSegmentReq })

/-- The next bytes of an upload, and whether they are the last ones. -/
def nextBytes (srv : Server α) : Option (Bool × List UInt8) := do
  let count ← minus srv.bufOffsetWr srv.bufOffsetRd
  let last : Bool := count < 7 ∨ srv.finished ∧ count = 7
  let bytes ← load srv.buf srv.bufOffsetRd (if last then count else 7)
  some (last, bytes)

def Server.took (srv : Server α) (count : Nat) : Server α :=
  { srv with
    bufOffsetRd := srv.bufOffsetRd + count
    sizeTran := srv.sizeTran + UInt32.ofNat count }

def sendUploadSegment (q : Pass α) : Option (Pass α) := do
  let p ← readFromOd q.p 7 false
  let q := { q with p }
  if p.abortCode ≠ abNone then some q
  else do
    let (last, bytes) ← nextBytes p.srv
    let command :=
      if last then p.srv.toggle ||| ((7 - UInt8.ofNat bytes.length) <<< 1) ||| 0x01 else p.srv.toggle
    let srv : Server α := { p.srv.took bytes.length with
      toggle := otherToggle p.srv.toggle
      timeoutTimer := if last then p.srv.timeoutTimer else 0 }
    let q := { q with p := { p with srv } }
    if srv.sizeInd > 0 ∧ srv.sizeTran > srv.sizeInd then
      -- Behind the last segment the abort waits for the next call, where its code is lost.
      some { q.fail abDataLong with ret := if last then rtOkCommunicationEnd else q.ret }
    else if srv.sizeInd > 0 ∧ last ∧ srv.sizeTran < srv.sizeInd then some (q.fail abDataShort)
    else
      let data := message command bytes
      if last then some (q.finish data srv)
      else some (q.send data { srv with state := .uploadSegmentReq })

def sendDownloadBlkInitiate (q : Pass α) : Pass α :=
  let blockBlksize := UInt8.ofNat (min ((bufferSize - 2) / 7) 127)
  let srv : Server α := { q.p.srv with
    blockBlksize
    sizeTran := 0
    finished := false
    bufOffsetWr := 0
    bufOffsetRd := 0
    blockSeqno := 0
    blockCrc := 0
    timeoutTimer := 0
    blockTimeoutTimer := 0
    state := .downloadBlkSubblockReq
    canRxNew := false }
  q.send (srv.objectMessage 0xA4 [blockBlksize]) srv

/-- The buffer is emptied if there is no space for a whole sub-block. -/
def subblockSpace (p : Progress α) : Option (Progress α × Nat) := do
  let space ← minus (bufferSize - 2) p.srv.bufOffsetWr
  if space / 7 ≥ 127 then some (p, 127)
  else if p.srv.bufOffsetWr > 0 then do
    let p ← validateAndWriteToOD p 1 0
    if p.abortCode ≠ abNone then some (p, 0)
    else do
      let space ← minus (bufferSize - 2) p.srv.bufOffsetWr
      some (p, min (space / 7) 127)
  else some (p, space / 7)

def sendDownloadBlkSubblock (q : Pass α) : Option (Pass α) :=
  let ackseq := q.p.srv.blockSeqno
  if q.p.srv.finished then
    let srv : Server α := { q.p.srv with blockTimeoutTimer := 0, state := .downloadBlkEndReq }
    some (q.send (message 0xA2 [ackseq, srv.blockBlksize]) srv)
  else do
    let (p, count) ← subblockSpace q.p
    if p.abortCode ≠ abNone then some { q with p }
    else
      let srv : Server α := { p.srv with
        blockBlksize := UInt8.ofNat count
        blockSeqno := 0
        blockTimeoutTimer := 0
        state := .downloadBlkSubblockReq
        canRxNew := false }
      some ({ q with p }.send (message 0xA2 [ackseq, srv.blockBlksize]) srv)

def sendUploadBlkInitiate (q : Pass α) : Pass α :=
  let srv : Server α := { q.p.srv with timeoutTimer := 0, state := .uploadBlkInitiateReq2 }
  if srv.sizeInd > 0 then q.send (srv.objectMessage 0xC6 (le32 srv.sizeInd.toNat)) srv
  else q.send (srv.objectMessage 0xC4 []) srv

def sendUploadBlkSubblock (q : Pass α) : Option (Pass α) := do
  let blockSeqno := q.p.srv.blockSeqno + 1
  let (last, bytes) ← nextBytes q.p.srv
  let srv : Server α := { q.p.srv.took bytes.length with
    blockSeqno
    blockNoData := 7 - UInt8.ofNat bytes.length }
  let q := { q with p := { q.p with srv } }
  if srv.sizeInd > 0 ∧ srv.sizeTran > srv.sizeInd then some (q.fail abDataLong)
  else if srv.sizeInd > 0 ∧ srv.bufOffsetWr = srv.bufOffsetRd ∧ srv.sizeTran < srv.sizeInd then
    some (q.fail abDataShort)
  else
    let data := message (if last then blockSeqno ||| 0x80 else blockSeqno) bytes
    let srv := { srv with timeoutTimer := 0 }
    if srv.bufOffsetWr = srv.bufOffsetRd ∨ srv.blockSeqno ≥ srv.blockBlksize then
      some (q.send data { srv with state := .uploadBlkSubblockCrsp })
    else some (q.send data srv)

def sendUploadBlkEnd (q : Pass α) : Pass α :=
  let srv : Server α := { q.p.srv with timeoutTimer := 0, state := .uploadBlkEndCrsp }
  q.send (message ((0xC1 : UInt8) ||| (srv.blockNoData <<< 2))
    [srv.blockCrc.toUInt8, (srv.blockCrc >>> 8).toUInt8]) srv

/-- The switch over the states in which a message is sent. -/
def transmit (q : Pass α) : Option (Pass α) :=
  match q.p.srv.state with
  | .downloadInitiateRsp => some (sendDownloadInitiate q)
  | .downloadSegmentRsp => some (sendDownloadSegment q)
  | .uploadInitiateRsp => sendUploadInitiate q
  | .uploadSegmentRsp => sendUploadSegment q
  | .downloadBlkInitiateRsp => some (sendDownloadBlkInitiate q)
  | .downloadBlkSubblockRsp => sendDownloadBlkSubblock q
  | .downloadBlkEndRsp => some (q.finish (message 0xA1 []) q.p.srv)
  | .uploadBlkInitiateRsp => some (sendUploadBlkInitiate q)
  | .uploadBlkSubblockSreq => sendUploadBlkSubblock q
  | .uploadBlkEndSreq => some (sendUploadBlkEnd q)
  | _ => some q

/-- The abort message, and the return codes of block transfers. -/
def conclude (q : Pass α) : Pass α :=
  if q.ret = rtWaitingResponse then
    match q.p.srv.state with
    | .abort =>
        { q with
          ret := rtEndedWithServerAbort
          sent := some (q.p.srv.objectMessage 0x80 (le32 q.p.abortCode.toNat))
          p := q.p.setState .idle }
    | .downloadBlkSubblockReq => { q with ret := rtBlockDownldInProgress }
    | .uploadBlkSubblockSreq => { q with ret := rtBlockUploadInProgress }
    | _ => q
  else q

/-- What follows the handling of a message. -/
def proceed (timeDifferenceUs : UInt32) (txBufferFull : Bool) (p : Progress α) :
    Option (Pass α) := do
  let p := timers timeDifferenceUs p
  if txBufferFull then some ⟨rtTransmittBufferFull, p, none⟩
  else do
    let q ← transmit ⟨rtWaitingResponse, p, none⟩
    some (conclude q)

def coSDOserverProcess (list : Od α) (srv : Server α) (od : OdState α)
    (nmtIsPreOrOperational : Bool) (timeDifferenceUs : UInt32) (txBufferFull : Bool) :
    Option (Pass α) :=
  let p : Progress α := ⟨abNone, srv, od⟩
  if srv.valid ∧ srv.state = .idle ∧ ¬ srv.canRxNew then some ⟨rtOkCommunicationEnd, p, none⟩
  else if ¬ nmtIsPreOrOperational ∨ ¬ srv.valid then
    let srv : Server α := { srv with state := .idle, canRxNew := false }
    some ⟨rtOkCommunicationEnd, { p with srv }, none⟩
  else if srv.canRxNew then do
    let p ← received list p
    proceed 0 txBufferFull p
  else proceed timeDifferenceUs txBufferFull p

end ShGateway.SdoServer
