import Mathlib

/-!
Datagrams and packets of the TFTP server: `tftp_utils.c` and the message
builders of `tftp_server.c`.
-/

namespace ShGateway.TftpUtils

/-- Remote address and port of a datagram. -/
structure Peer where
  addr : UInt32
  port : UInt16
deriving DecidableEq, Repr

/-- A received `pbuf` with its sender. Bytes of the payload past `len` are what
the pool buffer held before; `totLen` counts the whole chain. -/
structure Datagram where
  source : Peer
  payload : Nat → UInt8
  len : Nat
  totLen : Nat
  len_le : len ≤ totLen
  totLen_lt : totLen < 65536

inductive TftpOpcode
  | rrq
  | wrq
  | data
  | ack
  | error
  | other (value : UInt8)
deriving DecidableEq, Repr

def TftpOpcode.value : TftpOpcode → UInt8
  | rrq => 1
  | wrq => 2
  | data => 3
  | ack => 4
  | error => 5
  | other value => value

def tftpDataLenMax : Nat := 512
def tftpDataPktHdrLen : Nat := 4
def tftpDataPktLenMax : Nat := 516

def tftpErrNotdefined : Int := 0
def tftpErrFileNotFound : Int := 1
def tftpErrAccessViolation : Int := 2
def tftpErrIllegalop : Int := 4

def tftpDecodeOp (payload : Nat → UInt8) : TftpOpcode :=
  match payload 1 with
  | 1 => .rrq
  | 2 => .wrq
  | 3 => .data
  | 4 => .ack
  | 5 => .error
  | b => .other b

def tftpExtractBlock (payload : Nat → UInt8) : Nat :=
  256 * (payload 2).toNat + (payload 3).toNat

def tftpIsCorrectAck (payload : Nat → UInt8) (block : Nat) : Bool :=
  if tftpDecodeOp payload ≠ .ack then false
  else if block ≠ tftpExtractBlock payload then false
  else true

/-- The string from index `i` on, up to `fuel` bytes of it. -/
def stringAt (payload : Nat → UInt8) : Nat → Nat → List UInt8
  | 0, _ => []
  | fuel + 1, i =>
      if payload i = 0 then [] else payload i :: stringAt payload fuel (i + 1)

/-- `tftp_extract_filename`. What `strcpy` overwrites behind the buffer of 32
bytes is not modelled. -/
def tftpExtractFilename (payload : Nat → UInt8) : List UInt8 :=
  stringAt payload 65536 2

/-- The bytes of a datagram after the header of a DATA packet. -/
def Datagram.data (d : Datagram) : List UInt8 :=
  (List.range (d.len - tftpDataPktHdrLen)).map fun i => d.payload (tftpDataPktHdrLen + i)

/-- Opcode and 16-bit number at the head of every packet the server sends,
`tftp_set_opcode` with `tftp_set_block` or `tftp_set_errorcode`. -/
def packetHeader (op : TftpOpcode) (number : Nat) : List UInt8 :=
  [0, op.value, UInt8.ofNat (number / 256), UInt8.ofNat number]

def ackPacket (block : Nat) : List UInt8 := packetHeader .ack block

def dataPacket (block : Nat) (data : List UInt8) : List UInt8 :=
  packetHeader .data block ++ data

/-- The characters of a C string literal without its terminator. -/
def cString (s : String) : List UInt8 := s.toList.map fun c => UInt8.ofNat c.toNat

def tftpErrorcodeString : List String :=
  ["not defined", "file not found", "access violation", "disk full",
    "illegal operation", "unknown transfer id", "file already exists", "no such user"]

/-- `tftp_construct_error_message`; the code is compared as an unsigned number,
so that a negative one is unknown too. -/
def errorPacket (err : Int) : List UInt8 :=
  let s := if err < 0 then "unknown" else tftpErrorcodeString.getD err.toNat "unknown"
  packetHeader .error (err % 256).toNat ++ cString s ++ [0]

@[simp] theorem Datagram.data_length (d : Datagram) : d.data.length = d.len - 4 := by
  simp [data, tftpDataPktHdrLen]

theorem headerLen_lt : 4 < 65536 := by decide

theorem headerLen_le : 4 ≤ 4 := Nat.le_refl 4

theorem tftpExtractBlock_lt (payload : Nat → UInt8) :
    tftpExtractBlock payload < 65536 := by
  have hhi := (payload 2).toNat_lt
  have hlo := (payload 3).toNat_lt
  unfold tftpExtractBlock
  omega

end ShGateway.TftpUtils
