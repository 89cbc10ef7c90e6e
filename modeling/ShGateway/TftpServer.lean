import ShGateway.TftpUtils

/-!
The sessions of `tftp_server.c`. Every effect of a handler outside its local
variables is recorded in the order it happens; memory given back with
`mem_free` keeps its contents until it is allocated again.
-/

namespace ShGateway.TftpServer

open ShGateway.TftpUtils

/-- `tftp_cb_t` over the state `σ` behind the callbacks. `write` is given
`none` for a null pointer. `read` is given the contents of the buffer below
`*size_read` and returns them as they are after the call. -/
structure TftpCb (σ : Type*) where
  write : Nat → Option (List UInt8) → σ → Int × σ
  read : Nat → List UInt8 → σ → Int × List UInt8 × σ

/-- The part of `tftp_connection_args` that is read again: the first `data_len`
bytes of `data`, `block` and `tot_bytes`. -/
structure ConnectionArgs where
  data : List UInt8
  block : Nat
  totBytes : Nat
deriving DecidableEq, Repr

inductive Effect
  | write (addr : Nat) (data : Option (List UInt8)) (sts : Int)
  | read (addr : Nat) (sts : Int) (data : List UInt8)
  | send (dst : Peer) (packet : List UInt8)
  | useArgs
  | freeArgs
  | removePcb
  | freePbuf
deriving DecidableEq, Repr

/-- A session: the state behind the callbacks, the connection args, whether the
pcb is registered, and the effects so far. -/
structure Session (σ : Type*) where
  world : σ
  args : ConnectionArgs
  isOpen : Bool
  trace : List Effect

variable {σ : Type*}

def Session.emit (s : Session σ) (e : Effect) : Session σ :=
  { s with trace := s.trace ++ [e] }

/-- `tftp_cleanup_rd`, `tftp_cleanup_wr`. -/
def tftpCleanup (s : Session σ) : Session σ :=
  { (s.emit .freeArgs).emit .removePcb with isOpen := false }

/-! ## Writing -/

/-- A call of `tftp_cb.write`. -/
def callWrite (cb : TftpCb σ) (data : Option (List UInt8)) (s : Session σ) :
    Int × Session σ :=
  let (sts, world) := cb.write s.args.totBytes data s.world
  (sts, { s with world }.emit (.write s.args.totBytes data sts))

/-- The branch of `wrq_recv_callback` for the next block with data in it. -/
def writeBlock (cb : TftpCb σ) (d : Datagram) (s : Session σ) : Session σ :=
  let (sts, s) := callWrite cb (some d.data) s
  let s :=
    if sts ≠ 0 then tftpCleanup (s.emit (.send d.source (errorPacket (sts + 10))))
    else s
  { s with args := { s.args with
      block := s.args.block + 1
      totBytes := (s.args.totBytes + (d.len - tftpDataPktHdrLen)) % 2 ^ 32 } }.emit
    .useArgs

/-- The branch for the next block without data. -/
def skipBlock (s : Session σ) : Session σ :=
  { s with args := { s.args with block := s.args.block + 1 } }.emit .useArgs

/-- The first part of `wrq_recv_callback`: the block is handed to the callback
if its number is the next one. -/
def acceptBlock (cb : TftpCb σ) (d : Datagram) (s : Session σ) : Session σ :=
  if d.len > tftpDataPktHdrLen ∧ tftpExtractBlock d.payload = s.args.block + 1 then
    writeBlock cb d (s.emit .useArgs)
  else if tftpExtractBlock d.payload = s.args.block + 1 then skipBlock (s.emit .useArgs)
  else s.emit .useArgs

/-- The end of `wrq_recv_callback`: a short packet ends the transfer. -/
def finishBlock (cb : TftpCb σ) (d : Datagram) (s : Session σ) : Session σ :=
  if d.len < tftpDataPktLenMax then
    let (_, s) := callWrite cb none (s.emit .useArgs)
    (tftpCleanup s).emit .freePbuf
  else s.emit .freePbuf

def wrqRecvCallback (cb : TftpCb σ) (s : Session σ) (d : Datagram) : Session σ :=
  if d.len ≠ d.totLen then s
  else
    let s := (acceptBlock cb d s).emit .useArgs
    finishBlock cb d (s.emit (.send d.source (ackPacket s.args.block)))

/-! ## Reading -/

def tftpRdSendNextBlock (cb : TftpCb σ) (dst : Peer) (s : Session σ) : Session σ :=
  let (sts, data, world) := cb.read s.args.totBytes s.args.data s.world
  let s := ({ s with world, args := { s.args with data } }.emit .useArgs).emit
    (.read s.args.totBytes sts data)
  let s :=
    if sts ≠ 0 then tftpCleanup (s.emit (.send dst (errorPacket tftpErrIllegalop)))
    else s
  let s := { s with args := { s.args with
    totBytes := (s.args.totBytes + s.args.data.length) % 2 ^ 32 } }.emit .useArgs
  s.emit (.send dst (dataPacket s.args.block s.args.data))

def rrqRecvCallback (cb : TftpCb σ) (s : Session σ) (d : Datagram) : Session σ :=
  let s := s.emit .useArgs
  let s :=
    if tftpIsCorrectAck d.payload s.args.block then
      { s with args := { s.args with block := s.args.block + 1 } }.emit .useArgs
    else s
  let s := s.emit .useArgs
  let s :=
    if s.args.data.length < tftpDataLenMax then (tftpCleanup s).emit .freePbuf
    else s
  (tftpRdSendNextBlock cb d.source s).emit .freePbuf

/-! ## Requests -/

/-- A session that was refused: an error is sent and the pcb is removed. -/
def refuse (world : σ) (dst : Peer) (err : Int) (args : ConnectionArgs) : Session σ where
  world := world
  args := args
  isOpen := false
  trace := [.send dst (errorPacket err), .removePcb]

/-- `tftp_process_read` once the file is selected; `heap` is what `mem_malloc`
returns, with the contents of the allocated memory. -/
def openRead (cb : TftpCb σ) (heap : Option ConnectionArgs) (dst : Peer) (world : σ) :
    Session σ :=
  match heap with
  | none => refuse world dst tftpErrNotdefined ⟨[], 0, 0⟩
  | some args =>
      tftpRdSendNextBlock cb dst {
        world
        args := { args with block := 1, totBytes := 0 }
        isOpen := true
        trace := [.useArgs] }

/-- `tftp_process_read` for a file that `checkFile` stands for. -/
def tftpProcessRead (cb : TftpCb σ) (checkFile : σ → Int × σ)
    (heap : Option ConnectionArgs) (dst : Peer) (world : σ) : Session σ :=
  match checkFile world with
  | (0, world) => openRead cb heap dst world
  | (_, world) => refuse world dst tftpErrFileNotFound ⟨[], 0, 0⟩

/-- `tftp_process_write` once the file is selected. -/
def openWrite (heap : Option ConnectionArgs) (dst : Peer) (world : σ) : Session σ :=
  match heap with
  | none => refuse world dst tftpErrNotdefined ⟨[], 0, 0⟩
  | some args => {
      world
      args := { args with block := 0, totBytes := 0 }
      isOpen := true
      trace := [.useArgs, .send dst (ackPacket 0)] }

/-- `tftp_process_write` for a file that `checkFile` stands for. -/
def tftpProcessWrite (checkFile : σ → Int × σ) (heap : Option ConnectionArgs)
    (dst : Peer) (world : σ) : Session σ :=
  match checkFile world with
  | (0, world) => openWrite heap dst world
  | (_, world) => refuse world dst tftpErrNotdefined ⟨[], 0, 0⟩

/-! ## Runs -/

/-- A datagram reaches the handler while the pcb is registered. -/
def deliver (handler : Session σ → Datagram → Session σ) (s : Session σ)
    (d : Datagram) : Session σ :=
  if s.isOpen then handler s d else s

/-- The session after a sequence of datagrams. -/
def runWrite (cb : TftpCb σ) (s : Session σ) (ds : List Datagram) : Session σ :=
  ds.foldl (deliver (wrqRecvCallback cb)) s

def runRead (cb : TftpCb σ) (s : Session σ) (ds : List Datagram) : Session σ :=
  ds.foldl (deliver (rrqRecvCallback cb)) s

theorem deliver_open {handler : Session σ → Datagram → Session σ} {s : Session σ}
    (h : s.isOpen = true) (d : Datagram) : deliver handler s d = handler s d :=
  if_pos h

theorem deliver_closed {handler : Session σ → Datagram → Session σ} {s : Session σ}
    (h : ¬ s.isOpen = true) (d : Datagram) : deliver handler s d = s :=
  if_neg h

theorem runWrite_snoc (cb : TftpCb σ) (s : Session σ) (ds : List Datagram)
    (d : Datagram) :
    runWrite cb s (ds ++ [d]) = deliver (wrqRecvCallback cb) (runWrite cb s ds) d := by
  rw [runWrite, List.foldl_append]
  rfl

theorem runRead_snoc (cb : TftpCb σ) (s : Session σ) (ds : List Datagram)
    (d : Datagram) :
    runRead cb s (ds ++ [d]) = deliver (rrqRecvCallback cb) (runRead cb s ds) d := by
  rw [runRead, List.foldl_append]
  rfl

/-- The effects a handler adds to those of the session. -/
def effects (handler : Session σ → Datagram → Session σ) (s : Session σ)
    (d : Datagram) : List Effect :=
  (handler s d).trace.drop s.trace.length

end ShGateway.TftpServer
