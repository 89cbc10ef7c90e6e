import ShGateway.TftpServer

/-!
The server on port 69 with all the sessions it has opened, inside the firmware
it is linked into.
-/

namespace ShGateway.TftpSessions

open ShGateway.TftpServer
open ShGateway.TftpUtils

variable {σ : Type*}

/-- What `tftp_server.c` takes from a firmware: the functions behind `tftp_cb`,
and `tftp_server_check_file`. -/
structure Firmware (σ : Type*) where
  cb : TftpCb σ
  checkFile : Bool → List UInt8 → σ → Int × σ

/-- A pcb opened for a request. -/
structure Connection where
  op : TftpOpcode
  fileName : List UInt8
  args : ConnectionArgs
  isOpen : Bool
  trace : List Effect

/-- The state behind the callbacks, and the connections in the order of their
requests. -/
structure Server (σ : Type*) where
  world : σ
  connections : List Connection

def Connection.session (c : Connection) (world : σ) : Session σ :=
  ⟨world, c.args, c.isOpen, c.trace⟩

def Connection.update (c : Connection) (s : Session σ) : Connection :=
  { c with args := s.args, isOpen := s.isOpen, trace := s.trace }

/-- The receive callback of a connection. -/
def Connection.handler (c : Connection) (cb : TftpCb σ) :
    Session σ → Datagram → Session σ :=
  match c.op with
  | .wrq => wrqRecvCallback cb
  | _ => rrqRecvCallback cb

/-- What a request finds: whether a pcb is bound for it, and what `mem_malloc`
returns. -/
structure Resources where
  pcb : Bool
  heap : Option ConnectionArgs

inductive Event
  | request (d : Datagram) (res : Resources)
  | datagram (k : Nat) (d : Datagram)

section Step

variable (fw : Firmware σ)

/-- The `switch` of `process_tftp_request`. -/
def requestSession (d : Datagram) (heap : Option ConnectionArgs) (world : σ) :
    Session σ :=
  match tftpDecodeOp d.payload with
  | .rrq => tftpProcessRead fw.cb (fw.checkFile false (tftpExtractFilename d.payload))
      heap d.source world
  | .wrq => tftpProcessWrite (fw.checkFile true (tftpExtractFilename d.payload))
      heap d.source world
  | _ => refuse world d.source tftpErrAccessViolation ⟨[], 0, 0⟩

def processTftpRequest (d : Datagram) (res : Resources) (srv : Server σ) : Server σ :=
  if res.pcb then
    let s := requestSession fw d res.heap srv.world
    { world := s.world
      connections := srv.connections ++
        [⟨tftpDecodeOp d.payload, tftpExtractFilename d.payload, s.args, s.isOpen,
          s.trace⟩] }
  else srv

/-- A datagram for the pcb of connection `k`. -/
def deliverTo (k : Nat) (d : Datagram) (srv : Server σ) : Server σ :=
  match srv.connections[k]? with
  | none => srv
  | some c =>
      let s := deliver (c.handler fw.cb) (c.session srv.world) d
      { world := s.world, connections := srv.connections.set k (c.update s) }

def serverStep (srv : Server σ) : Event → Server σ
  | .request d res => processTftpRequest fw d res srv
  | .datagram k d => deliverTo fw k d srv

def serverRun (world : σ) (evs : List Event) : Server σ :=
  evs.foldl (serverStep fw) ⟨world, []⟩

end Step

section Lemmas

variable {fw : Firmware σ} {srv : Server σ} {k : Nat} {c : Connection}

theorem deliverTo_none (h : srv.connections[k]? = none) (d : Datagram) :
    deliverTo fw k d srv = srv := by
  rw [deliverTo, h]

theorem deliverTo_open (h : srv.connections[k]? = some c) (hopen : c.isOpen = true)
    (d : Datagram) :
    deliverTo fw k d srv =
      { world := (c.handler fw.cb (c.session srv.world) d).world
        connections :=
          srv.connections.set k (c.update (c.handler fw.cb (c.session srv.world) d)) } := by
  have hdeliver : deliver (c.handler fw.cb) (c.session srv.world) d =
      c.handler fw.cb (c.session srv.world) d := deliver_open hopen d
  rw [deliverTo, h]
  simp only [hdeliver]

theorem deliverTo_closed (h : srv.connections[k]? = some c) (hclosed : ¬ c.isOpen = true)
    (d : Datagram) : deliverTo fw k d srv = srv := by
  have hdeliver : deliver (c.handler fw.cb) (c.session srv.world) d =
      c.session srv.world := deliver_closed hclosed d
  obtain ⟨hk, hget⟩ := List.getElem?_eq_some_iff.mp h
  have hsame : srv.connections.set k c = srv.connections := by
    rw [← hget]
    exact List.set_getElem_self hk
  rw [deliverTo, h]
  simp only [hdeliver]
  change (⟨srv.world, srv.connections.set k c⟩ : Server σ) = srv
  rw [hsame]

end Lemmas

theorem requestLen_lt : 19 < 65536 := by decide

/-- A request of 19 bytes: opcode, file name, and what is left of the mode. -/
def sampleRequest (op : UInt8) (fileName : String) : Datagram where
  source := ⟨0, 0⟩
  payload := fun i => ([0, op] ++ cString fileName ++ [0] ++ cString "octet").getD i 0
  len := 19
  totLen := 19
  len_le := Nat.le_refl 19
  totLen_lt := requestLen_lt

end ShGateway.TftpSessions
