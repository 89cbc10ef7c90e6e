import ShGateway.Lib.Heap
import ShGateway.Lib.Runs

/-!
The TCP clients of `sock_cli.c` over the raw interface of lwIP. A step has no result if it passes
lwIP or follows a pointer that is null or that points to a pcb or a structure which is gone.
-/

namespace ShGateway.SockCli

open ShGateway.Lib ShGateway.Lib.Runs

/-! ## The interface of lwIP -/

/-- The argument of the callbacks and which of them are set. -/
structure Pcb where
  callbackArg : Option Nat := none
  connected : Bool := false
  recv : Bool := false
  sent : Bool := false
  poll : Bool := false

inductive EsState
  | notConnected
  | connected
  | closing
  | undefined
deriving DecidableEq, Repr

/-- `struct echoclient`, with the number of buffers in the chain `p_tx`. -/
structure Echoclient where
  state : EsState
  pcb : Nat
  pTx : Nat

structure Mem where
  pcbs : Heap Pcb := Heap.empty
  echoclients : Heap Echoclient := Heap.empty

/-- A pcb that is handed to lwIP has to be one that is still there. -/
def Mem.setPcb (m : Mem) (pcb : Option Nat) (f : Pcb → Pcb) : Option Mem :=
  (m.pcbs.modify pcb f).map fun pcbs => { m with pcbs := pcbs }

def tcpArg (m : Mem) (pcb es : Option Nat) : Option Mem :=
  m.setPcb pcb fun p => { p with callbackArg := es }

def tcpRecv (m : Mem) (pcb : Option Nat) (recv : Bool) : Option Mem :=
  m.setPcb pcb fun p => { p with recv := recv }

def tcpSent (m : Mem) (pcb : Option Nat) (sent : Bool) : Option Mem :=
  m.setPcb pcb fun p => { p with sent := sent }

def tcpPoll (m : Mem) (pcb : Option Nat) (poll : Bool) : Option Mem :=
  m.setPcb pcb fun p => { p with poll := poll }

def tcpConnect (m : Mem) (pcb : Option Nat) : Option Mem :=
  m.setPcb pcb fun p => { p with connected := true }

/-- `tcp_recved`, `tcp_sndbuf` and `tcp_write` do not change the callbacks. -/
def tcpUse (m : Mem) (pcb : Option Nat) : Option Mem := m.setPcb pcb id

/-- `tcp_close` keeps the pcb to itself even if there is no memory for the last segment. -/
def tcpClose (m : Mem) (pcb : Option Nat) : Option Mem :=
  (m.pcbs.free pcb).map fun pcbs => { m with pcbs := pcbs }

def tcpAbort (m : Mem) (pcb : Option Nat) : Option Mem := tcpClose m pcb

def memFree (m : Mem) (es : Option Nat) : Option Mem :=
  (m.echoclients.free es).map fun echoclients => { m with echoclients := echoclients }

def Mem.setEs (m : Mem) (es : Option Nat) (f : Echoclient → Echoclient) : Option Mem :=
  (m.echoclients.modify es f).map fun echoclients => { m with echoclients := echoclients }

/-! ## The callbacks -/

def tcpEchoclientConnectionClose (m : Mem) (tpcb es : Option Nat) : Option Mem := do
  let m ← tcpRecv m tpcb false
  let m ← tcpSent m tpcb false
  let m ← tcpPoll m tpcb false
  let m ← if es ≠ none then memFree m es else some m
  tcpClose m tpcb

/-- `tcp_write` takes the first `written` of the pending buffers. -/
def tcpEchoclientSend (m : Mem) (tpcb es : Option Nat) (written : Nat) : Option Mem := do
  let e ← m.echoclients.deref es
  if e.pTx ≠ 0 then
    let m ← tcpUse m tpcb
    m.setEs es fun e => { e with pTx := e.pTx - written }
  else some m

/-- The callbacks are set and the new chain is sent. -/
def tcpEchoclientAttach (m : Mem) (tpcb es : Option Nat) (written : Nat) : Option Mem := do
  let m ← tcpArg m tpcb es
  let m ← tcpRecv m tpcb true
  let m ← tcpSent m tpcb true
  let m ← tcpPoll m tpcb true
  tcpEchoclientSend m tpcb es written

def tcpEchoclientSent (m : Mem) (arg tpcb : Option Nat) (written : Nat) : Option Mem := do
  let e ← m.echoclients.deref arg
  if e.pTx ≠ 0 then tcpEchoclientSend m tpcb arg written else some m

/-- What `tcp_echoclient_recv` is called with: nothing once the server has closed its side, else a
segment, perhaps with an error. -/
inductive Segment
  | fin
  | error
  | data
deriving DecidableEq, Repr

/-- `pbuf` is the chain of `pbuf_alloc`, empty if the pool is. -/
def tcpEchoclientRecv (m : Mem) (arg tpcb : Option Nat) (p : Segment) (pbuf written : Nat) :
    Option Mem :=
  match p with
  | .fin => do
      let e ← m.echoclients.deref arg
      let m ← m.setEs arg fun e => { e with state := .closing }
      if e.pTx = 0 then tcpEchoclientConnectionClose m tpcb arg
      else tcpEchoclientSend m tpcb arg written
  | .error => some m
  | .data => do
      let e ← m.echoclients.deref arg
      let m ← tcpUse m tpcb
      if e.state = .connected then
        let m ← m.setEs arg fun e => { e with pTx := pbuf }
        if pbuf ≠ 0 then tcpEchoclientAttach m tpcb arg written else some m
      else some m

def tcpEchoclientPoll (m : Mem) (arg tpcb : Option Nat) (written : Nat) : Option Mem :=
  if arg ≠ none then do
    let e ← m.echoclients.deref arg
    if e.pTx ≠ 0 then tcpEchoclientSend m tpcb arg written
    else if e.state = .closing then tcpEchoclientConnectionClose m tpcb arg
    else some m
  else tcpAbort m tpcb

/-- `mem` tells whether there was memory for the structure. -/
def tcpEchoclientConnected (m : Mem) (tpcb : Nat) (ok mem : Bool) (pbuf written : Nat) :
    Option Mem :=
  if ok then
    if mem then
      let es := m.echoclients.next
      let m := { m with echoclients := m.echoclients.alloc ⟨.connected, tpcb, pbuf⟩ }
      if pbuf ≠ 0 then tcpEchoclientAttach m (some tpcb) (some es) written else some m
    else tcpEchoclientConnectionClose m (some tpcb) none
  else tcpEchoclientConnectionClose m (some tpcb) none

/-! ## The clients -/

def sockCliToMs : UInt32 := 5000

/-- `sock_cli_t` without the address. -/
structure Client where
  inst : Option Nat := none
  timeoutCnt : UInt32 := 0

structure State where
  mem : Mem := {}
  clients : Nat → Client := fun _ => {}

/-- `tcp_new` and the `tcp_connect` after it, for a client whose counter is 0 then. -/
def tcpNewConnect (m : Mem) (alloc : Bool) : Option (Mem × Client) :=
  if alloc then do
    let inst := some m.pcbs.next
    let m ← tcpConnect { m with pcbs := m.pcbs.alloc {} } inst
    some (m, ⟨inst, 0⟩)
  else some (m, ⟨none, 0⟩)

/-- `memp_free` does nothing with the null pointer it gets where there was no pcb. -/
def sockCliInit (m : Mem) (alloc : Bool) : Option (Mem × Client) := tcpNewConnect m alloc

def sockCliGetState (m : Mem) (c : Client) : Option EsState := do
  let pcb ← m.pcbs.deref c.inst
  if pcb.callbackArg ≠ none then
    let es ← m.echoclients.deref pcb.callbackArg
    some es.state
  else some .undefined

def sockCliPoll (m : Mem) (c : Client) (diffMs : UInt32) (alloc : Bool) :
    Option (Mem × Client) := do
  let nc ←
    if c.inst ≠ none then do
      let state ← sockCliGetState m c
      some (decide (state ≠ .connected))
    else some true
  if nc then
    if c.timeoutCnt ≥ sockCliToMs then
      let m ← tcpEchoclientConnectionClose m c.inst none
      tcpNewConnect m alloc
    else some (m, { c with timeoutCnt := c.timeoutCnt + diffMs })
  else some (m, c)

/-! ## Runs -/

/-- The calls of the program for any of its clients and what lwIP does: it invokes callbacks, and it
ends a connection that is refused, reset, given up, or has no callback for the end of its data. -/
inductive Event
  | sockCliInit (c : Nat) (alloc : Bool)
  | sockCliPoll (c : Nat) (diffMs : UInt32) (alloc : Bool)
  | sockCliGetState (c : Nat)
  | connected (pcb : Nat) (ok mem : Bool) (pbuf written : Nat)
  | recv (pcb : Nat) (p : Segment) (pbuf written : Nat)
  | sent (pcb written : Nat)
  | poll (pcb written : Nat)
  | ended (pcb : Nat)

/-- A callback is only invoked while its pcb is there and it is set. -/
def callback (m : Mem) (pcb : Nat) (isSet : Pcb → Bool) (call : Pcb → Option Mem) : Option Mem :=
  match m.pcbs.cell pcb with
  | some p => if isSet p then call p else some m
  | none => some m

def State.setMem (s : State) (m : Option Mem) : Option State :=
  m.map fun m => { s with mem := m }

def State.setClient (s : State) (c : Nat) (r : Option (Mem × Client)) : Option State :=
  r.map fun r => ⟨r.1, Function.update s.clients c r.2⟩

def step (s : State) : Event → Option State
  | .sockCliInit c alloc => s.setClient c (sockCliInit s.mem alloc)
  | .sockCliPoll c diffMs alloc => s.setClient c (sockCliPoll s.mem (s.clients c) diffMs alloc)
  | .sockCliGetState c => (sockCliGetState s.mem (s.clients c)).map fun _ => s
  | .connected pcb ok mem pbuf written => s.setMem <|
      callback s.mem pcb (·.connected) fun _ => do
        let m ← s.mem.setPcb (some pcb) fun p => { p with connected := false }
        tcpEchoclientConnected m pcb ok mem pbuf written
  | .recv pcb p pbuf written => s.setMem <| callback s.mem pcb (·.recv) fun q =>
      tcpEchoclientRecv s.mem q.callbackArg (some pcb) p pbuf written
  | .sent pcb written => s.setMem <| callback s.mem pcb (·.sent) fun q =>
      tcpEchoclientSent s.mem q.callbackArg (some pcb) written
  | .poll pcb written => s.setMem <| callback s.mem pcb (·.poll) fun q =>
      tcpEchoclientPoll s.mem q.callbackArg (some pcb) written
  | .ended pcb => some { s with mem := { s.mem with pcbs := s.mem.pcbs.drop pcb } }

def Mem.Live (m : Mem) (pcb : Nat) : Prop := ∃ p, m.pcbs.cell pcb = some p

/-- A client that is polled has a pcb that is still there, or none and some time left, and one that
is asked for its state has a pcb that is still there. -/
def Alive (s : State) : Event → Prop
  | .sockCliPoll c _ _ =>
      (∃ i, (s.clients c).inst = some i ∧ s.mem.Live i) ∨
        (s.clients c).inst = none ∧ (s.clients c).timeoutCnt < sockCliToMs
  | .sockCliGetState c => ∃ i, (s.clients c).inst = some i ∧ s.mem.Live i
  | _ => True

/-! ## Who owns a structure -/

/-- The argument of the callbacks of a pcb is a structure of its own, and only pcbs with one have
callbacks that use it. -/
structure Owned (m : Mem) : Prop where
  allocated : ∀ i p e, m.pcbs.cell i = some p → p.callbackArg = some e →
    ∃ x, m.echoclients.cell e = some x
  unshared : ∀ i j p q e, m.pcbs.cell i = some p → m.pcbs.cell j = some q →
    p.callbackArg = some e → q.callbackArg = some e → i = j
  argued : ∀ i p, m.pcbs.cell i = some p → (p.recv || p.sent || p.poll) = true →
    ∃ e, p.callbackArg = some e

section

variable {m : Mem} {i e : Nat} {p : Pcb} {x : Echoclient} {written : Nat}

theorem owned_init : Owned {} where
  allocated := nofun
  unshared := nofun
  argued := nofun

theorem owned_drop (hm : Owned m) (i : Nat) : Owned { m with pcbs := m.pcbs.drop i } := by
  have hcell : ∀ j p, (m.pcbs.drop i).cell j = some p → m.pcbs.cell j = some p := by
    intro j p hp
    rcases eq_or_ne j i with rfl | hne
    · rw [Heap.drop_self] at hp
      cases hp
    · rwa [Heap.drop_of_ne hne] at hp
  refine ⟨fun j p e hp => hm.allocated j p e (hcell j p hp), ?_,
    fun j p hp => hm.argued j p (hcell j p hp)⟩
  intro j k p q e hp hq
  exact hm.unshared j k p q e (hcell j p hp) (hcell k q hq)

theorem owned_close (hm : Owned m) (hp : m.pcbs.cell i = some p) (he : p.callbackArg = some e) :
    Owned ⟨m.pcbs.drop i, m.echoclients.drop e⟩ := by
  have hdrop := owned_drop hm i
  refine ⟨?_, hdrop.unshared, hdrop.argued⟩
  intro j q e' hq he'
  obtain ⟨x, hx⟩ := hdrop.allocated j q e' hq he'
  have hne : e' ≠ e := by
    rintro rfl
    rcases eq_or_ne j i with rfl | hne
    · rw [Heap.drop_self] at hq
      cases hq
    · rw [Heap.drop_of_ne hne] at hq
      exact hne (hm.unshared j i q p e' hq hp he' he)
  exact ⟨x, by rwa [Heap.drop_of_ne hne]⟩

theorem owned_setEs (hm : Owned m) (e : Nat) (f : Echoclient → Echoclient) :
    Owned { m with echoclients := m.echoclients.put e f } := by
  refine ⟨?_, hm.unshared, hm.argued⟩
  intro j p e' hp he'
  obtain ⟨x, hx⟩ := hm.allocated j p e' hp he'
  rcases eq_or_ne e' e with rfl | hne
  · exact ⟨f x, Heap.put_self hx⟩
  · exact ⟨x, by rwa [Heap.put_of_ne hne]⟩

theorem owned_allocEs (hm : Owned m) (x : Echoclient) :
    Owned { m with echoclients := m.echoclients.alloc x } := by
  refine ⟨?_, hm.unshared, hm.argued⟩
  intro j p e hp he
  obtain ⟨y, hy⟩ := hm.allocated j p e hp he
  exact ⟨y, by rwa [Heap.alloc_of_ne (Heap.lt_next hy).ne]⟩

theorem owned_allocPcb (hm : Owned m) : Owned { m with pcbs := m.pcbs.alloc {} } := by
  have hcell : ∀ j p e, (m.pcbs.alloc {}).cell j = some p → p.callbackArg = some e →
      m.pcbs.cell j = some p := by
    intro j p e hp he
    rcases eq_or_ne j m.pcbs.next with rfl | hne
    · rw [Heap.alloc_next] at hp
      obtain rfl := Option.some.inj hp
      cases he
    · rwa [Heap.alloc_of_ne hne] at hp
  refine ⟨fun j p e hp he => hm.allocated j p e (hcell j p e hp he) he, ?_, ?_⟩
  · intro j k p q e hp hq hpe hqe
    exact hm.unshared j k p q e (hcell j p e hp hpe) (hcell k q e hq hqe) hpe hqe
  · intro j p hp hset
    rcases eq_or_ne j m.pcbs.next with rfl | hne
    · rw [Heap.alloc_next] at hp
      obtain rfl := Option.some.inj hp
      cases hset
    · rw [Heap.alloc_of_ne hne] at hp
      exact hm.argued j p hp hset

theorem owned_setArg (hm : Owned m) (hp : m.pcbs.cell i = some p)
    (hx : m.echoclients.cell e = some x)
    (hown : ∀ j q, m.pcbs.cell j = some q → q.callbackArg = some e → j = i) {f : Pcb → Pcb}
    (hf : (f p).callbackArg = some e) : Owned { m with pcbs := m.pcbs.put i f } := by
  have hself := Heap.put_self (f := f) hp
  refine ⟨?_, ?_, ?_⟩
  · intro j q e' hq he'
    rcases eq_or_ne j i with rfl | hne
    · obtain rfl := Option.some.inj (hself.symm.trans hq)
      obtain rfl := Option.some.inj (hf.symm.trans he')
      exact ⟨x, hx⟩
    · exact hm.allocated j q e' ((Heap.put_of_ne hne).symm.trans hq) he'
  · intro j k q r e' hq hr hqe hre
    rcases eq_or_ne j i with rfl | hj
    · obtain rfl := Option.some.inj (hself.symm.trans hq)
      obtain rfl := Option.some.inj (hf.symm.trans hqe)
      by_contra hk
      exact hk (hown k r ((Heap.put_of_ne (Ne.symm hk)).symm.trans hr) hre).symm
    · have hq' := (Heap.put_of_ne hj).symm.trans hq
      rcases eq_or_ne k i with rfl | hk
      · obtain rfl := Option.some.inj (hself.symm.trans hr)
        obtain rfl := Option.some.inj (hf.symm.trans hre)
        exact hown j q hq' hqe
      · exact hm.unshared j k q r e' hq' ((Heap.put_of_ne hk).symm.trans hr) hqe hre
  · intro j q hq hset
    rcases eq_or_ne j i with rfl | hne
    · obtain rfl := Option.some.inj (hself.symm.trans hq)
      exact ⟨e, hf⟩
    · exact hm.argued j q ((Heap.put_of_ne hne).symm.trans hq) hset

theorem owned_setConnected (hm : Owned m) (i : Nat) (connected : Bool) :
    Owned { m with pcbs := m.pcbs.put i fun p => { p with connected := connected } } := by
  have hcell : ∀ j q, (m.pcbs.put i fun p => { p with connected := connected }).cell j = some q →
      ∃ p, m.pcbs.cell j = some p ∧ q.callbackArg = p.callbackArg ∧ q.recv = p.recv ∧
        q.sent = p.sent ∧ q.poll = p.poll := by
    intro j q hq
    rcases eq_or_ne j i with rfl | hne
    · cases hp : m.pcbs.cell j with
      | none => simp [Heap.put, hp] at hq
      | some p =>
          rw [Heap.put_self hp] at hq
          obtain rfl := Option.some.inj hq
          exact ⟨p, rfl, rfl, rfl, rfl, rfl⟩
    · rw [Heap.put_of_ne hne] at hq
      exact ⟨q, hq, rfl, rfl, rfl, rfl⟩
  refine ⟨?_, ?_, ?_⟩
  · intro j q e hq he
    obtain ⟨p, hp, harg, -⟩ := hcell j q hq
    exact hm.allocated j p e hp (harg ▸ he)
  · intro j k q r e hq hr hqe hre
    obtain ⟨p, hp, hparg, -⟩ := hcell j q hq
    obtain ⟨p', hp', hparg', -⟩ := hcell k r hr
    exact hm.unshared j k p p' e hp hp' (hparg ▸ hqe) (hparg' ▸ hre)
  · intro j q hq hset
    obtain ⟨p, hp, harg, hrecv, hsent, hpoll⟩ := hcell j q hq
    rw [hrecv, hsent, hpoll] at hset
    rw [harg]
    exact hm.argued j p hp hset

end

/-! ## The callbacks keep the structures owned -/

/-- A call has a result, and that is owned. -/
def Keeps (r : Option Mem) : Prop := ∃ m, r = some m ∧ Owned m

section

variable {m : Mem} {i e : Nat} {p : Pcb} {x : Echoclient} {written : Nat}

theorem setPcb_eq (hp : m.pcbs.cell i = some p) (f : Pcb → Pcb) :
    m.setPcb (some i) f = some { m with pcbs := m.pcbs.put i f } := by
  rw [Mem.setPcb, Heap.modify_some (Option.isSome_of_eq_some hp), Option.map_some]

theorem setEs_eq (hx : m.echoclients.cell e = some x) (f : Echoclient → Echoclient) :
    m.setEs (some e) f = some { m with echoclients := m.echoclients.put e f } := by
  rw [Mem.setEs, Heap.modify_some (Option.isSome_of_eq_some hx), Option.map_some]

theorem tcpUse_eq (hp : m.pcbs.cell i = some p) : tcpUse m (some i) = some m := by
  rw [tcpUse, setPcb_eq hp, Heap.put_id]

theorem close_none (hp : m.pcbs.cell i = some p) :
    tcpEchoclientConnectionClose m (some i) none = some { m with pcbs := m.pcbs.drop i } := by
  simp [tcpEchoclientConnectionClose, tcpRecv, tcpSent, tcpPoll, tcpClose, Mem.setPcb, hp,
    Heap.drop_put]

theorem close_some (hp : m.pcbs.cell i = some p) (hx : m.echoclients.cell e = some x) :
    tcpEchoclientConnectionClose m (some i) (some e) =
      some ⟨m.pcbs.drop i, m.echoclients.drop e⟩ := by
  simp [tcpEchoclientConnectionClose, tcpRecv, tcpSent, tcpPoll, tcpClose, memFree, Mem.setPcb,
    hp, hx, Heap.drop_put]

theorem keeps_close (hm : Owned m) (hp : m.pcbs.cell i = some p) (he : p.callbackArg = some e)
    (hx : m.echoclients.cell e = some x) :
    Keeps (tcpEchoclientConnectionClose m (some i) (some e)) :=
  ⟨_, close_some hp hx, owned_close hm hp he⟩

theorem keeps_send (hm : Owned m) (hp : m.pcbs.cell i = some p)
    (hx : m.echoclients.cell e = some x) (written : Nat) :
    Keeps (tcpEchoclientSend m (some i) (some e) written) := by
  rw [tcpEchoclientSend, Heap.deref_some, hx]
  change Keeps (if x.pTx ≠ 0 then _ else _)
  split_ifs
  · rw [tcpUse_eq hp]
    exact ⟨_, setEs_eq hx _, owned_setEs hm e _⟩
  · exact ⟨m, rfl, hm⟩

theorem keeps_attach (hm : Owned m) (hp : m.pcbs.cell i = some p)
    (hx : m.echoclients.cell e = some x)
    (hown : ∀ j q, m.pcbs.cell j = some q → q.callbackArg = some e → j = i) (written : Nat) :
    Keeps (tcpEchoclientAttach m (some i) (some e) written) := by
  have hattach : tcpEchoclientAttach m (some i) (some e) written =
      tcpEchoclientSend
        { m with pcbs := m.pcbs.put i fun p => ⟨some e, p.connected, true, true, true⟩ }
        (some i) (some e) written := by
    simp [tcpEchoclientAttach, tcpArg, tcpRecv, tcpSent, tcpPoll, Mem.setPcb, hp, Heap.put_put,
      Function.comp_def]
  rw [hattach]
  exact keeps_send (owned_setArg hm hp hx hown rfl) (Heap.put_self hp) hx written

theorem keeps_sent (hm : Owned m) (hp : m.pcbs.cell i = some p)
    (hx : m.echoclients.cell e = some x) (written : Nat) :
    Keeps (tcpEchoclientSent m (some e) (some i) written) := by
  rw [tcpEchoclientSent, Heap.deref_some, hx]
  change Keeps (if x.pTx ≠ 0 then _ else _)
  split_ifs
  · exact keeps_send hm hp hx written
  · exact ⟨m, rfl, hm⟩

theorem keeps_recv (hm : Owned m) (hp : m.pcbs.cell i = some p) (he : p.callbackArg = some e)
    (hx : m.echoclients.cell e = some x) (s : Segment) (pbuf written : Nat) :
    Keeps (tcpEchoclientRecv m (some e) (some i) s pbuf written) := by
  cases s with
  | fin =>
      have hm' := owned_setEs hm e fun e => { e with state := .closing }
      have hx' := Heap.put_self (f := fun e : Echoclient => { e with state := .closing }) hx
      rw [tcpEchoclientRecv, Heap.deref_some, hx, setEs_eq hx]
      change Keeps (if x.pTx = 0 then _ else _)
      split_ifs
      · exact keeps_close hm' hp he hx'
      · exact keeps_send hm' hp hx' written
  | error => exact ⟨m, rfl, hm⟩
  | data =>
      have hm' := owned_setEs hm e fun e => { e with pTx := pbuf }
      have hx' := Heap.put_self (f := fun e : Echoclient => { e with pTx := pbuf }) hx
      rw [tcpEchoclientRecv, Heap.deref_some, hx, tcpUse_eq hp]
      change Keeps (if x.state = .connected then _ else _)
      split_ifs
      · rw [setEs_eq hx]
        refine keeps_attach hm' hp hx' ?_ written
        intro j q hq hqe
        exact hm.unshared j i q p e hq hp hqe he
      · rw [setEs_eq hx]
        exact ⟨_, rfl, hm'⟩
      · exact ⟨m, rfl, hm⟩

theorem keeps_poll (hm : Owned m) (hp : m.pcbs.cell i = some p) (he : p.callbackArg = some e)
    (hx : m.echoclients.cell e = some x) (written : Nat) :
    Keeps (tcpEchoclientPoll m (some e) (some i) written) := by
  rw [tcpEchoclientPoll, if_pos (Option.some_ne_none e), Heap.deref_some, hx]
  change Keeps (if x.pTx ≠ 0 then _ else if x.state = .closing then _ else _)
  split_ifs
  · exact keeps_send hm hp hx written
  · exact keeps_close hm hp he hx
  · exact ⟨m, rfl, hm⟩

theorem keeps_connected (hm : Owned m) (hp : m.pcbs.cell i = some p) (ok mem : Bool)
    (pbuf written : Nat) : Keeps (tcpEchoclientConnected m i ok mem pbuf written) := by
  have hclose : Keeps (tcpEchoclientConnectionClose m (some i) none) :=
    ⟨_, close_none hp, owned_drop hm i⟩
  rw [tcpEchoclientConnected]
  split_ifs with hok hmem hpbuf
  · refine keeps_attach (owned_allocEs hm ⟨.connected, i, pbuf⟩) hp Heap.alloc_next ?_ written
    -- the new structure is not the argument of any pcb yet
    intro j q hq he
    obtain ⟨y, hy⟩ := hm.allocated j q _ hq he
    exact absurd (Heap.lt_next hy) (lt_irrefl _)
  · exact ⟨_, rfl, owned_allocEs hm _⟩
  · exact hclose
  · exact hclose

theorem keeps_callback (hm : Owned m) {isSet : Pcb → Bool} {call : Pcb → Option Mem}
    (hset : ∀ p, isSet p = true → (p.recv || p.sent || p.poll) = true)
    (hcall : ∀ p e x, m.pcbs.cell i = some p → p.callbackArg = some e →
      m.echoclients.cell e = some x → Keeps (call p)) :
    Keeps (callback m i isSet call) := by
  rw [callback]
  cases hp : m.pcbs.cell i with
  | none => exact ⟨m, rfl, hm⟩
  | some p =>
      change Keeps (if isSet p = true then _ else _)
      split_ifs with h
      · obtain ⟨e, he⟩ := hm.argued i p hp (hset p h)
        obtain ⟨x, hx⟩ := hm.allocated i p e hp he
        exact hcall p e x hp he hx
      · exact ⟨m, rfl, hm⟩

end

/-! ## The clients -/

section

variable {s : State} {m : Mem} {c : Client} {i : Nat}

theorem getState_live (hm : Owned m) (hinst : c.inst = some i) (hlive : m.Live i) :
    ∃ state, sockCliGetState m c = some state := by
  obtain ⟨p, hp⟩ := hlive
  rw [sockCliGetState, hinst, Heap.deref_some, hp]
  change ∃ state, (if p.callbackArg ≠ none then _ else _) = some state
  split_ifs with harg
  · obtain ⟨e, he⟩ := Option.ne_none_iff_exists'.mp harg
    obtain ⟨x, hx⟩ := hm.allocated i p e hp he
    rw [he, Heap.deref_some, hx]
    exact ⟨x.state, rfl⟩
  · exact ⟨_, rfl⟩

theorem getState_dead (hdead : ¬ ∃ i, c.inst = some i ∧ m.Live i) :
    sockCliGetState m c = none := by
  rw [sockCliGetState]
  cases hinst : c.inst with
  | none => rfl
  | some i =>
      have hi : m.pcbs.cell i = none := by
        by_contra hne
        exact hdead ⟨i, hinst, Option.ne_none_iff_exists'.mp hne⟩
      rw [Heap.deref_some, hi]
      rfl

theorem newConnect_owned (hm : Owned m) (alloc : Bool) :
    ∃ r, tcpNewConnect m alloc = some r ∧ Owned r.1 := by
  rw [tcpNewConnect]
  split_ifs
  · have hm' := owned_allocPcb hm
    have hconnect : tcpConnect { m with pcbs := m.pcbs.alloc {} } (some m.pcbs.next) = some _ :=
      setPcb_eq Heap.alloc_next _
    change ∃ r, (tcpConnect _ (some m.pcbs.next)).bind _ = some r ∧ _
    rw [hconnect]
    exact ⟨_, rfl, owned_setConnected hm' _ true⟩
  · exact ⟨_, rfl, hm⟩

theorem poll_live (hm : Owned m) (hinst : c.inst = some i) (hlive : m.Live i) (diffMs : UInt32)
    (alloc : Bool) : ∃ r, sockCliPoll m c diffMs alloc = some r ∧ Owned r.1 := by
  obtain ⟨state, hstate⟩ := getState_live hm hinst hlive
  obtain ⟨p, hp⟩ := hlive
  rw [sockCliPoll, if_pos (by rw [hinst]; exact Option.some_ne_none i), hstate, hinst,
    close_none hp]
  change ∃ r, (if decide (state ≠ .connected) = true then
    (if c.timeoutCnt ≥ sockCliToMs then _ else _) else _) = some r ∧ _
  split_ifs
  · exact newConnect_owned (owned_drop hm i) alloc
  · exact ⟨_, rfl, hm⟩
  · exact ⟨_, rfl, hm⟩

theorem poll_none (hm : Owned m) (hinst : c.inst = none) (diffMs : UInt32) (alloc : Bool) :
    (c.timeoutCnt < sockCliToMs → ∃ r, sockCliPoll m c diffMs alloc = some r ∧ Owned r.1) ∧
      (¬ c.timeoutCnt < sockCliToMs → sockCliPoll m c diffMs alloc = none) := by
  rw [sockCliPoll, if_neg (by rw [hinst]; exact not_not.mpr rfl), hinst]
  constructor
  · intro hlt
    change ∃ r, (if c.timeoutCnt ≥ sockCliToMs then _ else _) = some r ∧ _
    rw [if_neg (UInt32.not_le.mpr hlt)]
    exact ⟨_, rfl, hm⟩
  · intro hge
    change (if c.timeoutCnt ≥ sockCliToMs then _ else _) = none
    rw [if_pos (UInt32.not_lt.mp hge)]
    rfl

theorem poll_dead (hinst : c.inst = some i) (hdead : ¬ m.Live i) (diffMs : UInt32)
    (alloc : Bool) : sockCliPoll m c diffMs alloc = none := by
  have hstate : sockCliGetState m c = none := by
    refine getState_dead ?_
    rintro ⟨j, hj, hlive⟩
    obtain rfl := Option.some.inj (hinst.symm.trans hj)
    exact hdead hlive
  rw [sockCliPoll, if_pos (by rw [hinst]; exact Option.some_ne_none i), hstate]
  rfl

theorem setMem_owned {r : Option Mem} (hr : Keeps r) :
    ∃ s', s.setMem r = some s' ∧ Owned s'.mem := by
  obtain ⟨m, rfl, hm⟩ := hr
  exact ⟨_, rfl, hm⟩

theorem setClient_owned {r : Option (Mem × Client)} {n : Nat} (hr : ∃ x, r = some x ∧ Owned x.1) :
    ∃ s', s.setClient n r = some s' ∧ Owned s'.mem := by
  obtain ⟨x, rfl, hx⟩ := hr
  exact ⟨_, rfl, hx⟩

end

/-! ## Runs -/

/-- The callbacks never fail, and neither does a call for a client whose pcb is there. -/
theorem step_alive {s : State} {e : Event} (hs : Owned s.mem) (he : Alive s e) :
    ∃ s', step s e = some s' ∧ Owned s'.mem := by
  cases e with
  | sockCliInit c alloc => exact setClient_owned (newConnect_owned hs alloc)
  | sockCliPoll c diffMs alloc =>
      rcases he with ⟨i, hinst, hlive⟩ | ⟨hinst, hlt⟩
      · exact setClient_owned (poll_live hs hinst hlive diffMs alloc)
      · exact setClient_owned ((poll_none hs hinst diffMs alloc).1 hlt)
  | sockCliGetState c =>
      obtain ⟨i, hinst, hlive⟩ := he
      obtain ⟨state, hstate⟩ := getState_live hs hinst hlive
      rw [step, hstate]
      exact ⟨s, rfl, hs⟩
  | connected pcb ok mem pbuf written =>
      refine setMem_owned ?_
      rw [callback]
      cases hp : s.mem.pcbs.cell pcb with
      | none => exact ⟨_, rfl, hs⟩
      | some p =>
          change Keeps (if p.connected = true then _ else _)
          split_ifs
          · rw [setPcb_eq hp]
            exact keeps_connected (owned_setConnected hs pcb false) (Heap.put_self hp) ok mem pbuf
              written
          · exact ⟨_, rfl, hs⟩
  | recv pcb p pbuf written =>
      refine setMem_owned (keeps_callback hs ?_ ?_)
      · intro q hq
        simp [hq]
      · intro q e x hq he hx
        rw [he]
        exact keeps_recv hs hq he hx p pbuf written
  | sent pcb written =>
      refine setMem_owned (keeps_callback hs ?_ ?_)
      · intro q hq
        simp [hq]
      · intro q e x hq he hx
        rw [he]
        exact keeps_sent hs hq hx written
  | poll pcb written =>
      refine setMem_owned (keeps_callback hs ?_ ?_)
      · intro q hq
        simp [hq]
      · intro q e x hq he hx
        rw [he]
        exact keeps_poll hs hq he hx written
  | ended pcb => exact ⟨_, rfl, owned_drop hs pcb⟩

theorem step_dead {s : State} {e : Event} (hs : Owned s.mem) (he : ¬ Alive s e) :
    step s e = none := by
  cases e with
  | sockCliPoll c diffMs alloc =>
      obtain ⟨hdead, hlt⟩ := not_or.mp he
      have hpoll : sockCliPoll s.mem (s.clients c) diffMs alloc = none := by
        cases hinst : (s.clients c).inst with
        | none => exact (poll_none hs hinst diffMs alloc).2 fun h => hlt ⟨hinst, h⟩
        | some i => exact poll_dead hinst (fun h => hdead ⟨i, hinst, h⟩) diffMs alloc
      rw [step, hpoll]
      rfl
  | sockCliGetState c =>
      rw [step, getState_dead he]
      rfl
  | sockCliInit c alloc => exact absurd trivial he
  | connected pcb ok mem pbuf written => exact absurd trivial he
  | recv pcb p pbuf written => exact absurd trivial he
  | sent pcb written => exact absurd trivial he
  | poll pcb written => exact absurd trivial he
  | ended pcb => exact absurd trivial he

/-- A run uses no pcb and no structure that is gone exactly if each call for a client finds its pcb
there. -/
theorem safe_iff_alive (events : List Event) :
    (∃ s, events.foldlM step {} = some s) ↔ AtSteps step {} Alive events :=
  foldlM_isSome_iff_atSteps (fun s => Owned s.mem) owned_init
    (fun _ _ hs he => step_alive hs he) (fun _ _ hs he => step_dead hs he) events

/-- The server closes the connection after its first buffer has been sent, and the next poll asks
for the state of the pcb that was closed then. -/
theorem not_safe_remoteClose :
    ¬ ∃ s, [Event.sockCliInit 0 true, .connected 0 true true 1 1, .recv 0 .fin 0 0,
      .sockCliPoll 0 1 true].foldlM step {} = some s := by
  rintro ⟨s, hs⟩
  cases hs

end ShGateway.SockCli
