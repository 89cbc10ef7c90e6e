import ShGateway.Lib.Runs

/-!
The command server of `sock_srv.c` with the callbacks of `app.c` that connect it to
the CANopen gateway.
-/

namespace ShGateway.SockSrv

open ShGateway.Lib.Runs

/-! ## Connections -/

inductive EsState
  | accepted
  | received
  | closing
deriving DecidableEq, Repr

/-- `struct tcp_echoserver_struct`. A pcb may be used again after its connection has
ended, so connections are told apart by a number. -/
structure Es where
  conn : Nat
  state : EsState
  p : List (List UInt8)

/-- The open connections with the pcb of each, the variable of `app.c`, and whose
commands the gateway has yet to answer, oldest first. -/
structure Server where
  pcbs : Nat → Option Es := fun _ => none
  lastGtwaPcb : Option Nat := none
  commands : List Nat := []
  accepted : Nat := 0
  lastSender : Option Nat := none

def Server.set (s : Server) (pcb : Nat) (es : Option Es) : Server :=
  { s with pcbs := Function.update s.pcbs pcb es }

/-- `tcp_write` takes the first `written` of the pending buffers. -/
def tcpEchoserverSend (es : Es) (written : Nat) : Es := { es with p := es.p.drop written }

def tcpEchoserverConnectionClose (s : Server) (pcb : Nat) : Server := s.set pcb none

/-- `tcp_echoserver_sent` and, for a connection that has its structure,
`tcp_echoserver_poll`. -/
def tcpEchoserverSent (s : Server) (pcb : Nat) (es : Es) (written : Nat) : Server :=
  if es.p ≠ [] then s.set pcb (some (tcpEchoserverSend es written))
  else if es.state = .closing then tcpEchoserverConnectionClose s pcb
  else s

/-- The segment ends the given number of commands. -/
def cbSrvSockRx (s : Server) (pcb : Nat) (es : Es) (commands : Nat) : Server :=
  { s with
    lastGtwaPcb := some pcb
    commands := s.commands ++ List.replicate commands es.conn
    lastSender := some es.conn }

/-- What `tcp_echoserver_recv` is called with: nothing once the client has closed its
side, else a segment, perhaps with an error. -/
inductive Segment
  | fin
  | error
  | data (commands : Nat)
deriving DecidableEq, Repr

def tcpEchoserverRecv (s : Server) (pcb : Nat) (es : Es) (p : Segment) (written : Nat) : Server :=
  match p with
  | .fin =>
      if es.p = [] then tcpEchoserverConnectionClose s pcb
      else s.set pcb (some (tcpEchoserverSend { es with state := .closing } written))
  | .error => s.set pcb (some { es with p := [] })
  | .data commands =>
      match es.state with
      | .accepted => cbSrvSockRx (s.set pcb (some { es with state := .received })) pcb es commands
      | .received => cbSrvSockRx s pcb es commands
      | .closing => s.set pcb (some { es with p := [] })

def tcpEchoserverAccept (s : Server) (newpcb : Nat) (mem : Bool) : Server :=
  let s := { s with accepted := s.accepted + 1 }
  if mem then s.set newpcb (some ⟨s.accepted - 1, .accepted, []⟩)
  else tcpEchoserverConnectionClose s newpcb

/-- `pool` tells whether a buffer could be had. The structure of a connection that
has ended is gone. -/
def sockSrvSend (s : Server) (pcb : Nat) (data : List UInt8) (pool : Bool) (written : Nat) :
    Server :=
  match s.pcbs pcb with
  | none => s
  | some es =>
      if pool = false then s
      else if es.p = [] then s.set pcb (some (tcpEchoserverSend { es with p := [data] } written))
      else s.set pcb (some { es with p := es.p ++ [data] })

/-- The pcbs passed to `sock_srv_send`, and the server after that. -/
def gtwaWriteResponse (s : Server) (b : List UInt8) (pool : Bool) (written : Nat) :
    List Nat × Server :=
  match s.lastGtwaPcb with
  | some pcb => ([pcb], sockSrvSend s pcb b pool written)
  | none => ([], s)

/-! ## Runs -/

/-- What lwIP and the gateway do. The gateway answers one command after the other,
each in any number of parts. -/
inductive Event
  | accept (newpcb : Nat) (mem : Bool)
  | recv (pcb : Nat) (p : Segment) (written : Nat)
  | sent (pcb written : Nat)
  | error (pcb : Nat)
  | respond (b : List UInt8) (done pool : Bool) (written : Nat)

/-- A new connection gets a pcb that is not in use, and callbacks are only invoked
for open connections. -/
def Server.step (s : Server) : Event → Option Server
  | .accept newpcb mem =>
      if (s.pcbs newpcb).isSome then none else some (tcpEchoserverAccept s newpcb mem)
  | .recv pcb p written => (s.pcbs pcb).map fun es => tcpEchoserverRecv s pcb es p written
  | .sent pcb written => (s.pcbs pcb).map fun es => tcpEchoserverSent s pcb es written
  | .error pcb => (s.pcbs pcb).map fun _ => s.set pcb none
  | .respond b done pool written =>
      match s.commands with
      | [] => none
      | c :: rest =>
          some { (gtwaWriteResponse s b pool written).2 with
            commands := if done then rest else c :: rest }

def Server.Open (s : Server) (conn pcb : Nat) : Prop := ∃ es, s.pcbs pcb = some es ∧ es.conn = conn

/-- Each part of an answer is passed on with the pcb of the connection that asked
while it is open, and not at all after that; no pcb passed on has been closed. -/
def AnswersAsker (s : Server) : Event → Prop
  | .respond b _ pool written => ∀ c, s.commands.head? = some c →
      (∀ pcb, s.Open c pcb → (gtwaWriteResponse s b pool written).1 = [pcb]) ∧
        ((∀ pcb, ¬ s.Open c pcb) → (gtwaWriteResponse s b pool written).1 = []) ∧
        ∀ pcb ∈ (gtwaWriteResponse s b pool written).1, (s.pcbs pcb).isSome
  | _ => True

/-- A part of an answer is only produced while the connection that asked is open and
no other client has sent anything since its last segment. -/
def AskerIsLast (s : Server) : Event → Prop
  | .respond .. => ∀ c, s.commands.head? = some c →
      s.lastSender = some c ∧ ∃ pcb, s.Open c pcb
  | _ => True

/-! ## What the variable stands for -/

/-- The last segment came through `last_gtwa_pcb`, as long as its sender is open;
another connection on that pcb has not asked for anything. -/
structure Tracked (s : Server) : Prop where
  conn_lt : ∀ pcb es, s.pcbs pcb = some es → es.conn < s.accepted
  conn_inj : ∀ c pcb pcb', s.Open c pcb → s.Open c pcb' → pcb = pcb'
  commands_lt : ∀ c ∈ s.commands, c < s.accepted
  sender_lt : ∀ c, s.lastSender = some c → c < s.accepted
  last_of_sender : ∀ c pcb, s.lastSender = some c → s.Open c pcb → s.lastGtwaPcb = some pcb
  sender_of_last : ∀ c pcb, s.lastGtwaPcb = some pcb → s.Open c pcb → c ∈ s.commands →
    s.lastSender = some c
  last_of_commands : s.commands ≠ [] → s.lastGtwaPcb ≠ none

section

variable {s s' : Server}

theorem tracked_init : Tracked {} where
  conn_lt := nofun
  conn_inj := by
    rintro c pcb pcb' ⟨es, hes, -⟩
    exact absurd hes (by simp)
  commands_lt := nofun
  sender_lt := nofun
  last_of_sender := nofun
  sender_of_last := nofun
  last_of_commands := fun h => absurd rfl h

theorem Tracked.of_open (h : Tracked s) (hopen : ∀ c pcb, s'.Open c pcb → s.Open c pcb)
    (hlast : s'.lastGtwaPcb = s.lastGtwaPcb) (hsender : s'.lastSender = s.lastSender)
    (hcommands : ∀ c ∈ s'.commands, c ∈ s.commands) (haccepted : s.accepted ≤ s'.accepted) :
    Tracked s' where
  conn_lt := by
    intro pcb es hes
    obtain ⟨es', hes', hconn⟩ := hopen es.conn pcb ⟨es, hes, rfl⟩
    exact hconn ▸ (h.conn_lt pcb es' hes').trans_le haccepted
  conn_inj := fun c pcb pcb' hpcb hpcb' => h.conn_inj c pcb pcb' (hopen c pcb hpcb)
    (hopen c pcb' hpcb')
  commands_lt := fun c hc => (h.commands_lt c (hcommands c hc)).trans_le haccepted
  sender_lt := fun c hc => (h.sender_lt c (hsender ▸ hc)).trans_le haccepted
  last_of_sender := by
    intro c pcb hc hpcb
    rw [hlast]
    exact h.last_of_sender c pcb (hsender ▸ hc) (hopen c pcb hpcb)
  sender_of_last := by
    intro c pcb hpcb hc hmem
    rw [hsender]
    exact h.sender_of_last c pcb (hlast ▸ hpcb) (hopen c pcb hc) (hcommands c hmem)
  last_of_commands := by
    intro hne
    obtain ⟨c, hc⟩ := List.exists_mem_of_ne_nil _ hne
    rw [hlast]
    exact h.last_of_commands (List.ne_nil_of_mem (hcommands c hc))

theorem open_set {pcb : Nat} {es es' : Es} (hes : s.pcbs pcb = some es)
    (hconn : es'.conn = es.conn) (c pcb' : Nat) :
    (s.set pcb (some es')).Open c pcb' ↔ s.Open c pcb' := by
  rcases eq_or_ne pcb' pcb with rfl | hne
  · simp [Server.Open, Server.set, hes, hconn]
  · simp [Server.Open, Server.set, hne]

theorem open_of_close {pcb c pcb' : Nat} (h : (s.set pcb none).Open c pcb') : s.Open c pcb' := by
  rcases eq_or_ne pcb' pcb with rfl | hne
  · simp [Server.Open, Server.set] at h
  · simpa [Server.Open, Server.set, hne] using h

theorem Tracked.set (h : Tracked s) {pcb : Nat} {es es' : Es} (hes : s.pcbs pcb = some es)
    (hconn : es'.conn = es.conn) : Tracked (s.set pcb (some es')) :=
  h.of_open (fun c pcb' => (open_set hes hconn c pcb').mp) rfl rfl (fun _ hc => hc)
    (Nat.le_refl _)

theorem Tracked.close (h : Tracked s) (pcb : Nat) : Tracked (s.set pcb none) :=
  h.of_open (fun _ _ => open_of_close) rfl rfl (fun _ hc => hc) (Nat.le_refl _)

theorem Tracked.accept (h : Tracked s) {newpcb : Nat} (hfree : s.pcbs newpcb = none) (mem : Bool) :
    Tracked (tcpEchoserverAccept s newpcb mem) := by
  rw [tcpEchoserverAccept]
  rcases mem with _ | _
  · exact h.of_open (fun _ _ hopen => open_of_close hopen) rfl rfl (fun _ hc => hc)
      (Nat.le_succ _)
  · have hcases : ∀ c pcb, (tcpEchoserverAccept s newpcb true).Open c pcb →
        (pcb = newpcb ∧ c = s.accepted) ∨ (pcb ≠ newpcb ∧ s.Open c pcb) := by
      intro c pcb hopen
      rcases eq_or_ne pcb newpcb with rfl | hne
      · refine .inl ⟨rfl, ?_⟩
        simpa [Server.Open, Server.set, tcpEchoserverAccept, eq_comm] using hopen
      · refine .inr ⟨hne, ?_⟩
        simpa [Server.Open, Server.set, tcpEchoserverAccept, hne] using hopen
    have hlt : ∀ c pcb, s.Open c pcb → c < s.accepted := by
      rintro c pcb ⟨es, hes, rfl⟩
      exact h.conn_lt pcb es hes
    refine ⟨?_, ?_, ?_, ?_, ?_, ?_, h.last_of_commands⟩
    · intro pcb es hes
      change es.conn < s.accepted + 1
      rcases hcases es.conn pcb ⟨es, hes, rfl⟩ with ⟨-, hc⟩ | ⟨-, hopen⟩
      · omega
      · exact (hlt _ _ hopen).trans (Nat.lt_succ_self _)
    · intro c pcb pcb' hpcb hpcb'
      rcases hcases c pcb hpcb with ⟨rfl, rfl⟩ | ⟨-, hopen⟩ <;>
        rcases hcases _ pcb' hpcb' with ⟨rfl, hc⟩ | ⟨-, hopen'⟩
      · rfl
      · exact absurd (hlt _ _ hopen') (Nat.lt_irrefl _)
      · exact absurd (hlt _ _ hopen) (hc ▸ Nat.lt_irrefl _)
      · exact h.conn_inj c pcb pcb' hopen hopen'
    · exact fun c hc => (h.commands_lt c hc).trans (Nat.lt_succ_self _)
    · exact fun c hc => (h.sender_lt c hc).trans (Nat.lt_succ_self _)
    · intro c pcb hc hpcb
      rcases hcases c pcb hpcb with ⟨-, rfl⟩ | ⟨-, hopen⟩
      · exact absurd (h.sender_lt _ hc) (Nat.lt_irrefl _)
      · exact h.last_of_sender c pcb hc hopen
    · intro c pcb hpcb hopen hmem
      rcases hcases c pcb hopen with ⟨-, rfl⟩ | ⟨-, hopen⟩
      · exact absurd (h.commands_lt _ hmem) (Nat.lt_irrefl _)
      · exact h.sender_of_last c pcb hpcb hopen hmem

theorem Tracked.rx (h : Tracked s) {pcb : Nat} {es : Es} (hopen : s.Open es.conn pcb)
    (commands : Nat) : Tracked (cbSrvSockRx s pcb es commands) where
  conn_lt := h.conn_lt
  conn_inj := h.conn_inj
  commands_lt := by
    obtain ⟨es', hes', hconn⟩ := hopen
    intro c hc
    rcases List.mem_append.mp hc with hc | hc
    · exact h.commands_lt c hc
    · obtain rfl := List.eq_of_mem_replicate hc
      exact hconn ▸ h.conn_lt pcb es' hes'
  sender_lt := by
    obtain ⟨es', hes', hconn⟩ := hopen
    rintro c ⟨⟩
    exact hconn ▸ h.conn_lt pcb es' hes'
  last_of_sender := by
    rintro c pcb' ⟨⟩ hpcb'
    exact congrArg some (h.conn_inj _ pcb pcb' hopen hpcb')
  sender_of_last := by
    rintro c pcb' ⟨⟩ ⟨es', hes', rfl⟩ -
    obtain ⟨es'', hes'', hconn⟩ := hopen
    obtain rfl := Option.some.inj (hes'.symm.trans hes'')
    exact congrArg some hconn.symm
  last_of_commands := fun _ => Option.some_ne_none pcb

theorem Tracked.recv (h : Tracked s) {pcb : Nat} {es : Es} (hes : s.pcbs pcb = some es)
    (p : Segment) (written : Nat) : Tracked (tcpEchoserverRecv s pcb es p written) := by
  cases p with
  | fin =>
      rw [tcpEchoserverRecv]
      split_ifs
      · exact h.close pcb
      · exact h.set hes rfl
  | error => exact h.set hes rfl
  | data commands =>
      rw [tcpEchoserverRecv]
      rcases es.state with _ | _ | _
      · have hset : Tracked (s.set pcb (some { es with state := .received })) := h.set hes rfl
        refine hset.rx ?_ commands
        exact ⟨{ es with state := .received }, Function.update_self .., rfl⟩
      · exact h.rx ⟨es, hes, rfl⟩ commands
      · exact h.set hes rfl

theorem Tracked.sent (h : Tracked s) {pcb : Nat} {es : Es} (hes : s.pcbs pcb = some es)
    (written : Nat) : Tracked (tcpEchoserverSent s pcb es written) := by
  rw [tcpEchoserverSent]
  split_ifs
  · exact h.set hes rfl
  · exact h.close pcb
  · exact h

theorem Tracked.send (h : Tracked s) (pcb : Nat) (data : List UInt8) (pool : Bool)
    (written : Nat) : Tracked (sockSrvSend s pcb data pool written) := by
  rw [sockSrvSend]
  rcases hes : s.pcbs pcb with _ | es
  · exact h
  · dsimp only
    split_ifs
    · exact h
    · exact h.set hes rfl
    · exact h.set hes rfl

theorem commands_sockSrvSend (pcb : Nat) (data : List UInt8) (pool : Bool) (written : Nat) :
    (sockSrvSend s pcb data pool written).commands = s.commands := by
  rw [sockSrvSend]
  split
  · rfl
  · split_ifs <;> rfl

theorem Tracked.response (h : Tracked s) (b : List UInt8) (pool : Bool) (written : Nat) :
    Tracked (gtwaWriteResponse s b pool written).2 ∧
      (gtwaWriteResponse s b pool written).2.commands = s.commands := by
  rw [gtwaWriteResponse]
  rcases s.lastGtwaPcb with _ | pcb
  · exact ⟨h, rfl⟩
  · exact ⟨h.send pcb b pool written, commands_sockSrvSend pcb b pool written⟩

theorem Tracked.step (h : Tracked s) {ev : Event} (hstep : s.step ev = some s') : Tracked s' := by
  cases ev with
  | accept newpcb mem =>
      rw [Server.step] at hstep
      split_ifs at hstep with hfree
      obtain rfl := Option.some.inj hstep
      exact h.accept (by simpa using hfree) mem
  | recv pcb p written =>
      obtain ⟨es, hes, rfl⟩ := Option.map_eq_some_iff.mp hstep
      exact h.recv hes p written
  | sent pcb written =>
      obtain ⟨es, hes, rfl⟩ := Option.map_eq_some_iff.mp hstep
      exact h.sent hes written
  | error pcb =>
      obtain ⟨es, hes, rfl⟩ := Option.map_eq_some_iff.mp hstep
      exact h.close pcb
  | respond b done pool written =>
      obtain ⟨hafter, hcommands⟩ := h.response b pool written
      rw [Server.step] at hstep
      rcases hlist : s.commands with _ | ⟨c, rest⟩
      · rw [hlist] at hstep
        exact absurd hstep (by simp)
      · rw [hlist] at hstep hcommands
        obtain rfl := Option.some.inj hstep
        refine hafter.of_open (fun _ _ hopen => hopen) rfl rfl ?_ (Nat.le_refl _)
        intro c' hc'
        rw [hcommands]
        rcases done with _ | _
        · exact hc'
        · exact List.mem_cons_of_mem c hc'

theorem tracked_run {evs : List Event} (h : evs.foldlM Server.step {} = some s) : Tracked s :=
  @foldlM_invariant _ _ Server.step {} s evs Tracked tracked_init
    (fun _ _ _ ht hstep => ht.step hstep) h

theorem passed_eq (h : Tracked s) {c : Nat} (hc : s.commands.head? = some c) (b : List UInt8)
    (pool : Bool) (written : Nat) :
    ∃ pcb, s.lastGtwaPcb = some pcb ∧ (gtwaWriteResponse s b pool written).1 = [pcb] := by
  have hne : s.commands ≠ [] := by
    intro hnil
    rw [hnil] at hc
    exact absurd hc (by simp)
  obtain ⟨pcb, hpcb⟩ := Option.ne_none_iff_exists'.mp (h.last_of_commands hne)
  refine ⟨pcb, hpcb, ?_⟩
  rw [gtwaWriteResponse, hpcb]

theorem answersAsker_iff (h : Tracked s) (ev : Event) : AnswersAsker s ev ↔ AskerIsLast s ev := by
  cases ev with
  | respond b done pool written =>
      refine forall₂_congr fun c hc => ?_
      obtain ⟨pcb, hpcb, hpassed⟩ := passed_eq h hc b pool written
      rw [hpassed]
      constructor
      · rintro ⟨hopen, hclosed, -⟩
        have hasker : ∃ pcb', s.Open c pcb' := by
          by_contra hnone
          exact absurd (hclosed (not_exists.mp hnone)) (List.cons_ne_nil pcb [])
        obtain ⟨pcb', hpcb'⟩ := hasker
        obtain rfl := List.singleton_inj.mp (hopen pcb' hpcb')
        exact ⟨h.sender_of_last c pcb hpcb hpcb' (List.mem_of_head? hc), pcb, hpcb'⟩
      · rintro ⟨hsender, pcb', hpcb'⟩
        have hsame : ∀ q, s.Open c q → q = pcb := by
          intro q hq
          exact Option.some.inj ((h.last_of_sender c q hsender hq).symm.trans hpcb)
        obtain rfl := hsame pcb' hpcb'
        refine ⟨fun q hq => by rw [hsame q hq], fun hnone => absurd hpcb' (hnone pcb'), ?_⟩
        obtain ⟨es, hes, -⟩ := hpcb'
        simp [hes]
  | accept newpcb mem => exact Iff.rfl
  | recv pcb p written => exact Iff.rfl
  | sent pcb written => exact Iff.rfl
  | error pcb => exact Iff.rfl

end

/-- In any run the answers go to those who asked exactly if nobody else sends
anything before an answer is complete and the asker waits for it. -/
theorem run_answersAsker_iff (evs : List Event) :
    AtSteps Server.step {} AnswersAsker evs ↔ AtSteps Server.step {} AskerIsLast evs := by
  rw [AtSteps, AtSteps]
  refine atEach_iff (fun pre ev _ => ?_) evs
  exact forall₂_congr fun s hs => answersAsker_iff (tracked_run hs) ev

def answer : Event := .respond [79, 75] true true 1

def twoClients : List Event :=
  [.accept 1 true, .accept 2 true, .recv 1 (.data 1) 0, .recv 2 (.data 1) 0]

/-- Two clients ask, and the answer for the first one goes to the second one. -/
theorem not_answersAsker_twoClients :
    ¬ AtSteps Server.step {} AnswersAsker (twoClients ++ [answer]) := by
  intro h
  have hanswers := h twoClients answer (List.prefix_refl _) _ rfl 0 rfl
  have hpassed := hanswers.1 1 ⟨_, rfl, rfl⟩
  exact absurd (List.singleton_inj.mp hpassed) (by decide)

end ShGateway.SockSrv
