import ShGateway.MqttPublish

/-!
The connection part of `mqtt_app.c` over the client of lwIP's `mqtt.c`. Whether
memory, buffer space or the network allow an operation comes from outside.
-/

namespace ShGateway.MqttClient

open ShGateway.MqttPublish

/-! ## The client of lwIP -/

def errOk : Int := 0
def errMem : Int := -1
def errIsconn : Int := -10
def errConn : Int := -11

/-! Values of `mqtt_connection_status_t`; others come from the broker. -/

def mqttConnectAccepted : Nat := 0
def mqttConnectDisconnected : Nat := 256

inductive ConnState
  | tcpDisconnected
  | tcpConnecting
  | mqttConnecting
  | mqttConnected
deriving DecidableEq, Repr

/-- `struct mqtt_request_t`; `cb` tells if its callback is `mqtt_pub_request_cb`
or `NULL`. -/
structure MqttRequest where
  pktId : Nat
  cb : Bool
deriving DecidableEq, Repr

/-- `mqtt_client_t`. -/
structure Client where
  connState : ConnState := .tcpDisconnected
  pktIdSeq : Nat := 0
  pendReqQueue : List MqttRequest := []
deriving DecidableEq, Repr

/-- `msg_generate_packet_id`. -/
def Client.generatePacketId (c : Client) : Nat :=
  let seq := (c.pktIdSeq + 1) % 2 ^ 16
  if seq = 0 then seq + 1 else seq

/-- `mqtt_publish`; `space` tells if there are a free request and room in the
output buffer. -/
def mqttPublish (space : Bool) (c : Client) (m : Message) : Int × Client :=
  if c.connState = .tcpDisconnected then (errConn, c)
  else
    let pktId := if m.qos > 0 then c.generatePacketId else 0
    let c := if m.qos > 0 then { c with pktIdSeq := c.generatePacketId } else c
    if space then (errOk, { c with pendReqQueue := c.pendReqQueue ++ [⟨pktId, true⟩] })
    else (errMem, c)

/-- `mqtt_subscribe` without a callback. -/
def mqttSubscribe (space : Bool) (c : Client) : Client :=
  if c.connState = .tcpDisconnected then c
  else
    let pktId := c.generatePacketId
    let c := { c with pktIdSeq := pktId }
    if space then { c with pendReqQueue := c.pendReqQueue ++ [⟨pktId, false⟩] } else c

/-- `mqtt_client_connect`; `sts` is what the connection attempt comes to. -/
def mqttClientConnect (sts : Int) (c : Client) : Int × Client :=
  if c.connState ≠ .tcpDisconnected then (errIsconn, c)
  else if sts ≠ errOk then (sts, {})
  else (errOk, { connState := .tcpConnecting })

/-! ## The application -/

/-- The allocated clients by address, `static_client`, how many expiries of
`reconnect_cb` are scheduled, and the messages that `mqtt_publish` was called with. -/
structure Net where
  heap : Nat → Option Client := fun _ => none
  staticClient : Option Nat := none
  timers : Nat := 0
  calls : List Message := []

def Net.modify (net : Net) (p : Nat) (f : Client → Client) : Net :=
  { net with heap := Function.update net.heap p ((net.heap p).map f) }

/-- The `mqtt_publish` on `static_client`. The assertions of this port are empty: without a client
`conn_state` is byte 10 of the flash at address 0, in a vector of the pre-loader, and its 0 is
`TCP_DISCONNECTED`. -/
def publishStatic (space : Bool) (m : Message) (net : Net) : Bool × Net :=
  let net := { net with calls := net.calls ++ [m] }
  match net.staticClient with
  | none => (false, net)
  | some p =>
      match net.heap p with
      | none => (false, net)
      | some c =>
          ((mqttPublish space c m).1 = errOk,
            net.modify p fun c => (mqttPublish space c m).2)

structure System where
  mqtt : Mqtt := {}
  net : Net := {}

/-- `sys_untimeout` and `sys_timeout` for `reconnect_cb`. -/
def Net.untimeout (net : Net) : Net := { net with timers := net.timers - 1 }
def Net.timeout (net : Net) : Net := { net with timers := net.timers + 1 }

def connCb (p status : Nat) (space : Bool) (s : System) : System :=
  let s := { s with mqtt.dbg.connCbCnt := s.mqtt.dbg.connCbCnt + 1 }
  if status = mqttConnectAccepted then
    { s with
      mqtt.dbg.status := .connected
      net := s.net.modify p (mqttSubscribe space) }
  else
    { s with
      mqtt.dbg.status := .connRetry
      net := s.net.untimeout.timeout }

/-- `mqtt_close`. The pending requests are dropped without their callbacks. -/
def mqttClose (p reason : Nat) (s : System) : System :=
  let s := { s with net := s.net.modify p fun c => { c with pendReqQueue := [] } }
  if (s.net.heap p).map Client.connState = some .tcpDisconnected then s
  else
    connCb p reason false
      { s with net := s.net.modify p fun c => { c with connState := .tcpDisconnected } }

/-- `mqtt_disconnect`. The state is set first so that `conn_cb` is not called. -/
def mqttDisconnect (p : Nat) (s : System) : System :=
  if (s.net.heap p).map Client.connState = some .tcpDisconnected then s
  else
    mqttClose p mqttConnectAccepted
      { s with net := s.net.modify p fun c => { c with connState := .tcpDisconnected } }

/-- `mqtt_app_init_client`; `new` is what `mqtt_client_new` returns and `sts` what
the connection attempt comes to. -/
def mqttAppInitClient (new : Option Nat) (sts : Int) (s : System) : System :=
  let s :=
    match s.net.staticClient with
    | some p =>
        let s := mqttDisconnect p s
        { s with net.staticClient := none }
    | none => s
  match new with
  | some p =>
      let (sts, c) := mqttClientConnect sts {}
      let net := { s.net with
        heap := Function.update s.net.heap p (some c)
        staticClient := some p }
      { s with
        net := if sts ≠ errOk then net.timeout else net
        mqtt.dbg.connCode := sts }
  | none =>
      { s with
        mqtt.dbg.status := .outOfMem
        net := s.net.timeout }

/-- The end of a request of the client at `p`, with its callback. -/
def requestDone (p i : Nat) (space : Bool) (s : System) : System :=
  let r := (s.net.heap p).bind fun c => c.pendReqQueue[i]?
  let net := s.net.modify p fun c => { c with pendReqQueue := c.pendReqQueue.eraseIdx i }
  if r.map MqttRequest.cb = some true then
    match mqttPubRequestCb (publishStatic space) s.mqtt net with
    | (mqtt, net) => { mqtt, net }
  else { s with net }

/-! ## Events -/

/-- What can happen: a call of `mqtt_queue_publish`; the end of a request (an
acknowledgement, its transmission or its timeout); the TCP connection; the
broker's answer to `CONNECT`; the end of a connection (by the peer, by an error
or by a keep-alive timeout); the expiry of `reconnect_cb`; the first call of
`mqtt_app_init_client`. -/
inductive Event
  | publish (r : Request) (space : Bool)
  | requestDone (p i : Nat) (space : Bool)
  | tcpConnect (p : Nat)
  | connack (p code : Nat) (space : Bool)
  | close (p reason : Nat)
  | reconnect (new : Option Nat) (sts : Int)
  | init (new : Option Nat) (sts : Int)

def Net.stateOf (net : Net) (p : Nat) : Option ConnState := (net.heap p).map Client.connState

/-- What `mqtt_client_new` returns is not in use. -/
def Net.Fresh (net : Net) (new : Option Nat) : Prop := ∀ p ∈ new, net.heap p = none

/-- lwIP only calls back for a client whose connection is there, and only once
it is up for its requests. -/
def Event.Enabled (s : System) : Event → Prop
  | .publish _ _ => True
  | .requestDone p i _ =>
      (s.net.stateOf p = some .mqttConnecting ∨ s.net.stateOf p = some .mqttConnected) ∧
        ((s.net.heap p).bind fun c => c.pendReqQueue[i]?).isSome
  | .tcpConnect p => s.net.stateOf p = some .tcpConnecting
  | .connack p _ _ => s.net.stateOf p = some .mqttConnecting
  | .close p reason =>
      (s.net.stateOf p).isSome ∧ s.net.stateOf p ≠ some .tcpDisconnected ∧
        reason ≠ mqttConnectAccepted
  | .reconnect new _ => 0 < s.net.timers ∧ s.net.Fresh new
  | .init new _ => s.net.Fresh new

instance (net : Net) (new : Option Nat) : Decidable (net.Fresh new) :=
  inferInstanceAs (Decidable (∀ p ∈ new, net.heap p = none))

instance (s : System) : (ev : Event) → Decidable (ev.Enabled s)
  | .publish _ _ => inferInstanceAs (Decidable True)
  | .requestDone _ _ _ => inferInstanceAs (Decidable (_ ∧ _))
  | .tcpConnect _ => inferInstanceAs (Decidable (_ = _))
  | .connack _ _ _ => inferInstanceAs (Decidable (_ = _))
  | .close _ _ => inferInstanceAs (Decidable (_ ∧ _ ∧ _))
  | .reconnect new _ => inferInstanceAs (Decidable (_ ∧ s.net.Fresh new))
  | .init new _ => inferInstanceAs (Decidable (s.net.Fresh new))

def System.apply (s : System) : Event → System
  | .publish r space =>
      match mqttQueuePublish (publishStatic space) r s.mqtt s.net with
      | (_, mqtt, net) => { mqtt, net }
  | .requestDone p i space => ShGateway.MqttClient.requestDone p i space s
  | .tcpConnect p =>
      { s with net := s.net.modify p fun c => { c with connState := .mqttConnecting } }
  | .connack p code space =>
      if code = mqttConnectAccepted then
        connCb p code space
          { s with net := s.net.modify p fun c => { c with connState := .mqttConnected } }
      else mqttClose p code s
  | .close p reason => mqttClose p reason s
  | .reconnect new sts => mqttAppInitClient new sts { s with net := s.net.untimeout }
  | .init new sts => mqttAppInitClient new sts s

/-- The state after an event, if it can happen. -/
def System.step (s : System) (ev : Event) : Option System :=
  if ev.Enabled s then some (s.apply ev) else none

/-- The state after some events. -/
def run (evs : List Event) : Option System := evs.foldlM System.step {}

end ShGateway.MqttClient
