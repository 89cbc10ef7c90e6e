import ShGateway.MqttParser

/-!
What lwIP's `mqtt.c` makes of the messages that it receives. The topic of a `PUBLISH` has to come
in one piece, its payload goes to the application as it comes.
-/

namespace ShGateway.MqttIncoming

open ShGateway.Lib
open ShGateway.MqttOutput
open ShGateway.MqttParser

/-! ## Received messages -/

def msgTypeConnack : UInt8 := 2
def msgTypeSuback : UInt8 := 9
def msgTypeUnsuback : UInt8 := 11
def msgTypePingresp : UInt8 := 13

/-- `MQTT_CTL_PACKET_TYPE` and `MQTT_CTL_PACKET_QOS`. -/
def ctlPacketType (b : UInt8) : UInt8 := (b &&& 0xF0) >>> 4
def ctlPacketQos (b : UInt8) : UInt8 := (b &&& 6) >>> 1

/-- What comes of a message: `connect_cb`, `pub_cb` with the topic and the length of the payload,
`data_cb`, a response to the broker, the callback of a request. -/
inductive Output
  | connected
  | publish (topic : List UInt8) (totLen : Nat)
  | data (bytes : List UInt8) (last : Bool)
  | response (msg : UInt8) (pktId : UInt16) (qos : UInt8)
  | answered (pktId : UInt16) (accepted : Bool)
deriving DecidableEq

/-- The part of the client that messages change. -/
structure Incoming where
  connecting : Bool := false
  inpubPktId : UInt16 := 0
  outputs : List Output := []

/-- The rest of the client, by what came of the messages before: whether `mqtt_take_request` finds
a request with a packet identifier, and whether `mqtt_output_check_space` finds room for a
response. -/
structure Client where
  waiting : List Output → UInt16 → Bool
  space : List Output → Bool

def Incoming.emit (c : Incoming) (x : Output) : Incoming := { c with outputs := c.outputs ++ [x] }

def u16At (bytes : List UInt8) (i : Nat) : UInt16 :=
  ((bytes.getD i 0).toUInt16 <<< 8) + (bytes.getD (i + 1) 0).toUInt16

/-- The text up to the first `NUL`. -/
def cString (bytes : List UInt8) : List UInt8 := bytes.takeWhile (· ≠ 0)

/-- The topic, the packet identifier and the place of the payload in the first piece of a
`PUBLISH`, `none` if one of them is cut off or does not fit the buffer. -/
def publishHead (call : Call) (varHdrPayload : List UInt8) :
    Option (List UInt8 × UInt16 × Nat) :=
  let qos := ctlPacketQos call.control
  let bufsize := varHeaderBufferLen - call.fixedHdrLen
  let qosLen := if qos ≠ 0 then 2 else 0
  if call.length < 2 + qosLen then none
  else
    let topicLen := (u16At varHdrPayload 0).toNat
    if topicLen > call.length - (2 + qosLen) ∨ topicLen > bufsize - (2 + qosLen) then none
    else
      let topic := (varHdrPayload.drop 2).take topicLen
      let afterTopic := 2 + topicLen
      if afterTopic + (if qos ≠ 0 then 2 else 1) > bufsize then none
      else if qos > 0 then
        if call.length < afterTopic + 2 then none
        else some (topic, u16At varHdrPayload afterTopic, afterTopic + 2)
      else some (topic, 0, afterTopic)

/-- Without room in the ring buffer there is no response; nobody looks at `ERR_MEM`. -/
def pubAckRecRelResponse (client : Client) (msg : UInt8) (pktId : UInt16) (qos : UInt8)
    (c : Incoming) : Incoming :=
  if client.space c.outputs then c.emit (.response msg pktId qos) else c

/-- The payload, or a piece of it. -/
def publishPayload (client : Client) (call : Call) (varHdrPayload : List UInt8) (offset : Nat)
    (c : Incoming) : Incoming :=
  let qos := ctlPacketQos call.control
  let payloadLength := call.length - offset
  if payloadLength > 0 ∨ call.remaining = 0 then
    let c := c.emit (.data ((varHdrPayload.drop offset).take payloadLength)
      (decide (call.remaining = 0)))
    if call.remaining = 0 ∧ qos > 0 then
      pubAckRecRelResponse client (if qos = 1 then msgTypePuback else msgTypePubrec)
        c.inpubPktId 0 c
    else c
  else c

def incomingPublish (client : Client) (call : Call) (varHdrPayload : List UInt8) (c : Incoming) :
    Option Incoming :=
  if call.msgIdx = call.fixedHdrLen + call.length then
    match publishHead call varHdrPayload with
    | none => none
    | some (topic, pktId, offset) =>
        some (publishPayload client call varHdrPayload offset
          ({ c with inpubPktId := pktId }.emit
            (.publish (cString topic) (call.remaining + (call.length - offset)))))
  else some (publishPayload client call varHdrPayload 0 c)

/-- The answer to a request. -/
def incomingAnswer (client : Client) (call : Call) (varHdrPayload : List UInt8)
    (pktId : UInt16) (c : Incoming) : Option Incoming :=
  if client.waiting c.outputs pktId then
    if ctlPacketType call.control = msgTypeSuback then
      if call.length < 3 then none
      else some (c.emit (.answered pktId (varHdrPayload.getD 2 0 < 3)))
    else some (c.emit (.answered pktId true))
  else some c

/-- `mqtt_message_received`, `none` if the connection is given up. -/
def mqttMessageReceived (client : Client) (call : Call) (c : Incoming) : Option Incoming :=
  let pktType := ctlPacketType call.control
  let varHdrPayload := call.payload.getD []
  if varHeaderBufferLen < call.fixedHdrLen + call.length then none
  else if pktType = msgTypeConnack then
    if c.connecting then
      if call.length < 2 then none
      else if varHdrPayload.getD 1 0 = 0 then
        some ({ c with connecting := false }.emit .connected)
      else none
    else some c
  else if pktType = msgTypePingresp then some c
  else if pktType = msgTypePublish then incomingPublish client call varHdrPayload c
  else if call.length < 2 then none
  else
    let pktId := u16At varHdrPayload 0
    if pktId = 0 then none
    else if pktType = msgTypePubrec then
      some (pubAckRecRelResponse client msgTypePubrel pktId 1 c)
    else if pktType = msgTypePubrel then
      some (pubAckRecRelResponse client msgTypePubcomp pktId 0 c)
    else if pktType = msgTypeSuback ∨ pktType = msgTypeUnsuback ∨ pktType = msgTypePubcomp ∨
        pktType = msgTypePuback then incomingAnswer client call varHdrPayload pktId c
    else none

def received (client : Client) (c : Incoming) (calls : List Call) : Option Incoming :=
  calls.foldlM (fun c call => mqttMessageReceived client call c) c

/-- The parser goes on as long as the messages are accepted. -/
def answers (client : Client) (c : Incoming) : Answers := fun calls =>
  (received client c calls).isSome

/-! ## Messages -/

/-- A message of the broker with a topic and a payload. -/
structure Publish where
  control : UInt8
  topic : List UInt8
  pktId : UInt16
  payload : List UInt8
  control_type : ctlPacketType control = msgTypePublish
  topic_lt : topic.length < 2 ^ 16

def Publish.qos (m : Publish) : UInt8 := ctlPacketQos m.control

/-- What comes before the payload. -/
def Publish.head (m : Publish) : List UInt8 :=
  lengthPrefixed m.topic ++ if m.qos ≠ 0 then bigEndian m.pktId else []

def Publish.packet (m : Publish) : Packet := ⟨m.control, m.head ++ m.payload⟩

/-- What the application and the broker get of it after `before`: the topic, the payload in pieces
of which only the last one says that it is, and the acknowledgement if there is room for it. -/
def Publish.Delivered (m : Publish) (client : Client) (before outputs : List Output) : Prop :=
  ∃ (chunks : List (List UInt8)) (last : List UInt8) (shown : List Output),
    chunks.flatten ++ last = m.payload ∧
    shown = .publish (cString m.topic) m.payload.length ::
      (chunks.map (.data · false) ++ [.data last true]) ∧
    outputs = shown ++ if m.qos ≠ 0 ∧ client.space (before ++ shown) = true then
      [.response (if m.qos = 1 then msgTypePuback else msgTypePubrec) m.pktId 0] else []

/-- What they get of the first `o` bytes after the fixed header. -/
def Publish.Started (m : Publish) (o : Nat) (outputs : List Output) : Prop :=
  o = 0 ∧ outputs = [] ∨
    ∃ chunks : List (List UInt8), m.head.length ≤ o ∧
      chunks.flatten = m.payload.take (o - m.head.length) ∧
      outputs = .publish (cString m.topic) m.payload.length :: chunks.map (.data · false)

section

variable {m : Publish} {c : Incoming} {o n : Nat}

theorem head_length (m : Publish) :
    m.head.length = m.topic.length + 2 + if m.qos ≠ 0 then 2 else 0 := by
  rw [Publish.head, List.length_append, lengthPrefixed_length]
  split_ifs with hqos
  · rw [bigEndian_length]
  · rfl

theorem u16_bytes (value : UInt16) :
    ((value >>> 8).toUInt8.toUInt16 <<< 8) + (value &&& 0xFF).toUInt8.toUInt16 = value := by
  have hlt := value.toNat_lt
  have hlow : value.toNat &&& 0xFF = value.toNat % 256 := Nat.and_two_pow_sub_one_eq_mod _ 8
  apply UInt16.toNat_inj.mp
  simp only [UInt16.toNat_add, UInt16.toNat_shiftLeft, UInt8.toNat_toUInt16, UInt16.toNat_toUInt8,
    UInt16.toNat_shiftRight, UInt16.toNat_and, UInt16.reduceToNat, hlow]
  rw [Nat.shiftRight_eq_div_pow, Nat.shiftLeft_eq, show 2 ^ (8 % 16) = 256 from rfl]
  omega

theorem u16At_bigEndian (value : UInt16) (pre post : List UInt8) :
    u16At (pre ++ (bigEndian value ++ post)) pre.length = value := by
  have hbytes : bigEndian value = [(value >>> 8).toUInt8, (value &&& 0xFF).toUInt8] := rfl
  rw [u16At, hbytes]
  simpa using u16_bytes value

theorem qos_pos {q : UInt8} : q > 0 ↔ q ≠ 0 := by
  rw [gt_iff_lt, UInt8.lt_iff_toNat_lt, ne_eq, ← UInt8.toNat_inj]
  exact Nat.pos_iff_ne_zero

/-- The topic fits the buffer, with the packet identifier or the `NUL` that is put behind it. -/
def Publish.Readable (m : Publish) : Prop :=
  (fixedHeader m.packet).length + m.head.length + (if m.qos ≠ 0 then 0 else 1) ≤
    varHeaderBufferLen

theorem publishHead_eq (m : Publish) (call : Call) (chunk : List UInt8)
    (hcontrol : call.control = m.control)
    (hheader : call.fixedHdrLen = (fixedHeader m.packet).length)
    (hlength : call.length = m.head.length + chunk.length) (hread : m.Readable) :
    publishHead call (m.head ++ chunk) =
      some (m.topic, if m.qos ≠ 0 then m.pktId else 0, m.head.length) := by
  have hlen := head_length m
  have hlt := m.topic_lt
  have htopicLen : (UInt16.ofNat m.topic.length).toNat = m.topic.length := by
    rw [UInt16.toNat_ofNat']
    exact Nat.mod_eq_of_lt hlt
  have hbytes : m.head ++ chunk = bigEndian (UInt16.ofNat m.topic.length) ++
      (m.topic ++ ((if m.qos ≠ 0 then bigEndian m.pktId else []) ++ chunk)) := by
    rw [Publish.head, lengthPrefixed]
    simp only [bigEndian, List.append_assoc]
  have hfirst : u16At (m.head ++ chunk) 0 = UInt16.ofNat m.topic.length := by
    rw [hbytes]
    exact u16At_bigEndian _ [] _
  have htopic : ((m.head ++ chunk).drop 2).take m.topic.length = m.topic := by
    rw [hbytes]
    exact List.take_left
  have hqos : ctlPacketQos call.control = m.qos := by rw [hcontrol, Publish.qos]
  rw [Publish.Readable] at hread
  rw [publishHead, hqos, hfirst, htopicLen]
  dsimp only
  rw [htopic, hheader, hlength]
  by_cases h : m.qos ≠ 0
  · simp only [if_pos h, if_pos (qos_pos.mpr h)] at hlen hread ⊢
    have hid : u16At (m.head ++ chunk) (2 + m.topic.length) = m.pktId := by
      rw [hbytes, if_pos h, ← List.append_assoc]
      have hat := u16At_bigEndian m.pktId (bigEndian (UInt16.ofNat m.topic.length) ++ m.topic) chunk
      rwa [List.length_append, bigEndian_length] at hat
    rw [if_neg (by omega), if_neg (by omega), if_neg (by omega), if_neg (by omega), hid,
      show 2 + m.topic.length + 2 = m.head.length by omega]
  · simp only [if_neg h, if_neg (mt qos_pos.mp h)] at hlen hread ⊢
    rw [if_neg (by omega), if_neg (by omega), if_neg (by omega),
      show 2 + m.topic.length = m.head.length by omega]

theorem pubAckRecRelResponse_outputs (client : Client) (msg : UInt8) (pktId : UInt16)
    (qos : UInt8) (c : Incoming) : (pubAckRecRelResponse client msg pktId qos c).outputs =
      c.outputs ++ if client.space c.outputs then [.response msg pktId qos] else [] := by
  rw [pubAckRecRelResponse]
  split_ifs
  · rfl
  · exact (List.append_nil _).symm

theorem pubAckRecRelResponse_inpubPktId (client : Client) (msg : UInt8) (pktId : UInt16)
    (qos : UInt8) (c : Incoming) :
    (pubAckRecRelResponse client msg pktId qos c).inpubPktId = c.inpubPktId := by
  rw [pubAckRecRelResponse]
  split_ifs <;> rfl

theorem publishPayload_delivers (client : Client) (m : Publish) (c : Incoming) (call : Call)
    (varHdrPayload : List UInt8) (offset a k : Nat) (chunks : List (List UInt8))
    (before : List Output) (hcontrol : call.control = m.control)
    (hchunks : chunks.flatten = m.payload.take a)
    (hbytes : (varHdrPayload.drop offset).take k = (m.payload.drop a).take k)
    (hk : call.length - offset = k) (hle : a + k ≤ m.payload.length)
    (hrem : call.remaining = m.payload.length - (a + k))
    (hid : m.qos ≠ 0 → c.inpubPktId = m.pktId)
    (hout : c.outputs = before ++
      .publish (cString m.topic) m.payload.length :: chunks.map (.data · false)) :
    ∃ outs, (publishPayload client call varHdrPayload offset c).outputs = before ++ outs ∧
      (publishPayload client call varHdrPayload offset c).inpubPktId = c.inpubPktId ∧
      (a + k < m.payload.length → ∃ chunks' : List (List UInt8),
        chunks'.flatten = m.payload.take (a + k) ∧
        outs = .publish (cString m.topic) m.payload.length :: chunks'.map (.data · false)) ∧
      (a + k = m.payload.length → m.Delivered client before outs) := by
  have hqos : ctlPacketQos call.control = m.qos := by rw [hcontrol, Publish.qos]
  have htake : m.payload.take (a + k) = chunks.flatten ++ (m.payload.drop a).take k := by
    rw [hchunks, List.take_add]
  rw [publishPayload, hqos, hk, hbytes, hrem]
  generalize (m.payload.drop a).take k = chunk at htake ⊢
  by_cases hlast : a + k = m.payload.length
  · have hzero : m.payload.length - (a + k) = 0 := by omega
    rw [hlast, List.take_length] at htake
    rw [hzero, if_pos (.inr rfl)]
    generalize hshown : Output.publish (cString m.topic) m.payload.length ::
      (chunks.map (.data · false) ++ [.data chunk true]) = shown
    have hemit : (c.emit (.data chunk true)).outputs = before ++ shown := by
      rw [Incoming.emit, hout, ← hshown, List.append_assoc, List.cons_append]
    refine ⟨shown ++ if m.qos ≠ 0 ∧ client.space (before ++ shown) = true then
      [.response (if m.qos = 1 then msgTypePuback else msgTypePubrec) m.pktId 0] else [], ?_, ?_,
      fun hlt => by omega, fun _ => ⟨chunks, chunk, shown, htake.symm, hshown.symm, rfl⟩⟩
    · by_cases h : m.qos ≠ 0
      · have hpkt : (c.emit (.data chunk true)).inpubPktId = m.pktId := hid h
        rw [if_pos ⟨rfl, qos_pos.mpr h⟩, pubAckRecRelResponse_outputs, decide_eq_true rfl, hemit,
          hpkt, List.append_assoc]
        simp only [ne_eq, h, not_false_eq_true, true_and]
      · rw [if_neg (fun hand => h (qos_pos.mp hand.2)), if_neg fun hand => h hand.1,
          List.append_nil]
        exact hemit
    · rw [apply_ite Incoming.inpubPktId, pubAckRecRelResponse_inpubPktId]
      exact ite_self _
  · have hmore : ¬ m.payload.length - (a + k) = 0 := by omega
    by_cases hpos : k > 0
    · rw [if_pos (.inl hpos), if_neg (fun hand => hmore hand.1)]
      refine ⟨.publish (cString m.topic) m.payload.length ::
        (chunks ++ [chunk]).map (.data · false), ?_, rfl, fun _ => ⟨chunks ++ [chunk], ?_, rfl⟩,
        fun heq => absurd heq hlast⟩
      · simp [Incoming.emit, hout, hmore]
      · rw [List.flatten_append, htake]
        simp
    · rw [if_neg (by rintro (h | h); exacts [hpos h, hmore h])]
      obtain rfl : k = 0 := by omega
      exact ⟨_, hout, rfl, fun _ => ⟨chunks, hchunks, rfl⟩, fun heq => absurd heq hlast⟩

theorem received_publish (client : Client) (m : Publish) (n : Nat) (c : Incoming)
    (hfits : (fixedHeader m.packet).length + n ≤ varHeaderBufferLen) :
    mqttMessageReceived client (pieceCall m.packet o n) c =
      incomingPublish client (pieceCall m.packet o n) ((m.packet.body.drop o).take n) c := by
  have htype : ctlPacketType (pieceCall m.packet o n).control = msgTypePublish := m.control_type
  rw [mqttMessageReceived, htype, if_neg, if_neg (by decide), if_neg (by decide), if_pos rfl]
  · rfl
  · exact Nat.not_lt.mpr hfits

theorem head_le_first {ends : List Nat} {start : Nat} (hread : m.Readable)
    (hcut : ∀ e ∈ ends, ¬ (start + (fixedHeader m.packet).length < e ∧
      e < start + (fixedHeader m.packet).length + m.head.length))
    (h : Piece ends start m.packet 0 n) : m.head.length ≤ n := by
  have hpos := h.pos
  have hbody : m.packet.body.length = m.head.length + m.payload.length := List.length_append
  rw [Publish.Readable] at hread
  rcases h.full with hfull | hall | hend
  · omega
  · omega
  · have hnot := hcut _ hend
    omega

theorem received_append (client : Client) (c : Incoming) (cs ds : List Call) :
    received client c (cs ++ ds) =
      (received client c cs).bind fun c' => received client c' ds := List.foldlM_append

theorem received_snoc (client : Client) (c : Incoming) (cs : List Call) (call : Call) :
    received client c (cs ++ [call]) =
      (received client c cs).bind (mqttMessageReceived client call) := by
  rw [received_append]
  congr 1
  funext c'
  exact Option.bind_fun_some _

/-- The bytes of a message reach the application in order, whatever the pieces. -/
theorem pieces_received (client : Client) {ends : List Nat} {start : Nat} {cs : List Call}
    (hread : m.Readable)
    (hcut : ∀ e ∈ ends, ¬ (start + (fixedHeader m.packet).length < e ∧
      e < start + (fixedHeader m.packet).length + m.head.length))
    (h : Pieces ends start m.packet o cs) (c : Incoming) :
    ∃ c' outs, received client c cs = some c' ∧ c'.outputs = c.outputs ++ outs ∧
      (0 < o → m.qos ≠ 0 → c'.inpubPktId = m.pktId) ∧
      (o < m.packet.body.length → m.Started o outs) ∧
      (o = m.packet.body.length → m.Delivered client c.outputs outs) := by
  have hbody : m.packet.body.length = m.head.length + m.payload.length := List.length_append
  have hhead := head_length m
  induction h with
  | nil =>
      exact ⟨c, [], rfl, (List.append_nil _).symm, fun h => absurd h (Nat.lt_irrefl 0),
        fun _ => .inl ⟨rfl, rfl⟩, fun h => by omega⟩
  | @snoc o n cs hpieces hpiece ih =>
      obtain ⟨c₁, outs, hrun, houts, hid, hstarted, -⟩ := ih
      have hpos := hpiece.pos
      have hle := hpiece.le
      rw [received_snoc, hrun, Option.bind_some, received_publish client m n c₁ hpiece.fits,
        incomingPublish]
      rcases hstarted (by omega) with ⟨rfl, rfl⟩ | ⟨chunks, hreached, hchunks, rfl⟩
      · -- the first piece
        have hfirst := head_le_first hread hcut hpiece
        have hpayload : (m.packet.body.drop 0).take n =
            m.head ++ m.payload.take (n - m.head.length) := by
          rw [List.drop_zero]
          change (m.head ++ m.payload).take n = _
          rw [List.take_append, List.take_of_length_le hfirst]
        have hchunk : (m.payload.take (n - m.head.length)).length = n - m.head.length := by
          rw [List.length_take]
          omega
        have hshown := publishHead_eq m (pieceCall m.packet 0 n)
          (m.payload.take (n - m.head.length)) rfl rfl (by rw [hchunk]; change n = _; omega) hread
        have htotal : m.packet.body.length - (0 + n) + (n - m.head.length) =
            m.payload.length := by
          omega
        have hsame : (pieceCall m.packet 0 n).msgIdx =
            (pieceCall m.packet 0 n).fixedHdrLen + (pieceCall m.packet 0 n).length := rfl
        rw [if_pos hsame, hpayload, hshown]
        obtain ⟨outs, hout, hpkt, hsome, hall⟩ := publishPayload_delivers client m
          ({ c₁ with inpubPktId := if m.qos ≠ 0 then m.pktId else 0 }.emit
            (.publish (cString m.topic) (m.packet.body.length - (0 + n) + (n - m.head.length))))
          (pieceCall m.packet 0 n) (m.head ++ m.payload.take (n - m.head.length)) m.head.length 0
          (n - m.head.length) [] c.outputs rfl rfl (by simp) rfl (by omega)
          (by change m.packet.body.length - (0 + n) = _; omega) (fun hqos => if_pos hqos)
          (by rw [htotal]; simp [Incoming.emit, houts])
        refine ⟨_, outs, rfl, hout, ?_, ?_, ?_⟩
        · intro _ hqos
          exact hpkt.trans (if_pos hqos)
        · intro hlt
          obtain ⟨chunks, hchunks, rfl⟩ := hsome (by omega)
          exact .inr ⟨chunks, by omega, by rw [hchunks]; congr 1; omega, rfl⟩
        · intro heq
          exact hall (by omega)
      · have hdiffers : ¬ (pieceCall m.packet o n).msgIdx =
            (pieceCall m.packet o n).fixedHdrLen + (pieceCall m.packet o n).length := by
          change ¬ (fixedHeader m.packet).length + o + n = (fixedHeader m.packet).length + n
          omega
        have hdrop : m.packet.body.drop o = m.payload.drop (o - m.head.length) := by
          change (m.head ++ m.payload).drop o = _
          rw [List.drop_append, List.drop_of_length_le hreached, List.nil_append]
        rw [if_neg hdiffers, hdrop]
        obtain ⟨outs, hout, hpkt, hsome, hall⟩ := publishPayload_delivers client m c₁
          (pieceCall m.packet o n) ((m.payload.drop (o - m.head.length)).take n) 0
          (o - m.head.length) n chunks c.outputs rfl hchunks (by simp) rfl (by omega)
          (by change m.packet.body.length - (o + n) = _; omega) (hid (by omega)) houts
        refine ⟨_, outs, rfl, hout, ?_, ?_, ?_⟩
        · intro _ hqos
          rw [hpkt, hid (by omega) hqos]
        · intro hlt
          obtain ⟨chunks', hchunks', rfl⟩ := hsome (by omega)
          exact .inr ⟨chunks', by omega, by rw [hchunks']; congr 1; omega, rfl⟩
        · intro heq
          exact hall (by omega)

/-- An answer to a request or to a response of the client: its identifier, and for a subscription
its result, have to come in one piece. -/
structure Answer where
  packet : Packet
  fits : (fixedHeader packet).length + packet.body.length ≤ varHeaderBufferLen
  known : ctlPacketType packet.control = msgTypePingresp ∨
    (ctlPacketType packet.control ∈
        [msgTypePubrec, msgTypePubrel, msgTypeUnsuback, msgTypePubcomp, msgTypePuback] ∧
      2 ≤ packet.body.length ∨
      ctlPacketType packet.control = msgTypeSuback ∧ 3 ≤ packet.body.length) ∧
    u16At packet.body 0 ≠ 0

/-- The messages of a broker once the client is connected. -/
inductive Message
  | publish (m : Publish)
  | answer (a : Answer)

def Message.packet : Message → Packet
  | .publish m => m.packet
  | .answer a => a.packet

/-- The bytes after the fixed header that have to come in one piece. -/
def Message.headLength : Message → Nat
  | .publish m => m.head.length
  | .answer a => a.packet.body.length

def Message.Good : Message → Prop
  | .publish m => Sized m.packet ∧ m.Readable
  | .answer _ => True

/-- What comes of an answer: the next response of an exchange if there is room for it, or the
callback of a request that waits for it. -/
def Answer.reply (a : Answer) (client : Client) (before : List Output) : List Output :=
  let pktType := ctlPacketType a.packet.control
  let pktId := u16At a.packet.body 0
  if pktType = msgTypePingresp then []
  else if pktType = msgTypePubrec then
    if client.space before then [.response msgTypePubrel pktId 1] else []
  else if pktType = msgTypePubrel then
    if client.space before then [.response msgTypePubcomp pktId 0] else []
  else if client.waiting before pktId then
    [.answered pktId (pktType ≠ msgTypeSuback ∨ a.packet.body.getD 2 0 < 3)]
  else []

def Message.Delivered (client : Client) (before : List Output) : Message → List Output → Prop
  | .publish m, outputs => m.Delivered client before outputs
  | .answer a, outputs => outputs = a.reply client before

/-- What comes of messages, one after the other, behind `before`. -/
inductive Reacts (client : Client) (before : List Output) : List Message → List Output → Prop
  | nil : Reacts client before [] before
  | snoc {msgs : List Message} {msg : Message} {outputs outs : List Output} :
      Reacts client before msgs outputs → msg.Delivered client outputs outs →
      Reacts client before (msgs ++ [msg]) (outputs ++ outs)

def Message.Started : Message → Nat → List Output → Prop
  | .publish m, o, outputs => m.Started o outputs
  | .answer _, _, outputs => outputs = []

/-- What came of the message of which `k` bytes were read. -/
def Begun : List Message → Nat → List Output → Prop
  | [], k, outputs => k = 0 ∧ outputs = []
  | msg :: _, k, outputs =>
      k < msg.packet.encode.length ∧ msg.Started (k - (fixedHeader msg.packet).length) outputs

/-- No segment ends in the part of a message that has to come in one piece. -/
def Uncut (ends : List Nat) (start : Nat) (msg : Message) : Prop :=
  ∀ e ∈ ends, ¬ (start + (fixedHeader msg.packet).length < e ∧
    e < start + (fixedHeader msg.packet).length + msg.headLength)

theorem Message.Good.sized {msg : Message} (h : msg.Good) : Sized msg.packet := by
  cases msg with
  | publish m => exact h.1
  | answer a =>
      have hfits := a.fits
      have hbuffer : varHeaderBufferLen = 128 := rfl
      change a.packet.body.length < 128 ^ 4
      omega

theorem incomingAnswer_received (client : Client) (call : Call) (varHdrPayload : List UInt8)
    (pktId : UInt16) (c : Incoming)
    (hsuback : ctlPacketType call.control = msgTypeSuback → 3 ≤ call.length) :
    ∃ c', incomingAnswer client call varHdrPayload pktId c = some c' ∧
      c'.outputs = c.outputs ++ if client.waiting c.outputs pktId then
        [.answered pktId (ctlPacketType call.control ≠ msgTypeSuback ∨ varHdrPayload.getD 2 0 < 3)]
      else [] := by
  rw [incomingAnswer]
  split_ifs with hwaiting htype hshort
  · exact absurd (hsuback htype) (Nat.not_le.mpr hshort)
  · refine ⟨_, rfl, ?_⟩
    simp [Incoming.emit, htype]
  · refine ⟨_, rfl, ?_⟩
    simp [Incoming.emit, htype]
  · exact ⟨c, rfl, (List.append_nil _).symm⟩

theorem answer_received (client : Client) (a : Answer) (call : Call) (c : Incoming)
    (hcontrol : call.control = a.packet.control) (hlength : call.length = a.packet.body.length)
    (hheader : call.fixedHdrLen = (fixedHeader a.packet).length)
    (hpayload : call.payload.getD [] = a.packet.body) :
    ∃ c', mqttMessageReceived client call c = some c' ∧
      c'.outputs = c.outputs ++ a.reply client c.outputs := by
  have hfits := a.fits
  rw [mqttMessageReceived, Answer.reply, hpayload, hlength, hheader, if_neg (by omega), hcontrol]
  rcases a.known with htype | ⟨htype, hid⟩
  · rw [htype, if_neg (by decide), if_pos rfl, if_pos rfl]
    exact ⟨c, rfl, (List.append_nil _).symm⟩
  have hanswer := incomingAnswer_received client call a.packet.body (u16At a.packet.body 0) c
  rw [hcontrol, hlength] at hanswer
  rcases htype with ⟨htype, hlong⟩ | ⟨htype, hlong⟩
  · simp only [List.mem_cons, List.not_mem_nil, or_false] at htype
    rcases htype with htype | htype | htype | htype | htype <;> rw [htype] at hanswer ⊢ <;>
      rw [if_neg (by decide), if_neg (by decide), if_neg (by decide), if_neg (by omega), if_neg hid]
    · exact ⟨_, rfl, pubAckRecRelResponse_outputs client _ _ _ c⟩
    · exact ⟨_, rfl, pubAckRecRelResponse_outputs client _ _ _ c⟩
    · exact hanswer (fun heq => absurd heq (by decide))
    · exact hanswer (fun heq => absurd heq (by decide))
    · exact hanswer (fun heq => absurd heq (by decide))
  · rw [htype] at hanswer ⊢
    rw [if_neg (by decide), if_neg (by decide), if_neg (by decide), if_neg (by omega),
      if_neg hid, if_neg (by decide), if_neg (by decide), if_pos (.inl rfl), if_neg (by decide),
      if_neg (by decide), if_neg (by decide)]
    exact hanswer fun _ => hlong

variable {ends : List Nat} {start : Nat} {cs : List Call} {msg : Message} {msgs : List Message}

theorem answer_pieces {a : Answer} (hcut : Uncut ends start (.answer a))
    (h : Pieces ends start a.packet o cs) :
    o = 0 ∧ cs = [] ∨ 0 < o ∧ o = a.packet.body.length ∧
      cs = [pieceCall a.packet 0 a.packet.body.length] := by
  have hfits := a.fits
  induction h with
  | nil => exact .inl ⟨rfl, rfl⟩
  | @snoc o n cs hpieces hpiece ih =>
      have hpos := hpiece.pos
      have hle := hpiece.le
      rcases ih with ⟨rfl, rfl⟩ | ⟨-, rfl, -⟩
      · have hwhole : n = a.packet.body.length := by
          rcases hpiece.full with hfull | hall | hend
          · omega
          · omega
          · have hnot := hcut _ hend
            change ¬ (start + (fixedHeader a.packet).length < _ ∧
              _ < start + (fixedHeader a.packet).length + a.packet.body.length) at hnot
            omega
        subst hwhole
        exact .inr ⟨by omega, Nat.zero_add _, rfl⟩
      · omega

theorem message_received (client : Client) (hgood : msg.Good) (hcut : Uncut ends start msg)
    (h : Pieces ends start msg.packet o cs) (c : Incoming) :
    ∃ c' outs, received client c cs = some c' ∧ c'.outputs = c.outputs ++ outs ∧
      (o < msg.packet.body.length ∨ o = 0 → msg.Started o outs) ∧
      (o = msg.packet.body.length → 0 < o → msg.Delivered client c.outputs outs) := by
  cases msg with
  | publish m =>
      obtain ⟨c', outs, hrun, houts, -, hstarted, hall⟩ :=
        pieces_received client hgood.2 hcut h c
      refine ⟨c', outs, hrun, houts, ?_, fun heq _ => hall heq⟩
      rintro (hlt | rfl)
      · exact hstarted hlt
      · have hbody : m.packet.body.length = m.head.length + m.payload.length :=
          List.length_append
        have hhead := head_length m
        exact hstarted (by omega)
  | answer a =>
      rcases answer_pieces hcut h with ⟨rfl, rfl⟩ | ⟨hpos, rfl, rfl⟩
      · exact ⟨c, [], rfl, (List.append_nil _).symm, fun _ => rfl,
          fun _ hpos => absurd hpos (Nat.lt_irrefl 0)⟩
      · obtain ⟨c', hrun, houts⟩ := answer_received client a
          (pieceCall a.packet 0 a.packet.body.length) c rfl rfl rfl (List.take_length)
        refine ⟨c', _, ?_, houts, ?_, fun _ _ => rfl⟩
        · rw [← List.nil_append [_], received_snoc]
          exact hrun
        · rintro (hlt | hzero)
          · exact absurd hlt (Nat.lt_irrefl _)
          · omega

theorem whole_received (client : Client) (hgood : msg.Good) (hcut : Uncut ends start msg)
    (h : Whole ends start msg.packet cs) (c : Incoming) :
    ∃ c' outs, received client c cs = some c' ∧ c'.outputs = c.outputs ++ outs ∧
      msg.Delivered client c.outputs outs := by
  cases h with
  | pieces hbody hpieces =>
      obtain ⟨c', outs, hrun, houts, -, hall⟩ := message_received client hgood hcut hpieces c
      exact ⟨c', outs, hrun, houts, hall rfl (List.length_pos_iff.mpr hbody)⟩
  | header hbody =>
      cases msg with
      | publish m =>
          have hlength : (m.head ++ m.payload).length = 0 := congrArg List.length hbody
          have hhead := head_length m
          rw [List.length_append] at hlength
          omega
      | answer a =>
          obtain ⟨c', hrun, houts⟩ := answer_received client a
            ⟨a.packet.control, (fixedHeader a.packet).length, (fixedHeader a.packet).length, 0, 0,
              none⟩ c rfl (congrArg List.length hbody).symm rfl hbody.symm
          refine ⟨c', _, ?_, houts, rfl⟩
          rw [← List.nil_append [_], received_snoc]
          exact hrun

theorem framed_received (client : Client) (hgood : ∀ msg ∈ msgs, msg.Good)
    (hcut : ∀ before msg after, msgs = before ++ msg :: after →
      Uncut ends (encodedLength (before.map Message.packet)) msg)
    (h : Framed ends (msgs.map Message.packet) cs) (c : Incoming) :
    ∃ c', received client c cs = some c' ∧ Reacts client c.outputs msgs c'.outputs := by
  generalize hps : msgs.map Message.packet = ps at h
  induction h generalizing msgs with
  | nil =>
      obtain rfl := List.map_eq_nil_iff.mp hps
      exact ⟨c, rfl, .nil⟩
  | @snoc ps p cs group hframed hwhole ih =>
      obtain ⟨msgs, rest, rfl, rfl, hrest⟩ := List.map_eq_append_iff.mp hps
      obtain ⟨msg, rfl, rfl⟩ := List.map_eq_singleton_iff.mp hrest
      obtain ⟨c₁, hrun, hall⟩ := ih
        (fun m hm => hgood m (List.mem_append_left _ hm))
        (fun before m after heq => hcut before m (after ++ [msg]) (by simp [heq])) rfl
      obtain ⟨c', out, hrun', hout, hdelivered⟩ := whole_received client
        (hgood msg (by simp)) (hcut msgs msg [] rfl) hwhole c₁
      refine ⟨c', ?_, ?_⟩
      · rw [received_append, hrun]
        exact hrun'
      · rw [hout]
        exact .snoc hall hdelivered

/-- Whatever was handed on was accepted. -/
theorem handedOn_received (client : Client) {done : List Packet} {k : Nat}
    (hgood : ∀ msg ∈ msgs, msg.Good)
    (hcut : ∀ before msg after, msgs = before ++ msg :: after →
      Uncut ends (encodedLength (before.map Message.packet)) msg)
    (h : HandedOn ends (msgs.map Message.packet) done k cs) (c : Incoming) :
    ∃ shown later c' outputs rest, msgs = shown ++ later ∧ done = shown.map Message.packet ∧
      received client c cs = some c' ∧ c'.outputs = outputs ++ rest ∧
      Reacts client c.outputs shown outputs ∧ Begun later k rest := by
  obtain ⟨todo, before, group, hps, rfl, hframed, hopened⟩ := h
  obtain ⟨shown, later, rfl, rfl, rfl⟩ := List.map_eq_append_iff.mp hps
  obtain ⟨c₁, hrun, hall⟩ := framed_received client
    (fun m hm => hgood m (List.mem_append_left _ hm))
    (fun before m after heq => hcut before m (after ++ later) (by simp [heq])) hframed c
  cases later with
  | nil =>
      obtain ⟨rfl, rfl⟩ := hopened
      refine ⟨shown, [], c₁, c₁.outputs, [], rfl, rfl, ?_, (List.append_nil _).symm, hall, rfl, rfl⟩
      rw [List.append_nil, hrun]
  | cons msg later =>
      obtain ⟨hinside, hpieces⟩ := hopened
      obtain ⟨c', rest, hrun', hrest, hstarted, -⟩ := message_received client
        (hgood msg (by simp)) (hcut shown msg later rfl) hpieces c₁
      refine ⟨shown, msg :: later, c', c₁.outputs, rest, rfl, rfl, ?_, hrest, hall, hinside,
        hstarted ?_⟩
      · rw [received_append, hrun]
        exact hrun'
      · rw [encode_length] at hinside
        omega

end

/-- Wherever segments end but in a part that has to come in one piece, every message of the broker
is accepted, the application gets the topics and the payloads in order, each payload as a whole and
marked at its end, and the broker its acknowledgements as far as there is room for them. -/
theorem messages_delivered (client : Client) (c : Incoming) (msgs : List Message)
    (segs : List Pbuf) (post : List UInt8) (fuel : Nat) (hgood : ∀ msg ∈ msgs, msg.Good)
    (hstream : segs.flatMap Pbuf.bytes ++ post =
      (msgs.map Message.packet).flatMap Packet.encode)
    (hfits : AllFit (msgs.map Message.packet) 0 segs)
    (hfuel : ∀ seg ∈ segs, 7 * seg.bytes.length + 6 < fuel)
    (hcut : ∀ before msg after, msgs = before ++ msg :: after →
      Uncut (segmentEnds 0 segs) (encodedLength (before.map Message.packet)) msg) :
    ∃ r k shown later c' outputs rest,
      receive (answers client c) fuel segs {} = some (.accepted, r) ∧ msgs = shown ++ later ∧
      encodedLength (shown.map Message.packet) + k = (segs.flatMap Pbuf.bytes).length ∧
      received client c r.calls = some c' ∧ c'.outputs = outputs ++ rest ∧
      Reacts client c.outputs shown outputs ∧ Begun later k rest := by
  have hsized : ∀ p ∈ msgs.map Message.packet, Sized p := by
    intro p hp
    obtain ⟨msg, hmsg, rfl⟩ := List.mem_map.mp hp
    exact (hgood msg hmsg).sized
  obtain ⟨⟨sts, r⟩, hrun, hend⟩ := receive_end (answers client c) hsized hstream hfits hfuel
  cases sts with
  | accepted =>
      obtain ⟨done, todo, k, hps, hat, hbytes, -⟩ := hend
      have hhanded := hat.handedOn
      rw [← hps] at hhanded
      obtain ⟨shown, later, c', outputs, rest, hsplit, rfl, hreceived, houts, hall, hbegun⟩ :=
        handedOn_received client hgood hcut hhanded c
      exact ⟨r, k, shown, later, c', outputs, rest, hrun, hsplit, hbytes, hreceived, houts, hall,
        hbegun⟩
  | refused =>
      obtain ⟨hno, done, k, hhanded⟩ := hend
      obtain ⟨_, _, _, _, _, _, _, hreceived, -⟩ := handedOn_received client hgood hcut hhanded c
      rw [answers, hreceived] at hno
      exact absurd hno nofun
  | overrun => exact absurd hend id

def samplePublish : Publish := ⟨0x32, [97], 7, [33, 34], by decide, by decide⟩

theorem header_small {p : Packet} (h : p.body.length < 128) : (fixedHeader p).length = 2 := by
  rw [fixedHeader_length, Varint.encode_small h]
  rfl

def sampleAnswer : Answer where
  packet := ⟨0x40, [0, 9]⟩
  fits := by rw [header_small (by decide)]; decide
  known := .inr ⟨.inl ⟨by decide, by decide⟩, by decide⟩

/-- The client waits for the acknowledgement of a message with identifier 9. -/
def sampleClient : Client := ⟨fun _ pktId => pktId = 9, fun _ => true⟩

def sampleMessages : List Message := [.publish samplePublish, .answer sampleAnswer]

/-- The payload of the `PUBLISH` is cut, its second half comes with the `PUBACK`. -/
def sampleSegments : List Pbuf :=
  [⟨[[0x32, 7, 0, 1, 97, 0, 7, 33]], by decide⟩, ⟨[[34], [0x40, 2, 0, 9]], by decide⟩]

theorem messages_delivered_sample :
    ∃ r k shown later c' outputs rest,
      receive (answers sampleClient {}) 64 sampleSegments {} = some (.accepted, r) ∧
      sampleMessages = shown ++ later ∧
      encodedLength (shown.map Message.packet) + k = 13 ∧
      received sampleClient {} r.calls = some c' ∧ c'.outputs = outputs ++ rest ∧
      Reacts sampleClient [] shown outputs ∧ Begun later k rest := by
  have hpublish : (fixedHeader samplePublish.packet).length = 2 := header_small (by decide)
  have hanswer : (fixedHeader sampleAnswer.packet).length = 2 := header_small (by decide)
  have hsmall : ∀ p ∈ sampleMessages.map Message.packet, p.body.length < 128 := by decide
  apply messages_delivered sampleClient {} sampleMessages sampleSegments [] 64
  · simp only [sampleMessages, List.forall_mem_cons]
    refine ⟨⟨?_, ?_⟩, trivial, by simp⟩
    · exact Nat.lt_of_lt_of_le (show samplePublish.packet.body.length < 128 by decide) (by decide)
    · rw [Publish.Readable, hpublish]
      decide
  · simp only [sampleMessages, List.map_cons, List.map_nil, List.forall_mem_cons] at hsmall
    simp only [sampleMessages, List.map_cons, List.map_nil, List.flatMap_cons, List.flatMap_nil,
      Packet.encode, Varint.encode_small hsmall.1, Varint.encode_small hsmall.2.1]
    decide
  · refine allFit_of_small fun p hp => ?_
    simp only [sampleMessages, List.map_cons, List.map_nil, List.mem_cons, List.not_mem_nil,
      or_false] at hp
    rcases hp with rfl | rfl
    · rw [encode_length]
      change (fixedHeader samplePublish.packet).length + 7 ≤ 128
      omega
    · rw [encode_length]
      change (fixedHeader sampleAnswer.packet).length + 2 ≤ 128
      omega
  · decide
  · rintro before msg after h e he
    have hends : e = 8 ∨ e = 13 := by simpa [sampleSegments, segmentEnds, Pbuf.bytes] using he
    rcases before with _ | ⟨first, _ | ⟨second, before⟩⟩
    · obtain ⟨rfl, -⟩ := List.cons_eq_cons.mp h
      change ¬ (0 + (fixedHeader samplePublish.packet).length < e ∧
        e < 0 + (fixedHeader samplePublish.packet).length + 5)
      omega
    · obtain ⟨rfl, hrest⟩ := List.cons_eq_cons.mp h
      obtain ⟨rfl, -⟩ := List.cons_eq_cons.mp hrest
      have hlength : (Packet.encode samplePublish.packet).length = 9 := by
        rw [encode_length, hpublish]
        rfl
      change ¬ (encodedLength [samplePublish.packet] +
          (fixedHeader sampleAnswer.packet).length < e ∧
        e < encodedLength [samplePublish.packet] + (fixedHeader sampleAnswer.packet).length + 2)
      rw [encodedLength, List.flatMap_singleton]
      omega
    · simp [sampleMessages] at h

end ShGateway.MqttIncoming
