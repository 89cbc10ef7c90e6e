import ShGateway.Lib.Ring
import ShGateway.Lib.Runs
import ShGateway.Lib.Varint

/-!
The output of lwIP's `mqtt.c`: messages are built in a ring of 256 bytes, from which TCP takes as
much as it has room for.
-/

namespace ShGateway.MqttOutput

open ShGateway.Lib
open ShGateway.Lib.Ring (Represents contents)
open ShGateway.Lib.Runs

/-! ## The ring buffer -/

/-- `MQTT_OUTPUT_RINGBUF_SIZE`. -/
def ringSize : Nat := 256

/-- `struct mqtt_ringbuf_t`. -/
structure RingBuf where
  put : Nat := 0
  get : Nat := 0
  buf : Nat → UInt8 := fun _ => 0

def mqttRingbufPut (rb : RingBuf) (item : UInt8) : RingBuf where
  put := if rb.put + 1 ≥ ringSize then 0 else rb.put + 1
  get := rb.get
  buf := Function.update rb.buf rb.put item

def mqttRingbufAdvanceGetIdx (rb : RingBuf) (len : Nat) : RingBuf :=
  { rb with get := if rb.get + len ≥ ringSize then rb.get + len - ringSize else rb.get + len }

/-- `mqtt_ringbuf_len`: the difference of the indices as a `uint32_t`. -/
def mqttRingbufLen (rb : RingBuf) : Nat :=
  let len := (rb.put + 2 ^ 32 - rb.get) % 2 ^ 32
  (if len > 0xFFFF then len + ringSize else len) % 2 ^ 16

def mqttRingbufFree (rb : RingBuf) : Nat := ringSize - mqttRingbufLen rb

def mqttRingbufLinearReadLength (rb : RingBuf) : Nat :=
  min (mqttRingbufLen rb) (ringSize - rb.get)

/-- What TCP answers during a call: its buffer space before the first write and after it, and
whether the writes succeed. -/
structure TcpAnswers where
  sndbuf : Nat
  written : Bool
  sndbufAgain : Nat
  writtenAgain : Bool

/-- The bytes of a call of `altcp_write`. -/
def linearBytes (rb : RingBuf) (len : Nat) : List UInt8 :=
  (List.range len).map fun i => rb.buf (rb.get + i)

/-- `mqtt_output_send`, with the bytes that TCP takes. -/
def mqttOutputSend (tcp : TcpAnswers) (rb : RingBuf) : RingBuf × List UInt8 :=
  let linLen := mqttRingbufLinearReadLength rb
  if tcp.sndbuf = 0 ∨ linLen = 0 then (rb, [])
  else
    let sendLen := if tcp.sndbuf > linLen then linLen else tcp.sndbuf
    let wrap := decide (tcp.sndbuf > linLen) && decide (mqttRingbufLen rb > linLen)
    if tcp.written = true ∧ wrap = true then
      let taken := linearBytes rb sendLen
      let rb := mqttRingbufAdvanceGetIdx rb sendLen
      let sendLen := min tcp.sndbufAgain (mqttRingbufLinearReadLength rb)
      if tcp.writtenAgain = true then
        (mqttRingbufAdvanceGetIdx rb sendLen, taken ++ linearBytes rb sendLen)
      else (rb, taken)
    else if tcp.written = true then
      (mqttRingbufAdvanceGetIdx rb sendLen, linearBytes rb sendLen)
    else (rb, [])

/-! ## Message parts -/

def mqttOutputAppendU8 (rb : RingBuf) (value : UInt8) : RingBuf := mqttRingbufPut rb value

def mqttOutputAppendU16 (rb : RingBuf) (value : UInt16) : RingBuf :=
  mqttRingbufPut (mqttRingbufPut rb (value >>> 8).toUInt8) (value &&& 0xFF).toUInt8

def mqttOutputAppendBuf (rb : RingBuf) (data : List UInt8) : RingBuf :=
  data.foldl mqttRingbufPut rb

def mqttOutputAppendString (rb : RingBuf) (str : List UInt8) : RingBuf :=
  let length := UInt16.ofNat str.length
  mqttOutputAppendBuf
    (mqttRingbufPut (mqttRingbufPut rb (length >>> 8).toUInt8) (length &&& 0xFF).toUInt8) str

/-- The loop that encodes the remaining length. -/
def appendLength (rb : RingBuf) (rLength : Nat) : RingBuf :=
  let rb := mqttOutputAppendU8 rb
    (UInt8.ofNat (rLength &&& 0x7F) ||| if rLength ≥ 128 then 0x80 else 0)
  if 0 < rLength >>> 7 then appendLength rb (rLength >>> 7) else rb
termination_by rLength
decreasing_by
  rw [Nat.shiftRight_eq_div_pow] at *
  omega

/-- The control byte of a message. -/
def controlByte (msgType fdup fqos fretain : UInt8) : UInt8 :=
  ((msgType &&& 0x0F) <<< 4) ||| ((fdup &&& 1) <<< 3) ||| ((fqos &&& 3) <<< 1) ||| (fretain &&& 1)

def mqttOutputAppendFixedHeader (rb : RingBuf) (msgType fdup fqos fretain : UInt8)
    (rLength : Nat) : RingBuf :=
  appendLength (mqttOutputAppendU8 rb (controlByte msgType fdup fqos fretain)) rLength

/-- The loop that counts the bytes of the remaining length, in a `uint16_t`. -/
def addLengthBytes (totalLen rLength : Nat) : Nat :=
  if 0 < rLength >>> 7 then addLengthBytes ((totalLen + 1) % 2 ^ 16) (rLength >>> 7)
  else (totalLen + 1) % 2 ^ 16
termination_by rLength
decreasing_by
  rw [Nat.shiftRight_eq_div_pow] at *
  omega

def mqttOutputCheckSpace (rb : RingBuf) (rLength : Nat) : Bool :=
  decide (addLengthBytes ((1 + rLength) % 2 ^ 16) rLength ≤ mqttRingbufFree rb)

/-! ## Messages -/

def msgTypeConnect : UInt8 := 1
def msgTypePublish : UInt8 := 3
def msgTypePuback : UInt8 := 4
def msgTypePubrec : UInt8 := 5
def msgTypePubrel : UInt8 := 6
def msgTypePubcomp : UInt8 := 7
def msgTypeSubscribe : UInt8 := 8
def msgTypeUnsubscribe : UInt8 := 10
def msgTypePingreq : UInt8 := 12

/-- What `mqtt_publish` appends, `none` if it refuses. A null payload has no bytes. -/
def mqttPublish (topic payload : List UInt8) (qos retain : UInt8) (pktId : UInt16)
    (rb : RingBuf) : Option RingBuf :=
  if topic.length > 0xFFFF - 2 then none
  else
    let totalLen := 2 + topic.length + payload.length + if qos > 0 then 2 else 0
    if totalLen > 0xFFFF then none
    else if mqttOutputCheckSpace rb totalLen = false then none
    else
      let rb := mqttOutputAppendFixedHeader rb msgTypePublish 0 qos retain totalLen
      let rb := mqttOutputAppendString rb topic
      let rb := if qos > 0 then mqttOutputAppendU16 rb pktId else rb
      some (if payload.length > 0 then mqttOutputAppendBuf rb payload else rb)

/-- What `mqtt_sub_unsub` appends. -/
def mqttSubUnsub (topic : List UInt8) (qos : UInt8) (pktId : UInt16) (sub : Bool)
    (rb : RingBuf) : Option RingBuf :=
  if topic.length > 0xFFFF - 2 then none
  else
    let totalLen := topic.length + 2 + 2 + if sub then 1 else 0
    if totalLen > 0xFFFF then none
    else if mqttOutputCheckSpace rb totalLen = false then none
    else
      let rb := mqttOutputAppendFixedHeader rb
        (if sub then msgTypeSubscribe else msgTypeUnsubscribe) 0 1 0 totalLen
      let rb := mqttOutputAppendU16 rb pktId
      let rb := mqttOutputAppendString rb topic
      some (if sub then mqttOutputAppendU8 rb (min qos 2) else rb)

def pubAckRecRelResponse (msg : UInt8) (pktId : UInt16) (qos : UInt8) (rb : RingBuf) :
    Option RingBuf :=
  if mqttOutputCheckSpace rb 2 = false then none
  else some (mqttOutputAppendU16 (mqttOutputAppendFixedHeader rb msg 0 qos 0 2) pktId)

/-- The keep-alive message of `mqtt_cyclic_timer`. -/
def pingreq (rb : RingBuf) : Option RingBuf :=
  if mqttOutputCheckSpace rb 0 = false then none
  else some (mqttOutputAppendFixedHeader rb msgTypePingreq 0 0 0 0)

/-- The will of `struct mqtt_connect_client_info_t`, if it has a topic and a message. -/
structure Will where
  topic : List UInt8
  msg : List UInt8
  qos : UInt8
  retain : Bool

/-- `struct mqtt_connect_client_info_t`. -/
structure ClientInfo where
  clientId : List UInt8
  user : Option (List UInt8)
  pass : Option (List UInt8)
  keepAlive : UInt16
  will : Option Will

def connectFlags (info : ClientInfo) : UInt8 :=
  let flags : UInt8 := match info.will with
    | some will => (0x04 : UInt8) ||| ((will.qos &&& 3) <<< 3) ||| (if will.retain then 0x20 else 0)
    | none => 0
  let flags := if info.user.isSome then flags ||| 0x80 else flags
  let flags := if info.pass.isSome then flags ||| 0x40 else flags
  flags ||| 0x02

/-- The remaining length with a will, `none` if a text is too long or the topic is empty. -/
def addWill (len : Nat) : Option Will → Option Nat
  | none => some len
  | some will =>
      if will.topic.length > 0xFF ∨ will.topic.length = 0 ∨ will.msg.length > 0xFF then none
      else if len + 2 + will.topic.length + 2 + will.msg.length > 0xFFFF then none
      else some (len + 2 + will.topic.length + 2 + will.msg.length)

/-- The remaining length with a user name or a password. -/
def addText (len : Nat) : Option (List UInt8) → Option Nat
  | none => some len
  | some str =>
      if str.length > 0xFFFF ∨ str.length = 0 then none
      else if len + 2 + str.length > 0xFFFF then none
      else some (len + 2 + str.length)

/-- The remaining length with the client's name, which may be empty. -/
def addClientId (len : Nat) (clientId : List UInt8) : Option Nat :=
  if clientId.length > 0xFFFF then none
  else if len + 2 + clientId.length > 0xFFFF then none
  else some (len + 2 + clientId.length)

/-- The remaining length of `CONNECT`. -/
def connectLength (info : ClientInfo) : Option Nat := do
  let len ← addWill (2 + 4 + 1 + 1 + 2) info.will
  let len ← addText len info.user
  let len ← addText len info.pass
  addClientId len info.clientId

/-- An optional text. -/
def appendOption (rb : RingBuf) : Option (List UInt8) → RingBuf
  | some str => mqttOutputAppendString rb str
  | none => rb

/-- What `mqtt_client_connect` appends once the connection attempt is under way. -/
def mqttClientConnect (info : ClientInfo) (rb : RingBuf) : Option RingBuf :=
  match connectLength info with
  | none => none
  | some remainingLength =>
      if mqttOutputCheckSpace rb remainingLength = false then none
      else
        let rb := mqttOutputAppendFixedHeader rb msgTypeConnect 0 0 0 remainingLength
        let rb := mqttOutputAppendString rb [77, 81, 84, 84]
        let rb := mqttOutputAppendU8 rb 4
        let rb := mqttOutputAppendU8 rb (connectFlags info)
        let rb := mqttOutputAppendU16 rb info.keepAlive
        let rb := mqttOutputAppendString rb info.clientId
        let rb := match info.will with
          | some will => mqttOutputAppendString (mqttOutputAppendString rb will.topic) will.msg
          | none => rb
        some (appendOption (appendOption rb info.user) info.pass)

/-! ## Packets -/

/-- A message on the wire: its control byte and what follows the remaining length. -/
structure Packet where
  control : UInt8
  body : List UInt8

def Packet.encode (p : Packet) : List UInt8 :=
  p.control :: (Varint.encode p.body.length ++ p.body)

/-- A text with its length in front. -/
def lengthPrefixed (str : List UInt8) : List UInt8 :=
  [(UInt16.ofNat str.length >>> 8).toUInt8, (UInt16.ofNat str.length &&& 0xFF).toUInt8] ++ str

def bigEndian (value : UInt16) : List UInt8 := [(value >>> 8).toUInt8, (value &&& 0xFF).toUInt8]

/-- The calls that build a message. -/
inductive Request
  | publish (topic payload : List UInt8) (qos retain : UInt8) (pktId : UInt16)
  | subUnsub (topic : List UInt8) (qos : UInt8) (pktId : UInt16) (sub : Bool)
  | response (msg : UInt8) (pktId : UInt16) (qos : UInt8)
  | ping
  | connect (info : ClientInfo)

/-- The function that builds the message. -/
def Request.output : Request → RingBuf → Option RingBuf
  | .publish topic payload qos retain pktId => mqttPublish topic payload qos retain pktId
  | .subUnsub topic qos pktId sub => mqttSubUnsub topic qos pktId sub
  | .response msg pktId qos => pubAckRecRelResponse msg pktId qos
  | .ping => pingreq
  | .connect info => mqttClientConnect info

/-- The fields of `CONNECT`. -/
def connectBody (info : ClientInfo) : List UInt8 :=
  lengthPrefixed [77, 81, 84, 84] ++ [4, connectFlags info] ++ bigEndian info.keepAlive ++
    lengthPrefixed info.clientId ++
    (match info.will with
      | some will => lengthPrefixed will.topic ++ lengthPrefixed will.msg
      | none => []) ++
    (info.user.map lengthPrefixed).getD [] ++ (info.pass.map lengthPrefixed).getD []

/-- The message of a request whose arguments are in order. -/
def Request.packet : Request → Option Packet
  | .publish topic payload qos retain pktId =>
      if topic.length ≤ 0xFFFF - 2 ∧
          2 + topic.length + payload.length + (if qos > 0 then 2 else 0) ≤ 0xFFFF then
        some ⟨controlByte msgTypePublish 0 qos retain,
          lengthPrefixed topic ++ (if qos > 0 then bigEndian pktId else []) ++ payload⟩
      else none
  | .subUnsub topic qos pktId sub =>
      if topic.length ≤ 0xFFFF - 2 ∧ topic.length + 2 + 2 + (if sub then 1 else 0) ≤ 0xFFFF then
        some ⟨controlByte (if sub then msgTypeSubscribe else msgTypeUnsubscribe) 0 1 0,
          bigEndian pktId ++ lengthPrefixed topic ++ (if sub then [min qos 2] else [])⟩
      else none
  | .response msg pktId qos => some ⟨controlByte msg 0 qos 0, bigEndian pktId⟩
  | .ping => some ⟨controlByte msgTypePingreq 0 0 0, []⟩
  | .connect info =>
      (connectLength info).map fun _ => ⟨controlByte msgTypeConnect 0 0 0, connectBody info⟩

section

variable {rb : RingBuf}

theorem appendBuf_append (xs ys : List UInt8) :
    mqttOutputAppendBuf (mqttOutputAppendBuf rb xs) ys = mqttOutputAppendBuf rb (xs ++ ys) :=
  (List.foldl_append).symm

theorem appendU8_eq (value : UInt8) :
    mqttOutputAppendU8 rb value = mqttOutputAppendBuf rb [value] := rfl

theorem appendU16_eq (value : UInt16) :
    mqttOutputAppendU16 rb value = mqttOutputAppendBuf rb (bigEndian value) := rfl

theorem appendString_eq (str : List UInt8) :
    mqttOutputAppendString rb str = mqttOutputAppendBuf rb (lengthPrefixed str) := rfl

theorem appendOption_eq (str : Option (List UInt8)) :
    appendOption rb str = mqttOutputAppendBuf rb ((str.map lengthPrefixed).getD []) := by
  cases str <;> rfl

theorem lengthByte_eq (n : Nat) :
    (UInt8.ofNat (n &&& 0x7F) ||| if n ≥ 128 then 0x80 else 0) =
      if n < 128 then UInt8.ofNat n else UInt8.ofNat (n % 128 + 128) := by
  have hmask : n &&& 0x7F = n % 128 := Nat.and_two_pow_sub_one_eq_mod n 7
  rw [hmask]
  split_ifs with hge hlt
  · omega
  · have hlow : n % 128 % 2 ^ 8 = n % 128 := Nat.mod_eq_of_lt (by omega)
    have hsum : (n % 128 + 128) % 2 ^ 8 = n % 128 + 128 := Nat.mod_eq_of_lt (by omega)
    have hor := Nat.two_pow_add_eq_or_of_lt (show n % 128 < 2 ^ 7 by omega) 1
    apply UInt8.toNat_inj.mp
    rw [UInt8.toNat_or, UInt8.toNat_ofNat', UInt8.toNat_ofNat', hlow, hsum, Nat.or_comm]
    change 2 ^ 7 * 1 ||| n % 128 = _
    omega
  · rw [Nat.mod_eq_of_lt (by omega)]
    exact UInt8.or_zero
  · omega

theorem appendLength_eq (n : Nat) :
    appendLength rb n = mqttOutputAppendBuf rb (Varint.encode n) := by
  induction n using Varint.encode.induct generalizing rb with
  | case1 n hn =>
      have hzero : ¬ 0 < n >>> 7 := by
        rw [Nat.shiftRight_eq_div_pow]
        omega
      rw [appendLength, lengthByte_eq, if_pos hn, if_neg hzero, Varint.encode_small hn]
      rfl
  | case2 n hn ih =>
      have hdiv : n >>> 7 = n / 128 := Nat.shiftRight_eq_div_pow n 7
      rw [appendLength, lengthByte_eq, if_neg hn, hdiv, if_pos (by omega), ih, appendU8_eq,
        appendBuf_append, Varint.encode_large (show 128 ≤ n by omega)]
      rfl

theorem appendFixedHeader_eq (msgType fdup fqos fretain : UInt8) (n : Nat) :
    mqttOutputAppendFixedHeader rb msgType fdup fqos fretain n =
      mqttOutputAppendBuf rb (controlByte msgType fdup fqos fretain :: Varint.encode n) := by
  rw [mqttOutputAppendFixedHeader, appendLength_eq, appendU8_eq, appendBuf_append]
  rfl

/-- A message that passes the space check is put into the ring. -/
def Packet.enqueue (p : Packet) (rb : RingBuf) : Option RingBuf :=
  if mqttOutputCheckSpace rb p.body.length = false then none
  else some (mqttOutputAppendBuf rb p.encode)

end

/-! ## What the calls append -/

section

variable {rb : RingBuf}

theorem lengthPrefixed_length (str : List UInt8) :
    (lengthPrefixed str).length = str.length + 2 := by
  rw [lengthPrefixed, List.length_append, Nat.add_comm]
  rfl

theorem bigEndian_length (value : UInt16) : (bigEndian value).length = 2 := rfl

theorem addWill_eq {len n : Nat} {will : Option Will} (h : addWill len will = some n) :
    n = len + (match will with
      | some will => lengthPrefixed will.topic ++ lengthPrefixed will.msg
      | none => []).length := by
  cases will with
  | none => exact (Option.some.inj h).symm
  | some will =>
      rw [addWill] at h
      split_ifs at h
      rw [← Option.some.inj h]
      dsimp only
      rw [List.length_append, lengthPrefixed_length, lengthPrefixed_length]
      omega

theorem addText_eq {len n : Nat} {str : Option (List UInt8)} (h : addText len str = some n) :
    n = len + ((str.map lengthPrefixed).getD []).length := by
  cases str with
  | none => exact (Option.some.inj h).symm
  | some str =>
      rw [addText] at h
      split_ifs at h
      rw [← Option.some.inj h]
      dsimp only [Option.map_some, Option.getD_some]
      rw [lengthPrefixed_length]
      omega

theorem connectLength_eq {info : ClientInfo} {n : Nat} (h : connectLength info = some n) :
    n = (connectBody info).length ∧ n ≤ 0xFFFF := by
  rw [connectLength] at h
  obtain ⟨n₁, h₁, h⟩ := Option.bind_eq_some_iff.mp h
  obtain ⟨n₂, h₂, h⟩ := Option.bind_eq_some_iff.mp h
  obtain ⟨n₃, h₃, h⟩ := Option.bind_eq_some_iff.mp h
  have hwill := addWill_eq h₁
  have huser := addText_eq h₂
  have hpass := addText_eq h₃
  rw [addClientId] at h
  split_ifs at h with hid hmax
  have hn := Option.some.inj h
  refine ⟨?_, by omega⟩
  simp only [connectBody, List.length_append, lengthPrefixed_length, bigEndian_length,
    List.length_cons, List.length_nil]
  omega

theorem publish_output (topic payload : List UInt8) (qos retain : UInt8) (pktId : UInt16) :
    mqttPublish topic payload qos retain pktId rb =
      (Request.publish topic payload qos retain pktId).packet.bind (·.enqueue rb) := by
  rw [mqttPublish, Request.packet]
  by_cases htopic : topic.length > 0xFFFF - 2
  · rw [if_pos htopic, if_neg (by omega)]
    rfl
  rw [if_neg htopic]
  dsimp only
  by_cases htotal : 2 + topic.length + payload.length + (if qos > 0 then 2 else 0) > 0xFFFF
  · rw [if_pos htotal, if_neg fun hok => Nat.not_le_of_gt htotal hok.2]
    rfl
  have hok : topic.length ≤ 0xFFFF - 2 ∧
      2 + topic.length + payload.length + (if qos > 0 then 2 else 0) ≤ 0xFFFF :=
    ⟨Nat.le_of_not_gt htopic, Nat.le_of_not_gt htotal⟩
  rw [if_neg htotal, if_pos hok, Option.bind_some, Packet.enqueue]
  have hlength : (lengthPrefixed topic ++ (if qos > 0 then bigEndian pktId else []) ++
      payload).length = 2 + topic.length + payload.length + (if qos > 0 then 2 else 0) := by
    rw [List.length_append, List.length_append, lengthPrefixed_length]
    split_ifs
    · rw [bigEndian_length]
      omega
    · rw [List.length_nil]
      omega
  rw [hlength]
  refine if_congr Iff.rfl rfl (congrArg some ?_)
  have hpktId : ∀ rb, (if qos > 0 then mqttOutputAppendU16 rb pktId else rb) =
      mqttOutputAppendBuf rb (if qos > 0 then bigEndian pktId else []) := by
    intro rb
    split_ifs <;> rfl
  have hpayload : ∀ rb, (if payload.length > 0 then mqttOutputAppendBuf rb payload else rb) =
      mqttOutputAppendBuf rb payload := by
    intro rb
    rcases payload with _ | ⟨b, bs⟩ <;> rfl
  rw [hpayload, hpktId, appendString_eq, appendFixedHeader_eq, appendBuf_append,
    appendBuf_append, appendBuf_append, Packet.encode, hlength]
  simp only [List.cons_append, List.append_assoc]

theorem subUnsub_output (topic : List UInt8) (qos : UInt8) (pktId : UInt16) (sub : Bool) :
    mqttSubUnsub topic qos pktId sub rb =
      (Request.subUnsub topic qos pktId sub).packet.bind (·.enqueue rb) := by
  rw [mqttSubUnsub, Request.packet]
  by_cases htopic : topic.length > 0xFFFF - 2
  · rw [if_pos htopic, if_neg (by omega)]
    rfl
  rw [if_neg htopic]
  dsimp only
  by_cases htotal : topic.length + 2 + 2 + (if sub then 1 else 0) > 0xFFFF
  · rw [if_pos htotal, if_neg fun hok => Nat.not_le_of_gt htotal hok.2]
    rfl
  have hok : topic.length ≤ 0xFFFF - 2 ∧
      topic.length + 2 + 2 + (if sub then 1 else 0) ≤ 0xFFFF :=
    ⟨Nat.le_of_not_gt htopic, Nat.le_of_not_gt htotal⟩
  rw [if_neg htotal, if_pos hok, Option.bind_some, Packet.enqueue]
  have hlength : (bigEndian pktId ++ lengthPrefixed topic ++
      (if sub then [min qos 2] else [])).length =
      topic.length + 2 + 2 + (if sub then 1 else 0) := by
    rw [List.length_append, List.length_append, lengthPrefixed_length, bigEndian_length]
    cases sub
    · change 2 + (topic.length + 2) + 0 = topic.length + 2 + 2 + 0
      omega
    · change 2 + (topic.length + 2) + 1 = topic.length + 2 + 2 + 1
      omega
  rw [hlength]
  refine if_congr Iff.rfl rfl (congrArg some ?_)
  have hqos : ∀ rb, (if sub then mqttOutputAppendU8 rb (min qos 2) else rb) =
      mqttOutputAppendBuf rb (if sub then [min qos 2] else []) := by
    intro rb
    cases sub <;> rfl
  rw [hqos, appendString_eq, appendU16_eq, appendFixedHeader_eq, appendBuf_append,
    appendBuf_append, appendBuf_append, Packet.encode, hlength]
  simp only [List.cons_append, List.append_assoc]

theorem connect_output (info : ClientInfo) :
    mqttClientConnect info rb = (Request.connect info).packet.bind (·.enqueue rb) := by
  rw [mqttClientConnect, Request.packet]
  rcases hlen : connectLength info with _ | n
  · rfl
  have hbody := (connectLength_eq hlen).1
  dsimp only [Option.map_some, Option.bind_some]
  rw [Packet.enqueue, ← hbody]
  refine if_congr Iff.rfl rfl (congrArg some ?_)
  have hwill : ∀ rb, (match info.will with
      | some will => mqttOutputAppendString (mqttOutputAppendString rb will.topic) will.msg
      | none => rb) =
      mqttOutputAppendBuf rb (match info.will with
        | some will => lengthPrefixed will.topic ++ lengthPrefixed will.msg
        | none => []) := by
    intro rb
    rcases info.will with _ | will
    · rfl
    · exact appendBuf_append (lengthPrefixed will.topic) (lengthPrefixed will.msg)
  rw [appendOption_eq, appendOption_eq, hwill, appendString_eq, appendU16_eq, appendU8_eq,
    appendU8_eq, appendString_eq, appendFixedHeader_eq, Packet.encode, ← hbody]
  simp only [appendBuf_append, connectBody, List.cons_append, List.append_assoc, List.nil_append]

/-- Every call appends its message in one piece if its arguments are in order and the space check
passes, and nothing otherwise. The remaining length is that of what follows. -/
theorem Request.output_eq (r : Request) : r.output rb = r.packet.bind (·.enqueue rb) := by
  cases r with
  | publish topic payload qos retain pktId => exact publish_output topic payload qos retain pktId
  | subUnsub topic qos pktId sub => exact subUnsub_output topic qos pktId sub
  | response msg pktId qos =>
      rw [Request.output, Request.packet, pubAckRecRelResponse, Option.bind_some,
        Packet.enqueue, bigEndian_length, appendU16_eq, appendFixedHeader_eq, appendBuf_append]
      rfl
  | ping =>
      rw [Request.output, Request.packet, pingreq, Option.bind_some, Packet.enqueue,
        appendFixedHeader_eq, List.length_nil, Packet.encode, List.length_nil, List.append_nil]
  | connect info => exact connect_output info

end

/-! ## The stream -/

/-- The ring, the bytes that TCP has taken, and the messages that were accepted. -/
structure Output where
  rb : RingBuf := {}
  taken : List UInt8 := []
  accepted : List Packet := []

/-- A call that builds a message, with whether there is a free request for it, or an attempt to
send: after such a call, when TCP has sent something, or when it polls. -/
inductive Event
  | request (r : Request) (free : Bool)
  | send (tcp : TcpAnswers)

def Output.step (s : Output) : Event → Output
  | .request r free =>
      if free = false then s
      else
        match r.output s.rb with
        | some rb => { s with rb, accepted := s.accepted ++ r.packet.toList }
        | none => s
  | .send tcp =>
      let (rb, bytes) := mqttOutputSend tcp s.rb
      { s with rb, taken := s.taken ++ bytes }

/-- The bytes in the ring, by its indices. -/
def pending (rb : RingBuf) : List UInt8 := contents ringSize rb.buf rb.put rb.get

def run (evs : List Event) : Output := evs.foldl Output.step {}

/-- TCP has taken, or will find in the ring, the accepted messages one after the other. -/
def Intact (s : Output) : Prop := s.taken ++ pending s.rb = s.accepted.flatMap Packet.encode

/-- A message that is accepted does not fill the ring. -/
def LeavesRoom (s : Output) (ev : Event) : Prop :=
  ∀ r p, ev = .request r true → r.packet = some p →
    mqttOutputCheckSpace s.rb p.body.length = true →
    (pending s.rb).length + p.encode.length < ringSize

section

variable {rb : RingBuf} {xs : List UInt8}

/-- The ring holds `xs`. -/
def Holds (rb : RingBuf) (xs : List UInt8) : Prop := Represents ringSize rb.buf rb.put rb.get xs

theorem Holds.pending_eq (h : Holds rb xs) : pending rb = xs := h.contents_eq

theorem Holds.put_lt (h : Holds rb xs) : rb.put < ringSize := by
  rw [h.head_eq]
  exact Nat.mod_lt _ (by decide)

theorem Holds.len_eq (h : Holds rb xs) : mqttRingbufLen rb = xs.length := by
  have hget : rb.get < ringSize := h.tail_lt
  have hput := h.put_lt
  have hlen : (rb.put + ringSize - rb.get) % ringSize = xs.length := h.length_eq
  rw [mqttRingbufLen]
  simp only [ringSize] at *
  split_ifs <;> omega

theorem Holds.put_byte (h : Holds rb xs) (hroom : xs.length + 1 < ringSize) (b : UInt8) :
    Holds (mqttRingbufPut rb b) (xs ++ [b]) := by
  have hput := h.put_lt
  have hnext : (if rb.put + 1 ≥ ringSize then 0 else rb.put + 1) = (rb.put + 1) % ringSize := by
    rcases Nat.lt_or_ge (rb.put + 1) ringSize with hlt | hge
    · rw [if_neg (Nat.not_le_of_gt hlt), Nat.mod_eq_of_lt hlt]
    · have hlast : rb.put + 1 = ringSize := by omega
      rw [if_pos hge, hlast, Nat.mod_self]
  have hpush := Represents.push h hroom b
  rw [← hnext] at hpush
  exact hpush

theorem Holds.append (h : Holds rb xs) {bs : List UInt8} (hroom : xs.length + bs.length < ringSize) :
    Holds (mqttOutputAppendBuf rb bs) (xs ++ bs) := by
  induction bs generalizing rb xs with
  | nil =>
      rw [List.append_nil]
      exact h
  | cons b bs ih =>
      rw [List.length_cons] at hroom
      have hput := h.put_byte (show xs.length + 1 < ringSize by omega) b
      have hrest := ih hput (by rw [List.length_append, List.length_singleton]; omega)
      rw [List.append_assoc] at hrest
      exact hrest

theorem Holds.advance (h : Holds rb xs) {k : Nat} (hk : k ≤ xs.length) :
    Holds (mqttRingbufAdvanceGetIdx rb k) (xs.drop k) := by
  have hget : rb.get < ringSize := h.tail_lt
  have hroom : xs.length < ringSize := h.room
  have hnext : (if rb.get + k ≥ ringSize then rb.get + k - ringSize else rb.get + k) =
      (rb.get + k) % ringSize := by
    rcases Nat.lt_or_ge (rb.get + k) ringSize with hlt | hge
    · rw [if_neg (Nat.not_le_of_gt hlt), Nat.mod_eq_of_lt hlt]
    · rw [if_pos hge, Nat.mod_eq_sub_mod hge, Nat.mod_eq_of_lt (by omega)]
  have hdrop := Represents.drop h hk
  rw [← hnext] at hdrop
  exact hdrop

theorem Holds.linear (h : Holds rb xs) {k : Nat} (hk : k ≤ mqttRingbufLinearReadLength rb) :
    k ≤ xs.length ∧ linearBytes rb k = xs.take k := by
  have hget : rb.get < ringSize := h.tail_lt
  rw [mqttRingbufLinearReadLength, h.len_eq] at hk
  have hle : k ≤ xs.length := hk.trans (Nat.min_le_left _ _)
  have hlin : k ≤ ringSize - rb.get := hk.trans (Nat.min_le_right _ _)
  exact ⟨hle, Represents.linear h hle (by omega)⟩

/-- Whatever TCP answers, it takes the oldest bytes, and the others stay. -/
theorem mqttOutputSend_takes (h : Holds rb xs) (tcp : TcpAnswers) :
    ∃ k, (mqttOutputSend tcp rb).2 = xs.take k ∧ Holds (mqttOutputSend tcp rb).1 (xs.drop k) := by
  have hnone : ∃ k, ([] : List UInt8) = xs.take k ∧ Holds rb (xs.drop k) := ⟨0, rfl, h⟩
  rw [mqttOutputSend]
  by_cases hidle : tcp.sndbuf = 0 ∨ mqttRingbufLinearReadLength rb = 0
  · rw [if_pos hidle]
    exact hnone
  rw [if_neg hidle]
  dsimp only
  obtain ⟨k, hk, hsend⟩ : ∃ k, k ≤ mqttRingbufLinearReadLength rb ∧
      (if tcp.sndbuf > mqttRingbufLinearReadLength rb then mqttRingbufLinearReadLength rb
        else tcp.sndbuf) = k := ⟨_, by split_ifs <;> omega, rfl⟩
  rw [hsend]
  obtain ⟨hle, htake⟩ := h.linear hk
  have hfirst := h.advance hle
  by_cases hboth : tcp.written = true ∧ (decide (tcp.sndbuf > mqttRingbufLinearReadLength rb) &&
      decide (mqttRingbufLen rb > mqttRingbufLinearReadLength rb)) = true
  · rw [if_pos hboth]
    obtain ⟨hle', htake'⟩ := hfirst.linear (Nat.min_le_right tcp.sndbufAgain _)
    by_cases hagain : tcp.writtenAgain = true
    · rw [if_pos hagain, htake, htake']
      refine ⟨k + min tcp.sndbufAgain
        (mqttRingbufLinearReadLength (mqttRingbufAdvanceGetIdx rb k)), ?_, ?_⟩
      · exact List.take_add.symm
      · rw [← List.drop_drop]
        exact hfirst.advance hle'
    · rw [if_neg hagain]
      exact ⟨k, htake, hfirst⟩
  · rw [if_neg hboth]
    by_cases hwritten : tcp.written = true
    · rw [if_pos hwritten]
      exact ⟨k, htake, hfirst⟩
    · rw [if_neg hwritten]
      exact hnone

end

/-! ## Runs -/

/-- The ring holds what TCP has not taken of the accepted messages. -/
structure Streaming (s : Output) : Prop where
  holds : Holds s.rb (pending s.rb)
  intact : Intact s

section

variable {s : Output} {ev : Event}

theorem step_request (s : Output) (r : Request) (free : Bool) :
    s.step (.request r free) = s ∨
      ∃ p, free = true ∧ r.packet = some p ∧
        mqttOutputCheckSpace s.rb p.body.length = true ∧
        s.step (.request r free) =
          { s with
            rb := mqttOutputAppendBuf s.rb p.encode
            accepted := s.accepted ++ [p] } := by
  rcases free with _ | _
  · exact .inl rfl
  rcases hp : r.packet with _ | p
  · left
    simp only [Output.step, Request.output_eq, hp, Option.bind_none, Bool.true_eq_false, if_false]
  rcases hspace : mqttOutputCheckSpace s.rb p.body.length with _ | _
  · left
    simp only [Output.step, Request.output_eq, hp, Option.bind_some, Packet.enqueue, hspace,
      Bool.true_eq_false, if_false, if_true]
  · right
    refine ⟨p, rfl, rfl, hspace, ?_⟩
    simp only [Output.step, Request.output_eq, hp, Option.bind_some, Packet.enqueue, hspace,
      Bool.true_eq_false, if_false, Option.toList_some]

theorem Streaming.send (h : Streaming s) (tcp : TcpAnswers) : Streaming (s.step (.send tcp)) := by
  obtain ⟨k, htaken, hholds⟩ := mqttOutputSend_takes h.holds tcp
  constructor
  · change Holds (mqttOutputSend tcp s.rb).1 (pending (mqttOutputSend tcp s.rb).1)
    rw [hholds.pending_eq]
    exact hholds
  · change (s.taken ++ (mqttOutputSend tcp s.rb).2) ++ pending (mqttOutputSend tcp s.rb).1 = _
    rw [htaken, hholds.pending_eq, List.append_assoc, List.take_append_drop]
    exact h.intact

theorem Streaming.accept (h : Streaming s) {p : Packet}
    (hroom : (pending s.rb).length + p.encode.length < ringSize) :
    Streaming { s with
      rb := mqttOutputAppendBuf s.rb p.encode
      accepted := s.accepted ++ [p] } := by
  have happend := h.holds.append hroom
  constructor
  · change Holds _ (pending (mqttOutputAppendBuf s.rb p.encode))
    rw [happend.pending_eq]
    exact happend
  · change s.taken ++ pending (mqttOutputAppendBuf s.rb p.encode) = _
    rw [happend.pending_eq, ← List.append_assoc, h.intact, List.flatMap_append]
    simp

/-- A message that fills the ring is lost, with all that was still in it. -/
theorem not_intact_accept (h : Streaming s) {p : Packet}
    (hfull : ¬ (pending s.rb).length + p.encode.length < ringSize) :
    ¬ Intact { s with
      rb := mqttOutputAppendBuf s.rb p.encode
      accepted := s.accepted ++ [p] } := by
  intro hintact
  have hlen := congrArg List.length hintact
  have hold := congrArg List.length h.intact
  have hshort : (pending (mqttOutputAppendBuf s.rb p.encode)).length < ringSize :=
    Ring.contents_length_lt (by decide) _ _ _
  simp only [List.length_append, List.flatMap_append, List.flatMap_cons, List.flatMap_nil,
    List.append_nil] at hlen hold
  omega

theorem Streaming.step_iff (h : Streaming s) (ev : Event) :
    Intact (s.step ev) ↔ LeavesRoom s ev := by
  cases ev with
  | send tcp =>
      exact iff_of_true (h.send tcp).intact fun r p hev => by cases hev
  | request r free =>
      rcases step_request s r free with hsame | ⟨p, rfl, hp, hspace, hstep⟩
      · rw [hsame]
        refine iff_of_true h.intact fun r' p hev hp hspace => ?_
        -- a step that changes nothing has accepted nothing
        obtain ⟨rfl, rfl⟩ := Event.request.inj hev
        have haccepted := congrArg (fun s => s.accepted.length) hsame
        simp [Output.step, Request.output_eq, hp, Packet.enqueue, hspace] at haccepted
      · rw [hstep]
        constructor
        · intro hintact r' p' hev hp' _
          obtain ⟨rfl, -⟩ := Event.request.inj hev
          obtain rfl := Option.some.inj (hp.symm.trans hp')
          by_contra hfull
          exact not_intact_accept h hfull hintact
        · intro hroom
          exact (h.accept (hroom r p rfl hp hspace)).intact

theorem Streaming.step (h : Streaming s) (hroom : LeavesRoom s ev) : Streaming (s.step ev) := by
  cases ev with
  | send tcp => exact h.send tcp
  | request r free =>
      rcases step_request s r free with hsame | ⟨p, rfl, hp, hspace, hstep⟩
      · rw [hsame]
        exact h
      · rw [hstep]
        exact h.accept (hroom r p rfl hp hspace)

end

theorem streaming_init : Streaming {} where
  holds := Ring.represents_nil _ (by decide)
  intact := rfl

end ShGateway.MqttOutput
