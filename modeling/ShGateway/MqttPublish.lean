import ShGateway.Lib.Ring

/-!
The queue of outgoing messages in `mqtt_app.c`. What `mqtt_publish` does is left
to a function on a world `W`.
-/

namespace ShGateway.MqttPublish

open ShGateway.Lib.Ring

def mqttQueueSize : Nat := 64
def mqttMaxTopicLen : Nat := 40
def mqttMaxPayloadLen : Nat := 16

/-- `mqtt_msg_t`. -/
structure MqttMsg where
  topic : List UInt8 := List.replicate mqttMaxTopicLen 0
  payload : List UInt8 := List.replicate mqttMaxPayloadLen 0
  payloadLen : Nat := 0
  qos : UInt8 := 0
  retain : UInt8 := 0
deriving DecidableEq, Repr

/-- `mqtt_queue_t`. -/
structure MqttQueue where
  storage : Nat → MqttMsg := fun _ => {}
  head : Nat := 0
  tail : Nat := 0
  isSending : Bool := false

inductive MqttState
  | off
  | outOfMem
  | connRetry
  | connected
deriving DecidableEq, Repr

/-- `mqtt_dbg_t`. -/
structure MqttDbg where
  status : MqttState := .off
  connCode : Int := 0
  connCbCnt : Int := 0
  txQOvf : UInt32 := 0
  errPubl : UInt32 := 0
deriving DecidableEq, Repr

/-- The variables `mq` and `mqtt_dbg`. -/
structure Mqtt where
  mq : MqttQueue := {}
  dbg : MqttDbg := {}

/-- The arguments of a `mqtt_publish` as it reads them: the topic up to its
terminator and the bytes of the payload. -/
structure Message where
  topic : List UInt8
  payload : List UInt8
  qos : UInt8
  retain : UInt8
deriving DecidableEq, Repr

def MqttMsg.message (msg : MqttMsg) : Message where
  topic := msg.topic.takeWhile (· ≠ 0)
  payload := msg.payload.take msg.payloadLen
  qos := msg.qos
  retain := msg.retain

/-- The arguments of `mqtt_queue_publish`: the characters of the topic without
its terminator, and the `len` bytes of the payload. -/
structure Request where
  topic : List UInt8
  payload : List UInt8
  qos : UInt8
  retain : UInt8
  topic_ne_nul : ∀ b ∈ topic, b ≠ 0
  payload_len : payload.length < 2 ^ 16

def strncpy (dest src : List UInt8) (n : Nat) : List UInt8 :=
  src.take n ++ List.replicate (n - src.length) 0 ++ dest.drop n

def memcpy (dest src : List UInt8) (n : Nat) : List UInt8 :=
  src.take n ++ dest.drop n

/-- The slot of `mq.storage` after `mqtt_queue_publish` has filled it. -/
def MqttMsg.fill (msg : MqttMsg) (r : Request) : MqttMsg :=
  let len := r.payload.length
  let copyLen := if len > mqttMaxPayloadLen then mqttMaxPayloadLen else len
  { topic := (strncpy msg.topic r.topic (mqttMaxTopicLen - 1)).set (mqttMaxTopicLen - 1) 0
    payload := memcpy msg.payload r.payload copyLen
    payloadLen := copyLen
    qos := r.qos
    retain := r.retain }

section

variable {W : Type*} (publish : Message → W → Bool × W)

def mqttQueueSendNext (s : Mqtt) (w : W) : Int × Mqtt × W :=
  let s := { s with mq.isSending := true }
  let msg := s.mq.storage s.mq.tail
  match publish msg.message w with
  | (true, w) => (0, s, w)
  | (false, w) =>
      (-1, { s with mq.isSending := false, dbg.errPubl := s.dbg.errPubl + 1 }, w)

def mqttPubRequestCb (s : Mqtt) (w : W) : Mqtt × W :=
  let s := { s with mq.isSending := false }
  let s := { s with mq.tail := (s.mq.tail + 1) % mqttQueueSize }
  if s.mq.head ≠ s.mq.tail then (mqttQueueSendNext publish s w).2 else (s, w)

def mqttQueuePublish (r : Request) (s : Mqtt) (w : W) : Int × Mqtt × W :=
  let nextHead := (s.mq.head + 1) % mqttQueueSize
  if nextHead = s.mq.tail then (-1, { s with dbg.txQOvf := s.dbg.txQOvf + 1 }, w)
  else
    let msg := (s.mq.storage s.mq.head).fill r
    let s := { s with mq.storage := Function.update s.mq.storage s.mq.head msg }
    let s := { s with mq.head := nextHead }
    if s.mq.isSending then (1, s, w)
    else
      match mqttQueueSendNext publish s w with
      | (sts, s, w) => (if sts ≠ 0 then 1 else 0, s, w)

end

/-! ## Messages -/

/-- What is sent of a request. -/
def Request.message (r : Request) : Message where
  topic := r.topic.take (mqttMaxTopicLen - 1)
  payload := r.payload.take mqttMaxPayloadLen
  qos := r.qos
  retain := r.retain

theorem takeWhile_strncpy {dest src : List UInt8} (hsrc : ∀ b ∈ src, b ≠ 0) (n : Nat) :
    ((strncpy dest src n).set n 0).takeWhile (· ≠ 0) = src.take n := by
  have hbytes : ∀ b ∈ src.take n, decide (b ≠ 0) = true := by
    intro b hb
    simpa using hsrc b (List.mem_of_mem_take hb)
  have hlen : (src.take n ++ List.replicate (n - src.length) 0).length = n := by
    rw [List.length_append, List.length_take, List.length_replicate]
    omega
  rw [strncpy, List.set_append_right _ _ (by omega), hlen, Nat.sub_self, List.append_assoc,
    List.takeWhile_append_of_pos hbytes]
  rcases hpad : n - src.length with _ | k
  · rcases hrest : dest.drop n with _ | ⟨b, rest⟩ <;> simp
  · simp [List.replicate_succ]

theorem message_fill (msg : MqttMsg) (r : Request) :
    (msg.fill r).message = r.message := by
  have hcopy : (if r.payload.length > mqttMaxPayloadLen then mqttMaxPayloadLen
      else r.payload.length) = min mqttMaxPayloadLen r.payload.length := by
    split_ifs <;> omega
  simp only [MqttMsg.fill, MqttMsg.message, Request.message, hcopy,
    takeWhile_strncpy r.topic_ne_nul, Message.mk.injEq, true_and, and_true]
  rw [memcpy, List.take_append_of_le_length (by simp), List.take_take, Nat.min_self,
    List.take_eq_take_iff]
  omega

/-! ## What happens to the flag -/

section

variable {W : Type*} (publish : Message → W → Bool × W) (s : Mqtt) (w : W)

theorem sendNext_outcome :
    ∃ m, (mqttQueueSendNext publish s w).2.2 = (publish m w).2 ∧
      (mqttQueueSendNext publish s w).2.1.mq.isSending = (publish m w).1 := by
  refine ⟨(s.mq.storage s.mq.tail).message, ?_⟩
  simp only [mqttQueueSendNext]
  rcases publish (s.mq.storage s.mq.tail).message w with ⟨_ | _, w'⟩ <;> exact ⟨rfl, rfl⟩

theorem pubRequestCb_outcome :
    ((mqttPubRequestCb publish s w).2 = w ∧
      (mqttPubRequestCb publish s w).1.mq.isSending = false) ∨
    ∃ m, (mqttPubRequestCb publish s w).2 = (publish m w).2 ∧
      (mqttPubRequestCb publish s w).1.mq.isSending = (publish m w).1 := by
  rw [mqttPubRequestCb]
  split_ifs
  · exact .inr (sendNext_outcome publish _ w)
  · exact .inl ⟨rfl, rfl⟩

theorem queuePublish_outcome (r : Request) :
    ((mqttQueuePublish publish r s w).2.2 = w ∧
      (mqttQueuePublish publish r s w).2.1.mq.isSending = s.mq.isSending) ∨
    s.mq.isSending = false ∧ ∃ m, (mqttQueuePublish publish r s w).2.2 = (publish m w).2 ∧
      (mqttQueuePublish publish r s w).2.1.mq.isSending = (publish m w).1 := by
  by_cases hfull : (s.mq.head + 1) % mqttQueueSize = s.mq.tail
  · rw [mqttQueuePublish, if_pos hfull]
    exact .inl ⟨rfl, rfl⟩
  · by_cases hsending : s.mq.isSending = true
    · simp only [mqttQueuePublish, if_neg hfull, if_pos hsending]
      exact .inl ⟨trivial, trivial⟩
    · simp only [mqttQueuePublish, if_neg hfull, if_neg hsending]
      exact .inr ⟨Bool.eq_false_of_not_eq_true hsending, sendNext_outcome publish _ w⟩

end

end ShGateway.MqttPublish
