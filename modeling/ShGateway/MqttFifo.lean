import ShGateway.Lib.SendQueue
import ShGateway.MqttPublish

/-!
The ring of `mqtt_app.c` as a queue of messages, and what it hands over to a
`mqtt_publish` that accepts or rejects as it likes.
-/

namespace ShGateway.MqttFifo

open ShGateway.Lib.Ring
open ShGateway.Lib.SendQueue
open ShGateway.MqttPublish

/-! ## The queue -/

/-- The messages in the ring, oldest first. -/
def MqttQueue.messages (mq : MqttQueue) : List Message :=
  contents mqttQueueSize (fun i => (mq.storage i).message) mq.head mq.tail

/-- The ring holds the messages of `q`, and the flag says that one is in flight. -/
structure Refines (mq : MqttQueue) (q : Outbox Message) : Prop where
  ring : Represents mqttQueueSize (fun i => (mq.storage i).message) mq.head mq.tail q.waiting
  sending : mq.isSending = q.sending

variable {W : Type*} {publish : Message → W → Bool × W} {s : Mqtt} {q : Outbox Message} {w : W}

theorem Refines.messages_eq {mq : MqttQueue} (h : Refines mq q) :
    MqttQueue.messages mq = q.waiting := h.ring.contents_eq

theorem refines_init : Refines {} {} where
  ring := represents_nil _ (by decide)
  sending := rfl

theorem message_update (storage : Nat → MqttMsg) (head : Nat) (r : Request) :
    (fun i => (Function.update storage head ((storage head).fill r) i).message) =
      Function.update (fun i => (storage i).message) head r.message := by
  funext i
  rcases eq_or_ne i head with rfl | hne
  · rw [Function.update_self, Function.update_self, message_fill]
  · rw [Function.update_of_ne hne, Function.update_of_ne hne]

theorem refines_sendNext (h : Refines s.mq q) (hne : q.waiting ≠ []) :
    (mqttQueueSendNext publish s w).1 = (if (q.offer publish w).1.sending then 0 else -1) ∧
      Refines (mqttQueueSendNext publish s w).2.1.mq (q.offer publish w).1 ∧
      (mqttQueueSendNext publish s w).2.2 = (q.offer publish w).2 := by
  obtain ⟨m, ms, hwaiting⟩ := List.exists_cons_of_ne_nil hne
  have hring := h.ring
  rw [hwaiting] at hring
  have hfront : (s.mq.storage s.mq.tail).message = m := hring.front
  simp only [mqttQueueSendNext, Outbox.offer, hwaiting, hfront]
  rcases publish m w with ⟨_ | _, w'⟩
  · exact ⟨rfl, ⟨hwaiting ▸ hring, rfl⟩, rfl⟩
  · exact ⟨rfl, ⟨hwaiting ▸ hring, rfl⟩, rfl⟩

theorem refines_pubRequestCb (h : Refines s.mq q) (hne : q.waiting ≠ []) :
    Refines (mqttPubRequestCb publish s w).1.mq (q.complete publish w).1 ∧
      (mqttPubRequestCb publish s w).2 = (q.complete publish w).2 := by
  obtain ⟨m, ms, hwaiting⟩ := List.exists_cons_of_ne_nil hne
  have hring := h.ring
  rw [hwaiting] at hring
  have hpop := hring.pop
  have htail : q.waiting.tail = ms := by rw [hwaiting, List.tail_cons]
  rw [mqttPubRequestCb, Outbox.complete, htail]
  simp only [ne_eq, hpop.empty_iff]
  rcases ms with _ | ⟨m', ms⟩
  · rw [if_neg (not_not.mpr rfl)]
    exact ⟨⟨hpop, rfl⟩, rfl⟩
  · rw [if_pos (List.cons_ne_nil m' ms)]
    exact (@refines_sendNext _ _ _ { waiting := m' :: ms } _ ⟨hpop, rfl⟩
      (List.cons_ne_nil m' ms)).2

theorem queuePublish_full (h : Refines s.mq q) (hfull : q.waiting.length + 1 = mqttQueueSize)
    (r : Request) :
    mqttQueuePublish publish r s w =
      (-1, { s with dbg.txQOvf := s.dbg.txQOvf + 1 }, w) := by
  rw [mqttQueuePublish, if_pos (h.ring.full_iff.mpr hfull)]

theorem refines_queuePublish (h : Refines s.mq q)
    (hroom : q.waiting.length + 1 < mqttQueueSize) (r : Request) :
    0 ≤ (mqttQueuePublish publish r s w).1 ∧
      Refines (mqttQueuePublish publish r s w).2.1.mq (q.push publish r.message w).1 ∧
      (mqttQueuePublish publish r s w).2.2 = (q.push publish r.message w).2 := by
  have hfull : ¬ (s.mq.head + 1) % mqttQueueSize = s.mq.tail := by
    rw [h.ring.full_iff]
    omega
  have hpush := h.ring.push hroom r.message
  rw [← message_update] at hpush
  rw [mqttQueuePublish, if_neg hfull, Outbox.push]
  simp only [h.sending]
  rcases hsending : q.sending with _ | _
  · rw [if_neg Bool.false_ne_true, if_neg Bool.false_ne_true]
    obtain ⟨-, hrefines, hworld⟩ := @refines_sendNext W publish
      { s with
        mq.storage := Function.update s.mq.storage s.mq.head
          ((s.mq.storage s.mq.head).fill r)
        mq.head := (s.mq.head + 1) % mqttQueueSize }
      { waiting := q.waiting ++ [r.message], sending := false } w
      ⟨hpush, h.sending.trans hsending⟩ (by simp)
    refine ⟨?_, hrefines, hworld⟩
    simp only []
    split_ifs <;> decide
  · rw [if_pos rfl, if_pos rfl]
    exact ⟨zero_le_one, ⟨hpush, rfl⟩, rfl⟩

/-! ## Runs -/

/-- A call of `mqtt_queue_publish`, or a completion callback of a message that was
accepted; `ok` is what `mqtt_publish` answers if it is called meanwhile. -/
inductive Event
  | publish (r : Request) (ok : Bool)
  | callback (ok : Bool)

/-- The queue, the messages that `mqtt_publish` has accepted, and those for which
`mqtt_queue_publish` has not returned an error. -/
structure Exchange where
  mqtt : Mqtt := {}
  link : Taken Message := {}
  queued : List Message := []

def Exchange.step (s : Exchange) : Event → Exchange
  | .publish r ok =>
      match mqttQueuePublish (take ok) r s.mqtt s.link with
      | (sts, mqtt, link) =>
          { mqtt, link, queued := if 0 ≤ sts then s.queued ++ [r.message] else s.queued }
  | .callback ok =>
      if 0 < s.link.inFlight then
        let link := { s.link with inFlight := s.link.inFlight - 1 }
        { s with
          mqtt := (mqttPubRequestCb (take ok) s.mqtt link).1
          link := (mqttPubRequestCb (take ok) s.mqtt link).2 }
      else s

def exchange (evs : List Event) : Exchange := evs.foldl Exchange.step {}

/-- The ring holds what was queued and is not yet done. -/
def Exchange.Inv (s : Exchange) : Prop :=
  ∃ q, Refines s.mqtt.mq q ∧ Delivers s.queued q s.link

theorem Exchange.Inv.step {s : Exchange} (h : s.Inv) (ev : Event) : (s.step ev).Inv := by
  obtain ⟨q, hrefines, hdelivers⟩ := h
  cases ev with
  | publish r ok =>
      rcases Nat.eq_or_lt_of_le (show q.waiting.length + 1 ≤ mqttQueueSize from
        hrefines.ring.room) with hfull | hroom
      · rw [Exchange.step, queuePublish_full hrefines hfull]
        exact ⟨q, hrefines, hdelivers⟩
      · obtain ⟨hsts, hrefines', hlink⟩ :=
          @refines_queuePublish _ (take ok) _ _ s.link hrefines hroom r
        refine ⟨(q.push (take ok) r.message s.link).1, hrefines', ?_⟩
        simp only [Exchange.step, if_pos hsts, hlink]
        exact hdelivers.push ok r.message
  | callback ok =>
      by_cases hflight : 0 < s.link.inFlight
      · have hne : q.waiting ≠ [] := by
          refine hdelivers.ok ?_
          by_contra hidle
          have hnone := hdelivers.inFlight
          rw [if_neg hidle] at hnone
          omega
        obtain ⟨hrefines', hlink⟩ := @refines_pubRequestCb _ (take ok) _ _
          { s.link with inFlight := s.link.inFlight - 1 } hrefines hne
        rw [Exchange.step, if_pos hflight]
        refine ⟨_, hrefines', ?_⟩
        simp only [hlink]
        exact hdelivers.complete ok hflight
      · rw [Exchange.step, if_neg hflight]
        exact ⟨q, hrefines, hdelivers⟩

theorem exchange_inv (evs : List Event) : (exchange evs).Inv := by
  induction evs using List.reverseRecOn with
  | nil => exact ⟨{}, refines_init, delivers_init⟩
  | append_singleton evs ev ih =>
      rw [exchange, List.foldl_append]
      exact ih.step ev

/-- The queue hands over every message once and in order. -/
theorem exchange_fifo (evs : List Event) :
    let s := exchange evs
    let messages := MqttQueue.messages s.mqtt.mq
    s.link.taken <+: s.queued ∧
      s.queued = s.link.taken ++
        (if s.mqtt.mq.isSending then messages.tail else messages) ∧
      s.link.inFlight ≤ 1 ∧ messages.length ≤ 63 ∧
      ∀ r ok, (mqttQueuePublish (take ok) r s.mqtt s.link).1 = -1 →
        (mqttQueuePublish (take ok) r s.mqtt s.link).2.1.mq = s.mqtt.mq ∧
          (mqttQueuePublish (take ok) r s.mqtt s.link).2.2 = s.link := by
  intro s messages
  obtain ⟨q, hrefines, hdelivers⟩ := exchange_inv evs
  have hmessages : messages = q.waiting := hrefines.messages_eq
  have hall := hdelivers.all
  have hflight := hdelivers.inFlight
  have hroom := hrefines.ring.room
  rw [Outbox.unsent, ← hrefines.sending, ← hmessages] at hall
  refine ⟨⟨_, hall.symm⟩, hall, ?_, ?_, fun r ok hsts => ?_⟩
  · change (exchange evs).link.inFlight ≤ 1
    rw [hflight]
    split_ifs <;> omega
  · rw [hmessages]
    exact Nat.le_of_lt_succ hroom
  · rcases Nat.eq_or_lt_of_le (show q.waiting.length + 1 ≤ mqttQueueSize from hroom) with
      hfull | hfree
    · rw [queuePublish_full hrefines hfull]
      exact ⟨rfl, rfl⟩
    · have hnonneg := (@refines_queuePublish _ (take ok) _ _ s.link hrefines hfree r).1
      exact absurd (hnonneg.trans_eq hsts) (by decide)

end ShGateway.MqttFifo
