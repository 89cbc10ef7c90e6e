import Mathlib

/-!
A queue whose oldest message is offered to a sink, which takes it or turns it
down. A message that was taken stays in front until its completion.
-/

namespace ShGateway.Lib.SendQueue

/-- The messages that wait, with the one in flight in front if `sending`. -/
structure Outbox (M : Type*) where
  waiting : List M := []
  sending : Bool := false

variable {M W : Type*} (sink : M → W → Bool × W)

/-- Offers the oldest message. -/
def Outbox.offer (q : Outbox M) (w : W) : Outbox M × W :=
  match q.waiting with
  | [] => ({ q with sending := false }, w)
  | m :: _ => ({ q with sending := (sink m w).1 }, (sink m w).2)

/-- Adds a message, which is offered if it is alone or the sink turned the
oldest one down before. -/
def Outbox.push (m : M) (q : Outbox M) (w : W) : Outbox M × W :=
  let q := { q with waiting := q.waiting ++ [m] }
  if q.sending then (q, w) else q.offer sink w

/-- The message in flight is done. -/
def Outbox.complete (q : Outbox M) (w : W) : Outbox M × W :=
  Outbox.offer sink { waiting := q.waiting.tail } w

/-- The messages that no sink has taken yet. -/
def Outbox.unsent (q : Outbox M) : List M :=
  if q.sending then q.waiting.tail else q.waiting

/-- Only a message that waits can be in flight. -/
def Outbox.Ok (q : Outbox M) : Prop := q.sending = true → q.waiting ≠ []

section

variable {sink} {q : Outbox M} {w : W}

@[simp] theorem waiting_offer : (q.offer sink w).1.waiting = q.waiting := by
  rcases h : q.waiting with _ | ⟨m, ms⟩ <;> simp [Outbox.offer, h]

theorem ok_offer : (q.offer sink w).1.Ok := by
  rcases h : q.waiting with _ | ⟨m, ms⟩ <;> simp [Outbox.offer, Outbox.Ok, h]

theorem waiting_push (m : M) : (q.push sink m w).1.waiting = q.waiting ++ [m] := by
  rw [Outbox.push]
  split_ifs
  · rfl
  · rw [waiting_offer]

theorem ok_push (m : M) : (q.push sink m w).1.Ok := by
  rw [Outbox.push]
  split_ifs
  · intro _
    simp
  · exact ok_offer

theorem waiting_complete : (q.complete sink w).1.waiting = q.waiting.tail := waiting_offer

theorem ok_complete : (q.complete sink w).1.Ok := ok_offer

end

/-! ## A sink that keeps what it takes -/

/-- The messages taken in order, and how many of them are not yet done. -/
structure Taken (M : Type*) where
  taken : List M := []
  inFlight : Nat := 0

/-- Takes the message or turns it down. -/
def take (ok : Bool) (m : M) (t : Taken M) : Bool × Taken M :=
  if ok then (true, { taken := t.taken ++ [m], inFlight := t.inFlight + 1 }) else (false, t)

/-- Of the messages `pushed` so far the sink has taken all but those that wait
unsent, and one of them is in flight exactly while the queue is sending. -/
structure Delivers (pushed : List M) (q : Outbox M) (t : Taken M) : Prop where
  ok : q.Ok
  all : pushed = t.taken ++ q.unsent
  inFlight : t.inFlight = if q.sending then 1 else 0

section

variable {pushed : List M} {q : Outbox M} {t : Taken M}

theorem delivers_init : Delivers ([] : List M) {} {} where
  ok := nofun
  all := rfl
  inFlight := rfl

theorem delivers_offer (ok : Bool) (hall : pushed = t.taken ++ q.waiting)
    (hflight : t.inFlight = 0) :
    Delivers pushed (q.offer (take ok) t).1 (q.offer (take ok) t).2 where
  ok := ok_offer
  all := by
    rcases h : q.waiting with _ | ⟨m, ms⟩
    · simp [Outbox.offer, Outbox.unsent, hall, h]
    · cases ok <;> simp [Outbox.offer, Outbox.unsent, take, hall, h]
  inFlight := by
    rcases h : q.waiting with _ | ⟨m, ms⟩
    · simp [Outbox.offer, hflight, h]
    · cases ok <;> simp [Outbox.offer, take, hflight, h]

theorem Delivers.push (h : Delivers pushed q t) (ok : Bool) (m : M) :
    Delivers (pushed ++ [m]) (q.push (take ok) m t).1 (q.push (take ok) m t).2 := by
  have hall := h.all
  have hflight := h.inFlight
  have hok := h.ok
  rw [Outbox.unsent] at hall
  rcases hsending : q.sending with _ | _
  · rw [hsending, if_neg Bool.false_ne_true] at hall hflight
    rw [Outbox.push, hsending, if_neg Bool.false_ne_true]
    exact delivers_offer ok (by simp [hall]) hflight
  · rw [hsending, if_pos rfl] at hall hflight
    rw [Outbox.push, hsending, if_pos rfl]
    refine ⟨fun _ => by simp, ?_, by simpa using hflight⟩
    rw [hall, Outbox.unsent, if_pos rfl, List.tail_append_of_ne_nil (hok hsending),
      List.append_assoc]

/-- After a completion the next message is offered. -/
theorem Delivers.complete (h : Delivers pushed q t) (ok : Bool) (hflight : 0 < t.inFlight) :
    let t := { t with inFlight := t.inFlight - 1 }
    Delivers pushed (q.complete (take ok) t).1 (q.complete (take ok) t).2 := by
  have hall := h.all
  have hone := h.inFlight
  have hsending : q.sending = true := by
    by_contra hidle
    rw [if_neg hidle] at hone
    omega
  rw [Outbox.unsent, hsending, if_pos rfl] at hall
  rw [hsending, if_pos rfl] at hone
  exact delivers_offer ok hall (by simp [hone])

end

end ShGateway.Lib.SendQueue
