import ShGateway.Lib.Runs
import ShGateway.MqttClient
import ShGateway.MqttFifo

/-!
What the queue of `mqtt_app.c` and the clients of lwIP know of each other over a
run with disconnects and reconnects.
-/

namespace ShGateway.MqttLinks

open ShGateway.Lib.Ring
open ShGateway.Lib.Runs
open ShGateway.Lib.SendQueue
open ShGateway.MqttPublish
open ShGateway.MqttFifo hiding Event
open ShGateway.MqttClient

/-- The publish requests of a client whose callback has not been invoked. -/
def outstanding (c : Client) : Nat := c.pendReqQueue.countP MqttRequest.cb

/-- `mqtt_publish` accepts a message for the client. -/
def up (c : Client) : Bool := c.connState ≠ .tcpDisconnected

/-- What the queue depends on of the clients by address. -/
def view (net : Net) (p : Nat) : Option (Bool × Nat) :=
  (net.heap p).map fun c => (up c, outstanding c)

def closed : Bool × Nat := (false, 0)

/-! ## One operation -/

section

variable {net : Net} {s : System} {p q : Nat}

theorem view_modify {f : Client → Client} {g : Bool × Nat → Bool × Nat}
    (h : ∀ c, (up (f c), outstanding (f c)) = g (up c, outstanding c)) :
    view (net.modify p f) = Function.update (view net) p ((view net p).map g) := by
  funext q
  rcases eq_or_ne q p with rfl | hne
  · simp only [view, Net.modify, Function.update_self, Option.map_map]
    exact congrArg (Option.map · (net.heap q)) (funext h)
  · simp only [view, Net.modify, Function.update_of_ne hne]

theorem view_modify_some {f : Client → Client} {c : Client} (h : net.heap p = some c) :
    view (net.modify p f) =
      Function.update (view net) p (some (up (f c), outstanding (f c))) := by
  funext q
  rcases eq_or_ne q p with rfl | hne
  · simp only [view, Net.modify, Function.update_self, h, Option.map_some]
  · simp only [view, Net.modify, Function.update_of_ne hne]

theorem view_modify_id {f : Client → Client}
    (h : ∀ c, (up (f c), outstanding (f c)) = (up c, outstanding c)) :
    view (net.modify p f) = view net := by
  rw [@view_modify net p f id h, Option.map_id, id, Function.update_eq_self]

theorem outstanding_subscribe (space : Bool) (c : Client) :
    (up (mqttSubscribe space c), outstanding (mqttSubscribe space c)) =
      (up c, outstanding c) := by
  rw [mqttSubscribe]
  split_ifs
  · rfl
  · simp [outstanding, up]
  · rfl

theorem connCb_net (p status : Nat) (space : Bool) (s : System) :
    view (connCb p status space s).net = view s.net ∧
      (connCb p status space s).net.staticClient = s.net.staticClient ∧
      (connCb p status space s).mqtt.mq = s.mqtt.mq := by
  rw [connCb]
  split_ifs
  · exact ⟨view_modify_id (outstanding_subscribe space), rfl, rfl⟩
  · exact ⟨rfl, rfl, rfl⟩

theorem mqttClose_net (p reason : Nat) (s : System) :
    view (mqttClose p reason s).net =
        Function.update (view s.net) p ((view s.net p).map fun _ => closed) ∧
      (mqttClose p reason s).net.staticClient = s.net.staticClient ∧
      (mqttClose p reason s).mqtt.mq = s.mqtt.mq := by
  have hclear := @view_modify s.net p (fun c => { c with pendReqQueue := [] })
    (fun v => (v.1, 0)) (fun c => rfl)
  rw [mqttClose]
  dsimp only
  split_ifs with hstate
  · refine ⟨?_, rfl, rfl⟩
    rw [hclear]
    congr 1
    rw [Net.modify] at hstate
    rcases hp : s.net.heap p with _ | c
    · simp [view, hp]
    · simp only [Function.update_self, hp, Option.map_some, Option.some.injEq] at hstate
      simp [view, hp, hstate, up, closed]
  · obtain ⟨hview, hstatic, hmq⟩ := connCb_net p reason false
      { s with
        net := (s.net.modify p fun c => { c with pendReqQueue := [] }).modify p
          fun c => { c with connState := .tcpDisconnected } }
    refine ⟨?_, hstatic, hmq⟩
    rw [hview, @view_modify _ p _ (fun v => (false, v.2)) (fun c => rfl), hclear,
      Function.update_idem, Function.update_self, Option.map_map]
    rfl

theorem mqttDisconnect_net (p : Nat) {s : System}
    (hidle : ∀ n, view s.net p = some (false, n) → n = 0) :
    view (mqttDisconnect p s).net =
        Function.update (view s.net) p ((view s.net p).map fun _ => closed) ∧
      (mqttDisconnect p s).net.staticClient = s.net.staticClient ∧
      (mqttDisconnect p s).mqtt.mq = s.mqtt.mq := by
  rw [mqttDisconnect]
  split_ifs with hstate
  · refine ⟨?_, rfl, rfl⟩
    obtain ⟨c, hc, hdisc⟩ := Option.map_eq_some_iff.mp hstate
    have hp : view s.net p = some (false, outstanding c) := by
      simp [view, hc, up, hdisc]
    rw [eq_comm, Function.update_eq_self_iff, hp, hidle _ hp]
    rfl
  · obtain ⟨hview, hstatic, hmq⟩ := mqttClose_net p mqttConnectAccepted
      { s with net := s.net.modify p fun c => { c with connState := .tcpDisconnected } }
    refine ⟨?_, hstatic, hmq⟩
    rw [hview, @view_modify s.net p _ (fun v => (false, v.2)) (fun c => rfl),
      Function.update_idem, Function.update_self, Option.map_map]
    rfl

theorem mqttPublish_client (space : Bool) (c : Client) (m : Message) :
    up (mqttPublish space c m).2 = up c ∧
      ((mqttPublish space c m).1 = errOk ∧ up c = true ∧
          outstanding (mqttPublish space c m).2 = outstanding c + 1 ∨
        (mqttPublish space c m).1 ≠ errOk ∧
          outstanding (mqttPublish space c m).2 = outstanding c) := by
  by_cases hdisc : c.connState = .tcpDisconnected
  · rw [mqttPublish, if_pos hdisc]
    exact ⟨rfl, .inr ⟨show errConn ≠ errOk by decide, rfl⟩⟩
  · rw [mqttPublish, if_neg hdisc]
    rcases space with _ | _
    · by_cases hqos : m.qos > 0 <;> simp [outstanding, up, hqos, errOk, errMem]
    · by_cases hqos : m.qos > 0 <;> simp [outstanding, up, hqos, hdisc]

theorem publishStatic_net (space : Bool) (m : Message) (net : Net) :
    (publishStatic space m net).2.staticClient = net.staticClient ∧
      (publishStatic space m net).2.calls = net.calls ++ [m] ∧
      ((publishStatic space m net).1 = false ∧ view (publishStatic space m net).2 = view net ∨
        ∃ p n, net.staticClient = some p ∧ view net p = some (true, n) ∧
          (publishStatic space m net).1 = true ∧
          view (publishStatic space m net).2 =
            Function.update (view net) p (some (true, n + 1))) := by
  rcases hstatic : net.staticClient with _ | p
  · simp only [publishStatic, hstatic]
    exact ⟨trivial, trivial, .inl ⟨trivial, rfl⟩⟩
  rcases hp : net.heap p with _ | c
  · simp only [publishStatic, hstatic, hp]
    exact ⟨trivial, trivial, .inl ⟨trivial, rfl⟩⟩
  have hview := @view_modify_some { net with calls := net.calls ++ [m] } p
    (fun c => (mqttPublish space c m).2) c hp
  change view _ = Function.update (view net) p _ at hview
  have hself : view net p = some (up c, outstanding c) := by
    rw [view, hp, Option.map_some]
  obtain ⟨hstate, ⟨hsts, hup, hcount⟩ | ⟨hsts, hcount⟩⟩ := mqttPublish_client space c m
  · rw [hup] at hself
    rw [hstate, hup, hcount] at hview
    simp only [publishStatic, hstatic, hp, hsts]
    exact ⟨rfl, rfl,
      .inr ⟨p, outstanding c, rfl, hself, by simp, hstatic ▸ hview⟩⟩
  · rw [hstate, hcount, ← hself, Function.update_eq_self] at hview
    simp only [publishStatic, hstatic, hp, hsts]
    exact ⟨rfl, rfl, .inl ⟨by simp, hstatic ▸ hview⟩⟩

theorem mqttAppInitClient_none (new : Option Nat) (sts : Int) {s : System}
    (hstatic : s.net.staticClient = none) :
    (mqttAppInitClient new sts s).net.staticClient = new ∧
      (mqttAppInitClient new sts s).mqtt.mq = s.mqtt.mq ∧
      ∀ q, ∃ b, view (mqttAppInitClient new sts s).net q =
        if new = some q then some (b, 0) else view s.net q := by
  rcases new with _ | p
  · simp only [mqttAppInitClient, hstatic]
    exact ⟨hstatic, trivial, fun q => ⟨false, rfl⟩⟩
  · have hempty : outstanding (mqttClientConnect sts {}).2 = 0 := by
      rw [mqttClientConnect]
      split_ifs <;> rfl
    simp only [mqttAppInitClient, hstatic]
    refine ⟨?_, trivial, fun q => ⟨up (mqttClientConnect sts {}).2, ?_⟩⟩
    · split_ifs <;> rfl
    · have hview : ∀ net : Net, net.heap =
          Function.update s.net.heap p (some (mqttClientConnect sts {}).2) →
          view net q = if some p = some q then some (up (mqttClientConnect sts {}).2, 0)
            else view s.net q := by
        intro net hheap
        rcases eq_or_ne q p with rfl | hne
        · rw [view, hheap, Function.update_self, Option.map_some, if_pos rfl, hempty]
        · rw [view, hheap, Function.update_of_ne hne, if_neg (by simpa using hne.symm)]
          rfl
      split_ifs at hview ⊢ <;> exact hview _ rfl

theorem mqttAppInitClient_net (new : Option Nat) (sts : Int) {s : System}
    (hidle : ∀ p n, view s.net p = some (false, n) → n = 0) :
    (mqttAppInitClient new sts s).net.staticClient = new ∧
      (mqttAppInitClient new sts s).mqtt.mq = s.mqtt.mq ∧
      ∀ q, ∃ b, view (mqttAppInitClient new sts s).net q =
        if new = some q then some (b, 0)
        else if s.net.staticClient = some q then (view s.net q).map fun _ => closed
        else view s.net q := by
  rcases hstatic : s.net.staticClient with _ | p
  · obtain ⟨hnew, hmq, hview⟩ := mqttAppInitClient_none new sts hstatic
    refine ⟨hnew, hmq, fun q => ?_⟩
    rw [if_neg (nofun : ¬ none = some q)]
    exact hview q
  · have hagain : mqttAppInitClient new sts s = mqttAppInitClient new sts
        { mqttDisconnect p s with net.staticClient := none } := by
      simp only [mqttAppInitClient, hstatic]
    obtain ⟨hdisconnect, -, hmq'⟩ := mqttDisconnect_net p (hidle p)
    obtain ⟨hnew, hmq, hview⟩ := @mqttAppInitClient_none new sts
      { mqttDisconnect p s with net.staticClient := none } rfl
    rw [hagain]
    refine ⟨hnew, hmq.trans hmq', fun q => ?_⟩
    obtain ⟨b, hq⟩ := hview q
    refine ⟨b, hq.trans ?_⟩
    change (if new = some q then _ else view (mqttDisconnect p s).net q) = _
    rw [hdisconnect]
    rcases eq_or_ne q p with rfl | hne
    · rw [Function.update_self, if_pos (rfl : some q = some q)]
    · rw [Function.update_of_ne hne, if_neg (by simpa using hne.symm : ¬ some p = some q)]

end

/-! ## Any run -/

/-- Only the current client can have a connection, and while it holds a publish
request the queue waits for it. -/
structure Linked (net : Net) (sending : Bool) : Prop where
  stored : ∀ p, net.staticClient = some p → view net p ≠ none
  stale : ∀ p v, view net p = some v → net.staticClient ≠ some p → v = closed
  idle : ∀ p n, view net p = some (false, n) → n = 0
  sent : ∀ p b n, net.staticClient = some p → view net p = some (b, n) →
    n = 0 ∨ n = 1 ∧ sending = true

section

variable {net net' : Net} {sending : Bool}

theorem linked_init : Linked {} false where
  stored := nofun
  stale := nofun
  idle := nofun
  sent := nofun

theorem Linked.of_view (h : Linked net sending) (hstatic : net'.staticClient = net.staticClient)
    (hview : view net' = view net) : Linked net' sending where
  stored := by
    rw [hstatic, hview]
    exact h.stored
  stale := by
    rw [hstatic, hview]
    exact h.stale
  idle := by
    rw [hview]
    exact h.idle
  sent := by
    rw [hstatic, hview]
    exact h.sent

theorem Linked.update {b b' : Bool} {n n' : Nat} {p : Nat} (h : Linked net sending)
    (hp : view net p = some (b, n)) (hstatic : net'.staticClient = net.staticClient)
    (hview : view net' = Function.update (view net) p (some (b', n')))
    (hidle : b' = false → n' = 0) (hclosed : net.staticClient ≠ some p → b' = false)
    {sending' : Bool} (hn : n' = 0 ∨ n' = 1 ∧ sending' = true)
    (hsending : net.staticClient = some p ∨ sending' = sending) : Linked net' sending' := by
  have hother : ∀ {q}, q ≠ p → view net' q = view net q := by
    intro q hne
    rw [hview, Function.update_of_ne hne]
  have hself : view net' p = some (b', n') := by
    rw [hview, Function.update_self]
  constructor
  · intro q hq
    rw [hstatic] at hq
    rcases eq_or_ne q p with rfl | hne
    · rw [hself]
      exact Option.some_ne_none _
    · rw [hother hne]
      exact h.stored q hq
  · intro q v hv hne
    rw [hstatic] at hne
    rcases eq_or_ne q p with rfl | hqp
    · have hb' := hclosed hne
      rw [hself, hb', hidle hb'] at hv
      exact (Option.some.inj hv).symm
    · rw [hother hqp] at hv
      exact h.stale q v hv hne
  · intro q k hk
    rcases eq_or_ne q p with rfl | hqp
    · rw [hself] at hk
      obtain ⟨hb', rfl⟩ := Prod.mk.inj (Option.some.inj hk)
      exact hidle hb'
    · rw [hother hqp] at hk
      exact h.idle q k hk
  · intro q c k hq hk
    rw [hstatic] at hq
    rcases eq_or_ne q p with rfl | hqp
    · rw [hself] at hk
      obtain ⟨-, rfl⟩ := Prod.mk.inj (Option.some.inj hk)
      exact hn
    · rw [hother hqp] at hk
      have hp' : net.staticClient ≠ some p := fun heq =>
        hqp (Option.some.inj (hq.symm.trans heq))
      rw [hsending.resolve_left hp']
      exact h.sent q c k hq hk

theorem Linked.offer (h : Linked net false) (space : Bool) (m : Message) :
    Linked (publishStatic space m net).2 (publishStatic space m net).1 := by
  obtain ⟨hstatic, -, ⟨hsts, hview⟩ | ⟨p, n, hp, hn, hsts, hview⟩⟩ :=
    publishStatic_net space m net
  · rw [hsts]
    exact h.of_view hstatic hview
  · rw [hsts]
    obtain rfl : n = 0 := by simpa using h.sent p true n hp hn
    exact h.update hn hstatic hview nofun (fun hne => absurd hp hne) (.inr ⟨rfl, rfl⟩) (.inl hp)

theorem Linked.close (h : Linked net sending) {p : Nat}
    (hstatic : net'.staticClient = net.staticClient)
    (hview : view net' = Function.update (view net) p ((view net p).map fun _ => closed)) :
    Linked net' sending := by
  rcases hp : view net p with _ | ⟨b, n⟩
  · rw [hp, Option.map_none, ← hp, Function.update_eq_self] at hview
    exact h.of_view hstatic hview
  · rw [hp, Option.map_some] at hview
    exact h.update hp hstatic hview (fun _ => rfl) (fun _ => rfl) (.inl rfl) (.inr rfl)

theorem Linked.current_of_up (h : Linked net sending) {p n : Nat}
    (hp : view net p = some (true, n)) : net.staticClient = some p := by
  by_contra hne
  exact absurd (h.stale p _ hp hne) (by simp [closed])

theorem Linked.init (h : Linked net sending) {new : Option Nat}
    (hstatic : net'.staticClient = new)
    (hview : ∀ q, ∃ b, view net' q =
      if new = some q then some (b, 0)
      else if net.staticClient = some q then (view net q).map fun _ => closed
      else view net q) : Linked net' sending where
  stored := by
    intro q hq
    obtain ⟨b, hb⟩ := hview q
    rw [hb, if_pos (hstatic.symm.trans hq)]
    exact Option.some_ne_none _
  stale := by
    intro q v hv hne
    obtain ⟨b, hb⟩ := hview q
    rw [hb, if_neg (hstatic ▸ hne)] at hv
    split_ifs at hv with hold
    · obtain ⟨_, -, rfl⟩ := Option.map_eq_some_iff.mp hv
      rfl
    · exact h.stale q v hv hold
  idle := by
    intro q n hn
    obtain ⟨b, hb⟩ := hview q
    rw [hb] at hn
    split_ifs at hn with hnew hold
    · exact (Prod.mk.inj (Option.some.inj hn)).2.symm
    · obtain ⟨_, -, hclosed⟩ := Option.map_eq_some_iff.mp hn
      exact (Prod.mk.inj hclosed).2.symm
    · exact h.idle q n hn
  sent := by
    intro q b' n hq hn
    obtain ⟨b, hb⟩ := hview q
    rw [hb, if_pos (hstatic.symm.trans hq)] at hn
    exact .inl (Prod.mk.inj (Option.some.inj hn)).2.symm

end

structure Sound (s : System) : Prop where
  linked : Linked s.net s.mqtt.mq.isSending
  queue : ∃ q, Refines s.mqtt.mq q ∧ q.Ok

theorem sound_init : Sound {} where
  linked := linked_init
  queue := ⟨{}, refines_init, nofun⟩

/-! ## What an event does -/

section

variable {s : System}

/-- A call of `mqtt_queue_publish` finds the ring full, or stores its message and
then offers the oldest one if none is on its way. -/
theorem publish_cases (h : Sound s) (r : Request) (space : Bool) :
    let s' := s.apply (.publish r space)
    let messages := MqttQueue.messages s.mqtt.mq
    Sound s' ∧
      (messages.length = 63 ∧ s'.mqtt.mq = s.mqtt.mq ∧ s'.net = s.net ∨
        messages.length < 63 ∧
          MqttQueue.messages s'.mqtt.mq = messages ++ [r.message] ∧
          (s.mqtt.mq.isSending = true ∧ s'.mqtt.mq.isSending = true ∧ s'.net = s.net ∨
            s.mqtt.mq.isSending = false ∧ ∀ m ∈ (messages ++ [r.message]).head?,
              s'.net = (publishStatic space m s.net).2 ∧
                s'.mqtt.mq.isSending = (publishStatic space m s.net).1)) := by
  intro s' messages
  obtain ⟨q, hrefines, hok⟩ := h.queue
  have hmessages : messages = q.waiting := hrefines.messages_eq
  rcases Nat.eq_or_lt_of_le (show q.waiting.length + 1 ≤ mqttQueueSize from
    hrefines.ring.room) with hfull | hroom
  · have hs' : s' = { s with mqtt.dbg.txQOvf := s.mqtt.dbg.txQOvf + 1 } := by
      simp only [s', System.apply, queuePublish_full hrefines hfull]
    rw [hs', hmessages]
    exact ⟨⟨h.linked, q, hrefines, hok⟩, .inl ⟨Nat.succ_injective hfull, rfl, rfl⟩⟩
  · obtain ⟨-, hrefines', hnet⟩ :=
      @refines_queuePublish _ (publishStatic space) _ _ s.net hrefines hroom r
    change Refines s'.mqtt.mq _ at hrefines'
    change s'.net = _ at hnet
    have hmessages' := hrefines'.messages_eq
    rw [waiting_push] at hmessages'
    rw [hmessages, hmessages']
    rcases hsending : s.mqtt.mq.isSending with _ | _
    · rw [hrefines.sending] at hsending
      have hoffer : ∀ m ∈ (q.waiting ++ [r.message]).head?,
          s'.net = (publishStatic space m s.net).2 ∧
            s'.mqtt.mq.isSending = (publishStatic space m s.net).1 := by
        intro m hm
        rw [hnet, hrefines'.sending]
        rcases hwaiting : q.waiting with _ | ⟨m', ms⟩
        · rw [hwaiting] at hm
          obtain rfl := Option.some.inj hm
          simp [Outbox.push, Outbox.offer, hsending, hwaiting]
        · rw [hwaiting] at hm
          obtain rfl := Option.some.inj hm
          simp [Outbox.push, Outbox.offer, hsending, hwaiting]
      refine ⟨⟨?_, _, hrefines', ok_push _⟩, .inr ⟨Nat.lt_of_succ_lt_succ hroom, rfl,
        .inr ⟨rfl, hoffer⟩⟩⟩
      obtain ⟨m, hm⟩ : ∃ m, (q.waiting ++ [r.message]).head? = some m := by
        rcases q.waiting with _ | ⟨m', ms⟩
        · exact ⟨_, rfl⟩
        · exact ⟨_, rfl⟩
      obtain ⟨hnet', hsending'⟩ := hoffer m hm
      rw [hnet', hsending']
      have hlinked := h.linked
      rw [hrefines.sending, hsending] at hlinked
      exact hlinked.offer space m
    · rw [hrefines.sending] at hsending
      have hpush : q.push (publishStatic space) r.message s.net =
          ({ q with waiting := q.waiting ++ [r.message] }, s.net) := by
        simp only [Outbox.push, hsending, if_true]
      have hsending' : s'.mqtt.mq.isSending = true := by
        rw [hrefines'.sending, hpush, hsending]
      rw [hpush] at hnet
      refine ⟨⟨?_, _, hrefines', ok_push _⟩, .inr ⟨Nat.lt_of_succ_lt_succ hroom, rfl,
        .inl ⟨rfl, hsending', hnet⟩⟩⟩
      have hlinked := h.linked
      rw [hrefines.sending, hsending] at hlinked
      rw [hnet, hsending']
      exact hlinked

theorem outstanding_eraseIdx {c : Client} {i : Nat} {r : MqttRequest}
    (hr : c.pendReqQueue[i]? = some r) :
    outstanding c =
      outstanding { c with pendReqQueue := c.pendReqQueue.eraseIdx i } + r.cb.toNat := by
  obtain ⟨hi, rfl⟩ := List.getElem?_eq_some_iff.mp hr
  rw [outstanding, ← (List.getElem_cons_eraseIdx_perm hi).countP_eq, List.countP_cons]
  rcases c.pendReqQueue[i].cb with _ | _ <;> rfl

/-- The end of a request concerns the queue only if it was a publish request,
which the queue was waiting for. -/
theorem requestDone_cases (h : Sound s) {p i : Nat} {space : Bool}
    (henabled : (Event.requestDone p i space).Enabled s) :
    let s' := s.apply (.requestDone p i space)
    Sound s' ∧
      (s'.net.staticClient = s.net.staticClient ∧ view s'.net = view s.net ∧
          s'.mqtt.mq = s.mqtt.mq ∨
        MqttQueue.messages s'.mqtt.mq = (MqttQueue.messages s.mqtt.mq).tail ∧
          ∃ net, Linked net false ∧
            (s'.mqtt.mq.isSending = false ∧ s'.net = net ∨
              ∃ m, s'.net = (publishStatic space m net).2 ∧
                s'.mqtt.mq.isSending = (publishStatic space m net).1)) := by
  intro s'
  obtain ⟨hstate, hsome⟩ := henabled
  obtain ⟨r, hr⟩ := Option.isSome_iff_exists.mp hsome
  obtain ⟨c, hc, hi⟩ := Option.bind_eq_some_iff.mp hr
  have hup : up c = true := by
    rw [Net.stateOf, hc] at hstate
    rcases hstate with hstate | hstate <;> simp [up, Option.some.inj hstate]
  have hcount := outstanding_eraseIdx hi
  have hself : view s.net p = some (true, outstanding c) := by
    rw [view, hc, Option.map_some, hup]
  obtain ⟨net, hnet⟩ : ∃ net, net = s.net.modify p fun c =>
      { c with pendReqQueue := c.pendReqQueue.eraseIdx i } := ⟨_, rfl⟩
  have hstatic : net.staticClient = s.net.staticClient := by
    rw [hnet]
    rfl
  have hview : view net = Function.update (view s.net) p (some (true,
      outstanding { c with pendReqQueue := c.pendReqQueue.eraseIdx i })) := by
    rw [hnet, @view_modify_some s.net p _ c hc, ← hup]
    rfl
  have hs' : s' = requestDone p i space s := rfl
  simp only [requestDone, hr, Option.map_some, Option.some.injEq, ← hnet] at hs'
  rcases hcb : r.cb with _ | _
  · rw [hcb, if_neg Bool.false_ne_true] at hs'
    rw [hcb] at hcount
    have hsame : view net = view s.net := by
      rw [hview, Function.update_eq_self_iff, hself, hcount]
      rfl
    rw [hs']
    exact ⟨⟨h.linked.of_view hstatic hsame, h.queue⟩, .inl ⟨hstatic, hsame, rfl⟩⟩
  · rw [hcb, if_pos rfl] at hs'
    rw [hcb, Bool.toNat_true] at hcount
    have hcurrent := h.linked.current_of_up hself
    obtain ⟨hone, hsending⟩ := (h.linked.sent p _ _ hcurrent hself).resolve_left (by omega)
    have hnone : outstanding { c with pendReqQueue := c.pendReqQueue.eraseIdx i } = 0 := by
      omega
    have hlinked : Linked net false := h.linked.update hself hstatic hview nofun
      (fun hne => absurd hcurrent hne) (.inl hnone) (.inl hcurrent)
    obtain ⟨q, hrefines, hok⟩ := h.queue
    obtain ⟨hrefines', -⟩ := @refines_pubRequestCb _ (publishStatic space) _ _ net hrefines
      (hok (hrefines.sending.symm.trans hsending))
    have hmessages := hrefines'.messages_eq
    rw [waiting_complete, ← hrefines.messages_eq] at hmessages
    have houtcome := pubRequestCb_outcome (publishStatic space) s.mqtt net
    rw [hs']
    refine ⟨⟨?_, _, hrefines', ok_complete⟩,
      .inr ⟨hmessages, net, hlinked, houtcome.imp And.symm id⟩⟩
    rcases houtcome with ⟨hsame, hidle⟩ | ⟨m, hoffer, hanswer⟩
    · simp only [hsame, hidle]
      exact hlinked
    · simp only [hoffer, hanswer]
      exact hlinked.offer space m

/-- The connection of the current client goes, or another client takes its place. -/
def Ends (s : System) : Event → Prop
  | .close p _ => s.net.staticClient = some p
  | .connack p code _ => s.net.staticClient = some p ∧ code ≠ mqttConnectAccepted
  | .reconnect _ _ => True
  | .init _ _ => True
  | _ => False

/-- Events that concern neither the queue nor the requests. -/
def Quiet : Event → Prop
  | .tcpConnect _ => True
  | .connack _ code _ => code = mqttConnectAccepted
  | _ => False

theorem quiet_cases {ev : Event} (hquiet : Quiet ev) (henabled : ev.Enabled s) :
    (s.apply ev).net.staticClient = s.net.staticClient ∧
      view (s.apply ev).net = view s.net ∧ (s.apply ev).mqtt.mq = s.mqtt.mq := by
  have hset : ∀ p st, (s.net.stateOf p = some .tcpConnecting ∨
      s.net.stateOf p = some .mqttConnecting) → st ≠ .tcpDisconnected →
      view (s.net.modify p fun c => { c with connState := st }) = view s.net := by
    intro p st hstate hst
    rcases hc : s.net.heap p with _ | c
    · rw [Net.stateOf, hc] at hstate
      simp at hstate
    · rw [@view_modify_some s.net p _ c hc, Function.update_eq_self_iff, view, hc]
      rw [Net.stateOf, hc] at hstate
      rcases hstate with hstate | hstate <;> simp [up, outstanding, hst, Option.some.inj hstate]
  cases ev with
  | tcpConnect p => exact ⟨rfl, hset p _ (.inl henabled) (by decide), rfl⟩
  | connack p code space =>
      have hcode : code = mqttConnectAccepted := hquiet
      simp only [System.apply, if_pos hcode]
      obtain ⟨hview, hstatic, hmq⟩ := connCb_net p code space
        { s with net := s.net.modify p fun c => { c with connState := .mqttConnected } }
      exact ⟨hstatic, hview.trans (hset p _ (.inr henabled) (by decide)), hmq⟩
  | _ => exact hquiet.elim

theorem ends_cases (h : Sound s) {ev : Event} (hends : Ends s ev) :
    (s.apply ev).mqtt.mq = s.mqtt.mq ∧ Sound (s.apply ev) ∧
      ∀ p b n, (s.apply ev).net.staticClient = some p →
        view (s.apply ev).net p = some (b, n) → n = 0 := by
  have hclose : ∀ p reason, s.net.staticClient = some p →
      (mqttClose p reason s).mqtt.mq = s.mqtt.mq ∧ Sound (mqttClose p reason s) ∧
      ∀ p' b n, (mqttClose p reason s).net.staticClient = some p' →
        view (mqttClose p reason s).net p' = some (b, n) → n = 0 := by
    intro p reason hp
    obtain ⟨hview, hstatic, hmq⟩ := mqttClose_net p reason s
    refine ⟨hmq, ⟨?_, hmq ▸ h.queue⟩, ?_⟩
    · rw [hmq]
      exact h.linked.close hstatic hview
    · intro p' b n hp' hn
      obtain rfl := Option.some.inj (hp.symm.trans (hstatic.symm.trans hp'))
      rw [hview, Function.update_self] at hn
      obtain ⟨_, -, hclosed⟩ := Option.map_eq_some_iff.mp hn
      exact (Prod.mk.inj hclosed).2.symm
  have hinit : ∀ new sts net, net = s.net ∨ net = s.net.untimeout →
      let s' := mqttAppInitClient new sts { s with net }
      s'.mqtt.mq = s.mqtt.mq ∧ Sound s' ∧ ∀ p b n, s'.net.staticClient = some p →
        view s'.net p = some (b, n) → n = 0 := by
    intro new sts net hnet s'
    have hlinked : Linked net s.mqtt.mq.isSending := by
      rcases hnet with rfl | rfl
      · exact h.linked
      · exact h.linked.of_view rfl rfl
    obtain ⟨hstatic, hmq, hview⟩ := @mqttAppInitClient_net new sts { s with net } hlinked.idle
    refine ⟨hmq, ⟨?_, hmq ▸ h.queue⟩, ?_⟩
    · rw [hmq]
      exact hlinked.init hstatic hview
    · intro p b n hp hn
      obtain ⟨b', hb'⟩ := hview p
      rw [hb', if_pos (hstatic.symm.trans hp)] at hn
      exact (Prod.mk.inj (Option.some.inj hn)).2.symm
  cases ev with
  | close p reason => exact hclose p reason hends
  | connack p code space =>
      simp only [System.apply, if_neg hends.2]
      exact hclose p code hends.1
  | reconnect new sts => exact hinit new sts _ (.inr rfl)
  | init new sts => exact hinit new sts _ (.inl rfl)
  | _ => exact hends.elim

theorem event_cases (h : Sound s) {ev : Event} (henabled : ev.Enabled s) :
    (∃ r space, ev = .publish r space) ∨ (∃ p i space, ev = .requestDone p i space) ∨
      Quiet ev ∨ Ends s ev := by
  have hcurrent : ∀ p, (s.net.stateOf p).isSome → s.net.stateOf p ≠ some .tcpDisconnected →
      s.net.staticClient = some p := by
    intro p hsome hne
    obtain ⟨st, hst⟩ := Option.isSome_iff_exists.mp hsome
    obtain ⟨c, hc, rfl⟩ := Option.map_eq_some_iff.mp hst
    have hup : up c = true := by
      rw [hst] at hne
      simpa [up] using hne
    exact h.linked.current_of_up (by rw [view, hc, Option.map_some, hup])
  cases ev with
  | publish r space => exact .inl ⟨r, space, rfl⟩
  | requestDone p i space => exact .inr (.inl ⟨p, i, space, rfl⟩)
  | tcpConnect p => exact .inr (.inr (.inl trivial))
  | connack p code space =>
      by_cases hcode : code = mqttConnectAccepted
      · exact .inr (.inr (.inl hcode))
      · have hstate : s.net.stateOf p = some .mqttConnecting := henabled
        exact .inr (.inr (.inr ⟨hcurrent p (by simp [hstate]) (by simp [hstate]), hcode⟩))
  | close p reason => exact .inr (.inr (.inr (hcurrent p henabled.1 henabled.2.1)))
  | reconnect new sts => exact .inr (.inr (.inr trivial))
  | init new sts => exact .inr (.inr (.inr trivial))

theorem step_eq {s' : System} {ev : Event} (hstep : s.step ev = some s') :
    ev.Enabled s ∧ s' = s.apply ev := by
  rw [System.step] at hstep
  split_ifs at hstep with hcan
  exact ⟨hcan, (Option.some.inj hstep).symm⟩

theorem Sound.step (h : Sound s) {s' : System} {ev : Event} (hstep : s.step ev = some s') :
    Sound s' := by
  obtain ⟨henabled, rfl⟩ := step_eq hstep
  rcases event_cases h henabled with
    ⟨r, space, rfl⟩ | ⟨p, i, space, rfl⟩ | hquiet | hends
  · exact (publish_cases h r space).1
  · exact (requestDone_cases h henabled).1
  · obtain ⟨hstatic, hview, hmq⟩ := quiet_cases hquiet henabled
    refine ⟨?_, hmq ▸ h.queue⟩
    rw [hmq]
    exact h.linked.of_view hstatic hview
  · exact (ends_cases h hends).2.1

end

theorem sound_run {evs : List Event} {s : System} (h : run evs = some s) : Sound s :=
  foldlM_invariant sound_init (fun _ _ _ hs hstep => hs.step hstep) h

end ShGateway.MqttLinks
