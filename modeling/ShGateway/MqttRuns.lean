import ShGateway.MqttLinks

/-!
Whether messages still get to the broker, and memory is still left for clients,
after a run with disconnects and reconnects.
-/

namespace ShGateway.MqttRuns

open ShGateway.Lib.Runs
open ShGateway.MqttPublish
open ShGateway.MqttFifo hiding Event
open ShGateway.MqttClient
open ShGateway.MqttLinks

/-! ## The flag -/

/-- `is_sending` is only set while the current client holds one publish request
whose callback can still be invoked. -/
def Truthful (s : System) : Prop :=
  s.mqtt.mq.isSending = true → ∃ p c, s.net.staticClient = some p ∧
    s.net.heap p = some c ∧ c.connState ≠ .tcpDisconnected ∧ outstanding c = 1

section

variable {s s' : System}

theorem truthful_iff :
    Truthful s ↔ (s.mqtt.mq.isSending = true → ∃ p, s.net.staticClient = some p ∧
      view s.net p = some (true, 1)) := by
  refine imp_congr_right fun _ => exists_congr fun p => ?_
  simp [view, up]

theorem truthful_offer {net : Net} (h : Linked net false) (space : Bool) (m : Message)
    (hnet : s.net = (publishStatic space m net).2)
    (hsending : s.mqtt.mq.isSending = (publishStatic space m net).1) : Truthful s := by
  rw [truthful_iff]
  intro htrue
  obtain ⟨hstatic, -, ⟨hsts, -⟩ | ⟨p, n, hp, hn, -, hview⟩⟩ := publishStatic_net space m net
  · exact absurd (htrue.symm.trans (hsending.trans hsts)) (by decide)
  · obtain rfl : n = 0 := by simpa using h.sent p true n hp hn
    refine ⟨p, ?_, ?_⟩
    · rw [hnet, hstatic, hp]
    · rw [hnet, hview, Function.update_self]

theorem Truthful.step (h : Sound s) (htruthful : Truthful s) {ev : Event}
    (hends : s.mqtt.mq.isSending = true → ¬ Ends s ev) (hstep : s.step ev = some s') :
    Truthful s' := by
  obtain ⟨henabled, rfl⟩ := step_eq hstep
  rcases event_cases h henabled with
    ⟨r, space, rfl⟩ | ⟨p, i, space, rfl⟩ | hquiet | hend
  · obtain ⟨-, ⟨-, hmq, hnet⟩ | ⟨-, -, ⟨hsending, -, hnet⟩ | ⟨hidle, hoffer⟩⟩⟩ :=
      publish_cases h r space
    · rw [Truthful, hmq, hnet]
      exact htruthful
    · rw [Truthful, hnet]
      exact fun _ => htruthful hsending
    · obtain ⟨m, hm⟩ : ∃ m, (MqttQueue.messages s.mqtt.mq ++ [r.message]).head? = some m := by
        rcases MqttQueue.messages s.mqtt.mq with _ | ⟨m, ms⟩ <;> exact ⟨_, rfl⟩
      obtain ⟨hnet, hsending⟩ := hoffer m hm
      have hlinked := h.linked
      rw [hidle] at hlinked
      exact truthful_offer hlinked space m hnet hsending
  · obtain ⟨-, ⟨hstatic, hview, hmq⟩ | ⟨-, net, hlinked, ⟨hidle, -⟩ | ⟨m, hnet, hsending⟩⟩⟩ :=
      requestDone_cases h henabled
    · rw [truthful_iff, hstatic, hview, hmq]
      exact truthful_iff.mp htruthful
    · intro htrue
      rw [hidle] at htrue
      exact absurd htrue Bool.false_ne_true
    · exact truthful_offer hlinked space m hnet hsending
  · obtain ⟨hstatic, hview, hmq⟩ := quiet_cases hquiet henabled
    rw [truthful_iff, hstatic, hview, hmq]
    exact truthful_iff.mp htruthful
  · intro htrue
    rw [(ends_cases h hend).1] at htrue
    exact absurd hend (hends htrue)

theorem not_truthful_of_ends (h : Sound s) {ev : Event} (hsending : s.mqtt.mq.isSending = true)
    (hends : Ends s ev) (hstep : s.step ev = some s') : ¬ Truthful s' := by
  obtain ⟨-, rfl⟩ := step_eq hstep
  obtain ⟨hmq, -, hnone⟩ := ends_cases h hends
  rw [truthful_iff]
  intro htruthful
  obtain ⟨p, hp, hview⟩ := htruthful (hmq ▸ hsending)
  exact absurd (hnone p true 1 hp hview) one_ne_zero

end

/-- The flag is right all through a run exactly if no connection ends while it is
set. -/
theorem run_truthful_iff {evs : List Event} {s : System} (h : run evs = some s) :
    Throughout System.step {} Truthful evs ↔
      AtSteps System.step {} (fun s ev => s.mqtt.mq.isSending = true → ¬ Ends s ev) evs := by
  refine @throughout_iff_atSteps _ _ System.step {} s evs (fun s => Sound s ∧ Truthful s) _ _
    ⟨sound_init, nofun⟩ (fun s hs => hs.2) ?_ ?_ h
  · intro s ev s' hs hq hstep
    exact ⟨hs.1.step hstep, hs.2.step hs.1 hq hstep⟩
  · intro s ev s' hs hq hstep
    rw [Classical.not_imp, not_not] at hq
    exact not_truthful_of_ends hs.1 hq.1 hq.2 hstep

def sampleRequest : Request where
  topic := [116]
  payload := [1]
  qos := 0
  retain := 0
  topic_ne_nul := by simp
  payload_len := by simp

def connected : List Event := [.init (some 0) errOk, .tcpConnect 0, .connack 0 0 true]

theorem run_truthful_iff_connected :
    ∃ s, run (connected ++ [.publish sampleRequest true]) = some s ∧
      (Throughout System.step {} Truthful (connected ++ [.publish sampleRequest true]) ↔
        AtSteps System.step {} (fun s ev => s.mqtt.mq.isSending = true → ¬ Ends s ev)
          (connected ++ [.publish sampleRequest true])) := by
  have hrun : (run (connected ++ [.publish sampleRequest true])).isSome := by decide +kernel
  obtain ⟨s, hs⟩ := Option.isSome_iff_exists.mp hrun
  exact ⟨s, hs, run_truthful_iff hs⟩

/-- The broker goes away while a message is on its way to it. -/
theorem not_truthful_disconnect :
    ∃ s, run (connected ++ [.publish sampleRequest true,
      .close 0 mqttConnectDisconnected]) = some s ∧ ¬ Truthful s := by
  have hrun : (run (connected ++ [.publish sampleRequest true,
      .close 0 mqttConnectDisconnected])).map
        (fun s => (s.mqtt.mq.isSending, s.net.staticClient, view s.net 0)) =
      some (true, some 0, some (false, 0)) := by decide +kernel
  obtain ⟨s, hs, hstate⟩ := Option.map_eq_some_iff.mp hrun
  simp only [Prod.mk.injEq] at hstate
  obtain ⟨hsending, hstatic, hview⟩ := hstate
  refine ⟨s, hs, ?_⟩
  rw [truthful_iff]
  intro htruthful
  obtain ⟨p, hp, hup⟩ := htruthful hsending
  obtain rfl := Option.some.inj (hstatic.symm.trans hp)
  exact absurd (hview.symm.trans hup) (by decide)

/-! ## The backlog -/

/-- No client holds a publish request. -/
def NoneOutstanding (s : System) : Prop :=
  ∀ p c, s.net.heap p = some c → outstanding c = 0

/-- If messages wait and none is outstanding, the next `mqtt_queue_publish`
attempts to send the oldest one. -/
def Drains (s : System) : Prop :=
  ∀ m ms, MqttQueue.messages s.mqtt.mq = m :: ms → NoneOutstanding s →
    ∀ r space, (s.apply (.publish r space)).net.calls = s.net.calls ++ [m]

section

variable {s s' : System}

theorem noneOutstanding_iff (h : Sound s) :
    NoneOutstanding s ↔
      ∀ p b n, s.net.staticClient = some p → view s.net p = some (b, n) → n = 0 := by
  have hview : NoneOutstanding s ↔ ∀ p b n, view s.net p = some (b, n) → n = 0 := by
    constructor
    · intro hnone p b n hn
      obtain ⟨c, hc, hpair⟩ := Option.map_eq_some_iff.mp hn
      rw [← (Prod.mk.inj hpair).2]
      exact hnone p c hc
    · intro hnone p c hc
      exact hnone p (up c) _ (by rw [view, hc, Option.map_some])
  rw [hview]
  constructor
  · intro hnone p b n _ hn
    exact hnone p b n hn
  · intro hnone p b n hn
    by_cases hp : s.net.staticClient = some p
    · exact hnone p b n hp hn
    · exact (Prod.mk.inj (h.linked.stale p _ hn hp)).2

/-- Only a ring with room and a queue that does not wait for a callback make
progress. -/
theorem drains_iff (h : Sound s) :
    Drains s ↔ (MqttQueue.messages s.mqtt.mq ≠ [] → NoneOutstanding s →
      s.mqtt.mq.isSending = false ∧ (MqttQueue.messages s.mqtt.mq).length < 63) := by
  constructor
  · intro hdrains hne hnone
    obtain ⟨m, ms, hmessages⟩ := List.exists_cons_of_ne_nil hne
    have hcalls := hdrains m ms hmessages hnone sampleRequest true
    have hlen : (s.apply (.publish sampleRequest true)).net ≠ s.net := by
      intro hnet
      rw [hnet] at hcalls
      simp at hcalls
    obtain ⟨-, ⟨-, -, hnet⟩ | ⟨hlt, -, ⟨-, -, hnet⟩ | ⟨hidle, -⟩⟩⟩ :=
      publish_cases h sampleRequest true
    · exact absurd hnet hlen
    · exact absurd hnet hlen
    · exact ⟨hidle, hlt⟩
  · intro hready m ms hmessages hnone r space
    obtain ⟨hidle, hlt⟩ := hready (by simp [hmessages]) hnone
    obtain ⟨-, ⟨hfull, -⟩ | ⟨-, -, ⟨hsending, -⟩ | ⟨-, hoffer⟩⟩⟩ := publish_cases h r space
    · omega
    · exact absurd (hidle.symm.trans hsending) (by decide)
    · rw [(hoffer m (by simp [hmessages])).1]
      exact (publishStatic_net space m s.net).2.1

/-- The steps after which nothing drives the queue: a connection ends while a
message is on its way, or the message offered by the call that fills the ring is
turned down. -/
def Wedges (s : System) : Event → Prop
  | .publish _ space =>
      s.mqtt.mq.isSending = false ∧ (MqttQueue.messages s.mqtt.mq).length = 62 ∧
        ∀ m ∈ (MqttQueue.messages s.mqtt.mq).head?, (publishStatic space m s.net).1 = false
  | ev => s.mqtt.mq.isSending = true ∧ Ends s ev

theorem wedges_of_ends {ev : Event} (hsending : s.mqtt.mq.isSending = true)
    (hends : Ends s ev) : Wedges s ev := by
  cases ev with
  | publish r space => exact hends.elim
  | _ => exact ⟨hsending, hends⟩

theorem messages_ne_nil (h : Sound s) (hsending : s.mqtt.mq.isSending = true) :
    MqttQueue.messages s.mqtt.mq ≠ [] := by
  obtain ⟨q, hrefines, hok⟩ := h.queue
  rw [hrefines.messages_eq]
  exact hok (hrefines.sending.symm.trans hsending)

theorem messages_length_le (h : Sound s) : (MqttQueue.messages s.mqtt.mq).length ≤ 63 := by
  obtain ⟨q, hrefines, -⟩ := h.queue
  rw [hrefines.messages_eq]
  exact Nat.le_of_lt_succ hrefines.ring.room

/-- What the queue relies on to go on: a full ring waits for a callback that will
come. -/
structure Driven (s : System) : Prop where
  sound : Sound s
  truthful : Truthful s
  full : (MqttQueue.messages s.mqtt.mq).length = 63 → s.mqtt.mq.isSending = true

theorem Driven.drains (h : Driven s) : Drains s := by
  rw [drains_iff h.sound]
  intro hne hnone
  have hidle : s.mqtt.mq.isSending = false := by
    rw [← Bool.not_eq_true]
    intro hsending
    obtain ⟨p, c, -, hc, -, hone⟩ := h.truthful hsending
    exact absurd (hnone p c hc) (by omega)
  refine ⟨hidle, lt_of_le_of_ne (messages_length_le h.sound) fun hfull => ?_⟩
  exact absurd (hidle.symm.trans (h.full hfull)) Bool.false_ne_true

theorem Driven.step (h : Driven s) {ev : Event} (hwedges : ¬ Wedges s ev)
    (hstep : s.step ev = some s') : Driven s' where
  sound := h.sound.step hstep
  truthful := h.truthful.step h.sound (fun hs hends => hwedges (wedges_of_ends hs hends)) hstep
  full := by
    obtain ⟨henabled, rfl⟩ := step_eq hstep
    rcases event_cases h.sound henabled with
      ⟨r, space, rfl⟩ | ⟨p, i, space, rfl⟩ | hquiet | hends
    · obtain ⟨-, ⟨-, hmq, -⟩ | ⟨-, hmessages, ⟨-, hsending, -⟩ | ⟨hidle, hoffer⟩⟩⟩ :=
        publish_cases h.sound r space
      · rw [hmq]
        exact h.full
      · exact fun _ => hsending
      · intro hfull
        rw [hmessages, List.length_append, List.length_singleton] at hfull
        by_contra hnot
        refine hwedges ⟨hidle, by omega, fun m hm => ?_⟩
        have hhead : (MqttQueue.messages s.mqtt.mq ++ [r.message]).head? = some m := by
          rw [List.head?_append, hm]
          rfl
        rw [(hoffer m hhead).2] at hnot
        exact Bool.eq_false_of_not_eq_true hnot
    · obtain ⟨-, ⟨-, -, hmq⟩ | ⟨hmessages, -⟩⟩ := requestDone_cases h.sound henabled
      · rw [hmq]
        exact h.full
      · intro hfull
        have hle := messages_length_le h.sound
        rw [hmessages, List.length_tail] at hfull
        omega
    · rw [(quiet_cases hquiet henabled).2.2]
      exact h.full
    · rw [(ends_cases h.sound hends).1]
      exact h.full

theorem not_drains_of_wedges (h : Sound s) {ev : Event} (hwedges : Wedges s ev)
    (hstep : s.step ev = some s') : ¬ Drains s' := by
  have hs' := h.step hstep
  obtain ⟨henabled, rfl⟩ := step_eq hstep
  rw [drains_iff hs']
  intro hdrains
  have hended : s.mqtt.mq.isSending = true → Ends s ev → False := by
    intro hsending hends
    obtain ⟨hmq, -, hnone⟩ := ends_cases h hends
    rw [hmq] at hdrains
    have hidle := (hdrains (messages_ne_nil h hsending) ((noneOutstanding_iff hs').mpr hnone)).1
    exact absurd (hidle.symm.trans hsending) Bool.false_ne_true
  cases ev with
  | publish r space =>
      obtain ⟨hidle, hlen, hrejected⟩ := hwedges
      obtain ⟨-, ⟨hfull, -⟩ | ⟨-, hmessages, ⟨hsending, -⟩ | ⟨-, hoffer⟩⟩⟩ :=
        publish_cases h r space
      · omega
      · exact absurd (hidle.symm.trans hsending) Bool.false_ne_true
      · obtain ⟨m, hm⟩ : ∃ m, (MqttQueue.messages s.mqtt.mq).head? = some m := by
          rcases hwaiting : MqttQueue.messages s.mqtt.mq with _ | ⟨m, ms⟩
          · simp [hwaiting] at hlen
          · exact ⟨m, rfl⟩
        have hhead : (MqttQueue.messages s.mqtt.mq ++ [r.message]).head? = some m := by
          rw [List.head?_append, hm]
          rfl
        obtain ⟨-, hsending⟩ := hoffer m hhead
        rw [hrejected m hm] at hsending
        have hnone : NoneOutstanding (s.apply (.publish r space)) := by
          rw [noneOutstanding_iff hs']
          intro p b n hp hn
          have hsent := hs'.linked.sent p b n hp hn
          rw [hsending] at hsent
          exact hsent.resolve_right fun hone => Bool.false_ne_true hone.2
        have hlt := (hdrains (by simp [hmessages]) hnone).2
        rw [hmessages, List.length_append, List.length_singleton, hlen] at hlt
        exact absurd hlt (by decide)
  | _ => exact hended hwedges.1 hwedges.2

end

theorem run_drains_iff {evs : List Event} {s : System} (h : run evs = some s) :
    Throughout System.step {} Drains evs ↔
      AtSteps System.step {} (fun s ev => ¬ Wedges s ev) evs := by
  refine @throughout_iff_atSteps _ _ System.step {} s evs Driven _ _
    ⟨sound_init, nofun, nofun⟩ (fun s hs => hs.drains) (fun s ev s' hs hq => hs.step hq)
    (fun s ev s' hs hq => not_drains_of_wedges hs.sound (not_not.mp hq)) h

theorem run_drains_iff_connected :
    ∃ s, run (connected ++ [.publish sampleRequest true]) = some s ∧
      (Throughout System.step {} Drains (connected ++ [.publish sampleRequest true]) ↔
        AtSteps System.step {} (fun s ev => ¬ Wedges s ev)
          (connected ++ [.publish sampleRequest true])) := by
  have hrun : (run (connected ++ [.publish sampleRequest true])).isSome := by decide +kernel
  obtain ⟨s, hs⟩ := Option.isSome_iff_exists.mp hrun
  exact ⟨s, hs, run_drains_iff hs⟩

/-- The broker is away while 63 messages are published, and comes back. -/
def backlog : List Event :=
  [.init (some 0) errOk, .close 0 mqttConnectDisconnected] ++
    List.replicate 63 (.publish sampleRequest true) ++
    [.reconnect (some 1) errOk, .tcpConnect 1, .connack 1 0 true]

theorem not_drains_backlog : ∃ s, run backlog = some s ∧ ¬ Drains s := by
  have hrun : (run backlog).map (fun s => ((MqttQueue.messages s.mqtt.mq).length,
      s.net.staticClient, view s.net 1)) = some (63, some 1, some (true, 0)) := by
    decide +kernel
  obtain ⟨s, hs, hstate⟩ := Option.map_eq_some_iff.mp hrun
  simp only [Prod.mk.injEq] at hstate
  obtain ⟨hlen, hstatic, hview⟩ := hstate
  have hsound := sound_run hs
  refine ⟨s, hs, ?_⟩
  rw [drains_iff hsound, noneOutstanding_iff hsound]
  intro hdrains
  have hlt := (hdrains (List.ne_nil_of_length_pos (by omega)) (by
    intro p b n hp hn
    obtain rfl := Option.some.inj (hstatic.symm.trans hp)
    exact (Prod.mk.inj (Option.some.inj (hview.symm.trans hn))).2.symm)).2
  omega

/-! ## The heap -/

/-- The only client that is allocated is the current one. -/
def NoLeak (s : System) : Prop := ∀ p, s.net.heap p ≠ none → s.net.staticClient = some p

/-- A call of `mqtt_app_init_client`. -/
def Connects : Event → Prop
  | .reconnect _ _ => True
  | .init _ _ => True
  | _ => False

/-- Nothing is allocated, released or taken for the current client. -/
def SameClients (net net' : Net) : Prop :=
  net'.staticClient = net.staticClient ∧ ∀ p, net'.heap p = none ↔ net.heap p = none

section

variable {net : Net} {s s' : System}

theorem sameClients_modify (net : Net) (p : Nat) (f : Client → Client) :
    SameClients net (net.modify p f) := by
  refine ⟨rfl, fun q => ?_⟩
  rcases eq_or_ne q p with rfl | hne
  · simp only [Net.modify, Function.update_self, Option.map_eq_none_iff]
  · simp only [Net.modify, Function.update_of_ne hne]

theorem SameClients.trans {net₁ net₂ net₃ : Net} (h : SameClients net₁ net₂)
    (h' : SameClients net₂ net₃) : SameClients net₁ net₃ :=
  ⟨h'.1.trans h.1, fun p => (h'.2 p).trans (h.2 p)⟩

theorem sameClients_publishStatic (space : Bool) (m : Message) (net : Net) :
    SameClients net (publishStatic space m net).2 := by
  rw [publishStatic]
  dsimp only
  split
  · exact ⟨rfl, fun _ => Iff.rfl⟩
  · split
    · exact ⟨rfl, fun _ => Iff.rfl⟩
    · exact sameClients_modify { net with calls := net.calls ++ [m] } _ _

theorem sameClients_connCb (p status : Nat) (space : Bool) (s : System) :
    SameClients s.net (connCb p status space s).net := by
  rw [connCb]
  split_ifs
  · exact sameClients_modify _ _ _
  · exact ⟨rfl, fun _ => Iff.rfl⟩

theorem sameClients_mqttClose (p reason : Nat) (s : System) :
    SameClients s.net (mqttClose p reason s).net := by
  rw [mqttClose]
  dsimp only
  split_ifs
  · exact sameClients_modify _ _ _
  · exact ((sameClients_modify _ _ _).trans (sameClients_modify _ _ _)).trans
      (sameClients_connCb _ _ _ _)

theorem sameClients_apply {ev : Event} (hev : ¬ Connects ev) :
    SameClients s.net (s.apply ev).net := by
  cases ev with
  | publish r space =>
      change SameClients s.net (mqttQueuePublish (publishStatic space) r s.mqtt s.net).2.2
      rcases queuePublish_outcome (publishStatic space) s.mqtt s.net r with
        ⟨hnet, -⟩ | ⟨-, m, hnet, -⟩
      · rw [hnet]
        exact ⟨rfl, fun _ => Iff.rfl⟩
      · rw [hnet]
        exact sameClients_publishStatic space m s.net
  | requestDone p i space =>
      have hmodify := sameClients_modify s.net p
        fun c => { c with pendReqQueue := c.pendReqQueue.eraseIdx i }
      simp only [System.apply, requestDone]
      split_ifs
      · rcases pubRequestCb_outcome (publishStatic space) s.mqtt (s.net.modify p fun c =>
          { c with pendReqQueue := c.pendReqQueue.eraseIdx i }) with
          ⟨hnet, -⟩ | ⟨m, hnet, -⟩
        · rw [hnet]
          exact hmodify
        · rw [hnet]
          exact hmodify.trans (sameClients_publishStatic space m _)
      · exact hmodify
  | tcpConnect p => exact sameClients_modify _ _ _
  | connack p code space =>
      simp only [System.apply]
      split_ifs
      · exact (sameClients_modify _ _ _).trans (sameClients_connCb _ _ _ _)
      · exact sameClients_mqttClose p code s
  | close p reason => exact sameClients_mqttClose p reason s
  | reconnect new sts => exact absurd trivial hev
  | init new sts => exact absurd trivial hev

theorem connects_cases (h : Sound s) {ev : Event} (hev : Connects ev)
    (henabled : ev.Enabled s) :
    ∃ new, s.net.Fresh new ∧ (s.apply ev).net.staticClient = new ∧ ∀ q,
      (s.apply ev).net.heap q = none ↔ new ≠ some q ∧ s.net.heap q = none := by
  have hview_none : ∀ (net : Net) q, view net q = none ↔ net.heap q = none :=
    fun net q => Option.map_eq_none_iff
  have hinit : ∀ new sts net, net = s.net ∨ net = s.net.untimeout →
      (mqttAppInitClient new sts { s with net }).net.staticClient = new ∧
      ∀ q, (mqttAppInitClient new sts { s with net }).net.heap q = none ↔
        new ≠ some q ∧ s.net.heap q = none := by
    intro new sts net hnet
    have hsame : view net = view s.net := by rcases hnet with rfl | rfl <;> rfl
    obtain ⟨hstatic, -, hview⟩ := @mqttAppInitClient_net new sts { s with net }
      (by simpa only [hsame] using h.linked.idle)
    refine ⟨hstatic, fun q => ?_⟩
    obtain ⟨b, hq⟩ := hview q
    rw [← hview_none, ← hview_none, hq]
    simp only [hsame]
    split_ifs with hnew <;> simp [hnew]
  cases ev with
  | reconnect new sts => exact ⟨new, henabled.2, hinit new sts _ (.inr rfl)⟩
  | init new sts => exact ⟨new, henabled, hinit new sts _ (.inl rfl)⟩
  | _ => exact hev.elim

end

/-- No client is lost exactly if none is there whenever `mqtt_app_init_client` is
called. -/
theorem run_noLeak_iff {evs : List Event} {s : System} (h : run evs = some s) :
    Throughout System.step {} NoLeak evs ↔
      AtSteps System.step {} (fun s ev => Connects ev → s.net.staticClient = none) evs := by
  refine @throughout_iff_atSteps _ _ System.step {} s evs (fun s => Sound s ∧ NoLeak s) _ _
    ⟨sound_init, fun p hp => absurd rfl hp⟩ (fun s hs => hs.2) ?_ ?_ h
  · intro s ev s' hs hq hstep
    refine ⟨hs.1.step hstep, fun p hp => ?_⟩
    obtain ⟨henabled, rfl⟩ := step_eq hstep
    by_cases hev : Connects ev
    · obtain ⟨new, -, hstatic, hheap⟩ := connects_cases hs.1 hev henabled
      have hnone : s.net.heap p = none := by
        by_contra hsome
        exact absurd ((hs.2 p hsome).symm.trans (hq hev)) (Option.some_ne_none p)
      rw [hstatic]
      by_contra hne
      exact hp ((hheap p).mpr ⟨hne, hnone⟩)
    · obtain ⟨hstatic, hheap⟩ := sameClients_apply hev
      rw [hstatic]
      exact hs.2 p (mt (hheap p).mpr hp)
  · intro s ev s' hs hq hstep hleak
    obtain ⟨henabled, rfl⟩ := step_eq hstep
    rw [Classical.not_imp] at hq
    obtain ⟨hev, hsome⟩ := hq
    obtain ⟨p, hp⟩ := Option.ne_none_iff_exists'.mp hsome
    obtain ⟨new, hfresh, hstatic, hheap⟩ := connects_cases hs.1 hev henabled
    have hold : s.net.heap p ≠ none := fun hnone =>
      hs.1.linked.stored p hp (Option.map_eq_none_iff.mpr hnone)
    have hnew := (hstatic.symm.trans (hleak p (fun hnone => hold ((hheap p).mp hnone).2)))
    exact hold (hfresh p hnew)

theorem run_noLeak_iff_connected :
    ∃ s, run connected = some s ∧
      (Throughout System.step {} NoLeak connected ↔
        AtSteps System.step {} (fun s ev => Connects ev → s.net.staticClient = none)
          connected) := by
  have hrun : (run connected).isSome := by decide +kernel
  obtain ⟨s, hs⟩ := Option.isSome_iff_exists.mp hrun
  exact ⟨s, hs, run_noLeak_iff hs⟩

/-- One disconnect is enough to leave a client behind. -/
theorem not_noLeak_reconnect :
    ∃ s, run (connected ++ [.close 0 mqttConnectDisconnected, .reconnect (some 1) errOk]) =
      some s ∧ ¬ NoLeak s := by
  have hrun : (run (connected ++ [.close 0 mqttConnectDisconnected,
      .reconnect (some 1) errOk])).map
        (fun s => (s.net.staticClient, (s.net.heap 0).isSome)) = some (some 1, true) := by
    decide +kernel
  obtain ⟨s, hs, hstate⟩ := Option.map_eq_some_iff.mp hrun
  simp only [Prod.mk.injEq] at hstate
  refine ⟨s, hs, fun hleak => ?_⟩
  have hstatic := hleak 0 (Option.isSome_iff_ne_none.mp hstate.2)
  exact absurd (hstate.1.symm.trans hstatic) (by decide)

end ShGateway.MqttRuns
