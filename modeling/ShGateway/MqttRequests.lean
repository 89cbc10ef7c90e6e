import ShGateway.Lib.DeltaQueue
import ShGateway.Lib.LinkedChain

/-!
The requests of lwIP's `mqtt.c` that wait for an answer: a pool of items, a list through them in
which each has its time relative to the one before it, and a timer that ends those which are
late.
-/

namespace ShGateway.MqttRequests

open ShGateway.Lib
open ShGateway.Lib.LinkedChain (Chain)

/-! ## The queue -/

/-- `MQTT_REQ_MAX_IN_FLIGHT`. -/
def reqMaxInFlight : Nat := 4

/-- `MQTT_REQ_TIMEOUT`, in seconds. -/
def reqTimeout : Nat := 30

/-- `MQTT_CYCLIC_TIMER_INTERVAL`, in seconds. -/
def cyclicTimerInterval : Nat := 5

/-- What a request is about: whether it has a callback, the callback's argument and the packet
identifier. -/
structure Request where
  cb : Bool := false
  arg : Nat := 0
  pktId : Nat := 0
deriving DecidableEq

/-- `struct mqtt_request_t`; `next` is the index of an item of the pool. -/
structure Item (n : Nat) extends Request where
  next : Option (Fin n)
  timeoutDiff : Nat := 0

/-- `req_list` and `pend_req_queue`. -/
structure Requests (n : Nat) where
  items : Fin n → Item n
  queue : Option (Fin n)

section

variable {n : Nat}

def Requests.next (r : Requests n) (i : Fin n) : Option (Fin n) := (r.items i).next

def Requests.set (r : Requests n) (i : Fin n) (item : Item n) : Requests n :=
  { r with items := Function.update r.items i item }

/-- `mqtt_init_requests`, after `memset` of the client. -/
def mqttInitRequests (n : Nat) : Requests n where
  items := fun i => { next := some i }
  queue := none

def mqttCreateRequest (r : Requests n) (q : Request) : Option (Fin n × Requests n) :=
  match (List.finRange n).find? (fun i => r.next i = some i) with
  | none => none
  | some i => some (i, r.set i { q with
      next := none
      timeoutDiff := (r.items i).timeoutDiff })

/-- The loop that looks for the end of the list and adds up the times, in an `s16_t`. It has no
end if the list has more items than the pool. -/
def findHead (r : Requests n) :
    Nat → Option (Fin n) → Option (Fin n) → Int → Option (Option (Fin n) × Int)
  | _, none, head, timeBefore => some (head, timeBefore)
  | 0, some _, _, _ => none
  | fuel + 1, some i, _, timeBefore =>
      findHead r fuel (r.next i) (some i) ((timeBefore + (r.items i).timeoutDiff).bmod (2 ^ 16))

/-- `mqtt_append_request`, `none` if the loop has no end or the assertion fails. -/
def mqttAppendRequest (r : Requests n) (i : Fin n) : Option (Requests n) :=
  match findHead r n r.queue none 0 with
  | none => none
  | some (head, timeBefore) =>
      if timeBefore ≤ reqTimeout then
        let r := r.set i { r.items i with
          timeoutDiff := ((reqTimeout - timeBefore) % 2 ^ 16).toNat }
        match head with
        | none => some { r with queue := some i }
        | some j => some (r.set j { r.items j with next := some i })
      else none

def mqttDeleteRequest (r : Requests n) (i : Fin n) : Requests n :=
  r.set i { r.items i with next := some i }

/-- The loop that looks for a packet identifier, with the item before it. -/
def findPktId (r : Requests n) (pktId : Nat) :
    Nat → Option (Fin n) → Option (Fin n) → Option (Option (Fin n) × Option (Fin n))
  | _, none, prev => some (none, prev)
  | 0, some _, _ => none
  | fuel + 1, some i, prev =>
      if (r.items i).pktId = pktId then some (some i, prev)
      else findPktId r pktId fuel (r.next i) (some i)

/-- What was behind an item is now behind the item before it. -/
def unchain (r : Requests n) (i : Fin n) : Option (Fin n) → Requests n
  | none => { r with queue := r.next i }
  | some j => r.set j { r.items j with next := r.next i }

/-- The item behind an item gets its time. -/
def addTime (r : Requests n) (i : Fin n) : Option (Fin n) → Requests n
  | none => r
  | some j => r.set j { r.items j with
      timeoutDiff := ((r.items j).timeoutDiff + (r.items i).timeoutDiff) % 2 ^ 16 }

/-- `mqtt_take_request`, `none` if the loop has no end. -/
def mqttTakeRequest (r : Requests n) (pktId : Nat) : Option (Option (Fin n) × Requests n) :=
  match findPktId r pktId n r.queue none with
  | none => none
  | some (none, _) => some (none, r)
  | some (some i, prev) =>
      let r := unchain r i prev
      let r := addTime r i (r.next i)
      some (some i, r.set i { r.items i with next := none })

/-- The loop of `mqtt_clear_requests`, with the items that it deletes. -/
def deleteAll (r : Requests n) : Nat → Option (Fin n) → Option (List (Fin n) × Requests n)
  | _, none => some ([], r)
  | 0, some _ => none
  | fuel + 1, some i =>
      (deleteAll (mqttDeleteRequest r i) fuel (r.next i)).map fun res => (i :: res.1, res.2)

def mqttClearRequests (r : Requests n) : Option (List (Fin n) × Requests n) :=
  (deleteAll r n r.queue).map fun res => (res.1, { res.2 with queue := none })

end

/-! ## The client -/

/-- `ERR_OK`, `ERR_ABRT` and `ERR_TIMEOUT`. -/
inductive Result
  | ok
  | abrt
  | timeout
deriving DecidableEq, Repr

/-- A request that was made: whether it has a callback, and in or after which tick of the timer. -/
structure Made where
  cb : Bool
  tick : Nat
deriving DecidableEq

/-- The end of a request: the number of the request, whether its callback was called, with what
result, and in or after which tick. -/
structure Ended where
  arg : Nat
  called : Bool
  result : Result
  tick : Nat
deriving DecidableEq

/-- The client, with what it did so far. A request is numbered by the requests before it, `dropped`
are those that ended with the connection, `ticks` counts the calls of the timer while connected. -/
structure System (n : Nat) extends Requests n where
  connected : Bool := false
  made : List Made := []
  ended : List Ended := []
  dropped : List Nat := []
  ticks : Nat := 0

/-- What a callback may do: a request, if there is room for its message, `mqtt_disconnect`, and
`mqtt_client_connect`, which may fail. -/
inductive Action
  | request (pktId : Nat) (cb room : Bool)
  | disconnect
  | connect (opened : Bool)

section

variable {n : Nat}

/-- The part of `mqtt_publish` and `mqtt_sub_unsub` about the queue. -/
def request (s : System n) (pktId : Nat) (cb room : Bool) : Option (System n) :=
  if s.connected = false then some s
  else
    match mqttCreateRequest s.toRequests ⟨cb, s.made.length, pktId⟩ with
    | none => some s
    | some (i, r) =>
        if room then
          (mqttAppendRequest r i).map fun r =>
            { s with toRequests := r, made := s.made ++ [⟨cb, s.ticks⟩] }
        else some { s with toRequests := mqttDeleteRequest r i }

/-- The part of `mqtt_close` about the queue. -/
def mqttClose (s : System n) : Option (System n) :=
  (mqttClearRequests s.toRequests).map fun res =>
    { s with
      toRequests := res.2
      connected := false
      dropped := s.dropped ++ res.1.map fun i => (s.items i).arg }

/-- The part of `mqtt_client_connect` about the queue. -/
def mqttClientConnect (s : System n) (opened : Bool) : System n :=
  if s.connected then s else { s with toRequests := mqttInitRequests n, connected := opened }

def Action.perform (s : System n) : Action → Option (System n)
  | .request pktId cb room => MqttRequests.request s pktId cb room
  | .disconnect => mqttClose s
  | .connect opened => some (mqttClientConnect s opened)

def Action.isRequest : Action → Bool
  | .request .. => true
  | _ => false

/-- A callback that makes no request behind its own `mqtt_client_connect`. -/
def Settled : List Action → Prop
  | [] => True
  | .connect _ :: acts => ∀ act ∈ acts, act.isRequest = false
  | _ :: acts => Settled acts

/-- The callback of a request. What callbacks do is taken from a list, one entry each. -/
def callback (s : System n) (i : Fin n) (result : Result) (script : List (List Action)) :
    Option (System n × List (List Action)) :=
  let q := s.items i
  let s := { s with ended := s.ended ++ [⟨q.arg, q.cb, result, s.ticks⟩] }
  if q.cb then ((script.headD []).foldlM Action.perform s).map fun s => (s, script.tail)
  else some (s, script)

/-- What is done with a request that was taken: its callback, and `mqtt_delete_request`. -/
def finish (s : System n) (i : Fin n) (result : Result) (script : List (List Action)) :
    Option (System n × List (List Action)) :=
  (callback s i result script).map fun res =>
    ({ res.1 with toRequests := mqttDeleteRequest res.1.toRequests i }, res.2)

/-- The part of `mqtt_message_received` about the answer to a request. -/
def response (s : System n) (pktId : Nat) (result : Result) (script : List (List Action)) :
    Option (System n) :=
  match mqttTakeRequest s.toRequests pktId with
  | none => none
  | some (none, _) => some s
  | some (some i, r) => (finish { s with toRequests := r } i result script).map Prod.fst

/-- An answer to a subscription that is too short: the connection is closed. -/
def shortSuback (s : System n) (pktId : Nat) : Option (System n) :=
  match mqttTakeRequest s.toRequests pktId with
  | none => none
  | some (none, _) => some s
  | some (some i, r) =>
      mqttClose { s with toRequests := r, dropped := s.dropped ++ [(r.items i).arg] }

/-- The loop of `mqtt_tcp_sent_cb`: messages without an answer are done when they are sent. -/
def sentLoop : Nat → System n → List (List Action) → Option (System n)
  | 0, _, _ => none
  | fuel + 1, s, script =>
      match mqttTakeRequest s.toRequests 0 with
      | none => none
      | some (none, _) => some s
      | some (some i, r) =>
          match finish { s with toRequests := r } i .ok script with
          | none => none
          | some (s, script) => sentLoop fuel s script

/-- `mqtt_request_time_elapsed`. -/
def mqttRequestTimeElapsed : Nat → Nat → System n → List (List Action) → Option (System n)
  | 0, _, _, _ => none
  | fuel + 1, t, s, script =>
      if t > 0 then
        match s.queue with
        | none => some s
        | some i =>
            if t ≥ (s.items i).timeoutDiff then
              let t := (t + 2 ^ 8 - (s.items i).timeoutDiff % 2 ^ 8) % 2 ^ 8
              match finish { s with queue := s.next i } i .timeout script with
              | none => none
              | some (s, script) => mqttRequestTimeElapsed fuel t s script
            else
              mqttRequestTimeElapsed fuel 0 { s with
                toRequests := s.set i { s.items i with
                  timeoutDiff := (s.items i).timeoutDiff - t } } script
      else some s

/-- What happens to a client. -/
inductive Event
  | connect (opened : Bool)
  | request (pktId : Nat) (cb room : Bool)
  | response (pktId : Nat) (accepted : Bool) (script : List (List Action))
  | shortSuback (pktId : Nat)
  | sent (script : List (List Action))
  | tick (script : List (List Action))
  | close

/-- What the callbacks of an event do. -/
def Event.script : Event → List (List Action)
  | .response _ _ script | .sent script | .tick script => script
  | _ => []

/-- A turn of a loop of callbacks ends a request or is the last. -/
def sentFuel (n : Nat) (script : List (List Action)) : Nat := n + script.flatten.length + 1

/-- Nothing happens to a client that is not connected but the next connection. -/
def System.step (s : System n) : Event → Option (System n)
  | .connect opened => some (mqttClientConnect s opened)
  | .request pktId cb room => MqttRequests.request s pktId cb room
  | .response pktId accepted script =>
      if s.connected then
        MqttRequests.response s pktId (if accepted then .ok else .abrt) script
      else some s
  | .shortSuback pktId => if s.connected then MqttRequests.shortSuback s pktId else some s
  | .sent script => if s.connected then sentLoop (sentFuel n script) s script else some s
  | .tick script =>
      if s.connected then
        mqttRequestTimeElapsed (n + 2) cyclicTimerInterval { s with ticks := s.ticks + 1 } script
      else some s
  | .close => mqttClose s

def init (n : Nat) : System n := { mqttInitRequests n with }

/-- A client after some events, `none` if a loop has no end or an assertion fails. -/
def run (n : Nat) (evs : List Event) : Option (System n) := evs.foldlM System.step (init n)

end

/-! ## The list in the pool -/

/-- The items of the list, and those that are neither in it nor free. -/
structure Layout {n : Nat} (r : Requests n) (held is : List (Fin n)) : Prop where
  chain : Chain r.next r.queue is
  free : ∀ i, r.next i = some i ↔ i ∉ is ∧ i ∉ held
  apart : ∀ i ∈ held, i ∉ is

/-- The requests of some items, each with its time. -/
def Requests.entries {n : Nat} (r : Requests n) (is : List (Fin n)) : List (Request × Nat) :=
  is.map fun i => ((r.items i).toRequest, (r.items i).timeoutDiff)

section

variable {n : Nat} {r : Requests n} {held is : List (Fin n)} {i j : Fin n}

theorem items_set_self (item : Item n) : (r.set i item).items i = item := by
  change Function.update r.items i item i = item
  exact Function.update_self i item r.items

theorem items_set_of_ne (item : Item n) (h : j ≠ i) : (r.set i item).items j = r.items j := by
  change Function.update r.items i item j = r.items j
  exact Function.update_of_ne h item r.items

theorem next_set (item : Item n) :
    (r.set i item).next = Function.update r.next i item.next := by
  funext j
  rw [Requests.next]
  rcases eq_or_ne j i with rfl | hne
  · rw [items_set_self, Function.update_self]
  · rw [items_set_of_ne item hne, Function.update_of_ne hne]
    rfl

theorem entries_congr {r' : Requests n}
    (h : ∀ i ∈ is, (r'.items i).toRequest = (r.items i).toRequest ∧
      (r'.items i).timeoutDiff = (r.items i).timeoutDiff) : r'.entries is = r.entries is :=
  List.map_congr_left fun i hi => Prod.ext (h i hi).1 (h i hi).2

theorem entries_set (item : Item n) (hi : i ∉ is) : (r.set i item).entries is = r.entries is :=
  entries_congr fun j hj => by
    rw [items_set_of_ne item (ne_of_mem_of_not_mem hj hi)]
    exact ⟨rfl, rfl⟩

theorem entries_append (js : List (Fin n)) :
    r.entries (is ++ js) = r.entries is ++ r.entries js := List.map_append

theorem entries_relink (r : Requests n) (j : Fin n) (q : Option (Fin n)) :
    (r.set j { r.items j with next := q }).entries is = r.entries is :=
  entries_congr fun k _ => by
    rcases eq_or_ne k j with rfl | hne
    · rw [items_set_self]
      exact ⟨rfl, rfl⟩
    · rw [items_set_of_ne _ hne]
      exact ⟨rfl, rfl⟩

theorem Layout.length_le (h : Layout r held is) : is.length ≤ n := by
  have hle := h.chain.length_le
  rwa [Fintype.card_fin] at hle

theorem Layout.full_iff (h : Layout r held is) : (∀ i, i ∈ is) ↔ is.length = n := by
  have hcard := List.toFinset_card_of_nodup h.chain.nodup
  constructor
  · intro hall
    have huniv : is.toFinset = Finset.univ :=
      Finset.eq_univ_of_forall fun i => List.mem_toFinset.mpr (hall i)
    rw [← hcard, huniv, Finset.card_univ, Fintype.card_fin]
  · intro hlength i
    have huniv : is.toFinset = Finset.univ := by
      rw [← Finset.card_eq_iff_eq_univ, hcard, hlength, Fintype.card_fin]
    exact List.mem_toFinset.mp (huniv ▸ Finset.mem_univ i)

theorem layout_init (n : Nat) : Layout (mqttInitRequests n) [] [] :=
  ⟨rfl, fun i => iff_of_true rfl ⟨List.not_mem_nil, List.not_mem_nil⟩, by simp⟩

theorem mqttCreateRequest_spec (h : Layout r held is) (q : Request) :
    mqttCreateRequest r q = none ∧ (∀ i, i ∈ is ∨ i ∈ held) ∨
      ∃ i r', mqttCreateRequest r q = some (i, r') ∧ i ∉ is ∧ i ∉ held ∧
        Layout r' (i :: held) is ∧ r'.next i = none ∧ (r'.items i).toRequest = q ∧
        r'.entries is = r.entries is := by
  rw [mqttCreateRequest]
  cases hfind : (List.finRange n).find? (fun i => r.next i = some i) with
  | none =>
      refine .inl ⟨rfl, fun i => ?_⟩
      have hused := List.find?_eq_none.mp hfind i (List.mem_finRange i)
      rw [decide_eq_true_eq, h.free] at hused
      tauto
  | some i =>
      have hfree := List.find?_some hfind
      rw [decide_eq_true_eq, h.free] at hfree
      refine .inr ⟨i, _, rfl, hfree.1, hfree.2, ⟨?_, ?_, ?_⟩, ?_, ?_, entries_set _ hfree.1⟩
      · rw [next_set]
        exact h.chain.update hfree.1 none
      · intro j
        rw [next_set, List.mem_cons]
        rcases eq_or_ne j i with rfl | hne
        · rw [Function.update_self]
          exact iff_of_false nofun (fun hj => hj.2 (.inl rfl))
        · rw [Function.update_of_ne hne, h.free]
          tauto
      · intro j hj
        rcases List.mem_cons.mp hj with rfl | hj
        · exact hfree.1
        · exact h.apart j hj
      · rw [next_set, Function.update_self]
      · rw [items_set_self]

theorem mqttDeleteRequest_spec (h : Layout r (i :: held) is) (hi : i ∉ held) :
    Layout (mqttDeleteRequest r i) held is ∧
      (mqttDeleteRequest r i).entries is = r.entries is := by
  have hout := h.apart i List.mem_cons_self
  refine ⟨⟨?_, ?_, fun j hj => h.apart j (List.mem_cons_of_mem _ hj)⟩, entries_set _ hout⟩
  · rw [mqttDeleteRequest, next_set]
    exact h.chain.update hout _
  · intro j
    rw [mqttDeleteRequest, next_set]
    rcases eq_or_ne j i with rfl | hne
    · rw [Function.update_self]
      exact iff_of_true rfl ⟨hout, hi⟩
    · rw [Function.update_of_ne hne, h.free, List.mem_cons]
      tauto

theorem mqttDeleteRequest_free (h : Layout r held is) (hin : i ∉ is) (hheld : i ∉ held) :
    mqttDeleteRequest r i = r := by
  have hself : r.next i = some i := (h.free i).mpr ⟨hin, hheld⟩
  have hitem : { r.items i with next := some i } = r.items i := by
    rw [← hself]
    rfl
  rw [mqttDeleteRequest, hitem, Requests.set, Function.update_eq_self]

theorem findHead_spec {p : Option (Fin n)} (head : Option (Fin n)) {fuel : Nat} (t : Nat)
    (h : Chain r.next p is) (hfuel : is.length ≤ fuel)
    (ht : t + DeltaQueue.total (r.entries is) ≤ reqTimeout) :
    findHead r fuel p head t =
      some (is.getLast?.or head, ((t + DeltaQueue.total (r.entries is) : Nat) : Int)) := by
  induction is generalizing p head fuel t with
  | nil =>
      obtain rfl := h
      rw [findHead]
      rfl
  | cons i is ih =>
      obtain ⟨rfl, h⟩ := h
      rw [List.length_cons] at hfuel
      obtain ⟨fuel, rfl⟩ : ∃ f, fuel = f + 1 := ⟨fuel - 1, by omega⟩
      have htotal : DeltaQueue.total (r.entries (i :: is)) =
          (r.items i).timeoutDiff + DeltaQueue.total (r.entries is) := rfl
      have hlimit : reqTimeout = 30 := rfl
      have hsum : ((t : Int) + (r.items i).timeoutDiff).bmod (2 ^ 16) =
          ((t + (r.items i).timeoutDiff : Nat) : Int) := by
        rw [← Int.natCast_add]
        exact Int.bmod_eq_of_le (by omega) (by omega)
      rw [findHead, hsum, ih _ _ h (by omega) (by omega), htotal, Nat.add_assoc,
        List.getLast?_cons]
      cases is.getLast? with
      | none => rfl
      | some j => rfl

theorem mqttAppendRequest_spec (h : Layout r (i :: held) is) (hi : i ∉ held)
    (hnext : r.next i = none) (ht : DeltaQueue.total (r.entries is) ≤ reqTimeout) :
    ∃ r', mqttAppendRequest r i = some r' ∧ Layout r' held (is ++ [i]) ∧
      r'.entries (is ++ [i]) = r.entries is ++
        [((r.items i).toRequest, reqTimeout - DeltaQueue.total (r.entries is))] := by
  have hout := h.apart i List.mem_cons_self
  have hlimit : reqTimeout = 30 := rfl
  have hhead := findHead_spec none 0 h.chain h.length_le (by omega)
  rw [Nat.zero_add, Option.or_none, Nat.cast_zero] at hhead
  generalize hd : reqTimeout - DeltaQueue.total (r.entries is) = d
  have hdiff : (((reqTimeout : Int) - (DeltaQueue.total (r.entries is) : Nat)) % 2 ^ 16).toNat =
      d := by
    omega
  rw [mqttAppendRequest, hhead]
  dsimp only
  rw [if_pos (by omega), hdiff]
  have htimed : (r.set i { r.items i with timeoutDiff := d }).next = r.next := by
    rw [next_set]
    exact Function.update_eq_self i r.next
  have hentries : (r.set i { r.items i with timeoutDiff := d }).entries (is ++ [i]) =
      r.entries is ++ [((r.items i).toRequest, d)] := by
    rw [entries_append, entries_set _ hout, Requests.entries, Requests.entries, List.map_singleton,
      items_set_self]
  have hqueue : (r.set i { r.items i with timeoutDiff := d }).queue = r.queue := rfl
  generalize r.set i { r.items i with timeoutDiff := d } = r₁ at htimed hentries hqueue ⊢
  have hfree : ∀ k, r.next k = some k ↔ k ∉ is ++ [i] ∧ k ∉ held := by
    intro k
    rw [h.free, List.mem_append, List.mem_singleton, List.mem_cons]
    tauto
  have hapart : ∀ k ∈ held, k ∉ is ++ [i] := by
    intro k hk
    rw [List.mem_append, List.mem_singleton]
    rintro (hin | rfl)
    · exact h.apart k (List.mem_cons_of_mem _ hk) hin
    · exact hi hk
  rcases List.eq_nil_or_concat' is with rfl | ⟨pre, j, rfl⟩
  · refine ⟨{ r₁ with queue := some i }, rfl, ⟨⟨rfl, ?_⟩, ?_, hapart⟩, hentries⟩
    · change r₁.next i = none
      rw [htimed, hnext]
    · change ∀ k, r₁.next k = some k ↔ _
      rw [htimed]
      exact hfree
  · rw [List.getLast?_concat]
    have hj : j ∈ pre ++ [j] := List.mem_append_right _ (List.mem_singleton_self j)
    have hji : j ≠ i := ne_of_mem_of_not_mem hj hout
    refine ⟨_, rfl, ⟨?_, ?_, hapart⟩, (entries_relink _ _ _).trans hentries⟩
    · rw [next_set, htimed]
      change Chain _ r₁.queue _
      rw [hqueue]
      have hlast : Chain r.next r.queue (pre ++ [j] ++ []) := by
        rw [List.append_nil]
        exact h.chain
      exact hlast.relink ⟨rfl, hnext⟩ (mt List.mem_singleton.mp hji)
    · intro k
      rw [next_set, htimed, ← hfree]
      rcases eq_or_ne k j with rfl | hne
      · rw [Function.update_self]
        exact iff_of_false (fun heq => hji (Option.some.inj heq).symm) (h.chain.not_self hj)
      · rw [Function.update_of_ne hne]

theorem findPktId_spec {p : Option (Fin n)} (prev : Option (Fin n)) (fuel : Nat) (pktId : Nat)
    (h : Chain r.next p is) (hfuel : is.length ≤ fuel) :
    (∃ last, findPktId r pktId fuel p prev = some (none, last) ∧
        ∀ i ∈ is, (r.items i).pktId ≠ pktId) ∨
      ∃ pre i post, is = pre ++ i :: post ∧ (r.items i).pktId = pktId ∧
        findPktId r pktId fuel p prev = some (some i, pre.getLast?.or prev) := by
  induction is generalizing p prev fuel with
  | nil =>
      obtain rfl := h
      rw [findPktId]
      exact .inl ⟨prev, rfl, by simp⟩
  | cons i is ih =>
      obtain ⟨rfl, h⟩ := h
      rw [List.length_cons] at hfuel
      obtain ⟨fuel, rfl⟩ : ∃ f, fuel = f + 1 := ⟨fuel - 1, by omega⟩
      rw [findPktId]
      split_ifs with hid
      · exact .inr ⟨[], i, is, rfl, hid, rfl⟩
      · rcases ih (some i) fuel h (by omega) with
          ⟨last, hfind, hnone⟩ | ⟨pre, j, post, rfl, hj, hfind⟩
        · refine .inl ⟨last, hfind, ?_⟩
          intro j hj
          rcases List.mem_cons.mp hj with rfl | hj
          · exact hid
          · exact hnone j hj
        · refine .inr ⟨i :: pre, j, post, rfl, hj, ?_⟩
          rw [hfind, List.getLast?_cons]
          cases pre.getLast? with
          | none => rfl
          | some k => rfl

theorem unchain_spec {pre post : List (Fin n)} (h : Chain r.next r.queue (pre ++ i :: post)) :
    Chain (unchain r i pre.getLast?).next (unchain r i pre.getLast?).queue (pre ++ post) ∧
      Chain (unchain r i pre.getLast?).next (r.next i) post ∧
      (∀ k, (unchain r i pre.getLast?).next k = some k ↔ r.next k = some k) ∧
      (unchain r i pre.getLast?).items i = r.items i ∧
      ∀ js, (unchain r i pre.getLast?).entries js = r.entries js := by
  have hpost := h.suffix
  rcases List.eq_nil_or_concat' pre with rfl | ⟨pre, j, rfl⟩
  · exact ⟨hpost.2, hpost.2, fun _ => Iff.rfl, rfl, fun _ => rfl⟩
  · have hnodup := h.nodup
    rw [List.getLast?_concat, unchain, next_set]
    have hj : j ∉ i :: post := by
      intro hj
      rw [List.nodup_append] at hnodup
      exact hnodup.2.2 j (by simp) j hj rfl
    have hji : j ≠ i := fun heq => hj (heq ▸ List.mem_cons_self)
    have hjpost : j ∉ post := fun hmem => hj (List.mem_cons_of_mem _ hmem)
    refine ⟨h.relink hpost.2 hjpost, hpost.2.update hjpost _, ?_, items_set_of_ne _ hji.symm,
      fun js => entries_relink r j _⟩
    intro k
    rcases eq_or_ne k j with rfl | hne
    · rw [Function.update_self]
      refine iff_of_false ?_ (h.not_self (by simp))
      cases post with
      | nil => rw [hpost.2]; exact nofun
      | cons l post =>
          rw [hpost.2.1]
          intro heq
          exact hjpost (Option.some.inj heq ▸ List.mem_cons_self)
    · rw [Function.update_of_ne hne]

theorem addTime_spec {pre post : List (Fin n)} (hpost : Chain r.next (r.next i) post)
    (hnodup : (pre ++ i :: post).Nodup)
    (ht : DeltaQueue.total (r.entries (pre ++ i :: post)) ≤ reqTimeout) :
    (addTime r i (r.next i)).next = r.next ∧ (addTime r i (r.next i)).queue = r.queue ∧
      ((addTime r i (r.next i)).items i) = r.items i ∧
      (addTime r i (r.next i)).entries (pre ++ post) =
        r.entries pre ++ DeltaQueue.carry (r.items i).timeoutDiff (r.entries post) := by
  cases post with
  | nil =>
      rw [hpost, List.append_nil]
      exact ⟨rfl, rfl, rfl, (List.append_nil _).symm⟩
  | cons j post =>
      rw [hpost.1, addTime]
      rw [List.nodup_append, List.nodup_cons, List.nodup_cons] at hnodup
      obtain ⟨-, ⟨hij, hj, -⟩, hpre⟩ := hnodup
      have hji : i ≠ j := fun heq => hij (heq ▸ List.mem_cons_self)
      have hjpre : j ∉ pre := fun hmem => hpre j hmem j (by simp) rfl
      refine ⟨?_, rfl, items_set_of_ne _ hji, ?_⟩
      · rw [next_set]
        exact Function.update_eq_self j r.next
      · have hsum : ((r.items j).timeoutDiff + (r.items i).timeoutDiff) % 2 ^ 16 =
            (r.items j).timeoutDiff + (r.items i).timeoutDiff := by
          have hlimit : reqTimeout = 30 := rfl
          rw [entries_append, DeltaQueue.total_append] at ht
          change _ + ((r.items i).timeoutDiff + ((r.items j).timeoutDiff + _)) ≤ _ at ht
          omega
        rw [entries_append, entries_set _ hjpre]
        change _ ++ (((r.set j _).items j).toRequest, ((r.set j _).items j).timeoutDiff) ::
          (r.set j _).entries post = _
        rw [items_set_self, entries_set _ hj, hsum]
        rfl

/-- A request that is taken out leaves the times of the others as they were. -/
theorem mqttTakeRequest_spec (pktId : Nat) (h : Layout r held is)
    (ht : DeltaQueue.total (r.entries is) ≤ reqTimeout) :
    (mqttTakeRequest r pktId = some (none, r) ∧ ∀ i ∈ is, (r.items i).pktId ≠ pktId) ∨
      ∃ pre i post r', is = pre ++ i :: post ∧ (r.items i).pktId = pktId ∧
        mqttTakeRequest r pktId = some (some i, r') ∧ Layout r' (i :: held) (pre ++ post) ∧
        (r'.items i).toRequest = (r.items i).toRequest ∧
        r'.entries (pre ++ post) =
          r.entries pre ++ DeltaQueue.carry (r.items i).timeoutDiff (r.entries post) := by
  rw [mqttTakeRequest]
  rcases findPktId_spec none n pktId h.chain h.length_le with
    ⟨last, hfind, hnone⟩ | ⟨pre, i, post, rfl, hid, hfind⟩
  · rw [hfind]
    exact .inl ⟨rfl, hnone⟩
  rw [hfind, Option.or_none]
  have hnodup := h.chain.nodup
  obtain ⟨hchain, hpost, hself, hitem, hentries⟩ := unchain_spec h.chain
  have hnext : (unchain r i pre.getLast?).next i = r.next i := congrArg Item.next hitem
  dsimp only
  rw [← hnext] at hpost
  rw [← hentries] at ht
  obtain ⟨hnext₂, hqueue₂, hitem₂, hentries₂⟩ := addTime_spec hpost hnodup ht
  rw [hentries, hentries, hitem] at hentries₂
  rw [hitem] at hitem₂
  generalize unchain r i pre.getLast? = r₁ at *
  generalize addTime r₁ i (r₁.next i) = r₂ at *
  have hout : i ∉ pre ++ post := (List.nodup_cons.mp (List.nodup_middle.mp hnodup)).1
  refine .inr ⟨pre, i, post, _, rfl, hid, rfl, ⟨?_, ?_, ?_⟩, ?_, ?_⟩
  · rw [next_set, hnext₂]
    change Chain _ r₂.queue _
    rw [hqueue₂]
    exact hchain.update hout none
  · intro k
    rw [next_set, hnext₂, List.mem_cons]
    rcases eq_or_ne k i with rfl | hne
    · rw [Function.update_self]
      exact iff_of_false nofun (fun hk => hk.2 (.inl rfl))
    · rw [Function.update_of_ne hne, hself, h.free, List.mem_append, List.mem_append,
        List.mem_cons]
      tauto
  · intro k hk hmem
    rcases List.mem_cons.mp hk with rfl | hk
    · exact hout hmem
    · refine h.apart k hk ?_
      rw [List.mem_append, List.mem_cons]
      rcases List.mem_append.mp hmem with hmem | hmem
      · exact .inl hmem
      · exact .inr (.inr hmem)
  · rw [items_set_self, hitem₂]
  · rw [entries_set _ hout, hentries₂]

theorem deleteAll_spec {p : Option (Fin n)} (fuel : Nat) (h : Chain r.next p is)
    (hfuel : is.length ≤ fuel) :
    ∃ r', deleteAll r fuel p = some (is, r') ∧ (∀ k ∈ is, r'.next k = some k) ∧
      ∀ k ∉ is, r'.next k = r.next k := by
  induction is generalizing r p fuel with
  | nil =>
      obtain rfl := h
      rw [deleteAll]
      exact ⟨r, rfl, by simp, fun _ _ => rfl⟩
  | cons i is ih =>
      have hout := (List.nodup_cons.mp h.nodup).1
      obtain ⟨rfl, h⟩ := h
      rw [List.length_cons] at hfuel
      obtain ⟨fuel, rfl⟩ : ∃ f, fuel = f + 1 := ⟨fuel - 1, by omega⟩
      have hdeleted : (mqttDeleteRequest r i).next = Function.update r.next i (some i) :=
        next_set _
      have hchain : Chain (mqttDeleteRequest r i).next (r.next i) is := by
        rw [hdeleted]
        exact h.update hout _
      obtain ⟨r', hall, hin, hother⟩ := ih fuel hchain (by omega)
      rw [deleteAll, hall]
      refine ⟨r', rfl, ?_, ?_⟩
      · intro k hk
        rcases List.mem_cons.mp hk with rfl | hk
        · rw [hother k hout, hdeleted, Function.update_self]
        · exact hin k hk
      · intro k hk
        rw [List.mem_cons, not_or] at hk
        rw [hother k hk.2, hdeleted, Function.update_of_ne hk.1]

theorem mqttClearRequests_spec (h : Layout r held is) :
    ∃ r', mqttClearRequests r = some (is, r') ∧ Layout r' held [] := by
  obtain ⟨r', hall, hin, hother⟩ := deleteAll_spec n h.chain h.length_le
  rw [mqttClearRequests, hall]
  refine ⟨_, rfl, ⟨rfl, ?_, fun _ _ => List.not_mem_nil⟩⟩
  intro k
  change r'.next k = some k ↔ _
  by_cases hk : k ∈ is
  · exact iff_of_true (hin k hk) ⟨List.not_mem_nil, fun hheld => h.apart k hheld hk⟩
  · rw [hother k hk, h.free]
    exact and_congr_left' (iff_of_true hk List.not_mem_nil)

end

/-! ## Requests and their ends -/

/-- The request with a number was made in time for the moment it is due. A request that is made
during a tick may have up to an interval less. -/
def Fair (made : List Made) (q : Request) (due : Nat) : Prop :=
  ∃ m, made[q.arg]? = some m ∧ m.cb = q.cb ∧
    cyclicTimerInterval * m.tick + reqTimeout ≤ due + cyclicTimerInterval ∧
    due ≤ cyclicTimerInterval * m.tick + reqTimeout

/-- The end of a request that was made, not too early and not too late. -/
def FairEnd (made : List Made) (e : Ended) : Prop :=
  ∃ m, made[e.arg]? = some m ∧ e.called = m.cb ∧
    (e.result = .timeout → m.tick + 5 ≤ e.tick ∧ e.tick ≤ m.tick + 7)

def args {n : Nat} (s : System n) (is : List (Fin n)) : List Nat :=
  is.map fun i => (s.items i).arg

/-- What holds between two calls of the queue's functions, at a moment `now` of the timer: `held`
are the items out of the list, `hand` the requests that are not yet accounted for. -/
structure Kept {n : Nat} (s : System n) (held is : List (Fin n)) (now : Nat) (hand : List Nat) :
    Prop where
  layout : Layout s.toRequests held is
  total : DeltaQueue.total (s.entries is) ≤ reqTimeout
  past : now ≤ cyclicTimerInterval * s.ticks
  recent : cyclicTimerInterval * s.ticks ≤ now + cyclicTimerInterval
  pending : ∀ e ∈ DeltaQueue.due now (s.entries is), Fair s.made e.1 e.2
  ended : ∀ e ∈ s.ended, FairEnd s.made e
  numbers : (args s is ++ hand ++ s.ended.map Ended.arg ++ s.dropped).Perm
    (List.range s.made.length)
  closed : s.connected = false → is = []

/-- The requests that are due by the end of the running tick. -/
def late {n : Nat} (s : System n) (is : List (Fin n)) (now : Nat) : Nat :=
  (DeltaQueue.due now (s.entries is)).countP fun e => e.2 ≤ cyclicTimerInterval * s.ticks

section

variable {n : Nat} {s : System n} {held is : List (Fin n)} {now : Nat} {hand : List Nat}

theorem getElem?_snoc {made : List Made} {a : Nat} {m : Made} (h : made[a]? = some m)
    (x : Made) : (made ++ [x])[a]? = some m := by
  obtain ⟨hlt, -⟩ := List.getElem?_eq_some_iff.mp h
  rw [List.getElem?_append_left hlt, h]

theorem Fair.snoc {made : List Made} {q : Request} {due : Nat} (h : Fair made q due)
    (x : Made) : Fair (made ++ [x]) q due := by
  obtain ⟨m, hm, hrest⟩ := h
  exact ⟨m, getElem?_snoc hm x, hrest⟩

theorem FairEnd.snoc {made : List Made} {e : Ended} (h : FairEnd made e) (x : Made) :
    FairEnd (made ++ [x]) e := by
  obtain ⟨m, hm, hrest⟩ := h
  exact ⟨m, getElem?_snoc hm x, hrest⟩

theorem args_eq (s : System n) (is : List (Fin n)) :
    args s is = (s.entries is).map fun e => e.1.arg := by
  rw [args, Requests.entries, List.map_map]
  rfl

theorem Kept.relay (h : Kept s held is now hand) {r : Requests n} {held' : List (Fin n)}
    (hlayout : Layout r held' is) (hentries : r.entries is = s.entries is) :
    Kept { s with toRequests := r } held' is now hand ∧
      late { s with toRequests := r } is now = late s is now := by
  have hargs : args { s with toRequests := r } is = args s is := by
    rw [args_eq, args_eq]
    exact congrArg _ hentries
  refine ⟨⟨hlayout, ?_, h.past, h.recent, ?_, h.ended, ?_, h.closed⟩, ?_⟩
  · change DeltaQueue.total (r.entries is) ≤ _
    rw [hentries]
    exact h.total
  · change ∀ e ∈ DeltaQueue.due now (r.entries is), _
    rw [hentries]
    exact h.pending
  · rw [hargs]
    exact h.numbers
  · change (DeltaQueue.due now (r.entries is)).countP _ = _
    rw [hentries]
    rfl

theorem numbers_snoc {as bs cs ds : List Nat} {k : Nat}
    (h : (as ++ bs ++ cs ++ ds).Perm (List.range k)) :
    (as ++ [k] ++ bs ++ cs ++ ds).Perm (List.range (k + 1)) := by
  rw [List.perm_iff_count] at h ⊢
  intro x
  have hx := h x
  rw [List.range_succ]
  simp only [List.count_append] at hx ⊢
  omega

theorem request_kept (h : Kept s held is now hand) (pktId : Nat) (cb room : Bool) :
    ∃ s' is', request s pktId cb room = some s' ∧ Kept s' held is' now hand ∧
      s'.ticks = s.ticks ∧ is'.length ≤ is.length + 1 ∧ late s' is' now ≤ late s is now := by
  have hsame : ∃ s' is', some s = some s' ∧ Kept s' held is' now hand ∧ s'.ticks = s.ticks ∧
      is'.length ≤ is.length + 1 ∧ late s' is' now ≤ late s is now :=
    ⟨s, is, rfl, h, rfl, by omega, Nat.le_refl _⟩
  rw [request]
  by_cases hconnected : s.connected = false
  · rw [if_pos hconnected]
    exact hsame
  rw [if_neg hconnected]
  rcases mqttCreateRequest_spec h.layout ⟨cb, s.made.length, pktId⟩ with
    ⟨hnone, -⟩ | ⟨i, r, hcreate, hin, hheld, hlayout, hnext, hitem, hentries⟩
  · rw [hnone]
    exact hsame
  rw [hcreate]
  dsimp only
  split_ifs with hroom
  · have hlimit := h.total
    rw [← hentries] at hlimit
    obtain ⟨r', happend, hlayout', hentries'⟩ := mqttAppendRequest_spec hlayout hheld hnext hlimit
    rw [hitem, hentries] at hentries'
    rw [happend]
    have hargs : (r'.entries (is ++ [i])).map (fun e => e.1.arg) =
        args s is ++ [s.made.length] := by
      rw [hentries', List.map_append, List.map_singleton, args_eq]
    have hdue : DeltaQueue.due now (r'.entries (is ++ [i])) =
        DeltaQueue.due now (s.entries is) ++
          [(⟨cb, s.made.length, pktId⟩, now + reqTimeout)] := by
      rw [hentries', DeltaQueue.due_push h.total]
    have hinterval : cyclicTimerInterval = 5 := rfl
    have hperiod : reqTimeout = 30 := rfl
    have hpast := h.past
    have hrecent := h.recent
    refine ⟨_, is ++ [i], rfl, ⟨hlayout', ?_, h.past, h.recent, ?_, ?_, ?_, ?_⟩, rfl, ?_, ?_⟩
    · change DeltaQueue.total (r'.entries (is ++ [i])) ≤ _
      rw [hentries', DeltaQueue.total_push h.total]
    · change ∀ e ∈ DeltaQueue.due now (r'.entries (is ++ [i])), _
      rw [hdue]
      intro e he
      rcases List.mem_append.mp he with he | he
      · exact (h.pending e he).snoc _
      · obtain rfl := List.mem_singleton.mp he
        exact ⟨⟨cb, s.ticks⟩, List.getElem?_concat_length, rfl, by dsimp only; omega,
          by dsimp only; omega⟩
    · exact fun e he => (h.ended e he).snoc _
    · rw [args_eq]
      change ((r'.entries (is ++ [i])).map _ ++ hand ++ s.ended.map Ended.arg ++ s.dropped).Perm
        (List.range (s.made ++ [_]).length)
      rw [hargs, List.length_append, List.length_singleton]
      exact numbers_snoc h.numbers
    · intro hclosed
      exact absurd hclosed hconnected
    · rw [List.length_append]
      exact Nat.le_refl _
    · rw [late, late]
      change (DeltaQueue.due now (r'.entries (is ++ [i]))).countP _ ≤ _
      rw [hdue, List.countP_append, List.countP_singleton, if_neg]
      · exact Nat.le_refl _
      · rw [decide_eq_true_eq]
        change ¬ now + reqTimeout ≤ cyclicTimerInterval * s.ticks
        omega
  · obtain ⟨hlayout', hentries'⟩ := mqttDeleteRequest_spec hlayout hheld
    rw [hentries] at hentries'
    obtain ⟨hkept, hlate⟩ := h.relay hlayout' hentries'
    exact ⟨_, is, rfl, hkept, rfl, by omega, Nat.le_of_eq hlate⟩

theorem mqttClose_kept (h : Kept s held is now hand) :
    ∃ s', mqttClose s = some s' ∧ Kept s' held [] now hand ∧ s'.ticks = s.ticks ∧
      s'.connected = false ∧ late s' [] now = 0 := by
  obtain ⟨r, hclear, hlayout⟩ := mqttClearRequests_spec h.layout
  rw [mqttClose, hclear]
  refine ⟨_, rfl, ⟨hlayout, Nat.zero_le _, h.past, h.recent, ?_, h.ended, ?_, fun _ => rfl⟩, rfl,
    rfl, rfl⟩
  · exact fun e he => absurd he List.not_mem_nil
  · refine .trans ?_ h.numbers
    rw [List.perm_iff_count]
    intro x
    change (_ ++ _ ++ _ ++ (s.dropped ++ args s is)).count x = _
    simp only [args, List.map_nil, List.count_append, List.count_nil]
    omega

theorem Settled.of_none {acts : List Action} (h : ∀ act ∈ acts, act.isRequest = false) :
    Settled acts := by
  induction acts with
  | nil => trivial
  | cons act acts ih =>
      rw [List.forall_mem_cons] at h
      cases act with
      | request pktId cb room => exact ih h.2
      | disconnect => exact ih h.2
      | connect opened => exact h.2

theorem mqttClientConnect_kept (h : Kept s held is now hand) (opened : Bool) :
    s.connected = true ∧ mqttClientConnect s opened = s ∨
      Kept (mqttClientConnect s opened) [] [] now hand ∧
        (mqttClientConnect s opened).ticks = s.ticks := by
  rw [mqttClientConnect]
  split_ifs with hconnected
  · exact .inl ⟨hconnected, rfl⟩
  · obtain rfl := h.closed (by simpa using hconnected)
    refine .inr ⟨⟨layout_init n, Nat.zero_le _, h.past, h.recent, ?_, h.ended, h.numbers,
      fun _ => rfl⟩, rfl⟩
    exact fun e he => absurd he List.not_mem_nil

theorem late_nil (s : System n) (now : Nat) : late s [] now = 0 := rfl

theorem restarted_kept (acts : List Action) (hnone : ∀ act ∈ acts, act.isRequest = false)
    (h : Kept s [] [] now hand) :
    ∃ s', acts.foldlM Action.perform s = some s' ∧ Kept s' [] [] now hand ∧
      s'.ticks = s.ticks := by
  induction acts generalizing s with
  | nil => exact ⟨s, rfl, h, rfl⟩
  | cons act acts ih =>
      rw [List.forall_mem_cons] at hnone
      obtain ⟨s₁, hone, hkept, hticks⟩ : ∃ s₁, act.perform s = some s₁ ∧
          Kept s₁ [] [] now hand ∧ s₁.ticks = s.ticks := by
        cases act with
        | request pktId cb room => exact absurd hnone.1 nofun
        | disconnect =>
            obtain ⟨s₁, hclose, hkept, hticks, -⟩ := mqttClose_kept h
            exact ⟨s₁, hclose, hkept, hticks⟩
        | connect opened =>
            refine ⟨_, rfl, ?_⟩
            rcases mqttClientConnect_kept h opened with ⟨-, hsame⟩ | hnew
            · rw [hsame]
              exact ⟨h, rfl⟩
            · exact hnew
      obtain ⟨s', hall, hkept', hticks'⟩ := ih hnone.2 hkept
      refine ⟨s', ?_, hkept', hticks'.trans hticks⟩
      rw [List.foldlM_cons, hone]
      exact hall

/-- Whatever a callback does: it adds what it asks for, and nothing that is due soon. The items
that were out of the list still are, or a new connection made them free. -/
theorem actions_kept (acts : List Action) (hsettled : Settled acts) (h : Kept s held is now hand) :
    ∃ s' held' is', acts.foldlM Action.perform s = some s' ∧ Kept s' held' is' now hand ∧
      (held' = held ∨ held' = [] ∧ is' = []) ∧ s'.ticks = s.ticks ∧
      is'.length ≤ is.length + acts.length ∧ late s' is' now ≤ late s is now := by
  induction acts generalizing s is with
  | nil => exact ⟨s, held, is, rfl, h, .inl rfl, rfl, Nat.le_refl _, Nat.le_refl _⟩
  | cons act acts ih =>
      have hgo : ∀ {s₁ is₁}, act.perform s = some s₁ → Settled acts → Kept s₁ held is₁ now hand →
          s₁.ticks = s.ticks → is₁.length ≤ is.length + 1 → late s₁ is₁ now ≤ late s is now →
          ∃ s' held' is', (act :: acts).foldlM Action.perform s = some s' ∧
            Kept s' held' is' now hand ∧ (held' = held ∨ held' = [] ∧ is' = []) ∧
            s'.ticks = s.ticks ∧ is'.length ≤ is.length + (act :: acts).length ∧
            late s' is' now ≤ late s is now := by
        intro s₁ is₁ hone hrest hkept hticks hlength hlate
        obtain ⟨s', held', is', hall, hkept', hheld, hticks', hlength', hlate'⟩ := ih hrest hkept
        refine ⟨s', held', is', ?_, hkept', hheld, hticks'.trans hticks, ?_, hlate'.trans hlate⟩
        · rw [List.foldlM_cons, hone]
          exact hall
        · rw [List.length_cons]
          omega
      cases act with
      | request pktId cb room =>
          obtain ⟨s₁, is₁, hone, hkept, hticks, hlength, hlate⟩ := request_kept h pktId cb room
          exact hgo hone hsettled hkept hticks hlength hlate
      | disconnect =>
          obtain ⟨s₁, hclose, hkept, hticks, -, hlate⟩ := mqttClose_kept h
          exact hgo hclose hsettled hkept hticks (Nat.zero_le _) (by omega)
      | connect opened =>
          rcases mqttClientConnect_kept h opened with ⟨-, hsame⟩ | ⟨hkept, hticks⟩
          · exact hgo (congrArg some hsame) (.of_none hsettled) h rfl (Nat.le_succ _)
              (Nat.le_refl _)
          · obtain ⟨s', hall, hkept', hticks'⟩ := restarted_kept acts hsettled hkept
            refine ⟨s', [], [], ?_, hkept', .inr ⟨rfl, rfl⟩, hticks'.trans hticks,
              Nat.zero_le _, ?_⟩
            · rw [List.foldlM_cons]
              exact hall
            · rw [late_nil]
              exact Nat.zero_le _

/-- The end of a request: it is accounted for, and its item becomes free. -/
theorem finish_kept {i : Fin n} (h : Kept s [i] is now ((s.items i).arg :: hand))
    (result : Result) (script : List (List Action)) (hsettled : ∀ acts ∈ script, Settled acts)
    (hend : FairEnd s.made ⟨(s.items i).arg, (s.items i).cb, result, s.ticks⟩) :
    ∃ s' is' script', finish s i result script = some (s', script') ∧
      (∀ acts ∈ script', Settled acts) ∧ Kept s' [] is' now hand ∧ s'.ticks = s.ticks ∧
      is'.length + script'.flatten.length ≤ is.length + script.flatten.length ∧
      late s' is' now ≤ late s is now := by
  have hended : Kept { s with
      ended := s.ended ++ [⟨(s.items i).arg, (s.items i).cb, result, s.ticks⟩] }
      [i] is now hand := by
    refine ⟨h.layout, h.total, h.past, h.recent, h.pending, ?_, ?_, h.closed⟩
    · intro e he
      rcases List.mem_append.mp he with he | he
      · exact h.ended e he
      · obtain rfl := List.mem_singleton.mp he
        exact hend
    · refine .trans ?_ h.numbers
      rw [List.perm_iff_count]
      intro x
      simp only [args, List.map_append, List.map_singleton, List.count_append, List.count_cons,
        List.count_nil]
      omega
  have hcalled : ∃ s₁ held₁ is₁ script₁, callback s i result script = some (s₁, script₁) ∧
      (∀ acts ∈ script₁, Settled acts) ∧ Kept s₁ held₁ is₁ now hand ∧
      (held₁ = [i] ∨ held₁ = [] ∧ is₁ = []) ∧ s₁.ticks = s.ticks ∧
      is₁.length + script₁.flatten.length ≤ is.length + script.flatten.length ∧
      late s₁ is₁ now ≤ late s is now := by
    rw [callback]
    split_ifs with hcb
    · cases script with
      | nil => exact ⟨_, [i], is, [], rfl, hsettled, hended, .inl rfl, rfl, Nat.le_refl _,
          Nat.le_refl _⟩
      | cons acts script =>
          rw [List.forall_mem_cons] at hsettled
          obtain ⟨s₁, held₁, is₁, hall, hkept, hheld, hticks, hlength, hlate⟩ :=
            actions_kept acts hsettled.1 hended
          rw [List.headD_cons, hall]
          refine ⟨s₁, held₁, is₁, script, rfl, hsettled.2, hkept, hheld, hticks, ?_, hlate⟩
          rw [List.flatten_cons, List.length_append]
          omega
    · exact ⟨_, [i], is, script, rfl, hsettled, hended, .inl rfl, rfl, Nat.le_refl _,
        Nat.le_refl _⟩
  obtain ⟨s₁, held₁, is₁, script₁, hcall, hrest, hkept, hheld, hticks, hlength, hlate⟩ := hcalled
  rw [finish, hcall]
  obtain ⟨hlayout, hentries⟩ : Layout (mqttDeleteRequest s₁.toRequests i) [] is₁ ∧
      (mqttDeleteRequest s₁.toRequests i).entries is₁ = s₁.entries is₁ := by
    rcases hheld with rfl | ⟨rfl, rfl⟩
    · exact mqttDeleteRequest_spec hkept.layout List.not_mem_nil
    · rw [mqttDeleteRequest_free hkept.layout List.not_mem_nil List.not_mem_nil]
      exact ⟨hkept.layout, rfl⟩
  obtain ⟨hkept', hlate'⟩ := hkept.relay hlayout hentries
  exact ⟨_, is₁, script₁, rfl, hrest, hkept', hticks, hlength, hlate' ▸ hlate⟩

theorem take_kept (h : Kept s held is now []) (pktId : Nat) :
    mqttTakeRequest s.toRequests pktId = some (none, s.toRequests) ∨
      ∃ i is' r due, mqttTakeRequest s.toRequests pktId = some (some i, r) ∧
        is'.length + 1 = is.length ∧
        Kept { s with toRequests := r } (i :: held) is' now [(r.items i).arg] ∧
        Fair s.made (r.items i).toRequest due := by
  rcases mqttTakeRequest_spec pktId h.layout h.total with
    ⟨htake, -⟩ | ⟨pre, i, post, r, rfl, -, htake, hlayout, hitem, hentries⟩
  · exact .inl htake
  have hsplit : s.entries (pre ++ i :: post) =
      s.entries pre ++ ((s.items i).toRequest, (s.items i).timeoutDiff) :: s.entries post :=
    entries_append _
  obtain ⟨due₁, due₂, due, hdue, hdue'⟩ := DeltaQueue.due_unlink now (s.entries pre)
    (s.entries post) (s.items i).toRequest (s.items i).timeoutDiff
  have hpending := h.pending
  have htotal := h.total
  rw [hsplit, DeltaQueue.total_append, DeltaQueue.total] at htotal
  rw [hsplit, hdue] at hpending
  have hcarry := @DeltaQueue.total_carry_le Request (s.items i).timeoutDiff (s.entries post)
  have hargs : args { s with toRequests := r } (pre ++ post) = args s pre ++ args s post := by
    rw [args_eq, args_eq, args_eq]
    change List.map (fun e => e.1.arg) (r.entries (pre ++ post)) = _
    have hfst := congrArg (List.map fun q => Request.arg q)
      (@DeltaQueue.map_fst_carry Request (s.items i).timeoutDiff (s.entries post))
    rw [List.map_map, List.map_map] at hfst
    rw [hentries, List.map_append]
    exact congrArg _ hfst
  refine .inr ⟨i, pre ++ post, r, due, htake, ?_,
    ⟨hlayout, ?_, h.past, h.recent, ?_, h.ended, ?_, ?_⟩, ?_⟩
  · simp only [List.length_append, List.length_cons]
    omega
  · change DeltaQueue.total (r.entries (pre ++ post)) ≤ _
    rw [hentries, DeltaQueue.total_append]
    omega
  · change ∀ e ∈ DeltaQueue.due now (r.entries (pre ++ post)), _
    rw [hentries, hdue']
    intro e he
    apply hpending e
    rcases List.mem_append.mp he with he | he
    · exact List.mem_append_left _ he
    · exact List.mem_append_right _ (List.mem_cons_of_mem _ he)
  · refine .trans ?_ h.numbers
    rw [hargs, hitem, List.perm_iff_count]
    intro x
    simp only [args, List.map_append, List.map_cons, List.count_append, List.count_cons,
      List.count_nil]
    omega
  · intro hclosed
    exact absurd (h.closed hclosed) (by simp)
  · rw [hitem]
    exact hpending _ (List.mem_append_right _ List.mem_cons_self)

/-- Between two events, with nothing out of the list while connected. -/
def Rest {n : Nat} (s : System n) (is : List (Fin n)) : Prop :=
  ∃ held, Kept s held is (cyclicTimerInterval * s.ticks) [] ∧ (s.connected = true → held = [])

theorem Kept.rest (h : Kept s [] is now []) (hnow : now = cyclicTimerInterval * s.ticks) :
    Rest s is := by
  subst hnow
  exact ⟨[], h, fun _ => rfl⟩

theorem Fair.end {made : List Made} {q : Request} {due : Nat} (h : Fair made q due)
    {result : Result} (hresult : result ≠ .timeout) (tick : Nat) :
    FairEnd made ⟨q.arg, q.cb, result, tick⟩ := by
  obtain ⟨m, hm, hcb, -⟩ := h
  exact ⟨m, hm, hcb.symm, fun heq => absurd heq hresult⟩

theorem takeFinish_kept (h : Kept s [] is now []) (pktId : Nat) (result : Result)
    (hresult : result ≠ .timeout) (script : List (List Action))
    (hsettled : ∀ acts ∈ script, Settled acts) :
    mqttTakeRequest s.toRequests pktId = some (none, s.toRequests) ∨
      ∃ i r s' is' script', mqttTakeRequest s.toRequests pktId = some (some i, r) ∧
        finish { s with toRequests := r } i result script = some (s', script') ∧
        (∀ acts ∈ script', Settled acts) ∧ Kept s' [] is' now [] ∧ s'.ticks = s.ticks ∧
        is'.length + script'.flatten.length < is.length + script.flatten.length := by
  rcases take_kept h pktId with htake | ⟨i, is₁, r, due, htake, hlength, hkept, hfair⟩
  · exact .inl htake
  · obtain ⟨s', is', script', hfinish, hrest, hkept', hticks, hlength', -⟩ :=
      finish_kept hkept result script hsettled (hfair.end hresult s.ticks)
    exact .inr ⟨i, r, s', is', script', htake, hfinish, hrest, hkept', hticks, by omega⟩

theorem response_rest (h : Kept s [] is now []) (hnow : now = cyclicTimerInterval * s.ticks)
    (pktId : Nat) {result : Result} (hresult : result ≠ .timeout)
    (script : List (List Action)) (hsettled : ∀ acts ∈ script, Settled acts) :
    ∃ s' is', response s pktId result script = some s' ∧ Rest s' is' := by
  rw [response]
  rcases takeFinish_kept h pktId result hresult script hsettled with
    htake | ⟨i, r, s', is', script', htake, hfinish, -, hkept, hticks, -⟩
  · rw [htake]
    exact ⟨s, is, rfl, h.rest hnow⟩
  · rw [htake]
    dsimp only
    rw [hfinish]
    exact ⟨s', is', rfl, hkept.rest (by rw [hnow, hticks])⟩

theorem shortSuback_rest (h : Kept s [] is now []) (hnow : now = cyclicTimerInterval * s.ticks)
    (pktId : Nat) : ∃ s' is', shortSuback s pktId = some s' ∧ Rest s' is' := by
  rw [shortSuback]
  rcases take_kept h pktId with htake | ⟨i, is₁, r, due, htake, hlength, hkept, hfair⟩
  · rw [htake]
    exact ⟨s, is, rfl, h.rest hnow⟩
  · rw [htake]
    have hdropped : Kept { s with
        toRequests := r, dropped := s.dropped ++ [(r.items i).arg] } [i] is₁ now [] := by
      refine ⟨hkept.layout, hkept.total, hkept.past, hkept.recent, hkept.pending, hkept.ended, ?_,
        hkept.closed⟩
      refine .trans ?_ hkept.numbers
      rw [List.perm_iff_count]
      intro x
      simp only [args, List.count_append, List.count_nil]
      omega
    obtain ⟨s', hclose, hkept', hticks, hclosed, -⟩ := mqttClose_kept hdropped
    subst hnow
    refine ⟨s', [], hclose, [i], ?_, ?_⟩
    · rw [hticks]
      exact hkept'
    · intro hconnected
      rw [hclosed] at hconnected
      exact absurd hconnected nofun

/-- The loop comes to an end: every turn ends a request or uses up what callbacks ask for. -/
theorem sentLoop_rest {fuel : Nat} (script : List (List Action))
    (hsettled : ∀ acts ∈ script, Settled acts) (h : Kept s [] is now [])
    (hnow : now = cyclicTimerInterval * s.ticks)
    (hfuel : is.length + script.flatten.length < fuel) :
    ∃ s' is', sentLoop fuel s script = some s' ∧ Rest s' is' := by
  induction fuel generalizing s is script with
  | zero => exact absurd hfuel (Nat.not_lt_zero _)
  | succ fuel ih =>
      rw [sentLoop]
      rcases takeFinish_kept h 0 .ok nofun script hsettled with
        htake | ⟨i, r, s', is', script', htake, hfinish, hrest, hkept, hticks, hless⟩
      · rw [htake]
        exact ⟨s, is, rfl, h.rest hnow⟩
      · rw [htake]
        dsimp only
        rw [hfinish]
        exact ih script' hrest hkept (by rw [hnow, hticks]) (by omega)

theorem expire_kept {i : Fin n} (h : Kept s [] (i :: is) now [])
    (hdue : now + (s.items i).timeoutDiff ≤ cyclicTimerInterval * s.ticks) :
    Kept { s with queue := s.next i } [i] is (now + (s.items i).timeoutDiff)
        [(s.items i).arg] ∧
      late { s with queue := s.next i } is (now + (s.items i).timeoutDiff) + 1 =
        late s (i :: is) now ∧
      FairEnd s.made ⟨(s.items i).arg, (s.items i).cb, .timeout, s.ticks⟩ := by
  have hsplit : DeltaQueue.due now (s.entries (i :: is)) =
      ((s.items i).toRequest, now + (s.items i).timeoutDiff) ::
        DeltaQueue.due (now + (s.items i).timeoutDiff) (s.entries is) := rfl
  have hnodup := h.layout.chain.nodup
  have hpending := h.pending
  have htotal := h.total
  have hrecent := h.recent
  rw [hsplit] at hpending
  change (s.items i).timeoutDiff + DeltaQueue.total (s.entries is) ≤ _ at htotal
  refine ⟨⟨⟨h.layout.chain.2, ?_, ?_⟩, ?_, hdue, ?_, ?_, h.ended, ?_, ?_⟩, ?_, ?_⟩
  · intro k
    have hfree := h.layout.free k
    rw [List.mem_cons] at hfree
    rw [List.mem_singleton]
    change s.next k = some k ↔ _
    rw [hfree]
    simp only [List.not_mem_nil, not_false_eq_true, and_true]
    tauto
  · intro k hk
    obtain rfl := List.mem_singleton.mp hk
    exact (List.nodup_cons.mp hnodup).1
  · change DeltaQueue.total (s.entries is) ≤ _
    omega
  · change cyclicTimerInterval * s.ticks ≤ _
    omega
  · exact fun e he => hpending e (List.mem_cons_of_mem _ he)
  · refine .trans ?_ h.numbers
    rw [List.perm_iff_count]
    intro x
    simp only [args, List.map_cons, List.count_append, List.count_cons, List.count_nil]
    omega
  · intro hclosed
    exact absurd (h.closed hclosed) (List.cons_ne_nil _ _)
  · rw [late, late, hsplit, List.countP_cons, if_pos (by simpa using hdue)]
    rfl
  · obtain ⟨m, hm, hcb, hearly, hlate⟩ := hpending _ List.mem_cons_self
    have hsoon : 5 * m.tick + 30 ≤ now + (s.items i).timeoutDiff + 5 := hearly
    have hlast : now + (s.items i).timeoutDiff ≤ 5 * m.tick + 30 := hlate
    have hend : now + (s.items i).timeoutDiff ≤ 5 * s.ticks := hdue
    have hbegin : 5 * s.ticks ≤ now + 5 := hrecent
    exact ⟨m, hm, hcb.symm, fun _ => ⟨by dsimp only; omega, by dsimp only; omega⟩⟩

theorem advance_kept {i : Fin n} {t : Nat} (h : Kept s [] (i :: is) now [])
    (ht : now + t = cyclicTimerInterval * s.ticks) (hlate : t < (s.items i).timeoutDiff) :
    Kept { s with toRequests := s.set i { s.items i with
      timeoutDiff := (s.items i).timeoutDiff - t } } [] (i :: is) (now + t) [] := by
  have hout := (List.nodup_cons.mp h.layout.chain.nodup).1
  have hnext : (s.set i { s.items i with timeoutDiff := (s.items i).timeoutDiff - t }).next =
      s.next := by
    rw [next_set]
    exact Function.update_eq_self i s.next
  have hentries : (s.set i { s.items i with
      timeoutDiff := (s.items i).timeoutDiff - t }).entries (i :: is) =
      ((s.items i).toRequest, (s.items i).timeoutDiff - t) :: s.entries is := by
    rw [Requests.entries, List.map_cons, items_set_self]
    exact congrArg _ (entries_set _ hout)
  have hdue : DeltaQueue.due (now + t) ((s.set i { s.items i with
      timeoutDiff := (s.items i).timeoutDiff - t }).entries (i :: is)) =
      DeltaQueue.due now (s.entries (i :: is)) := by
    rw [hentries, DeltaQueue.due,
      show now + t + ((s.items i).timeoutDiff - t) = now + (s.items i).timeoutDiff by omega]
    rfl
  have htotal := h.total
  change (s.items i).timeoutDiff + DeltaQueue.total (s.entries is) ≤ _ at htotal
  refine ⟨⟨?_, ?_, by simp⟩, ?_, Nat.le_of_eq ht, ?_, ?_, h.ended, ?_, h.closed⟩
  · rw [hnext]
    exact h.layout.chain
  · intro k
    rw [hnext]
    exact h.layout.free k
  · change DeltaQueue.total ((s.set i _).entries (i :: is)) ≤ _
    rw [hentries, DeltaQueue.total]
    omega
  · change cyclicTimerInterval * s.ticks ≤ _
    omega
  · change ∀ e ∈ DeltaQueue.due (now + t) ((s.set i _).entries (i :: is)), _
    rw [hdue]
    exact h.pending
  · have hargs : args { s with toRequests := s.set i { s.items i with
        timeoutDiff := (s.items i).timeoutDiff - t } } (i :: is) = args s (i :: is) := by
      rw [args_eq, args_eq]
      change List.map _ ((s.set i _).entries (i :: is)) = _
      rw [hentries]
      rfl
    rw [hargs]
    exact h.numbers

theorem timeElapsed_rest {fuel t : Nat} (script : List (List Action))
    (hsettled : ∀ acts ∈ script, Settled acts) (h : Kept s [] is now [])
    (ht : now + t = cyclicTimerInterval * s.ticks) (hfuel : late s is now + 1 < fuel) :
    ∃ s' is', mqttRequestTimeElapsed fuel t s script = some s' ∧ Rest s' is' := by
  induction fuel generalizing s is now t script with
  | zero => exact absurd hfuel (Nat.not_lt_zero _)
  | succ fuel ih =>
      have hrecent := h.recent
      have hinterval : cyclicTimerInterval = 5 := rfl
      rw [mqttRequestTimeElapsed]
      by_cases hpos : t > 0
      · rw [if_pos hpos]
        cases is with
        | nil =>
            rw [show s.queue = none from h.layout.chain]
            refine ⟨s, [], rfl, [], ⟨h.layout, h.total, Nat.le_refl _, Nat.le_add_right _ _, ?_,
              h.ended, h.numbers, h.closed⟩, fun _ => rfl⟩
            exact fun e he => absurd he List.not_mem_nil
        | cons i is =>
            rw [show s.queue = some i from h.layout.chain.1]
            dsimp only
            by_cases hdue : t ≥ (s.items i).timeoutDiff
            · have hminus : (t + 2 ^ 8 - (s.items i).timeoutDiff % 2 ^ 8) % 2 ^ 8 =
                  t - (s.items i).timeoutDiff := by
                omega
              rw [if_pos hdue, hminus]
              obtain ⟨hkept, hcount, hend⟩ := expire_kept h (by omega)
              obtain ⟨s', is', script', hfinish, hrest, hkept', hticks, -, hlate⟩ :=
                finish_kept hkept .timeout script hsettled hend
              rw [hfinish]
              exact ih script' hrest hkept' (by rw [hticks]; dsimp only; omega) (by omega)
            · rw [if_neg hdue]
              have hkept := advance_kept h ht (Nat.lt_of_not_le hdue)
              obtain ⟨fuel, rfl⟩ : ∃ f, fuel = f + 1 := ⟨fuel - 1, by omega⟩
              rw [mqttRequestTimeElapsed, if_neg (Nat.lt_irrefl 0)]
              exact ⟨_, _, rfl, hkept.rest ht⟩
      · rw [if_neg hpos]
        exact ⟨s, is, rfl, h.rest (by omega)⟩

theorem step_rest (h : Rest s is) (ev : Event) (hsettled : ∀ acts ∈ ev.script, Settled acts) :
    ∃ s' is', s.step ev = some s' ∧ Rest s' is' := by
  obtain ⟨held, hkept, hheld⟩ := h
  have hlength := hkept.layout.length_le
  cases ev with
  | connect opened =>
      rw [System.step]
      rcases mqttClientConnect_kept hkept opened with ⟨-, hsame⟩ | ⟨hkept', hticks⟩
      · rw [hsame]
        exact ⟨s, is, rfl, held, hkept, hheld⟩
      · exact ⟨_, [], rfl, hkept'.rest (by rw [hticks])⟩
  | request pktId cb room =>
      by_cases hconnected : s.connected = true
      · obtain rfl := hheld hconnected
        obtain ⟨s', is', hrequest, hkept', hticks, -, -⟩ := request_kept hkept pktId cb room
        exact ⟨s', is', hrequest, hkept'.rest (by rw [hticks])⟩
      · rw [System.step, request, if_pos (by simpa using hconnected)]
        exact ⟨s, is, rfl, held, hkept, hheld⟩
  | response pktId accepted script =>
      rw [System.step]
      by_cases hconnected : s.connected = true
      · obtain rfl := hheld hconnected
        rw [if_pos hconnected]
        exact response_rest hkept rfl pktId (by cases accepted <;> exact nofun) script hsettled
      · rw [if_neg hconnected]
        exact ⟨s, is, rfl, held, hkept, hheld⟩
  | shortSuback pktId =>
      rw [System.step]
      split_ifs with hconnected
      · obtain rfl := hheld hconnected
        exact shortSuback_rest hkept rfl pktId
      · exact ⟨s, is, rfl, held, hkept, hheld⟩
  | sent script =>
      rw [System.step]
      split_ifs with hconnected
      · obtain rfl := hheld hconnected
        exact sentLoop_rest script hsettled hkept rfl (by rw [sentFuel]; omega)
      · exact ⟨s, is, rfl, held, hkept, hheld⟩
  | tick script =>
      rw [System.step]
      split_ifs with hconnected
      · obtain rfl := hheld hconnected
        have hinterval : cyclicTimerInterval = 5 := rfl
        have hnext : cyclicTimerInterval * s.ticks + cyclicTimerInterval =
            cyclicTimerInterval * (s.ticks + 1) := rfl
        have htick : Kept { s with ticks := s.ticks + 1 } [] is (cyclicTimerInterval * s.ticks)
            [] :=
          ⟨hkept.layout, hkept.total, hnext ▸ Nat.le_add_right _ _, Nat.le_of_eq hnext.symm,
            hkept.pending, hkept.ended, hkept.numbers, hkept.closed⟩
        refine timeElapsed_rest script hsettled htick hnext ?_
        have hcount : late { s with ticks := s.ticks + 1 } is (cyclicTimerInterval * s.ticks) ≤
            is.length := by
          refine Nat.le_trans List.countP_le_length ?_
          rw [DeltaQueue.length_due, Requests.entries, List.length_map]
        omega
      · exact ⟨s, is, rfl, held, hkept, hheld⟩
  | close =>
      obtain ⟨s', hclose, hkept', hticks, hclosed, -⟩ := mqttClose_kept hkept
      refine ⟨s', [], hclose, held, ?_, ?_⟩
      · rw [hticks]
        exact hkept'
      · intro hconnected
        rw [hclosed] at hconnected
        exact absurd hconnected nofun

theorem run_rest (n : Nat) (evs : List Event)
    (hsettled : ∀ ev ∈ evs, ∀ acts ∈ ev.script, Settled acts) :
    ∃ s is, run n evs = some s ∧ Rest s is := by
  induction evs using List.reverseRecOn with
  | nil =>
      refine ⟨init n, [], rfl, [], ⟨layout_init n, Nat.zero_le _, Nat.le_refl _, Nat.zero_le _,
        ?_, ?_, .refl _, fun _ => rfl⟩, fun _ => rfl⟩
      · exact fun e he => absurd he List.not_mem_nil
      · exact fun e he => absurd he List.not_mem_nil
  | append_singleton evs ev ih =>
      obtain ⟨s, is, hrun, hrest⟩ := ih fun ev hev => hsettled ev (List.mem_append_left _ hev)
      obtain ⟨s', is', hstep, hrest'⟩ := step_rest hrest ev (hsettled ev (by simp))
      refine ⟨s', is', ?_, hrest'⟩
      rw [run, List.foldlM_append, ← run, hrun]
      change (List.foldlM System.step s [ev]) = some s'
      rw [List.foldlM_cons, hstep]
      rfl

end

/-- The callback of the first request connects again, the second request is not answered. -/
def sampleEvents : List Event :=
  [.connect true, .request 1 true true, .response 1 true [[.disconnect, .connect true]],
    .request 2 true true] ++ List.replicate 7 (.tick [[.request 3 false true]])

/-- With a request behind the connection, the item of the request that ended is in the list and is
then made to point to itself. -/
example : (run reqMaxInFlight [.connect true, .request 1 true true,
    .response 1 true [[.disconnect, .connect true, .request 2 true true]], .sent []]).isNone := by
  decide

end ShGateway.MqttRequests
