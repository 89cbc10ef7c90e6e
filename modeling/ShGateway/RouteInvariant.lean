import ShGateway.Lib.Runs
import ShGateway.RouteTable

/-!
What holds of the routing table after any sequence of insertions, messages and
polls.
-/

namespace ShGateway.RouteInvariant

open ShGateway.CanDriver (CanMsg)
open ShGateway.FwHeader (literal)
open ShGateway.MqttPublish (Message)
open ShGateway.RouteTable

/-! ## Entries -/

/-- What each key and its value leave of an entry. -/
structure SlotOk (r : Route) : Prop where
  qos_le : r.qos.toNat ≤ 2
  pdoN_le : r.pdoN.toNat ≤ 3
  canId_le : r.canId.toNat ≤ 127
  topic_nul : 0 ∈ r.topic.toList

/-- What else the checks behind the loop ensure. -/
structure EntryOk (r : Route) : Prop extends SlotOk r where
  type_pos : 1 ≤ r.type.toNat
  type_lt : r.type.toNat < dataTypes.length
  data_le : ∀ l, typeLength r.type = some l → r.offset.toNat + l ≤ 8

/-- The fields of an entry that routing reads only. -/
structure SameRoute (r r' : Route) : Prop where
  type : r'.type = r.type
  topic : r'.topic = r.topic
  canId : r'.canId = r.canId
  pdoN : r'.pdoN = r.pdoN
  offset : r'.offset = r.offset
  qos : r'.qos = r.qos
  interval : r'.publishIntervalMs = r.publishIntervalMs

section

variable {r r' : Route} {m : Option Message}

theorem EntryOk.same (h : EntryOk r) (hsame : SameRoute r r') : EntryOk r' := by
  obtain ⟨htype, htopic, hcanId, hpdoN, hoffset, hqos, -⟩ := hsame
  refine ⟨⟨?_, ?_, ?_, ?_⟩, ?_, ?_, ?_⟩
  · rw [hqos]
    exact h.qos_le
  · rw [hpdoN]
    exact h.pdoN_le
  · rw [hcanId]
    exact h.canId_le
  · rw [htopic]
    exact h.topic_nul
  · rw [htype]
    exact h.type_pos
  · rw [htype]
    exact h.type_lt
  · rw [htype, hoffset]
    exact h.data_le

theorem EntryOk.typeLength (h : EntryOk r) : ∃ l, typeLength r.type = some l :=
  ⟨_, by rw [RouteTable.typeLength, List.getElem?_eq_getElem h.type_lt]; rfl⟩

theorem toNat_ofInt {n : Int} (h0 : 0 ≤ n) (hlt : n < 256) : (UInt8.ofInt n).toNat = n.toNat := by
  rw [UInt8.ofInt, UInt8.toNat_ofNat', Int.emod_eq_of_lt h0 (by omega)]
  omega

theorem nul_mem_overwrite {buf : Vector UInt8 40} {val : List UInt8} (hval : val.length < 40) :
    0 ∈ (overwrite buf (val ++ [0])).toList := by
  rw [Vector.mem_toList_iff, Vector.mem_iff_getElem]
  refine ⟨val.length, hval, ?_⟩
  simp [overwrite]

theorem slotOk_default : SlotOk {} where
  qos_le := by decide
  pdoN_le := by decide
  canId_le := by decide
  topic_nul := by simp

theorem refuseIf_eq {wrong : Bool} {err : Int} (herr : err ≠ 0)
    (h : refuseIf wrong err r = (0, r')) : wrong = false ∧ r = r' := by
  rw [refuseIf] at h
  split_ifs at h with hwrong
  · exact absurd (Prod.mk.inj h).1 herr
  · exact ⟨by simpa using hwrong, (Prod.mk.inj h).2⟩

theorem applyEntry_slotOk {key val : List UInt8} (h : SlotOk r)
    (happly : applyEntry key val r = (0, r')) : SlotOk r' := by
  obtain ⟨hqos, hpdoN, hcanId, htopic⟩ := h
  rw [applyEntry] at happly
  split_ifs at happly
  · obtain ⟨hrange, rfl⟩ := refuseIf_eq (by decide) happly
    simp only [decide_eq_false_iff_not] at hrange
    refine ⟨hqos, hpdoN, ?_, htopic⟩
    dsimp only
    rw [toNat_ofInt (by omega) (by omega)]
    omega
  · obtain ⟨-, rfl⟩ := refuseIf_eq (by decide) happly
    exact ⟨hqos, hpdoN, hcanId, htopic⟩
  · obtain ⟨hrange, rfl⟩ := refuseIf_eq (by decide) happly
    simp only [decide_eq_false_iff_not] at hrange
    refine ⟨hqos, ?_, hcanId, htopic⟩
    dsimp only
    rw [toNat_ofInt (by omega) (by omega)]
    omega
  · obtain rfl := (Prod.mk.inj happly).2
    exact ⟨hqos, hpdoN, hcanId, htopic⟩
  · obtain ⟨hrange, rfl⟩ := refuseIf_eq (by decide) happly
    simp only [decide_eq_false_iff_not] at hrange
    refine ⟨?_, hpdoN, hcanId, htopic⟩
    dsimp only
    rw [toNat_ofInt (by omega) (by omega)]
    omega
  · obtain rfl := (Prod.mk.inj happly).2
    exact ⟨hqos, hpdoN, hcanId, htopic⟩
  · obtain rfl := (Prod.mk.inj happly).2
    refine ⟨hqos, hpdoN, hcanId, nul_mem_overwrite ?_⟩
    rw [List.length_take]
    omega
  · rcases htype : coGtwaGetDataType val with _ | i
    · rw [htype] at happly
      exact absurd (Prod.mk.inj happly).1 (by decide)
    · rw [htype] at happly
      obtain rfl := (Prod.mk.inj happly).2
      exact ⟨hqos, hpdoN, hcanId, htopic⟩
  · obtain rfl := (Prod.mk.inj happly).2
    exact ⟨hqos, hpdoN, hcanId, htopic⟩
  · exact absurd (Prod.mk.inj happly).1 (by decide)

theorem parseEntries_slotOk {fuel : Nat} {ptr : List UInt8} (h : SlotOk r)
    (hparse : parseEntries fuel ptr r = (0, r')) : SlotOk r' := by
  induction fuel generalizing ptr r with
  | zero =>
      obtain rfl := (Prod.mk.inj hparse).2
      exact h
  | succ fuel ih =>
      rw [parseEntries] at hparse
      rcases hscan : scanEntry ptr with _ | ⟨key, val, offset⟩
      · rw [hscan] at hparse
        obtain rfl := (Prod.mk.inj hparse).2
        exact h
      · rw [hscan] at hparse
        dsimp only at hparse
        split at hparse
        · next e happly => exact ih (applyEntry_slotOk h happly) hparse
        · next err e hne happly => exact absurd (Prod.mk.inj hparse).1 (hne · )

theorem scanEntry_length {ptr key val : List UInt8} {offset : Nat}
    (h : scanEntry ptr = some (key, val, offset)) : (ptr.drop offset).length < ptr.length := by
  have hne : ptr ≠ [] := by
    rintro rfl
    have hnone : scanEntry [] = none := by decide
    exact absurd (hnone.symm.trans h) (by simp)
  have hoffset : 0 < offset := by
    rw [scanEntry] at h
    split at h
    · split at h
      · exact absurd h (by simp)
      · obtain ⟨-, -, rfl⟩ := by simpa using h
        omega
    · exact absurd h (by simp)
  have hpos := List.length_pos_iff.mpr hne
  rw [List.length_drop]
  omega

theorem parseEntries_fuel {n k : Nat} {ptr : List UInt8} (hn : ptr.length < n)
    (hk : ptr.length < k) : parseEntries n ptr r = parseEntries k ptr r := by
  induction n generalizing k ptr r with
  | zero => exact absurd hn (Nat.not_lt_zero _)
  | succ n ih =>
      obtain ⟨k, rfl⟩ := Nat.exists_eq_succ_of_ne_zero (Nat.ne_zero_of_lt hk)
      rw [parseEntries, parseEntries]
      rcases hscan : scanEntry ptr with _ | ⟨key, val, offset⟩
      · rfl
      · have hlt := scanEntry_length hscan
        dsimp only
        split
        · exact ih (by omega) (by omega)
        · rfl

/-! ## Routing leaves the table alone -/

theorem checkTrySend_same {sts : Int} (h : checkTrySend sts r = some (r', m)) :
    SameRoute r r' := by
  rcases hl : RouteTable.typeLength r.type with _ | l
  · rw [checkTrySend, hl, Option.map_none] at h
    split_ifs at h
    · obtain ⟨rfl, -⟩ := Prod.mk.inj (Option.some.inj h)
      exact ⟨rfl, rfl, rfl, rfl, rfl, rfl, rfl⟩
  · rw [checkTrySend_eq hl] at h
    split_ifs at h <;> obtain ⟨rfl, -⟩ := Prod.mk.inj (Option.some.inj h) <;>
      exact ⟨rfl, rfl, rfl, rfl, rfl, rfl, rfl⟩

theorem addPdo_same {msg : CanMsg} {rpdoN : UInt8} {sts : Int}
    (h : addPdo msg rpdoN sts r = some (r', m)) : SameRoute r r' := by
  rw [addPdo] at h
  split_ifs at h
  · obtain ⟨l, -, hl⟩ := Option.bind_eq_some_iff.mp h
    obtain ⟨bytes, -, hbytes⟩ := Option.bind_eq_some_iff.mp hl
    dsimp only at hbytes
    split_ifs at hbytes
    · obtain ⟨rfl, -⟩ := Prod.mk.inj (Option.some.inj hbytes)
      exact ⟨rfl, rfl, rfl, rfl, rfl, rfl, rfl⟩
    · have hsame := checkTrySend_same hbytes
      exact ⟨hsame.type, hsame.topic, hsame.canId, hsame.pdoN, hsame.offset, hsame.qos,
        hsame.interval⟩
  · obtain ⟨rfl, -⟩ := Prod.mk.inj (Option.some.inj h)
    exact ⟨rfl, rfl, rfl, rfl, rfl, rfl, rfl⟩

theorem poll_same {diffMs : UInt32} {sts : Int} (h : poll diffMs sts r = some (r', m)) :
    SameRoute r r' := by
  rw [poll] at h
  dsimp only at h
  split_ifs at h
  · have hsame := checkTrySend_same h
    exact ⟨hsame.type, hsame.topic, hsame.canId, hsame.pdoN, hsame.offset, hsame.qos,
      hsame.interval⟩
  · obtain ⟨rfl, -⟩ := Prod.mk.inj (Option.some.inj h)
    exact ⟨rfl, rfl, rfl, rfl, rfl, rfl, rfl⟩

theorem checkTrySend_isSome {l : Nat} (hl : RouteTable.typeLength r.type = some l) (sts : Int) :
    ∃ r' m, checkTrySend sts r = some (r', m) :=
  ⟨_, _, checkTrySend_eq hl sts⟩

theorem addPdo_isSome (h : EntryOk r) (msg : CanMsg) (rpdoN : UInt8) (sts : Int) :
    ∃ r' m, addPdo msg rpdoN sts r = some (r', m) := by
  obtain ⟨l, hl⟩ := h.typeLength
  rw [addPdo]
  split_ifs
  · rw [hl, Option.bind_some, readData, if_pos (h.data_le l hl), Option.bind_some]
    dsimp only
    split_ifs
    · exact ⟨_, _, rfl⟩
    · refine @checkTrySend_isSome _ l ?_ sts
      exact hl
  · exact ⟨_, _, rfl⟩

theorem poll_isSome (h : EntryOk r) (diffMs : UInt32) (sts : Int) :
    ∃ r' m, poll diffMs sts r = some (r', m) := by
  obtain ⟨l, hl⟩ := h.typeLength
  rw [poll]
  dsimp only
  split_ifs
  · refine @checkTrySend_isSome _ l ?_ sts
    exact hl
  · exact ⟨_, _, rfl⟩

end

/-! ## The table -/

structure TableOk (router : Router) : Prop where
  count_le : router.entriesCnt ≤ 127
  entry_ok : ∀ i < router.entriesCnt, ∀ r, router.routes[i]? = some r → EntryOk r
  topic_ne : ∀ i < router.entriesCnt, ∀ j < router.entriesCnt, i ≠ j →
    ∀ r r', router.routes[i]? = some r → router.routes[j]? = some r' →
      r.topicString ≠ r'.topicString

/-- A call of `router_add_entry` adds one entry or none, and leaves the others. -/
structure AtomicInsert (router : Router) (s : List UInt8) : Prop where
  refused : (routerAddEntry router s).1 ≠ 0 →
    (routerAddEntry router s).2.entriesCnt = router.entriesCnt
  added : (routerAddEntry router s).1 = 0 →
    (routerAddEntry router s).2.entriesCnt = router.entriesCnt + 1
  unchanged : ∀ i < router.entriesCnt,
    (routerAddEntry router s).2.routes[i]? = router.routes[i]?

/-- The table with a changed slot behind its entries. -/
def filled (router : Router) (r : Route) : Router :=
  { router with routes := router.routes.setIfInBounds router.entriesCnt r }

section

variable {router router' : Router} {s : List UInt8}

theorem filled_getElem? {i : Nat} (hi : i < router.entriesCnt) (r : Route) :
    (filled router r).routes[i]? = router.routes[i]? :=
  Vector.getElem?_setIfInBounds_ne (by omega)

theorem routerAddEntry_cases (router : Router) (s : List UInt8) :
    (∃ err, err ≠ 0 ∧ routerAddEntry router s = (err, router)) ∨
      (∃ err r, err ≠ 0 ∧ routerAddEntry router s = (err, filled router r)) ∨
      ∃ r, parseEntries ((cString s).length + 1) (cString s) {} = (0, r) ∧
        router.entriesCnt < 127 ∧ EntryOk r ∧
        (∀ i < router.entriesCnt, ∀ e, router.routes[i]? = some e →
          e.topicString ≠ r.topicString) ∧
        routerAddEntry router s =
          (0, { filled router r with entriesCnt := router.entriesCnt + 1 }) := by
  rw [routerAddEntry]
  split_ifs with hfull
  · exact .inl ⟨-1, by decide, rfl⟩
  · rcases hparse : parseEntries ((cString s).length + 1) (cString s) {} with ⟨err, r⟩
    dsimp only
    split_ifs with herr htype hlen htopic
    · exact .inr (.inl ⟨err, r, herr, rfl⟩)
    · exact .inr (.inl ⟨-7, r, by decide, rfl⟩)
    · exact .inr (.inl ⟨-8, r, by decide, rfl⟩)
    · exact .inr (.inl ⟨-9, r, by decide, rfl⟩)
    · obtain rfl : err = 0 := by simpa using herr
      rw [maxRoutes] at hfull
      rw [not_or] at htype
      refine .inr (.inr ⟨r, rfl, by omega, ⟨parseEntries_slotOk slotOk_default hparse, ?_, ?_, ?_⟩,
        ?_, rfl⟩)
      · have hne : r.type.toNat ≠ 0 := fun h => htype.1 (UInt8.toNat_inj.mp h)
        omega
      · omega
      · intro l hl
        rw [hl] at hlen
        simpa using hlen
      · intro i hi e he heq
        refine htopic (List.any_eq_true.mpr ⟨i, List.mem_range.mpr hi, ?_⟩)
        simp [he, heq]

theorem atomicInsert (router : Router) (s : List UInt8) : AtomicInsert router s := by
  rcases routerAddEntry_cases router s with ⟨err, herr, heq⟩ | ⟨err, r, herr, heq⟩ |
    ⟨r, -, -, -, -, heq⟩
  · refine ⟨?_, ?_, ?_⟩ <;> rw [heq]
    · exact fun _ => rfl
    · exact fun h => absurd h herr
    · exact fun _ _ => rfl
  · refine ⟨?_, ?_, ?_⟩ <;> rw [heq]
    · exact fun _ => rfl
    · exact fun h => absurd h herr
    · exact fun i hi => filled_getElem? hi r
  · refine ⟨?_, ?_, ?_⟩ <;> rw [heq]
    · exact fun h => absurd rfl h
    · exact fun _ => rfl
    · exact fun i hi => filled_getElem? hi r

theorem tableOk_init : TableOk {} where
  count_le := Nat.zero_le _
  entry_ok := nofun
  topic_ne := nofun

theorem TableOk.insert (h : TableOk router) (s : List UInt8) :
    TableOk (routerAddEntry router s).2 := by
  rcases routerAddEntry_cases router s with ⟨err, -, heq⟩ | ⟨err, r, -, heq⟩ |
    ⟨r, -, hlt, hok, htopic, heq⟩
  · rw [heq]
    exact h
  · rw [heq]
    change TableOk (filled router r)
    refine ⟨h.count_le, ?_, ?_⟩
    · intro i hi e he
      exact h.entry_ok i hi e ((@filled_getElem? router i hi r).symm.trans he)
    · intro i hi j hj hne e e' he he'
      exact h.topic_ne i hi j hj hne e e' ((@filled_getElem? router i hi r).symm.trans he)
        ((@filled_getElem? router j hj r).symm.trans he')
  · rw [heq]
    have hlast : (filled router r).routes[router.entriesCnt]? = some r := by
      rw [filled, Vector.getElem?_setIfInBounds_self, if_pos (by omega)]
    -- an entry is an old one or the new one
    have hcases : ∀ i < router.entriesCnt + 1, ∀ e, (filled router r).routes[i]? = some e →
        (i < router.entriesCnt ∧ router.routes[i]? = some e) ∨
          (i = router.entriesCnt ∧ e = r) := by
      intro i hi e he
      rcases Nat.lt_succ_iff_lt_or_eq.mp hi with hi | rfl
      · rw [filled_getElem? hi r] at he
        exact .inl ⟨hi, he⟩
      · exact .inr ⟨rfl, Option.some.inj (he.symm.trans hlast)⟩
    refine ⟨Nat.succ_le_of_lt hlt, ?_, ?_⟩
    · intro i hi e he
      rcases hcases i hi e he with ⟨hi, he⟩ | ⟨-, rfl⟩
      · exact h.entry_ok i hi e he
      · exact hok
    · intro i hi j hj hne e e' he he'
      rcases hcases i hi e he with ⟨hi', hold⟩ | ⟨hi', rfl⟩
      · rcases hcases j hj e' he' with ⟨hj', hold'⟩ | ⟨-, rfl⟩
        · exact h.topic_ne i hi' j hj' hne e e' hold hold'
        · exact htopic i hi' e hold
      · rcases hcases j hj e' he' with ⟨hj', hold'⟩ | ⟨hj', -⟩
        · exact (htopic j hj' e' hold').symm
        · exact absurd (hi'.trans hj'.symm) hne

theorem TableOk.loop (h : TableOk router)
    {body : Nat → Route → Option (Route × Option Message)}
    (hsome : ∀ i r, EntryOk r → ∃ r' m, body i r = some (r', m))
    (hsame : ∀ i r r' m, body i r = some (r', m) → SameRoute r r') :
    ∃ log router', eachEntry body router router.entriesCnt = some (log, router') ∧
      TableOk router' := by
  obtain ⟨log, router', hloop, hcnt, -, hdone⟩ := @eachEntry_spec body router router.entriesCnt
    (h.count_le.trans (by decide)) fun i hi r hr => hsome i r (h.entry_ok i hi r hr)
  have hold : ∀ i < router.entriesCnt, ∀ r', router'.routes[i]? = some r' →
      ∃ r, router.routes[i]? = some r ∧ SameRoute r r' := by
    intro i hi r' hr'
    obtain ⟨r, r'', m, hr, hbody, hr'', -⟩ := hdone i hi
    obtain rfl := Option.some.inj (hr'.symm.trans hr'')
    exact ⟨r, hr, hsame i r r' m hbody⟩
  refine ⟨log, router', hloop, hcnt ▸ h.count_le, ?_, ?_⟩
  · intro i hi r' hr'
    obtain ⟨r, hr, hrr'⟩ := hold i (hcnt ▸ hi) r' hr'
    exact (h.entry_ok i (hcnt ▸ hi) r hr).same hrr'
  · intro i hi j hj hne r' e' hr' he'
    obtain ⟨r, hr, hrr'⟩ := hold i (hcnt ▸ hi) r' hr'
    obtain ⟨e, he, hee'⟩ := hold j (hcnt ▸ hj) e' he'
    rw [Route.topicString, Route.topicString, hrr'.topic, hee'.topic]
    exact h.topic_ne i (hcnt ▸ hi) j (hcnt ▸ hj) hne r e hr he

theorem TableOk.pdo (h : TableOk router) (msg : CanMsg) (rpdoN : UInt8) (sts : Nat → Int) :
    ∃ log router', routerAddPdo router msg rpdoN sts = some (log, router') ∧ TableOk router' :=
  h.loop (fun i _ hr => addPdo_isSome hr msg rpdoN (sts i)) fun _ _ _ _ hbody => addPdo_same hbody

theorem TableOk.poll (h : TableOk router) (diffMs : UInt32) (sts : Nat → Int) :
    ∃ log router', routerPoll router diffMs sts = some (log, router') ∧ TableOk router' :=
  h.loop (fun i _ hr => poll_isSome hr diffMs (sts i)) fun _ _ _ _ hbody => poll_same hbody

end

/-! ## Runs -/

/-- Calls of the router, `sts` being what `mqtt_queue_publish` returns for each entry. -/
inductive Event
  | addEntry (s : List UInt8)
  | pdo (msg : CanMsg) (rpdoN : UInt8) (sts : Nat → Int)
  | poll (diffMs : UInt32) (sts : Nat → Int)

def step (router : Router) : Event → Option Router
  | .addEntry s => some (routerAddEntry router s).2
  | .pdo msg rpdoN sts => (routerAddPdo router msg rpdoN sts).map Prod.snd
  | .poll diffMs sts => (routerPoll router diffMs sts).map Prod.snd

theorem TableOk.step {router : Router} (h : TableOk router) (ev : Event) :
    ∃ router', step router ev = some router' ∧ TableOk router' := by
  cases ev with
  | addEntry s => exact ⟨_, rfl, h.insert s⟩
  | pdo msg rpdoN sts =>
      obtain ⟨log, router', hloop, hok⟩ := h.pdo msg rpdoN sts
      exact ⟨router', by rw [RouteInvariant.step, hloop]; rfl, hok⟩
  | poll diffMs sts =>
      obtain ⟨log, router', hloop, hok⟩ := h.poll diffMs sts
      exact ⟨router', by rw [RouteInvariant.step, hloop]; rfl, hok⟩

/-- Any sequence of calls runs without a read out of bounds and keeps the table in
order, and the next insertion is atomic. -/
theorem run_tableOk (evs : List Event) :
    ∃ router, evs.foldlM step {} = some router ∧ TableOk router ∧
      (∀ s, AtomicInsert router s) ∧
      ∀ msg rpdoN sts, (routerAddPdo router msg rpdoN sts).isSome := by
  have hrun : ∃ router, evs.foldlM step {} = some router ∧ TableOk router := by
    induction evs using List.reverseRecOn with
    | nil => exact ⟨{}, rfl, tableOk_init⟩
    | append_singleton evs ev ih =>
        obtain ⟨router, hrouter, hok⟩ := ih
        obtain ⟨router', hstep, hok'⟩ := hok.step ev
        exact ⟨router', Lib.Runs.foldlM_snoc.mpr ⟨router, hrouter, hstep⟩, hok'⟩
  obtain ⟨router, hrouter, hok⟩ := hrun
  refine ⟨router, hrouter, hok, atomicInsert router, fun msg rpdoN sts => ?_⟩
  obtain ⟨log, router', hloop, -⟩ := hok.pdo msg rpdoN sts
  rw [hloop]
  rfl

end ShGateway.RouteInvariant
