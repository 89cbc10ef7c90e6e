import ShGateway.RouteInvariant

/-!
What the routes hand to the queue: the latest data, and not too often.
-/

namespace ShGateway.RouteFreshness

open ShGateway.CanDriver (CanMsg)
open ShGateway.MqttPublish (Message)
open ShGateway.RouteTable
open ShGateway.RouteInvariant hiding step

/-! ## One route -/

def zeros (l : Nat) : List UInt8 := List.replicate l 0

/-- The bytes of a message that an entry routes. -/
def routed (r : Route) (msg : CanMsg) : List UInt8 :=
  (msg.data.toList.drop r.offset.toNat).take ((typeLength r.type).getD 0)

/-- An entry with data of `l` bytes, given the bytes it received last, the payload it
enqueued last and the polled time since then. -/
structure Kept (l : Nat) (received enqueued : Option (List UInt8)) (since : Nat) (r : Route) :
    Prop where
  length : typeLength r.type = some l
  length_le : l ≤ 8
  current : r.data.toList.take l = received.getD (zeros l)
  prev : r.dataPrev.toList.take l = r.data.toList.take l
  fresh : r.flagNewMsg = false → enqueued.getD (zeros l) = r.data.toList.take l
  timer : r.lastPubTd.toNat = since % 2 ^ 32

/-- A message is only taken when the interval has elapsed. -/
def InTime (r : Route) (since : Nat) : Prop :=
  0 < r.publishIntervalMs → r.publishIntervalMs.toNatClampNeg ≤ since

section

variable {l since : Nat} {received enqueued : Option (List UInt8)} {r r' : Route}
  {m : Option Message} {sts : Int}

theorem inTime_of_due (htimer : r.lastPubTd.toNat = since % 2 ^ 32) (h : r.Due) :
    InTime r since := by
  intro hpos
  rw [Route.Due, not_and] at h
  have hle := UInt32.le_iff_toNat_le.mp (UInt32.not_lt.mp (h hpos))
  rw [Int32.toNat_toUInt32_of_le (Int32.le_of_lt hpos), htimer] at hle
  exact hle.trans (Nat.mod_le ..)

theorem Kept.trySend (h : Kept l received enqueued since r)
    (hsend : checkTrySend sts r = some (r', m)) :
    Kept l received ((m.map Message.payload).or enqueued) (if m.isSome then 0 else since) r' ∧
      (m.isSome → InTime r since) := by
  rw [checkTrySend_eq h.length] at hsend
  split_ifs at hsend with hdue
  · obtain ⟨rfl, rfl⟩ := Prod.mk.inj (Option.some.inj hsend)
    exact ⟨⟨h.length, h.length_le, h.current, h.prev, fun _ => rfl, rfl⟩,
      fun _ => inTime_of_due h.timer hdue.1⟩
  · obtain ⟨rfl, rfl⟩ := Prod.mk.inj (Option.some.inj hsend)
    exact ⟨⟨h.length, h.length_le, h.current, h.prev, h.fresh, h.timer⟩, nofun⟩

theorem Kept.pdo (h : Kept l received enqueued since r) {msg : CanMsg} {rpdoN : UInt8}
    (hbody : addPdo msg rpdoN sts r = some (r', m)) :
    Kept l (if r.IsFor msg rpdoN then some (routed r msg) else received)
        ((m.map Message.payload).or enqueued) (if m.isSome then 0 else since) r' ∧
      (m.isSome → InTime r since) := by
  rw [addPdo] at hbody
  split_ifs at hbody with hfor
  · rw [if_pos hfor]
    rw [h.length, Option.bind_some] at hbody
    obtain ⟨bytes, hread, hbody⟩ := Option.bind_eq_some_iff.mp hbody
    rw [readData] at hread
    split_ifs at hread with hle
    have hbytes : bytes = routed r msg := by
      rw [routed, h.length]
      exact (Option.some.inj hread).symm
    have hlength : (routed r msg).length = l := by
      rw [routed, h.length, Option.getD_some, List.length_take, List.length_drop,
        Vector.length_toList]
      omega
    have hdata := @take_overwrite r.data _ (hlength.trans_le h.length_le)
    rw [hlength] at hdata
    dsimp only at hbody
    rw [hbytes, hdata] at hbody
    split_ifs at hbody with hsame
    · obtain ⟨rfl, rfl⟩ := Prod.mk.inj (Option.some.inj hbody)
      -- the data were the same before
      have hold : r.data.toList.take l = routed r msg := h.prev.symm.trans hsame.2.symm
      refine ⟨⟨h.length, h.length_le, hdata, ?_, ?_, h.timer⟩,
        fun hsome => absurd hsome Bool.false_ne_true⟩
      · exact hsame.2.symm.trans hdata.symm
      · intro hflag
        exact (h.fresh hflag).trans (hold.trans hdata.symm)
    · have hprev := @take_overwrite r.dataPrev _ (hlength.trans_le h.length_le)
      rw [hlength] at hprev
      have hfilled : Kept l (some (routed r msg)) enqueued since
          { r with
            data := overwrite r.data (routed r msg)
            dataPrev := overwrite r.dataPrev (routed r msg)
            flagNewMsg := true } :=
        ⟨h.length, h.length_le, hdata, hprev.trans hdata.symm,
          fun hflag => absurd hflag.symm Bool.false_ne_true, h.timer⟩
      exact hfilled.trySend hbody
  · obtain ⟨rfl, rfl⟩ := Prod.mk.inj (Option.some.inj hbody)
    rw [if_neg hfor]
    exact ⟨h, fun hsome => absurd hsome Bool.false_ne_true⟩

theorem Kept.poll (h : Kept l received enqueued since r) {diffMs : UInt32}
    (hbody : poll diffMs sts r = some (r', m)) :
    Kept l received ((m.map Message.payload).or enqueued)
        (if m.isSome then 0 else since + diffMs.toNat) r' ∧
      (m.isSome → InTime r (since + diffMs.toNat)) := by
  have hadvanced : Kept l received enqueued (since + diffMs.toNat)
      { r with lastPubTd := r.lastPubTd + diffMs } := by
    refine ⟨h.length, h.length_le, h.current, h.prev, h.fresh, ?_⟩
    rw [UInt32.toNat_add, h.timer, Nat.mod_add_mod]
  rw [RouteTable.poll] at hbody
  dsimp only at hbody
  split_ifs at hbody
  · exact hadvanced.trySend hbody
  · obtain ⟨rfl, rfl⟩ := Prod.mk.inj (Option.some.inj hbody)
    exact ⟨hadvanced, fun hsome => absurd hsome Bool.false_ne_true⟩

end

theorem poll_due {r : Route} {l : Nat} {diffMs : UInt32} {sts : Int}
    (hl : typeLength r.type = some l) (hflag : r.flagNewMsg = true)
    (hdue : Route.Due { r with lastPubTd := r.lastPubTd + diffMs }) (hsts : 0 ≤ sts) :
    poll diffMs sts r =
      some ({ r with flagNewMsg := false, lastPubTd := 0 }, some (r.message l)) := by
  rw [poll]
  dsimp only
  rw [if_pos hflag]
  refine (@checkTrySend_eq { r with lastPubTd := r.lastPubTd + diffMs } l hl sts).trans ?_
  rw [if_pos ⟨hdue, hsts⟩]
  rfl

/-! ## Runs -/

/-- The table with its history: the messages the queue has taken, each with its route
and the polled time, and for each route when it was added and what it received
last. -/
structure History where
  table : Router := {}
  log : List (Nat × Message × Nat) := []
  now : Nat := 0
  created : Nat → Nat := fun _ => 0
  received : Nat → Option (List UInt8) := fun _ => none

def stamp (now : Nat) (log : List (Nat × Message)) : List (Nat × Message × Nat) :=
  log.map fun e => (e.1, e.2, now)

/-- What route `i` has received after a message. -/
def receives (h : History) (msg : CanMsg) (rpdoN : UInt8) (i : Nat) : Option (List UInt8) :=
  match h.table.routes[i]? with
  | some r => if i < h.table.entriesCnt ∧ r.IsFor msg rpdoN then some (routed r msg)
    else h.received i
  | none => h.received i

def step (h : History) : Event → Option History
  | .addEntry s =>
      let (sts, table) := routerAddEntry h.table s
      if sts = 0 then
        some { h with
          table := table
          created := Function.update h.created h.table.entriesCnt h.now
          received := Function.update h.received h.table.entriesCnt none }
      else some { h with table := table }
  | .pdo msg rpdoN sts =>
      (routerAddPdo h.table msg rpdoN sts).map fun done =>
        { h with
          table := done.2
          log := h.log ++ stamp h.now done.1
          received := receives h msg rpdoN }
  | .poll diffMs sts =>
      (routerPoll h.table diffMs sts).map fun done =>
        { h with
          table := done.2
          log := h.log ++ stamp (h.now + diffMs.toNat) done.1
          now := h.now + diffMs.toNat }

/-- The messages of a route that the queue has taken, oldest first. -/
def History.published (h : History) (i : Nat) : List (Message × Nat) :=
  (h.log.filter fun e => e.1 = i).map Prod.snd

def lastPayload (published : List (Message × Nat)) : Option (List UInt8) :=
  published.getLast?.map fun e => e.1.payload

/-- When a route was added and when its messages were taken. -/
def History.times (h : History) (i : Nat) : List Nat :=
  h.created i :: (h.published i).map Prod.snd

/-- While `flag_new_msg` is false, the last payload taken is what was received last. While
it is set, what was received last is taken by the first poll that finds the interval over
and the queue ready. -/
def Fresh (h : History) : Prop :=
  ∀ i < h.table.entriesCnt, ∀ r, h.table.routes[i]? = some r →
    ∀ bytes, h.received i = some bytes →
      (r.flagNewMsg = false → (lastPayload (h.published i)).getD (zeros bytes.length) = bytes) ∧
        (r.flagNewMsg = true → ∀ diffMs sts, 0 ≤ sts →
          Route.Due { r with lastPubTd := r.lastPubTd + diffMs } →
            ∃ r' m, poll diffMs sts r = some (r', some m) ∧ m.payload = bytes)

/-- A route with an interval leaves at least that between its messages, and before the
first one. -/
def Spaced (h : History) : Prop :=
  ∀ i < h.table.entriesCnt, ∀ r, h.table.routes[i]? = some r → 0 < r.publishIntervalMs →
    (h.times i).IsChain fun t t' => t + r.publishIntervalMs.toNatClampNeg ≤ t'

/-! ## A new entry -/

/-- Nothing has been routed yet. -/
structure Blank (r : Route) : Prop where
  data : r.data = Vector.replicate 8 0
  dataPrev : r.dataPrev = Vector.replicate 8 0
  lastPubTd : r.lastPubTd = 0
  flagNewMsg : r.flagNewMsg = false

theorem Blank.apply {r : Route} (h : Blank r) (key val : List UInt8) :
    Blank (applyEntry key val r).2 := by
  obtain ⟨hdata, hprev, htd, hflag⟩ := h
  rw [applyEntry]
  split_ifs
  · rw [refuseIf_snd]
    exact ⟨hdata, hprev, htd, hflag⟩
  · rw [refuseIf_snd]
    exact ⟨hdata, hprev, htd, hflag⟩
  · rw [refuseIf_snd]
    exact ⟨hdata, hprev, htd, hflag⟩
  · exact ⟨hdata, hprev, htd, hflag⟩
  · rw [refuseIf_snd]
    exact ⟨hdata, hprev, htd, hflag⟩
  · exact ⟨hdata, hprev, htd, hflag⟩
  · exact ⟨hdata, hprev, htd, hflag⟩
  · rcases coGtwaGetDataType val with _ | i
    · exact ⟨hdata, hprev, htd, hflag⟩
    · exact ⟨hdata, hprev, htd, hflag⟩
  · exact ⟨hdata, hprev, htd, hflag⟩
  · exact ⟨hdata, hprev, htd, hflag⟩

theorem Blank.parse {r : Route} (h : Blank r) (fuel : Nat) (ptr : List UInt8) :
    Blank (parseEntries fuel ptr r).2 := by
  induction fuel generalizing ptr r with
  | zero => exact h
  | succ fuel ih =>
      rw [parseEntries]
      rcases scanEntry ptr with _ | ⟨key, val, offset⟩
      · exact h
      · have happly := h.apply key val
        dsimp only
        split
        · next e heq =>
            rw [heq] at happly
            exact ih happly _
        · next err e hne heq =>
            rw [heq] at happly
            exact happly

theorem Blank.kept {r : Route} (h : Blank r) {l : Nat} (hl : typeLength r.type = some l)
    (hle : l ≤ 8) : Kept l none none 0 r := by
  have hzeros : (Vector.replicate 8 (0 : UInt8)).toList.take l = zeros l := by
    rw [Vector.toList_replicate, List.take_replicate, Nat.min_eq_left hle, zeros]
  refine ⟨hl, hle, ?_, ?_, fun _ => ?_, ?_⟩
  · rw [h.data, hzeros]
    rfl
  · rw [h.data, h.dataPrev]
  · rw [h.data, hzeros]
    rfl
  · rw [h.lastPubTd]
    rfl

/-! ## A route with its history -/

def lastTime (published : List (Message × Nat)) (created : Nat) : Nat :=
  (published.getLast?.map Prod.snd).getD created

structure Good (received : Option (List UInt8)) (published : List (Message × Nat))
    (created now : Nat) (r : Route) : Prop where
  lastTime_le : lastTime published created ≤ now
  kept : ∃ l, Kept l received (lastPayload published) (now - lastTime published created) r
  spaced : 0 < r.publishIntervalMs →
    (created :: published.map Prod.snd).IsChain fun t t' =>
      t + r.publishIntervalMs.toNatClampNeg ≤ t'

section

variable {received received' : Option (List UInt8)} {published : List (Message × Nat)}
  {created now now' l : Nat} {r r' : Route} {m : Option Message}

theorem getLast?_times : (created :: published.map Prod.snd).getLast? =
    some (lastTime published created) := by
  rw [List.getLast?_cons, List.getLast?_map, lastTime]

theorem Good.publish (h : Good received published created now r) (hnow : now ≤ now')
    (hkept : Kept l received' ((m.map Message.payload).or (lastPayload published))
      (if m.isSome then 0 else now' - lastTime published created) r')
    (htime : m.isSome → InTime r (now' - lastTime published created))
    (hinterval : r'.publishIntervalMs = r.publishIntervalMs) :
    Good received' (published ++ (m.map (·, now')).toList) created now' r' := by
  have hle := h.lastTime_le.trans hnow
  rcases m with _ | m
  · rw [Option.map_none, Option.toList_none, List.append_nil]
    refine ⟨hle, ⟨l, hkept⟩, ?_⟩
    rw [hinterval]
    exact h.spaced
  · rw [Option.map_some, Option.toList_some]
    have hlast : lastTime (published ++ [(m, now')]) created = now' := by
      rw [lastTime, List.getLast?_concat]
      rfl
    refine ⟨hlast.le, ⟨l, ?_⟩, ?_⟩
    · rw [hlast, Nat.sub_self, lastPayload, List.getLast?_concat]
      exact hkept
    · intro hpos
      rw [hinterval] at hpos ⊢
      rw [List.map_append, ← List.cons_append]
      refine List.isChain_append.mpr ⟨h.spaced hpos, List.isChain_singleton _, ?_⟩
      intro t ht t' ht'
      rw [getLast?_times] at ht
      obtain rfl := Option.some.inj ht
      obtain rfl := Option.some.inj ht'
      have := htime rfl hpos
      dsimp only
      omega

theorem Good.pdo (h : Good received published created now r) {msg : CanMsg} {rpdoN : UInt8}
    {sts : Int} (hbody : addPdo msg rpdoN sts r = some (r', m)) :
    Good (if r.IsFor msg rpdoN then some (routed r msg) else received)
      (published ++ (m.map (·, now)).toList) created now r' := by
  obtain ⟨l, hkept⟩ := h.kept
  obtain ⟨hkept', htime⟩ := hkept.pdo hbody
  exact h.publish (Nat.le_refl now) hkept' htime (addPdo_same hbody).interval

theorem Good.poll (h : Good received published created now r) {diffMs : UInt32} {sts : Int}
    (hbody : poll diffMs sts r = some (r', m)) :
    Good received (published ++ (m.map (·, now + diffMs.toNat)).toList) created
      (now + diffMs.toNat) r' := by
  obtain ⟨l, hkept⟩ := h.kept
  obtain ⟨hkept', htime⟩ := hkept.poll hbody
  have hsince : now - lastTime published created + diffMs.toNat =
      now + diffMs.toNat - lastTime published created := by
    have := h.lastTime_le
    omega
  rw [hsince] at hkept' htime
  exact h.publish (Nat.le_add_right _ _) hkept' htime (poll_same hbody).interval

end

/-! ## Steps -/

structure Inv (h : History) : Prop where
  table : TableOk h.table
  unused : ∀ i, h.table.entriesCnt ≤ i → h.published i = []
  good : ∀ i < h.table.entriesCnt, ∀ r, h.table.routes[i]? = some r →
    Good (h.received i) (h.published i) (h.created i) h.now r

section

variable {h : History} {log : List (Nat × Message)} {i : Nat}

theorem filter_stamp (now : Nat) (log : List (Nat × Message)) (i : Nat) :
    ((stamp now log).filter fun e => e.1 = i).map Prod.snd =
      (log.filter fun e => e.1 = i).map fun e => (e.2, now) := by
  induction log with
  | nil => rfl
  | cons e log ih =>
      rw [stamp, List.map_cons, List.filter_cons, List.filter_cons]
      split_ifs
      · rw [List.map_cons, List.map_cons]
        exact congrArg _ ih
      · exact ih

theorem published_append {h' : History} {now : Nat} (hlog : h'.log = h.log ++ stamp now log)
    (i : Nat) :
    h'.published i = h.published i ++ (log.filter fun e => e.1 = i).map fun e => (e.2, now) := by
  rw [History.published, hlog, List.filter_append, List.map_append, filter_stamp]
  rfl

theorem inv_init : Inv {} where
  table := tableOk_init
  unused := fun _ _ => rfl
  good := nofun

theorem Inv.loop (hinv : Inv h) {body : Nat → Route → Option (Route × Option Message)}
    {now' : Nat} {received' : Nat → Option (List UInt8)}
    (hsome : ∀ i r, EntryOk r → ∃ r' m, body i r = some (r', m))
    (hsame : ∀ i r r' m, body i r = some (r', m) → SameRoute r r')
    (hgood : ∀ i < h.table.entriesCnt, ∀ r r' m, h.table.routes[i]? = some r →
      body i r = some (r', m) →
        Good (received' i) (h.published i ++ (m.map (·, now')).toList) (h.created i) now' r') :
    ∃ log table', eachEntry body h.table h.table.entriesCnt = some (log, table') ∧
      Inv { h with
        table := table'
        log := h.log ++ stamp now' log
        now := now'
        received := received' } := by
  obtain ⟨log, table', hloop, hok⟩ := hinv.table.loop hsome hsame
  obtain ⟨log', table'', hloop', hcnt, hrest, hdone⟩ :=
    @eachEntry_spec body h.table h.table.entriesCnt (hinv.table.count_le.trans (by decide))
      fun i hi r hr => hsome i r (hinv.table.entry_ok i hi r hr)
  obtain ⟨rfl, rfl⟩ := Prod.mk.inj (Option.some.inj (hloop.symm.trans hloop'))
  have hpublished := @published_append h log
    { h with
      table := table'
      log := h.log ++ stamp now' log
      now := now'
      received := received' } now' rfl
  refine ⟨log, table', hloop, hok, ?_, ?_⟩
  · intro i hi
    rw [hpublished, (hrest i (hcnt ▸ hi)).2, hinv.unused i (hcnt ▸ hi)]
    rfl
  · intro i hi r' hr'
    obtain ⟨r, r'', m, hr, hbody, hr'', hlog⟩ := hdone i (hcnt ▸ hi)
    obtain rfl := Option.some.inj (hr'.symm.trans hr'')
    rw [hpublished, hlog]
    rcases m with _ | m
    · exact hgood i (hcnt ▸ hi) r r' none hr hbody
    · exact hgood i (hcnt ▸ hi) r r' (some m) hr hbody

theorem Inv.pdo (hinv : Inv h) (msg : CanMsg) (rpdoN : UInt8) (sts : Nat → Int) :
    ∃ h', step h (.pdo msg rpdoN sts) = some h' ∧ Inv h' := by
  obtain ⟨log, table', hloop, hinv'⟩ := @Inv.loop h hinv
    (fun i => addPdo msg rpdoN (sts i)) h.now (receives h msg rpdoN)
    (fun i r hr => addPdo_isSome hr msg rpdoN (sts i)) (fun _ _ _ _ hbody => addPdo_same hbody)
    (by
      intro i hi r r' m hr hbody
      have hgood := (hinv.good i hi r hr).pdo hbody
      rw [receives, hr]
      simpa only [hi, true_and] using hgood)
  exact ⟨_, by rw [step, routerAddPdo, hloop]; rfl, hinv'⟩

theorem Inv.poll (hinv : Inv h) (diffMs : UInt32) (sts : Nat → Int) :
    ∃ h', step h (.poll diffMs sts) = some h' ∧ Inv h' := by
  obtain ⟨log, table', hloop, hinv'⟩ := @Inv.loop h hinv
    (fun i => RouteTable.poll diffMs (sts i)) (h.now + diffMs.toNat) h.received
    (fun i r hr => poll_isSome hr diffMs (sts i)) (fun _ _ _ _ hbody => poll_same hbody)
    (fun i hi r _ _ hr hbody => (hinv.good i hi r hr).poll hbody)
  exact ⟨_, by rw [step, routerPoll, hloop]; rfl, hinv'⟩

theorem Inv.addEntry (hinv : Inv h) (s : List UInt8) :
    ∃ h', step h (.addEntry s) = some h' ∧ Inv h' := by
  have hok := hinv.table.insert s
  rcases routerAddEntry_cases h.table s with ⟨err, herr, heq⟩ | ⟨err, r, herr, heq⟩ |
    ⟨r, hparse, hlt, hentry, -, heq⟩
  · refine ⟨h, ?_, hinv⟩
    rw [step, heq]
    exact if_neg herr
  · refine ⟨{ h with table := filled h.table r }, ?_, ?_⟩
    · rw [step, heq]
      exact if_neg herr
    · rw [heq] at hok
      refine ⟨hok, hinv.unused, ?_⟩
      intro i hi e he
      exact hinv.good i hi e ((@filled_getElem? h.table i hi r).symm.trans he)
  · refine ⟨_, by rw [step, heq]; exact if_pos rfl, ?_⟩
    rw [heq] at hok
    refine ⟨hok, fun i hi => hinv.unused i (Nat.le_of_succ_le hi), ?_⟩
    intro i hi e he
    dsimp only at hi he ⊢
    rcases Nat.lt_succ_iff_lt_or_eq.mp hi with hi | rfl
    · rw [Function.update_of_ne hi.ne, Function.update_of_ne hi.ne]
      exact hinv.good i hi e ((@filled_getElem? h.table i hi r).symm.trans he)
    · rw [Function.update_self, Function.update_self]
      have hlast : (filled h.table r).routes[h.table.entriesCnt]? = some r := by
        rw [filled, Vector.getElem?_setIfInBounds_self, if_pos (by omega)]
      obtain rfl := Option.some.inj (hlast.symm.trans he)
      obtain ⟨l, hl⟩ := hentry.typeLength
      have hblank : Blank r := by
        have := @Blank.parse {} ⟨rfl, rfl, rfl, rfl⟩ ((cString s).length + 1) (cString s)
        rwa [hparse] at this
      have hle := hentry.data_le l hl
      have hunused : h.published h.table.entriesCnt = [] := hinv.unused _ (Nat.le_refl _)
      change Good none (h.published h.table.entriesCnt) h.now h.now r
      rw [hunused]
      refine ⟨Nat.le_refl _, ⟨l, ?_⟩, fun _ => List.isChain_singleton _⟩
      have hkept := hblank.kept hl (by omega)
      rw [lastTime, List.getLast?_nil, Option.map_none, Option.getD_none, Nat.sub_self]
      exact hkept

theorem Inv.step (hinv : Inv h) (ev : Event) : ∃ h', step h ev = some h' ∧ Inv h' := by
  cases ev with
  | addEntry s => exact hinv.addEntry s
  | pdo msg rpdoN sts => exact hinv.pdo msg rpdoN sts
  | poll diffMs sts => exact hinv.poll diffMs sts

theorem Inv.fresh (hinv : Inv h) : Fresh h := by
  intro i hi r hr bytes hbytes
  obtain ⟨l, hkept⟩ := (hinv.good i hi r hr).kept
  have hcurrent := hkept.current
  rw [hbytes, Option.getD_some] at hcurrent
  have hlength : bytes.length = l := by
    have := hkept.length_le
    rw [← hcurrent, List.length_take, Vector.length_toList]
    omega
  refine ⟨?_, ?_⟩
  · intro hflag
    rw [hlength]
    exact (hkept.fresh hflag).trans hcurrent
  · intro hflag diffMs sts hsts hdue
    exact ⟨_, r.message l, poll_due hkept.length hflag hdue hsts, hcurrent⟩

theorem Inv.isSpaced (hinv : Inv h) : Spaced h :=
  fun i hi r hr => (hinv.good i hi r hr).spaced

end

/-- After any insertions, messages, polls and answers of the queue, no change is lost and
no interval cut short. -/
theorem run_fresh_spaced (evs : List Event) :
    ∃ h, evs.foldlM step {} = some h ∧ Fresh h ∧ Spaced h := by
  have hrun : ∃ h, evs.foldlM step {} = some h ∧ Inv h := by
    induction evs using List.reverseRecOn with
    | nil => exact ⟨{}, rfl, inv_init⟩
    | append_singleton evs ev ih =>
        obtain ⟨h, hh, hinv⟩ := ih
        obtain ⟨h', hstep, hinv'⟩ := hinv.step ev
        exact ⟨h', Lib.Runs.foldlM_snoc.mpr ⟨h, hh, hstep⟩, hinv'⟩
  obtain ⟨h, hh, hinv⟩ := hrun
  exact ⟨h, hh, hinv.fresh, hinv.isSpaced⟩

end ShGateway.RouteFreshness
