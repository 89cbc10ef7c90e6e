import ShGateway.AppFiles
import ShGateway.CanDriver
import ShGateway.MqttPublish

/-!
The table of `router.c` that maps process data on the CAN bus to MQTT topics.
-/

namespace ShGateway.RouteTable

open ShGateway.AppFiles (isSpace scanDigits)
open ShGateway.CanDriver (CanMsg)
open ShGateway.FwHeader (literal)
open ShGateway.MqttPublish (Message)

def maxRoutes : Nat := 128

/-- Syntax and length of the entries of `dataTypes`. -/
def dataTypes : List (List UInt8 × Nat) :=
  [(literal "hex", 0), (literal "b", 1), (literal "i8", 1), (literal "i16", 2),
    (literal "i32", 4), (literal "i64", 8), (literal "u8", 1), (literal "u16", 2),
    (literal "u32", 4), (literal "u64", 8), (literal "x8", 1), (literal "x16", 2),
    (literal "x32", 4), (literal "x64", 8), (literal "r32", 4), (literal "r64", 8),
    (literal "vs", 0), (literal "os", 0), (literal "us", 0), (literal "d", 0)]

def coGtwaGetDataType (token : List UInt8) : Option Nat :=
  dataTypes.findIdx? fun dt => dt.1 = token

/-- `dataTypes[type].length`, `none` outside the table. -/
def typeLength (type : UInt8) : Option Nat := dataTypes[type.toNat]?.map Prod.snd

/-- `route_t`. -/
structure Route where
  isMqttToPdo : Bool := false
  data : Vector UInt8 8 := Vector.replicate 8 0
  dataPrev : Vector UInt8 8 := Vector.replicate 8 0
  type : UInt8 := 0
  topic : Vector UInt8 40 := Vector.replicate 40 0
  canId : UInt8 := 0
  pdoN : UInt8 := 0
  offset : UInt8 := 0
  publishIntervalMs : Int32 := 0
  lastPubTd : UInt32 := 0
  qos : UInt8 := 0
  retain : UInt8 := 0
  flagNewMsg : Bool := false

structure Router where
  routes : Vector Route 128 := Vector.replicate 128 {}
  entriesCnt : Nat := 0

/-- The string at the head of a buffer. -/
def cString (s : List UInt8) : List UInt8 := s.takeWhile (· ≠ 0)

def Route.topicString (e : Route) : List UInt8 := cString e.topic.toList

/-- The bytes are copied to the beginning of a buffer. -/
def overwrite {n : Nat} (buf : Vector UInt8 n) (bytes : List UInt8) : Vector UInt8 n :=
  Vector.ofFn fun i => (bytes[i.val]?).getD buf[i]

theorem overwrite_nil {n : Nat} (buf : Vector UInt8 n) : overwrite buf [] = buf := by
  apply Vector.ext
  intro i hi
  simp [overwrite]

theorem take_overwrite {buf : Vector UInt8 8} {bytes : List UInt8} (h : bytes.length ≤ 8) :
    (overwrite buf bytes).toList.take bytes.length = bytes := by
  refine List.ext_getElem ?_ fun i hi hi' => ?_
  · rw [List.length_take, Vector.length_toList]
    omega
  · simp [overwrite, hi']

/-! ## Adding an entry -/

/-- `atoi`, a number that does not fit being replaced by the nearest one. -/
def atoi (s : List UInt8) : Int :=
  match s.dropWhile isSpace with
  | 45 :: s => max (-2 ^ 31) (-((scanDigits s).getD 0 : Nat))
  | 43 :: s => min (2 ^ 31 - 1) ((scanDigits s).getD 0 : Nat)
  | s => min (2 ^ 31 - 1) ((scanDigits s).getD 0 : Nat)

/-- `sscanf` with `" %31[^=]=%63[^ ]%n"`: key and value and the number of
characters read, if both are found. -/
def scanEntry (ptr : List UInt8) : Option (List UInt8 × List UInt8 × Nat) :=
  let s := ptr.dropWhile isSpace
  let key := (s.takeWhile (· ≠ 61)).take 31
  match key, s.drop key.length with
  | _ :: _, 61 :: rest =>
      match (rest.takeWhile (· ≠ 32)).take 63 with
      | [] => none
      | val => some (key, val, ptr.length - s.length + key.length + 1 + val.length)
  | _, _ => none

/-- A value is checked after it has been stored. -/
def refuseIf (wrong : Bool) (err : Int) (r : Route) : Int × Route :=
  if wrong then (err, r) else (0, r)

theorem refuseIf_snd (wrong : Bool) (err : Int) (r : Route) : (refuseIf wrong err r).2 = r := by
  rw [refuseIf]
  split_ifs <;> rfl

/-- What the loop of `router_add_entry` does with a key and its value: `0` to go on
or the value returned, and the entry as far as it has been filled in. -/
def applyEntry (key val : List UInt8) (r : Route) : Int × Route :=
  if key = literal "id" then
    refuseIf (atoi val ≤ 1 ∨ atoi val > 127) (-3) { r with canId := UInt8.ofInt (atoi val) }
  else if key = literal "off" then
    refuseIf (atoi val < 0 ∨ atoi val > 7) (-4) { r with offset := UInt8.ofInt (atoi val) }
  else if key = literal "pdo" then
    refuseIf (atoi val < 0 ∨ atoi val > 3) (-5) { r with pdoN := UInt8.ofInt (atoi val) }
  else if key = literal "retain" then
    (0, { r with retain := 1 })
  else if key = literal "qos" then
    refuseIf (atoi val < 0 ∨ atoi val > 2) (-6) { r with qos := UInt8.ofInt (atoi val) }
  else if key = literal "interval" then
    (0, { r with publishIntervalMs := Int32.ofInt (atoi val) })
  else if key = literal "topic" then
    (0, { r with topic := overwrite r.topic (val.take 38 ++ [0]) })
  else if key = literal "type" then
    match coGtwaGetDataType val with
    | some i => (0, { r with type := UInt8.ofNat i })
    | none => (-7, r)
  else if key = literal "is_cmd" then
    (0, { r with isMqttToPdo := true })
  else (-2, r)

/-- The loop of `router_add_entry`, which reads at least one character in every
turn. -/
def parseEntries : Nat → List UInt8 → Route → Int × Route
  | 0, _, r => (0, r)
  | fuel + 1, ptr, r =>
      match scanEntry ptr with
      | none => (0, r)
      | some (key, val, offset) =>
          match applyEntry key val r with
          | (0, r) => parseEntries fuel (ptr.drop offset) r
          | (err, r) => (err, r)

/-- The entry is filled in where it is going to be, behind the others. -/
def routerAddEntry (router : Router) (s : List UInt8) : Int × Router :=
  if router.entriesCnt + 1 ≥ maxRoutes then (-1, router)
  else
    let (err, r) := parseEntries ((cString s).length + 1) (cString s) {}
    let filled := { router with routes := router.routes.setIfInBounds router.entriesCnt r }
    if err ≠ 0 then (err, filled)
    else if r.type = 0 ∨ dataTypes.length ≤ r.type.toNat then (-7, filled)
    else if 8 < r.offset.toNat + (typeLength r.type).getD 0 then (-8, filled)
    else if (List.range router.entriesCnt).any fun i =>
        router.routes[i]?.map Route.topicString = some r.topicString then (-9, filled)
    else (0, { filled with entriesCnt := router.entriesCnt + 1 })

/-! ## Routing -/

/-- `check_try_send`: the entry and the message that `mqtt_queue_publish` took, `sts`
being its result. No result stands for a read outside `dataTypes`. -/
def checkTrySend (sts : Int) (r : Route) : Option (Route × Option Message) :=
  if r.publishIntervalMs > 0 ∧ r.lastPubTd < r.publishIntervalMs.toUInt32 then some (r, none)
  else
    (typeLength r.type).map fun l =>
      if sts ≥ 0 then
        ({ r with flagNewMsg := false, lastPubTd := 0 },
          some ⟨r.topicString, r.data.toList.take l, r.qos, r.retain⟩)
      else (r, none)

/-- `memcpy` from the data of a message, `none` if it reads beyond them. -/
def readData (msg : CanMsg) (offset : UInt8) (l : Nat) : Option (List UInt8) :=
  if offset.toNat + l ≤ 8 then some ((msg.data.toList.drop offset.toNat).take l) else none

/-- The entry is for this process data object. -/
def Route.IsFor (r : Route) (msg : CanMsg) (rpdoN : UInt8) : Prop :=
  r.pdoN = rpdoN ∧ r.canId.toUInt32 = msg.id &&& 0x7F

instance (r : Route) (msg : CanMsg) (rpdoN : UInt8) : Decidable (r.IsFor msg rpdoN) :=
  inferInstanceAs (Decidable (_ ∧ _))

/-- The body of the loop of `router_add_pdo`. -/
def addPdo (msg : CanMsg) (rpdoN : UInt8) (sts : Int) (r : Route) :
    Option (Route × Option Message) :=
  if r.IsFor msg rpdoN then
    (typeLength r.type).bind fun l =>
      (readData msg r.offset l).bind fun bytes =>
        let r := { r with data := overwrite r.data bytes }
        if r.publishIntervalMs < 0 ∧ r.data.toList.take l = r.dataPrev.toList.take l then
          some (r, none)
        else
          checkTrySend sts { r with
            dataPrev := overwrite r.dataPrev (r.data.toList.take l)
            flagNewMsg := true }
  else some (r, none)

/-- The body of the loop of `router_poll`. -/
def poll (diffMs : UInt32) (sts : Int) (r : Route) : Option (Route × Option Message) :=
  let r := { r with lastPubTd := r.lastPubTd + diffMs }
  if r.flagNewMsg then checkTrySend sts r else some (r, none)

/-- The loops over the first `n` entries, with the messages taken for each. -/
def eachEntry (body : Nat → Route → Option (Route × Option Message)) (router : Router) :
    Nat → Option (List (Nat × Message) × Router)
  | 0 => some ([], router)
  | n + 1 =>
      (eachEntry body router n).bind fun done =>
        done.2.routes[n]?.bind fun r =>
          (body n r).map fun out =>
            (done.1 ++ (out.2.map (n, ·)).toList,
              { done.2 with routes := done.2.routes.setIfInBounds n out.1 })

def routerAddPdo (router : Router) (msg : CanMsg) (rpdoN : UInt8) (sts : Nat → Int) :
    Option (List (Nat × Message) × Router) :=
  eachEntry (fun i => addPdo msg rpdoN (sts i)) router router.entriesCnt

def routerPoll (router : Router) (diffMs : UInt32) (sts : Nat → Int) :
    Option (List (Nat × Message) × Router) :=
  eachEntry (fun i => poll diffMs (sts i)) router router.entriesCnt

/-! ## What the loops do -/

/-- `check_try_send` offers the entry to the queue. -/
def Route.Due (r : Route) : Prop :=
  ¬ (r.publishIntervalMs > 0 ∧ r.lastPubTd < r.publishIntervalMs.toUInt32)

instance (r : Route) : Decidable r.Due := inferInstanceAs (Decidable (¬ _))

def Route.message (r : Route) (l : Nat) : Message :=
  ⟨r.topicString, r.data.toList.take l, r.qos, r.retain⟩

theorem checkTrySend_eq {r : Route} {l : Nat} (hl : typeLength r.type = some l) (sts : Int) :
    checkTrySend sts r = some (if r.Due ∧ sts ≥ 0 then
      ({ r with flagNewMsg := false, lastPubTd := 0 }, some (r.message l)) else (r, none)) := by
  rw [checkTrySend, hl]
  rcases Classical.em r.Due with hdue | hdue
  · rw [if_neg hdue, Option.map_some]
    simp only [hdue, true_and]
    rfl
  · rw [if_pos (not_not.mp hdue), if_neg fun h => hdue h.1]

section

variable {body : Nat → Route → Option (Route × Option Message)} {router : Router}

theorem eachEntry_spec {n : Nat} (hn : n ≤ 128)
    (hbody : ∀ i < n, ∀ r, router.routes[i]? = some r → ∃ r' m, body i r = some (r', m)) :
    ∃ log router', eachEntry body router n = some (log, router') ∧
      router'.entriesCnt = router.entriesCnt ∧
      (∀ i, n ≤ i → router'.routes[i]? = router.routes[i]? ∧
        log.filter (fun e => e.1 = i) = []) ∧
      ∀ i < n, ∃ r r' m, router.routes[i]? = some r ∧ body i r = some (r', m) ∧
        router'.routes[i]? = some r' ∧
        log.filter (fun e => e.1 = i) = (m.map (i, ·)).toList := by
  induction n with
  | zero => exact ⟨[], router, rfl, rfl, fun i _ => ⟨rfl, rfl⟩, nofun⟩
  | succ n ih =>
      obtain ⟨log, router', hloop, hcnt, hrest, hdone⟩ :=
        ih (by omega) fun i hi => hbody i (by omega)
      obtain ⟨r, hr⟩ : ∃ r, router.routes[n]? = some r :=
        ⟨_, Vector.getElem?_eq_getElem (by omega)⟩
      obtain ⟨r', m, hbodyn⟩ := hbody n (by omega) r hr
      refine ⟨log ++ (m.map (n, ·)).toList,
        { router' with routes := router'.routes.setIfInBounds n r' }, ?_, hcnt, ?_, ?_⟩
      · rw [eachEntry, hloop, Option.bind_some, (hrest n (Nat.le_refl n)).1, hr, Option.bind_some,
          hbodyn, Option.map_some]
      · intro i hi
        obtain ⟨hsame, hlog⟩ := hrest i (by omega)
        refine ⟨?_, ?_⟩
        · rw [Vector.getElem?_setIfInBounds_ne (by omega)]
          exact hsame
        · rw [List.filter_append, hlog, List.nil_append]
          rcases m with _ | m
          · rfl
          · simp; omega
      · intro i hi
        rcases Nat.lt_succ_iff_lt_or_eq.mp hi with hi | rfl
        · obtain ⟨e, e', m', he, hbodyi, he', hlog⟩ := hdone i hi
          refine ⟨e, e', m', he, hbodyi, ?_, ?_⟩
          · rw [Vector.getElem?_setIfInBounds_ne (by omega)]
            exact he'
          · rw [List.filter_append, hlog]
            rcases m with _ | m
            · simp
            · simp; omega
        · refine ⟨r, r', m, hr, hbodyn, ?_, ?_⟩
          · rw [Vector.getElem?_setIfInBounds_self, if_pos (by omega)]
          · rw [List.filter_append, (hrest i (Nat.le_refl i)).2, List.nil_append]
            rcases m with _ | m
            · rfl
            · simp

end

end ShGateway.RouteTable
