import ShGateway.Lib.Assoc
import ShGateway.RouteInvariant

/-!
Lines of keys and values for `router_add_entry`, whatever their order.
-/

namespace ShGateway.RouteLine

open ShGateway.AppFiles (isSpace)
open ShGateway.FwHeader (literal)
open ShGateway.Lib.Assoc
open ShGateway.RouteInvariant (filled parseEntries_fuel toNat_ofInt)
open ShGateway.RouteTable

/-! ## Lines -/

/-- The keys that `router_add_entry` knows. -/
def keys : List (List UInt8) :=
  [literal "id", literal "off", literal "pdo", literal "retain", literal "qos",
    literal "interval", literal "topic", literal "type", literal "is_cmd"]

/-- A value of 1 to 63 characters without spaces. -/
def IsValue (val : List UInt8) : Prop :=
  val ≠ [] ∧ val.length ≤ 63 ∧ 0 ∉ val ∧ 32 ∉ val

instance (val : List UInt8) : Decidable (IsValue val) := inferInstanceAs (Decidable (_ ∧ _))

/-- A key with its value. -/
abbrev Token := List UInt8 × List UInt8

def Token.IsOk (t : Token) : Prop := t.1 ∈ keys ∧ IsValue t.2

instance (t : Token) : Decidable t.IsOk := inferInstanceAs (Decidable (_ ∧ _))

def Token.text (t : Token) : List UInt8 := t.1 ++ 61 :: t.2

/-- Keys and values as a user gives them, no key twice. -/
structure Tokens where
  toks : List Token
  isOk : ∀ t ∈ toks, t.IsOk
  distinct : DistinctKeys toks

/-- The tokens, joined by single spaces. -/
def Tokens.line (ts : Tokens) : List UInt8 := [32].intercalate (ts.toks.map Token.text)

/-! ## What the tokens denote -/

def Tokens.value (ts : Tokens) (key : String) : Option (List UInt8) := ts.toks.lookup (literal key)

def Tokens.number (ts : Tokens) (key : String) : Option Int := (ts.value key).map atoi

def Tokens.type (ts : Tokens) : Option Nat := (ts.value "type").bind coGtwaGetDataType

/-- The topic, of which 38 characters are kept. -/
def Tokens.topic (ts : Tokens) : List UInt8 := ((ts.value "topic").getD []).take 38

/-- The entry of the tokens, with what is not given being zero. -/
def Tokens.route (ts : Tokens) : Route where
  isMqttToPdo := (ts.value "is_cmd").isSome
  type := UInt8.ofNat (ts.type.getD 0)
  topic := overwrite (Vector.replicate 40 0) ts.topic
  canId := UInt8.ofInt ((ts.number "id").getD 0)
  pdoN := UInt8.ofInt ((ts.number "pdo").getD 0)
  offset := UInt8.ofInt ((ts.number "off").getD 0)
  publishIntervalMs := Int32.ofInt ((ts.number "interval").getD 0)
  qos := UInt8.ofInt ((ts.number "qos").getD 0)
  retain := if (ts.value "retain").isSome then 1 else 0

/-- The number given for the key, if there is one, is in the range. -/
def Tokens.InRange (ts : Tokens) (key : String) (lo hi : Int) : Prop :=
  ∀ n, ts.number key = some n → lo ≤ n ∧ n ≤ hi

def Tokens.IdGiven (ts : Tokens) : Prop := (ts.number "id").isSome

instance (ts : Tokens) : Decidable ts.IdGiven := inferInstanceAs (Decidable (_ = true))

/-- What is asked of an entry besides that it names a node. -/
structure AcceptableButId (router : Router) (ts : Tokens) : Prop where
  room : router.entriesCnt + 1 < maxRoutes
  id : ts.InRange "id" 2 127
  off : ts.InRange "off" 0 7
  pdo : ts.InRange "pdo" 0 3
  qos : ts.InRange "qos" 0 2
  type : ∃ i, ts.type = some i ∧ 1 ≤ i
  data : ∀ i, ts.type = some i → ∀ dt, dataTypes[i]? = some dt →
    (ts.number "off").getD 0 + dt.2 ≤ 8
  topic : ∀ i < router.entriesCnt, ∀ r, router.routes[i]? = some r → r.topicString ≠ ts.topic

/-- The entry is to be accepted. -/
structure Acceptable (router : Router) (ts : Tokens) : Prop extends AcceptableButId router ts where
  idGiven : ts.IdGiven

/-- The table with one more entry. -/
def added (router : Router) (r : Route) : Router :=
  { filled router r with entriesCnt := router.entriesCnt + 1 }

/-- The result for a line and for the same tokens in any other order. -/
structure AsSpecified (router : Router) (ts : Tokens) : Prop where
  accepted : (routerAddEntry router ts.line).1 = 0 ↔ Acceptable router ts
  stored : (routerAddEntry router ts.line).1 = 0 →
    (routerAddEntry router ts.line).2 = added router ts.route
  permuted : ∀ ts' : Tokens, ts'.toks.Perm ts.toks →
    ((routerAddEntry router ts'.line).1 = 0 ↔ (routerAddEntry router ts.line).1 = 0) ∧
      ((routerAddEntry router ts'.line).1 = 0 →
        (routerAddEntry router ts'.line).2 = (routerAddEntry router ts.line).2)

/-! ## Reading a line -/

/-- What follows the first token of a line. -/
def restOf (toks : List Token) : List UInt8 := toks.flatMap fun t => 32 :: t.text

theorem intercalate_text (t : Token) (toks : List Token) :
    [32].intercalate ((t :: toks).map Token.text) = t.text ++ restOf toks := by
  induction toks generalizing t with
  | nil => simp [restOf, List.intercalate]
  | cons u toks ih =>
      have htail := ih u
      rw [List.intercalate] at htail ⊢
      rw [List.map_cons, List.map_cons, List.intersperse_cons_cons, List.flatten_cons,
        List.flatten_cons, ← List.map_cons, htail, restOf, restOf, List.flatMap_cons]
      simp

theorem key_facts : ∀ k ∈ keys, k ≠ [] ∧ k.length ≤ 31 ∧ 61 ∉ k ∧ k.dropWhile isSpace = k := by
  decide

theorem takeWhile_append_stop {α : Type*} {p : α → Bool} {l rest : List α} {a : α}
    (hl : ∀ b ∈ l, p b = true) (ha : p a = false) :
    (l ++ a :: rest).takeWhile p = l := by
  rw [List.takeWhile_append_of_pos hl, List.takeWhile_cons_of_neg (by simp [ha]),
    List.append_nil]

theorem takeWhile_value {val : List UInt8} (hval : 32 ∉ val) (toks : List Token) :
    (val ++ restOf toks).takeWhile (· ≠ 32) = val := by
  have hkeep : ∀ b ∈ val, decide (b ≠ 32) = true := by
    intro b hb
    rw [decide_eq_true_eq]
    rintro rfl
    exact hval hb
  rcases toks with _ | ⟨t, toks⟩
  · rw [restOf, List.flatMap_nil, List.append_nil]
    exact List.takeWhile_eq_self_iff.mpr hkeep
  · rw [restOf, List.flatMap_cons]
    exact takeWhile_append_stop hkeep (by decide)

theorem scanEntry_text {t : Token} (ht : t.IsOk) {space : List UInt8}
    (hspace : space = [] ∨ space = [32]) (toks : List Token) :
    scanEntry (space ++ (t.text ++ restOf toks)) =
      some (t.1, t.2, space.length + t.text.length) := by
  obtain ⟨key, val⟩ := t
  obtain ⟨hkey, hne, hlen, -, hsp⟩ := ht
  obtain ⟨hkne, hklen, hkeq, hkdrop⟩ := key_facts key hkey
  obtain ⟨b, key, rfl⟩ := List.exists_cons_of_ne_nil hkne
  have hhead : isSpace b = false := by
    rcases hb : isSpace b with _ | _
    · rfl
    · rw [List.dropWhile_cons_of_pos hb] at hkdrop
      have hshort := (List.dropWhile_suffix (p := isSpace) (l := key)).length_le
      rw [hkdrop, List.length_cons] at hshort
      omega
  have hskip : (space ++ (Token.text (b :: key, val) ++ restOf toks)).dropWhile isSpace =
      (b :: key) ++ 61 :: (val ++ restOf toks) := by
    rcases hspace with rfl | rfl
    · rw [List.nil_append, Token.text, List.append_assoc, List.cons_append,
        List.dropWhile_cons_of_neg (by simp [hhead]), List.cons_append, List.cons_append]
    · rw [List.singleton_append, List.dropWhile_cons_of_pos (by decide), Token.text,
        List.append_assoc, List.cons_append,
        List.dropWhile_cons_of_neg (by simp [hhead]), List.cons_append, List.cons_append]
  have hkeyread : (((b :: key) ++ 61 :: (val ++ restOf toks)).takeWhile (· ≠ 61)).take 31 =
      b :: key := by
    rw [takeWhile_append_stop ?_ (by decide), List.take_of_length_le hklen]
    intro c hc
    rw [decide_eq_true_eq]
    rintro rfl
    exact hkeq hc
  obtain ⟨c, val, rfl⟩ := List.exists_cons_of_ne_nil hne
  have hval : ((c :: val ++ restOf toks).takeWhile (· ≠ 32)).take 63 = c :: val := by
    rw [takeWhile_value hsp, List.take_of_length_le hlen]
  rw [scanEntry, hskip, hkeyread, List.drop_left]
  simp only [hval]
  simp [Token.text]
  omega

/-- The loop as a loop over tokens. -/
def applyTokens : List Token → Route → Int × Route
  | [], r => (0, r)
  | t :: toks, r =>
      match applyEntry t.1 t.2 r with
      | (0, r) => applyTokens toks r
      | (err, r) => (err, r)

theorem applyTokens_cons (t : Token) (toks : List Token) (r : Route) :
    applyTokens (t :: toks) r =
      if (applyEntry t.1 t.2 r).1 = 0 then applyTokens toks (applyEntry t.1 t.2 r).2
      else applyEntry t.1 t.2 r := by
  rw [applyTokens]
  rcases applyEntry t.1 t.2 r with ⟨err, r'⟩
  split_ifs with herr
  · obtain rfl : err = 0 := herr
    rfl
  · split
    · next heq => exact absurd (Prod.mk.inj heq).1 herr
    · next heq => exact heq.symm

theorem parseEntries_text {t : Token} (ht : t.IsOk) {space : List UInt8}
    (hspace : space = [] ∨ space = [32]) (toks : List Token) (fuel : Nat) (r : Route) :
    parseEntries (fuel + 1) (space ++ (t.text ++ restOf toks)) r =
      if (applyEntry t.1 t.2 r).1 = 0 then
        parseEntries fuel (restOf toks) (applyEntry t.1 t.2 r).2
      else applyEntry t.1 t.2 r := by
  have hdrop : (space ++ (t.text ++ restOf toks)).drop (space.length + t.text.length) =
      restOf toks := by
    rw [← List.append_assoc, List.drop_left' List.length_append]
  rw [parseEntries, scanEntry_text ht hspace]
  dsimp only
  rw [hdrop]
  rcases applyEntry t.1 t.2 r with ⟨err, r'⟩
  split_ifs with herr
  · obtain rfl : err = 0 := herr
    rfl
  · split
    · next heq => exact absurd (Prod.mk.inj heq).1 herr
    · next heq => exact heq.symm

theorem parseEntries_restOf {toks : List Token} (hok : ∀ t ∈ toks, t.IsOk) {fuel : Nat}
    (hfuel : toks.length ≤ fuel) (r : Route) :
    parseEntries fuel (restOf toks) r = applyTokens toks r := by
  induction toks generalizing fuel r with
  | nil =>
      rcases fuel with _ | fuel
      · rfl
      · rw [parseEntries]
        rfl
  | cons t toks ih =>
      obtain ⟨fuel, rfl⟩ := Nat.exists_eq_succ_of_ne_zero (Nat.ne_zero_of_lt hfuel)
      have hrest : restOf (t :: toks) = [32] ++ (t.text ++ restOf toks) := by
        rw [restOf, List.flatMap_cons]
        rfl
      rw [hrest, parseEntries_text (hok t List.mem_cons_self) (.inr rfl), applyTokens_cons,
        ih (fun u hu => hok u (List.mem_cons_of_mem _ hu)) (Nat.le_of_succ_le_succ hfuel)]

theorem nul_notMem_restOf {toks : List Token} (hok : ∀ t ∈ toks, t.IsOk) : 0 ∉ restOf toks := by
  rw [restOf, List.mem_flatMap]
  rintro ⟨t, ht, hmem⟩
  obtain ⟨hkey, -, -, hval, -⟩ := hok t ht
  have hkeys : ∀ k ∈ keys, 0 ∉ k := by decide
  rw [List.mem_cons, Token.text, List.mem_append, List.mem_cons] at hmem
  rcases hmem with h | h | h | h
  · exact absurd h (by decide)
  · exact hkeys _ hkey h
  · exact absurd h (by decide)
  · exact hval h

theorem length_le_restOf (toks : List Token) : toks.length ≤ (restOf toks).length := by
  induction toks with
  | nil => exact Nat.le_refl 0
  | cons t toks ih =>
      rw [restOf, List.flatMap_cons, ← restOf, List.length_cons, List.length_append,
        List.length_cons]
      omega

theorem parseEntries_line (ts : Tokens) :
    parseEntries ((cString ts.line).length + 1) (cString ts.line) {} = applyTokens ts.toks {} := by
  obtain ⟨toks, hok, hdistinct⟩ := ts
  rcases toks with _ | ⟨t, toks⟩
  · rfl
  · have hline : Tokens.line ⟨t :: toks, hok, hdistinct⟩ = t.text ++ restOf toks :=
      intercalate_text t toks
    have hspaced : restOf (t :: toks) = 32 :: (t.text ++ restOf toks) := List.flatMap_cons
    have hnul : cString (t.text ++ restOf toks) = t.text ++ restOf toks := by
      rw [cString, List.takeWhile_eq_self_iff]
      intro b hb
      rw [decide_eq_true_eq]
      rintro rfl
      exact nul_notMem_restOf hok (hspaced ▸ List.mem_cons_of_mem 32 hb)
    have hlength := length_le_restOf toks
    rw [hline, hnul, ← List.nil_append (t.text ++ restOf toks),
      parseEntries_text (hok t List.mem_cons_self) (.inl rfl),
      parseEntries_restOf (fun u hu => hok u (List.mem_cons_of_mem _ hu)) ?_, applyTokens_cons]
    rw [List.nil_append, List.length_append]
    omega

/-! ## Filling in the entry -/

/-- The values taken for the key. -/
def ValueOk (key val : List UInt8) : Prop :=
  (key = literal "id" → 1 < atoi val ∧ atoi val ≤ 127) ∧
    (key = literal "off" → 0 ≤ atoi val ∧ atoi val ≤ 7) ∧
    (key = literal "pdo" → 0 ≤ atoi val ∧ atoi val ≤ 3) ∧
    (key = literal "qos" → 0 ≤ atoi val ∧ atoi val ≤ 2) ∧
    (key = literal "type" → (coGtwaGetDataType val).isSome)

instance (key val : List UInt8) : Decidable (ValueOk key val) :=
  inferInstanceAs (Decidable (_ ∧ _))

/-- What is stored for a key. -/
def store (key val : List UInt8) (r : Route) : Route := (applyEntry key val r).2

theorem refuseIf_fst {wrong : Bool} {err : Int} (herr : err ≠ 0) (r : Route) :
    (refuseIf wrong err r).1 = 0 ↔ wrong = false := by
  rw [refuseIf]
  rcases wrong with _ | _
  · simp
  · simpa using herr

section

variable {key : List UInt8} (hkey : key ∈ keys) (val : List UInt8) (r : Route)

include hkey

theorem applyEntry_fst : (applyEntry key val r).1 = 0 ↔ ValueOk key val := by
  fin_cases hkey
  all_goals simp [applyEntry, ValueOk, refuseIf_fst, literal]
  rcases coGtwaGetDataType val with _ | i <;> simp

theorem store_eq : store key val r =
    { r with
      canId := if key == literal "id" then UInt8.ofInt (atoi val) else r.canId
      offset := if key == literal "off" then UInt8.ofInt (atoi val) else r.offset
      pdoN := if key == literal "pdo" then UInt8.ofInt (atoi val) else r.pdoN
      retain := if key == literal "retain" then 1 else r.retain
      qos := if key == literal "qos" then UInt8.ofInt (atoi val) else r.qos
      publishIntervalMs :=
        if key == literal "interval" then Int32.ofInt (atoi val) else r.publishIntervalMs
      topic := if key == literal "topic" then overwrite r.topic (val.take 38 ++ [0]) else r.topic
      type := if key == literal "type" then
        ((coGtwaGetDataType val).map UInt8.ofNat).getD r.type else r.type
      isMqttToPdo := if key == literal "is_cmd" then true else r.isMqttToPdo } := by
  fin_cases hkey
  all_goals simp [store, applyEntry, refuseIf_snd, literal]
  rcases coGtwaGetDataType val with _ | i <;> simp

end

section

variable {toks : List Token}

theorem applyTokens_of_ok (hok : ∀ t ∈ toks, t.IsOk) (hval : ∀ t ∈ toks, ValueOk t.1 t.2)
    (r : Route) : applyTokens toks r = (0, toks.foldl (fun r t => store t.1 t.2 r) r) := by
  induction toks generalizing r with
  | nil => rfl
  | cons t toks ih =>
      have hzero : (applyEntry t.1 t.2 r).1 = 0 :=
        (applyEntry_fst (hok t List.mem_cons_self).1 t.2 r).mpr (hval t List.mem_cons_self)
      rw [applyTokens_cons, if_pos hzero, List.foldl_cons, store]
      exact ih (fun u hu => hok u (List.mem_cons_of_mem _ hu))
        (fun u hu => hval u (List.mem_cons_of_mem _ hu)) _

theorem applyTokens_fst (hok : ∀ t ∈ toks, t.IsOk) (r : Route) :
    (applyTokens toks r).1 = 0 ↔ ∀ t ∈ toks, ValueOk t.1 t.2 := by
  constructor
  · intro hzero
    induction toks generalizing r with
    | nil => exact nofun
    | cons t toks ih =>
        rw [applyTokens_cons] at hzero
        have hhead := applyEntry_fst (hok t List.mem_cons_self).1 t.2 r
        rw [List.forall_mem_cons]
        split_ifs at hzero with herr
        · exact ⟨hhead.mp herr,
            ih (fun u hu => hok u (List.mem_cons_of_mem _ hu)) _ hzero⟩
        · exact absurd hzero herr
  · intro hval
    rw [applyTokens_of_ok hok hval]

end

theorem overwrite_nul {n : Nat} (l : List UInt8) :
    overwrite (Vector.replicate n 0) (l ++ [0]) = overwrite (Vector.replicate n 0) l := by
  apply Vector.ext
  intro i hi
  rw [overwrite, overwrite, Vector.getElem_ofFn, Vector.getElem_ofFn, List.getElem?_append]
  dsimp only
  split_ifs with hlt
  · rfl
  · rw [List.getElem?_eq_none (by omega : l.length ≤ i)]
    rcases i - l.length with _ | j <;> simp

/-- The entry as the loop leaves it. -/
def Tokens.filledIn (ts : Tokens) : Route := ts.toks.foldl (fun r t => store t.1 t.2 r) {}

section

variable (ts : Tokens) {α : Type} (field : Route → α)

theorem filledIn_frame (hframe : ∀ k ∈ keys, ∀ val r, field (store k val r) = field r) :
    field ts.filledIn = field {} :=
  foldl_field_frame (fun t ht => hframe t.1 (ts.isOk t ht).1 t.2) {}

theorem filledIn_field (key : String) (set : List UInt8 → α → α)
    (hset : ∀ k ∈ keys, ∀ val r, field (store k val r) =
      if k == literal key then set val (field r) else field r) :
    field ts.filledIn =
      (ts.value key).elim (field {}) fun val => set val (field {}) :=
  foldl_field ts.distinct (fun t ht => hset t.1 (ts.isOk t ht).1 t.2) {}

theorem filledIn_number (key : String) (conv : Int → α) (hzero : field {} = conv 0)
    (hset : ∀ k ∈ keys, ∀ val r, field (store k val r) =
      if k == literal key then conv (atoi val) else field r) :
    field ts.filledIn = conv ((ts.number key).getD 0) := by
  rw [filledIn_field ts field key (fun val _ => conv (atoi val)) hset, Tokens.number]
  rcases ts.value key with _ | val
  · exact hzero
  · rfl

end

attribute [ext] Route

/-- The loop leaves the entry that the tokens denote. -/
theorem filledIn_eq_route (ts : Tokens) : ts.filledIn = ts.route := by
  apply Route.ext
  · rw [filledIn_field ts Route.isMqttToPdo "is_cmd" (fun _ _ => true)
      fun k hk val r => by rw [store_eq hk], Tokens.route]
    rcases ts.value "is_cmd" with _ | val <;> rfl
  · exact filledIn_frame ts Route.data fun k hk val r => by rw [store_eq hk]
  · exact filledIn_frame ts Route.dataPrev fun k hk val r => by rw [store_eq hk]
  · rw [filledIn_field ts Route.type "type"
      (fun val i => ((coGtwaGetDataType val).map UInt8.ofNat).getD i)
      fun k hk val r => by rw [store_eq hk], Tokens.route, Tokens.type]
    rcases ts.value "type" with _ | val
    · rfl
    · dsimp only [Option.bind_some, Option.elim_some]
      rcases coGtwaGetDataType val with _ | i <;> rfl
  · rw [filledIn_field ts Route.topic "topic"
      (fun val topic => overwrite topic (val.take 38 ++ [0]))
      fun k hk val r => by rw [store_eq hk], Tokens.route, Tokens.topic]
    rcases ts.value "topic" with _ | val
    · exact (overwrite_nil _).symm
    · exact overwrite_nul _
  · exact filledIn_number ts Route.canId "id" UInt8.ofInt rfl
      fun k hk val r => by rw [store_eq hk]
  · exact filledIn_number ts Route.pdoN "pdo" UInt8.ofInt rfl
      fun k hk val r => by rw [store_eq hk]
  · exact filledIn_number ts Route.offset "off" UInt8.ofInt rfl
      fun k hk val r => by rw [store_eq hk]
  · exact filledIn_number ts Route.publishIntervalMs "interval" Int32.ofInt rfl
      fun k hk val r => by rw [store_eq hk]
  · exact filledIn_frame ts Route.lastPubTd fun k hk val r => by rw [store_eq hk]
  · exact filledIn_number ts Route.qos "qos" UInt8.ofInt rfl
      fun k hk val r => by rw [store_eq hk]
  · rw [filledIn_field ts Route.retain "retain" (fun _ _ => 1)
      fun k hk val r => by rw [store_eq hk], Tokens.route]
    rcases ts.value "retain" with _ | val <;> rfl
  · exact filledIn_frame ts Route.flagNewMsg fun k hk val r => by rw [store_eq hk]

/-! ## The checks -/

section

variable {ts : Tokens}

theorem forall_valueOk_iff : (∀ t ∈ ts.toks, ValueOk t.1 t.2) ↔
    ts.InRange "id" 2 127 ∧ ts.InRange "off" 0 7 ∧ ts.InRange "pdo" 0 3 ∧ ts.InRange "qos" 0 2 ∧
      ∀ val, ts.value "type" = some val → (coGtwaGetDataType val).isSome := by
  rw [forall_mem_iff_lookup ts.distinct]
  constructor
  · intro hall
    refine ⟨?_, ?_, ?_, ?_, fun val hval => (hall _ _ hval).2.2.2.2 rfl⟩
    all_goals
      intro n hn
      obtain ⟨val, hval, rfl⟩ := Option.map_eq_some_iff.mp hn
      obtain ⟨hid, hoff, hpdo, hqos, -⟩ := hall _ _ hval
    · exact hid rfl
    · exact hoff rfl
    · exact hpdo rfl
    · exact hqos rfl
  · rintro ⟨hid, hoff, hpdo, hqos, htype⟩ key val hval
    have hnumber : ∀ name, key = literal name → ts.number name = some (atoi val) := by
      rintro name rfl
      rw [Tokens.number, Tokens.value, hval, Option.map_some]
    refine ⟨fun h => hid _ (hnumber _ h), fun h => hoff _ (hnumber _ h),
      fun h => hpdo _ (hnumber _ h), fun h => hqos _ (hnumber _ h), ?_⟩
    rintro rfl
    exact htype val hval

theorem type_lt {i : Nat} (h : ts.type = some i) : i < dataTypes.length := by
  obtain ⟨val, -, hval⟩ := Option.bind_eq_some_iff.mp h
  exact (List.findIdx?_eq_some_iff_getElem.mp hval).1

theorem route_type_toNat : ts.route.type.toNat = ts.type.getD 0 := by
  have hlt : ts.type.getD 0 < 256 := by
    rcases htype : ts.type with _ | i
    · decide
    · have hdata : dataTypes.length = 20 := rfl
      have hi := type_lt htype
      rw [Option.getD_some]
      omega
  exact UInt8.toNat_ofNat_of_lt' hlt

theorem route_offset_toNat (h : ts.InRange "off" 0 7) :
    (ts.route.offset.toNat : Int) = (ts.number "off").getD 0 := by
  have hrange : 0 ≤ (ts.number "off").getD 0 ∧ (ts.number "off").getD 0 ≤ 7 := by
    rcases hoff : ts.number "off" with _ | n
    · decide
    · exact h n hoff
  rw [Tokens.route]
  dsimp only
  rw [toNat_ofInt hrange.1 (by omega)]
  omega

theorem nul_notMem_topic : 0 ∉ ts.topic := by
  intro hmem
  rw [Tokens.topic] at hmem
  rcases hval : ts.value "topic" with _ | val
  · simp [hval] at hmem
  · rw [hval] at hmem
    have hok := ts.isOk _ ((lookup_eq_some_iff_mem ts.distinct).mp hval)
    exact hok.2.2.2.1 (List.mem_of_mem_take hmem)

theorem cString_overwrite {n : Nat} {l : List UInt8} (hlen : l.length < n) (hnul : 0 ∉ l) :
    cString (overwrite (Vector.replicate n 0) l).toList = l := by
  have hbuf : (overwrite (Vector.replicate n 0) l).toList = l ++ List.replicate (n - l.length) 0 := by
    apply List.ext_getElem?
    intro i
    rw [List.getElem?_append, List.getElem?_replicate]
    rcases Nat.lt_or_ge i n with hi | hi
    · rw [List.getElem?_eq_getElem (by simpa using hi)]
      simp only [overwrite, Vector.getElem_toList, Vector.getElem_ofFn]
      split_ifs with hl hrest
      · rw [List.getElem?_eq_getElem hl, Option.getD_some]
      · rw [List.getElem?_eq_none (by omega), Option.getD_none]
        simp
      · omega
    · rw [List.getElem?_eq_none (by simpa using hi), if_neg (by omega), if_neg (by omega)]
  obtain ⟨k, hk⟩ := Nat.exists_eq_succ_of_ne_zero (show n - l.length ≠ 0 by omega)
  rw [hbuf, hk, List.replicate_succ, cString]
  refine takeWhile_append_stop ?_ (by decide)
  intro b hb
  rw [decide_eq_true_eq]
  rintro rfl
  exact hnul hb

theorem topicString_route : ts.route.topicString = ts.topic :=
  cString_overwrite (Nat.lt_of_le_of_lt (List.length_take_le 38 _) (by decide)) nul_notMem_topic

theorem routerAddEntry_of_acceptable {router : Router} (h : AcceptableButId router ts) :
    routerAddEntry router ts.line = (0, added router ts.route) := by
  obtain ⟨i, htype, hi⟩ := h.type
  have hvals : ∀ t ∈ ts.toks, ValueOk t.1 t.2 := by
    rw [forall_valueOk_iff]
    refine ⟨h.id, h.off, h.pdo, h.qos, ?_⟩
    intro val hval
    rw [Tokens.type, hval, Option.bind_some] at htype
    exact Option.isSome_iff_exists.mpr ⟨i, htype⟩
  have hparse : parseEntries ((cString ts.line).length + 1) (cString ts.line) {} =
      (0, ts.route) := by
    rw [parseEntries_line, applyTokens_of_ok ts.isOk hvals, ← filledIn_eq_route, Tokens.filledIn]
  have hnat : ts.route.type.toNat = i := by rw [route_type_toNat, htype, Option.getD_some]
  have hlt := type_lt htype
  have hdata := h.data i htype _ (List.getElem?_eq_getElem hlt)
  have hoffset := route_offset_toNat h.off
  rw [routerAddEntry, if_neg (by have := h.room; omega), hparse]
  dsimp only
  rw [if_neg (by decide), if_neg, if_neg, if_neg]
  · rfl
  · intro hany
    obtain ⟨j, hj, htopic⟩ := List.any_eq_true.mp hany
    obtain ⟨r, hr, heq⟩ := Option.map_eq_some_iff.mp (of_decide_eq_true htopic)
    exact h.topic j (List.mem_range.mp hj) r hr (heq.trans topicString_route)
  · rw [typeLength, hnat, List.getElem?_eq_getElem hlt, Option.map_some, Option.getD_some]
    omega
  · rintro (hzero | hlarge)
    · rw [hzero] at hnat
      exact absurd hnat (by rw [UInt8.toNat_zero]; omega)
    · omega

theorem acceptable_of_routerAddEntry {router : Router}
    (h : (routerAddEntry router ts.line).1 = 0) : AcceptableButId router ts := by
  rw [routerAddEntry, parseEntries_line] at h
  split_ifs at h with hfull
  · exact absurd h (by decide : (-1 : Int) ≠ 0)
  rcases Classical.em (∀ t ∈ ts.toks, ValueOk t.1 t.2) with hvals | hvals
  · rw [applyTokens_of_ok ts.isOk hvals, ← Tokens.filledIn, filledIn_eq_route] at h
    dsimp only at h
    rw [if_neg (by decide)] at h
    split_ifs at h with htype hlen htopic
    · exact absurd h (by decide : (-7 : Int) ≠ 0)
    · exact absurd h (by decide : (-8 : Int) ≠ 0)
    · exact absurd h (by decide : (-9 : Int) ≠ 0)
    · obtain ⟨hid, hoff, hpdo, hqos, -⟩ := forall_valueOk_iff.mp hvals
      rw [not_or] at htype
      have hnat := @route_type_toNat ts
      have hoffset := route_offset_toNat hoff
      have hpos : ts.route.type.toNat ≠ 0 := fun heq => htype.1 (UInt8.toNat_inj.mp heq)
      rcases hdt : ts.type with _ | i
      · rw [hdt] at hnat
        exact absurd hnat hpos
      · rw [hdt, Option.getD_some] at hnat
        refine ⟨by omega, hid, hoff, hpdo, hqos, ⟨i, hdt, by omega⟩, ?_, ?_⟩
        · intro j hj dt hget
          obtain rfl := Option.some.inj (hdt.symm.trans hj)
          rw [typeLength, hnat, hget, Option.map_some, Option.getD_some] at hlen
          omega
        · intro j hj r hr heq
          refine htopic (List.any_eq_true.mpr ⟨j, List.mem_range.mpr hj, ?_⟩)
          rw [decide_eq_true_eq, hr, Option.map_some, topicString_route, heq]
  · have herr : (applyTokens ts.toks {}).1 ≠ 0 :=
      fun hzero => hvals ((applyTokens_fst ts.isOk {}).mp hzero)
    rcases happly : applyTokens ts.toks {} with ⟨err, r⟩
    rw [happly] at h herr
    dsimp only at h
    rw [if_pos herr] at h
    exact absurd h herr

end

/-! ## Permutations -/

section

variable {ts ts' : Tokens}

theorem value_perm (hperm : ts'.toks.Perm ts.toks) : ts'.value = ts.value := by
  funext key
  exact lookup_perm ts.distinct hperm (literal key)

theorem route_perm (hperm : ts'.toks.Perm ts.toks) : ts'.route = ts.route := by
  simp only [Tokens.route, Tokens.type, Tokens.topic, Tokens.number, value_perm hperm]

theorem acceptableButId_perm {router : Router} (hperm : ts'.toks.Perm ts.toks)
    (h : AcceptableButId router ts) : AcceptableButId router ts' := by
  have hvalue := value_perm hperm
  have hnumber : ts'.number = ts.number := by
    funext key
    rw [Tokens.number, Tokens.number, hvalue]
  have htype : ts'.type = ts.type := by rw [Tokens.type, Tokens.type, hvalue]
  have htopic : ts'.topic = ts.topic := by rw [Tokens.topic, Tokens.topic, hvalue]
  have hrange : ts'.InRange = ts.InRange := by
    funext key lo hi
    rw [Tokens.InRange, Tokens.InRange, hnumber]
  refine ⟨h.room, ?_, ?_, ?_, ?_, ?_, ?_, ?_⟩
  · exact hrange ▸ h.id
  · exact hrange ▸ h.off
  · exact hrange ▸ h.pdo
  · exact hrange ▸ h.qos
  · exact htype ▸ h.type
  · rw [htype, hnumber]
    exact h.data
  · rw [htopic]
    exact h.topic

end

/-- A line is treated as specified exactly when it names the node of its entry or is
refused for another reason. -/
theorem routerAddEntry_asSpecified_iff (router : Router) (ts : Tokens) :
    AsSpecified router ts ↔ ts.IdGiven ∨ ¬ AcceptableButId router ts := by
  constructor
  · intro h
    rcases Classical.em (AcceptableButId router ts) with hok | hok
    · have hzero : (routerAddEntry router ts.line).1 = 0 := by
        rw [routerAddEntry_of_acceptable hok]
      exact .inl (h.accepted.mp hzero).idGiven
    · exact .inr hok
  · intro hid
    refine ⟨?_, ?_, ?_⟩
    · constructor
      · intro hzero
        have hok := acceptable_of_routerAddEntry hzero
        exact ⟨hok, hid.resolve_right (not_not.mpr hok)⟩
      · intro hok
        rw [routerAddEntry_of_acceptable hok.toAcceptableButId]
    · intro hzero
      rw [routerAddEntry_of_acceptable (acceptable_of_routerAddEntry hzero)]
    · intro ts' hperm
      refine ⟨?_, ?_⟩
      · constructor
        · intro hzero
          rw [routerAddEntry_of_acceptable
            (acceptableButId_perm hperm.symm (acceptable_of_routerAddEntry hzero))]
        · intro hzero
          rw [routerAddEntry_of_acceptable
            (acceptableButId_perm hperm (acceptable_of_routerAddEntry hzero))]
      · intro hzero
        have hok := acceptable_of_routerAddEntry hzero
        rw [routerAddEntry_of_acceptable hok,
          routerAddEntry_of_acceptable (acceptableButId_perm hperm.symm hok), route_perm hperm]

/-- A line without an id. -/
def withoutId : Tokens where
  toks := [(literal "type", literal "u8"), (literal "topic", literal "t")]
  isOk := by decide
  distinct := by decide

theorem not_asSpecified_withoutId : ¬ AsSpecified {} withoutId := by
  intro h
  have hzero : (routerAddEntry {} withoutId.line).1 = 0 := by decide +kernel
  exact absurd (h.accepted.mp hzero).idGiven (by decide)

end ShGateway.RouteLine
