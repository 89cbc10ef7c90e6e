import ShGateway.FwHeader
import ShGateway.Lib.WriteLog

/-!
Datagrams to the console: `cb_udp_console` with its saved request.
-/

namespace ShGateway.ConsoleRequest

open ShGateway.FwHeader (literal)
open ShGateway.Lib.WriteLog

/-- A received pbuf with the port it comes from. From `payload` on there are `room` bytes in its
buffer, of which `len` are received. -/
structure Datagram where
  payload : Nat → UInt8
  len : UInt16
  room : Nat
  addr : UInt32
  port : UInt16
  len_le : len.toNat ≤ room

/-- An entry of `console_cmd`. -/
structure Command where
  name : List UInt8
  cb : Bool

/-- What a request comes to: a command is called with the bytes behind its name, if there are
any, and their number. -/
inductive Effect
  | help
  | call (i : Nat) (param : Option (List UInt8)) (len : Int)
  | notFound
  | nothing
deriving DecidableEq, Repr

/-- The commands from number `i` on, up to the first whose name starts the request. -/
def search (data : List UInt8) (lenReq : Nat) : Nat → List Command → Effect
  | _, [] => .nothing
  | i, cmd :: cmds =>
      let l := cmd.name.length
      if cmd.cb ∧ data.take l = cmd.name then
        .call i (if (lenReq : Int) - l > 0 then some (data.drop l) else none) (lenReq - l)
      else if cmds.isEmpty then .notFound
      else search data lenReq (i + 1) cmds

/-- The commands of the console on a request with its terminator. -/
def execute (consoleCmd : List Command) (data : List UInt8) (lenReq : Nat) : Effect :=
  if data.take 4 = literal "help" then .help
  else if data.takeWhile (· ≠ 0) ≠ [10] ∧ data.getD 0 0 ≠ 0x23 ∧ data.getD 0 0 ≠ 0 then
    search data lenReq 0 consoleCmd
  else .nothing

/-- The size of `prev_request`. -/
def prevRequestSize : Nat := 256

/-- The static variables that a request uses. -/
structure Console where
  stayInBoot : Bool := false
  addr : UInt32 := 0
  port : UInt16 := 0
  prevRequest : Nat → UInt8 := fun _ => 0
  prevRequestLen : Nat := 0
  prevPort : UInt16 := 0

/-- The memory a datagram is handled in, what comes of it unless it is dropped, and how often its
pbuf is freed. -/
structure Handled where
  payload : Region
  prevRequest : Region
  effect : Option Effect
  freed : Nat

def cbUdpConsole (consoleCmd : List Command) (c : Console) (d : Datagram) : Handled × Console :=
  let prevRequest : Region := ⟨c.prevRequest, []⟩
  let prevRequest := if d.port ≠ c.prevPort then prevRequest.poke 0 0 else prevRequest
  let c := { c with
    stayInBoot := true, addr := d.addr, port := d.port, prevPort := d.port
    prevRequest := prevRequest.bytes }
  let data := (Region.mk d.payload []).poke d.len.toNat 0
  if d.len.toNat ≥ prevRequestSize then (⟨data, prevRequest, none, 0⟩, c)
  else
    let lenReq := d.len.toNat
    if lenReq = 1 ∧ data.bytes 0 = 10 then
      let request := prevRequest.slice (c.prevRequestLen + 1)
      (⟨data, prevRequest, some (execute consoleCmd request c.prevRequestLen), 1⟩, c)
    else
      let request := data.slice (lenReq + 1)
      let prevRequest := (prevRequest.copy 0 (data.slice lenReq)).poke lenReq 0
      (⟨data, prevRequest, some (execute consoleCmd request lenReq), 1⟩,
        { c with prevRequest := prevRequest.bytes, prevRequestLen := lenReq })

/-- The console after some datagrams. -/
def after (consoleCmd : List Command) (ds : List Datagram) : Console :=
  ds.foldl (fun c d => (cbUdpConsole consoleCmd c d).2) {}

/-! ## Requests -/

/-- The bytes received. -/
def Datagram.bytes (d : Datagram) : List UInt8 := (Region.mk d.payload []).slice d.len.toNat

/-- A single newline. -/
def Datagram.IsReplay (d : Datagram) : Prop := d.len.toNat = 1 ∧ d.payload 0 = 10

instance (d : Datagram) : Decidable d.IsReplay :=
  inferInstanceAs (Decidable (d.len.toNat = 1 ∧ d.payload 0 = 10))

/-- Any other datagram that is received as a whole. -/
def Datagram.IsRequest (d : Datagram) : Prop :=
  d.len.toNat < prevRequestSize ∧ ¬ d.IsReplay

instance (d : Datagram) : Decidable d.IsRequest :=
  inferInstanceAs (Decidable (d.len.toNat < prevRequestSize ∧ ¬ d.IsReplay))

/-- The most recent request from a port. -/
def latest (ds : List Datagram) (port : UInt16) : Option Datagram :=
  (ds.filter fun d => d.port = port ∧ d.IsRequest).getLast?

/-- What a request comes to. -/
def Datagram.effect (consoleCmd : List Command) (d : Datagram) : Effect :=
  execute consoleCmd (d.bytes ++ [0]) d.len.toNat

/-- The datagram `d` after the datagrams `ds` is consumed as it should be. -/
structure Safe (consoleCmd : List Command) (ds : List Datagram) (d : Datagram) : Prop where
  freed : (cbUdpConsole consoleCmd (after consoleCmd ds) d).1.freed = 1
  payload : ∀ i ∈ (cbUdpConsole consoleCmd (after consoleCmd ds) d).1.payload.written, i < d.room
  prevRequest : ∀ i ∈ (cbUdpConsole consoleCmd (after consoleCmd ds) d).1.prevRequest.written,
    i < prevRequestSize
  replay : d.IsReplay → (cbUdpConsole consoleCmd (after consoleCmd ds) d).1.effect =
    some (match latest ds d.port with
      | some r => r.effect consoleCmd
      | none => .nothing)

/-! ## The saved request -/

/-- The last port and the request saved for it. -/
def held (ds : List Datagram) : UInt16 × Option Datagram :=
  ds.foldl (fun s d =>
    (d.port, if d.IsRequest then some d else if d.port = s.1 then s.2 else none)) (0, none)

theorem held_snoc (ds : List Datagram) (d : Datagram) :
    held (ds ++ [d]) = (d.port, if d.IsRequest then some d
      else if d.port = (held ds).1 then (held ds).2 else none) := by
  rw [held, held, List.foldl_append]
  rfl

/-- The request that a newline from `port` finds saved. -/
def heldFor (ds : List Datagram) (port : UInt16) : Option Datagram :=
  if port = (held ds).1 then (held ds).2 else none

theorem heldFor_some {ds : List Datagram} {port : UInt16} {r : Datagram}
    (h : heldFor ds port = some r) :
    latest ds port = some r ∧ ∃ before since, ds = before ++ r :: since ∧
      ∀ e ∈ since, e.port = port := by
  induction ds using List.reverseRecOn with
  | nil =>
      rw [heldFor] at h
      split_ifs at h
      cases h
  | append_singleton ds d ih =>
      rw [heldFor, held_snoc] at h
      dsimp only at h
      split_ifs at h with hport hrequest hsame
      · obtain rfl := Option.some.inj h
        refine ⟨?_, ds, [], rfl, by simp⟩
        rw [latest, List.filter_append, List.filter_cons_of_pos, List.filter_nil,
          List.getLast?_concat]
        exact decide_eq_true ⟨hport.symm, hrequest⟩
      · have hfor : heldFor ds port = some r := by
          rw [heldFor, if_pos (hport.trans hsame)]
          exact h
        obtain ⟨hlatest, before, since, rfl, hsince⟩ := ih hfor
        refine ⟨?_, before, since ++ [d], by simp, ?_⟩
        · rw [latest, List.filter_append, List.filter_cons_of_neg, List.filter_nil,
            List.append_nil]
          · exact hlatest
          · simp [hrequest]
        · intro e he
          rcases List.mem_append.mp he with he | he
          · exact hsince e he
          · rw [List.mem_singleton.mp he]
            exact hport.symm

theorem heldFor_ne_none {before since : List Datagram} {r : Datagram} (hr : r.IsRequest)
    (hsince : ∀ e ∈ since, e.port = r.port) : heldFor (before ++ r :: since) r.port ≠ none := by
  have hheld : (held (before ++ r :: since)).1 = r.port ∧
      (held (before ++ r :: since)).2 ≠ none := by
    induction since using List.reverseRecOn with
    | nil =>
        rw [held_snoc, if_pos hr]
        exact ⟨rfl, Option.some_ne_none r⟩
    | append_singleton since e ih =>
        obtain ⟨hport, hne⟩ := ih fun e' he' => hsince e' (List.mem_append_left _ he')
        have he := hsince e (List.mem_append_right _ List.mem_cons_self)
        have hassoc : before ++ r :: (since ++ [e]) = before ++ r :: since ++ [e] := by simp
        rw [hassoc, held_snoc]
        refine ⟨he, ?_⟩
        split_ifs with hrequest hsame
        · exact Option.some_ne_none e
        · exact hne
        · exact absurd (he.trans hport.symm) hsame
  rw [heldFor, if_pos hheld.1.symm]
  exact hheld.2

/-- `prev_request` holds the saved request with its terminator and `prev_request_len` its length;
without one its first byte is zero. -/
structure Inv (ds : List Datagram) (c : Console) : Prop where
  port : c.prevPort = (held ds).1
  saved : ∀ r, (held ds).2 = some r → c.prevRequestLen = r.len.toNat ∧
    (Region.mk c.prevRequest []).slice (r.len.toNat + 1) = r.bytes ++ [0]
  empty : (held ds).2 = none → c.prevRequest 0 = 0

/-! ## One datagram -/

section

variable {consoleCmd : List Command} {c : Console} {ds : List Datagram} {d : Datagram}

/-- `prev_request` once the port of a datagram is compared. -/
def Console.cleared (c : Console) (port : UInt16) : Region :=
  if port ≠ c.prevPort then (Region.mk c.prevRequest []).poke 0 0 else ⟨c.prevRequest, []⟩

theorem Inv.cleared (h : Inv ds c) :
    (∀ r, heldFor ds d.port = some r → c.prevRequestLen = r.len.toNat ∧
      (c.cleared d.port).slice (r.len.toNat + 1) = r.bytes ++ [0]) ∧
    (heldFor ds d.port = none → (c.cleared d.port).bytes 0 = 0) := by
  rw [heldFor, Console.cleared, ← h.port]
  rcases Classical.em (d.port = c.prevPort) with hport | hport
  · rw [if_pos hport, if_neg (not_not.mpr hport)]
    exact ⟨h.saved, h.empty⟩
  · rw [if_neg hport, if_pos hport]
    refine ⟨?_, fun _ => poke_bytes_self⟩
    rintro r ⟨⟩

theorem cbUdpConsole_dropped (hlen : ¬ d.len.toNat < prevRequestSize) :
    cbUdpConsole consoleCmd c d =
      (⟨(Region.mk d.payload []).poke d.len.toNat 0, c.cleared d.port, none, 0⟩,
        { c with
          stayInBoot := true, addr := d.addr, port := d.port, prevPort := d.port
          prevRequest := (c.cleared d.port).bytes }) := by
  rw [cbUdpConsole]
  exact if_pos (Nat.not_lt.mp hlen)

theorem replay_iff : (d.len.toNat = 1 ∧
    ((Region.mk d.payload []).poke d.len.toNat 0).bytes 0 = 10) ↔ d.IsReplay := by
  refine and_congr_right fun hone => ?_
  rw [poke_bytes_of_ne (by omega)]

theorem cbUdpConsole_replay (hd : d.IsReplay) :
    cbUdpConsole consoleCmd c d =
      (⟨(Region.mk d.payload []).poke d.len.toNat 0, c.cleared d.port,
          some (execute consoleCmd ((c.cleared d.port).slice (c.prevRequestLen + 1))
            c.prevRequestLen), 1⟩,
        { c with
          stayInBoot := true, addr := d.addr, port := d.port, prevPort := d.port
          prevRequest := (c.cleared d.port).bytes }) := by
  have hlen : ¬ d.len.toNat ≥ prevRequestSize := by
    rw [hd.1]
    decide
  rw [cbUdpConsole]
  dsimp only
  rw [if_neg hlen, if_pos (replay_iff.mpr hd)]
  rfl

theorem cbUdpConsole_request (hd : d.IsRequest) :
    cbUdpConsole consoleCmd c d =
      (⟨(Region.mk d.payload []).poke d.len.toNat 0,
          ((c.cleared d.port).copy 0 d.bytes).poke d.len.toNat 0,
          some (d.effect consoleCmd), 1⟩,
        { c with
          stayInBoot := true, addr := d.addr, port := d.port, prevPort := d.port
          prevRequest := (((c.cleared d.port).copy 0 d.bytes).poke d.len.toNat 0).bytes
          prevRequestLen := d.len.toNat }) := by
  have hlen : ¬ d.len.toNat ≥ prevRequestSize := Nat.not_le.mpr hd.1
  have hbytes : ((Region.mk d.payload []).poke d.len.toNat 0).slice d.len.toNat = d.bytes :=
    slice_poke (Nat.le_refl _)
  have hterminated : ((Region.mk d.payload []).poke d.len.toNat 0).slice (d.len.toNat + 1) =
      d.bytes ++ [0] := by
    rw [slice_succ, hbytes, poke_bytes_self]
  rw [cbUdpConsole]
  dsimp only
  rw [if_neg hlen, if_neg fun h => hd.2 (replay_iff.mp h), hbytes, hterminated]
  rfl

theorem held_snoc_other (hd : ¬ d.IsRequest) :
    held (ds ++ [d]) = (d.port, heldFor ds d.port) := by
  rw [held_snoc, if_neg hd, heldFor]

theorem Inv.step (h : Inv ds c) : Inv (ds ++ [d]) (cbUdpConsole consoleCmd c d).2 := by
  obtain ⟨hsaved, hempty⟩ := @Inv.cleared c ds d h
  rcases Classical.em d.IsRequest with hrequest | hrequest
  · have hheld : held (ds ++ [d]) = (d.port, some d) := by
      rw [held_snoc, if_pos hrequest]
    rw [cbUdpConsole_request hrequest]
    constructor
    · rw [hheld]
    · intro r hr
      rw [hheld] at hr
      obtain rfl := Option.some.inj hr
      have hlength : d.bytes.length = d.len.toNat := slice_length
      refine ⟨rfl, ?_⟩
      rw [← hlength]
      exact slice_copy_poke
    · intro hnone
      rw [hheld] at hnone
      exact absurd hnone (Option.some_ne_none d)
  · have hheld := @held_snoc_other ds d hrequest
    have hconsole : (cbUdpConsole consoleCmd c d).2 = { c with
        stayInBoot := true, addr := d.addr, port := d.port, prevPort := d.port
        prevRequest := (c.cleared d.port).bytes } := by
      rcases Classical.em (d.len.toNat < prevRequestSize) with hlen | hlen
      · have hreplay : d.IsReplay := by
          by_contra hnot
          exact hrequest ⟨hlen, hnot⟩
        rw [cbUdpConsole_replay hreplay]
      · rw [cbUdpConsole_dropped hlen]
    rw [hconsole]
    constructor
    · rw [hheld]
    · rw [hheld]
      exact hsaved
    · rw [hheld]
      exact hempty

theorem after_inv (ds : List Datagram) : Inv ds (after consoleCmd ds) := by
  induction ds using List.reverseRecOn with
  | nil =>
      refine ⟨rfl, ?_, fun _ => rfl⟩
      rintro r ⟨⟩
  | append_singleton ds d ih =>
      rw [after, List.foldl_append]
      exact ih.step

theorem execute_nothing {data : List UInt8} (h : data.getD 0 0 = 0) (lenReq : Nat) :
    execute consoleCmd data lenReq = .nothing := by
  have hhelp : data.take 4 ≠ literal "help" := by
    intro hdata
    cases data with
    | nil => exact absurd hdata (by decide)
    | cons b data =>
        obtain rfl : b = 0 := h
        have hzero : ((0 :: data).take 4).getD 0 0 = 0 := rfl
        rw [hdata] at hzero
        exact absurd hzero (by decide)
  rw [execute, if_neg hhelp, if_neg fun hrun => hrun.2.2 h]

theorem datagram_cases (d : Datagram) :
    ¬ d.len.toNat < prevRequestSize ∨ d.len.toNat < prevRequestSize ∧ d.IsReplay ∨
      d.len.toNat < prevRequestSize ∧ d.IsRequest := by
  rcases Classical.em (d.len.toNat < prevRequestSize) with hlen | hlen
  · rcases Classical.em d.IsReplay with hreplay | hreplay
    · exact .inr (.inl ⟨hlen, hreplay⟩)
    · exact .inr (.inr ⟨hlen, hlen, hreplay⟩)
  · exact .inl hlen

theorem freed_eq : (cbUdpConsole consoleCmd c d).1.freed =
    if d.len.toNat < prevRequestSize then 1 else 0 := by
  rcases datagram_cases d with hlen | ⟨hlen, hreplay⟩ | ⟨hlen, hrequest⟩
  · rw [cbUdpConsole_dropped hlen, if_neg hlen]
  · rw [cbUdpConsole_replay hreplay, if_pos hlen]
  · rw [cbUdpConsole_request hrequest, if_pos hlen]

theorem payload_written : (cbUdpConsole consoleCmd c d).1.payload.written = [d.len.toNat] := by
  rcases datagram_cases d with hlen | ⟨-, hreplay⟩ | ⟨-, hrequest⟩
  · rw [cbUdpConsole_dropped hlen]
    rfl
  · rw [cbUdpConsole_replay hreplay]
    rfl
  · rw [cbUdpConsole_request hrequest]
    rfl

theorem cleared_written {port : UInt16} : ∀ i ∈ (c.cleared port).written, i < prevRequestSize := by
  rw [Console.cleared]
  split_ifs
  · intro i hi
    rw [List.mem_singleton.mp hi]
    decide
  · rintro i ⟨⟩

theorem prevRequest_written :
    ∀ i ∈ (cbUdpConsole consoleCmd c d).1.prevRequest.written, i < prevRequestSize := by
  rcases datagram_cases d with hlen | ⟨-, hreplay⟩ | ⟨hlen, hrequest⟩
  · rw [cbUdpConsole_dropped hlen]
    exact cleared_written
  · rw [cbUdpConsole_replay hreplay]
    exact cleared_written
  · rw [cbUdpConsole_request hrequest]
    intro i hi
    simp only [poke_written, copy_written, List.mem_append, List.mem_singleton,
      List.mem_range'_1, Datagram.bytes, slice_length] at hi
    rcases hi with (hi | hi) | hi
    · exact cleared_written i hi
    · exact (by omega : i < d.len.toNat).trans hlen
    · rwa [hi]

theorem replay_effect (hd : d.IsReplay) (h : Inv ds c) :
    (cbUdpConsole consoleCmd c d).1.effect = some (match heldFor ds d.port with
      | some r => r.effect consoleCmd
      | none => .nothing) := by
  obtain ⟨hsaved, hempty⟩ := @Inv.cleared c ds d h
  rw [cbUdpConsole_replay hd]
  rcases hheld : heldFor ds d.port with _ | r
  · have hzero := hempty hheld
    refine congrArg some (execute_nothing ?_ _)
    rw [Region.slice, List.range_succ_eq_map]
    exact hzero
  · obtain ⟨hlen, hslice⟩ := hsaved r hheld
    rw [hlen, hslice]
    rfl

end

/-! ## Sequences of datagrams -/

/-- Every datagram is consumed as it should be exactly if it is shorter than `prev_request` and
than its buffer, and for a newline no other port has sent since the latest request from its
port, unless that request executes nothing. -/
theorem safe_iff (consoleCmd : List Command) (ds : List Datagram) (d : Datagram) :
    Safe consoleCmd ds d ↔ d.len.toNat < prevRequestSize ∧ d.len.toNat < d.room ∧
      (d.IsReplay → ∀ r, latest ds d.port = some r →
        (∃ before since, ds = before ++ r :: since ∧ ∀ e ∈ since, e.port = d.port) ∨
          r.effect consoleCmd = .nothing) := by
  have hinv := @after_inv consoleCmd ds
  constructor
  · intro h
    have hfreed := h.freed
    rw [freed_eq] at hfreed
    have hlen : d.len.toNat < prevRequestSize := by
      by_contra hnot
      rw [if_neg hnot] at hfreed
      exact absurd hfreed (by decide)
    refine ⟨hlen, h.payload _ (by rw [payload_written]; exact List.mem_cons_self), ?_⟩
    intro hreplay r hlatest
    have heffect := (replay_effect hreplay hinv).symm.trans (h.replay hreplay)
    rw [hlatest] at heffect
    rcases hheld : heldFor ds d.port with _ | r'
    · rw [hheld] at heffect
      exact .inr (Option.some.inj heffect).symm
    · obtain ⟨hlatest', hsince⟩ := heldFor_some hheld
      obtain rfl := Option.some.inj (hlatest.symm.trans hlatest')
      exact .inl hsince
  · rintro ⟨hlen, hroom, hreplay⟩
    constructor
    · rw [freed_eq, if_pos hlen]
    · rw [payload_written]
      intro i hi
      rwa [List.mem_singleton.mp hi]
    · exact prevRequest_written
    · intro hd
      rw [replay_effect hd hinv]
      rcases hheld : heldFor ds d.port with _ | r
      · -- nothing is saved: there was no request, or it is to execute nothing
        rcases hlatest : latest ds d.port with _ | r
        · rfl
        · rcases hreplay hd r hlatest with ⟨before, since, rfl, hsince⟩ | hnothing
          · have hmem := List.mem_filter.mp (List.mem_of_getLast? hlatest)
            obtain ⟨hport, hrequest⟩ := of_decide_eq_true hmem.2
            rw [← hport] at hheld hsince
            exact absurd hheld (heldFor_ne_none hrequest hsince)
          · exact congrArg some hnothing.symm
      · rw [(heldFor_some hheld).1]

theorem longDatagram_len : (256 : UInt16).toNat ≤ 558 := by decide

/-- 256 bytes in a buffer of 558. -/
def longDatagram : Datagram where
  payload := fun _ => 65
  len := 256
  room := 558
  addr := 0
  port := 50000
  len_le := longDatagram_len

theorem not_safe_longDatagram : ¬ Safe [⟨literal "fw", true⟩] [] longDatagram := by
  intro h
  have hfreed := h.freed
  rw [freed_eq] at hfreed
  exact absurd hfreed (by decide)

end ShGateway.ConsoleRequest
