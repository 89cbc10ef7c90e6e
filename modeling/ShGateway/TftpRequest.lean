import ShGateway.Lib.Scan
import ShGateway.SessionTargets
import ShGateway.TftpRead

/-!
Requests on port 69 with every byte that is read or written for them:
`process_tftp_request` and what it calls.
-/

namespace ShGateway.TftpRequest

open ShGateway.AppFiles
open ShGateway.Crc
open ShGateway.FwHeader
open ShGateway.GatewayFiles
open ShGateway.Lib.Scan
open ShGateway.Platform
open ShGateway.SdoFlasher
open ShGateway.SessionTargets
open ShGateway.TftpRead
open ShGateway.TftpServer
open ShGateway.TftpSessions (Firmware requestSession)
open ShGateway.TftpUtils

/-- What `udp_new` and `udp_bind` return, and whether `mem_malloc` finds memory. -/
structure Resources where
  udpNew : Bool
  udpBind : Bool
  heap : Bool

/-- What a request does outside its local variables, and to `file_name` and the datagram. -/
inductive Action
  | readPayload (i : Nat)
  | writeName (i : Nat)
  | newPcb
  | removePcb
  | eraseFlagReset
  | setWrite (f : WriteCb)
  | setRead (f : ReadCb)
  | setNdFwCb (t : FwType)
  | setSdoFlasherId (id : UInt8)
  | sendError (err : Int)
  | start
deriving DecidableEq, Repr

/-- The action starts a transfer, or is a part of selecting a file for one. -/
def Action.Selects : Action → Prop
  | .eraseFlagReset | .setWrite _ | .setRead _ | .setNdFwCb _ | .setSdoFlasherId _ | .start => True
  | _ => False

/-! ## The request -/

def tftpServerCheckFile (isWrite : Bool) (fileName : List UInt8) : Int × List Action :=
  if fileName = literal "sh_gw_ldr" ∧ isWrite = true then
    (0, [.eraseFlagReset, .setWrite .gwLdr])
  else
    match (if isWrite then none else findGwRd fileName) with
    | some t => (0, [.setRead (.gw t)])
    | none =>
        match findNd fileName with
        | none => (1, [])
        | some (t, rest) =>
            let id := getCanId rest
            if id = 0 then (1, [])
            else (0, [.setSdoFlasherId id, .setRead .nd, .setWrite (ndWriteCb t), .setNdFwCb t])

/-- The part that `tftp_process_read` and `tftp_process_write` have in common, with the error
for a file that is refused. -/
def processFile (isWrite : Bool) (refused : Int) (fileName : List UInt8) (heap : Bool) :
    List Action :=
  match tftpServerCheckFile isWrite fileName with
  | (0, actions) =>
      actions ++ if heap then [.start] else [.sendError tftpErrNotdefined, .removePcb]
  | (_, actions) => actions ++ [.sendError refused, .removePcb]

/-- `tftp_process_read` up to its first block. -/
def tftpProcessRead : List UInt8 → Bool → List Action := processFile false tftpErrFileNotFound

def tftpProcessWrite : List UInt8 → Bool → List Action := processFile true tftpErrNotdefined

/-- `tftp_extract_filename`: what `strcpy` reads and writes. -/
def tftpExtractFilename (payload : Nat → UInt8) : List Action :=
  (visited (fun b => decide (b = 0)) payload 65536 2).flatMap fun i =>
    [.readPayload i, .writeName (i - 2)]

def processTftpRequest (d : Datagram) (res : Resources) : List Action :=
  .readPayload 1 ::
    if res.udpNew then
      .newPcb ::
        if res.udpBind then
          let fileName := TftpUtils.tftpExtractFilename d.payload
          match tftpDecodeOp d.payload with
          | .rrq => tftpExtractFilename d.payload ++ tftpProcessRead fileName res.heap
          | .wrq => tftpExtractFilename d.payload ++ tftpProcessWrite fileName res.heap
          | _ => [.sendError tftpErrAccessViolation, .removePcb]
        else []
    else []

/-! ## Bounds -/

/-- The bytes of a datagram in its first pbuf. -/
def bytes (d : Datagram) : List UInt8 := (List.range d.len).map d.payload

def opcode (isWrite : Bool) : UInt8 := if isWrite then 2 else 1

/-- The datagram is a request for a file that is there: an opcode, and a file name that fits
its buffer and ends inside the datagram. -/
def WellFormed (d : Datagram) : Prop :=
  ∃ isWrite fileName rest,
    bytes d = 0 :: opcode isWrite :: (fileName ++ 0 :: rest) ∧ 0 ∉ fileName ∧
      fileName.length ≤ 31 ∧ (tftpServerCheckFile isWrite fileName).1 = 0

/-- A transfer is only started for a well-formed request, everything else leaves nothing
behind, and no byte is touched outside the datagram and the name. -/
structure Bounded (d : Datagram) (res : Resources) : Prop where
  started : .start ∈ processTftpRequest d res → WellFormed d
  refused : ¬ WellFormed d → ∀ a ∈ processTftpRequest d res, ¬ a.Selects
  removed : ¬ WellFormed d → .newPcb ∈ processTftpRequest d res →
    .removePcb ∈ processTftpRequest d res
  reads : ∀ i, .readPayload i ∈ processTftpRequest d res → i < d.len
  writes : ∀ i, .writeName i ∈ processTftpRequest d res → i < 32

/-- The name in the datagram ends there and fits its buffer, and the first byte is zero in
case the file is there. -/
def NameFits (d : Datagram) (isWrite : Bool) : Prop :=
  ∃ fileName rest, (bytes d).drop 2 = fileName ++ 0 :: rest ∧ 0 ∉ fileName ∧
    fileName.length ≤ 31 ∧ ((tftpServerCheckFile isWrite fileName).1 = 0 → d.payload 0 = 0)

/-- There is an opcode; and where a pcb is created, it is bound or the request is well formed,
and the name of a request fits. -/
def Harmless (d : Datagram) (res : Resources) : Prop :=
  2 ≤ d.len ∧
    (res.udpNew = true →
      if res.udpBind then ∀ isWrite, d.payload 1 = opcode isWrite → NameFits d isWrite
      else WellFormed d)

section

variable {d : Datagram} {res : Resources} {isWrite : Bool} {fileName rest : List UInt8} {k : Nat}

/-! ### The file -/

theorem tftpServerCheckFile_cases (isWrite : Bool) (fileName : List UInt8) :
    (∃ a actions, tftpServerCheckFile isWrite fileName = (0, a :: actions) ∧
        ∀ b ∈ a :: actions, b.Selects) ∨
      tftpServerCheckFile isWrite fileName = (1, []) := by
  rw [tftpServerCheckFile]
  rcases Classical.em (fileName = literal "sh_gw_ldr" ∧ isWrite = true) with hldr | hldr
  · rw [if_pos hldr]
    refine .inl ⟨_, _, rfl, ?_⟩
    rintro a (_ | ⟨_, _ | ⟨_, ⟨⟩⟩⟩)
    · trivial
    · trivial
  rw [if_neg hldr]
  rcases (if isWrite then none else findGwRd fileName) with _ | t
  · rcases findNd fileName with _ | ⟨t, rest⟩
    · exact .inr rfl
    · rcases Classical.em (getCanId rest = 0) with hid | hid
      · refine .inr ?_
        dsimp only
        rw [if_pos hid]
      · refine .inl ?_
        dsimp only
        rw [if_neg hid]
        refine ⟨_, _, rfl, ?_⟩
        rintro a (_ | ⟨_, _ | ⟨_, _ | ⟨_, _ | ⟨_, ⟨⟩⟩⟩⟩⟩)
        · trivial
        · trivial
        · trivial
        · trivial
  · refine .inl ⟨_, _, rfl, ?_⟩
    rintro a (_ | ⟨_, ⟨⟩⟩)
    trivial

theorem processFile_accepted {actions : List Action}
    (h : tftpServerCheckFile isWrite fileName = (0, actions)) (refused : Int) (heap : Bool) :
    processFile isWrite refused fileName heap =
      actions ++ if heap then [.start] else [.sendError tftpErrNotdefined, .removePcb] := by
  rw [processFile, h]
  rfl

theorem processFile_refused (h : tftpServerCheckFile isWrite fileName = (1, []))
    (refused : Int) (heap : Bool) :
    processFile isWrite refused fileName heap = [.sendError refused, .removePcb] := by
  rw [processFile, h]
  rfl

theorem processFile_touches (isWrite : Bool) (refused : Int) (fileName : List UInt8) (heap : Bool) :
    ∀ i, .readPayload i ∉ processFile isWrite refused fileName heap ∧
      .writeName i ∉ processFile isWrite refused fileName heap := by
  intro i
  rcases tftpServerCheckFile_cases isWrite fileName with ⟨a, actions, hcheck, hall⟩ | hcheck
  · rw [processFile_accepted hcheck]
    constructor
    · intro hmem
      rcases List.mem_append.mp hmem with hmem | hmem
      · exact hall _ hmem
      · cases heap <;> simp at hmem
    · intro hmem
      rcases List.mem_append.mp hmem with hmem | hmem
      · exact hall _ hmem
      · cases heap <;> simp at hmem
  · rw [processFile_refused hcheck]
    simp

/-! ### The name -/

theorem getElem?_drop_bytes (d : Datagram) (j : Nat) :
    ((bytes d).drop 2)[j]? = if 2 + j < d.len then some (d.payload (2 + j)) else none := by
  rw [List.getElem?_drop, bytes, List.getElem?_map]
  split_ifs with hj
  · rw [List.getElem?_range hj]
    rfl
  · rw [List.getElem?_eq_none (by rw [List.length_range]; omega)]
    rfl

theorem stringAt_eq {payload : Nat → UInt8} {s : List UInt8} {n i : Nat}
    (hs : ∀ j, j < s.length → s[j]? = some (payload (i + j))) (hnul : 0 ∉ s)
    (hend : payload (i + s.length) = 0) (hn : s.length < n) : stringAt payload n i = s := by
  induction s generalizing n i with
  | nil =>
      obtain ⟨n, rfl⟩ := Nat.exists_eq_add_of_lt hn
      exact if_pos hend
  | cons b s ih =>
      obtain ⟨n, rfl⟩ := Nat.exists_eq_add_of_lt hn
      have hhead : payload i = b := (Option.some.inj (hs 0 (Nat.succ_pos _))).symm
      have hne : payload i ≠ 0 := by
        rw [hhead]
        rintro rfl
        exact hnul List.mem_cons_self
      rw [stringAt, if_neg hne, hhead, ih]
      · intro j hj
        rw [Nat.add_assoc, Nat.add_comm 1 j]
        exact hs (j + 1) (Nat.succ_lt_succ hj)
      · exact fun hmem => hnul (List.mem_cons_of_mem b hmem)
      · rw [Nat.add_assoc, Nat.add_comm 1]
        exact hend
      · rw [List.length_cons] at *
        omega

theorem name_facts (h : (bytes d).drop 2 = fileName ++ 0 :: rest) :
    2 + fileName.length < d.len ∧ d.payload (2 + fileName.length) = 0 ∧
      ∀ j, j < fileName.length → fileName[j]? = some (d.payload (2 + j)) := by
  have hnul := getElem?_drop_bytes d fileName.length
  rw [h, List.getElem?_append_right le_rfl, Nat.sub_self, List.getElem?_cons_zero] at hnul
  split_ifs at hnul with hlt
  refine ⟨hlt, (Option.some.inj hnul).symm, fun j hj => ?_⟩
  have hget := getElem?_drop_bytes d j
  rw [h, List.getElem?_append_left hj, if_pos (by omega)] at hget
  exact hget

theorem extractFilename_eq (h : (bytes d).drop 2 = fileName ++ 0 :: rest) (hnul : 0 ∉ fileName) :
    TftpUtils.tftpExtractFilename d.payload = fileName := by
  obtain ⟨hlt, hend, hname⟩ := name_facts h
  have hlen := d.len_le
  have htot := d.totLen_lt
  exact stringAt_eq hname hnul hend (by omega)

theorem mem_extract_read {payload : Nat → UInt8} :
    .readPayload k ∈ tftpExtractFilename payload ↔
      k ∈ visited (fun b => decide (b = 0)) payload 65536 2 := by
  simp [tftpExtractFilename]

theorem mem_extract_write {payload : Nat → UInt8} :
    .writeName k ∈ tftpExtractFilename payload ↔
      ∃ i ∈ visited (fun b => decide (b = 0)) payload 65536 2, k = i - 2 := by
  simp [tftpExtractFilename]

theorem not_selects_extract {payload : Nat → UInt8} :
    ∀ a ∈ tftpExtractFilename payload, ¬ a.Selects := by
  intro a ha
  obtain ⟨i, -, hi⟩ := List.mem_flatMap.mp ha
  rcases hi with _ | ⟨_, _ | ⟨_, ⟨⟩⟩⟩
  · exact id
  · exact id

theorem visited_le (h : (bytes d).drop 2 = fileName ++ 0 :: rest)
    (hk : k ∈ visited (fun b => decide (b = 0)) d.payload 65536 2) :
    k ≤ 2 + fileName.length := by
  obtain ⟨-, hend, -⟩ := name_facts h
  obtain ⟨-, -, hbefore⟩ := mem_visited.mp hk
  by_contra hlt
  have hgo := hbefore (2 + fileName.length) (by omega) (by omega)
  exact of_decide_eq_false hgo hend

theorem exists_name (hlen : 2 ≤ d.len)
    (hreads : ∀ k ∈ visited (fun b => decide (b = 0)) d.payload 65536 2, k < d.len) :
    ∃ fileName rest, (bytes d).drop 2 = fileName ++ 0 :: rest ∧ 0 ∉ fileName := by
  apply List.eq_append_cons_of_mem
  by_contra hnone
  refine Nat.lt_irrefl d.len (hreads d.len (mem_visited.mpr ⟨hlen, ?_, fun j hle hlt => ?_⟩))
  · have htot := d.totLen_lt
    have hle := d.len_le
    omega
  · refine decide_eq_false fun hzero => hnone ?_
    refine List.mem_of_getElem? (i := j - 2) ?_
    rw [getElem?_drop_bytes, if_pos (by omega), Nat.add_sub_cancel' hle, hzero]

theorem name_length_le (h : (bytes d).drop 2 = fileName ++ 0 :: rest) (hnul : 0 ∉ fileName)
    (hwrites : ∀ k ∈ visited (fun b => decide (b = 0)) d.payload 65536 2, k - 2 < 32) :
    fileName.length ≤ 31 := by
  obtain ⟨hlt, -, hname⟩ := name_facts h
  by_contra hlong
  have hvisited : 34 ∈ visited (fun b => decide (b = 0)) d.payload 65536 2 := by
    refine mem_visited.mpr ⟨by omega, by omega, fun j hle hj => decide_eq_false fun hzero => ?_⟩
    have hget := hname (j - 2) (by omega)
    rw [Nat.add_sub_cancel' hle, hzero] at hget
    exact hnul (List.mem_of_getElem? hget)
  exact absurd (hwrites 34 hvisited) (by decide)

/-! ### The request -/

theorem opcode_injective {u v : Bool} (h : opcode u = opcode v) : u = v := by
  revert u v
  decide

theorem bytes_eq (hlen : 2 ≤ d.len) :
    bytes d = d.payload 0 :: d.payload 1 :: (bytes d).drop 2 := by
  rw [bytes]
  obtain ⟨n, hn⟩ := Nat.exists_eq_add_of_le' hlen
  rw [hn, List.range_succ_eq_map, List.range_succ_eq_map]
  rfl

theorem WellFormed.facts (h : WellFormed d) :
    2 ≤ d.len ∧ d.payload 0 = 0 ∧ ∃ isWrite fileName rest, d.payload 1 = opcode isWrite ∧
      (bytes d).drop 2 = fileName ++ 0 :: rest ∧ 0 ∉ fileName ∧
        (tftpServerCheckFile isWrite fileName).1 = 0 := by
  obtain ⟨isWrite, fileName, rest, hbytes, hnul, -, haccepted⟩ := h
  have hlen : 2 ≤ d.len := by
    have hlength := congrArg List.length hbytes
    rw [bytes, List.length_map, List.length_range] at hlength
    simp only [List.length_cons] at hlength
    omega
  have hcons := (bytes_eq hlen).symm.trans hbytes
  obtain ⟨hzero, hcons⟩ := List.cons.inj hcons
  obtain ⟨hop, hdrop⟩ := List.cons.inj hcons
  exact ⟨hlen, hzero, isWrite, fileName, rest, hop, hdrop, hnul, haccepted⟩

theorem wellFormed_iff (hlen : 2 ≤ d.len) (hop : d.payload 1 = opcode isWrite)
    (hname : (bytes d).drop 2 = fileName ++ 0 :: rest) (hnul : 0 ∉ fileName)
    (hfits : fileName.length ≤ 31) :
    WellFormed d ↔ d.payload 0 = 0 ∧ (tftpServerCheckFile isWrite fileName).1 = 0 := by
  constructor
  · intro h
    obtain ⟨-, hzero, u, name, rest', hop', hname', hnul', haccepted⟩ := h.facts
    obtain rfl := opcode_injective (hop.symm.trans hop')
    obtain rfl := (extractFilename_eq hname hnul).symm.trans (extractFilename_eq hname' hnul')
    exact ⟨hzero, haccepted⟩
  · rintro ⟨hzero, haccepted⟩
    refine ⟨isWrite, fileName, rest, ?_, hnul, hfits, haccepted⟩
    rw [bytes_eq hlen, hzero, hop, hname]

theorem tftpDecodeOp_eq (hop : d.payload 1 = opcode isWrite) :
    tftpDecodeOp d.payload = if isWrite then .wrq else .rrq := by
  rw [tftpDecodeOp, hop]
  cases isWrite <;> rfl

/-- The error for a file that is refused. -/
def refusal (isWrite : Bool) : Int := if isWrite then tftpErrNotdefined else tftpErrFileNotFound

theorem processTftpRequest_file (hnew : res.udpNew = true) (hbind : res.udpBind = true)
    (hop : d.payload 1 = opcode isWrite) :
    processTftpRequest d res =
      .readPayload 1 :: .newPcb :: (tftpExtractFilename d.payload ++
        processFile isWrite (refusal isWrite) (TftpUtils.tftpExtractFilename d.payload)
          res.heap) := by
  rw [processTftpRequest, if_pos hnew, if_pos hbind, tftpDecodeOp_eq hop]
  cases isWrite with
  | true => rfl
  | false => rfl

theorem tftpDecodeOp_ne (hop : ∀ isWrite, d.payload 1 ≠ opcode isWrite) :
    tftpDecodeOp d.payload ≠ .rrq ∧ tftpDecodeOp d.payload ≠ .wrq := by
  rw [tftpDecodeOp]
  split
  · next h => exact absurd h (hop false)
  · next h => exact absurd h (hop true)
  all_goals simp

theorem processTftpRequest_other (hnew : res.udpNew = true) (hbind : res.udpBind = true)
    (hop : ∀ isWrite, d.payload 1 ≠ opcode isWrite) :
    processTftpRequest d res =
      [.readPayload 1, .newPcb, .sendError tftpErrAccessViolation, .removePcb] := by
  rw [processTftpRequest, if_pos hnew, if_pos hbind]
  dsimp only
  split
  · next h => exact absurd h (tftpDecodeOp_ne hop).1
  · next h => exact absurd h (tftpDecodeOp_ne hop).2
  · rfl

theorem processTftpRequest_noPcb (hnew : ¬ res.udpNew = true) :
    processTftpRequest d res = [.readPayload 1] := by
  rw [processTftpRequest, if_neg hnew]

theorem processTftpRequest_unbound (hnew : res.udpNew = true) (hbind : ¬ res.udpBind = true) :
    processTftpRequest d res = [.readPayload 1, .newPcb] := by
  rw [processTftpRequest, if_pos hnew, if_neg hbind]

theorem Bounded.two_le (h : Bounded d res) : 2 ≤ d.len :=
  h.reads 1 List.mem_cons_self

/-! ### When a request is bounded -/

theorem bounded_noPcb (hlen : 2 ≤ d.len) (hnew : ¬ res.udpNew = true) : Bounded d res := by
  have hrun := processTftpRequest_noPcb (d := d) hnew
  constructor
  · rw [hrun]
    intro hstart
    simp at hstart
  · rw [hrun]
    rintro - a (_ | ⟨_, ⟨⟩⟩)
    exact id
  · rw [hrun]
    intro _ hpcb
    simp at hpcb
  · rw [hrun]
    rintro i (_ | ⟨_, ⟨⟩⟩)
    exact hlen
  · rw [hrun]
    rintro i (_ | ⟨_, ⟨⟩⟩)

theorem bounded_unbound_iff (hlen : 2 ≤ d.len) (hnew : res.udpNew = true)
    (hbind : ¬ res.udpBind = true) : Bounded d res ↔ WellFormed d := by
  have hrun := processTftpRequest_unbound (d := d) hnew hbind
  constructor
  · intro h
    by_contra hnot
    have hremoved := h.removed hnot
    rw [hrun] at hremoved
    simp at hremoved
  · intro hwf
    refine ⟨fun _ => hwf, fun hnot => absurd hwf hnot, fun hnot => absurd hwf hnot, ?_, ?_⟩
    · rw [hrun]
      rintro i (_ | ⟨_, _ | ⟨_, ⟨⟩⟩⟩)
      exact hlen
    · rw [hrun]
      rintro i (_ | ⟨_, _ | ⟨_, ⟨⟩⟩⟩)

theorem bounded_other (hlen : 2 ≤ d.len) (hnew : res.udpNew = true) (hbind : res.udpBind = true)
    (hop : ∀ isWrite, d.payload 1 ≠ opcode isWrite) : Bounded d res := by
  have hrun := processTftpRequest_other hnew hbind hop
  constructor
  · rw [hrun]
    intro hstart
    simp at hstart
  · rw [hrun]
    rintro - a (_ | ⟨_, _ | ⟨_, _ | ⟨_, _ | ⟨_, ⟨⟩⟩⟩⟩⟩)
    · exact id
    · exact id
    · exact id
    · exact id
  · rw [hrun]
    intro _ _
    simp
  · rw [hrun]
    intro i hi
    obtain rfl : i = 1 := by simpa using hi
    exact hlen
  · rw [hrun]
    intro i hi
    simp at hi

theorem touches_iff (hnew : res.udpNew = true) (hbind : res.udpBind = true)
    (hop : d.payload 1 = opcode isWrite) (hlen : 2 ≤ d.len) :
    ((∀ i, .readPayload i ∈ processTftpRequest d res → i < d.len) ↔
        ∀ i ∈ visited (fun b => decide (b = 0)) d.payload 65536 2, i < d.len) ∧
      ((∀ i, .writeName i ∈ processTftpRequest d res → i < 32) ↔
        ∀ i ∈ visited (fun b => decide (b = 0)) d.payload 65536 2, i - 2 < 32) := by
  rw [processTftpRequest_file hnew hbind hop]
  have htouches := processFile_touches isWrite (refusal isWrite)
    (TftpUtils.tftpExtractFilename d.payload) res.heap
  refine ⟨forall_congr' fun i => ?_, ?_⟩
  · simp only [List.mem_cons, List.mem_append, mem_extract_read, (htouches i).1, or_false,
      reduceCtorEq, false_or, Action.readPayload.injEq]
    constructor
    · exact fun h hi => h (.inr hi)
    · rintro h (rfl | hi)
      · exact hlen
      · exact h hi
  · simp only [List.mem_cons, List.mem_append, mem_extract_write, (htouches _).2, or_false,
      reduceCtorEq, false_or]
    constructor
    · exact fun h i hi => h (i - 2) ⟨i, hi, rfl⟩
    · rintro h k ⟨i, hi, rfl⟩
      exact h i hi

theorem bounded_file_iff (hlen : 2 ≤ d.len) (hnew : res.udpNew = true)
    (hbind : res.udpBind = true) (hop : d.payload 1 = opcode isWrite) :
    Bounded d res ↔ NameFits d isWrite := by
  obtain ⟨hreads, hwrites⟩ := touches_iff hnew hbind hop hlen
  have hrun := processTftpRequest_file hnew hbind hop
  constructor
  · intro h
    obtain ⟨fileName, rest, hname, hnul⟩ := exists_name hlen (hreads.mp h.reads)
    have hfits := name_length_le hname hnul (hwrites.mp h.writes)
    refine ⟨fileName, rest, hname, hnul, hfits, fun haccepted => ?_⟩
    by_contra hzero
    have hnot : ¬ WellFormed d := fun hwf =>
      hzero ((wellFormed_iff hlen hop hname hnul hfits).mp hwf).1
    have hrefused := h.refused hnot
    rw [hrun, extractFilename_eq hname hnul] at hrefused
    rcases tftpServerCheckFile_cases isWrite fileName with ⟨a, actions, hcheck, hall⟩ | hcheck
    · rw [processFile_accepted hcheck] at hrefused
      exact hrefused a (by simp) (hall a List.mem_cons_self)
    · rw [hcheck] at haccepted
      exact absurd haccepted (by decide)
  · rintro ⟨fileName, rest, hname, hnul, hfits, hzero⟩
    have hwf := wellFormed_iff hlen hop hname hnul hfits
    have hbound := (name_facts hname).1
    have htouched := hreads.mpr fun i hi => (visited_le hname hi).trans_lt hbound
    have hwritten := hwrites.mpr fun i hi => by
      have hle := visited_le hname hi
      omega
    rcases tftpServerCheckFile_cases isWrite fileName with ⟨a, actions, hcheck, -⟩ | hcheck
    · have hwell : WellFormed d := hwf.mpr (by
        rw [hcheck] at hzero ⊢
        exact ⟨hzero rfl, rfl⟩)
      exact ⟨fun _ => hwell, fun hnot => absurd hwell hnot, fun hnot => absurd hwell hnot,
        htouched, hwritten⟩
    · have hactions : ∀ a ∈ processTftpRequest d res, ¬ a.Selects := by
        rw [hrun, extractFilename_eq hname hnul, processFile_refused hcheck]
        intro a ha
        rcases ha with _ | ⟨_, _ | ⟨_, ha⟩⟩
        · exact id
        · exact id
        · rcases List.mem_append.mp ha with ha | _ | ⟨_, _ | ⟨_, ⟨⟩⟩⟩
          · exact not_selects_extract a ha
          · exact id
          · exact id
      refine ⟨fun hstart => absurd trivial (hactions _ hstart), fun _ => hactions, fun _ _ => ?_,
        htouched, hwritten⟩
      rw [hrun, extractFilename_eq hname hnul, processFile_refused hcheck]
      simp

/-- A request is bounded exactly if its datagram is harmless. -/
theorem bounded_iff (d : Datagram) (res : Resources) : Bounded d res ↔ Harmless d res := by
  rcases Classical.em (2 ≤ d.len) with hlen | hlen
  · rcases Classical.em (res.udpNew = true) with hnew | hnew
    · rcases Classical.em (res.udpBind = true) with hbind | hbind
      · rw [Harmless, if_pos hbind]
        rcases Classical.em (∃ isWrite, d.payload 1 = opcode isWrite) with ⟨isWrite, hop⟩ | hop
        · rw [bounded_file_iff hlen hnew hbind hop]
          constructor
          · intro hfits
            refine ⟨hlen, fun _ u hu => ?_⟩
            obtain rfl := opcode_injective (hop.symm.trans hu)
            exact hfits
          · exact fun h => h.2 hnew isWrite hop
        · have hother := not_exists.mp hop
          exact iff_of_true (bounded_other hlen hnew hbind hother)
            ⟨hlen, fun _ u hu => absurd hu (hother u)⟩
      · rw [bounded_unbound_iff hlen hnew hbind, Harmless, if_neg hbind]
        exact ⟨fun hwf => ⟨hlen, fun _ => hwf⟩, fun h => h.2 hnew⟩
    · exact iff_of_true (bounded_noPcb hlen hnew) ⟨hlen, fun h => absurd h hnew⟩
  · exact iff_of_false (fun h => hlen h.two_le) fun h => hlen h.1

end

theorem longName_lt : 43 < 65536 := by decide

/-- A read request with a name of 40 characters. -/
def longName : Datagram where
  source := ⟨0, 0⟩
  payload := fun i => ([0, 1] ++ List.replicate 40 97 ++ [0] : List UInt8).getD i 0
  len := 43
  totLen := 43
  len_le := Nat.le_refl 43
  totLen_lt := longName_lt

theorem not_bounded_longName : ¬ Bounded longName ⟨true, true, true⟩ := by
  rintro ⟨-, -, -, -, hwrites⟩
  have hwritten : 34 ∈ visited (fun b => decide (b = 0)) longName.payload 65536 2 := by
    decide +kernel
  refine absurd (hwrites 32 ?_) (by decide)
  rw [@processTftpRequest_file longName ⟨true, true, true⟩ false rfl rfl rfl]
  refine List.mem_cons_of_mem _ (List.mem_cons_of_mem _ (List.mem_append_left _ ?_))
  exact mem_extract_write.mpr ⟨34, hwritten, rfl⟩

/-! ## The variables that a request sets -/

section

variable {β : Type*}

/-- What an action does to the application. -/
def Action.apply (w : AppWorld β) : Action → AppWorld β
  | .eraseFlagReset =>
      { w with images := { w.images with dev := platformFlashEraseFlagReset w.images.dev } }
  | .setWrite f => { w with cbWrite := some f }
  | .setRead f => { w with cbRead := some f }
  | .setNdFwCb t => { w with ndFwCb := some t }
  | .setSdoFlasherId id => { w with sdoFlasherId := id }
  | _ => w

variable {w w' : AppWorld β}

/-- The actions of `tftp_server_check_file` are all that it does after the check of the
images. -/
theorem tftpServerCheckFile_run (unit : CrcUnit) (lits : NameLiterals) (isWrite : Bool)
    (fileName : List UInt8) (w : AppWorld β) :
    AppFiles.tftpServerCheckFile unit lits isWrite fileName w =
      ((tftpServerCheckFile isWrite fileName).1,
        (tftpServerCheckFile isWrite fileName).2.foldl Action.apply (checked unit lits w)) := by
  rw [AppFiles.tftpServerCheckFile, tftpServerCheckFile]
  rcases Classical.em (fileName = literal "sh_gw_ldr" ∧ isWrite = true) with hldr | hldr
  · simp only [if_pos hldr, List.foldl_cons, List.foldl_nil, Action.apply, checked]
  simp only [if_neg hldr]
  rcases (if isWrite then none else findGwRd fileName) with _ | t
  · rcases findNd fileName with _ | ⟨t, rest⟩
    · simp only [List.foldl_nil, checked]
    · dsimp only
      rcases Classical.em (getCanId rest = 0) with hid | hid
      · simp only [if_pos hid, List.foldl_nil, checked]
      · simp only [if_neg hid, List.foldl_cons, List.foldl_nil, Action.apply, checked]
  · simp only [List.foldl_cons, List.foldl_nil, Action.apply, checked]

theorem selection_apply (h : selection w = selection w') (a : Action) :
    selection (a.apply w) = selection (a.apply w') := by
  simp only [selection, Prod.mk.injEq] at h
  obtain ⟨hwrite, hread, hnd, hid⟩ := h
  cases a <;> simp [Action.apply, selection, hwrite, hread, hnd, hid]

theorem selection_foldl (h : selection w = selection w') (actions : List Action) :
    selection (actions.foldl Action.apply w) = selection (actions.foldl Action.apply w') := by
  induction actions generalizing w w' with
  | nil => exact h
  | cons a actions ih => exact ih (selection_apply h a)

theorem foldl_apply_extract (payload : Nat → UInt8) (w : AppWorld β) :
    (tftpExtractFilename payload).foldl Action.apply w = w := by
  rw [tftpExtractFilename]
  induction visited (fun b => decide (b = 0)) payload 65536 2 with
  | nil => rfl
  | cons i is ih => exact ih

variable (bus : SdoBus β) (hw : FlashHw) (unit : CrcUnit) (lits : NameLiterals) (d : Datagram)
  (heap : Option ConnectionArgs) (w : AppWorld β)

theorem selection_openRead (dst : Peer) :
    selection (openRead (appCb bus hw unit lits) heap dst w).world = selection w := by
  rcases heap with _ | args
  · rfl
  · rw [openRead, tftpRdSendNextBlock_eq]
    exact (appCb_read_frame bus hw unit lits 0 args.data w).1

theorem selection_openWrite (dst : Peer) :
    selection (openWrite heap dst w).world = selection w := by
  cases heap <;> rfl

theorem processFile_follows {isWrite : Bool} {refused : Int} {fileName : List UInt8}
    {session : Session (AppWorld β)} {w₀ : AppWorld β}
    (haccepted : (tftpServerCheckFile isWrite fileName).1 = 0 →
      selection session.world = selection w₀ ∧ (session.isOpen = true → heap.isSome = true))
    (hrefused : (tftpServerCheckFile isWrite fileName).1 ≠ 0 →
      selection session.world = selection w₀ ∧ session.isOpen = false)
    (hw₀ : selection w₀ =
      selection ((tftpServerCheckFile isWrite fileName).2.foldl Action.apply w)) :
    selection session.world =
        selection ((processFile isWrite refused fileName heap.isSome).foldl Action.apply w) ∧
      (session.isOpen = true → .start ∈ processFile isWrite refused fileName heap.isSome) := by
  rcases tftpServerCheckFile_cases isWrite fileName with ⟨a, actions, hcheck, -⟩ | hcheck
  · rw [processFile_accepted hcheck]
    rw [hcheck] at haccepted hw₀
    obtain ⟨hselection, hopen⟩ := haccepted rfl
    rw [hselection, hw₀, List.foldl_append]
    constructor
    · cases heap <;> rfl
    · intro h
      rw [hopen h]
      simp
  · rw [processFile_refused hcheck]
    rw [hcheck] at hrefused hw₀
    obtain ⟨hselection, hclosed⟩ := hrefused (by decide)
    rw [hselection, hw₀]
    refine ⟨rfl, fun h => ?_⟩
    rw [hclosed] at h
    exact absurd h nofun

theorem requestSession_file {isWrite : Bool} (hop : d.payload 1 = opcode isWrite) :
    requestSession (appFirmware bus hw unit lits) d heap w =
      let check := AppFiles.tftpServerCheckFile unit lits isWrite
        (TftpUtils.tftpExtractFilename d.payload) w
      if check.1 = 0 then
        if isWrite then openWrite heap d.source check.2
        else openRead (appCb bus hw unit lits) heap d.source check.2
      else refuse check.2 d.source (refusal isWrite) ⟨[], 0, 0⟩ := by
  rw [requestSession, tftpDecodeOp_eq hop]
  cases isWrite with
  | true =>
      simp only [if_true, TftpServer.tftpProcessWrite, appFirmware]
      split
      · next h => simp [h]
      · next sts w₁ hsts h =>
          rw [h, if_neg hsts]
          rfl
  | false =>
      simp only [Bool.false_eq_true, if_false, TftpServer.tftpProcessRead, appFirmware]
      split
      · next h => simp [h]
      · next sts w₁ hsts h =>
          rw [h, if_neg hsts]
          rfl

/-- The session of a request selects what its actions select, and is open only if they start a
transfer. -/
theorem requestSession_follows :
    selection (requestSession (appFirmware bus hw unit lits) d heap w).world =
        selection ((processTftpRequest d ⟨true, true, heap.isSome⟩).foldl Action.apply w) ∧
      ((requestSession (appFirmware bus hw unit lits) d heap w).isOpen = true →
        .start ∈ processTftpRequest d ⟨true, true, heap.isSome⟩) := by
  rcases Classical.em (∃ isWrite, d.payload 1 = opcode isWrite) with ⟨isWrite, hop⟩ | hop
  · have hrun := tftpServerCheckFile_run unit lits isWrite
      (TftpUtils.tftpExtractFilename d.payload) w
    have hfollows := @processFile_follows β heap w isWrite (refusal isWrite)
      (TftpUtils.tftpExtractFilename d.payload)
      (requestSession (appFirmware bus hw unit lits) d heap w)
      (AppFiles.tftpServerCheckFile unit lits isWrite
        (TftpUtils.tftpExtractFilename d.payload) w).2 ?_ ?_ ?_
    · rw [processTftpRequest_file rfl rfl hop]
      simp only [List.foldl_cons, List.foldl_append, foldl_apply_extract, List.mem_cons,
        List.mem_append]
      exact ⟨hfollows.1, fun hopen => .inr (.inr (.inr (hfollows.2 hopen)))⟩
    · intro haccepted
      rw [requestSession_file bus hw unit lits d heap w hop]
      dsimp only
      rw [if_pos (by rw [hrun]; exact haccepted)]
      cases isWrite with
      | true =>
          refine ⟨selection_openWrite heap _ d.source, fun hopen => ?_⟩
          cases heap with
          | none => exact hopen
          | some args => rfl
      | false =>
          refine ⟨selection_openRead bus hw unit lits heap _ d.source, fun hopen => ?_⟩
          cases heap with
          | none => exact hopen
          | some args => rfl
    · intro hrefused
      rw [requestSession_file bus hw unit lits d heap w hop]
      dsimp only
      rw [if_neg (by rw [hrun]; exact hrefused)]
      exact ⟨rfl, rfl⟩
    · rw [hrun]
      exact selection_foldl (selection_checked unit lits w) _
  · have hother := not_exists.mp hop
    rw [processTftpRequest_other rfl rfl hother, requestSession]
    split
    · next h => exact absurd h (tftpDecodeOp_ne hother).1
    · next h => exact absurd h (tftpDecodeOp_ne hother).2
    · exact ⟨rfl, nofun⟩

end

end ShGateway.TftpRequest
