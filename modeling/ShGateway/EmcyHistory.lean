import ShGateway.Lib.RingLog

/-!
The history of received emergencies, kept and printed by `CO_driver_app.c`.
-/

namespace ShGateway.EmcyHistory

open ShGateway.Lib.RingLog

/-- What is known of an emergency when it is received, with the system time in milliseconds. -/
structure Emcy where
  timestamp : UInt64 := 0
  ident : UInt16 := 0
  errorCode : UInt16 := 0
  errorRegister : UInt8 := 0
  errorBit : UInt8 := 0
  infoCode : UInt32 := 0
deriving DecidableEq, Repr

/-- An entry of `emcy_stat_buffer`. -/
structure Record extends Emcy where
  valid : Bool := false
deriving DecidableEq, Repr

/-- `emcy_stat_buffer` and `emcy_stat_buffer_ptr`. -/
structure History where
  emcyStatBuffer : Vector Record 64 := Vector.replicate 64 {}
  emcyStatBufferPtr : Fin 64 := 0

def coEmcyRcvCb (h : History) (systemTime : UInt64) (ident errorCode : UInt16)
    (errorRegister errorBit : UInt8) (infoCode : UInt32) : History where
  emcyStatBuffer := h.emcyStatBuffer.set h.emcyStatBufferPtr
    ⟨⟨systemTime, ident, errorCode, errorRegister, errorBit, infoCode⟩, true⟩
  emcyStatBufferPtr :=
    if hlt : h.emcyStatBufferPtr.val + 1 < 64 then ⟨h.emcyStatBufferPtr.val + 1, hlt⟩ else 0

/-- The arguments of a printed line: `DT_DATA_MS` of the timestamp, and what follows it. -/
structure Line where
  days : UInt32
  hours : UInt32
  minutes : UInt32
  seconds : UInt32
  milliseconds : UInt32
  ident : UInt16
  errorCode : UInt16
  errorRegister : UInt8
  errorBit : UInt8
  last : UInt32
deriving DecidableEq, Repr

/-- A line for an emergency with the given last argument. -/
def Emcy.line (e : Emcy) (last : UInt32) : Line where
  days := (e.timestamp / 86400000).toUInt32
  hours := (e.timestamp % 86400000 / 3600000).toUInt32
  minutes := (e.timestamp % 3600000 / 60000).toUInt32
  seconds := (e.timestamp % 60000 / 1000).toUInt32
  milliseconds := (e.timestamp % 1000).toUInt32
  ident := e.ident
  errorCode := e.errorCode
  errorRegister := e.errorRegister
  errorBit := e.errorBit
  last := last

/-- The line `co_emcy_print_hist` prints for an entry. -/
def Emcy.printed (e : Emcy) : Line := e.line e.errorCode.toUInt32

def coEmcyPrintHist (h : History) : List Line :=
  let p := if h.emcyStatBufferPtr.val + 1 ≥ 64 then 0 else h.emcyStatBufferPtr.val + 1
  (walk h.emcyStatBuffer.toList 64 p).filterMap fun r =>
    if r.valid then some r.toEmcy.printed else none

/-- Emergencies received since start. -/
def received (es : List Emcy) : History :=
  es.foldl (fun h e => coEmcyRcvCb h e.timestamp e.ident e.errorCode e.errorRegister e.errorBit
    e.infoCode) {}

/-! ## What the buffer holds -/

/-- An entry that is valid. -/
def Record.entry (r : Record) : Option Emcy := if r.valid then some r.toEmcy else none

theorem received_snoc (es : List Emcy) (e : Emcy) :
    received (es ++ [e]) = coEmcyRcvCb (received es) e.timestamp e.ident e.errorCode
      e.errorRegister e.errorBit e.infoCode := by
  rw [received, received, List.foldl_append]
  rfl

theorem received_window (es : List Emcy) :
    ((received es).emcyStatBuffer.toList.map Record.entry).rotate
      (received es).emcyStatBufferPtr.val = window 64 es := by
  induction es using List.reverseRecOn with
  | nil =>
      rw [window_nil, received, List.foldl_nil, Vector.toList_replicate, List.map_replicate]
      exact List.rotate_zero _
  | append_singleton es e ih =>
      have hlength : ((received es).emcyStatBuffer.toList.map Record.entry).length = 64 := by
        rw [List.length_map, Vector.length_toList]
      have hp := (received es).emcyStatBufferPtr.isLt
      have hwrite := write_window (l := (received es).emcyStatBuffer.toList.map Record.entry)
        (by rwa [hlength]) (by rwa [hlength]) e
      rw [hlength] at hwrite
      have hbuffer : (received (es ++ [e])).emcyStatBuffer.toList.map Record.entry =
          ((received es).emcyStatBuffer.toList.map Record.entry).set
            (received es).emcyStatBufferPtr (some e) := by
        rw [received_snoc, coEmcyRcvCb, Vector.toList_set, List.map_set]
        rfl
      rw [hbuffer, received_snoc, coEmcyRcvCb, ← hwrite]
      dsimp only
      split_ifs with hlt
      · rfl
      · have hend : (received es).emcyStatBufferPtr.val + 1 = 64 := by omega
        have hset := List.rotate_length (((received es).emcyStatBuffer.toList.map
          Record.entry).set (received es).emcyStatBufferPtr (some e))
        rw [List.length_set, hlength] at hset
        rw [hend, hset]
        exact List.rotate_zero _

/-! ## What is printed -/

/-- The last 64 emergencies, or all of them. -/
def recent (es : List Emcy) : List Emcy := es.drop (es.length - 64)

theorem coEmcyPrintHist_received (es : List Emcy) :
    coEmcyPrintHist (received es) =
      if es.length < 64 then (recent es).map Emcy.printed
      else ((recent es).map Emcy.printed).rotate 1 := by
  have hlength : (received es).emcyStatBuffer.toList.length = 64 := Vector.length_toList
  have hp := (received es).emcyStatBufferPtr.isLt
  have hwindow := received_window es
  unfold coEmcyPrintHist
  generalize (received es).emcyStatBufferPtr.val = ptr at hp hwindow ⊢
  generalize (received es).emcyStatBuffer.toList = slots at hlength hwindow ⊢
  -- the walk starts one slot behind the pointer
  have hstart : slots.rotate (if ptr + 1 ≥ 64 then 0 else ptr + 1) = (slots.rotate ptr).rotate 1 := by
    rw [List.rotate_rotate]
    split_ifs with hwrap
    · have hend : ptr + 1 = slots.length := by omega
      rw [hend, List.rotate_length, List.rotate_zero]
    · rfl
  have hlt : (if ptr + 1 ≥ 64 then 0 else ptr + 1) < slots.length := by
    rw [hlength]
    split_ifs <;> omega
  have hwalk := walk_length slots hlt
  rw [hlength] at hwalk
  have hentries : ∀ l : List Record, (l.filterMap fun r =>
      if r.valid then some r.toEmcy.printed else none) =
        ((l.map Record.entry).filterMap id).map Emcy.printed := by
    intro l
    rw [List.filterMap_map, List.map_filterMap]
    congr 1
    funext r
    rcases r with ⟨e, valid⟩
    cases valid <;> rfl
  dsimp only
  rw [hwalk, hstart, hentries, List.map_rotate, List.map_rotate, hwindow, window_rotate_one]
  split_ifs with hroom
  · rw [recent, Nat.sub_eq_zero_of_le hroom.le, List.drop_zero]
  · rw [recent, List.map_rotate]

/-- The emergencies are printed in the order received, with all that was received. -/
def PrintsHistory (es : List Emcy) : Prop :=
  coEmcyPrintHist (received es) = (recent es).map fun e => e.line e.infoCode

theorem printed_eq_iff (e : Emcy) :
    e.printed = e.line e.infoCode ↔ e.infoCode = e.errorCode.toUInt32 := by
  constructor
  · intro h
    exact (congrArg Line.last h).symm
  · intro h
    rw [Emcy.printed, h]

/-- A line with its error code in the last place. -/
def Line.withCode (l : Line) : Line := { l with last := l.errorCode.toUInt32 }

theorem map_printed_iff (es : List Emcy) :
    (es.map Emcy.printed = es.map fun e => e.line e.infoCode) ↔
      ∀ e ∈ es, e.infoCode = e.errorCode.toUInt32 := by
  rw [List.map_inj_left]
  exact forall₂_congr fun e _ => printed_eq_iff e

theorem rotate_printed_iff (es : List Emcy) :
    (((es.map Emcy.printed).rotate 1) = es.map fun e => e.line e.infoCode) ↔
      (∀ e ∈ es, e.infoCode = e.errorCode.toUInt32) ∧
        ∀ e ∈ es, ∀ e' ∈ es, e.printed = e'.printed := by
  have hcode : ∀ last : Emcy → UInt32,
      (es.map fun e => e.line (last e)).map Line.withCode = es.map Emcy.printed := by
    intro last
    rw [List.map_map]
    rfl
  have : Nonempty Line := ⟨Emcy.printed {}⟩
  rw [← map_printed_iff]
  constructor
  · intro h
    -- without the last arguments both sides are the same list
    have hself : (es.map Emcy.printed).rotate 1 = es.map Emcy.printed := by
      have hmap := congrArg (List.map Line.withCode) h
      rw [List.map_rotate, hcode] at hmap
      exact (congrArg (List.rotate · 1) (hcode fun e => e.errorCode.toUInt32).symm).trans hmap
    refine ⟨hself.symm.trans h, ?_⟩
    obtain ⟨line, hline⟩ := List.rotate_one_eq_self_iff_eq_replicate.mp hself
    have hall : ∀ e ∈ es, e.printed = line := by
      intro e he
      exact (List.eq_replicate_iff.mp hline).2 _ (List.mem_map_of_mem he)
    intro e he e' he'
    rw [hall e he, hall e' he']
  · rintro ⟨hmap, hall⟩
    rw [← hmap, List.rotate_one_eq_self_iff_eq_replicate]
    cases es with
    | nil => exact ⟨Emcy.printed {}, rfl⟩
    | cons e es =>
        refine ⟨e.printed, List.eq_replicate_iff.mpr ⟨rfl, ?_⟩⟩
        intro line hline
        obtain ⟨e', he', rfl⟩ := List.mem_map.mp hline
        exact hall e' he' e List.mem_cons_self

/-- The history is printed as received exactly if the info codes are the error codes and, once
the buffer is full, all lines are the same. -/
theorem printsHistory_iff (es : List Emcy) :
    PrintsHistory es ↔ (∀ e ∈ recent es, e.infoCode = e.errorCode.toUInt32) ∧
      (64 ≤ es.length → ∀ e ∈ recent es, ∀ e' ∈ recent es, e.printed = e'.printed) := by
  rw [PrintsHistory, coEmcyPrintHist_received]
  split_ifs with hroom
  · rw [map_printed_iff]
    exact ⟨fun h => ⟨h, fun hfull => absurd hroom (Nat.not_lt.mpr hfull)⟩, And.left⟩
  · rw [rotate_printed_iff]
    exact and_congr_right fun _ => ⟨fun h _ => h, fun h => h (Nat.not_lt.mp hroom)⟩

/-- One emergency with an info code. -/
theorem not_printsHistory_infoCode :
    ¬ PrintsHistory [⟨1000, 0x81, 0x8130, 0x11, 0x1B, 5⟩] := by
  intro h
  have hlast := congrArg (fun lines => lines.map Line.last) h
  exact absurd hlast (by decide +kernel)

end ShGateway.EmcyHistory
