import ShGateway.CanDriver

/-!
The error status that `CO_CANmodule_process` keeps from the error counters of the controller.
-/

namespace ShGateway.CanErrors

open ShGateway.CanDriver

/-! Bits of `CANerrorStatus`. -/

def errTxWarning : UInt16 := 0x0001
def errTxPassive : UInt16 := 0x0002
def errTxBusOff : UInt16 := 0x0004
def errRxWarning : UInt16 := 0x0100
def errRxPassive : UInt16 := 0x0200
def errRxOverflow : UInt16 := 0x0800

/-- The fields of `CO_CANmodule_t` for errors, as they are after `CO_CANmodule_init`. -/
structure ErrorState where
  canErrorStatus : UInt16 := 0
  errOld : UInt32 := 0
  isBusOff : Bool := false
  rxErrCnt : UInt8 := 0
  txErrCnt : UInt8 := 0
  busOffErrCnt : UInt32 := 0
deriving DecidableEq, Repr

/-- The flag and the counters in one word. -/
def packed (isBusOff : Bool) (rxErrCnt txErrCnt : UInt8) : UInt32 :=
  txErrCnt.toUInt32 <<< 16 ||| rxErrCnt.toUInt32 <<< 8 ||| isBusOff.toUInt32

/-- The status of a transmitter that is not off, from the counters. -/
def recalculated (status : UInt16) (rxErrCnt txErrCnt : UInt8) : UInt16 :=
  let status := status &&& (0xFFFF ^^^ (errTxBusOff ||| errRxWarning ||| errRxPassive |||
    errTxWarning ||| errTxPassive))
  let status :=
    if rxErrCnt ≥ 128 then status ||| (errRxWarning ||| errRxPassive)
    else if rxErrCnt ≥ 96 then status ||| errRxWarning
    else status
  let status :=
    if txErrCnt ≥ 128 then status ||| (errTxWarning ||| errTxPassive)
    else if rxErrCnt ≥ 96 then status ||| errTxWarning
    else status
  if status &&& errTxPassive = 0 then status &&& (0xFFFF ^^^ errTxOverflow) else status

/-- `CO_CANmodule_process` with what it reads from the controller. -/
def coCANmoduleProcess (s : ErrorState) (isBusOff : Bool) (rxErrCnt txErrCnt : UInt8) :
    ErrorState :=
  let s := { s with isBusOff, rxErrCnt, txErrCnt }
  let s := if isBusOff then { s with busOffErrCnt := s.busOffErrCnt + 1 } else s
  let err := packed isBusOff rxErrCnt txErrCnt
  if s.errOld ≠ err then
    let status :=
      if txErrCnt = 0xFF then s.canErrorStatus ||| errTxBusOff
      else recalculated s.canErrorStatus rxErrCnt txErrCnt
    let status := if isBusOff then status ||| errRxOverflow else status
    { s with canErrorStatus := status, errOld := err }
  else s

/-- What `CO_CANmodule_process` may find in the registers, with the transmit counter below 255. -/
structure Counters where
  isBusOff : Bool
  rxErrCnt : UInt8
  txErrCnt : UInt8
  txErrCnt_ne : txErrCnt ≠ 0xFF

/-- Calls of `CO_CANmodule_process`, and the bits that sending sets between them. -/
inductive Event
  | process (c : Counters)
  | txOverflow
  | txPdoLate

def step (s : ErrorState) : Event → ErrorState
  | .process c => coCANmoduleProcess s c.isBusOff c.rxErrCnt c.txErrCnt
  | .txOverflow => { s with canErrorStatus := s.canErrorStatus ||| errTxOverflow }
  | .txPdoLate => { s with canErrorStatus := s.canErrorStatus ||| errTxPdoLate }

def run (events : List Event) : ErrorState := events.foldl step {}

/-! ## The invariant -/

/-- The bits that are calculated from the counters. -/
def calculatedBits : UInt16 :=
  errTxBusOff ||| errRxWarning ||| errRxPassive ||| errTxWarning ||| errTxPassive

/-- Their values. -/
def flags (rxErrCnt txErrCnt : UInt8) : UInt16 :=
  (if rxErrCnt ≥ 128 then errRxWarning ||| errRxPassive
    else if rxErrCnt ≥ 96 then errRxWarning else 0) |||
  (if txErrCnt ≥ 128 then errTxWarning ||| errTxPassive
    else if rxErrCnt ≥ 96 then errTxWarning else 0)

theorem or_and (x y m : UInt16) : (x ||| y) &&& m = x &&& m ||| y &&& m :=
  UInt16.eq_of_toBitVec_eq BitVec.and_or_distrib_right

theorem packed_inj {b b' : Bool} {rx rx' tx tx' : UInt8}
    (h : packed b rx tx = packed b' rx' tx') : rx = rx' ∧ tx = tx' := by
  have hpack : ∀ (b : Bool) (rx tx : UInt8), packed b rx tx = pack 0 tx rx b.toUInt8 := by
    intro b rx tx
    cases b
    · simp [packed, pack]
      rfl
    · simp [packed, pack]
      rfl
  rw [hpack, hpack] at h
  obtain ⟨-, hrx, htx, -⟩ := toUInt8_pack 0 tx rx b.toUInt8
  obtain ⟨-, hrx', htx', -⟩ := toUInt8_pack 0 tx' rx' b'.toUInt8
  rw [h] at hrx htx
  exact ⟨hrx.symm.trans hrx', htx.symm.trans htx'⟩

theorem cleared_and (status : UInt16) {m : UInt16}
    (hm : (0xFFFF ^^^ calculatedBits) &&& m = 0) (v : UInt16) :
    (status &&& (0xFFFF ^^^ calculatedBits) ||| v) &&& m = v &&& m := by
  rw [or_and, UInt16.and_assoc, hm, UInt16.and_zero, UInt16.zero_or]

theorem recalculated_eq (status : UInt16) (rx tx : UInt8) :
    recalculated status rx tx =
      if (status &&& (0xFFFF ^^^ calculatedBits) ||| flags rx tx) &&& errTxPassive = 0 then
        (status &&& (0xFFFF ^^^ calculatedBits) ||| flags rx tx) &&& (0xFFFF ^^^ errTxOverflow)
      else status &&& (0xFFFF ^^^ calculatedBits) ||| flags rx tx := by
  rw [recalculated, calculatedBits, flags]
  rcases Classical.em (rx ≥ 128) with hrx | hrx
  · simp only [if_pos hrx]
    rcases Classical.em (tx ≥ 128) with htx | htx
    · simp only [if_pos htx, UInt16.or_assoc]
    · rcases Classical.em (rx ≥ 96) with hwarning | hwarning
      · simp only [if_neg htx, if_pos hwarning, UInt16.or_assoc]
      · simp only [if_neg htx, if_neg hwarning, UInt16.or_zero]
  · simp only [if_neg hrx]
    rcases Classical.em (rx ≥ 96) with hwarning | hwarning
    · simp only [if_pos hwarning, UInt16.or_assoc]
      rcases Classical.em (tx ≥ 128) with htx | htx
      · simp only [if_pos htx]
      · simp only [if_neg htx]
    · simp only [if_neg hwarning, UInt16.zero_or]
      rcases Classical.em (tx ≥ 128) with htx | htx
      · simp only [if_pos htx]
      · simp only [if_neg htx, UInt16.or_zero]

theorem flags_calculated (rx tx : UInt8) : flags rx tx &&& calculatedBits = flags rx tx := by
  rw [flags]
  split_ifs <;> decide

theorem flags_passive (rx tx : UInt8) : flags rx tx &&& errTxPassive = 0 ↔ tx < 128 := by
  rw [flags, or_and]
  rcases Classical.em (tx ≥ 128) with htx | htx
  · rw [if_pos htx]
    refine iff_of_false ?_ (UInt8.not_lt.mpr htx)
    split_ifs <;> decide
  · rw [if_neg htx]
    refine iff_of_true ?_ (UInt8.not_le.mp htx)
    split_ifs <;> decide

theorem recalculated_spec (status : UInt16) (rx tx : UInt8) :
    recalculated status rx tx &&& calculatedBits = flags rx tx ∧
      (tx < 128 → recalculated status rx tx &&& errTxOverflow = 0) := by
  have hset := cleared_and status (m := calculatedBits) (by decide) (flags rx tx)
  rw [flags_calculated] at hset
  have hpassive := cleared_and status (m := errTxPassive) (by decide) (flags rx tx)
  rw [recalculated_eq]
  rcases Classical.em (tx < 128) with htx | htx
  · rw [if_pos (hpassive.trans ((flags_passive rx tx).mpr htx))]
    constructor
    · have hmask : (0xFFFF ^^^ errTxOverflow) &&& calculatedBits = calculatedBits := by decide
      rw [UInt16.and_assoc, hmask, hset]
    · intro _
      have hmask : (0xFFFF ^^^ errTxOverflow) &&& errTxOverflow = 0 := by decide
      rw [UInt16.and_assoc, hmask, UInt16.and_zero]
  · rw [if_neg fun h => htx ((flags_passive rx tx).mp (hpassive.symm.trans h))]
    exact ⟨hset, fun h => absurd h htx⟩

/-- `errOld` holds the counters of the last call, and the calculated bits are those of these
counters. -/
structure Inv (s : ErrorState) : Prop where
  errOld : s.errOld = packed s.isBusOff s.rxErrCnt s.txErrCnt
  status : s.canErrorStatus &&& calculatedBits = flags s.rxErrCnt s.txErrCnt

theorem or_and_calculated (status : UInt16) {v : UInt16} (hv : v &&& calculatedBits = 0) :
    (status ||| v) &&& calculatedBits = status &&& calculatedBits := by
  rw [or_and, hv, UInt16.or_zero]

/-- A call keeps the invariant, and clears the overflow when the counters change to those of a
transmitter that is not passive. -/
theorem process_spec {s : ErrorState} (hs : Inv s) (c : Counters) :
    Inv (step s (.process c)) ∧ (step s (.process c)).rxErrCnt = c.rxErrCnt ∧
      (step s (.process c)).txErrCnt = c.txErrCnt ∧
      ((c.rxErrCnt, c.txErrCnt) ≠ (s.rxErrCnt, s.txErrCnt) → c.txErrCnt < 128 →
        (step s (.process c)).canErrorStatus &&& errTxOverflow = 0) := by
  obtain ⟨b, rx, tx, hne⟩ := c
  have hprocess : ∃ count, step s (.process ⟨b, rx, tx, hne⟩) =
      if s.errOld ≠ packed b rx tx then
        ⟨if b then recalculated s.canErrorStatus rx tx ||| errRxOverflow
          else recalculated s.canErrorStatus rx tx, packed b rx tx, b, rx, tx, count⟩
      else ⟨s.canErrorStatus, s.errOld, b, rx, tx, count⟩ := by
    cases b
    · refine ⟨s.busOffErrCnt, ?_⟩
      simp only [step, coCANmoduleProcess, if_neg hne]
      rfl
    · refine ⟨s.busOffErrCnt + 1, ?_⟩
      simp only [step, coCANmoduleProcess, if_neg hne]
      rfl
  obtain ⟨count, hprocess⟩ := hprocess
  obtain ⟨hflags, hoverflow⟩ := recalculated_spec s.canErrorStatus rx tx
  rw [hprocess]
  rcases Classical.em (s.errOld ≠ packed b rx tx) with hchanged | hsame
  · rw [if_pos hchanged]
    refine ⟨⟨rfl, ?_⟩, rfl, rfl, fun _ htx => ?_⟩
    · cases b
      · exact hflags
      · exact (or_and_calculated _ (by decide)).trans hflags
    · cases b
      · exact hoverflow htx
      · have hbit : errRxOverflow &&& errTxOverflow = 0 := by decide
        change (recalculated s.canErrorStatus rx tx ||| errRxOverflow) &&& errTxOverflow = 0
        rw [or_and, hoverflow htx, hbit, UInt16.zero_or]
  · rw [if_neg hsame]
    have herr := not_not.mp hsame
    obtain ⟨hrx, htx⟩ := packed_inj (hs.errOld.symm.trans herr)
    refine ⟨⟨herr, ?_⟩, rfl, rfl, fun hcounters => ?_⟩
    · have hstatus := hs.status
      rwa [hrx, htx] at hstatus
    · exact absurd (Prod.ext hrx.symm htx.symm) hcounters

theorem step_inv {s : ErrorState} (hs : Inv s) (e : Event) : Inv (step s e) := by
  cases e with
  | process c => exact (process_spec hs c).1
  | txOverflow => exact ⟨hs.errOld, (or_and_calculated _ (by decide)).trans hs.status⟩
  | txPdoLate => exact ⟨hs.errOld, (or_and_calculated _ (by decide)).trans hs.status⟩

theorem run_inv (events : List Event) : Inv (run events) := by
  induction events using List.reverseRecOn with
  | nil => exact ⟨rfl, rfl⟩
  | append_singleton events e ih =>
      rw [run, List.foldl_append]
      exact step_inv ih e

/-! ## The status after a call -/

def Has (status bit : UInt16) : Prop := status &&& bit ≠ 0

instance (status bit : UInt16) : Decidable (Has status bit) :=
  inferInstanceAs (Decidable (status &&& bit ≠ 0))

/-- The status `status'` after a call with the counters `c` follows them; `s` is the state
before the call. -/
structure Follows (s : ErrorState) (c : Counters) (status' : UInt16) : Prop where
  rxWarning : Has status' errRxWarning ↔ 96 ≤ c.rxErrCnt.toNat
  rxPassive : Has status' errRxPassive ↔ 128 ≤ c.rxErrCnt.toNat
  txWarning : Has status' errTxWarning ↔ 96 ≤ c.txErrCnt.toNat
  txPassive : Has status' errTxPassive ↔ 128 ≤ c.txErrCnt.toNat
  txBusOff : ¬ Has status' errTxBusOff
  txOverflow : (c.rxErrCnt, c.txErrCnt) ≠ (s.rxErrCnt, s.txErrCnt) → c.txErrCnt.toNat < 128 →
    ¬ Has status' errTxOverflow

theorem has_flags (rx tx : UInt8) :
    (Has (flags rx tx) errRxWarning ↔ 96 ≤ rx.toNat) ∧
      (Has (flags rx tx) errRxPassive ↔ 128 ≤ rx.toNat) ∧
      (Has (flags rx tx) errTxWarning ↔ 128 ≤ tx.toNat ∨ 96 ≤ rx.toNat) ∧
      (Has (flags rx tx) errTxPassive ↔ 128 ≤ tx.toNat) ∧ ¬ Has (flags rx tx) errTxBusOff := by
  have hrx128 : rx ≥ 128 ↔ 128 ≤ rx.toNat := UInt8.le_iff_toNat_le
  have hrx96 : rx ≥ 96 ↔ 96 ≤ rx.toNat := UInt8.le_iff_toNat_le
  have htx128 : tx ≥ 128 ↔ 128 ≤ tx.toNat := UInt8.le_iff_toNat_le
  rw [flags, ← hrx128, ← hrx96, ← htx128]
  rcases Classical.em (rx ≥ 128) with hrx | hrx
  · have hwarning : rx ≥ 96 := UInt8.le_trans (by decide) hrx
    rcases Classical.em (tx ≥ 128) with htx | htx
    · simp only [hrx, hwarning, htx, if_true]
      decide
    · simp only [hrx, hwarning, htx, if_true, if_false]
      decide
  · rcases Classical.em (rx ≥ 96) with hwarning | hwarning
    · rcases Classical.em (tx ≥ 128) with htx | htx
      · simp only [hrx, hwarning, htx, if_true, if_false]
        decide
      · simp only [hrx, hwarning, htx, if_true, if_false]
        decide
    · rcases Classical.em (tx ≥ 128) with htx | htx
      · simp only [hrx, hwarning, htx, if_true, if_false]
        decide
      · simp only [hrx, hwarning, htx, if_false]
        decide

theorem has_iff {status status' bit : UInt16} (h : status &&& calculatedBits = status')
    (hbit : calculatedBits &&& bit = bit) : Has status bit ↔ Has status' bit := by
  rw [Has, Has, ← h, UInt16.and_assoc, hbit]

theorem run_process (events : List Event) (c : Counters) :
    run (events ++ [.process c]) = step (run events) (.process c) := by
  rw [run, run, List.foldl_append]
  rfl

/-- After every call of a run the status follows the counters exactly if the warning limit is
reached by both counters or by neither, unless the transmitter is passive. -/
theorem run_follows_iff (events : List Event) (c : Counters) :
    Follows (run events) c (run (events ++ [.process c])).canErrorStatus ↔
      (c.txErrCnt.toNat < 128 → (96 ≤ c.rxErrCnt.toNat ↔ 96 ≤ c.txErrCnt.toNat)) := by
  obtain ⟨hinv, hrx, htx, hoverflow⟩ := process_spec (run_inv events) c
  obtain ⟨hrxWarning, hrxPassive, htxWarning, htxPassive, hbusOff⟩ :=
    has_flags c.rxErrCnt c.txErrCnt
  have hstatus := hinv.status
  rw [hrx, htx] at hstatus
  rw [run_process]
  constructor
  · intro h hpassive
    have hwarning := (has_iff hstatus (by decide)).symm.trans h.txWarning
    rw [htxWarning] at hwarning
    omega
  · intro h
    constructor
    · exact (has_iff hstatus (by decide)).trans hrxWarning
    · exact (has_iff hstatus (by decide)).trans hrxPassive
    · refine (has_iff hstatus (by decide)).trans (htxWarning.trans ?_)
      omega
    · exact (has_iff hstatus (by decide)).trans htxPassive
    · exact fun hhas => hbusOff ((has_iff hstatus (by decide)).mp hhas)
    · intro hcounters hlt hhas
      exact hhas (hoverflow hcounters (UInt8.lt_iff_toNat_lt.mpr hlt))

/-- The transmitter is at its warning limit and the receiver has no errors. -/
def txWarningOnly : Counters := ⟨false, 0, 100, by decide⟩

theorem not_follows_txWarningOnly :
    ¬ Follows (run []) txWarningOnly (run [.process txWarningOnly]).canErrorStatus := by
  intro h
  exact absurd (h.txWarning.mpr (by decide)) (by decide)

end ShGateway.CanErrors
