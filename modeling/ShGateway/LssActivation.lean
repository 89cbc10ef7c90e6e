import ShGateway.CanBitrate

/-!
Activation of a bit rate by LSS: the request of `CO_LSSslave.c`, the callbacks of `lss_cb.c`
and their poll.
-/

namespace ShGateway.LssActivation

open ShGateway.CanBitrate

def canBtrSilm : UInt32 := 0x80000000
def canBtrLbkm : UInt32 := 0x40000000

/-- `LSS_cb_obj_t` with what it refers to: `g_stay_in_boot`, the pending bit rate and `BTR`. -/
structure LssCbObj where
  lssBrSetDelayCounter : UInt32
  stayInBoot : Bool
  pendingBitRate : UInt16
  btr : UInt32
deriving DecidableEq, Repr

def setBr (obj : LssCbObj) : LssCbObj :=
  let btr := (canDrvCheckSetBitrate obj.btr (obj.pendingBitRate.toNat * 1000) true).2
  { obj with btr := btr &&& ~~~canBtrSilm &&& ~~~canBtrLbkm }

/-- `lss_activate_br`, and whether it has executed `set_br`. -/
def lssActivateBr (obj : LssCbObj) (switchDelayMs : UInt16) : Bool × LssCbObj :=
  let obj := { obj with stayInBoot := true }
  if switchDelayMs ≠ 0 then (true, setBr obj)
  else (false, { obj with lssBrSetDelayCounter := switchDelayMs.toUInt32 * 1000 })

/-- `lss_cb_poll`, and whether it has executed `set_br`. -/
def lssCbPoll (obj : LssCbObj) (diffUs : UInt32) : Bool × LssCbObj :=
  if obj.lssBrSetDelayCounter ≠ 0 then
    if obj.lssBrSetDelayCounter ≤ diffUs then
      (true, setBr { obj with lssBrSetDelayCounter := 0 })
    else
      (false, { obj with lssBrSetDelayCounter := obj.lssBrSetDelayCounter - diffUs })
  else (false, obj)

/-- The callbacks of `CO_LSSslave_t` that are not `NULL`. -/
structure LssSlave where
  checkBitRate : Bool
  activateBitRate : Bool

/-- `lss_cb_init` sets both callbacks. -/
def lssCbInit : LssSlave := ⟨true, true⟩

/-- The argument with which the callback is called on `CO_LSS_CFG_ACTIVATE_BIT_TIMING`. -/
def activateBitTiming (slave : LssSlave) (canData : Vector UInt8 8) : Option UInt16 :=
  if slave.checkBitRate ∧ slave.activateBitRate then
    some ((canData.get 2).toUInt16 <<< 8 ||| (canData.get 1).toUInt16)
  else none

/-- A received request. -/
def request (slave : LssSlave) (obj : LssCbObj) (canData : Vector UInt8 8) :
    Bool × LssCbObj :=
  match activateBitTiming slave canData with
  | some delay => lssActivateBr obj delay
  | none => (false, obj)

/-- Which of the polls execute `set_br`. -/
def polls : LssCbObj → List UInt32 → List Bool
  | _, [] => []
  | obj, diffUs :: diffs => (lssCbPoll obj diffUs).1 :: polls (lssCbPoll obj diffUs).2 diffs

/-! ## The request -/

/-- The switch delay in a message, low byte first. -/
def receivedDelay (canData : Vector UInt8 8) : Nat :=
  (canData.get 1).toNat + 256 * (canData.get 2).toNat

theorem activateBitTiming_eq (canData : Vector UInt8 8) :
    ∃ delay, activateBitTiming lssCbInit canData = some delay ∧
      delay.toNat = receivedDelay canData := by
  refine ⟨_, rfl, ?_⟩
  have hlow := (canData.get 1).toNat_lt
  have hhigh := (canData.get 2).toNat_lt
  rw [UInt16.toNat_or, UInt16.toNat_shiftLeft, UInt8.toNat_toUInt16, UInt8.toNat_toUInt16]
  have hshift : (canData.get 2).toNat <<< 8 % 2 ^ 16 = (canData.get 2).toNat <<< 8 := by
    rw [Nat.shiftLeft_eq, Nat.mod_eq_of_lt (by omega)]
  change (canData.get 2).toNat <<< 8 % 2 ^ 16 ||| (canData.get 1).toNat = _
  rw [hshift, ← Nat.shiftLeft_add_eq_or_of_lt hlow, Nat.shiftLeft_eq, receivedDelay]
  omega

/-! ## The polls -/

/-- The polled time before the poll with number `i`. -/
def elapsed (diffs : List UInt32) (i : Nat) : Nat := ((diffs.take i).map UInt32.toNat).sum

/-- The poll with number `i` is the first at which the polled time reaches `delayUs`. -/
def Due (delayUs : Nat) (diffs : List UInt32) (i : Nat) : Prop :=
  elapsed diffs i < delayUs ∧ delayUs ≤ elapsed diffs (i + 1)

theorem elapsed_zero (diffs : List UInt32) : elapsed diffs 0 = 0 := rfl

theorem elapsed_succ (diffUs : UInt32) (diffs : List UInt32) (i : Nat) :
    elapsed (diffUs :: diffs) (i + 1) = diffUs.toNat + elapsed diffs i := by
  rw [elapsed, List.take_succ_cons, List.map_cons, List.sum_cons, elapsed]

theorem polls_idle {obj : LssCbObj} (h : obj.lssBrSetDelayCounter = 0) (diffs : List UInt32) :
    polls obj diffs = List.replicate diffs.length false := by
  induction diffs with
  | nil => rfl
  | cons diffUs diffs ih =>
      have hpoll : lssCbPoll obj diffUs = (false, obj) := by
        rw [lssCbPoll, if_neg (not_not.mpr h)]
      rw [polls, hpoll, ih]
      rfl

theorem polls_due {obj : LssCbObj} (h : obj.lssBrSetDelayCounter ≠ 0) (diffs : List UInt32)
    {i : Nat} (hi : i < diffs.length) :
    (polls obj diffs)[i]? = some true ↔ Due obj.lssBrSetDelayCounter.toNat diffs i := by
  rw [Due]
  induction diffs generalizing obj i with
  | nil => exact absurd hi (Nat.not_lt_zero i)
  | cons diffUs diffs ih =>
      have hpos : 0 < obj.lssBrSetDelayCounter.toNat := by
        apply Nat.pos_of_ne_zero
        exact fun hzero => h (UInt32.toNat_inj.mp hzero)
      rcases Classical.em (obj.lssBrSetDelayCounter ≤ diffUs) with hle | hgt
      · -- this poll executes `set_br`, and the counter is cleared
        have hpoll : lssCbPoll obj diffUs =
            (true, setBr { obj with lssBrSetDelayCounter := 0 }) := by
          rw [lssCbPoll, if_pos h, if_pos hle]
        have hrest := @polls_idle (setBr { obj with lssBrSetDelayCounter := 0 }) rfl diffs
        have hle' := UInt32.le_iff_toNat_le.mp hle
        rw [polls, hpoll, hrest]
        cases i with
        | zero =>
            rw [elapsed_succ, elapsed_zero, elapsed_zero]
            exact iff_of_true rfl ⟨hpos, by omega⟩
        | succ i =>
            rw [elapsed_succ, List.getElem?_cons_succ]
            refine iff_of_false ?_ (by omega)
            rw [List.getElem?_replicate]
            split <;> simp
      · have hpoll : lssCbPoll obj diffUs =
            (false, { obj with
              lssBrSetDelayCounter := obj.lssBrSetDelayCounter - diffUs }) := by
          rw [lssCbPoll, if_pos h, if_neg hgt]
        have hlt := UInt32.lt_iff_toNat_lt.mp (UInt32.not_le.mp hgt)
        have hsub : (obj.lssBrSetDelayCounter - diffUs).toNat =
            obj.lssBrSetDelayCounter.toNat - diffUs.toNat :=
          UInt32.toNat_sub_of_le _ _ (UInt32.le_of_lt (UInt32.not_le.mp hgt))
        rw [polls, hpoll]
        cases i with
        | zero =>
            rw [elapsed_succ, elapsed_zero, elapsed_zero]
            exact iff_of_false (by simp) (by omega)
        | succ i =>
            rw [elapsed_succ, elapsed_succ, List.getElem?_cons_succ]
            have hne : obj.lssBrSetDelayCounter - diffUs ≠ 0 := by
              intro hzero
              rw [hzero] at hsub
              exact absurd hsub (by simp; omega)
            have hnext := @ih { obj with
              lssBrSetDelayCounter := obj.lssBrSetDelayCounter - diffUs } hne i
              (Nat.lt_of_succ_lt_succ hi)
            rw [hnext, hsub]
            constructor
            · rintro ⟨hbefore, hafter⟩
              omega
            · rintro ⟨hbefore, hafter⟩
              omega

/-! ## Activation in time -/

/-- `set_br` is executed once: with a delay by the first poll at which the polled time reaches
it, and otherwise without waiting for one. -/
def OnTime (obj : LssCbObj) (canData : Vector UInt8 8) (diffs : List UInt32) : Prop :=
  let executed := (request lssCbInit obj canData).1
  let later := polls (request lssCbInit obj canData).2 diffs
  if receivedDelay canData = 0 then (executed :: later).count true = 1
  else executed = false ∧ ∀ i, i < diffs.length →
    (later[i]? = some true ↔ Due (receivedDelay canData * 1000) diffs i)

/-- With a delay the request itself executes `set_br`; without one the counter is cleared and
nothing ever does. -/
theorem request_spec (obj : LssCbObj) (canData : Vector UInt8 8) :
    (receivedDelay canData ≠ 0 ∧ (request lssCbInit obj canData).1 = true) ∨
      receivedDelay canData = 0 ∧ (request lssCbInit obj canData).1 = false ∧
        (request lssCbInit obj canData).2.lssBrSetDelayCounter = 0 := by
  obtain ⟨delay, hdelay, hreceived⟩ := activateBitTiming_eq canData
  rw [request, hdelay, ← hreceived]
  rcases Classical.em (delay = 0) with rfl | hne
  · exact .inr ⟨rfl, rfl, rfl⟩
  · refine .inl ⟨fun hzero => hne (UInt16.toNat_inj.mp hzero), ?_⟩
    dsimp only
    rw [lssActivateBr, if_pos hne]

/-- No request is activated in time. -/
theorem not_onTime (obj : LssCbObj) (canData : Vector UInt8 8) (diffs : List UInt32) :
    ¬ OnTime obj canData diffs := by
  rw [OnTime]
  rcases request_spec obj canData with ⟨hdelay, htrue⟩ | ⟨hdelay, hfalse, hcounter⟩
  · rw [if_neg hdelay, htrue]
    rintro ⟨hexecuted, -⟩
    exact absurd hexecuted (by decide)
  · rw [if_pos hdelay, hfalse, polls_idle hcounter, ← List.replicate_succ]
    simp [List.count_replicate]

/-- A delay of one second, polled every 600 ms. -/
theorem not_onTime_oneSecond :
    ¬ OnTime ⟨0, false, 250, 0⟩ #v[0x15, 0xE8, 0x03, 0, 0, 0, 0, 0] [600000, 600000] := by
  intro h
  have hdelay : ¬ receivedDelay #v[0x15, 0xE8, 0x03, 0, 0, 0, 0, 0] = 0 := by decide
  rw [OnTime] at h
  rw [if_neg hdelay] at h
  exact absurd h.1 (by decide)

end ShGateway.LssActivation
