import ShGateway.CanTransmit

/-!
`CANtxCount` as the number of transmit buffers that are full.
-/

namespace ShGateway.CanTxCount

open ShGateway.Lib.Runs
open ShGateway.CanDriver
open ShGateway.CanTransmit

def CountExact (m : CANmodule) : Prop :=
  m.canTxCount.toNat = m.txArray.countP (·.bufferFull)

/-- The number of buffers is a `uint16_t`. -/
structure Counted (m : CANmodule) : Prop where
  exact : CountExact m
  size_lt : m.txArray.length < 65536

/-- `CO_CANsend` is not called on a buffer that still holds a message. -/
def NotPending (m : CANmodule) : Event → Prop
  | .tx (.send index _) => ∀ b, m.txArray[index]? = some b → b.bufferFull = false
  | _ => True

section

variable {m m' : CANmodule}

theorem countExact_iff : CountExact m ↔ m.canTxCount.toNat = (waiting m.txArray).length := by
  rw [CountExact, length_waiting]

theorem Counted.of_waiting (h : Counted m) (hcount : m'.canTxCount = m.canTxCount)
    (hlength : m'.txArray.length = m.txArray.length)
    (hwait : (waiting m'.txArray).length = (waiting m.txArray).length) : Counted m' := by
  refine ⟨?_, hlength ▸ h.size_lt⟩
  rw [countExact_iff, hcount, hwait]
  exact countExact_iff.mp h.exact

theorem send_full {i : Nat} {data : Vector UInt8 8} {b : CANtx}
    (h : step m (.send i data) = some m') (hb : m.txArray[i]? = some b)
    (hfull : b.bufferFull = true) (hexact : Counted m) :
    m'.canTxCount = m.canTxCount + 1 ∧
      (waiting m'.txArray).length = (waiting m.txArray).length := by
  obtain ⟨⟨err, m'⟩, hsend, rfl⟩ := Option.map_eq_some_iff.mp h
  obtain ⟨b', hb', -, hcases⟩ := send_cases hsend
  obtain rfl := Option.some.inj (hb.symm.trans hb')
  have hpos : m.canTxCount ≠ 0 := by
    refine ne_zero_of_toNat ?_
    rw [countExact_iff.mp hexact.exact]
    refine List.length_pos_iff.mpr fun hnil => ?_
    exact absurd (hfull.symm.trans (waiting_eq_nil.mp hnil b (List.mem_of_getElem? hb))) (by decide)
  have hlength : ∀ c : CANtx, c.bufferFull = true →
      (waiting (m.txArray.set i c)).length = (waiting m.txArray).length := by
    intro c hc
    have hperm := (waiting_set_full hb hc).length_eq
    rw [waiting_singleton_full hfull] at hperm
    simpa [Nat.add_comm] using hperm
  rcases hcases with ⟨k, r, -, -, -, ⟨hzero, -⟩ | ⟨-, hcount, htx⟩⟩ | ⟨-, -, hcount, htx⟩
  · exact absurd hzero hpos
  · exact ⟨hcount, htx ▸ hlength _ rfl⟩
  · exact ⟨hcount, htx ▸ hlength _ rfl⟩

theorem Counted.send (h : Counted m) {i : Nat} {data : Vector UInt8 8}
    (hq : NotPending m (.tx (.send i data))) (hstep : step m (.send i data) = some m') :
    Counted m' := by
  obtain ⟨⟨err, m'⟩, hsend, rfl⟩ := Option.map_eq_some_iff.mp hstep
  obtain ⟨b, hb, -, hcases⟩ := send_cases hsend
  have hfree := hq b hb
  have hqueued : m'.canTxCount = m.canTxCount + 1 →
      m'.txArray = m.txArray.set i { b with data := data, bufferFull := true } → Counted m' := by
    intro hcount htx
    have hperm := (waiting_set_full (c := { b with data := data, bufferFull := true }) hb
      rfl).length_eq
    rw [waiting_singleton_free hfree, ← htx] at hperm
    have hlength : m'.txArray.length = m.txArray.length := by rw [htx, List.length_set]
    have hle := length_waiting_le m'.txArray
    have hexact := countExact_iff.mp h.exact
    have hlt := h.size_lt
    simp only [List.nil_append, List.length_cons] at hperm
    refine ⟨?_, by omega⟩
    rw [countExact_iff, hcount, toNat_add_one, hperm, hexact]
    rintro heq
    rw [heq] at hexact
    have htop : (65535 : UInt16).toNat = 65535 := rfl
    omega
  rcases hcases with
    ⟨k, r, -, -, -, ⟨-, hcount, htx⟩ | ⟨-, hcount, htx⟩⟩ | ⟨-, -, hcount, htx⟩
  · have hperm := (waiting_set hb { b with data := data }).length_eq
    rw [waiting_singleton_free hfree, waiting_singleton_free (by exact hfree), ← htx] at hperm
    refine h.of_waiting hcount ?_ (by simpa using hperm)
    rw [htx, List.length_set]
  · exact hqueued hcount htx
  · exact hqueued hcount htx

theorem Counted.interrupt (h : Counted m) : Counted (coCANinterrupt m).2 := by
  rcases interrupt_cases (m := m) rfl with
    ⟨-, -, -, htx, hcount, -⟩ | ⟨-, htx, hcount, hnone⟩ |
      ⟨i, b, k, hb, hfull, -, hne, -, -, hcount, htx⟩
  · exact h.of_waiting hcount (by rw [htx]) (by rw [htx])
  · refine ⟨?_, by rw [htx]; exact h.size_lt⟩
    have hexact := countExact_iff.mp h.exact
    rw [countExact_iff, hcount, htx]
    rcases hnone with hzero | hnil
    · rw [← hexact, hzero]
    · rw [hnil]
      rfl
  · have hperm := (waiting_set hb { b with bufferFull := false }).length_eq
    rw [waiting_singleton_full hfull, waiting_singleton_free rfl, ← htx] at hperm
    have hexact := countExact_iff.mp h.exact
    simp only [List.length_append, List.length_cons, List.length_nil] at hperm
    refine ⟨?_, by rw [htx, List.length_set]; exact h.size_lt⟩
    rw [countExact_iff, hcount, toNat_sub_one hne]
    omega

/-! ## Deleted messages -/

theorem length_clearSync (txArray : List CANtx) (n : UInt16) :
    (clearSync txArray n).1.length = txArray.length := by
  induction txArray generalizing n with
  | nil => rfl
  | cons b bs ih =>
      rw [clearSync]
      split_ifs <;> simp [ih]

theorem clearSync_count (txArray : List CANtx) {n : UInt16}
    (h : txArray.countP (·.bufferFull) ≤ n.toNat) :
    (clearSync txArray n).2.1.toNat + txArray.countP (·.bufferFull) =
      n.toNat + (clearSync txArray n).1.countP (·.bufferFull) := by
  induction txArray generalizing n with
  | nil => simp [clearSync]
  | cons b bs ih =>
      rw [List.countP_cons] at h ⊢
      rw [clearSync]
      split_ifs at h ⊢ with hdeleted hfull hfull
      · have hne : n ≠ 0 := ne_zero_of_toNat (by omega)
        have hsub := toNat_sub_one hne
        have hih := @ih (n - 1) (by omega)
        simp only [List.countP_cons, Bool.false_eq_true, if_false]
        omega
      · rw [Bool.and_eq_true] at hdeleted
        exact absurd hdeleted.1 hfull
      · have hih := @ih n (by omega)
        simp only [List.countP_cons, hfull, if_true]
        omega
      · have hih := @ih n (by omega)
        simp only [List.countP_cons, hfull, Bool.false_eq_true, if_false]
        omega

theorem Counted.clearPendingSyncPDOs (h : Counted m) : Counted (coCANclearPendingSyncPDOs m) := by
  rcases eq_or_ne m.canTxCount 0 with hzero | hne
  · refine h.of_waiting ?_ ?_ ?_ <;> simp [coCANclearPendingSyncPDOs, hzero]
  · have hexact := h.exact
    rw [CountExact] at hexact
    have hclear := @clearSync_count m.txArray m.canTxCount hexact.ge
    refine ⟨?_, ?_⟩
    · rw [CountExact, coCANclearPendingSyncPDOs]
      simp only [ne_eq, hne, not_false_eq_true, if_true]
      omega
    · rw [coCANclearPendingSyncPDOs]
      simp only [ne_eq, hne, not_false_eq_true, if_true, length_clearSync]
      exact h.size_lt

/-! ## Runs -/

theorem Counted.stepAll (h : Counted m) {ev : Event} (hq : NotPending m ev)
    (hstep : stepAll m ev = some m') : Counted m' := by
  cases ev with
  | clearPendingSyncPDOs =>
      obtain rfl := Option.some.inj hstep
      exact h.clearPendingSyncPDOs
  | tx ev =>
      cases ev with
      | send i data => exact h.send hq hstep
      | txBufferInit index ident rtr noOfBytes syncFlag =>
          obtain ⟨-, hcount, hlength, hwait⟩ := step_txBufferInit hstep
          exact h.of_waiting hcount hlength hwait.length_eq
      | complete k =>
          rw [CanTransmit.stepAll, CanTransmit.step] at hstep
          split_ifs at hstep
          obtain rfl := Option.some.inj hstep
          exact ⟨h.exact, h.size_lt⟩
      | receive fifo fovr =>
          obtain rfl := Option.some.inj hstep
          exact ⟨h.exact, h.size_lt⟩
      | interrupt =>
          obtain rfl := Option.some.inj hstep
          exact h.interrupt

theorem not_countExact_of_pending (h : Counted m) {ev : Event} (hq : ¬ NotPending m ev)
    (hstep : stepAll m ev = some m') : ¬ CountExact m' := by
  cases ev with
  | clearPendingSyncPDOs => exact absurd trivial hq
  | tx ev =>
      cases ev with
      | send i data =>
          simp only [NotPending, not_forall, Bool.not_eq_false] at hq
          obtain ⟨b, hb, hfull⟩ := hq
          obtain ⟨hcount, hwait⟩ := send_full hstep hb hfull h
          intro hexact
          rw [countExact_iff, hwait, ← countExact_iff.mp h.exact, hcount] at hexact
          have hlt := m.canTxCount.toNat_lt
          rw [UInt16.toNat_add, UInt16.toNat_one] at hexact
          omega
      | txBufferInit index ident rtr noOfBytes syncFlag => exact absurd trivial hq
      | complete k => exact absurd trivial hq
      | receive fifo fovr => exact absurd trivial hq
      | interrupt => exact absurd trivial hq

theorem counted_init (dev : Controller) (rxSize txSize : UInt16)
    (txArray : Vector CANtx txSize.toNat) :
    Counted (coCANmoduleInit dev rxSize txSize txArray) := by
  refine ⟨?_, ?_⟩
  · rw [countExact_iff, waiting_init]
    rfl
  · simpa [coCANmoduleInit] using txSize.toNat_lt

end

/-- The counter is right all through a run exactly if no buffer is sent again while
its last message waits. -/
theorem run_countExact_iff (dev : Controller) (rxSize txSize : UInt16)
    (txArray : Vector CANtx txSize.toNat) {evs : List Event} {m : CANmodule}
    (h : evs.foldlM stepAll (coCANmoduleInit dev rxSize txSize txArray) = some m) :
    Throughout stepAll (coCANmoduleInit dev rxSize txSize txArray) CountExact evs ↔
      AtSteps stepAll (coCANmoduleInit dev rxSize txSize txArray) NotPending evs := by
  exact @throughout_iff_atSteps _ _ stepAll _ m evs Counted CountExact NotPending
    (counted_init dev rxSize txSize txArray) (fun m hm => hm.exact)
    (fun m ev m' hm hq hstep => hm.stepAll hq hstep)
    (fun m ev m' hm hq hstep => not_countExact_of_pending hm hq hstep) h

def cleared : List Event := backlog.map Event.tx ++ [Event.clearPendingSyncPDOs]

theorem run_countExact_iff_cleared :
    ∃ m, cleared.foldlM stepAll sampleSystem.m = some m ∧
      (Throughout stepAll sampleSystem.m CountExact cleared ↔
        AtSteps stepAll sampleSystem.m NotPending cleared) := by
  have hrun : (cleared.foldlM stepAll sampleSystem.m).isSome := by decide +kernel
  obtain ⟨m, hm⟩ := Option.isSome_iff_exists.mp hrun
  exact ⟨m, hm, run_countExact_iff {} 0 5 (Vector.replicate 5 {}) hm⟩

def resent : List Event := backlog.map Event.tx ++ [Event.tx (sendByte 3 5)]

/-- The fourth buffer is sent again before a mailbox was free for it. -/
theorem not_countExact_resent :
    ∃ m, resent.foldlM stepAll sampleSystem.m = some m ∧ ¬ CountExact m := by
  have hrun : (resent.foldlM stepAll sampleSystem.m).map
      (fun m : CANmodule => (m.canTxCount.toNat, m.txArray.countP (·.bufferFull))) =
        some (2, 1) := by decide +kernel
  obtain ⟨m, hm, hcounts⟩ := Option.map_eq_some_iff.mp hrun
  simp only [Prod.mk.injEq] at hcounts
  refine ⟨m, hm, fun hexact => ?_⟩
  rw [CountExact] at hexact
  omega

end ShGateway.CanTxCount
