import ShGateway.CanDriver

/-!
Which callback `CO_CANinterrupt` invokes for a received message.
-/

namespace ShGateway.CanReceive

open ShGateway.CanDriver

/-! ## What a configured buffer accepts -/

/-- `CO_driver.h`: the identifier agrees with the configured one under the mask, and
so do `RTR` and `IDE`. -/
def Accepts (a : RxInit) (rir : UInt32) : Prop :=
  (((rir >>> 21).toUInt16 ^^^ a.ident) &&& a.mask) &&& 0x7FF = 0 ∧
    (rir &&& canRtr ≠ 0 ↔ a.rtr = true) ∧ rir &&& canIde = 0

instance (a : RxInit) (rir : UInt32) : Decidable (Accepts a rir) :=
  inferInstanceAs (Decidable (_ ∧ _ ∧ _))

theorem eq_zero_iff {x : UInt32} : x = 0 ↔ ∀ i, x.toNat.testBit i = false := by
  rw [← UInt32.toNat_inj]
  exact ⟨fun h i => by rw [h]; exact Nat.zero_testBit i, Nat.zero_of_testBit_eq_false⟩

theorem eq_zero_iff16 {x : UInt16} : x = 0 ↔ ∀ i, x.toNat.testBit i = false := by
  rw [← UInt16.toNat_inj]
  exact ⟨fun h i => by rw [h]; exact Nat.zero_testBit i, Nat.zero_of_testBit_eq_false⟩

theorem and_canRtr (x : UInt32) : x &&& canRtr = 0 ↔ x.toNat.testBit 1 = false := by
  have h : canRtr.toNat = 2 ^ 1 := rfl
  rw [← UInt32.toNat_inj, UInt32.toNat_and, h, Nat.and_two_pow]
  simp

theorem and_canIde (x : UInt32) : x &&& canIde = 0 ↔ x.toNat.testBit 2 = false := by
  have h : canIde.toNat = 2 ^ 2 := rfl
  rw [← UInt32.toNat_inj, UInt32.toNat_and, h, Nat.and_two_pow]
  simp

theorem testBit_canRtr (i : Nat) : canRtr.toNat.testBit i = decide (i = 1) := by
  have h : canRtr.toNat = 2 ^ 1 := rfl
  rw [h, Nat.testBit_two_pow]
  simp [eq_comm]

theorem testBit_canIde (i : Nat) : canIde.toNat.testBit i = decide (i = 2) := by
  have h : canIde.toNat = 2 ^ 2 := rfl
  rw [h, Nat.testBit_two_pow]
  simp [eq_comm]

theorem testBit_shift (x : UInt16) (i : Nat) :
    ((x &&& 0x7FF).toUInt32 <<< 21).toNat.testBit i =
      (decide (21 ≤ i) && (decide (i - 21 < 11) && x.toNat.testBit (i - 21))) := by
  have h : (0x7FF : UInt16).toNat = 2 ^ 11 - 1 := rfl
  rw [UInt32.toNat_shiftLeft, UInt16.toNat_toUInt32, UInt16.toNat_and, h,
    Nat.and_two_pow_sub_one_eq_mod]
  simp only [UInt32.reduceToNat, Nat.reduceMod, Nat.testBit_mod_two_pow, Nat.testBit_shiftLeft]
  rcases Nat.lt_or_ge i 32 with hi | hi
  · simp [hi]
  · have hge : ¬ i - 21 < 11 := by omega
    simp [hge]

theorem testBit_mask (a : RxInit) (i : Nat) : a.buffer.mask.toNat.testBit i =
    (decide (21 ≤ i) && (decide (i - 21 < 11) && a.mask.toNat.testBit (i - 21)) ||
      decide (i = 1) || decide (i = 2)) := by
  rw [RxInit.buffer]
  simp only [UInt32.toNat_or, Nat.testBit_or, testBit_shift, testBit_canRtr, testBit_canIde]

theorem testBit_ident (a : RxInit) (i : Nat) : a.buffer.ident.toNat.testBit i =
    (decide (21 ≤ i) && (decide (i - 21 < 11) && a.ident.toNat.testBit (i - 21)) ||
      (a.rtr && decide (i = 1))) := by
  rw [RxInit.buffer]
  simp only [UInt32.toNat_or, Nat.testBit_or, testBit_shift]
  rcases a.rtr with _ | _ <;> simp [testBit_canRtr]

theorem testBit_id (rir : UInt32) {i : Nat} (hi : i < 11) :
    (rir >>> 21).toUInt16.toNat.testBit i = rir.toNat.testBit (21 + i) := by
  have hlt : i < 16 := by omega
  have hnat : (rir >>> 21).toUInt16.toNat = rir.toNat >>> 21 % 2 ^ 16 := by simp
  rw [hnat, Nat.testBit_mod_two_pow, Nat.testBit_shiftRight]
  simp [hlt]

theorem matches_buffer_iff (a : RxInit) (rir : UInt32) : a.buffer.Matches rir ↔ Accepts a rir := by
  have hlow : (0x7FF : UInt16).toNat = 2 ^ 11 - 1 := rfl
  rw [CANrx.Matches, Accepts, Ne, and_canRtr, and_canIde, eq_zero_iff, eq_zero_iff16]
  simp only [UInt32.toNat_and, UInt32.toNat_xor, UInt16.toNat_and, UInt16.toNat_xor,
    Nat.testBit_and, Nat.testBit_xor, testBit_mask, testBit_ident, hlow,
    Nat.testBit_two_pow_sub_one]
  constructor
  · intro h
    refine ⟨fun i => ?_, by simpa using h 1, by simpa using h 2⟩
    rcases Nat.lt_or_ge i 11 with hi | hi
    · have hbit := h (21 + i)
      have h1 : ¬ 21 + i = 1 := by omega
      have h2 : ¬ 21 + i = 2 := by omega
      rw [testBit_id rir hi]
      simpa [hi, h1, h2] using hbit
    · simp [hi]
  · rintro ⟨hid, hrtr, hide⟩ i
    rcases Nat.lt_or_ge i 21 with hi | hi
    · rcases eq_or_ne i 1 with rfl | h1
      · simpa using hrtr
      · rcases eq_or_ne i 2 with rfl | h2
        · simpa using hide
        · simp [h1, h2, Nat.not_le.mpr hi]
    · obtain ⟨j, rfl⟩ := Nat.exists_eq_add_of_le hi
      have h1 : ¬ 21 + j = 1 := by omega
      have h2 : ¬ 21 + j = 2 := by omega
      rcases Nat.lt_or_ge j 11 with hj | hj
      · have hbit := hid j
        rw [testBit_id rir hj] at hbit
        simpa [hj, h1, h2] using hbit
      · simp [h1, h2, Nat.not_lt.mpr hj]

theorem matches_default_iff (rir : UInt32) : ({} : CANrx).Matches rir ↔ rir &&& 0xFFFF = 0 := by
  simp [CANrx.Matches]

/-! ## The table after a sequence of calls -/

/-- `CO_CANrxBufferInit` returns `CO_ERROR_NO`. -/
def Valid (rxSize : UInt16) (a : RxInit) : Prop :=
  a.object.isSome ∧ a.canRxCallback.isSome ∧ a.index.toNat < rxSize.toNat

instance (rxSize : UInt16) (a : RxInit) : Decidable (Valid rxSize a) :=
  inferInstanceAs (Decidable (_ ∧ _ ∧ _))

/-- The last successful call for a buffer. -/
def configured (rxSize : UInt16) (calls : List RxInit) (index : Nat) : Option RxInit :=
  (calls.filter fun a => Valid rxSize a ∧ a.index.toNat = index).getLast?

/-- The module after `CO_CANmodule_init` and the calls of `CO_CANrxBufferInit`. -/
def receiver (dev : Controller) (rxSize txSize : UInt16) (txArray : Vector CANtx txSize.toNat)
    (calls : List RxInit) : CANmodule :=
  calls.foldl (fun m a => (coCANrxBufferInit m a).2) (coCANmoduleInit dev rxSize txSize txArray)

section

variable {dev : Controller} {rxSize txSize : UInt16} {txArray : Vector CANtx txSize.toNat}
  {calls : List RxInit} {rir : UInt32}

theorem configured_valid {index : Nat} {a : RxInit} (h : configured rxSize calls index = some a) :
    Valid rxSize a ∧ a.index.toNat = index := by
  simpa using (List.mem_filter.mp (List.mem_of_getLast? h)).2

theorem configured_snoc (a : RxInit) (i : Nat) :
    configured rxSize (calls ++ [a]) i =
      if Valid rxSize a ∧ a.index.toNat = i then some a else configured rxSize calls i := by
  rw [configured, List.filter_append, List.filter_singleton]
  split_ifs with h
  · simp [h]
  · simp [h, configured]

theorem receiver_snoc (a : RxInit) :
    receiver dev rxSize txSize txArray (calls ++ [a]) =
      (coCANrxBufferInit (receiver dev rxSize txSize txArray calls) a).2 := by
  rw [receiver, List.foldl_append]
  rfl

theorem receiver_frame :
    (receiver dev rxSize txSize txArray calls).dev = dev ∧
      (receiver dev rxSize txSize txArray calls).useCANrxFilters = false ∧
      (receiver dev rxSize txSize txArray calls).rxArray.length = rxSize.toNat := by
  induction calls using List.reverseRecOn with
  | nil => exact ⟨rfl, rfl, List.length_replicate⟩
  | append_singleton calls a ih =>
      rw [receiver_snoc, coCANrxBufferInit]
      split_ifs
      · exact ⟨ih.1, ih.2.1, List.length_set.trans ih.2.2⟩
      · exact ih

theorem getElem?_rxArray (i : Nat) :
    (receiver dev rxSize txSize txArray calls).rxArray[i]? =
      if i < rxSize.toNat then some ((configured rxSize calls i).elim {} RxInit.buffer)
      else none := by
  induction calls using List.reverseRecOn with
  | nil => simp [receiver, coCANmoduleInit, configured, List.getElem?_replicate]
  | append_singleton calls a ih =>
      rw [receiver_snoc, configured_snoc, coCANrxBufferInit, receiver_frame.2.2]
      rcases Classical.em (Valid rxSize a) with hvalid | hvalid
      · rw [if_pos (show a.object.isSome ∧ a.canRxCallback.isSome ∧
          a.index.toNat < rxSize.toNat from hvalid)]
        rw [List.getElem?_set, receiver_frame.2.2]
        rcases eq_or_ne a.index.toNat i with rfl | hne
        · simp [hvalid, hvalid.2.2]
        · simpa [hne] using ih
      · rw [if_neg (show ¬ (a.object.isSome ∧ a.canRxCallback.isSome ∧
          a.index.toNat < rxSize.toNat) from hvalid)]
        simpa [hvalid] using ih

/-- An unconfigured entry takes every frame whose low bits, those of a standard data
frame, are zero. -/
def EntryMatches (rxSize : UInt16) (calls : List RxInit) (rir : UInt32) (i : Nat) : Prop :=
  match configured rxSize calls i with
  | some a => Accepts a rir
  | none => rir &&& 0xFFFF = 0

theorem matches_elim_iff (i : Nat) :
    CANrx.Matches ((configured rxSize calls i).elim {} RxInit.buffer) rir ↔
      EntryMatches rxSize calls rir i := by
  rw [EntryMatches]
  rcases configured rxSize calls i with _ | a
  · exact matches_default_iff rir
  · exact matches_buffer_iff a rir

theorem searchRxArray_cases {n : Nat} (hn : n ≤ rxSize.toNat) :
    (searchRxArray (receiver dev rxSize txSize txArray calls).rxArray rir n = none ∧
        ∀ i < n, ¬ EntryMatches rxSize calls rir i) ∨
      ∃ i < n, EntryMatches rxSize calls rir i ∧
        (∀ j, i < j → j < n → ¬ EntryMatches rxSize calls rir j) ∧
        searchRxArray (receiver dev rxSize txSize txArray calls).rxArray rir n =
          some ((configured rxSize calls i).elim {} RxInit.buffer) := by
  induction n with
  | zero => exact .inl ⟨rfl, nofun⟩
  | succ n ih =>
      rw [searchRxArray, getElem?_rxArray, if_pos (by omega)]
      dsimp only
      split_ifs with hmatch
      · refine .inr ⟨n, by omega, (matches_elim_iff n).mp hmatch, ?_, rfl⟩
        intro j hlt hle
        omega
      · have hnone : ¬ EntryMatches rxSize calls rir n := fun h =>
          hmatch ((matches_elim_iff n).mpr h)
        rcases ih (by omega) with ⟨hsearch, hall⟩ | ⟨i, hi, hentry, hlast, hsearch⟩
        · refine .inl ⟨hsearch, fun i hi => ?_⟩
          rcases Nat.lt_succ_iff_lt_or_eq.mp hi with hi | rfl
          · exact hall i hi
          · exact hnone
        · refine .inr ⟨i, by omega, hentry, ?_, hsearch⟩
          intro j hij hj
          rcases Nat.lt_succ_iff_lt_or_eq.mp hj with hj | rfl
          · exact hlast j hij hj
          · exact hnone

end

/-! ## Dispatch -/

/-- The configured buffer with the lowest index that accepts a frame. -/
def lowest (rxSize : UInt16) (calls : List RxInit) (rir : UInt32) : Option RxInit :=
  (List.range rxSize.toNat).findSome? fun i =>
    (configured rxSize calls i).filter fun a => Accepts a rir

/-- Its callback with the identifier, length and data of the frame. -/
def expectedCalls (rxSize : UInt16) (calls : List RxInit) (r : RxMailbox) : List Call :=
  match lowest rxSize calls r.rir with
  | some a => (a.canRxCallback.map fun f => Call.callback f a.object r.msg).toList
  | none => []

/-- If configured buffers accept the frame, then the matching entry with the highest
index is configured with the callback and object of the lowest of them. -/
def SameTarget (rxSize : UInt16) (calls : List RxInit) (rir : UInt32) : Prop :=
  ∀ a, lowest rxSize calls rir = some a → ∀ i < rxSize.toNat, EntryMatches rxSize calls rir i →
    (∀ j, i < j → j < rxSize.toNat → ¬ EntryMatches rxSize calls rir j) →
      ∃ b, configured rxSize calls i = some b ∧ b.canRxCallback = a.canRxCallback ∧
        b.object = a.object

section

variable {rxSize : UInt16} {calls : List RxInit} {rir : UInt32}

theorem lowest_eq_none :
    lowest rxSize calls rir = none ↔
      ∀ i < rxSize.toNat, ∀ a, configured rxSize calls i = some a → ¬ Accepts a rir := by
  simp [lowest, List.findSome?_eq_none_iff, Option.filter_eq_none_iff]

theorem lowest_some {a : RxInit} (h : lowest rxSize calls rir = some a) :
    ∃ i < rxSize.toNat, configured rxSize calls i = some a ∧ Accepts a rir := by
  obtain ⟨i, hi, hfilter⟩ := List.exists_of_findSome?_eq_some h
  obtain ⟨hconf, haccepts⟩ := Option.filter_eq_some_iff.mp hfilter
  exact ⟨i, List.mem_range.mp hi, hconf, by simpa using haccepts⟩

theorem entryMatches_of_accepts {i : Nat} {a : RxInit} (h : configured rxSize calls i = some a)
    (haccepts : Accepts a rir) : EntryMatches rxSize calls rir i := by
  rw [EntryMatches, h]
  exact haccepts

theorem expectedCalls_some {a : RxInit} {r : RxMailbox}
    (h : lowest rxSize calls r.rir = some a) :
    ∃ f, a.canRxCallback = some f ∧ expectedCalls rxSize calls r = [.callback f a.object r.msg] := by
  obtain ⟨i, -, hconf, -⟩ := lowest_some h
  obtain ⟨f, hf⟩ := Option.isSome_iff_exists.mp (configured_valid hconf).1.2.1
  refine ⟨f, hf, ?_⟩
  rw [expectedCalls, h]
  simp [hf]

theorem expectedCalls_eq_nil {r : RxMailbox} :
    expectedCalls rxSize calls r = [] ↔ lowest rxSize calls r.rir = none := by
  rcases hlow : lowest rxSize calls r.rir with _ | a
  · rw [expectedCalls, hlow]
    exact iff_of_true rfl rfl
  · obtain ⟨f, -, hcalls⟩ := expectedCalls_some hlow
    rw [hcalls]
    exact iff_of_false (List.cons_ne_nil _ _) (Option.some_ne_none a)

theorem callRx_iff {r : RxMailbox} {i : Nat} (hi : i < rxSize.toNat)
    (hentry : EntryMatches rxSize calls r.rir i)
    (hlast : ∀ j, i < j → j < rxSize.toNat → ¬ EntryMatches rxSize calls r.rir j) :
    callRx r (some ((configured rxSize calls i).elim {} RxInit.buffer)) =
        expectedCalls rxSize calls r ↔
      SameTarget rxSize calls r.rir := by
  rcases hconf : configured rxSize calls i with _ | b
  · -- an unconfigured entry has swallowed the frame
    have hnil : callRx r (some ((none : Option RxInit).elim {} RxInit.buffer)) = [] := rfl
    rw [hnil, eq_comm, expectedCalls_eq_nil]
    constructor
    · intro hnone a ha
      exact absurd (hnone.symm.trans ha) (Option.some_ne_none a).symm
    · intro hsame
      rcases hlow : lowest rxSize calls r.rir with _ | a
      · rfl
      · obtain ⟨b, hb, -⟩ := hsame a hlow i hi hentry hlast
        exact absurd (hconf.symm.trans hb) (Option.some_ne_none b).symm
  · obtain ⟨f, hf⟩ := Option.isSome_iff_exists.mp (configured_valid hconf).1.2.1
    have hcall : callRx r (some ((some b).elim {} RxInit.buffer)) =
        [.callback f b.object r.msg] := by
      simp [callRx, RxInit.buffer, hf]
    have haccepts : Accepts b r.rir := by
      rw [EntryMatches, hconf] at hentry
      exact hentry
    obtain ⟨a, ha⟩ : ∃ a, lowest rxSize calls r.rir = some a := by
      rw [← Option.ne_none_iff_exists', Ne, lowest_eq_none]
      intro hnone
      exact hnone i hi b hconf haccepts
    obtain ⟨g, hg, hexpected⟩ := expectedCalls_some ha
    rw [hcall, hexpected]
    constructor
    · intro heq a' ha' j hj hj' hjlast
      obtain rfl := Option.some.inj (ha.symm.trans ha')
      obtain rfl : j = i := by
        rcases Nat.lt_trichotomy j i with hlt | heq | hlt
        · exact absurd hentry (hjlast i hlt hi)
        · exact heq
        · exact absurd hj' (hlast j hlt hj)
      obtain ⟨rfl, hobject⟩ : f = g ∧ b.object = a.object := by simpa using heq
      exact ⟨b, hconf, hf.trans hg.symm, hobject⟩
    · intro hsame
      obtain ⟨b', hb', hcallback, hobject⟩ := hsame a ha i hi hentry hlast
      obtain rfl := Option.some.inj (hconf.symm.trans hb')
      obtain rfl := Option.some.inj (hf.symm.trans (hcallback.trans hg))
      rw [hobject]

end

/-- Exactly the callback of the lowest configured match is invoked if and only if the
search from the end reaches the same callback and object. -/
theorem receive_expected_iff (dev : Controller) (rxSize txSize : UInt16)
    (txArray : Vector CANtx txSize.toNat) (calls : List RxInit) (r : RxMailbox)
    (rest : List RxMailbox) :
    (coCANinterrupt (receiver { dev with fifo := r :: rest, fovr := false } rxSize txSize txArray
        calls)).1 = .rxed r.canMsg :: expectedCalls rxSize calls r ↔
      SameTarget rxSize calls r.rir := by
  obtain ⟨hdev, hfilters, hlength⟩ := @receiver_frame
    { dev with fifo := r :: rest, fovr := false } rxSize txSize txArray calls
  rw [coCANinterrupt, hdev]
  simp only [Bool.false_eq_true, if_false, List.cons.injEq, true_and, matchRx, hfilters, hlength]
  rcases @searchRxArray_cases { dev with fifo := r :: rest, fovr := false } rxSize txSize txArray
      calls r.rir rxSize.toNat (Nat.le_refl _) with
    ⟨hsearch, hall⟩ | ⟨i, hi, hentry, hlast, hsearch⟩
  · have hnone : lowest rxSize calls r.rir = none := by
      rw [lowest_eq_none]
      intro i hi a ha haccepts
      exact hall i hi (entryMatches_of_accepts ha haccepts)
    rw [hsearch, callRx, eq_comm, expectedCalls_eq_nil]
    exact iff_of_true hnone fun a ha => absurd (hnone.symm.trans ha) (Option.some_ne_none a).symm
  · rw [hsearch]
    exact callRx_iff hi hentry hlast

/-- Only the first of two buffers is configured, for the identifier `0x080`. -/
def syncOnly : List RxInit := [⟨0, 0x080, 0x7FF, false, some 1, some 1⟩]

def syncFrame : RxMailbox := ⟨0x10000000, 8, Vector.replicate 8 0⟩

/-- The second buffer swallows the frame. -/
theorem not_receive_unconfigured :
    (coCANinterrupt (receiver { fifo := [syncFrame] } 2 0 (Vector.replicate 0 {}) syncOnly)).1 ≠
      .rxed syncFrame.canMsg :: expectedCalls 2 syncOnly syncFrame := by
  decide +kernel

end ShGateway.CanReceive
