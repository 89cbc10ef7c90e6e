import ShGateway.CanDriver
import ShGateway.Lib.Runs

/-!
What becomes of the frames passed to `CO_CANsend`, and what `CANtxCount` counts.
-/

namespace ShGateway.CanTransmit

open ShGateway.Lib.Runs
open ShGateway.CanDriver

/-! ## Frames that wait -/

/-- The frames in buffers with `bufferFull` set, in the order of the buffers. -/
def waiting (txArray : List CANtx) : List Frame :=
  (txArray.filter (·.bufferFull)).map CANtx.frame

theorem length_waiting (txArray : List CANtx) :
    (waiting txArray).length = txArray.countP (·.bufferFull) := by
  rw [waiting, List.length_map, List.countP_eq_length_filter]

theorem length_waiting_le (txArray : List CANtx) : (waiting txArray).length ≤ txArray.length := by
  rw [length_waiting]
  exact List.countP_le_length

section

variable {txArray : List CANtx} {i : Nat} {b c : CANtx}

theorem cons_set_perm {α : Type*} {l : List α} {i : Nat} {a b : α} (h : l[i]? = some a) :
    (a :: l.set i b).Perm (b :: l) := by
  induction l generalizing i with
  | nil => simp at h
  | cons x l ih =>
      cases i with
      | zero =>
          obtain rfl : x = a := by simpa using h
          exact List.Perm.swap ..
      | succ i =>
          rw [List.set_cons_succ]
          calc (a :: x :: l.set i b).Perm (x :: a :: l.set i b) := List.Perm.swap ..
            _ |>.Perm (x :: b :: l) := (ih (by simpa using h)).cons x
            _ |>.Perm (b :: x :: l) := List.Perm.swap ..

theorem waiting_set (h : txArray[i]? = some b) (c : CANtx) :
    (waiting [b] ++ waiting (txArray.set i c)).Perm (waiting [c] ++ waiting txArray) := by
  have hperm := ((cons_set_perm (b := c) h).filter (·.bufferFull)).map CANtx.frame
  simpa only [waiting, ← List.map_append, ← List.filter_append, List.singleton_append] using hperm

theorem waiting_singleton_full (h : b.bufferFull = true) : waiting [b] = [b.frame] := by
  simp [waiting, h]

theorem waiting_singleton_free (h : b.bufferFull = false) : waiting [b] = [] := by
  simp [waiting, h]

theorem waiting_eq_nil : waiting txArray = [] ↔ ∀ b ∈ txArray, b.bufferFull = false := by
  simp [waiting]

end

/-! ## Runs -/

/-- What happens to the transmit side. The caller of `CO_CANsend` has filled the
buffer; received messages may change the FIFO at any time. -/
inductive TxEvent
  | txBufferInit (index ident : UInt16) (rtr : Bool) (noOfBytes : UInt8) (syncFlag : Bool)
  | send (index : Nat) (data : Vector UInt8 8)
  | complete (k : Fin 3)
  | receive (fifo : List RxMailbox) (fovr : Bool)
  | interrupt

inductive Event
  | tx (ev : TxEvent)
  | clearPendingSyncPDOs

/-- The caller writes the data bytes of a buffer. -/
def fill (m : CANmodule) (index : Nat) (data : Vector UInt8 8) : CANmodule :=
  { m with txArray := m.txArray.modify index fun b => { b with data := data } }

/-- Buffers are set up while no message waits in them, and only a mailbox with a
request completes it. -/
def step (m : CANmodule) : TxEvent → Option CANmodule
  | .txBufferInit index ident rtr noOfBytes syncFlag =>
      if (m.txArray[index.toNat]?.map (·.bufferFull)) = some false then
        coCANtxBufferInit m index ident rtr noOfBytes syncFlag
      else none
  | .send index data => (coCANsend (fill m index data) index).map Prod.snd
  | .complete k => if m.dev.tme k then none else some { m with dev := m.dev.complete k }
  | .receive fifo fovr => some { m with dev := { m.dev with fifo := fifo, fovr := fovr } }
  | .interrupt => some (coCANinterrupt m).2

def stepAll (m : CANmodule) : Event → Option CANmodule
  | .tx ev => step m ev
  | .clearPendingSyncPDOs => some (coCANclearPendingSyncPDOs m)

/-- The module with the frames of the calls of `CO_CANsend` that returned
`CO_ERROR_NO`. -/
structure System where
  m : CANmodule
  accepted : List Frame

def System.accepts (s : System) : TxEvent → List Frame
  | .send index data =>
      match coCANsend (fill s.m index data) index, (fill s.m index data).txArray[index]? with
      | some (.no, _), some b => [b.frame]
      | _, _ => []
  | _ => []

def System.step (s : System) (ev : TxEvent) : Option System :=
  (CanTransmit.step s.m ev).map fun m => ⟨m, s.accepted ++ s.accepts ev⟩

/-! ## One step -/

section

variable {m m' : CANmodule} {i : Nat} {b : CANtx} {data : Vector UInt8 8}

theorem canDrvTx_of_some {d : Controller} {k : Fin 3} (hk : d.emptyMailbox = some k) (b : CANtx) :
    ∃ r, canDrvTx d b.ident b.dlc b.data = (true, d.request k r) ∧ r.frame = b.frame := by
  refine ⟨_, ?_, frame_load (d.txMailBox k) b.data b.ident_txrq b.dlc_and⟩
  rw [canDrvTx, hk]

theorem canDrvTx_of_none {d : Controller} (hk : d.emptyMailbox = none) (b : CANtx) :
    canDrvTx d b.ident b.dlc b.data = (false, d) := by
  rw [canDrvTx, hk]

theorem emptyMailbox_eq_none {d : Controller} : d.emptyMailbox = none ↔ ∀ k, d.tme k = false := by
  simp only [Controller.emptyMailbox, Fin.forall_fin_succ]
  split_ifs <;> simp_all

theorem getElem?_fill (h : m.txArray[i]? = some b) (data : Vector UInt8 8) :
    (fill m i data).txArray[i]? = some { b with data := data } := by
  simp [fill, h]

theorem set_fill (h : m.txArray[i]? = some b) (data : Vector UInt8 8) (c : CANtx) :
    (fill m i data).txArray.set i c = m.txArray.set i c := by
  rw [fill, List.modify_eq_set_getElem?, h]
  simp

theorem send_cases {err : ReturnError} (h : coCANsend (fill m i data) i = some (err, m')) :
    ∃ b, m.txArray[i]? = some b ∧ err = (if b.bufferFull then .txOverflow else .no) ∧
      ((∃ k r, m.dev.emptyMailbox = some k ∧ r.frame = CANtx.frame { b with data := data } ∧
          m'.dev = m.dev.request k r ∧
          (m.canTxCount = 0 ∧ m'.canTxCount = m.canTxCount ∧
              m'.txArray = m.txArray.set i { b with data := data } ∨
            m.canTxCount ≠ 0 ∧ m'.canTxCount = m.canTxCount + 1 ∧
              m'.txArray = m.txArray.set i { b with data := data, bufferFull := true })) ∨
        (m.dev.emptyMailbox = none ∧ m'.dev = m.dev ∧ m'.canTxCount = m.canTxCount + 1 ∧
          m'.txArray = m.txArray.set i { b with data := data, bufferFull := true })) := by
  obtain ⟨c, hc, h⟩ := Option.map_eq_some_iff.mp h
  obtain ⟨b, hb, rfl⟩ : ∃ b, m.txArray[i]? = some b ∧ c = { b with data := data } := by
    rw [fill, List.getElem?_modify_eq] at hc
    obtain ⟨b, hb, rfl⟩ := Option.map_eq_some_iff.mp hc
    exact ⟨b, hb, rfl⟩
  refine ⟨b, hb, ?_⟩
  have hfree : m.txArray.set i { b with data := data } = (fill m i data).txArray := by
    rw [fill, List.modify_eq_set_getElem?, hb]
    rfl
  rcases hk : m.dev.emptyMailbox with _ | k
  · rw [show (fill m i data).dev = m.dev from rfl, canDrvTx_of_none hk] at h
    obtain ⟨rfl, rfl⟩ := Prod.mk.inj h
    exact ⟨rfl, .inr ⟨rfl, rfl, rfl, set_fill hb data _⟩⟩
  · obtain ⟨r, hr, hframe⟩ := canDrvTx_of_some hk { b with data := data }
    rw [show (fill m i data).dev = m.dev from rfl, hr] at h
    rcases eq_or_ne m.canTxCount 0 with hcount | hcount
    · have hdirect : (true && (fill m i data).canTxCount == 0) = true := by simp [fill, hcount]
      simp only [hdirect, if_true] at h
      obtain ⟨rfl, rfl⟩ := Prod.mk.inj h
      exact ⟨rfl, .inl ⟨k, r, rfl, hframe, rfl, .inl ⟨hcount, rfl, hfree.symm⟩⟩⟩
    · have hqueue : (true && (fill m i data).canTxCount == 0) = false := by simp [fill, hcount]
      simp only [hqueue, Bool.false_eq_true, if_false] at h
      obtain ⟨rfl, rfl⟩ := Prod.mk.inj h
      exact ⟨rfl, .inl ⟨k, r, rfl, hframe, rfl, .inr ⟨hcount, rfl, set_fill hb data _⟩⟩⟩

/-- The poll picks the waiting message of the buffer with the lowest index, or
leaves the buffers and mailboxes as they are. -/
def PicksLowest (m : CANmodule) : Prop :=
  let m' := (coCANinterrupt m).2
  m'.dev.requested = m.dev.requested ∧ m'.txArray = m.txArray ∨
    ∃ i b, m.txArray[i]? = some b ∧ b.bufferFull = true ∧
      (∀ j < i, ∀ c, m.txArray[j]? = some c → c.bufferFull = false) ∧
      m'.dev.requested = m.dev.requested ++ [b.frame] ∧
      m'.txArray = m.txArray.set i { b with bufferFull := false }

theorem tme_of_isMessageSent {d : Controller} {k : Fin 3} (h : canDrvIsMessageSent d = some k) :
    d.rqcp k = true ∧ d.tme k = true := by
  have hk : d.rqcp k = true := by
    rw [canDrvIsMessageSent] at h
    split_ifs at h with h0 h1 h2 <;> obtain rfl := Option.some.inj h <;> assumption
  exact ⟨hk, d.tme_of_rqcp k hk⟩

theorem isMessageSent_eq_none {d : Controller} :
    canDrvIsMessageSent d = none ↔ ∀ k, d.rqcp k = false := by
  simp only [canDrvIsMessageSent, Fin.forall_fin_succ]
  split_ifs <;> simp_all

theorem findIdx?_some {txArray : List CANtx} {i : Nat}
    (h : txArray.findIdx? (·.bufferFull) = some i) :
    ∃ b, txArray[i]? = some b ∧ b.bufferFull = true ∧
      ∀ j < i, ∀ c, txArray[j]? = some c → c.bufferFull = false := by
  obtain ⟨hi, hfull, hfirst⟩ := List.findIdx?_eq_some_iff_getElem.mp h
  refine ⟨txArray[i], List.getElem?_eq_getElem hi, hfull, ?_⟩
  intro j hj c hc
  obtain ⟨hlt, rfl⟩ := List.getElem?_eq_some_iff.mp hc
  exact Bool.eq_false_iff.mpr (hfirst j hj)

theorem sendPending_cases (m : CANmodule) {k : Fin 3} (hk : m.dev.emptyMailbox = some k) :
    (waiting m.txArray = [] ∧ sendPending m = { m with canTxCount := 0 }) ∨
      ∃ i b r, m.txArray[i]? = some b ∧ b.bufferFull = true ∧
        (∀ j < i, ∀ c, m.txArray[j]? = some c → c.bufferFull = false) ∧ r.frame = b.frame ∧
        (sendPending m).dev = m.dev.request k r ∧
        (sendPending m).canTxCount = m.canTxCount - 1 ∧
        (sendPending m).txArray = m.txArray.set i { b with bufferFull := false } := by
  rcases hfind : m.txArray.findIdx? (·.bufferFull) with _ | i
  · refine .inl ⟨?_, ?_⟩
    · rw [waiting_eq_nil]
      simpa using hfind
    · rw [sendPending, hfind]
  · obtain ⟨b, hb, hfull, hfirst⟩ := findIdx?_some hfind
    obtain ⟨r, hr, hframe⟩ := canDrvTx_of_some hk b
    refine .inr ⟨i, b, r, hb, hfull, hfirst, hframe, ?_⟩
    simp only [sendPending, hfind, hb, hr]
    exact ⟨trivial, trivial, trivial⟩

/-- A poll changes nothing of the transmit side, or finds no message to send, or
sends one. -/
theorem interrupt_cases (h : (coCANinterrupt m).2 = m') :
    (m'.dev.requested = m.dev.requested ∧ m'.dev.tme = m.dev.tme ∧ m'.dev.rqcp = m.dev.rqcp ∧
        m'.txArray = m.txArray ∧ m'.canTxCount = m.canTxCount ∧
        (m.dev.fifo = [] → ∀ k, m.dev.rqcp k = false)) ∨
      (m'.dev.requested = m.dev.requested ∧ m'.txArray = m.txArray ∧ m'.canTxCount = 0 ∧
        (m.canTxCount = 0 ∨ waiting m.txArray = [])) ∨
      ∃ i b k, m.txArray[i]? = some b ∧ b.bufferFull = true ∧
        (∀ j < i, ∀ c, m.txArray[j]? = some c → c.bufferFull = false) ∧
        m.canTxCount ≠ 0 ∧ m'.dev.tme k = false ∧
        m'.dev.requested = m.dev.requested ++ [b.frame] ∧ m'.canTxCount = m.canTxCount - 1 ∧
        m'.txArray = m.txArray.set i { b with bufferFull := false } := by
  subst h
  rw [coCANinterrupt]
  rcases m.dev.fifo with _ | ⟨r, fifo⟩
  · rcases hsent : canDrvIsMessageSent m.dev with _ | k
    · exact .inl ⟨rfl, rfl, rfl, rfl, rfl, fun _ => isMessageSent_eq_none.mp hsent⟩
    · rcases eq_or_ne m.canTxCount 0 with hcount | hcount
      · simp only [hcount, ne_eq, not_true_eq_false, if_false]
        exact .inr (.inl ⟨rfl, trivial, trivial, .inl trivial⟩)
      · simp only [hcount, ne_eq, not_false_eq_true, if_true]
        -- the mailbox that reported its completion is still empty
        obtain ⟨j, hj⟩ : ∃ j, (canDrvReleaseTxMessage m.dev k).emptyMailbox = some j := by
          rw [← Option.ne_none_iff_exists', Ne, emptyMailbox_eq_none]
          intro hnone
          exact absurd ((tme_of_isMessageSent hsent).2.symm.trans (hnone k)) (by decide)
        rcases sendPending_cases { m with
            dev := canDrvReleaseTxMessage m.dev k
            firstCANtxMessage := false
            bufferInhibitFlag := false } hj with
          ⟨hnil, heq⟩ | ⟨i, b, r, hb, hfull, hfirst, hframe, hdev, hrest⟩
        · rw [heq]
          exact .inr (.inl ⟨rfl, rfl, rfl, .inr hnil⟩)
        · refine .inr (.inr ⟨i, b, j, hb, hfull, hfirst, trivial, ?_, ?_, hrest⟩)
          · rw [hdev]
            exact Function.update_self ..
          · rw [hdev, ← hframe]
            rfl
  · rcases m.dev.fovr with _ | _
    · exact .inl ⟨rfl, rfl, rfl, rfl, rfl, nofun⟩
    · exact .inl ⟨rfl, rfl, rfl, rfl, rfl, nofun⟩

theorem picksLowest (m : CANmodule) : PicksLowest m := by
  rcases interrupt_cases (m := m) rfl with
    ⟨hreq, -, -, htx, -, -⟩ | ⟨hreq, htx, -, -⟩ |
      ⟨i, b, k, hb, hfull, hfirst, -, -, hreq, -, htx⟩
  · exact .inl ⟨hreq, htx⟩
  · exact .inl ⟨hreq, htx⟩
  · exact .inr ⟨i, b, hb, hfull, hfirst, hreq, htx⟩

end

/-! ## Exactly one frame for an accepted call -/

/-- A request is in a mailbox, or its completion has not been polled yet. -/
def Busy (d : Controller) : Prop := ∃ k, d.tme k = false ∨ d.rqcp k = true

/-- Each accepted frame has either been written to a mailbox once or waits, nothing
else has been written, and while a frame waits a transmit interrupt is still to
come and will look for it. -/
structure ExactlyOnce (s : System) : Prop where
  accounted : s.accepted.Perm (s.m.dev.requested ++ waiting s.m.txArray)
  awaited : waiting s.m.txArray ≠ [] → s.m.canTxCount ≠ 0 ∧ Busy s.m.dev

/-- The counter covers the frames that wait. -/
structure Sound (s : System) : Prop extends ExactlyOnce s where
  counted : (waiting s.m.txArray).length ≤ s.m.canTxCount.toNat

/-- A call of `CO_CANsend` finds no mailbox empty while messages are counted, and
if it finds none empty, it neither wraps the counter nor replaces the data of a
message that waits. -/
def Orderly (s : System) : TxEvent → Prop
  | .send index data =>
      (s.m.dev.emptyMailbox ≠ none → s.m.canTxCount = 0) ∧
        (s.m.dev.emptyMailbox = none → s.m.canTxCount ≠ 0xFFFF ∧
          ∀ b, s.m.txArray[index]? = some b → b.bufferFull = true → data = b.data)
  | _ => True

section

variable {s s' : System}

theorem Sound.of_same (h : Sound s) (haccepted : s'.accepted = s.accepted)
    (hreq : s'.m.dev.requested = s.m.dev.requested) (hcount : s'.m.canTxCount = s.m.canTxCount)
    (htx : (waiting s'.m.txArray).Perm (waiting s.m.txArray))
    (hbusy : Busy s.m.dev → Busy s'.m.dev) : Sound s' where
  accounted := by
    rw [haccepted, hreq]
    exact h.accounted.trans (htx.symm.append_left _)
  awaited := by
    intro hwait
    have hwait' : waiting s.m.txArray ≠ [] := by
      intro hnil
      rw [hnil] at htx
      exact hwait htx.eq_nil
    rw [hcount]
    exact ⟨(h.awaited hwait').1, hbusy (h.awaited hwait').2⟩
  counted := by
    rw [hcount, htx.length_eq]
    exact h.counted

theorem step_send {i : Nat} {data : Vector UInt8 8} (h : s.step (.send i data) = some s') :
    ∃ err b, coCANsend (fill s.m i data) i = some (err, s'.m) ∧ s.m.txArray[i]? = some b ∧
      s'.accepted = s.accepted ++
        if b.bufferFull then [] else [CANtx.frame { b with data := data }] := by
  obtain ⟨m', hm, rfl⟩ := Option.map_eq_some_iff.mp h
  obtain ⟨⟨err, m'⟩, hsend, rfl⟩ := Option.map_eq_some_iff.mp hm
  obtain ⟨b, hb, herr, -⟩ := send_cases hsend
  refine ⟨err, b, hsend, hb, ?_⟩
  simp only [System.accepts, hsend, getElem?_fill hb]
  rcases hfull : b.bufferFull with _ | _ <;> rw [hfull] at herr <;> subst herr <;> rfl

theorem waiting_set_full {txArray : List CANtx} {i : Nat} {b c : CANtx}
    (hb : txArray[i]? = some b) (hc : c.bufferFull = true) :
    (waiting [b] ++ waiting (txArray.set i c)).Perm (c.frame :: waiting txArray) := by
  have hperm := waiting_set hb c
  rwa [waiting_singleton_full hc] at hperm

theorem toNat_add_one {n : UInt16} (h : n ≠ 0xFFFF) : (n + 1).toNat = n.toNat + 1 := by
  have hlt := n.toNat_lt
  have hne : n.toNat ≠ 65535 := fun heq => h (UInt16.toNat_inj.mp heq)
  rw [UInt16.toNat_add, UInt16.toNat_one]
  omega

theorem toNat_sub_one {n : UInt16} (h : n ≠ 0) : (n - 1).toNat = n.toNat - 1 := by
  have hlt := n.toNat_lt
  have hne : n.toNat ≠ 0 := fun heq => h (UInt16.toNat_inj.mp heq)
  rw [UInt16.toNat_sub, UInt16.toNat_one]
  omega

theorem ne_zero_of_toNat {n : UInt16} (h : 0 < n.toNat) : n ≠ 0 := by
  rintro rfl
  exact absurd h (by decide)

theorem Sound.send (h : Sound s) {i : Nat} {data : Vector UInt8 8}
    (hq : Orderly s (.send i data)) (hstep : s.step (.send i data) = some s') : Sound s' := by
  obtain ⟨err, b, hsend, hb, haccepted⟩ := step_send hstep
  obtain ⟨b', hb', -, hcases⟩ := send_cases hsend
  obtain rfl := Option.some.inj (hb.symm.trans hb')
  rcases hcases with ⟨k, r, hk, hframe, hdev, hcases⟩ | ⟨hk, hdev, hcount, htx⟩
  · have hzero := hq.1 (hk ▸ Option.some_ne_none k)
    rcases hcases with ⟨-, hcount, htx⟩ | ⟨hne, -⟩
    · -- nothing waits, so the frame goes out directly
      have hnil : waiting s.m.txArray = [] := by
        have hle := h.counted
        rw [hzero] at hle
        exact List.eq_nil_of_length_eq_zero (Nat.le_zero.mp hle)
      have hfree := waiting_eq_nil.mp hnil b (List.mem_of_getElem? hb)
      have hperm := waiting_set hb { b with data := data }
      rw [waiting_singleton_free hfree, waiting_singleton_free (by exact hfree), ← htx,
        hnil] at hperm
      have hnil' : waiting s'.m.txArray = [] := hperm.eq_nil
      refine ⟨⟨?_, fun hwait => absurd hnil' hwait⟩, by rw [hnil']; exact Nat.zero_le _⟩
      have hacc := h.accounted
      rw [hnil, List.append_nil] at hacc
      rw [haccepted, hfree, hnil', List.append_nil, hdev]
      simp only [Controller.request, hframe, Bool.false_eq_true, if_false]
      exact hacc.append_right _
    · exact absurd hzero hne
  · obtain ⟨hmax, hsame⟩ := hq.2 hk
    have hperm := waiting_set_full (c := { b with data := data, bufferFull := true }) hb rfl
    rw [← htx] at hperm
    have hlength := hperm.length_eq
    have hbusy : Busy s'.m.dev := ⟨0, .inl (by rw [hdev]; exact emptyMailbox_eq_none.mp hk 0)⟩
    have hcount' : s'.m.canTxCount.toNat = s.m.canTxCount.toNat + 1 := by
      rw [hcount, toNat_add_one hmax]
    refine ⟨⟨?_, fun _ => ⟨ne_zero_of_toNat (by omega), hbusy⟩⟩, ?_⟩
    · rw [haccepted, hdev]
      rcases hfull : b.bufferFull with _ | _
      · rw [waiting_singleton_free hfull, List.nil_append] at hperm
        calc (s.accepted ++ [CANtx.frame { b with data := data }]).Perm
              (s.m.dev.requested ++ waiting s.m.txArray ++ [CANtx.frame { b with data := data }]) :=
            h.accounted.append_right _
          _ = s.m.dev.requested ++
                (waiting s.m.txArray ++ [CANtx.frame { b with data := data }]) :=
            List.append_assoc ..
          _ |>.Perm (s.m.dev.requested ++ waiting s'.m.txArray) :=
            ((List.perm_append_singleton ..).trans hperm.symm).append_left _
      · rw [waiting_singleton_full hfull, List.singleton_append, hsame b hb hfull] at hperm
        rw [if_pos rfl, List.append_nil]
        exact h.accounted.trans (hperm.cons_inv.symm.append_left _)
    · have hle := h.counted
      rw [hcount']
      simp only [List.length_append, List.length_cons] at hlength
      omega

theorem Sound.interrupt (h : Sound s) (hm : (coCANinterrupt s.m).2 = s'.m)
    (haccepted : s'.accepted = s.accepted) : Sound s' := by
  rcases interrupt_cases hm with
    ⟨hreq, htme, hrqcp, htx, hcount, -⟩ | ⟨hreq, htx, hcount, hnone⟩ |
      ⟨i, b, k, hb, hfull, -, hne, hk, hreq, hcount, htx⟩
  · refine h.of_same haccepted hreq hcount (by rw [htx]) ?_
    rw [Busy, Busy, htme, hrqcp]
    exact id
  · have hnil : waiting s.m.txArray = [] := by
      rcases hnone with hzero | hnil
      · by_contra hwait
        exact (h.awaited hwait).1 hzero
      · exact hnil
    refine ⟨⟨?_, fun hwait => absurd (htx ▸ hnil) hwait⟩, ?_⟩
    · rw [haccepted, hreq, htx]
      exact h.accounted
    · rw [htx, hnil]
      exact Nat.zero_le _
  · have hperm := waiting_set hb { b with bufferFull := false }
    rw [waiting_singleton_full hfull, waiting_singleton_free rfl, ← htx, List.singleton_append,
      List.nil_append] at hperm
    have hlength := hperm.length_eq
    have hle := h.counted
    rw [List.length_cons] at hlength
    have hcount' : s'.m.canTxCount.toNat = s.m.canTxCount.toNat - 1 := by
      rw [hcount, toNat_sub_one hne]
    refine ⟨⟨?_, ?_⟩, by omega⟩
    · calc s'.accepted = s.accepted := haccepted
        _ |>.Perm (s.m.dev.requested ++ waiting s.m.txArray) := h.accounted
        _ |>.Perm (s.m.dev.requested ++ b.frame :: waiting s'.m.txArray) :=
          hperm.symm.append_left _
        _ = s'.m.dev.requested ++ waiting s'.m.txArray := by
          rw [hreq, List.append_assoc, List.singleton_append]
    · intro hwait
      have hpos := List.length_pos_iff.mpr hwait
      exact ⟨ne_zero_of_toNat (by omega), k, .inl hk⟩

theorem step_txBufferInit {m m' : CANmodule} {index ident : UInt16} {rtr : Bool}
    {noOfBytes : UInt8} {syncFlag : Bool}
    (h : step m (.txBufferInit index ident rtr noOfBytes syncFlag) = some m') :
    m'.dev = m.dev ∧ m'.canTxCount = m.canTxCount ∧ m'.txArray.length = m.txArray.length ∧
      (waiting m'.txArray).Perm (waiting m.txArray) := by
  rw [step] at h
  split_ifs at h with hfree
  obtain ⟨b, hb, hfull⟩ := Option.map_eq_some_iff.mp hfree
  rw [coCANtxBufferInit, hb, Option.map_some] at h
  obtain rfl := Option.some.inj h
  refine ⟨rfl, rfl, List.length_set, ?_⟩
  have hperm := waiting_set hb { b with
    ident := (ident &&& 0x7FF).toUInt32 <<< 21 ||| if rtr then canRtr else 0
    dlc := noOfBytes &&& 0xF
    bufferFull := false
    syncFlag := syncFlag
    ident_txrq := ident_txrq_shiftLeft ident rtr
    dlc_and := by rw [UInt8.and_assoc]; rfl }
  rwa [waiting_singleton_free hfull, waiting_singleton_free rfl, List.nil_append,
    List.nil_append] at hperm

theorem Sound.step (h : Sound s) {ev : TxEvent} (hq : Orderly s ev)
    (hstep : s.step ev = some s') : Sound s' := by
  cases ev with
  | send i data => exact h.send hq hstep
  | txBufferInit index ident rtr noOfBytes syncFlag =>
      obtain ⟨m', hm, rfl⟩ := Option.map_eq_some_iff.mp hstep
      obtain ⟨hdev, hcount, -, hwait⟩ := step_txBufferInit hm
      refine h.of_same (List.append_nil _) (by rw [hdev]) hcount hwait ?_
      rw [hdev]
      exact id
  | complete k =>
      obtain ⟨m', hm, rfl⟩ := Option.map_eq_some_iff.mp hstep
      rw [CanTransmit.step] at hm
      split_ifs at hm
      obtain rfl := Option.some.inj hm
      exact h.of_same (List.append_nil _) rfl rfl (List.Perm.refl _)
        fun _ => ⟨k, .inr (Function.update_self ..)⟩
  | receive fifo fovr =>
      obtain ⟨m', hm, rfl⟩ := Option.map_eq_some_iff.mp hstep
      obtain rfl := Option.some.inj hm
      exact h.of_same (List.append_nil _) rfl rfl (List.Perm.refl _) id
  | interrupt =>
      obtain ⟨m', hm, rfl⟩ := Option.map_eq_some_iff.mp hstep
      exact h.interrupt (Option.some.inj hm) (List.append_nil _)

/-- Of a frame that is written and kept waiting as well, there are two. -/
theorem not_exactlyOnce_of_both {i : Nat} {b c : CANtx} (h : Sound s)
    (hb : s.m.txArray[i]? = some b) (hc : c.bufferFull = true)
    (haccepted : s'.accepted = s.accepted ++ if b.bufferFull then [] else [c.frame])
    (hreq : s'.m.dev.requested = s.m.dev.requested ++ [c.frame])
    (htx : s'.m.txArray = s.m.txArray.set i c) : ¬ ExactlyOnce s' := by
  intro hnext
  have hperm := (waiting_set_full hb hc).length_eq
  have hbefore := h.accounted.length_eq
  have hafter := hnext.accounted.length_eq
  rw [haccepted, hreq, htx] at hafter
  rcases hfull : b.bufferFull with _ | _
  · rw [waiting_singleton_free hfull] at hperm
    simp only [hfull, Bool.false_eq_true, if_false, List.length_append, List.length_cons,
      List.length_nil] at hperm hbefore hafter
    omega
  · rw [waiting_singleton_full hfull] at hperm
    simp only [hfull, if_true, List.length_append, List.length_cons,
      List.length_nil] at hperm hbefore hafter
    omega

theorem not_exactlyOnce_of_not_orderly (h : Sound s) {ev : TxEvent} (hq : ¬ Orderly s ev)
    (hstep : s.step ev = some s') : ¬ ExactlyOnce s' := by
  cases ev with
  | send i data =>
      obtain ⟨err, b, hsend, hb, haccepted⟩ := step_send hstep
      obtain ⟨b', hb', -, hcases⟩ := send_cases hsend
      obtain rfl := Option.some.inj (hb.symm.trans hb')
      rcases hcases with ⟨k, r, hk, hframe, hdev, hcases⟩ | ⟨hk, hdev, hcount, htx⟩
      · rcases hcases with ⟨hzero, -⟩ | ⟨-, -, htx⟩
        · refine absurd ⟨fun _ => hzero, fun hnone => ?_⟩ hq
          exact absurd (hk.symm.trans hnone) (by simp)
        · refine @not_exactlyOnce_of_both s s' i b { b with data := data, bufferFull := true } h hb
            rfl haccepted ?_ htx
          rw [hdev, Controller.request, hframe]
          rfl
      · intro hnext
        refine hq ⟨fun hne => absurd hk hne, fun _ => ⟨?_, ?_⟩⟩
        · intro hmax
          -- the counter wraps to zero under the message just stored
          have hwait : waiting s'.m.txArray ≠ [] := by
            intro hnil
            rw [htx, waiting_eq_nil] at hnil
            obtain ⟨hi, -⟩ := List.getElem?_eq_some_iff.mp hb
            exact absurd (hnil _ (List.mem_set hi _)) (by simp)
          refine (hnext.awaited hwait).1 ?_
          rw [hcount, hmax]
          rfl
        · intro c hc hfull
          obtain rfl := Option.some.inj (hb.symm.trans hc)
          have hperm := waiting_set_full (c := { b with data := data, bufferFull := true }) hb rfl
          rw [← htx, waiting_singleton_full hfull] at hperm
          have hsame : (waiting s'.m.txArray).Perm (waiting s.m.txArray) := by
            have hacc := hnext.accounted
            rw [haccepted, hfull, if_pos rfl, List.append_nil, hdev] at hacc
            exact (List.perm_append_left_iff _).mp (hacc.symm.trans h.accounted)
          -- only the replaced frame could differ
          have hmem : b.frame = CANtx.frame { b with data := data, bufferFull := true } := by
            have hswap := hperm.trans (hsame.symm.cons _)
            exact List.singleton_perm_singleton.mp
              ((List.perm_append_right_iff (waiting s'.m.txArray)).mp hswap)
          exact (congrArg Frame.data hmem).symm
  | txBufferInit index ident rtr noOfBytes syncFlag => exact absurd trivial hq
  | complete k => exact absurd trivial hq
  | receive fifo fovr => exact absurd trivial hq
  | interrupt => exact absurd trivial hq

end

/-! ## Frames that wait are sent in the end -/

section

variable {s : System}

theorem fifo_interrupt {m : CANmodule} (h : m.dev.fifo = []) :
    (coCANinterrupt m).2.dev.fifo = [] := by
  have hpending : ∀ n : CANmodule, (sendPending n).dev.fifo = n.dev.fifo := by
    intro n
    simp only [sendPending, canDrvTx]
    split <;> [split <;> [split <;> rfl; rfl]; rfl]
  rw [coCANinterrupt, h]
  rcases canDrvIsMessageSent m.dev with _ | k
  · exact h
  · dsimp only
    split_ifs
    · exact (hpending _).trans h
    · exact h

theorem length_waiting_interrupt {m : CANmodule} (hfifo : m.dev.fifo = [])
    (hsent : ∃ k, m.dev.rqcp k = true) (hcount : m.canTxCount ≠ 0) (hwait : waiting m.txArray ≠ []) :
    (waiting (coCANinterrupt m).2.txArray).length + 1 = (waiting m.txArray).length := by
  rcases interrupt_cases (m := m) rfl with
    ⟨-, -, -, -, -, hnone⟩ | ⟨-, -, -, hzero | hnil⟩ |
      ⟨i, b, k, hb, hfull, -, -, -, -, -, htx⟩
  · obtain ⟨k, hk⟩ := hsent
    exact absurd (hk.symm.trans (hnone hfifo k)) (by decide)
  · exact absurd hzero hcount
  · exact absurd hnil hwait
  · have hlength := (waiting_set hb { b with bufferFull := false }).length_eq
    rw [waiting_singleton_full hfull, waiting_singleton_free rfl, ← htx] at hlength
    simpa [Nat.add_comm] using hlength

/-- Completions and polls alone bring every frame that waits to a mailbox. -/
theorem Sound.drains (h : Sound s) (hfifo : s.m.dev.fifo = []) :
    ∃ (evs : List TxEvent) (s' : System), evs.foldlM System.step s = some s' ∧
      (∀ ev ∈ evs, ev = .interrupt ∨ ∃ k, ev = .complete k) ∧
      s'.accepted = s.accepted ∧ s.accepted.Perm s'.m.dev.requested := by
  induction hn : (waiting s.m.txArray).length generalizing s with
  | zero =>
      refine ⟨[], s, rfl, nofun, rfl, ?_⟩
      have hacc := h.accounted
      rwa [List.eq_nil_of_length_eq_zero hn, List.append_nil] at hacc
  | succ n ih =>
      have hwait : waiting s.m.txArray ≠ [] := by
        intro hnil
        rw [hnil] at hn
        exact absurd hn (by simp)
      -- a completion is flagged at once or after one of the mailboxes is done
      obtain ⟨pre, t, hpre, hevs, ht, hacc, hsent, htfifo, htx⟩ :
          ∃ (pre : List TxEvent) (t : System), pre.foldlM System.step s = some t ∧
            (∀ ev ∈ pre, ev = .interrupt ∨ ∃ k, ev = .complete k) ∧ Sound t ∧
            t.accepted = s.accepted ∧ (∃ k, t.m.dev.rqcp k = true) ∧ t.m.dev.fifo = [] ∧
            t.m.txArray = s.m.txArray := by
        obtain ⟨k, hk | hk⟩ := (h.awaited hwait).2
        · have hstep : s.step (.complete k) =
              some ⟨{ s.m with dev := s.m.dev.complete k }, s.accepted⟩ := by
            simp [System.step, CanTransmit.step, hk, System.accepts]
          refine ⟨[.complete k], _, by simpa using hstep, by simp, h.step (show Orderly s (.complete k) from trivial) hstep, rfl,
            ⟨k, Function.update_self ..⟩, hfifo, rfl⟩
        · exact ⟨[], s, rfl, nofun, h, rfl, ⟨k, hk⟩, hfifo, rfl⟩
      rw [← htx] at hn hwait
      have hpoll : t.step .interrupt = some ⟨(coCANinterrupt t.m).2, t.accepted⟩ := by
        simp [System.step, CanTransmit.step, System.accepts]
      have hlength := length_waiting_interrupt htfifo hsent (ht.awaited hwait).1 hwait
      obtain ⟨evs, s', hrun, hmem, haccepted, hperm⟩ :=
        ih (ht.step (show Orderly t .interrupt from trivial) hpoll) (fifo_interrupt htfifo) (by dsimp only; omega)
      refine ⟨pre ++ .interrupt :: evs, s', ?_, ?_, haccepted.trans hacc, hacc ▸ hperm⟩
      · rw [List.foldlM_append, hpre]
        simpa [hpoll] using hrun
      · intro ev hev
        rcases List.mem_append.mp hev with hev | hev
        · exact hevs ev hev
        · rcases List.mem_cons.mp hev with rfl | hev
          · exact .inl rfl
          · exact hmem ev hev

end

/-! ## Runs from the initial state -/

/-- The module after `CO_CANmodule_init`; what was requested before counts as
accepted before. -/
def System.init (dev : Controller) (rxSize txSize : UInt16)
    (txArray : Vector CANtx txSize.toNat) : System where
  m := coCANmoduleInit dev rxSize txSize txArray
  accepted := dev.requested

theorem waiting_init (dev : Controller) (rxSize txSize : UInt16)
    (txArray : Vector CANtx txSize.toNat) :
    waiting (coCANmoduleInit dev rxSize txSize txArray).txArray = [] := by
  rw [waiting_eq_nil]
  intro b hb
  obtain ⟨c, -, rfl⟩ := List.mem_map.mp hb
  rfl

theorem sound_init (dev : Controller) (rxSize txSize : UInt16)
    (txArray : Vector CANtx txSize.toNat) : Sound (System.init dev rxSize txSize txArray) := by
  have hnil := waiting_init dev rxSize txSize txArray
  refine ⟨⟨?_, fun hwait => absurd hnil hwait⟩, ?_⟩
  · rw [System.init, hnil, List.append_nil]
    exact List.Perm.refl _
  · rw [System.init, hnil]
    exact Nat.zero_le _

/-- Every accepted frame is written exactly once all through a run exactly if its
calls of `CO_CANsend` are orderly, and whatever the run, the next poll picks the
lowest index. -/
theorem run_exactlyOnce_iff (dev : Controller) (rxSize txSize : UInt16)
    (txArray : Vector CANtx txSize.toNat) {evs : List TxEvent} {s : System}
    (h : evs.foldlM System.step (System.init dev rxSize txSize txArray) = some s) :
    (Throughout System.step (System.init dev rxSize txSize txArray) ExactlyOnce evs ↔
        AtSteps System.step (System.init dev rxSize txSize txArray) Orderly evs) ∧
      PicksLowest s.m := by
  refine ⟨?_, picksLowest s.m⟩
  exact @throughout_iff_atSteps _ _ System.step _ s evs Sound ExactlyOnce Orderly
    (sound_init dev rxSize txSize txArray) (fun s hs => hs.toExactlyOnce)
    (fun s ev s' hs hq hstep => hs.step hq hstep)
    (fun s ev s' hs hq hstep => not_exactlyOnce_of_not_orderly hs hq hstep) h

def sampleSystem : System := System.init {} 0 5 (Vector.replicate 5 {})

/-- Buffer `n` is set up for the identifier `0x180 + n`. -/
def setUp (n : Nat) : TxEvent :=
  .txBufferInit (UInt16.ofNat n) (UInt16.ofNat (0x180 + n)) false 8 false

def sendByte (n : Nat) (value : UInt8) : TxEvent := .send n (Vector.replicate 8 value)

/-- Three frames fill the mailboxes and a fourth one waits. -/
def backlog : List TxEvent :=
  [setUp 0, setUp 1, setUp 2, setUp 3, setUp 4, sendByte 0 1, sendByte 1 2, sendByte 2 3,
    sendByte 3 4]

theorem run_exactlyOnce_iff_backlog :
    ∃ s, backlog.foldlM System.step sampleSystem = some s ∧
      (Throughout System.step sampleSystem ExactlyOnce backlog ↔
        AtSteps System.step sampleSystem Orderly backlog) ∧ PicksLowest s.m := by
  have hrun : (backlog.foldlM System.step sampleSystem).isSome := by decide +kernel
  obtain ⟨s, hs⟩ := Option.isSome_iff_exists.mp hrun
  exact ⟨s, hs, run_exactlyOnce_iff {} 0 5 (Vector.replicate 5 {}) hs⟩

/-- A mailbox becomes free, and before the poll a fifth frame is sent: it is written
at once and waits as well. -/
theorem not_exactlyOnce_duplicate :
    ∃ s, (backlog ++ [.complete 0, sendByte 4 5]).foldlM System.step sampleSystem = some s ∧
      ¬ ExactlyOnce s := by
  have hrun : ((backlog ++ [.complete 0, sendByte 4 5]).foldlM System.step sampleSystem).map
      (fun s => (s.accepted.length, s.m.dev.requested.length, (waiting s.m.txArray).length)) =
        some (5, 4, 2) := by decide +kernel
  obtain ⟨s, hs, hlengths⟩ := Option.map_eq_some_iff.mp hrun
  simp only [Prod.mk.injEq] at hlengths
  refine ⟨s, hs, fun hexact => ?_⟩
  have hlength := hexact.accounted.length_eq
  rw [List.length_append] at hlength
  omega

end ShGateway.CanTransmit
