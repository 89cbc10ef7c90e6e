import ShGateway.CanReceive
import ShGateway.CanTransmit
import ShGateway.RouteFreshness

/-!
Frames of fewer than eight bytes on their way from the mailbox of the controller to the
routes.
-/

namespace ShGateway.RouteFrames

open ShGateway.CanDriver
open ShGateway.FwHeader (literal)
open ShGateway.Lib.Runs
open ShGateway.MqttPublish (Message)
open ShGateway.RouteFreshness (Blank)
open ShGateway.RouteInvariant hiding Event step
open ShGateway.RouteTable

/-! ## From the bus to the router -/

/-- The identifiers of `can_drv_rxed` with the numbers of their process data objects. -/
def pdoRanges : List (UInt32 × UInt32 × UInt8) :=
  [(0x180, 0x1FF, 0), (0x280, 0x2FF, 1), (0x380, 0x3FF, 2), (0x480, 0x4FF, 3)]

def canDrvRxed (router : Router) (msg : CanMsg) (sts : Nat → Int) :
    Option (List (Nat × Message) × Router) :=
  if msg.ide = false ∧ msg.rtr = false ∧ msg.dlc ≠ 0 then
    pdoRanges.foldlM (fun done range =>
      if range.1 ≤ msg.id ∧ msg.id ≤ range.2.1 then
        (routerAddPdo done.2 msg range.2.2 sts).map fun out => (done.1 ++ out.1, out.2)
      else some done) ([], router)
  else some ([], router)

/-- A data frame on the bus that `can_drv_rxed` gives to `router_add_pdo`. -/
structure DataFrame where
  id : UInt32
  rpdoN : UInt8
  bytes : List UInt8
  inRange : ∃ lo hi, (lo, hi, rpdoN) ∈ pdoRanges ∧ lo ≤ id ∧ id ≤ hi
  dlc_pos : 1 ≤ bytes.length
  dlc_le : bytes.length ≤ 8

/-- The registers of the mailbox once the frame is in: behind its bytes are those that
were there before. -/
def DataFrame.mailbox (f : DataFrame) (left : RxMailbox) : RxMailbox where
  rir := f.id <<< 21
  rdtr := left.rdtr &&& 0xFFFFFF00 ||| UInt32.ofNat f.bytes.length
  data := overwrite left.data f.bytes

/-- The driver with the frame in the receive FIFO. -/
def arrive (m : CANmodule) (f : DataFrame) (left : RxMailbox) : CANmodule :=
  { m with dev := { m.dev with fifo := [f.mailbox left], fovr := false } }

/-- What the calls of `CO_CANinterrupt` do to the router. -/
def handleCalls (router : Router) (sts : Nat → Int) (calls : List Call) :
    Option (List (Nat × Message) × Router) :=
  calls.foldlM (fun done call =>
    match call with
    | .rxed msg => (canDrvRxed done.2 msg sts).map fun out => (done.1 ++ out.1, out.2)
    | .callback _ _ _ => some done) ([], router)

/-- The receive interrupt for a frame. -/
def receive (m : CANmodule) (router : Router) (f : DataFrame) (left : RxMailbox)
    (sts : Nat → Int) : Option (List (Nat × Message) × Router) :=
  handleCalls router sts (coCANinterrupt (arrive m f left)).1

/-! ## What is asked of a frame -/

/-- The route is for the process data object of the frame. -/
def DataFrame.IsFor (f : DataFrame) (r : Route) : Prop :=
  r.pdoN = f.rpdoN ∧ r.canId.toUInt32 = f.id &&& 0x7F

instance (f : DataFrame) (r : Route) : Decidable (f.IsFor r) := inferInstanceAs (Decidable (_ ∧ _))

/-- The bytes of the frame that the route is about. -/
def DataFrame.slice (f : DataFrame) (r : Route) (l : Nat) : List UInt8 :=
  (f.bytes.drop r.offset.toNat).take l

/-- What a frame may do to a route of `l` bytes. -/
structure FromFrame (f : DataFrame) (l : Nat) (r r' : Route) : Prop where
  short : f.bytes.length < r.offset.toNat + l → r'.data = r.data ∧ r'.flagNewMsg = r.flagNewMsg
  full : r.offset.toNat + l ≤ f.bytes.length → r'.data = overwrite r.data (f.slice r l)

/-- Whatever an earlier frame has left in the mailbox, the routes take bytes of this frame
only. -/
def OnlyFrameBytes (router : Router) (f : DataFrame) : Prop :=
  ∀ m left sts log router', receive m router f left sts = some (log, router') →
    ∀ i < router.entriesCnt, ∀ r r' l, router.routes[i]? = some r →
      router'.routes[i]? = some r' → typeLength r.type = some l → f.IsFor r →
        FromFrame f l r r'

/-- The bytes of the route lie within the frame, or there are none and the frame cannot
change whether they are to be published. -/
def DataFrame.FitsIn (f : DataFrame) (l : Nat) (r : Route) : Prop :=
  r.offset.toNat + l ≤ f.bytes.length ∨
    l = 0 ∧ (r.publishIntervalMs < 0 ∨ r.flagNewMsg = true ∧ ¬ r.Due)

def Fits (router : Router) (f : DataFrame) : Prop :=
  ∀ i < router.entriesCnt, ∀ r l, router.routes[i]? = some r → typeLength r.type = some l →
    f.IsFor r → f.FitsIn l r

/-! ## Reception -/

section

variable (f : DataFrame) (left : RxMailbox)

theorem id_lt : f.id.toNat < 2 ^ 11 := by
  obtain ⟨lo, hi, hmem, -, hle⟩ := f.inRange
  have hhi : ∀ range ∈ pdoRanges, range.2.1 ≤ 0x4FF := by simp [pdoRanges]
  have hmax : (0x4FF : UInt32).toNat = 0x4FF := rfl
  have hid := UInt32.le_iff_toNat_le.mp (UInt32.le_trans hle (hhi _ hmem))
  omega

theorem id_shift : (f.id <<< 21) >>> 21 = f.id ∧ (f.id <<< 21) &&& canIde = 0 ∧
    (f.id <<< 21) &&& canRtr = 0 := by
  have hlt := id_lt f
  have hnat : (f.id <<< 21).toNat = f.id.toNat <<< 21 := by
    have hshift : (21 : UInt32).toNat % 32 = 21 := rfl
    rw [UInt32.toNat_shiftLeft, hshift, Nat.shiftLeft_eq, Nat.mod_eq_of_lt]
    omega
  refine ⟨?_, ?_, ?_⟩
  · rw [← UInt32.toNat_inj, UInt32.toNat_shiftRight, hnat]
    exact Nat.shiftLeft_shiftRight f.id.toNat 21
  · rw [CanReceive.and_canIde, hnat, Nat.testBit_shiftLeft]
    rfl
  · rw [CanReceive.and_canRtr, hnat, Nat.testBit_shiftLeft]
    rfl

theorem mailbox_dlc : ((f.mailbox left).rdtr &&& 0xFF).toUInt8 = UInt8.ofNat f.bytes.length := by
  have hzero : (left.rdtr &&& 0xFFFFFF00).toUInt8 = 0 := by
    rw [UInt32.toUInt8_and]
    exact UInt8.and_zero
  have hmask : ∀ x : UInt32, (x &&& 0xFF).toUInt8 = x.toUInt8 := by
    intro x
    rw [UInt32.toUInt8_and]
    exact UInt8.and_neg_one
  rw [hmask, DataFrame.mailbox, UInt32.toUInt8_or, hzero, UInt8.zero_or]
  exact UInt32.toUInt8_ofNat

theorem mailbox_canMsg : (f.mailbox left).canMsg =
    { id := f.id, ide := false, rtr := false, dlc := UInt8.ofNat f.bytes.length &&& 0x3F,
      data := overwrite left.data f.bytes } := by
  obtain ⟨hid, hide, hrtr⟩ := id_shift f
  rw [RxMailbox.canMsg, mailbox_dlc]
  simp [DataFrame.mailbox, hid, hide, hrtr]

theorem dlc_ne_zero {n : Nat} (h : 1 ≤ n) (hle : n ≤ 8) : UInt8.ofNat n &&& 0x3F ≠ 0 := by
  have hall : ∀ n ∈ List.range' 1 8, UInt8.ofNat n &&& 0x3F ≠ 0 := by decide
  exact hall n (List.mem_range'_1.mpr ⟨h, by omega⟩)

theorem foldlM_pdoRanges (router : Router) (msg : CanMsg) (hid : msg.id = f.id)
    (sts : Nat → Int) :
    pdoRanges.foldlM (fun (done : List (Nat × Message) × Router) range =>
      if range.1 ≤ msg.id ∧ msg.id ≤ range.2.1 then
        (routerAddPdo done.2 msg range.2.2 sts).map fun out => (done.1 ++ out.1, out.2)
      else some done) ([], router) = routerAddPdo router msg f.rpdoN sts := by
  obtain ⟨lo, hi, hmem, hlo, hhi⟩ := f.inRange
  rw [hid]
  rw [UInt32.le_iff_toNat_le] at hlo hhi
  simp only [pdoRanges, List.mem_cons, List.not_mem_nil, or_false, Prod.mk.injEq] at hmem
  simp only [pdoRanges, List.foldlM_cons, List.foldlM_nil, UInt32.le_iff_toNat_le]
  rcases hmem with ⟨rfl, rfl, hn⟩ | ⟨rfl, rfl, hn⟩ | ⟨rfl, rfl, hn⟩ | ⟨rfl, rfl, hn⟩ <;>
    simp only [UInt32.reduceToNat] at hlo hhi ⊢ <;> rw [hn]
  all_goals
    simp (disch := omega) only [if_pos, if_neg, Option.bind_eq_bind, Option.bind_some]
    rcases routerAddPdo router msg _ sts with _ | out <;> rfl

theorem receive_eq (m : CANmodule) (router : Router) (sts : Nat → Int) :
    receive m router f left sts = routerAddPdo router (f.mailbox left).canMsg f.rpdoN sts := by
  have hcalls : (coCANinterrupt (arrive m f left)).1 = .rxed (f.mailbox left).canMsg ::
      callRx (f.mailbox left) (matchRx (arrive m f left) (f.mailbox left)) := rfl
  have hcallback : ∀ b done, (callRx (f.mailbox left) b).foldlM
      (fun (done : List (Nat × Message) × Router) call =>
        match call with
        | .rxed msg => (canDrvRxed done.2 msg sts).map fun out => (done.1 ++ out.1, out.2)
        | .callback _ _ _ => some done) done = some done := by
    intro b done
    rcases b with _ | b
    · rfl
    · rw [callRx]
      rcases b.canRxCallback with _ | c <;> rfl
  rw [receive, handleCalls, hcalls, List.foldlM_cons]
  simp only [hcallback]
  rw [canDrvRxed, if_pos, foldlM_pdoRanges f]
  · rcases routerAddPdo router (f.mailbox left).canMsg f.rpdoN sts with _ | out <;> rfl
  · rw [mailbox_canMsg]
  · rw [mailbox_canMsg]
    exact ⟨rfl, rfl, dlc_ne_zero f.dlc_pos f.dlc_le⟩

end

/-! ## One route -/

section

variable {f : DataFrame} {left : RxMailbox} {r r' : Route} {l : Nat} {m : Option Message}
  {sts : Int}

theorem isFor_mailbox : r.IsFor (f.mailbox left).canMsg f.rpdoN ↔ f.IsFor r := by
  rw [mailbox_canMsg]
  exact Iff.rfl

/-- The bytes that `router_add_pdo` copies. -/
def copied (f : DataFrame) (left : RxMailbox) (r : Route) (l : Nat) : List UInt8 :=
  ((overwrite left.data f.bytes).toList.drop r.offset.toNat).take l

theorem length_copied (h : r.offset.toNat + l ≤ 8) : (copied f left r l).length = l := by
  rw [copied, List.length_take, List.length_drop, Vector.length_toList]
  omega

theorem copied_eq_slice (h : r.offset.toNat + l ≤ f.bytes.length) :
    copied f left r l = f.slice r l := by
  have hle := f.dlc_le
  rw [copied, DataFrame.slice]
  apply List.ext_getElem?
  intro i
  rw [List.getElem?_take, List.getElem?_take]
  split_ifs with hi
  · rw [List.getElem?_drop, List.getElem?_drop, List.getElem?_eq_getElem (by simp; omega),
      List.getElem?_eq_getElem (by omega)]
    simp only [overwrite, Vector.getElem_toList, Vector.getElem_ofFn]
    rw [List.getElem?_eq_getElem (by omega), Option.getD_some]
  · rfl

/-- The route with data that are to be published. -/
def withNew (f : DataFrame) (left : RxMailbox) (r : Route) (l : Nat) : Route :=
  { r with
    data := overwrite r.data (copied f left r l)
    dataPrev := overwrite r.dataPrev (copied f left r l)
    flagNewMsg := true }

theorem addPdo_eq (hok : EntryOk r) (hl : typeLength r.type = some l) (hfor : f.IsFor r)
    (left : RxMailbox) (sts : Int) :
    addPdo (f.mailbox left).canMsg f.rpdoN sts r = some (
      if r.publishIntervalMs < 0 ∧ copied f left r l = r.dataPrev.toList.take l then
        ({ r with data := overwrite r.data (copied f left r l) }, none)
      else if r.Due ∧ sts ≥ 0 then
        ({ withNew f left r l with flagNewMsg := false, lastPubTd := 0 },
          some ((withNew f left r l).message l))
      else (withNew f left r l, none)) := by
  have hle := hok.data_le l hl
  have hlen := @length_copied f left r l hle
  have htake := @take_overwrite r.data (copied f left r l) (by omega)
  rw [hlen] at htake
  rw [addPdo, if_pos (isFor_mailbox.mpr hfor), hl, Option.bind_some, readData, if_pos hle,
    Option.bind_some, mailbox_canMsg]
  dsimp only
  rw [← copied, htake]
  rcases Classical.em (r.publishIntervalMs < 0 ∧ copied f left r l = r.dataPrev.toList.take l)
    with hsame | hsame
  · rw [if_pos hsame, if_pos hsame]
  · rw [if_neg hsame, if_neg hsame]
    exact @checkTrySend_eq (withNew f left r l) l hl sts

theorem addPdo_data (hok : EntryOk r) (hl : typeLength r.type = some l) (hfor : f.IsFor r)
    (h : addPdo (f.mailbox left).canMsg f.rpdoN sts r = some (r', m)) :
    r'.data = overwrite r.data (copied f left r l) ∧
      ∀ msg, m = some msg → msg.payload = copied f left r l := by
  have hle := hok.data_le l hl
  have hlen := @length_copied f left r l hle
  have htake := @take_overwrite r.data (copied f left r l) (by omega)
  rw [hlen] at htake
  rw [addPdo_eq hok hl hfor] at h
  split_ifs at h <;> obtain ⟨rfl, rfl⟩ := Prod.mk.inj (Option.some.inj h)
  · exact ⟨rfl, nofun⟩
  · refine ⟨rfl, ?_⟩
    intro msg hmsg
    obtain rfl := Option.some.inj hmsg
    exact htake
  · exact ⟨rfl, nofun⟩

theorem FitsIn.unchanged (hfits : f.FitsIn l r) (hok : EntryOk r)
    (hl : typeLength r.type = some l) (hfor : f.IsFor r)
    (hshort : f.bytes.length < r.offset.toNat + l)
    (h : addPdo (f.mailbox left).canMsg f.rpdoN sts r = some (r', m)) :
    r'.data = r.data ∧ r'.flagNewMsg = r.flagNewMsg ∧ m = none := by
  have hdata := (addPdo_data hok hl hfor h).1
  obtain ⟨rfl, hkept⟩ := hfits.resolve_left (by omega)
  have hnil : copied f left r 0 = [] := List.take_zero
  rw [hnil, overwrite_nil] at hdata
  refine ⟨hdata, ?_⟩
  rw [addPdo_eq hok hl hfor, hnil] at h
  rcases hkept with hneg | ⟨hflag, hdue⟩
  · rw [if_pos ⟨hneg, rfl⟩] at h
    obtain ⟨rfl, rfl⟩ := Prod.mk.inj (Option.some.inj h)
    exact ⟨rfl, rfl⟩
  · split_ifs at h with hsame hsend <;>
      obtain ⟨rfl, rfl⟩ := Prod.mk.inj (Option.some.inj h)
    · exact ⟨rfl, rfl⟩
    · exact absurd hsend.1 hdue
    · exact ⟨hflag.symm, rfl⟩

/-- A route whose bytes are in the frame takes nothing else. -/
theorem FitsIn.fromFrame (hfits : f.FitsIn l r) (hok : EntryOk r)
    (hl : typeLength r.type = some l) (hfor : f.IsFor r)
    (h : addPdo (f.mailbox left).canMsg f.rpdoN sts r = some (r', m)) : FromFrame f l r r' := by
  refine ⟨?_, ?_⟩
  · intro hshort
    obtain ⟨hdata, hflag, -⟩ := FitsIn.unchanged hfits hok hl hfor hshort h
    exact ⟨hdata, hflag⟩
  · intro hle
    rw [(addPdo_data hok hl hfor h).1, copied_eq_slice hle]

theorem exists_not_fromFrame (hfits : ¬ f.FitsIn l r) (hok : EntryOk r)
    (hl : typeLength r.type = some l) (hfor : f.IsFor r) :
    ∃ left sts, ∀ r' m, addPdo (f.mailbox left).canMsg f.rpdoN sts r = some (r', m) →
      ¬ FromFrame f l r r' := by
  rw [DataFrame.FitsIn, not_or] at hfits
  obtain ⟨hshort, hzero⟩ := hfits
  have hle := hok.data_le l hl
  rcases Nat.eq_zero_or_pos l with rfl | hpos
  · have hkept : ¬ r.publishIntervalMs < 0 ∧ (r.flagNewMsg = true → r.Due) := by
      refine ⟨fun h => hzero ⟨rfl, .inl h⟩, fun h => ?_⟩
      by_contra hdue
      exact hzero ⟨rfl, .inr ⟨h, hdue⟩⟩
    -- the queue takes the message exactly if the flag was set
    refine ⟨⟨0, 0, Vector.replicate 8 0⟩, if r.flagNewMsg then 0 else -1, ?_⟩
    intro r' m h hfrom
    have hflag := (hfrom.short (by omega)).2
    rw [addPdo_eq hok hl hfor, if_neg fun h => hkept.1 h.1] at h
    rcases hset : r.flagNewMsg with _ | _
    · rw [hset, if_neg (by simp)] at h
      obtain ⟨rfl, -⟩ := Prod.mk.inj (Option.some.inj h)
      exact Bool.false_ne_true (hflag.trans hset).symm
    · rw [hset, if_pos ⟨hkept.2 hset, by simp⟩] at h
      obtain ⟨rfl, -⟩ := Prod.mk.inj (Option.some.inj h)
      exact Bool.false_ne_true (hflag.trans hset)
  · -- a byte of the route behind the frame
    obtain ⟨j, hj⟩ : ∃ j, j = max f.bytes.length r.offset.toNat - r.offset.toNat := ⟨_, rfl⟩
    have hjl : j < l := by omega
    have hj8 : j < 8 := by omega
    refine ⟨⟨0, 0, Vector.replicate 8 (r.data[j] + 1)⟩, 0, ?_⟩
    intro r' m h hfrom
    have hdata := (addPdo_data hok hl hfor h).1
    rw [(hfrom.short (by omega)).1] at hdata
    have hbyte := congrArg (fun v : Vector UInt8 8 => v[j]) hdata
    have hbehind : (copied f ⟨0, 0, Vector.replicate 8 (r.data[j] + 1)⟩ r l)[j]? =
        some (r.data[j] + 1) := by
      rw [copied, List.getElem?_take_of_lt hjl, List.getElem?_drop,
        List.getElem?_eq_getElem (by simp; omega)]
      simp only [overwrite, Vector.getElem_toList, Vector.getElem_ofFn]
      rw [List.getElem?_eq_none (by omega), Option.getD_none]
      simp
    simp only [overwrite, Vector.getElem_ofFn, hbehind, Option.getD_some] at hbyte
    exact absurd hbyte (by simp)

end

/-! ## The table -/

section

variable {router : Router} {f : DataFrame}

theorem receive_spec (hok : TableOk router) (m : CANmodule) (left : RxMailbox)
    (sts : Nat → Int) :
    ∃ log router', receive m router f left sts = some (log, router') ∧ TableOk router' ∧
      router'.entriesCnt = router.entriesCnt ∧
      (∀ i, router.entriesCnt ≤ i → log.filter (fun e => e.1 = i) = []) ∧
      ∀ i < router.entriesCnt, ∃ r r' m', router.routes[i]? = some r ∧
        addPdo (f.mailbox left).canMsg f.rpdoN (sts i) r = some (r', m') ∧
        router'.routes[i]? = some r' ∧
        log.filter (fun e => e.1 = i) = (m'.map (i, ·)).toList := by
  obtain ⟨log, router', hloop, hok'⟩ := hok.pdo (f.mailbox left).canMsg f.rpdoN sts
  obtain ⟨log', router'', hloop', hcnt, hrest, hdone⟩ :=
    @eachEntry_spec (fun i => addPdo (f.mailbox left).canMsg f.rpdoN (sts i)) router
      router.entriesCnt (hok.count_le.trans (by decide))
      fun i hi r hr => addPdo_isSome (hok.entry_ok i hi r hr) _ _ _
  obtain ⟨rfl, rfl⟩ := Prod.mk.inj (Option.some.inj (hloop.symm.trans hloop'))
  refine ⟨log, router', ?_, hok', hcnt, fun i hi => (hrest i hi).2, hdone⟩
  rw [receive_eq]
  exact hloop

theorem onlyFrameBytes_iff (hok : TableOk router) : OnlyFrameBytes router f ↔ Fits router f := by
  constructor
  · intro h i hi r l hr hl hfor
    by_contra hfits
    obtain ⟨left, sts, hbreak⟩ := exists_not_fromFrame hfits (hok.entry_ok i hi r hr) hl hfor
    obtain ⟨log, router', hrecv, -, -, -, hdone⟩ :=
      @receive_spec router f hok (coCANmoduleInit {} 0 0 #v[]) left fun _ => sts
    obtain ⟨e, r', m', he, hbody, hr', -⟩ := hdone i hi
    obtain rfl := Option.some.inj (hr.symm.trans he)
    exact hbreak r' m' hbody (h _ left _ log router' hrecv i hi r r' l hr hr' hl hfor)
  · intro h m left sts log router' hrecv i hi r r' l hr hr' hl hfor
    obtain ⟨log', router'', hrecv', -, -, -, hdone⟩ := @receive_spec router f hok m left sts
    obtain ⟨rfl, rfl⟩ := Prod.mk.inj (Option.some.inj (hrecv.symm.trans hrecv'))
    obtain ⟨e, e', m', he, hbody, he', -⟩ := hdone i hi
    obtain rfl := Option.some.inj (hr.symm.trans he)
    obtain rfl := Option.some.inj (hr'.symm.trans he')
    exact FitsIn.fromFrame (h i hi r l hr hl hfor) (hok.entry_ok i hi r hr) hl hfor hbody

end

/-! ## Runs -/

/-- The table with the frames that have come in and the messages that the queue has
taken, each with its route. -/
structure Traffic where
  table : Router := {}
  frames : List DataFrame := []
  log : List (Nat × Message) := []

/-- A frame comes in over the contents `left` of the mailbox. -/
inductive Event
  | addEntry (s : List UInt8)
  | frame (m : CANmodule) (f : DataFrame) (left : RxMailbox) (sts : Nat → Int)
  | poll (diffMs : UInt32) (sts : Nat → Int)

def step (h : Traffic) : Event → Option Traffic
  | .addEntry s => some { h with table := (routerAddEntry h.table s).2 }
  | .frame m f left sts =>
      (receive m h.table f left sts).map fun done =>
        { table := done.2, frames := h.frames ++ [f], log := h.log ++ done.1 }
  | .poll diffMs sts =>
      (routerPoll h.table diffMs sts).map fun done =>
        { h with table := done.2, log := h.log ++ done.1 }

/-- The bytes are those of one of the frames for the route. -/
def Carried (frames : List DataFrame) (r : Route) (l : Nat) (payload : List UInt8) : Prop :=
  ∃ f ∈ frames, f.IsFor r ∧ r.offset.toNat + l ≤ f.bytes.length ∧ payload = f.slice r l

/-- Only bytes of frames have been published. -/
def PublishedFromFrames (h : Traffic) : Prop :=
  ∀ e ∈ h.log, ∃ r l, h.table.routes[e.1]? = some r ∧ typeLength r.type = some l ∧
    Carried h.frames r l e.2.payload

/-- A frame that comes in is long enough for the routes it is for. -/
def EventFits (h : Traffic) : Event → Prop
  | .frame _ f _ _ => Fits h.table f
  | _ => True

/-- Data that are to be published, and those that were, are from frames. -/
structure Inv (h : Traffic) : Prop where
  table : TableOk h.table
  waiting : ∀ i < h.table.entriesCnt, ∀ r l, h.table.routes[i]? = some r →
    typeLength r.type = some l → r.flagNewMsg = true →
      Carried h.frames r l (r.data.toList.take l)
  log_lt : ∀ e ∈ h.log, e.1 < h.table.entriesCnt
  published : PublishedFromFrames h

section

variable {frames frames' : List DataFrame} {f : DataFrame} {left : RxMailbox} {r r' : Route}
  {l : Nat} {m : Option Message} {sts : Int} {payload : List UInt8}

theorem Carried.mono (h : Carried frames r l payload) (hsub : frames ⊆ frames')
    (hsame : SameRoute r r') : Carried frames' r' l payload := by
  obtain ⟨f, hf, ⟨hpdoN, hcanId⟩, hle, hpayload⟩ := h
  refine ⟨f, hsub hf, ⟨?_, ?_⟩, ?_, ?_⟩
  · rw [hsame.pdoN, hpdoN]
  · rw [hsame.canId, hcanId]
  · rw [hsame.offset]
    exact hle
  · rw [hpayload, DataFrame.slice, DataFrame.slice, hsame.offset]

/-- The data to be published of a route after a step, and what the step published. -/
def StepCarried (frames : List DataFrame) (l : Nat) (r' : Route) (m : Option Message) : Prop :=
  (r'.flagNewMsg = true → Carried frames r' l (r'.data.toList.take l)) ∧
    ∀ msg, m = some msg → Carried frames r' l msg.payload

theorem addPdo_carried (hok : EntryOk r) (hl : typeLength r.type = some l)
    (hwaiting : r.flagNewMsg = true → Carried frames r l (r.data.toList.take l))
    (hfits : f.IsFor r → f.FitsIn l r)
    (h : addPdo (f.mailbox left).canMsg f.rpdoN sts r = some (r', m)) :
    StepCarried (frames ++ [f]) l r' m := by
  have hsame := addPdo_same h
  have hsub : frames ⊆ frames ++ [f] := List.subset_append_left frames [f]
  rcases Classical.em (f.IsFor r) with hfor | hfor
  · obtain ⟨hdata, hpayload⟩ := addPdo_data hok hl hfor h
    rcases Nat.lt_or_ge f.bytes.length (r.offset.toNat + l) with hshort | hle
    · obtain ⟨hkept, hflag, hnone⟩ := FitsIn.unchanged (hfits hfor) hok hl hfor hshort h
      refine ⟨?_, by rw [hnone]; exact nofun⟩
      intro hset
      rw [hkept]
      exact (hwaiting (hflag ▸ hset)).mono hsub hsame
    · have hlen := @length_copied f left r l (hok.data_le l hl)
      have htake := @take_overwrite r.data (copied f left r l)
        (hlen.trans_le (by have := f.dlc_le; omega))
      rw [hlen] at htake
      have hcarried : Carried (frames ++ [f]) r' l (copied f left r l) :=
        Carried.mono ⟨f, List.mem_append_right frames (List.mem_singleton_self f), hfor, hle,
          copied_eq_slice hle⟩ (List.Subset.refl _) hsame
      refine ⟨fun _ => ?_, fun msg hmsg => ?_⟩
      · rw [hdata, htake]
        exact hcarried
      · rw [hpayload msg hmsg]
        exact hcarried
  · rw [addPdo, if_neg (mt isFor_mailbox.mp hfor)] at h
    obtain ⟨rfl, rfl⟩ := Prod.mk.inj (Option.some.inj h)
    exact ⟨fun hset => (hwaiting hset).mono hsub hsame, nofun⟩

theorem poll_carried (hl : typeLength r.type = some l)
    (hwaiting : r.flagNewMsg = true → Carried frames r l (r.data.toList.take l))
    {diffMs : UInt32} (h : poll diffMs sts r = some (r', m)) : StepCarried frames l r' m := by
  have hsame := poll_same h
  have hmono := fun hset => (hwaiting hset).mono (List.Subset.refl frames) hsame
  rw [poll] at h
  dsimp only at h
  rcases Classical.em (r.flagNewMsg = true) with hset | hset
  · rw [if_pos hset, @checkTrySend_eq { r with lastPubTd := r.lastPubTd + diffMs } l hl sts] at h
    split_ifs at h <;> obtain ⟨rfl, rfl⟩ := Prod.mk.inj (Option.some.inj h)
    · refine ⟨fun hflag => absurd hflag Bool.false_ne_true, ?_⟩
      intro msg hmsg
      obtain rfl := Option.some.inj hmsg
      exact hmono hset
    · exact ⟨fun _ => hmono hset, fun _ hmsg => absurd hmsg.symm (Option.some_ne_none _)⟩
  · rw [if_neg hset] at h
    obtain ⟨rfl, rfl⟩ := Prod.mk.inj (Option.some.inj h)
    exact ⟨fun h => absurd h hset, fun _ hmsg => absurd hmsg.symm (Option.some_ne_none _)⟩

end

section

variable {h : Traffic}

theorem inv_init : Inv {} where
  table := tableOk_init
  waiting := nofun
  log_lt := nofun
  published := nofun

theorem Inv.loop (hinv : Inv h) {frames : List DataFrame} {log : List (Nat × Message)}
    {table' : Router} {body : Nat → Route → Option (Route × Option Message)}
    (hsub : h.frames ⊆ frames) (hok : TableOk table')
    (hcnt : table'.entriesCnt = h.table.entriesCnt)
    (hrest : ∀ i, h.table.entriesCnt ≤ i → log.filter (fun e => e.1 = i) = [])
    (hdone : ∀ i < h.table.entriesCnt, ∃ r r' m, h.table.routes[i]? = some r ∧
      body i r = some (r', m) ∧ table'.routes[i]? = some r' ∧
        log.filter (fun e => e.1 = i) = (m.map (i, ·)).toList)
    (hsame : ∀ i r r' m, body i r = some (r', m) → SameRoute r r')
    (hbody : ∀ i < h.table.entriesCnt, ∀ r r' m l, h.table.routes[i]? = some r →
      typeLength r.type = some l → body i r = some (r', m) → StepCarried frames l r' m) :
    Inv { table := table', frames := frames, log := h.log ++ log } := by
  have hlog : ∀ e ∈ log, e.1 < h.table.entriesCnt := by
    intro e he
    by_contra hge
    have hnil := hrest e.1 (Nat.le_of_not_lt hge)
    exact List.filter_eq_nil_iff.mp hnil e he (by simp)
  refine ⟨hok, ?_, ?_, ?_⟩
  · intro i hi r' l hr' hl hset
    obtain ⟨r, r'', m, hr, hrun, hr'', -⟩ := hdone i (hcnt ▸ hi)
    obtain rfl := Option.some.inj (hr'.symm.trans hr'')
    rw [(hsame i r r' m hrun).type] at hl
    exact (hbody i (hcnt ▸ hi) r r' m l hr hl hrun).1 hset
  · intro e he
    rw [List.mem_append] at he
    rw [hcnt]
    exact he.elim (hinv.log_lt e) (hlog e)
  · intro e he
    rcases List.mem_append.mp he with hold | hnew
    · obtain ⟨e', l, he', hl, hcarried⟩ := hinv.published e hold
      obtain ⟨r, r', m, hr, hrun, hr', -⟩ := hdone e.1 (hinv.log_lt e hold)
      obtain rfl := Option.some.inj (hr.symm.trans he')
      have hroute := hsame e.1 r r' m hrun
      exact ⟨r', l, hr', by rw [hroute.type, hl], hcarried.mono hsub hroute⟩
    · obtain ⟨r, r', m, hr, hrun, hr', hfilter⟩ := hdone e.1 (hlog e hnew)
      obtain ⟨l, hl⟩ := (hinv.table.entry_ok e.1 (hlog e hnew) r hr).typeLength
      have hmem : e ∈ log.filter fun e' => e'.1 = e.1 :=
        List.mem_filter.mpr ⟨hnew, by simp⟩
      rw [hfilter, Option.mem_toList, Option.map_eq_some_iff] at hmem
      obtain ⟨msg, hmsg, heq⟩ := hmem
      refine ⟨r', l, hr', by rw [(hsame e.1 r r' m hrun).type, hl], ?_⟩
      rw [← heq]
      exact (hbody e.1 (hlog e hnew) r r' m l hr hl hrun).2 msg hmsg

theorem Inv.frame (hinv : Inv h) {f : DataFrame} (hfits : Fits h.table f) (m : CANmodule)
    (left : RxMailbox) (sts : Nat → Int) :
    ∃ h', step h (.frame m f left sts) = some h' ∧ Inv h' := by
  obtain ⟨log, table', hrecv, hok, hcnt, hrest, hdone⟩ := receive_spec hinv.table m left sts
  refine ⟨_, by rw [step, hrecv]; rfl, hinv.loop (List.subset_append_left _ _) hok hcnt hrest
    hdone (fun _ _ _ _ hbody => addPdo_same hbody) ?_⟩
  intro i hi r r' m' l hr hl hbody
  exact addPdo_carried (hinv.table.entry_ok i hi r hr) hl (hinv.waiting i hi r l hr hl)
    (hfits i hi r l hr hl) hbody

theorem Inv.poll (hinv : Inv h) (diffMs : UInt32) (sts : Nat → Int) :
    ∃ h', step h (.poll diffMs sts) = some h' ∧ Inv h' := by
  obtain ⟨log, table', hloop, hok⟩ := hinv.table.poll diffMs sts
  obtain ⟨log', table'', hloop', hcnt, hrest, hdone⟩ :=
    @eachEntry_spec (fun i => RouteTable.poll diffMs (sts i)) h.table h.table.entriesCnt
      (hinv.table.count_le.trans (by decide))
      fun i hi r hr => poll_isSome (hinv.table.entry_ok i hi r hr) _ _
  obtain ⟨rfl, rfl⟩ := Prod.mk.inj (Option.some.inj (hloop.symm.trans hloop'))
  refine ⟨_, by rw [step, hloop]; rfl, hinv.loop (List.Subset.refl _) hok hcnt
    (fun i hi => (hrest i hi).2) hdone (fun _ _ _ _ hbody => poll_same hbody) ?_⟩
  intro i hi r r' m' l hr hl hbody
  exact poll_carried hl (hinv.waiting i hi r l hr hl) hbody

theorem Inv.addEntry (hinv : Inv h) (s : List UInt8) :
    Inv { h with table := (routerAddEntry h.table s).2 } := by
  have hok := hinv.table.insert s
  rcases routerAddEntry_cases h.table s with ⟨err, herr, heq⟩ | ⟨err, r, herr, heq⟩ |
    ⟨r, hparse, hlt, hentry, -, heq⟩
  · rw [heq]
    exact hinv
  · rw [heq] at hok ⊢
    refine ⟨hok, ?_, hinv.log_lt, ?_⟩
    · intro i hi e l he
      exact hinv.waiting i hi e l ((@filled_getElem? h.table i hi r).symm.trans he)
    · intro e he
      obtain ⟨e', l, he', hl, hcarried⟩ := hinv.published e he
      exact ⟨e', l, (@filled_getElem? h.table e.1 (hinv.log_lt e he) r).trans he', hl, hcarried⟩
  · rw [heq] at hok ⊢
    refine ⟨hok, ?_, fun e he => Nat.lt_succ_of_lt (hinv.log_lt e he), ?_⟩
    · intro i hi e l he hl hset
      dsimp only at hi he
      rcases Nat.lt_succ_iff_lt_or_eq.mp hi with hi | rfl
      · exact hinv.waiting i hi e l ((@filled_getElem? h.table i hi r).symm.trans he) hl hset
      · have hlast : (filled h.table r).routes[h.table.entriesCnt]? = some r := by
          rw [filled, Vector.getElem?_setIfInBounds_self, if_pos (by omega)]
        obtain rfl := Option.some.inj (hlast.symm.trans he)
        have hblank := @Blank.parse {} ⟨rfl, rfl, rfl, rfl⟩ ((cString s).length + 1) (cString s)
        rw [hparse] at hblank
        exact absurd (hblank.flagNewMsg.symm.trans hset) Bool.false_ne_true
    · intro e he
      obtain ⟨e', l, he', hl, hcarried⟩ := hinv.published e he
      exact ⟨e', l, (@filled_getElem? h.table e.1 (hinv.log_lt e he) r).trans he', hl, hcarried⟩

theorem step_tableOk (hok : TableOk h.table) (ev : Event) :
    ∃ h', step h ev = some h' ∧ TableOk h'.table := by
  cases ev with
  | addEntry s => exact ⟨_, rfl, hok.insert s⟩
  | frame m f left sts =>
      obtain ⟨log, table', hrecv, hok', -⟩ := @receive_spec h.table f hok m left sts
      exact ⟨_, by rw [step, hrecv]; rfl, hok'⟩
  | poll diffMs sts =>
      obtain ⟨log, table', hloop, hok'⟩ := hok.poll diffMs sts
      exact ⟨_, by rw [step, hloop]; rfl, hok'⟩

theorem Inv.step (hinv : Inv h) {ev : Event} (hfits : EventFits h ev) {h' : Traffic}
    (hstep : step h ev = some h') : Inv h' := by
  cases ev with
  | addEntry s =>
      obtain rfl := Option.some.inj hstep
      exact hinv.addEntry s
  | frame m f left sts =>
      obtain ⟨h'', hstep', hinv'⟩ := hinv.frame hfits m left sts
      obtain rfl := Option.some.inj (hstep.symm.trans hstep')
      exact hinv'
  | poll diffMs sts =>
      obtain ⟨h'', hstep', hinv'⟩ := hinv.poll diffMs sts
      obtain rfl := Option.some.inj (hstep.symm.trans hstep')
      exact hinv'

end

/-- After any insertions, frames and polls, the next frame leaves bytes of the mailbox out
exactly when it is long enough for its routes; and as long as all frames are, only bytes of
frames are published. -/
theorem run_onlyFrameBytes_iff (evs : List Event) :
    ∃ h, evs.foldlM step {} = some h ∧
      (∀ f, OnlyFrameBytes h.table f ↔ Fits h.table f) ∧
        (AtSteps step {} EventFits evs → PublishedFromFrames h) := by
  have hrun : ∃ h, evs.foldlM step {} = some h ∧ TableOk h.table ∧
      (AtSteps step {} EventFits evs → Inv h) := by
    induction evs using List.reverseRecOn with
    | nil => exact ⟨{}, rfl, tableOk_init, fun _ => inv_init⟩
    | append_singleton evs ev ih =>
        obtain ⟨h, hh, hok, hinv⟩ := ih
        obtain ⟨h', hstep, hok'⟩ := step_tableOk hok ev
        refine ⟨h', foldlM_snoc.mpr ⟨h, hh, hstep⟩, hok', fun hfits => ?_⟩
        obtain ⟨hbefore, hlast⟩ := atEach_snoc.mp hfits
        exact (hinv hbefore).step (hlast h hh) hstep
  obtain ⟨h, hh, hok, hinv⟩ := hrun
  exact ⟨h, hh, fun f => onlyFrameBytes_iff hok, fun hfits => (hinv hfits).published⟩

/-! ## A frame of one byte -/

def longFrame : DataFrame where
  id := 0x185
  rpdoN := 0
  bytes := [1, 2, 3, 4, 5, 6, 7, 8]
  inRange := ⟨0x180, 0x1FF, by decide, by decide, by decide⟩
  dlc_pos := by decide
  dlc_le := by decide

def shortFrame : DataFrame where
  id := 0x185
  rpdoN := 0
  bytes := [9]
  inRange := ⟨0x180, 0x1FF, by decide, by decide, by decide⟩
  dlc_pos := by decide
  dlc_le := by decide

theorem noBuffers_size : (#[] : Array CANtx).size = 0 := rfl

theorem noRequest_tme (k : Fin 3) : false = true → (fun _ : Fin 3 => true) k = true := fun _ => rfl

/-- A frame of one byte after one of eight, for a route of two bytes. -/
def shortAfterLong : List Event :=
  [.addEntry (literal "id=5 type=u16 topic=t"),
    .frame (coCANmoduleInit { tme_of_rqcp := noRequest_tme } 0 0 ⟨#[], noBuffers_size⟩) longFrame
      ⟨0, 0, Vector.replicate 8 0⟩ fun _ => 0,
    .frame (coCANmoduleInit { tme_of_rqcp := noRequest_tme } 0 0 ⟨#[], noBuffers_size⟩) shortFrame
      (longFrame.mailbox ⟨0, 0, Vector.replicate 8 0⟩) fun _ => 0]

/-- The last message with its route, the frames, and the first route. -/
def Traffic.summary (h : Traffic) :
    Option (Nat × List UInt8) × List (List UInt8) × Option (UInt8 × UInt8) :=
  (h.log.getLast?.map fun e => (e.1, e.2.payload), h.frames.map DataFrame.bytes,
    h.table.routes[0]?.map fun r => (r.type, r.offset))

theorem not_publishedFromFrames_short :
    ∃ h, shortAfterLong.foldlM step {} = some h ∧ ¬ PublishedFromFrames h := by
  have hrun : (shortAfterLong.foldlM step {}).map Traffic.summary =
      some (some (0, [9, 2]), [[1, 2, 3, 4, 5, 6, 7, 8], [9]], some (7, 0)) := by
    decide +kernel
  obtain ⟨h, hh, hsummary⟩ := Option.map_eq_some_iff.mp hrun
  obtain ⟨hlog, hrest⟩ := Prod.mk.inj hsummary
  obtain ⟨hframes, hroute⟩ := Prod.mk.inj hrest
  obtain ⟨e, he, hmsg⟩ := Option.map_eq_some_iff.mp hlog
  obtain ⟨hindex, hpayload⟩ := Prod.mk.inj hmsg
  obtain ⟨r, hr, hfields⟩ := Option.map_eq_some_iff.mp hroute
  obtain ⟨htype, hoffset⟩ := Prod.mk.inj hfields
  refine ⟨h, hh, fun hpublished => ?_⟩
  obtain ⟨r', l, hr', hl, f, hf, -, hle, hslice⟩ := hpublished e (List.mem_of_getLast? he)
  rw [hindex] at hr'
  obtain rfl := Option.some.inj (hr.symm.trans hr')
  have hbytes : f.bytes ∈ h.frames.map DataFrame.bytes := List.mem_map_of_mem hf
  have htwo : typeLength 7 = some 2 := by decide
  rw [htype, htwo] at hl
  obtain rfl := Option.some.inj hl
  rw [hpayload, DataFrame.slice, hoffset] at hslice
  rw [hoffset] at hle
  rw [hframes, List.mem_pair] at hbytes
  rcases hbytes with heq | heq
  · rw [heq] at hslice
    exact absurd hslice (by decide)
  · rw [heq] at hle
    exact absurd hle (by decide)

end ShGateway.RouteFrames
