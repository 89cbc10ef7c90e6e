import ShGateway.Lib.StepChain
import ShGateway.SdoFlasher

/-!
The order in which `cb_nd_wr` prepares a node and writes to its flash.
-/

namespace ShGateway.NodeWrite

open ShGateway.Crc
open ShGateway.Lib.ByteWords
open ShGateway.Lib.StepChain
open ShGateway.SdoFlasher

variable {β : Type*}

/-- A transfer with a node: what is requested, and its result. -/
inductive Transfer
  | read (id : UInt8) (index sub room timeout code : Nat) (bytes : List UInt8)
  | write (id : UInt8) (index sub : Nat) (bytes : List UInt8) (timeout code : Nat)

/-- `bus` with a record of its transfers. -/
def recorded (bus : SdoBus β) : SdoBus (β × List Transfer) where
  readSdo := fun id index sub room timeout b =>
    match bus.readSdo id index sub room timeout b.1 with
    | (code, bytes, b') =>
        (code, bytes, b', b.2 ++ [.read id index sub room timeout code bytes])
  writeSdo := fun id index sub bytes timeout b =>
    match bus.writeSdo id index sub bytes timeout b.1 with
    | (code, b') => (code, b', b.2 ++ [.write id index sub bytes timeout code])

/-! ## Polls of the status -/

/-- A poll with the result of its read and the bytes received. -/
def poll (id : UInt8) (p : Nat × List UInt8) : Transfer :=
  .read id 0x1F57 1 4 100 p.1 p.2

/-- `flash_sts` after some polls. -/
def flashSts (polls : List (Nat × List UInt8)) : List UInt8 :=
  polls.foldl (fun sts p => if p.1 = 0 then stored sts p.2 else sts) (List.replicate 4 0)

/-- The last poll brought a status word, which is `R_OK`. -/
def SeenOk (polls : List (Nat × List UInt8)) : Prop :=
  ∃ earlier bytes, polls = earlier ++ [(0, bytes)] ∧ 4 ≤ bytes.length ∧
    ofLe (bytes.take 4) = coSdoFlasherROk

/-- `R_OK` is the status of the last of at most 20 polls. -/
def Accepted (polls : List (Nat × List UInt8)) : Prop :=
  polls.length ≤ 20 ∧ SeenOk polls

/-- `R_OK` is not seen in any of the polls. -/
def Refused (polls : List (Nat × List UInt8)) : Prop :=
  polls.length ≤ 20 ∧ ∀ earlier, earlier <+: polls → ¬ SeenOk earlier

/-- The last poll succeeded without a status word and reads as `R_OK`: it brought only zeros, or
nothing at all when there was no answer before it. -/
def Stale (polls : List (Nat × List UInt8)) : Prop :=
  ∃ earlier bytes, polls = earlier ++ [(0, bytes)] ∧ bytes.length < 4 ∧ (∀ x ∈ bytes, x = 0) ∧
    (bytes = [] → ∀ p ∈ earlier, p.1 ≠ 0)

/-- The last poll succeeded, and `flash_sts` is `R_OK`. -/
def ReadsOk (polls : List (Nat × List UInt8)) : Prop :=
  (∃ earlier bytes, polls = earlier ++ [(0, bytes)]) ∧ ofLe (flashSts polls) = coSdoFlasherROk

/-- The node has not answered yet, or is busy. -/
def Waiting (polls : List (Nat × List UInt8)) : Prop :=
  (∀ p ∈ polls, p.1 ≠ 0) ∨ flashSts polls = le32 coSdoFlasherRBusy

/-- The polls of `read_sts_flash`, which goes on only while it waits. -/
structure Polled (polls : List (Nat × List UInt8)) : Prop where
  length_le : polls.length ≤ 20
  waiting : ∀ earlier p later, polls = earlier ++ p :: later → Waiting earlier

/-! ## The steps of the protocol -/

/-- `bytes` are written to an object and accepted. -/
def delivery (id : UInt8) (index : Nat) (bytes : List UInt8) : Step Transfer where
  Passed done := ∃ polls, done = .write id index 1 bytes 3000 0 :: polls.map (poll id) ∧
    Accepted polls
  Failed done := (∃ code, code ≠ 0 ∧ done = [.write id index 1 bytes 3000 code]) ∨
    ∃ polls, done = .write id index 1 bytes 3000 0 :: polls.map (poll id) ∧ Refused polls

/-- The same step as the code takes it. -/
def attempt (id : UInt8) (index : Nat) (bytes : List UInt8) : Step Transfer where
  Passed done := ∃ polls, done = .write id index 1 bytes 3000 0 :: polls.map (poll id) ∧
    Polled polls ∧ ReadsOk polls
  Failed done := (∃ code, code ≠ 0 ∧ done = [.write id index 1 bytes 3000 code]) ∨
    ∃ polls, done = .write id index 1 bytes 3000 0 :: polls.map (poll id) ∧
      Polled polls ∧ ¬ ReadsOk polls

def commandStep (id : UInt8) (cmd : Nat) : Step Transfer := delivery id 0x1F51 (le32 cmd)

/-- A read of the device name. -/
def nameRead (id : UInt8) (code : Nat) (bytes : List UInt8) : Transfer :=
  .read id 0x1008 0 64 800 code bytes

/-- The string in `str` after the name is read into it. -/
def deviceName (bytes : List UInt8) : List UInt8 :=
  (stored (List.replicate 64 0) bytes).takeWhile (· ≠ 0)

def startBootloader (id : UInt8) (code : Nat) : Transfer :=
  .write id 0x1F51 1 (le32 coSdoFlasherWStartBootloader) 100 code

/-- The node runs another firmware than `name`, if need be after it has been sent to its
bootloader. -/
def identification (id : UInt8) (name : List UInt8) : Step Transfer where
  Passed done := (∃ bytes, done = [nameRead id 0 bytes] ∧ deviceName bytes ≠ name) ∨
    ∃ bytes code again,
      done = [nameRead id 0 bytes, startBootloader id code, nameRead id 0 again] ∧
        deviceName bytes = name ∧ deviceName again ≠ name
  Failed done := (∃ code bytes, code ≠ 0 ∧ done = [nameRead id code bytes]) ∨
    ∃ bytes code code' again,
      done = [nameRead id 0 bytes, startBootloader id code, nameRead id code' again] ∧
        deviceName bytes = name ∧ (code' = 0 → deviceName again = name)

/-- The data fit into `block`. -/
def sizeCheck (data : List UInt8) : Step Transfer where
  Passed done := done = [] ∧ data.length ≤ blockSz
  Failed done := done = [] ∧ data.length > blockSz

/-- The steps before the first block, by the steps for a write. -/
def preparation (write : Nat → List UInt8 → Step Transfer) (id : UInt8) (name : List UInt8) :
    List (Step Transfer) :=
  [identification id name, write 0x1F51 (le32 coSdoFlasherWStop),
    write 0x1F51 (le32 coSdoFlasherWClear)]

/-- The steps of a call of `cb_nd_wr`. -/
def protocol (write : Nat → List UInt8 → Step Transfer) (unit : CrcUnit) (id : UInt8)
    (name : List UInt8) (addr : Nat) (data : List UInt8) : List (Step Transfer) :=
  if addr ≠ 0 ∧ data.length = 0 then [write 0x1F51 (le32 coSdoFlasherCheckSignature)]
  else (if addr = 0 then preparation write id name else []) ++
    [sizeCheck data, write 0x1F50 (blockBytes unit addr addr data)]

/-! ## The calls as chains of steps -/

section

variable (bus : SdoBus β) (unit : CrcUnit) (id : UInt8) (name data : List UInt8) (addr : Nat)

/-- Writes to an object and waits for the status. -/
def deliver (err : Int) (index : Nat) (bytes : List UInt8) (b : β) : Int × β :=
  match bus.writeSdo id index 1 bytes 3000 b with
  | (0, b) => readStsFlash bus id b
  | (_, b) => (err, b)

/-- The part of `cb_nd_wr` that identifies the firmware. -/
def identify (b : β) : Int × β :=
  match readIdent bus id b with
  | (none, b) => (sdoFlErrRdIdent, b)
  | (some str, b) =>
      if str = name then
        let (_, b) := bus.writeSdo id 0x1F51 1 (le32 coSdoFlasherWStartBootloader) 100 b
        match readIdent bus id b with
        | (none, b) => (sdoFlErrRdIdent2, b)
        | (some str, b) => (if str = name then sdoFlErrIdSameSecondTime else 0, b)
      else (0, b)

def checkSize (b : β) : Int × β :=
  if data.length > blockSz then (sdoFlErrSizeBiggerThanBuffer, b) else (0, b)

theorem stopAndClear (b : β) :
    (match command bus id coSdoFlasherWStop b with
      | (0, b) => command bus id coSdoFlasherWClear b
      | failed => failed) =
      andThen (command bus id coSdoFlasherWStop) (command bus id coSdoFlasherWClear) b := by
  rw [andThen]
  split
  · rename_i b' hcommand
    rw [hcommand]
    rfl
  · rename_i failed hfailed
    rw [if_neg]
    intro hzero
    exact hfailed _ (Prod.ext hzero rfl)

theorem prepareWrite_eq : prepareWrite bus id name =
    andThen (identify bus id name) (andThen (command bus id coSdoFlasherWStop)
      (command bus id coSdoFlasherWClear)) := by
  funext b
  rw [prepareWrite, andThen, identify]
  rcases readIdent bus id b with ⟨_ | str, b₁⟩
  · rfl
  rcases Classical.em (str = name) with hstr | hstr
  · simp only [if_pos hstr]
    rcases readIdent bus id
      (bus.writeSdo id 0x1F51 1 (le32 coSdoFlasherWStartBootloader) 100 b₁).2 with
      ⟨_ | again, b₃⟩
    · rfl
    · rcases Classical.em (again = name) with hsame | hsame
      · simp only [if_pos hsame]
        rfl
      · simp only [if_neg hsame]
        exact stopAndClear bus id b₃
  · simp only [if_neg hstr]
    exact stopAndClear bus id b₁

theorem writeBlock (b : β) :
    (if data.length > blockSz then (sdoFlErrSizeBiggerThanBuffer, b)
      else
        match bus.writeSdo id 0x1F50 1 (blockBytes unit addr addr data) 3000 b with
        | (0, b) => readStsFlash bus id b
        | (_, b) => (sdoFlErrWrPayload, b)) =
      andThen (checkSize data)
        (deliver bus id sdoFlErrWrPayload 0x1F50 (blockBytes unit addr addr data)) b := by
  rw [andThen, checkSize]
  rcases Classical.em (data.length > blockSz) with hsize | hsize
  · rw [if_pos hsize, if_pos hsize]
    rfl
  · rw [if_neg hsize, if_neg hsize]
    rfl

theorem cbNdWr_eq (h : ¬ (addr ≠ 0 ∧ data.length = 0)) : cbNdWr bus unit id name addr data =
    andThen (if addr = 0 then prepareWrite bus id name else fun b => (0, b))
      (andThen (checkSize data)
        (deliver bus id sdoFlErrWrPayload 0x1F50 (blockBytes unit addr addr data))) := by
  funext b
  rw [cbNdWr, if_neg h, andThen]
  rcases Classical.em (addr = 0) with haddr | haddr
  · simp only [if_pos haddr]
    rcases Classical.em ((prepareWrite bus id name b).1 = 0) with hsts | hsts
    · rw [if_neg (not_not.mpr hsts), if_pos hsts]
      exact writeBlock bus unit id data addr _
    · rw [if_pos hsts, if_neg hsts]
  · simp only [if_neg haddr]
    exact writeBlock bus unit id data addr b

end

/-! ## What each part exchanges -/

section

variable (bus : SdoBus β) (id : UInt8)

/-- The read of a status as a poll, and the state after it. -/
def polled (b : β) : (Nat × List UInt8) × β :=
  match bus.readSdo id 0x1F57 1 4 100 b with
  | (code, bytes, b) => ((code, bytes), b)

theorem flashSts_snoc (polls : List (Nat × List UInt8)) (p : Nat × List UInt8) :
    flashSts (polls ++ [p]) = if p.1 = 0 then stored (flashSts polls) p.2 else flashSts polls := by
  rw [flashSts, List.foldl_append]
  rfl

theorem flashSts_length (polls : List (Nat × List UInt8)) : (flashSts polls).length = 4 := by
  induction polls using List.reverseRecOn with
  | nil => rfl
  | append_singleton polls p ih =>
      rw [flashSts_snoc]
      rcases Classical.em (p.1 = 0) with hp | hp
      · rw [if_pos hp, stored, List.length_append, List.length_take, List.length_drop, ih]
        omega
      · rwa [if_neg hp]

theorem flashSts_eq_iff {polls : List (Nat × List UInt8)} {n : Nat} (hn : n < 4294967296) :
    ofLe (flashSts polls) = n ↔ flashSts polls = le32 n := by
  constructor
  · intro h
    exact ofLe_inj (flashSts_length polls) (h.trans (ofLe_le32 hn).symm)
  · intro h
    rw [h, ofLe_le32 hn]

theorem flashSts_of_failed {polls : List (Nat × List UInt8)} (h : ∀ p ∈ polls, p.1 ≠ 0) :
    flashSts polls = le32 coSdoFlasherROk := by
  induction polls using List.reverseRecOn with
  | nil => rfl
  | append_singleton polls p ih =>
      have hp := h p (List.mem_append_right polls (List.mem_singleton_self p))
      rw [flashSts_snoc, if_neg hp]
      exact ih fun q hq => h q (List.mem_append_left _ hq)

theorem readsOk_snoc {polls : List (Nat × List UInt8)} {p : Nat × List UInt8} :
    ReadsOk (polls ++ [p]) ↔ p.1 = 0 ∧ ofLe (flashSts (polls ++ [p])) = coSdoFlasherROk := by
  rcases p with ⟨code, bytes⟩
  constructor
  · rintro ⟨⟨earlier, bytes', heq⟩, hok⟩
    have hlast := List.singleton_inj.mp (List.append_inj' heq rfl).2
    exact ⟨congrArg Prod.fst hlast, hok⟩
  · rintro ⟨rfl, hok⟩
    exact ⟨⟨polls, bytes, rfl⟩, hok⟩

theorem Waiting.not_readsOk {polls : List (Nat × List UInt8)} (h : Waiting polls) :
    ¬ ReadsOk polls := by
  rintro ⟨⟨earlier, bytes, rfl⟩, hok⟩
  rcases h with hfailed | hbusy
  · exact hfailed (0, bytes) (List.mem_append_right _ (List.mem_singleton_self _)) rfl
  · rw [hbusy] at hok
    exact absurd hok (by decide)

theorem SeenOk.readsOk {polls : List (Nat × List UInt8)} (h : SeenOk polls) : ReadsOk polls := by
  obtain ⟨earlier, bytes, rfl, hword, hok⟩ := h
  refine readsOk_snoc.mpr ⟨rfl, ?_⟩
  rw [flashSts_snoc, if_pos rfl, stored, flashSts_length,
    List.drop_of_length_le ((flashSts_length earlier).trans_le hword), List.append_nil]
  exact hok

theorem SeenOk.not_stale {polls : List (Nat × List UInt8)} (h : SeenOk polls) : ¬ Stale polls := by
  obtain ⟨earlier, bytes, rfl, hword, -⟩ := h
  rintro ⟨earlier', bytes', heq, hshort, -⟩
  have hlast := List.singleton_inj.mp (List.append_inj' heq rfl).2
  obtain rfl : bytes = bytes' := congrArg Prod.snd hlast
  exact absurd hword (Nat.not_le.mpr hshort)

/-- Before an answer `flash_sts` is `R_OK` or `R_BUSY`, so that zeros for its lower bytes make
it `R_OK`. -/
theorem Polled.readsOk_of_stale {polls : List (Nat × List UInt8)} (hpolled : Polled polls)
    (h : Stale polls) : ReadsOk polls := by
  obtain ⟨earlier, bytes, rfl, hshort, hzero, hnone⟩ := h
  have hbytes : bytes = List.replicate bytes.length 0 := List.eq_replicate_of_mem hzero
  have hfour : bytes.take 4 = bytes := List.take_of_length_le (Nat.le_of_lt hshort)
  refine readsOk_snoc.mpr ⟨rfl, ?_⟩
  rw [flashSts_snoc, if_pos rfl, stored, flashSts_length]
  dsimp only
  rw [hfour]
  rcases hpolled.waiting earlier (0, bytes) [] rfl with hfailed | hbusy
  · rw [flashSts_of_failed hfailed, hbytes]
    interval_cases bytes.length <;> rfl
  · have hpos : bytes.length ≠ 0 := by
      intro hlength
      have hearlier := flashSts_of_failed (hnone (List.length_eq_zero_iff.mp hlength))
      rw [hearlier] at hbusy
      exact absurd hbusy (by decide)
    rw [hbusy, hbytes]
    interval_cases bytes.length
    · exact absurd rfl hpos
    all_goals rfl

theorem Polled.stale_of_readsOk {polls : List (Nat × List UInt8)} (hpolled : Polled polls)
    (h : ReadsOk polls) (hnot : ¬ SeenOk polls) : Stale polls := by
  obtain ⟨⟨earlier, bytes, rfl⟩, -⟩ := id h
  have hstored := (flashSts_eq_iff (by decide)).mp h.2
  rw [flashSts_snoc, if_pos rfl, stored, flashSts_length] at hstored
  have hshort : bytes.length < 4 := by
    by_contra hword
    rw [List.drop_of_length_le ((flashSts_length earlier).trans_le (Nat.not_lt.mp hword)),
      List.append_nil] at hstored
    exact hnot ⟨earlier, bytes, rfl, Nat.not_lt.mp hword, by rw [hstored]; rfl⟩
  rw [List.take_of_length_le (Nat.le_of_lt hshort)] at hstored
  refine ⟨earlier, bytes, rfl, hshort, ?_, ?_⟩
  · intro x hx
    have hmem : x ∈ le32 coSdoFlasherROk := hstored ▸ List.mem_append_left _ hx
    exact List.eq_of_mem_replicate (n := 4) hmem
  · rintro rfl
    refine (hpolled.waiting earlier (0, []) [] rfl).resolve_right fun hbusy => ?_
    rw [List.nil_append, List.length_nil, List.drop_zero, hbusy] at hstored
    exact absurd hstored (by decide)

theorem Polled.of_append {earlier later : List (Nat × List UInt8)}
    (h : Polled (earlier ++ later)) : Polled earlier := by
  refine ⟨?_, ?_⟩
  · exact Nat.le_trans (List.length_append ▸ Nat.le_add_right _ _) h.length_le
  · rintro before p after rfl
    exact h.waiting before p (after ++ later) (by rw [List.append_assoc, List.cons_append])

theorem Polled.not_stale {polls : List (Nat × List UInt8)} (h : Polled polls)
    (earlier : List (Nat × List UInt8)) (p : Nat × List UInt8) (later : List (Nat × List UInt8))
    (hsplit : polls = earlier ++ p :: later) : ¬ Stale earlier := by
  intro hstale
  have hearlier : Polled earlier := (hsplit ▸ h).of_append
  exact (h.waiting earlier p later hsplit).not_readsOk (hearlier.readsOk_of_stale hstale)

theorem Polled.refused {polls : List (Nat × List UInt8)} (h : Polled polls)
    (hnot : ¬ SeenOk polls) : Refused polls := by
  refine ⟨h.length_le, ?_⟩
  rintro earlier ⟨later, rfl⟩ hok
  cases later with
  | nil =>
      rw [List.append_nil] at hnot
      exact hnot hok
  | cons p later => exact (h.waiting earlier p later rfl).not_readsOk hok.readsOk

theorem readStsLoop_succ (n : Nat) (before : List (Nat × List UInt8)) (hbefore : Waiting before)
    (b : β) :
    (ReadsOk (before ++ [(polled bus id b).1]) ∧
        readStsLoop bus id (n + 1) (flashSts before) b = (0, (polled bus id b).2)) ∨
      (¬ ReadsOk (before ++ [(polled bus id b).1]) ∧ ¬ Waiting (before ++ [(polled bus id b).1]) ∧
        readStsLoop bus id (n + 1) (flashSts before) b = (sdoFlErrStsFl, (polled bus id b).2)) ∨
      Waiting (before ++ [(polled bus id b).1]) ∧
        readStsLoop bus id (n + 1) (flashSts before) b =
          readStsLoop bus id n (flashSts (before ++ [(polled bus id b).1]))
            (polled bus id b).2 := by
  rcases hread : bus.readSdo id 0x1F57 1 4 100 b with ⟨_ | code, bytes, b₁⟩
  · have hpoll : polled bus id b = ((0, bytes), b₁) := by rw [polled, hread]
    have hsts := flashSts_snoc before (0, bytes)
    rw [if_pos rfl] at hsts
    have hturn : readStsLoop bus id (n + 1) (flashSts before) b =
        if ofLe (flashSts (before ++ [(0, bytes)])) = coSdoFlasherROk then (0, b₁)
        else if ofLe (flashSts (before ++ [(0, bytes)])) ≠ coSdoFlasherRBusy then
          (sdoFlErrStsFl, b₁)
        else readStsLoop bus id n (flashSts (before ++ [(0, bytes)])) b₁ := by
      simp only [readStsLoop, hread, hsts]
    rw [hpoll, hturn, readsOk_snoc]
    split_ifs with hok hother
    · exact .inl ⟨⟨rfl, hok⟩, rfl⟩
    · refine .inr (.inl ⟨fun h => hok h.2, ?_, rfl⟩)
      rintro (hfailed | hbusy)
      · exact hfailed (0, bytes) (List.mem_append_right _ (List.mem_singleton_self _)) rfl
      · exact hother ((flashSts_eq_iff (by decide)).mpr hbusy)
    · exact .inr (.inr ⟨.inr ((flashSts_eq_iff (by decide)).mp (not_not.mp hother)), rfl⟩)
  · have hpoll : polled bus id b = ((code + 1, bytes), b₁) := by rw [polled, hread]
    have hsts := flashSts_snoc before (code + 1, bytes)
    rw [if_neg (Nat.succ_ne_zero code)] at hsts
    rw [hpoll, hsts]
    refine .inr (.inr ⟨?_, ?_⟩)
    · refine hbefore.imp (fun hfailed p hp => ?_) fun hbusy => hsts.trans hbusy
      rcases List.mem_append.mp hp with hp | hp
      · exact hfailed p hp
      · rw [List.mem_singleton.mp hp]
        exact Nat.succ_ne_zero code
    · simp only [readStsLoop, hread]

theorem polled_recorded (b : β) (log : List Transfer) :
    polled (recorded bus) id (b, log) =
      ((polled bus id b).1, (polled bus id b).2, log ++ [poll id (polled bus id b).1]) := rfl

theorem readStsLoop_recorded (n : Nat) (before : List (Nat × List UInt8))
    (hbefore : Waiting before) (b : β) (log : List Transfer) : ∃ polls,
      readStsLoop (recorded bus) id n (flashSts before) (b, log) =
        ((readStsLoop bus id n (flashSts before) b).1,
          (readStsLoop bus id n (flashSts before) b).2, log ++ polls.map (poll id)) ∧
      polls.length ≤ n ∧
      (∀ earlier p later, polls = earlier ++ p :: later → Waiting (before ++ earlier)) ∧
      ((readStsLoop bus id n (flashSts before) b).1 = 0 ↔ ReadsOk (before ++ polls)) := by
  have herr : sdoFlErrStsFl ≠ 0 := by decide
  induction n generalizing before b log with
  | zero =>
      refine ⟨[], ?_, Nat.le_refl 0, by simp, iff_of_false herr ?_⟩
      · rw [List.map_nil, List.append_nil]
        rfl
      · rw [List.append_nil]
        exact hbefore.not_readsOk
  | succ n ih =>
      have hone : ∀ earlier p later, [(polled bus id b).1] = earlier ++ p :: later →
          Waiting (before ++ earlier) := by
        intro earlier p later hsplit
        obtain ⟨rfl, -⟩ | ⟨-, hnil⟩ := List.singleton_eq_append_iff.mp hsplit
        · rwa [List.append_nil]
        · cases hnil
      have hrecorded := readStsLoop_succ (recorded bus) id n before hbefore (b, log)
      rw [polled_recorded] at hrecorded
      rcases readStsLoop_succ bus id n before hbefore b with
        ⟨hok, hrun⟩ | ⟨hnot, hstop, hrun⟩ | ⟨hwait, hrun⟩
      · have hrun' := (hrecorded.resolve_right fun h => h.elim (fun h => h.1 hok)
          fun h => h.1.not_readsOk hok).2
        rw [hrun, hrun']
        exact ⟨[(polled bus id b).1], rfl, Nat.le_add_left 1 n, hone, iff_of_true rfl hok⟩
      · have hrun' := ((hrecorded.resolve_left fun h => hnot h.1).resolve_right
          fun h => hstop h.1).2.2
        rw [hrun, hrun']
        exact ⟨[(polled bus id b).1], rfl, Nat.le_add_left 1 n, hone, iff_of_false herr hnot⟩
      · have hrun' := ((hrecorded.resolve_left fun h => hwait.not_readsOk h.1).resolve_left
          fun h => h.2.1 hwait).2
        rw [hrun, hrun']
        obtain ⟨polls, hloop, hlength, hwaiting, hresult⟩ :=
          ih _ hwait (polled bus id b).2 (log ++ [poll id (polled bus id b).1])
        rw [List.append_assoc, List.singleton_append] at hresult
        refine ⟨(polled bus id b).1 :: polls, ?_, Nat.succ_le_succ hlength, ?_, hresult⟩
        · rw [hloop, List.append_assoc]
          rfl
        · intro earlier p later hsplit
          rcases List.cons_eq_append_iff.mp hsplit with ⟨rfl, -⟩ | ⟨earlier', rfl, hlater⟩
          · rwa [List.append_nil]
          · rw [← List.singleton_append, ← List.append_assoc]
            exact hwaiting earlier' p later hlater

theorem readStsFlash_recorded (b : β) (log : List Transfer) : ∃ polls,
    readStsFlash (recorded bus) id (b, log) =
      ((readStsFlash bus id b).1, (readStsFlash bus id b).2, log ++ polls.map (poll id)) ∧
    Polled polls ∧ ((readStsFlash bus id b).1 = 0 ↔ ReadsOk polls) := by
  obtain ⟨polls, hrun, hlength, hwaiting, hresult⟩ :=
    readStsLoop_recorded bus id 20 [] (.inl (by simp)) b log
  exact ⟨polls, hrun, ⟨hlength, hwaiting⟩, hresult⟩

theorem deliver_performs {err : Int} (herr : err ≠ 0) (index : Nat) (bytes : List UInt8) :
    Performs [attempt id index bytes] (deliver (recorded bus) id err index bytes)
      (deliver bus id err index bytes) := by
  intro b log
  rcases hwrite : bus.writeSdo id index 1 bytes 3000 b with ⟨_ | code, b₁⟩
  · have hbare : deliver bus id err index bytes b = readStsFlash bus id b₁ := by
      simp only [deliver, hwrite]
    have hrecorded : deliver (recorded bus) id err index bytes (b, log) =
        readStsFlash (recorded bus) id
          (b₁, log ++ [.write id index 1 bytes 3000 0]) := by
      simp only [deliver, recorded, hwrite]
    rcases readStsFlash_recorded bus id b₁ (log ++ [.write id index 1 bytes 3000 0]) with
      ⟨polls, hrun, hpolled, hresult⟩
    refine ⟨.write id index 1 bytes 3000 0 :: polls.map (poll id), ?_, ?_⟩
    · rw [hrecorded, hrun, hbare, List.append_assoc]
      rfl
    · rw [hbare]
      rcases Classical.em ((readStsFlash bus id b₁).1 = 0) with hsts | hsts
      · rw [hsts]
        exact .single_passed ⟨polls, rfl, hpolled, hresult.mp hsts⟩
      · exact .failed (.inr ⟨polls, rfl, hpolled, fun hok => hsts (hresult.mpr hok)⟩) hsts
  · have hbare : deliver bus id err index bytes b = (err, b₁) := by
      simp only [deliver, hwrite]
    refine ⟨[.write id index 1 bytes 3000 (code + 1)], ?_, ?_⟩
    · rw [hbare]
      simp only [deliver, recorded, hwrite]
    · rw [hbare]
      exact .failed (.inl ⟨code + 1, Nat.succ_ne_zero code, rfl⟩) herr

theorem command_performs (cmd : Nat) :
    Performs [attempt id 0x1F51 (le32 cmd)] (command (recorded bus) id cmd)
      (command bus id cmd) := by
  have herr : sdoFlErrWrCmd ≠ 0 := by decide
  exact deliver_performs bus id herr 0x1F51 (le32 cmd)

theorem identify_performs (name : List UInt8) :
    Performs [identification id name] (identify (recorded bus) id name)
      (identify bus id name) := by
  intro b log
  have hident : sdoFlErrRdIdent ≠ 0 := by decide
  have hident2 : sdoFlErrRdIdent2 ≠ 0 := by decide
  have hsecond : sdoFlErrIdSameSecondTime ≠ 0 := by decide
  rcases hread : bus.readSdo id 0x1008 0 64 800 b with ⟨_ | code, bytes, b₁⟩
  · rcases Classical.em (deviceName bytes = name) with hname | hname
    · have hstr := hname
      rw [deviceName] at hstr
      rcases hwrite : bus.writeSdo id 0x1F51 1 (le32 coSdoFlasherWStartBootloader) 100 b₁ with
        ⟨ack, b₂⟩
      rcases hagain : bus.readSdo id 0x1008 0 64 800 b₂ with ⟨_ | code', again, b₃⟩
      · refine ⟨[nameRead id 0 bytes, startBootloader id ack, nameRead id 0 again], ?_, ?_⟩
        · simp only [identify, readIdent, recorded, hread, if_pos hstr, hwrite, hagain,
            List.append_assoc]
          rfl
        · simp only [identify, readIdent, hread, if_pos hstr, hwrite, hagain]
          change Conducted _ (if deviceName again = name then _ else _) _
          rcases Classical.em (deviceName again = name) with hsame | hother
          · rw [if_pos hsame]
            exact .failed (.inr ⟨bytes, ack, 0, again, rfl, hname, fun _ => hsame⟩) hsecond
          · rw [if_neg hother]
            exact .single_passed (.inr ⟨bytes, ack, again, rfl, hname, hother⟩)
      · refine ⟨[nameRead id 0 bytes, startBootloader id ack, nameRead id (code' + 1) again],
          ?_, ?_⟩
        · simp only [identify, readIdent, recorded, hread, if_pos hstr, hwrite, hagain,
            List.append_assoc]
          rfl
        · simp only [identify, readIdent, hread, if_pos hstr, hwrite, hagain]
          exact .failed (.inr ⟨bytes, ack, code' + 1, again, rfl, hname,
            fun h => absurd h (Nat.succ_ne_zero code')⟩) hident2
    · have hstr := hname
      rw [deviceName] at hstr
      refine ⟨[nameRead id 0 bytes], ?_, ?_⟩
      · simp only [identify, readIdent, recorded, hread, if_neg hstr]
        rfl
      · simp only [identify, readIdent, hread, if_neg hstr]
        exact .single_passed (.inl ⟨bytes, rfl, hname⟩)
  · refine ⟨[nameRead id (code + 1) bytes], ?_, ?_⟩
    · simp only [identify, readIdent, recorded, hread]
      rfl
    · simp only [identify, readIdent, hread]
      exact .failed (.inl ⟨code + 1, bytes, Nat.succ_ne_zero code, rfl⟩) hident

theorem checkSize_performs (data : List UInt8) :
    Performs [sizeCheck data] (checkSize data : β × List Transfer → Int × β × List Transfer)
      (checkSize data) := by
  intro b log
  have herr : sdoFlErrSizeBiggerThanBuffer ≠ 0 := by decide
  rw [checkSize, checkSize]
  rcases Classical.em (data.length > blockSz) with hsize | hsize
  · rw [if_pos hsize, if_pos hsize]
    exact ⟨[], by rw [List.append_nil], .failed ⟨rfl, hsize⟩ herr⟩
  · rw [if_neg hsize, if_neg hsize]
    exact ⟨[], by rw [List.append_nil], .single_passed ⟨rfl, Nat.not_lt.mp hsize⟩⟩

theorem prepareWrite_performs (name : List UInt8) :
    Performs (preparation (attempt id) id name) (prepareWrite (recorded bus) id name)
      (prepareWrite bus id name) := by
  rw [prepareWrite_eq, prepareWrite_eq]
  exact (identify_performs bus id name).andThen ((command_performs bus id coSdoFlasherWStop).andThen
    (command_performs bus id coSdoFlasherWClear))

theorem cbNdWr_performs (unit : CrcUnit) (name data : List UInt8) (addr : Nat) :
    Performs (protocol (attempt id) unit id name addr data)
      (cbNdWr (recorded bus) unit id name addr data) (cbNdWr bus unit id name addr data) := by
  rw [protocol]
  rcases Classical.em (addr ≠ 0 ∧ data.length = 0) with hcheck | hwrite
  · have hbare : cbNdWr bus unit id name addr data =
        command bus id coSdoFlasherCheckSignature := funext fun b => if_pos hcheck
    have hrecorded : cbNdWr (recorded bus) unit id name addr data =
        command (recorded bus) id coSdoFlasherCheckSignature := funext fun b => if_pos hcheck
    rw [if_pos hcheck, hbare, hrecorded]
    exact command_performs bus id coSdoFlasherCheckSignature
  · have herr : sdoFlErrWrPayload ≠ 0 := by decide
    have hblock := (@checkSize_performs β data).andThen
      (deliver_performs bus id herr 0x1F50 (blockBytes unit addr addr data))
    rw [if_neg hwrite, cbNdWr_eq bus unit id name data addr hwrite,
      cbNdWr_eq (recorded bus) unit id name data addr hwrite]
    rcases Classical.em (addr = 0) with haddr | haddr
    · rw [if_pos haddr, if_pos haddr, if_pos haddr]
      exact (prepareWrite_performs bus id name).andThen hblock
    · rw [if_neg haddr, if_neg haddr, if_neg haddr]
      exact Performs.skip.andThen hblock

end

/-! ## The order of a call -/

def Transfer.WritesTo (index : Nat) : Transfer → Prop
  | .read .. => False
  | .write _ index' .. => index' = index

/-- The bytes of a write. -/
def Transfer.written : Transfer → List UInt8
  | .read .. => []
  | .write _ _ _ bytes _ _ => bytes

theorem delivery_writesTo {id : UInt8} {index : Nat} {bytes : List UInt8}
    {done : List Transfer}
    (hdone : (delivery id index bytes).Passed done ∨ (delivery id index bytes).Failed done)
    {t : Transfer} (ht : t ∈ done) {other : Nat} (hwrites : t.WritesTo other) :
    other = index ∧ t.written = bytes := by
  have hpolls : ∀ (code : Nat) (polls : List (Nat × List UInt8)),
      t ∈ Transfer.write id index 1 bytes 3000 code :: polls.map (poll id) →
        other = index ∧ t.written = bytes := by
    intro code polls hmem
    rcases List.mem_cons.mp hmem with rfl | hmem
    · exact ⟨hwrites.symm, rfl⟩
    · rcases List.mem_map.mp hmem with ⟨p, -, rfl⟩
      exact hwrites.elim
  rcases hdone with ⟨polls, rfl, -⟩ | ⟨code, -, rfl⟩ | ⟨polls, rfl, -⟩
  · exact hpolls 0 polls ht
  · exact hpolls code [] ht
  · exact hpolls 0 polls ht

theorem identification_writesTo {id : UInt8} {name : List UInt8} {done : List Transfer}
    (hdone : (identification id name).Passed done ∨ (identification id name).Failed done)
    {t : Transfer} (ht : t ∈ done) : ¬ t.WritesTo 0x1F50 := by
  have hstart : ¬ (0x1F51 = 0x1F50) := by decide
  rcases hdone with (⟨bytes, rfl, -⟩ | ⟨bytes, code, again, rfl, -⟩) |
    ⟨code, bytes, -, rfl⟩ | ⟨bytes, code, code', again, rfl, -⟩
  all_goals
    simp only [List.mem_cons, List.not_mem_nil, or_false] at ht
  · rw [ht]
    exact not_false
  · rcases ht with rfl | rfl | rfl
    · exact not_false
    · exact hstart
    · exact not_false
  · rw [ht]
    exact not_false
  · rcases ht with rfl | rfl | rfl
    · exact not_false
    · exact hstart
    · exact not_false

theorem preparation_writesTo {id : UInt8} {name : List UInt8} {step : Step Transfer}
    (hstep : step ∈ preparation (delivery id) id name) {done : List Transfer}
    (hdone : step.Passed done ∨ step.Failed done) {t : Transfer} (ht : t ∈ done) :
    ¬ t.WritesTo 0x1F50 := by
  have hindex : ¬ (0x1F50 = 0x1F51) := by decide
  simp only [preparation, List.mem_cons, List.not_mem_nil, or_false] at hstep
  rcases hstep with rfl | rfl | rfl
  · exact identification_writesTo hdone ht
  · exact fun h => hindex (delivery_writesTo hdone ht h).1
  · exact fun h => hindex (delivery_writesTo hdone ht h).1

theorem protocol_writesTo {unit : CrcUnit} {id : UInt8} {name data : List UInt8} {addr : Nat}
    {step : Step Transfer} (hstep : step ∈ protocol (delivery id) unit id name addr data)
    {done : List Transfer} (hdone : step.Passed done ∨ step.Failed done) {t : Transfer}
    (ht : t ∈ done) (hwrites : t.WritesTo 0x1F50) :
    t.written = blockBytes unit addr addr data := by
  have hblock : step ∈ [sizeCheck data, delivery id 0x1F50 (blockBytes unit addr addr data)] →
      t.written = blockBytes unit addr addr data := by
    intro hstep
    rcases List.mem_pair.mp hstep with rfl | rfl
    · rcases hdone with ⟨rfl, -⟩ | ⟨rfl, -⟩
      · cases ht
      · cases ht
    · exact (delivery_writesTo hdone ht hwrites).2
  rw [protocol] at hstep
  split_ifs at hstep
  · obtain rfl := List.mem_singleton.mp hstep
    exact absurd (delivery_writesTo hdone ht hwrites).1 (by decide)
  · rcases List.mem_append.mp hstep with hstep | hstep
    · exact absurd hwrites (preparation_writesTo hstep hdone ht)
    · exact hblock hstep
  · exact hblock hstep

/-- The node is prepared within the call before a block is written, nothing follows a step that
fails, and success means that the last write is accepted. -/
structure Orderly (unit : CrcUnit) (id : UInt8) (name : List UInt8) (addr : Nat)
    (data : List UInt8) (sts : Int) (transfers : List Transfer) : Prop where
  steps : Conducted (protocol (delivery id) unit id name addr data) sts transfers
  prepared : addr = 0 → 0 < data.length → data.length ≤ blockSz →
    ∀ pre t post, transfers = pre ++ t :: post → t.WritesTo 0x1F50 →
      ∃ identified stopped cleared, identified ++ stopped ++ cleared <+: pre ∧
        (identification id name).Passed identified ∧
        (commandStep id coSdoFlasherWStop).Passed stopped ∧
        (commandStep id coSdoFlasherWClear).Passed cleared
  settled : sts = 0 → ∃ pre index bytes polls,
    transfers = pre ++ .write id index 1 bytes 3000 0 :: polls.map (poll id) ∧ Accepted polls
  blocks : ∀ t ∈ transfers, t.WritesTo 0x1F50 →
    ∃ block, block = le32 addr ++ le32 addr ++ le32 data.length ++ data ∧
      block.length = 12 + data.length ∧ t.written = block ++ le32 (crc32 unit block).toNat

theorem Orderly.of_steps {unit : CrcUnit} {id : UInt8} {name data : List UInt8} {addr : Nat}
    {sts : Int} {transfers : List Transfer}
    (hsteps : Conducted (protocol (delivery id) unit id name addr data) sts transfers) :
    Orderly unit id name addr data sts transfers := by
  refine ⟨hsteps, ?_, ?_, ?_⟩
  · rintro rfl hpos - pre t post hsplit ht
    have hnot : ¬ ((0 : Nat) ≠ 0 ∧ data.length = 0) := fun h => h.1 rfl
    rw [protocol, if_neg hnot, if_pos rfl] at hsteps
    rcases hsteps.passed_before (fun step hstep done hdone t ht =>
      preparation_writesTo hstep hdone ht) hsplit ht with ⟨parts, hparts, hpre⟩
    rcases hparts with _ | ⟨hidentified, _ | ⟨hstopped, _ | ⟨hcleared, _ | _⟩⟩⟩
    rename_i identified stopped cleared
    refine ⟨identified, stopped, cleared, ?_, hidentified, hstopped, hcleared⟩
    simpa only [List.flatten_cons, List.flatten_nil, List.append_nil, List.append_assoc] using hpre
  · rintro rfl
    have hlast : ∃ steps index bytes, protocol (delivery id) unit id name addr data =
        steps ++ [delivery id index bytes] := by
      rw [protocol]
      split_ifs
      · exact ⟨[], 0x1F51, _, rfl⟩
      · exact ⟨preparation (delivery id) id name ++ [sizeCheck data], 0x1F50, _, rfl⟩
      · exact ⟨[sizeCheck data], 0x1F50, _, rfl⟩
    rcases hlast with ⟨steps, index, bytes, hprotocol⟩
    rw [hprotocol] at hsteps
    rcases hsteps.last_passed with ⟨pre, done, rfl, polls, rfl, hpolls⟩
    exact ⟨pre, index, bytes, polls, rfl, hpolls⟩
  · intro t ht hwrites
    rcases hsteps.mem ht with ⟨step, hstep, done, hdone, ht⟩
    refine ⟨_, rfl, ?_, protocol_writesTo hstep hdone ht hwrites⟩
    simp only [List.length_append, le32_length]

/-! ## When the order is kept -/

def Transfer.IsWrite : Transfer → Prop
  | .read .. => False
  | .write .. => True

/-- None of the polls after a write is stale; but in a call with too many data, which fails in
any case, the last of all may be. -/
def Legible (id : UInt8) (data : List UInt8) (transfers : List Transfer) : Prop :=
  ∀ pre w polls post, transfers = pre ++ w :: (polls.map (poll id) ++ post) → w.IsWrite →
    Stale polls → data.length > blockSz ∧ post = []

/-- The transfers do not go on with a poll. -/
def Polling (id : UInt8) (transfers : List Transfer) : Prop :=
  ∃ p rest, transfers = poll id p :: rest

section

variable {id : UInt8} {data : List UInt8} {polls polls' : List (Nat × List UInt8)}
  {steps steps' : List (Step Transfer)} {sts : Int} {rest rest' xs : List Transfer}

theorem prefix_of_polls (hrest : ¬ Polling id rest)
    (h : polls.map (poll id) ++ rest = polls'.map (poll id) ++ rest') :
    ∃ later, polls = polls' ++ later ∧ rest' = later.map (poll id) ++ rest := by
  induction polls' generalizing polls with
  | nil => exact ⟨polls, rfl, h.symm⟩
  | cons p polls' ih =>
      cases polls with
      | nil => exact absurd ⟨p, polls'.map (poll id) ++ rest', h⟩ hrest
      | cons q polls =>
          obtain ⟨hhead, htail⟩ := List.cons.inj h
          obtain ⟨later, rfl, hlater⟩ := ih htail
          have hp : q = p := by
            injection hhead with _ _ _ _ _ hcode hbytes
            exact Prod.ext hcode hbytes
          exact ⟨later, by rw [hp]; rfl, hlater⟩

theorem polls_inj (hrest : ¬ Polling id rest) (hrest' : ¬ Polling id rest')
    (h : polls.map (poll id) ++ rest = polls'.map (poll id) ++ rest') :
    polls = polls' ∧ rest = rest' := by
  obtain ⟨later, rfl, rfl⟩ := prefix_of_polls hrest h
  cases later with
  | nil => exact ⟨List.append_nil _, rfl⟩
  | cons p later => exact absurd ⟨p, later.map (poll id) ++ rest, rfl⟩ hrest'

theorem legible_nil : Legible id data [] := by
  intro pre w polls post h
  cases pre <;> cases h

theorem legible_cons {t : Transfer} (ht : ¬ t.IsWrite) :
    Legible id data (t :: rest) ↔ Legible id data rest := by
  constructor
  · rintro h pre w polls post rfl
    exact h (t :: pre) w polls post rfl
  · intro h pre w polls post heq hw
    cases pre with
    | nil => exact absurd ((List.cons.inj heq).1 ▸ hw) ht
    | cons s pre => exact h pre w polls post (List.cons.inj heq).2 hw

theorem legible_polls : Legible id data (polls.map (poll id) ++ rest) ↔ Legible id data rest := by
  induction polls with
  | nil => exact Iff.rfl
  | cons p polls ih =>
      have hread : ¬ (poll id p).IsWrite := fun h => h
      exact (legible_cons hread).trans ih

/-- A write with its polls, of which at most the last one may be stale. -/
theorem legible_write {w : Transfer} (hw : w.IsWrite) (hrest : ¬ Polling id rest)
    (hpolls : ∀ earlier p later, polls = earlier ++ p :: later → ¬ Stale earlier) :
    Legible id data (w :: (polls.map (poll id) ++ rest)) ↔
      (Stale polls → data.length > blockSz ∧ rest = []) ∧ Legible id data rest := by
  constructor
  · intro h
    have hbehind : Legible id data (polls.map (poll id) ++ rest) := by
      intro pre w' polls' post heq
      exact h (w :: pre) w' polls' post (by rw [heq]; rfl)
    exact ⟨h [] w polls rest rfl hw, legible_polls.mp hbehind⟩
  · rintro ⟨hlast, h⟩ pre w' polls' post heq hw' hstale
    cases pre with
    | nil =>
        obtain ⟨later, rfl, rfl⟩ := prefix_of_polls hrest (List.cons.inj heq).2
        cases later with
        | nil =>
            rw [List.append_nil] at hlast
            exact hlast hstale
        | cons p later => exact absurd hstale (hpolls polls' p later rfl)
    | cons s pre =>
        exact legible_polls.mpr h pre w' polls' post (List.cons.inj heq).2 hw' hstale

theorem legible_unpolled {w : Transfer} (hw : w.IsWrite) (hrest : ¬ Polling id rest) :
    Legible id data (w :: rest) ↔ Legible id data rest := by
  have hnone : ∀ earlier p later, [] = earlier ++ p :: later → ¬ Stale earlier := by
    rintro earlier p later heq
    exact absurd heq.symm (List.append_ne_nil_of_right_ne_nil earlier (List.cons_ne_nil p later))
  refine (legible_write hw hrest hnone).trans (and_iff_right ?_)
  rintro ⟨earlier, bytes, heq, -⟩
  exact absurd heq.symm (List.append_ne_nil_of_right_ne_nil earlier (List.cons_ne_nil _ _))

/-- What the code does in some steps is legible exactly if it does the steps of the protocol. -/
structure Matched (id : UInt8) (data : List UInt8) (sts : Int)
    (steps steps' : List (Step Transfer)) : Prop where
  quiet : ∀ xs, Conducted steps sts xs → ¬ Polling id xs
  quiet' : ∀ xs, Conducted steps' sts xs → ¬ Polling id xs
  legible : ∀ xs, Conducted steps sts xs → (Conducted steps' sts xs ↔ Legible id data xs)

theorem not_polling_nil : ¬ Polling id [] := by
  rintro ⟨p, rest, heq⟩
  cases heq

theorem not_polling_write {index code : Nat} {bytes : List UInt8} :
    ¬ Polling id (.write id index 1 bytes 3000 code :: rest) := by
  rintro ⟨p, rest', heq⟩
  cases heq

theorem Matched.nil : Matched id data sts [] [] := by
  refine ⟨?_, ?_, ?_⟩
  · rintro _ ⟨⟩
    exact not_polling_nil
  · rintro _ ⟨⟩
    exact not_polling_nil
  · rintro _ ⟨⟩
    exact iff_of_true .finished legible_nil

theorem conducted_delivery {index : Nat} {bytes : List UInt8} (hpolled : Polled polls)
    (hok : ReadsOk polls) (hrest : ¬ Polling id rest)
    (hquiet : ∀ xs, Conducted steps' sts xs → ¬ Polling id xs) :
    Conducted (delivery id index bytes :: steps') sts
        (.write id index 1 bytes 3000 0 :: (polls.map (poll id) ++ rest)) ↔
      (¬ Stale polls ∧ Conducted steps' sts rest) ∨ (Stale polls ∧ rest = [] ∧ sts ≠ 0) := by
  constructor
  · intro hsteps
    generalize hxs : Transfer.write id index 1 bytes 3000 0 :: (polls.map (poll id) ++ rest) = xs
      at hsteps
    rcases hsteps with _ | ⟨⟨polls', rfl, -, hseen⟩, hsteps'⟩ |
      ⟨⟨code, hcode, rfl⟩ | ⟨polls', rfl, -, hrefused⟩, hsts⟩
    · obtain ⟨rfl, rfl⟩ := polls_inj hrest (hquiet _ hsteps') (List.cons.inj hxs).2
      exact .inl ⟨hseen.not_stale, hsteps'⟩
    · injection (List.cons.inj hxs).1 with _ _ _ _ _ hzero
      exact absurd hzero.symm hcode
    · have htail := (List.cons.inj hxs).2
      rw [← List.append_nil (polls'.map _)] at htail
      obtain ⟨rfl, rfl⟩ := polls_inj hrest not_polling_nil htail
      exact .inr ⟨hpolled.stale_of_readsOk hok (hrefused polls List.prefix_rfl), rfl, hsts⟩
  · rintro (⟨hstale, hsteps'⟩ | ⟨hstale, rfl, hsts⟩)
    · have hseen : SeenOk polls := by
        by_contra hnot
        exact hstale (hpolled.stale_of_readsOk hok hnot)
      have hpassed : (delivery id index bytes).Passed
          (.write id index 1 bytes 3000 0 :: polls.map (poll id)) :=
        ⟨polls, rfl, hpolled.length_le, hseen⟩
      exact .passed hpassed hsteps'
    · rw [List.append_nil]
      exact .failed (.inr ⟨polls, rfl, hpolled.refused fun hseen => hseen.not_stale hstale⟩) hsts

theorem Matched.write {index : Nat} {bytes : List UInt8} (h : Matched id data sts steps steps')
    (hend : Conducted steps sts [] → (sts ≠ 0 ↔ data.length > blockSz)) :
    Matched id data sts (attempt id index bytes :: steps) (delivery id index bytes :: steps') := by
  refine ⟨?_, ?_, ?_⟩
  · rintro _ (_ | ⟨⟨polls, rfl, -⟩, -⟩ | ⟨⟨code, -, rfl⟩ | ⟨polls, rfl, -⟩, -⟩)
    all_goals exact not_polling_write
  · rintro _ (_ | ⟨⟨polls, rfl, -⟩, -⟩ | ⟨⟨code, -, rfl⟩ | ⟨polls, rfl, -⟩, -⟩)
    all_goals exact not_polling_write
  have hwrite : ∀ code, (Transfer.write id index 1 bytes 3000 code).IsWrite := fun _ => trivial
  rintro _ (_ | @⟨_, _, _, _, rest, ⟨polls, rfl, hpolled, hok⟩, hsteps⟩ |
    ⟨⟨code, hcode, rfl⟩ | ⟨polls, rfl, hpolled, hnot⟩, hsts⟩)
  · have hrest := h.quiet rest hsteps
    rw [List.cons_append, legible_write (hwrite 0) hrest hpolled.not_stale, ← h.legible rest hsteps,
      conducted_delivery hpolled hok hrest h.quiet']
    constructor
    · rintro (⟨hstale, hsteps'⟩ | ⟨-, rfl, hsts⟩)
      · exact ⟨fun hsome => absurd hsome hstale, hsteps'⟩
      · exact ⟨fun _ => ⟨(hend hsteps).mp hsts, rfl⟩, (h.legible [] hsteps).mpr legible_nil⟩
    · rintro ⟨hlast, hsteps'⟩
      rcases Classical.em (Stale polls) with hstale | hstale
      · obtain ⟨hsize, rfl⟩ := hlast hstale
        exact .inr ⟨hstale, rfl, (hend hsteps).mpr hsize⟩
      · exact .inl ⟨hstale, hsteps'⟩
  · refine iff_of_true (.failed (.inl ⟨code, hcode, rfl⟩) hsts) ?_
    exact (legible_unpolled (hwrite code) not_polling_nil).mpr legible_nil
  · have hrefused := hpolled.refused fun hseen => hnot hseen.readsOk
    refine iff_of_true (.failed (.inr ⟨polls, rfl, hrefused⟩) hsts) ?_
    rw [← List.append_nil (polls.map _)]
    refine (legible_write (hwrite 0) not_polling_nil hpolled.not_stale).mpr ⟨?_, legible_nil⟩
    exact fun hstale => absurd (hpolled.readsOk_of_stale hstale) hnot

theorem Matched.check (h : data.length ≤ blockSz → Matched id data sts steps steps') :
    Matched id data sts (sizeCheck data :: steps) (sizeCheck data :: steps') := by
  refine ⟨?_, ?_, ?_⟩
  · rintro _ (_ | ⟨⟨rfl, hfits⟩, hsteps⟩ | ⟨⟨rfl, -⟩, -⟩)
    · exact (h hfits).quiet _ hsteps
    · exact not_polling_nil
  · rintro _ (_ | ⟨⟨rfl, hfits⟩, hsteps⟩ | ⟨⟨rfl, -⟩, -⟩)
    · exact (h hfits).quiet' _ hsteps
    · exact not_polling_nil
  · rintro _ (_ | ⟨⟨rfl, hfits⟩, hsteps⟩ | ⟨⟨rfl, hsize⟩, hsts⟩)
    · rw [List.nil_append, ← (h hfits).legible _ hsteps]
      constructor
      · intro hsteps'
        rcases hsteps' with _ | ⟨⟨rfl, -⟩, hsteps'⟩ | ⟨⟨-, hsize⟩, -⟩
        · exact hsteps'
        · exact absurd hfits (Nat.not_le.mpr hsize)
      · intro hsteps'
        have hpassed : (sizeCheck data).Passed [] := ⟨rfl, hfits⟩
        exact .passed hpassed hsteps'
    · exact iff_of_true (.failed ⟨rfl, hsize⟩ hsts) legible_nil

theorem not_polling_nameRead {code : Nat} {bytes : List UInt8} :
    ¬ Polling id (nameRead id code bytes :: rest) := by
  rintro ⟨p, rest', heq⟩
  injection (List.cons.inj heq).1 with _ hindex
  exact absurd hindex (by decide)

theorem nameRead_inj {code code' : Nat} {bytes bytes' : List UInt8}
    (h : nameRead id code bytes :: rest = nameRead id code' bytes' :: rest') :
    code = code' ∧ bytes = bytes' ∧ rest = rest' := by
  obtain ⟨hhead, hrest⟩ := List.cons.inj h
  injection hhead with _ _ _ _ _ hcode hbytes
  exact ⟨hcode, hbytes, hrest⟩

/-- A completed identification is told from the answers: it ends with the first different
name. -/
theorem identification_inj {name : List UInt8} {done done' : List Transfer}
    (hdone : (identification id name).Passed done)
    (h : done ++ rest = done' ++ rest') :
    ((identification id name).Passed done' → rest = rest') ∧
      ((identification id name).Failed done' → False) := by
  rcases hdone with ⟨bytes, rfl, hname⟩ | ⟨bytes, code, again, rfl, hname, hother⟩
  · refine ⟨?_, ?_⟩
    · rintro (⟨bytes', rfl, -⟩ | ⟨bytes', code', again', rfl, hname', -⟩)
      · exact (nameRead_inj h).2.2
      · obtain ⟨-, rfl, -⟩ := nameRead_inj h
        exact absurd hname' hname
    · rintro (⟨code', bytes', hcode, rfl⟩ | ⟨bytes', code', code'', again', rfl, hname', -⟩)
      · exact hcode (nameRead_inj h).1.symm
      · obtain ⟨-, rfl, -⟩ := nameRead_inj h
        exact hname hname'
  · refine ⟨?_, ?_⟩
    · rintro (⟨bytes', rfl, hname'⟩ | ⟨bytes', code', again', rfl, -⟩)
      · obtain ⟨-, rfl, -⟩ := nameRead_inj h
        exact absurd hname hname'
      · exact (nameRead_inj (List.cons.inj (nameRead_inj h).2.2).2).2.2
    · rintro (⟨code', bytes', hcode, rfl⟩ | ⟨bytes', code', code'', again', rfl, -, hsame⟩)
      · exact hcode (nameRead_inj h).1.symm
      · obtain ⟨rfl, rfl, -⟩ := nameRead_inj (List.cons.inj (nameRead_inj h).2.2).2
        exact hother (hsame rfl)

theorem legible_identification {name : List UInt8} {done : List Transfer}
    (hdone : (identification id name).Passed done ∨ (identification id name).Failed done) :
    Legible id data (done ++ rest) ↔ Legible id data rest := by
  have hread : ∀ code bytes, ¬ (nameRead id code bytes).IsWrite := fun _ _ h => h
  have hstart : ∀ code, (startBootloader id code).IsWrite := fun _ => trivial
  have hthree : ∀ bytes code code' again,
      Legible id data ([nameRead id 0 bytes, startBootloader id code, nameRead id code' again] ++
        rest) ↔ Legible id data rest := by
    intro bytes code code' again
    exact (legible_cons (hread 0 bytes)).trans
      ((legible_unpolled (hstart code) not_polling_nameRead).trans
        (legible_cons (hread code' again)))
  rcases hdone with (⟨bytes, rfl, -⟩ | ⟨bytes, code, again, rfl, -⟩) |
    ⟨code, bytes, -, rfl⟩ | ⟨bytes, code, code', again, rfl, -⟩
  · exact legible_cons (hread 0 bytes)
  · exact hthree bytes code 0 again
  · exact legible_cons (hread code bytes)
  · exact hthree bytes code code' again

theorem Matched.identify {name : List UInt8} (h : Matched id data sts steps steps') :
    Matched id data sts (identification id name :: steps) (identification id name :: steps') := by
  have hquiet : ∀ {later : List (Step Transfer)} (xs : List Transfer),
      Conducted (identification id name :: later) sts xs → ¬ Polling id xs := by
    rintro later _ (_ | ⟨⟨bytes, rfl, -⟩ | ⟨bytes, code, again, rfl, -⟩, -⟩ |
      ⟨⟨code, bytes, -, rfl⟩ | ⟨bytes, code, code', again, rfl, -⟩, -⟩)
    all_goals exact not_polling_nameRead
  refine ⟨hquiet, hquiet, ?_⟩
  rintro xs (_ | @⟨_, _, _, done, rest, hdone, hsteps⟩ | ⟨hdone, hsts⟩)
  · rw [legible_identification (.inl hdone), ← h.legible rest hsteps]
    constructor
    · intro hsteps'
      generalize hxs : done ++ rest = xs at hsteps'
      rcases hsteps' with _ | ⟨hdone', hsteps'⟩ | ⟨hdone', -⟩
      · exact (identification_inj hdone hxs).1 hdone' ▸ hsteps'
      · exact ((identification_inj hdone (hxs.trans (List.append_nil _).symm)).2 hdone').elim
    · exact fun hsteps' => .passed hdone hsteps'
  · refine iff_of_true (.failed hdone hsts) ?_
    rw [← List.append_nil xs]
    exact (legible_identification (.inr hdone)).mpr legible_nil

/-- The calls of `cb_nd_wr`. -/
theorem protocol_matched (unit : CrcUnit) (name : List UInt8) (addr : Nat) :
    Matched id data sts (protocol (attempt id) unit id name addr data)
      (protocol (delivery id) unit id name addr data) := by
  have hfinished : data.length ≤ blockSz → Conducted ([] : List (Step Transfer)) sts [] →
      (sts ≠ 0 ↔ data.length > blockSz) := by
    rintro hfits ⟨⟩
    exact iff_of_false (fun h => h rfl) (Nat.not_lt.mpr hfits)
  have hnever : ∀ index bytes later, ¬ Conducted (attempt id index bytes :: later) sts [] := by
    intro index bytes later hsteps
    generalize hxs : ([] : List Transfer) = xs at hsteps
    rcases hsteps with _ | ⟨⟨polls, rfl, -⟩, -⟩ | ⟨⟨code, -, rfl⟩ | ⟨polls, rfl, -⟩, -⟩
    all_goals cases hxs
  have hblock : Matched id data sts
      [sizeCheck data, attempt id 0x1F50 (blockBytes unit addr addr data)]
      [sizeCheck data, delivery id 0x1F50 (blockBytes unit addr addr data)] :=
    .check fun hfits => Matched.nil.write (hfinished hfits)
  have hcleared : Conducted [sizeCheck data, attempt id 0x1F50 (blockBytes unit addr addr data)]
      sts [] → (sts ≠ 0 ↔ data.length > blockSz) := by
    intro hsteps
    generalize hxs : ([] : List Transfer) = xs at hsteps
    rcases hsteps with _ | ⟨⟨rfl, -⟩, hsteps⟩ | ⟨⟨-, hsize⟩, hsts⟩
    · obtain rfl : [] = _ := hxs
      exact absurd hsteps (hnever _ _ _)
    · exact iff_of_true hsts hsize
  rw [protocol, protocol]
  split_ifs with hcheck haddr
  · refine Matched.nil.write (hfinished ?_)
    rw [hcheck.2]
    exact Nat.zero_le _
  · exact ((hblock.write hcleared).write fun h => absurd h (hnever _ _ _)).identify
  · exact hblock

end

/-- A call of `cb_nd_wr` keeps the order of its protocol exactly if none of its status reads is
stale. -/
theorem cbNdWr_orderly_iff (bus : SdoBus β) (unit : CrcUnit) (id : UInt8) (name : List UInt8)
    (addr : Nat) (data : List UInt8) (b : β) :
    ∃ transfers, cbNdWr (recorded bus) unit id name addr data (b, []) =
        ((cbNdWr bus unit id name addr data b).1, (cbNdWr bus unit id name addr data b).2,
          transfers) ∧
      (Orderly unit id name addr data (cbNdWr bus unit id name addr data b).1 transfers ↔
        Legible id data transfers) := by
  obtain ⟨transfers, hrun, hsteps⟩ := cbNdWr_performs bus id unit name data addr b []
  refine ⟨transfers, hrun, ?_⟩
  rw [← (protocol_matched unit name addr).legible transfers hsteps]
  exact ⟨Orderly.steps, Orderly.of_steps⟩

/-- A node called `b` that takes every write and has an empty status. -/
def muteBus : SdoBus Unit where
  readSdo := fun _ index _ _ _ b => (0, if index = 0x1F57 then [] else [98], b)
  writeSdo := fun _ _ _ _ _ b => (0, b)

theorem not_orderly_muteBus :
    ∃ transfers, cbNdWr (recorded muteBus) .stm32 5 [97] 0 [1] ((), []) = (0, (), transfers) ∧
      ¬ Orderly .stm32 5 [97] 0 [1] 0 transfers := by
  refine ⟨_, rfl, fun horderly => ?_⟩
  obtain ⟨pre, index, bytes, polls, hsplit, -, earlier, answer, rfl, hword, -⟩ :=
    horderly.settled rfl
  have hlast : poll 5 (0, []) = poll 5 (0, answer) := by
    have hends := congrArg List.getLast? hsplit
    rw [List.map_append, ← List.cons_append, ← List.append_assoc, List.map_singleton] at hends
    exact Option.some.inj (hends.trans List.getLast?_concat)
  injection hlast with _ _ _ _ _ _ hnil
  change [] = answer at hnil
  rw [← hnil] at hword
  exact absurd hword (by decide)

end ShGateway.NodeWrite
