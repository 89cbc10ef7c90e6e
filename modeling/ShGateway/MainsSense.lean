import ShGateway.Lib.Runs

/-!
The channels of `mains_sense.c` and the ports they access.
-/

namespace ShGateway.MainsSense

open ShGateway.Lib.Runs

def timeOnMs : UInt32 := 25
def timeOffMs : UInt32 := 500

/-- `NUM_CH` channels. -/
abbrev Channel := Fin 32

inductive Port
  | gpioD
  | gpioE
deriving DecidableEq, Repr

/-! ### The tables: a pin that is not assigned is 0, a port that is not assigned `NULL` -/

def pinsSns (i : Channel) : UInt32 := if i.val = 0 then 0x0008 else 0
def portSns (i : Channel) : Option Port := if i.val = 0 then some .gpioE else none
def pinsCtrl (i : Channel) : UInt32 := if i.val = 0 then 0x0080 else 0
def portCtrl (i : Channel) : Option Port := if i.val = 0 then some .gpioD else none

/-- The condition of `mains_sense_init`. -/
def Wired (i : Channel) : Prop :=
  pinsSns i ≠ 0 ∧ portSns i ≠ none ∧ pinsCtrl i ≠ 0 ∧ portCtrl i ≠ none

instance : DecidablePred Wired := fun _ => inferInstanceAs (Decidable (_ ∧ _))

structure Inst where
  tmrOff : UInt32 := 0
  tmrOn : UInt32 := 0
  onPhase : Bool := false
  on : Bool := false
  cntOn : UInt32 := 0
  cntHit : UInt32 := 0
  cntOnMax : UInt32 := 0
  cntOnMaxHit : UInt32 := 0
deriving DecidableEq, Repr

/-- An access to the sense or the control port of a channel. -/
inductive Access
  | initSns (i : Channel)
  | initCtrl (i : Channel)
  | readSns (i : Channel)
  | writeCtrl (i : Channel)

def Access.channel : Access → Channel
  | .initSns i | .initCtrl i | .readSns i | .writeCtrl i => i

structure Mains where
  inst : Channel → Inst := fun _ => {}
  cfgMainsSnsChnlBits : UInt32 := 0

def Mains.configured (s : Mains) (i : Channel) : Prop :=
  s.cfgMainsSnsChnlBits &&& (1 <<< UInt32.ofNat i) ≠ 0

instance (s : Mains) : DecidablePred s.configured := fun _ => inferInstanceAs (Decidable (_ ≠ _))

def mainsSenseInit (s : Mains) : List Access :=
  (List.finRange 32).flatMap fun i =>
    if s.configured i then
      if Wired i then [.initSns i, .initCtrl i] else []
    else []

/-- A poll of a channel in its on-phase, with the input registers `idr` of the ports. -/
def pollOnPhase (idr : Option Port → UInt32) (diffMs : UInt32) (i : Channel) (c : Inst) :
    Inst × List Access :=
  let c := { c with tmrOn := c.tmrOn + diffMs }
  let c := if idr (portSns i) &&& pinsSns i = 0 then { c with cntOn := c.cntOn + 1 } else c
  let c := { c with cntHit := c.cntHit + 1 }
  if c.tmrOn ≥ timeOnMs then
    let c := { c with tmrOn := 0, on := decide (c.cntOn > c.cntHit / 2) }
    let c :=
      if c.cntOnMax < c.cntOn then { c with cntOnMax := c.cntOn, cntOnMaxHit := c.cntHit } else c
    ({ c with onPhase := false }, [.readSns i, .writeCtrl i])
  else (c, [.readSns i])

def pollOffPhase (diffMs : UInt32) (i : Channel) (c : Inst) : Inst × List Access :=
  let c := { c with tmrOff := c.tmrOff + diffMs }
  if c.tmrOff ≥ timeOffMs then
    ({ c with tmrOff := 0, onPhase := true, cntOn := 0, cntHit := 0 }, [.writeCtrl i])
  else (c, [])

def pollChannel (idr : Option Port → UInt32) (diffMs : UInt32) (i : Channel) (c : Inst) :
    Inst × List Access :=
  if c.onPhase then pollOnPhase idr diffMs i c else pollOffPhase diffMs i c

/-- The turn of the loop for a channel. -/
def pollTurn (idr : Option Port → UInt32) (diffMs : UInt32) (s : Mains) (i : Channel) :
    Inst × List Access :=
  if s.configured i then pollChannel idr diffMs i (s.inst i) else (s.inst i, [])

/-- The turns of the loop, each of them for a channel of its own. -/
def mainsSensePoll (idr : Option Port → UInt32) (diffMs : UInt32) (s : Mains) :
    Mains × List Access :=
  ({ s with inst := fun i => (pollTurn idr diffMs s i).1 },
    (List.finRange 32).flatMap fun i => (pollTurn idr diffMs s i).2)

def bitWr (reg bit val : UInt32) : UInt32 :=
  if val ≠ 0 then reg ||| 1 <<< bit else reg &&& ~~~(1 <<< bit)

/-- `cfg_mains_sns_cb` with its two numbers. -/
def cfgMainsSnsCb (s : Mains) (ch en : UInt32) : Mains :=
  if ch < 32 then { s with cfgMainsSnsChnlBits := bitWr s.cfgMainsSnsChnlBits ch en } else s

inductive Event
  | init
  | cfgMainsSns (ch en : UInt32)
  | loadConfig (mask : UInt32)
  | poll (diffMs : UInt32) (idr : Option Port → UInt32)

def step (s : Mains) : Event → Mains × List Access
  | .init => (s, mainsSenseInit s)
  | .cfgMainsSns ch en => (cfgMainsSnsCb s ch en, [])
  | .loadConfig mask => ({ s with cfgMainsSnsChnlBits := mask }, [])
  | .poll diffMs idr => mainsSensePoll idr diffMs s

def run (events : List Event) : Mains := events.foldl (fun s e => (step s e).1) {}

/-! ## Wired channels -/

/-- All accesses of a step are to wired channels. -/
def AccessesWired (h : List Event) (e : Event) : Prop :=
  ∀ a ∈ (step (run h) e).2, Wired a.channel

/-- A step changes the state of channels only that are configured and wired. -/
def ChangesWired (h : List Event) (e : Event) : Prop :=
  ∀ i, (step (run h) e).1.inst i ≠ (run h).inst i → (run h).configured i ∧ Wired i

/-- A poll takes no time, or the mask has wired channels only. -/
def MaskWired (h : List Event) : Event → Prop
  | .poll diffMs _ => diffMs = 0 ∨ ∀ i, (run h).configured i → Wired i
  | _ => True

/-- The poll does not end the off-phase of a channel in the mask that is not wired. -/
def OffPhase (h : List Event) : Event → Prop
  | .poll diffMs _ =>
      ∀ i, (run h).configured i → ¬ Wired i → ((run h).inst i).tmrOff + diffMs < timeOffMs
  | _ => True

section

variable {h : List Event} {e : Event} {s : Mains} {c : Inst} {i : Channel} {diffMs : UInt32}
  {idr : Option Port → UInt32}

theorem run_snoc : run (h ++ [e]) = (step (run h) e).1 := by
  rw [run, List.foldl_append]
  rfl

theorem mem_flatMap_finRange {f : Channel → List Access} {a : Access}
    (hf : ∀ i, ∀ a ∈ f i, a.channel = i) :
    a ∈ (List.finRange 32).flatMap f ↔ a ∈ f a.channel := by
  rw [List.mem_flatMap]
  constructor
  · rintro ⟨i, -, ha⟩
    rwa [hf i a ha]
  · intro ha
    exact ⟨a.channel, List.mem_finRange _, ha⟩

theorem pollChannel_channel {a : Access} (ha : a ∈ (pollChannel idr diffMs i c).2) :
    a.channel = i := by
  rw [pollChannel] at ha
  split_ifs at ha
  · rw [pollOnPhase] at ha
    dsimp only at ha
    split_ifs at ha
    all_goals
      simp only [List.mem_cons, List.not_mem_nil, or_false] at ha
      rcases ha with rfl | rfl <;> rfl
  · rw [pollOffPhase] at ha
    dsimp only at ha
    split_ifs at ha
    · obtain rfl := List.mem_singleton.mp ha
      rfl
    · exact absurd ha List.not_mem_nil

theorem mem_poll_iff {a : Access} :
    a ∈ (mainsSensePoll idr diffMs s).2 ↔
      s.configured a.channel ∧ a ∈ (pollChannel idr diffMs a.channel (s.inst a.channel)).2 := by
  rw [mainsSensePoll, mem_flatMap_finRange]
  · rw [pollTurn]
    split_ifs with hconfigured
    · exact (and_iff_right hconfigured).symm
    · exact iff_of_false List.not_mem_nil fun h => hconfigured h.1
  · intro i a ha
    rw [pollTurn] at ha
    split_ifs at ha
    · exact pollChannel_channel ha
    · exact absurd ha List.not_mem_nil

theorem poll_inst (i : Channel) :
    (mainsSensePoll idr diffMs s).1.inst i =
      if s.configured i then (pollChannel idr diffMs i (s.inst i)).1 else s.inst i :=
  apply_ite Prod.fst ..

theorem mem_init {a : Access} (ha : a ∈ mainsSenseInit s) : Wired a.channel := by
  obtain ⟨i, -, ha⟩ := List.mem_flatMap.mp ha
  split_ifs at ha with _ hwired
  · simp only [List.mem_cons, List.not_mem_nil, or_false] at ha
    rcases ha with rfl | rfl
    · exact hwired
    · exact hwired
  · exact absurd ha List.not_mem_nil
  · exact absurd ha List.not_mem_nil

theorem step_inst (he : ∀ diffMs idr, e ≠ .poll diffMs idr) :
    (step s e).1.inst = s.inst ∧ ∀ a ∈ (step s e).2, Wired a.channel := by
  cases e with
  | init => exact ⟨rfl, fun a => mem_init⟩
  | cfgMainsSns ch en =>
      refine ⟨?_, nofun⟩
      rw [step, cfgMainsSnsCb]
      split_ifs <;> rfl
  | loadConfig mask => exact ⟨rfl, nofun⟩
  | poll diffMs idr => exact absurd rfl (he diffMs idr)

theorem pollChannel_idle : pollChannel idr 0 i {} = ({}, []) := rfl

theorem pollChannel_changes (hdiff : diffMs ≠ 0) : (pollChannel idr diffMs i {}).1 ≠ {} := by
  have hpoll : pollChannel idr diffMs i {} = pollOffPhase diffMs i {} := rfl
  rw [hpoll, pollOffPhase]
  dsimp only
  rw [UInt32.zero_add]
  split_ifs
  · intro heq
    cases congrArg Inst.onPhase heq
  · intro heq
    exact hdiff (congrArg Inst.tmrOff heq)

theorem run_unwired {events : List Event} (hevents : AtEach MaskWired events) (hi : ¬ Wired i) :
    (run events).inst i = {} := by
  refine foldl_invariant (fun _ (s : Mains) => s.inst i = {}) rfl ?_ hevents
  intro h e hs hmask
  change (run h).inst i = {} at hs
  change (step (run h) e).1.inst i = {}
  cases e with
  | poll diffMs idr =>
      rw [step, poll_inst, hs]
      split_ifs with hconfigured
      · rcases hmask with rfl | hmask
        · rfl
        · exact absurd (hmask i hconfigured) hi
      · rfl
  | init => exact hs
  | cfgMainsSns ch en => exact (congrFun (step_inst (by rintro _ _ ⟨⟩)).1 i).trans hs
  | loadConfig mask => exact hs

/-- A run keeps to the wired channels of the mask exactly if every poll either takes no time or
finds only wired channels in the mask. -/
theorem wired_iff (events : List Event) :
    AtEach (fun h e => AccessesWired h e ∧ ChangesWired h e) events ↔
      AtEach MaskWired events := by
  refine atEach_iff (fun h e hmask => ?_) events
  rcases Classical.em (∃ diffMs idr, e = .poll diffMs idr) with ⟨diffMs, idr, rfl⟩ | hpoll
  · constructor
    · rintro ⟨-, hchanges⟩
      rcases Classical.em (diffMs = 0) with hzero | hdiff
      · exact .inl hzero
      · refine .inr fun i hconfigured => ?_
        by_contra hi
        refine hi (hchanges i ?_).2
        rw [step, poll_inst, if_pos hconfigured, run_unwired hmask hi]
        exact pollChannel_changes hdiff
    · intro hwired
      constructor
      · intro a ha
        obtain ⟨hconfigured, ha⟩ := mem_poll_iff.mp ha
        by_contra hi
        rcases hwired with rfl | hwired
        · rw [run_unwired hmask hi, pollChannel_idle] at ha
          exact absurd ha List.not_mem_nil
        · exact hi (hwired _ hconfigured)
      · intro i hne
        rw [step, poll_inst] at hne
        split_ifs at hne with hconfigured
        · refine ⟨hconfigured, ?_⟩
          by_contra hi
          rcases hwired with rfl | hwired
          · rw [run_unwired hmask hi, pollChannel_idle] at hne
            exact hne rfl
          · exact hi (hwired i hconfigured)
        · exact absurd rfl hne
  · obtain ⟨hinst, haccess⟩ := @step_inst e (run h) fun diffMs idr he => hpoll ⟨diffMs, idr, he⟩
    refine iff_of_true ⟨haccess, fun i hne => absurd (congrFun hinst i) hne⟩ ?_
    cases e with
    | poll diffMs idr => exact absurd ⟨diffMs, idr, rfl⟩ hpoll
    | _ => trivial

/-! ## The accesses alone -/

theorem run_offPhase {events : List Event} (hevents : AtEach OffPhase events) (hi : ¬ Wired i) :
    ((run events).inst i).onPhase = false := by
  refine foldl_invariant (fun _ (s : Mains) => (s.inst i).onPhase = false) rfl ?_ hevents
  intro h e hs hoff
  change ((run h).inst i).onPhase = false at hs
  change ((step (run h) e).1.inst i).onPhase = false
  cases e with
  | poll diffMs idr =>
      rw [step, poll_inst]
      split_ifs with hconfigured
      · rw [pollChannel, if_neg (by rw [hs]; decide), pollOffPhase]
        dsimp only
        rw [if_neg (UInt32.not_le.mpr (hoff i hconfigured hi))]
        exact hs
      · exact hs
  | init => exact hs
  | cfgMainsSns ch en => exact (congrArg Inst.onPhase (congrFun (step_inst (by rintro _ _ ⟨⟩)).1 i)).trans hs
  | loadConfig mask => exact hs

/-- The accesses of a run are to wired channels exactly if no poll ends the off-phase of another
channel in the mask. -/
theorem accessesWired_iff (events : List Event) :
    AtEach AccessesWired events ↔ AtEach OffPhase events := by
  refine atEach_iff (fun h e hoff => ?_) events
  rcases Classical.em (∃ diffMs idr, e = .poll diffMs idr) with ⟨diffMs, idr, rfl⟩ | hpoll
  · have hturn : ∀ i, ¬ Wired i → pollChannel idr diffMs i ((run h).inst i) =
        pollOffPhase diffMs i ((run h).inst i) := by
      intro i hi
      rw [pollChannel, if_neg (by rw [run_offPhase hoff hi]; decide)]
    constructor
    · intro haccess i hconfigured hi
      rw [← UInt32.not_le]
      intro hle
      refine hi (haccess (.writeCtrl i) (mem_poll_iff.mpr ⟨hconfigured, ?_⟩))
      change _ ∈ (pollChannel idr diffMs i ((run h).inst i)).2
      rw [hturn i hi, pollOffPhase]
      dsimp only
      rw [if_pos hle]
      exact List.mem_cons_self
    · intro hends a ha
      obtain ⟨hconfigured, ha⟩ := mem_poll_iff.mp ha
      by_contra hi
      rw [hturn _ hi, pollOffPhase] at ha
      dsimp only at ha
      rw [if_neg (UInt32.not_le.mpr (hends _ hconfigured hi))] at ha
      exact absurd ha List.not_mem_nil
  · obtain ⟨-, haccess⟩ := @step_inst e (run h) fun diffMs idr he => hpoll ⟨diffMs, idr, he⟩
    refine iff_of_true haccess ?_
    cases e with
    | poll diffMs idr => exact absurd ⟨diffMs, idr, rfl⟩ hpoll
    | _ => trivial

end

theorem one_lt_channels : 1 < 32 := by decide

def channel1 : Channel := ⟨1, one_lt_channels⟩

/-- Channel 1 is in the mask, and its off-phase ends. -/
theorem not_wired_channel1 :
    ¬ AtEach (fun h e => AccessesWired h e ∧ ChangesWired h e)
      ([.cfgMainsSns 1 1, .init] ++ [.poll 500 fun _ => 0]) := by
  intro h
  obtain ⟨haccess, -⟩ := h [.cfgMainsSns 1 1, .init] (.poll 500 fun _ => 0) (List.prefix_refl _)
  have hconfigured : (run [.cfgMainsSns 1 1, .init]).configured channel1 := by
    change ((0 : UInt32) ||| (1 : UInt32) <<< 1) &&& (1 : UInt32) <<< 1 ≠ 0
    decide
  have hturn : (pollChannel (fun _ => 0) 500 channel1 {}).2 = [.writeCtrl channel1] := rfl
  have hmem : .writeCtrl channel1 ∈ (pollChannel (fun _ => 0) 500 channel1 {}).2 := by
    rw [hturn]
    exact List.mem_cons_self
  exact absurd (haccess (.writeCtrl channel1) (mem_poll_iff.mpr ⟨hconfigured, hmem⟩)) (by decide)

end ShGateway.MainsSense
