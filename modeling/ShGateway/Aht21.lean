import ShGateway.Lib.Runs

/-!
The polling of the climate sensor by `aht21.c`. The results of the two transfers and the bytes
received are arguments of a poll, and the values are kept as the sensor's numbers of 20 bits from
which the percentage and the temperature are computed.
-/

namespace ShGateway.Aht21

open ShGateway.Lib.Runs

def pollHalfInterval : UInt32 := 100

/-- A trigger command and a reading with their results, and an update of the values. -/
inductive Act
  | trigger (sts : Int)
  | read (sts : Int)
  | update (hum temp : UInt32)

/-- The variables of `aht21.c`, and what it has done so far. -/
structure Sensor where
  isWaitConv : Bool := false
  tmrPoll : UInt32 := 0
  hum : UInt32 := 0
  temp : UInt32 := 0
  acts : List Act := []

/-- `write` and `rx` are the results of `i2c_mem_write` and `i2c_rx`, 0 if the sensor has
acknowledged all bytes. -/
structure Poll where
  diffMs : UInt32
  write : Int
  rx : Int
  data : Nat → UInt8

def humOf (data : Nat → UInt8) : UInt32 :=
  (((data 1).toUInt32 <<< 16) ||| ((data 2).toUInt32 <<< 8) ||| (data 3).toUInt32) >>> 4

def tempOf (data : Nat → UInt8) : UInt32 :=
  (((data 3).toUInt32 &&& 0x0F) <<< 16) ||| ((data 4).toUInt32 <<< 8) ||| (data 5).toUInt32

def Sensor.act (s : Sensor) (a : Act) : Sensor := { s with acts := s.acts ++ [a] }

def Sensor.setValues (s : Sensor) (data : Nat → UInt8) : Sensor :=
  { s with hum := humOf data, temp := tempOf data }.act (.update (humOf data) (tempOf data))

/-- The result and the state after it. -/
def aht21Poll (s : Sensor) (p : Poll) : Int × Sensor :=
  let s := { s with tmrPoll := s.tmrPoll + p.diffMs }
  if s.tmrPoll ≥ pollHalfInterval then
    let s := { s with tmrPoll := 0 }
    if s.isWaitConv = false then
      (p.write, { s with isWaitConv := true }.act (.trigger p.write))
    else
      let s := s.act (.read p.rx)
      if p.rx ≠ 0 then (p.rx, s)
      else if p.data 0 &&& 0x80 = 0 then
        (p.rx, { s with isWaitConv := false }.setValues p.data)
      else (p.rx, s)
  else (0, s)

def step (s : Sensor) (p : Poll) : Sensor := (aht21Poll s p).2

def run (polls : List Poll) : Sensor := polls.foldl step {}

/-! ## Fresh values -/

def Act.Updates : Act → Prop
  | .update _ _ => True
  | _ => False

/-- Since the last update before it, an update has been preceded by a trigger that was
acknowledged, and each failed trigger before it by another one. -/
def FreshAt (acts : List Act) (a : Act) : Prop :=
  a.Updates →
    (∃ front back, acts = front ++ Act.trigger 0 :: back ∧ ∀ b ∈ back, ¬ b.Updates) ∧
      ∀ front sts back, acts = front ++ Act.trigger sts :: back → sts ≠ 0 →
        ∃ sts', Act.trigger sts' ∈ back

/-- The time of a poll has come. -/
def Due (h : List Poll) (p : Poll) : Prop := (run h).tmrPoll + p.diffMs ≥ pollHalfInterval

/-- The first poll due after an update triggers the next measurement. -/
def TriggersAgain (h : List Poll) (p : Poll) : Prop :=
  (∃ acts a, (run h).acts = acts ++ [a] ∧ a.Updates) →
    (Due h p → (step (run h) p).acts = (run h).acts ++ [Act.trigger p.write]) ∧
      (¬ Due h p → (step (run h) p).acts = (run h).acts)

def Fresh (polls : List Poll) : Prop :=
  AtEach FreshAt (run polls).acts ∧ AtEach TriggersAgain polls

/-- A trigger is acknowledged. -/
def Acked (h : List Poll) (p : Poll) : Prop :=
  Due h p → (run h).isWaitConv = false → p.write = 0

/-! ## The two phases -/

section

variable {s : Sensor} {h polls : List Poll} {p : Poll} {acts : List Act}

theorem run_snoc (h : List Poll) (p : Poll) : run (h ++ [p]) = step (run h) p := by
  rw [run, List.foldl_append]
  rfl

theorem step_cases (s : Sensor) (p : Poll) :
    (¬ s.tmrPoll + p.diffMs ≥ pollHalfInterval ∧ (step s p).isWaitConv = s.isWaitConv ∧
        (step s p).acts = s.acts) ∨
      s.tmrPoll + p.diffMs ≥ pollHalfInterval ∧
        (s.isWaitConv = false ∧ (step s p).isWaitConv = true ∧
            (step s p).acts = s.acts ++ [Act.trigger p.write] ∨
          s.isWaitConv = true ∧ (step s p).isWaitConv = true ∧
            (step s p).acts = s.acts ++ [Act.read p.rx] ∨
          s.isWaitConv = true ∧ (step s p).isWaitConv = false ∧
            (step s p).acts =
              s.acts ++ [Act.read p.rx] ++ [Act.update (humOf p.data) (tempOf p.data)]) := by
  rw [step, aht21Poll]
  dsimp only
  split_ifs with hdue hwait
  · exact .inr ⟨hdue, .inl ⟨hwait, rfl, rfl⟩⟩
  · have hwait := eq_true_of_ne_false hwait
    exact .inr ⟨hdue, .inr (.inl ⟨hwait, hwait, rfl⟩)⟩
  · exact .inr ⟨hdue, .inr (.inr ⟨eq_true_of_ne_false hwait, rfl, rfl⟩)⟩
  · have hwait := eq_true_of_ne_false hwait
    exact .inr ⟨hdue, .inr (.inl ⟨hwait, hwait, rfl⟩)⟩
  · exact .inl ⟨hdue, rfl, rfl⟩

/-- While a conversion is waited for, only readings follow a trigger; else the last thing done, if
anything, was an update. -/
def Phase (s : Sensor) : Prop :=
  if s.isWaitConv = true then
    ∃ front sts back, s.acts = front ++ Act.trigger sts :: back ∧
      ∀ b ∈ back, ∃ rx, b = Act.read rx
  else s.acts = [] ∨ ∃ acts a, s.acts = acts ++ [a] ∧ a.Updates

theorem phase_step (hs : Phase s) (p : Poll) : Phase (step s p) := by
  rcases step_cases s p with ⟨-, hwait, hacts⟩ | ⟨-, ⟨hidle, hwait, hacts⟩ |
    ⟨hwaits, hwait, hacts⟩ | ⟨hwaits, hwait, hacts⟩⟩
  · rw [Phase, hwait, hacts]
    exact hs
  · rw [Phase, if_pos hwait, hacts]
    exact ⟨s.acts, p.write, [], rfl, nofun⟩
  · rw [Phase, if_pos hwaits] at hs
    obtain ⟨front, sts, back, heq, hback⟩ := hs
    rw [Phase, if_pos hwait, hacts, heq]
    refine ⟨front, sts, back ++ [Act.read p.rx], by simp, ?_⟩
    intro b hb
    rcases List.mem_append.mp hb with hb | hb
    · exact hback b hb
    · exact ⟨p.rx, List.mem_singleton.mp hb⟩
  · rw [Phase, if_neg (by rw [hwait]; decide), hacts]
    exact .inr ⟨_, _, rfl, trivial⟩

theorem run_phase (polls : List Poll) : Phase (run polls) := by
  induction polls using List.reverseRecOn with
  | nil => exact .inl rfl
  | append_singleton polls p ih =>
      rw [run_snoc]
      exact phase_step ih p

theorem triggersAgain (h : List Poll) (p : Poll) : TriggersAgain h p := by
  rintro ⟨acts, a, hacts, ha⟩
  have hidle : (run h).isWaitConv = false := by
    by_contra hwait
    have hphase := run_phase h
    rw [Phase, if_pos (eq_true_of_ne_false hwait)] at hphase
    obtain ⟨front, sts, back, heq, hback⟩ := hphase
    rw [hacts] at heq
    rcases List.eq_nil_or_concat back with rfl | ⟨back, b, rfl⟩
    · obtain ⟨-, hlast⟩ := List.append_inj' heq rfl
      obtain rfl := List.singleton_inj.mp hlast
      exact ha
    · rw [List.concat_eq_append, ← List.cons_append, ← List.append_assoc] at heq
      obtain ⟨-, hlast⟩ := List.append_inj' heq rfl
      obtain rfl := List.singleton_inj.mp hlast
      obtain ⟨rx, rfl⟩ := hback a (by simp)
      exact ha
  rcases step_cases (run h) p with ⟨hnot, -, hacts⟩ | ⟨hdue, ⟨-, -, hacts⟩ |
    ⟨hwait, -⟩ | ⟨hwait, -⟩⟩
  · exact ⟨fun hdue => absurd hdue hnot, fun _ => hacts⟩
  · exact ⟨fun _ => hacts, fun hnot => absurd hdue hnot⟩
  · exact absurd (hidle.symm.trans hwait) (by decide)
  · exact absurd (hidle.symm.trans hwait) (by decide)

end

/-! ## Acknowledged triggers -/

section

variable {s : Sensor} {h polls : List Poll} {p : Poll} {acts : List Act}

theorem freshAt_trigger (acts : List Act) (sts : Int) : FreshAt acts (.trigger sts) := False.elim

theorem freshAt_read (acts : List Act) (rx : Int) : FreshAt acts (.read rx) := False.elim

/-- No trigger so far has failed. -/
def NoneFailed (s : Sensor) : Prop := ∀ sts, Act.trigger sts ∈ s.acts → sts = 0

theorem fresh_step (hphase : Phase s) (hnone : NoneFailed s) (hfresh : AtEach FreshAt s.acts)
    (p : Poll) : AtEach FreshAt (step s p).acts := by
  rcases step_cases s p with ⟨-, -, hacts⟩ | ⟨-, ⟨-, -, hacts⟩ | ⟨-, -, hacts⟩ | ⟨hwait, -, hacts⟩⟩
  · rwa [hacts]
  · rw [hacts]
    exact atEach_snoc.mpr ⟨hfresh, freshAt_trigger _ _⟩
  · rw [hacts]
    exact atEach_snoc.mpr ⟨hfresh, freshAt_read _ _⟩
  · rw [hacts]
    refine atEach_snoc.mpr ⟨atEach_snoc.mpr ⟨hfresh, freshAt_read _ _⟩, fun _ => ⟨?_, ?_⟩⟩
    · rw [Phase, if_pos hwait] at hphase
      obtain ⟨front, sts, back, heq, hback⟩ := hphase
      obtain rfl := hnone sts (by rw [heq]; simp)
      refine ⟨front, back ++ [Act.read p.rx], by rw [heq]; simp, ?_⟩
      intro b hb
      rcases List.mem_append.mp hb with hb | hb
      · obtain ⟨rx, rfl⟩ := hback b hb
        exact id
      · obtain rfl := List.mem_singleton.mp hb
        exact id
    · intro front sts back heq hne
      have hmem : Act.trigger sts ∈ s.acts ++ [Act.read p.rx] := by
        rw [heq]
        simp
      rcases List.mem_append.mp hmem with hmem | hmem
      · exact absurd (hnone sts hmem) hne
      · cases List.mem_singleton.mp hmem

theorem noneFailed_step (hnone : NoneFailed s)
    (hacked : s.tmrPoll + p.diffMs ≥ pollHalfInterval → s.isWaitConv = false → p.write = 0) :
    NoneFailed (step s p) := by
  intro sts hmem
  rcases step_cases s p with ⟨-, -, hacts⟩ | ⟨hdue, ⟨hidle, -, hacts⟩ | ⟨-, -, hacts⟩ |
    ⟨-, -, hacts⟩⟩
  · exact hnone sts (hacts ▸ hmem)
  · rw [hacts] at hmem
    rcases List.mem_append.mp hmem with hmem | hmem
    · exact hnone sts hmem
    · cases List.mem_singleton.mp hmem
      exact hacked hdue hidle
  · rw [hacts] at hmem
    refine hnone sts ?_
    simpa using hmem
  · rw [hacts] at hmem
    refine hnone sts ?_
    simpa using hmem

/-- In a run whose triggers are all acknowledged, the values are fresh. -/
theorem run_fresh (hpolls : AtEach Acked polls) :
    NoneFailed (run polls) ∧ AtEach FreshAt (run polls).acts := by
  induction polls using List.reverseRecOn with
  | nil => exact ⟨nofun, atEach_nil _⟩
  | append_singleton polls p ih =>
      obtain ⟨hpolls, hp⟩ := atEach_snoc.mp hpolls
      obtain ⟨hnone, hfresh⟩ := ih hpolls
      rw [run_snoc]
      exact ⟨noneFailed_step hnone hp, fresh_step (run_phase polls) hnone hfresh p⟩

/-- The poll that finds a conversion finished. -/
def reading : Poll := ⟨pollHalfInterval, 0, 0, fun _ => 0⟩

theorem acts_reading (hdue : Due h p) (hidle : (run h).isWaitConv = false) :
    (run (h ++ [p] ++ [reading])).acts =
      (run h).acts ++ [Act.trigger p.write] ++ [Act.read 0] ++ [Act.update 0 0] := by
  have htrigger : run (h ++ [p]) = ⟨true, 0, (run h).hum, (run h).temp,
      (run h).acts ++ [Act.trigger p.write]⟩ := by
    rw [Due] at hdue
    rw [run_snoc, step, aht21Poll]
    dsimp only
    rw [if_pos hdue, if_pos hidle]
    rfl
  rw [run_snoc, htrigger]
  rfl

theorem not_fresh_failed (hdue : Due h p) (hidle : (run h).isWaitConv = false)
    (hfail : p.write ≠ 0) : ¬ Fresh (h ++ [p] ++ [reading]) := by
  rintro ⟨hfresh, -⟩
  rw [acts_reading hdue hidle] at hfresh
  obtain ⟨-, hlast⟩ := atEach_snoc.mp hfresh
  obtain ⟨sts, hmem⟩ := (hlast trivial).2 (run h).acts p.write [Act.read 0] (by simp) hfail
  cases List.mem_singleton.mp hmem

end

/-- The values are fresh in a run and after the poll that follows on any part of it, exactly if the
sensor acknowledges each trigger of the run. -/
theorem fresh_iff_acked (polls : List Poll) :
    (∀ h, h <+: polls → ∀ p, Fresh (h ++ [p])) ↔ AtEach Acked polls := by
  constructor
  · intro hfresh h p hpre hdue hidle
    by_contra hfail
    exact not_fresh_failed hdue hidle hfail (hfresh (h ++ [p]) hpre reading)
  · intro hacked h hpre p
    obtain ⟨hnone, hfresh⟩ := run_fresh (hacked.of_prefix hpre)
    refine ⟨?_, fun h p _ => triggersAgain h p⟩
    rw [run_snoc]
    exact fresh_step (run_phase h) hnone hfresh p

/-- The sensor does not acknowledge the first trigger, and zeros are read 100 ms later. -/
theorem not_fresh_nack :
    ¬ Fresh ([⟨100, 2, 0, fun _ => 0⟩] ++ [⟨100, 0, 0, fun _ => 0⟩]) := by
  rintro ⟨hfresh, -⟩
  obtain ⟨sts, hmem⟩ :=
    (hfresh [Act.trigger 2, Act.read 0] (.update 0 0) (List.prefix_refl _) trivial).2 [] 2
      [Act.read 0] rfl (by decide)
  cases List.mem_singleton.mp hmem

end ShGateway.Aht21
