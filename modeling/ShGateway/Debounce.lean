import ShGateway.Lib.Runs

/-!
The debouncer of `debounce.c`. An `int` is an integer in which each addition wraps around.
-/

namespace ShGateway.Debounce

open ShGateway.Lib.Runs

def trigSet : Int := 1
def trigClrShot : Int := 4
def trigSetShot : Int := 9

/-- The result of an operation on `int`. -/
def int32 (x : Int) : Int := Int.bmod x (2 ^ 32)

def clip (a l h : Int) : Int := max (min a h) l

/-- `debounce_t`. -/
structure Debouncer where
  state : Int := 0
  intState : Int := 0
  intStatePrev : Int := 0
  cntFltr : Int := 0
  cntPress : Int := 0
  cfgReleaseThrs : Int
  cfgPressThrs : Int
  cfgMaxThrs : Int

structure Call where
  state : Bool
  timeDiff : UInt32

def Call.sign (c : Call) : Int := if c.state then 1 else -1

/-- The counting of a call in which time has passed. -/
def integrate (b : Debouncer) (c : Call) : Debouncer :=
  let cntFltr := int32 (b.cntFltr + int32 (c.sign * int32 c.timeDiff.toNat))
  { b with cntFltr := clip cntFltr 0 b.cfgMaxThrs }

/-- The comparisons of the counter with the thresholds. -/
def compareThrs (b : Debouncer) (timeDiff : Int) : Debouncer :=
  let b :=
    if b.cntFltr > b.cfgPressThrs then
      { b with
        intState := trigSet
        cntPress := clip (int32 (b.cntPress + timeDiff)) 0 b.cfgPressThrs }
    else b
  if b.cntFltr < b.cfgReleaseThrs then { b with intState := 0, cntPress := 0 } else b

/-- The report of the level, or of its change. -/
def report (b : Debouncer) : Debouncer :=
  if b.intStatePrev ≠ b.intState then
    let b := { b with intStatePrev := b.intState }
    if b.intState = trigSet then { b with state := trigSetShot }
    else if b.intState = 0 then { b with state := trigClrShot }
    else b
  else { b with state := b.intState }

def debounceUpdate (b : Debouncer) (c : Call) : Debouncer :=
  report (if c.timeDiff ≠ 0 then compareThrs (integrate b c) (int32 c.timeDiff.toNat) else b)

/-- The thresholds of a debouncer. -/
structure Config where
  release : Int
  press : Int
  max : Int
  release_nonneg : 0 ≤ release
  release_lt : release < press
  press_le : press ≤ max
  max_lt : max < 2 ^ 30

def Config.zeroed (cfg : Config) : Debouncer :=
  { cfgReleaseThrs := cfg.release, cfgPressThrs := cfg.press, cfgMaxThrs := cfg.max }

def run (cfg : Config) (calls : List Call) : Debouncer := calls.foldl debounceUpdate cfg.zeroed

/-! ## What a call reports -/

/-- The counter and the report after a call that turns `b` into `b'`. -/
structure Right (cfg : Config) (b : Debouncer) (c : Call) (b' : Debouncer) : Prop where
  cnt_nonneg : 0 ≤ b'.cntFltr
  cnt_le : b'.cntFltr ≤ cfg.max
  cnt_eq : c.timeDiff ≠ 0 → b'.cntFltr = clip (b.cntFltr + c.sign * c.timeDiff.toNat) 0 cfg.max
  set_iff : b'.state = trigSetShot ↔ b.intState = 0 ∧ b'.intState = trigSet
  clr_iff : b'.state = trigClrShot ↔ b.intState = trigSet ∧ b'.intState = 0
  level : b'.state ≠ trigSetShot → b'.state ≠ trigClrShot → b'.state = b'.intState
  press_lt : b'.state = trigSetShot → cfg.press < b'.cntFltr
  lt_release : b'.state = trigClrShot → b'.cntFltr < cfg.release
  idle : c.timeDiff = 0 → b'.intState = b.intState

def IsShot (state : Int) : Prop := state = trigSetShot ∨ state = trigClrShot

instance : DecidablePred IsShot := fun _ => inferInstanceAs (Decidable (_ ∨ _))

/-- The shots that the calls have reported. -/
def shots (cfg : Config) (calls : List Call) : List Int :=
  (calls.inits.map fun h => (run cfg h).state).filter IsShot

/-- The shots alternate and start with the one that sets the level. -/
def Alternating (shots : List Int) : Prop :=
  ∀ i x, shots[i]? = some x → x = if i % 2 = 0 then trigSetShot else trigClrShot

/-! ## One call -/

/-- What holds between two calls. -/
structure Inv (cfg : Config) (b : Debouncer) : Prop where
  cfg_release : b.cfgReleaseThrs = cfg.release
  cfg_press : b.cfgPressThrs = cfg.press
  cfg_max : b.cfgMaxThrs = cfg.max
  cnt_nonneg : 0 ≤ b.cntFltr
  cnt_le : b.cntFltr ≤ cfg.max
  press_nonneg : 0 ≤ b.cntPress
  press_le : b.cntPress ≤ cfg.press
  level : b.intState = 0 ∨ b.intState = trigSet
  prev : b.intStatePrev = b.intState

section

variable {cfg : Config} {b : Debouncer} {c : Call} {h calls : List Call}

theorem int32_eq {x : Int} (hlo : -2 ^ 31 ≤ x) (hhi : x < 2 ^ 31) : int32 x = x :=
  Int.bmod_eq_of_le (by omega) (by omega)

theorem clip_nonneg {h : Int} (a : Int) : 0 ≤ clip a 0 h := le_max_right _ _

theorem clip_le {h : Int} (hh : 0 ≤ h) (a : Int) : clip a 0 h ≤ h :=
  max_le (min_le_right _ _) hh

theorem inv_zeroed (cfg : Config) : Inv cfg cfg.zeroed where
  cfg_release := rfl
  cfg_press := rfl
  cfg_max := rfl
  cnt_nonneg := le_refl 0
  cnt_le := cfg.release_nonneg.trans (cfg.release_lt.le.trans cfg.press_le)
  press_nonneg := le_refl 0
  press_le := cfg.release_nonneg.trans cfg.release_lt.le
  level := .inl rfl
  prev := rfl

theorem integrate_cntFltr (hb : Inv cfg b) (hc : c.timeDiff.toNat ≤ 2 ^ 30) :
    (integrate b c).cntFltr =
      clip (b.cntFltr + c.sign * c.timeDiff.toNat) 0 cfg.max := by
  have hlo := hb.cnt_nonneg
  have hhi := hb.cnt_le.trans_lt cfg.max_lt
  rw [integrate, hb.cfg_max, int32_eq (x := c.timeDiff.toNat) (by omega) (by omega)]
  rw [Call.sign]
  split_ifs
  · rw [one_mul, int32_eq (x := c.timeDiff.toNat) (by omega) (by omega),
      int32_eq (by omega) (by omega)]
  · rw [neg_one_mul, int32_eq (x := -c.timeDiff.toNat) (by omega) (by omega),
      int32_eq (by omega) (by omega)]

theorem integrate_inv (hb : Inv cfg b) (c : Call) : Inv cfg (integrate b c) := by
  have hmax := (inv_zeroed cfg).cnt_le
  refine ⟨hb.cfg_release, hb.cfg_press, hb.cfg_max, clip_nonneg _, ?_, hb.press_nonneg,
    hb.press_le, hb.level, hb.prev⟩
  exact (clip_le (hmax.trans_eq hb.cfg_max.symm) _).trans_eq hb.cfg_max

theorem compareThrs_level (hb : Inv cfg b) (timeDiff : Int) :
    cfg.press < b.cntFltr ∧ (compareThrs b timeDiff).intState = trigSet ∨
      b.cntFltr < cfg.release ∧ (compareThrs b timeDiff).intState = 0 ∨
        (compareThrs b timeDiff).intState = b.intState := by
  rw [← hb.cfg_press, ← hb.cfg_release, compareThrs]
  split_ifs with hset hclr hclr
  · exact .inr (.inl ⟨hclr, rfl⟩)
  · exact .inl ⟨hset, rfl⟩
  · exact .inr (.inl ⟨hclr, rfl⟩)
  · exact .inr (.inr rfl)

theorem compareThrs_rest (hb : Inv cfg b) (timeDiff : Int) :
    ∃ cntPress, 0 ≤ cntPress ∧ cntPress ≤ cfg.press ∧ compareThrs b timeDiff =
      { b with intState := (compareThrs b timeDiff).intState, cntPress := cntPress } := by
  have hpress := (inv_zeroed cfg).press_le
  change 0 ≤ cfg.press at hpress
  rw [compareThrs]
  split_ifs
  · exact ⟨0, le_refl 0, hpress, rfl⟩
  · refine ⟨_, clip_nonneg _, ?_, rfl⟩
    rw [hb.cfg_press]
    exact clip_le hpress _
  · exact ⟨0, le_refl 0, hpress, rfl⟩
  · exact ⟨b.cntPress, hb.press_nonneg, hb.press_le, rfl⟩

theorem report_cases (hprev : b.intStatePrev = 0 ∨ b.intStatePrev = trigSet)
    (hlevel : b.intState = 0 ∨ b.intState = trigSet) :
    ∃ state, report b = { b with state := state, intStatePrev := b.intState } ∧
      (b.intState = b.intStatePrev ∧ state = b.intState ∨
        b.intStatePrev = 0 ∧ b.intState = trigSet ∧ state = trigSetShot ∨
          b.intStatePrev = trigSet ∧ b.intState = 0 ∧ state = trigClrShot) := by
  rw [report]
  dsimp only
  split_ifs with hne hset hclr
  · exact ⟨_, rfl, .inr (.inl ⟨hprev.resolve_right fun h => hne (h.trans hset.symm), hset, rfl⟩)⟩
  · exact ⟨_, rfl, .inr (.inr ⟨hprev.resolve_left fun h => hne (h.trans hclr.symm), hclr, rfl⟩)⟩
  · exact absurd (hlevel.resolve_right hset) hclr
  · have heq : b.intState = b.intStatePrev := (not_not.mp hne).symm
    refine ⟨b.intState, ?_, .inl ⟨heq, rfl⟩⟩
    conv_rhs => rw [heq]
    rw [heq]

theorem counted_cases (hb : Inv cfg b) (hc : c.timeDiff.toNat ≤ 2 ^ 30) :
    ∃ b', debounceUpdate b c = report b' ∧ Inv cfg { b' with intStatePrev := b'.intState } ∧
      b'.intStatePrev = b.intState ∧
      (c.timeDiff ≠ 0 → b'.cntFltr =
        clip (b.cntFltr + c.sign * c.timeDiff.toNat) 0 cfg.max) ∧
      (b'.intState = b.intState ∨
        c.timeDiff ≠ 0 ∧ (cfg.press < b'.cntFltr ∧ b'.intState = trigSet ∨
          b'.cntFltr < cfg.release ∧ b'.intState = 0)) := by
  rw [debounceUpdate]
  split_ifs with hzero
  · have hi := integrate_inv hb c
    obtain ⟨cntPress, hnonneg, hle, heq⟩ := compareThrs_rest hi (int32 c.timeDiff.toNat)
    have hlevel := compareThrs_level hi (int32 c.timeDiff.toNat)
    generalize compareThrs (integrate b c) (int32 c.timeDiff.toNat) = b' at heq hlevel
    have hcnt : b'.cntFltr = (integrate b c).cntFltr := by rw [heq]
    have hprev : b'.intStatePrev = (integrate b c).intStatePrev := by rw [heq]
    refine ⟨b', rfl, ?_, hprev.trans hb.prev, ?_, ?_⟩
    · rw [heq]
      refine ⟨hi.cfg_release, hi.cfg_press, hi.cfg_max, hi.cnt_nonneg, hi.cnt_le, hnonneg, hle,
        ?_, rfl⟩
      rcases hlevel with ⟨-, hlevel⟩ | ⟨-, hlevel⟩ | hlevel
      · exact .inr hlevel
      · exact .inl hlevel
      · exact hlevel ▸ hi.level
    · exact fun _ => hcnt.trans (integrate_cntFltr hb hc)
    · rw [hcnt]
      rcases hlevel with hset | hclr | hkeep
      · exact .inr ⟨hzero, .inl hset⟩
      · exact .inr ⟨hzero, .inr hclr⟩
      · exact .inl hkeep
  · refine ⟨b, rfl, ?_, hb.prev, fun h => absurd h hzero, .inl rfl⟩
    exact ⟨hb.cfg_release, hb.cfg_press, hb.cfg_max, hb.cnt_nonneg, hb.cnt_le, hb.press_nonneg,
      hb.press_le, hb.level, rfl⟩

theorem update_cases (hb : Inv cfg b) (hc : c.timeDiff.toNat ≤ 2 ^ 30) :
    Inv cfg (debounceUpdate b c) ∧
      (c.timeDiff ≠ 0 → (debounceUpdate b c).cntFltr =
        clip (b.cntFltr + c.sign * c.timeDiff.toNat) 0 cfg.max) ∧
      ((debounceUpdate b c).intState = b.intState ∧
          (debounceUpdate b c).state = (debounceUpdate b c).intState ∨
        c.timeDiff ≠ 0 ∧
          (b.intState = 0 ∧ (debounceUpdate b c).intState = trigSet ∧
              (debounceUpdate b c).state = trigSetShot ∧
              cfg.press < (debounceUpdate b c).cntFltr ∨
            b.intState = trigSet ∧ (debounceUpdate b c).intState = 0 ∧
              (debounceUpdate b c).state = trigClrShot ∧
              (debounceUpdate b c).cntFltr < cfg.release)) := by
  obtain ⟨b', heq, hinv, hprev, hcnt, hchange⟩ := counted_cases hb hc
  obtain ⟨state, hreport, hcases⟩ := report_cases (b := b') (hprev ▸ hb.level) hinv.level
  rw [heq, hreport]
  refine ⟨⟨hinv.cfg_release, hinv.cfg_press, hinv.cfg_max, hinv.cnt_nonneg, hinv.cnt_le,
    hinv.press_nonneg, hinv.press_le, hinv.level, rfl⟩, hcnt, ?_⟩
  have hset : (0 : Int) ≠ trigSet := by decide
  rcases hcases with ⟨hkeep, rfl⟩ | ⟨hzero, hlevel, rfl⟩ | ⟨hone, hlevel, rfl⟩
  · exact .inl ⟨hkeep.trans hprev, rfl⟩
  · have hzero := hprev.symm.trans hzero
    rcases hchange with hkeep | ⟨htime, ⟨hlt, -⟩ | ⟨-, hclr⟩⟩
    · exact absurd (hzero.symm.trans (hkeep.symm.trans hlevel)) hset
    · exact .inr ⟨htime, .inl ⟨hzero, hlevel, rfl, hlt⟩⟩
    · exact absurd (hclr.symm.trans hlevel) hset
  · have hone := hprev.symm.trans hone
    rcases hchange with hkeep | ⟨htime, ⟨-, hup⟩ | ⟨hlt, -⟩⟩
    · exact absurd (hlevel.symm.trans (hkeep.trans hone)) hset
    · exact absurd (hlevel.symm.trans hup) hset
    · exact .inr ⟨htime, .inr ⟨hone, hlevel, rfl, hlt⟩⟩

end

/-! ## Runs -/

section

variable {cfg : Config} {h calls : List Call} {c : Call}

theorem run_snoc (cfg : Config) (h : List Call) (c : Call) :
    run cfg (h ++ [c]) = debounceUpdate (run cfg h) c := by
  rw [run, List.foldl_append]
  rfl

theorem right_update {b : Debouncer} (hb : Inv cfg b) (hc : c.timeDiff.toNat ≤ 2 ^ 30) :
    Right cfg b c (debounceUpdate b c) := by
  obtain ⟨hinv, hcnt, hcases⟩ := update_cases hb hc
  have hlevel := hinv.level
  have hbefore := hb.level
  simp only [trigSet, trigSetShot, trigClrShot] at hcases hlevel hbefore
  rcases hcases with ⟨hkeep, hstate⟩ | ⟨htime, ⟨hzero, hone, hstate, hlt⟩ |
    ⟨hone, hzero, hstate, hlt⟩⟩
  · refine ⟨hinv.cnt_nonneg, hinv.cnt_le, hcnt, ?_, ?_, fun _ _ => hstate, ?_, ?_, fun _ => hkeep⟩
    all_goals
      simp only [trigSet, trigSetShot, trigClrShot]
      omega
  · refine ⟨hinv.cnt_nonneg, hinv.cnt_le, hcnt, ?_, ?_, fun h => absurd hstate h, fun _ => hlt, ?_,
      fun h => absurd h htime⟩
    all_goals
      simp only [trigSet, trigSetShot, trigClrShot]
      omega
  · refine ⟨hinv.cnt_nonneg, hinv.cnt_le, hcnt, ?_, ?_, fun _ h => absurd hstate h, ?_,
      fun _ => hlt, fun h => absurd h htime⟩
    all_goals
      simp only [trigSet, trigSetShot, trigClrShot]
      omega

theorem shots_snoc (cfg : Config) (h : List Call) (c : Call) :
    shots cfg (h ++ [c]) =
      shots cfg h ++ [(debounceUpdate (run cfg h) c).state].filter IsShot := by
  rw [shots, List.inits_append, List.map_append, List.filter_append, ← run_snoc]
  rfl

/-- The level follows from the number of shots so far. -/
def Counted (cfg : Config) (h : List Call) : Prop :=
  (run cfg h).intState = if (shots cfg h).length % 2 = 0 then 0 else trigSet

theorem alternating_snoc {shots : List Int} (hshots : Alternating shots) {x : Int}
    (hx : x = if shots.length % 2 = 0 then trigSetShot else trigClrShot) :
    Alternating (shots ++ [x]) := by
  intro i y hy
  rcases lt_or_ge i shots.length with hlt | hge
  · rw [List.getElem?_append_left hlt] at hy
    exact hshots i y hy
  · rw [List.getElem?_append_right hge] at hy
    cases hi : i - shots.length with
    | zero =>
        rw [hi] at hy
        obtain rfl := Option.some.inj hy
        rwa [show i = shots.length by omega]
    | succ k =>
        rw [hi] at hy
        cases hy

theorem shots_step (hb : Inv cfg (run cfg h)) (hc : c.timeDiff.toNat ≤ 2 ^ 30)
    (halt : Alternating (shots cfg h)) (hcount : Counted cfg h) :
    Alternating (shots cfg (h ++ [c])) ∧ Counted cfg (h ++ [c]) := by
  obtain ⟨hinv, -, hcases⟩ := update_cases hb hc
  rw [Counted] at hcount ⊢
  rw [shots_snoc, run_snoc]
  rcases hcases with ⟨hkeep, hstate⟩ | ⟨-, ⟨hzero, hone, hstate, -⟩ | ⟨hone, hzero, hstate, -⟩⟩
  · have hnone : [(debounceUpdate (run cfg h) c).state].filter IsShot = [] := by
      rw [hstate]
      rcases hinv.level with hlevel | hlevel
      · rw [hlevel]
        rfl
      · rw [hlevel]
        rfl
    rw [hnone, List.append_nil, hkeep]
    exact ⟨halt, hcount⟩
  · have heven : (shots cfg h).length % 2 = 0 := by
      by_contra hodd
      rw [if_neg hodd, hzero] at hcount
      exact absurd hcount (by decide)
    rw [hstate, hone, show [trigSetShot].filter IsShot = [trigSetShot] from rfl,
      List.length_append, List.length_singleton, if_neg (by omega)]
    exact ⟨alternating_snoc halt (if_pos heven).symm, rfl⟩
  · have hodd : ¬ (shots cfg h).length % 2 = 0 := by
      intro heven
      rw [if_pos heven, hone] at hcount
      exact absurd hcount (by decide)
    rw [hstate, hzero, show [trigClrShot].filter IsShot = [trigClrShot] from rfl,
      List.length_append, List.length_singleton, if_pos (by omega)]
    exact ⟨alternating_snoc halt (if_neg hodd).symm, rfl⟩

/-- The invariant of a run, and what it reports. -/
theorem run_right (hcalls : ∀ c ∈ calls, c.timeDiff.toNat ≤ 2 ^ 30) :
    Inv cfg (run cfg calls) ∧
      AtEach (fun h c => Right cfg (run cfg h) c (run cfg (h ++ [c]))) calls ∧
      Alternating (shots cfg calls) ∧ Counted cfg calls := by
  induction calls using List.reverseRecOn with
  | nil =>
      refine ⟨inv_zeroed cfg, atEach_nil _, ?_, rfl⟩
      intro i x hx
      cases hx
  | append_singleton calls c ih =>
      have hc := hcalls c (by simp)
      obtain ⟨hinv, hright, halt, hcount⟩ := ih fun d hd => hcalls d (by simp [hd])
      refine ⟨?_, atEach_snoc.mpr ⟨hright, ?_⟩, shots_step hinv hc halt hcount⟩
      · rw [run_snoc]
        exact (update_cases hinv hc).1
      · rw [run_snoc]
        exact right_update hinv hc

end

/-- Each call of a run reports the level or its change, and the shots alternate. -/
theorem debounces (cfg : Config) (calls : List Call)
    (hcalls : ∀ c ∈ calls, c.timeDiff.toNat ≤ 2 ^ 30) :
    AtEach (fun h c => Right cfg (run cfg h) c (run cfg (h ++ [c]))) calls ∧
      Alternating (shots cfg calls) := by
  obtain ⟨-, hright, halt, -⟩ := run_right hcalls
  exact ⟨hright, halt⟩

/-- The thresholds of `emeter.c`. -/
def lightTrig : Config where
  release := 33
  press := 297
  max := 330
  release_nonneg := by decide
  release_lt := by decide
  press_le := by decide
  max_lt := by decide

/-- The light goes on for 300 ms and off again for the longest time. -/
def lightCalls : List Call := [⟨true, 300⟩, ⟨false, 0⟩, ⟨false, 2 ^ 30⟩]

theorem debounces_light :
    (AtEach (fun h c => Right lightTrig (run lightTrig h) c (run lightTrig (h ++ [c])))
        lightCalls ∧
      Alternating (shots lightTrig lightCalls)) ∧
      shots lightTrig lightCalls = [trigSetShot, trigClrShot] :=
  ⟨debounces lightTrig lightCalls (by decide), by decide⟩

end ShGateway.Debounce
