import ShGateway.Lib.Runs

/-!
The marks of `prof.h` on the SysTick counter and the time differences of the two main loops, of
`app.c` and `ldr.c`.
-/

namespace ShGateway.Prof

open ShGateway.Lib.Runs

/-- The counter after `t` ticks. -/
def systickVal (phase t : Nat) : UInt32 := UInt32.ofNat (((phase : Int) - t) % 2 ^ 24).toNat

def markOf (val : UInt32) : Int32 := (0x1000000 - val - 1).toInt32

/-- The difference to the mark `m`, and the new mark. -/
def profMark (m : Int32) (val : UInt32) : Int32 × Int32 :=
  let mark := markOf val
  ((mark - m + 0x1000000) &&& (0x1000000 - 1), mark)

def systickInUs : UInt32 := 168000000 / 1000000
def systickInMs : UInt32 := 168000000 / 1000

/-- The variables for the time. -/
structure Time where
  prevSystick : Int32 := 0
  remainSystickUsPrev : UInt32 := 0
  remainSystickMsPrev : UInt32 := 0
  systemTime : UInt64 := 0
  sysTimeU32 : UInt32 := 0

structure Diff where
  us : UInt32
  ms : UInt32

def timeDiffSystick (s : Time) (val : UInt32) : UInt32 := (profMark s.prevSystick val).1.toUInt32

/-- The differences of a turn of either loop; `ldr.c` does not use the microseconds. -/
def timeDiff (s : Time) (val : UInt32) : Diff where
  us := (timeDiffSystick s val + s.remainSystickUsPrev) / systickInUs
  ms := (timeDiffSystick s val + s.remainSystickMsPrev) / systickInMs

def timeStep (s : Time) (val : UInt32) : Time where
  prevSystick := (profMark s.prevSystick val).2
  remainSystickUsPrev := (timeDiffSystick s val + s.remainSystickUsPrev) % systickInUs
  remainSystickMsPrev := (timeDiffSystick s val + s.remainSystickMsPrev) % systickInMs
  systemTime := s.systemTime + (timeDiff s val).ms.toUInt64
  sysTimeU32 := s.sysTimeU32 + (timeDiff s val).ms

/-! ## Runs -/

/-- The variables, the ticks so far, and the sums of the differences. -/
structure Run where
  time : Time
  ticks : Nat := 0
  us : Nat := 0
  ms : Nat := 0

/-- A turn of a loop, or another entry into the loop of `app.c` after a reset of the
communication, so many ticks after the last mark. -/
inductive Event
  | turn (d : Nat)
  | enter (d : Nat)

def Event.ticks : Event → Nat
  | .turn d => d
  | .enter d => d

def turn (phase : Nat) (r : Run) (d : Nat) : Run where
  time := timeStep r.time (systickVal phase (r.ticks + d))
  ticks := r.ticks + d
  us := r.us + (timeDiff r.time (systickVal phase (r.ticks + d))).us.toNat
  ms := r.ms + (timeDiff r.time (systickVal phase (r.ticks + d))).ms.toNat

/-- The mark before the loop, whose difference is dropped; the remainders stay. -/
def enter (phase : Nat) (r : Run) (d : Nat) : Run :=
  { r with
    time := { r.time with
      prevSystick := (profMark r.time.prevSystick (systickVal phase (r.ticks + d))).2 }
    ticks := r.ticks + d }

def step (phase : Nat) (r : Run) : Event → Run
  | .turn d => turn phase r d
  | .enter d => enter phase r d

def run (phase : Nat) (start : Time) (evs : List Event) : Run :=
  evs.foldl (step phase) { time := start }

def elapsed (evs : List Event) : Nat := (evs.map Event.ticks).sum

/-- The ticks that the marks before the loop drop. -/
def dropped (evs : List Event) : Nat :=
  (evs.map fun
    | .turn _ => 0
    | .enter d => d).sum

/-- `app.c` sets the first mark right before its loop. -/
def appStart (phase : Nat) : Time := { prevSystick := (profMark 0 (systickVal phase 0)).2 }

/-- The first mark of `ldr.c` is 0, that of the counter which `prof_init` has made start again. -/
def ldrStart : Time := {}

def ldrPhase : Nat := 2 ^ 24 - 1

/-- The sums and the remainders account for all ticks. -/
structure Exact (ticks : Nat) (r : Run) : Prop where
  ms : 168000 * r.ms + r.time.remainSystickMsPrev.toNat = ticks
  us : 168 * r.us + r.time.remainSystickUsPrev.toNat = ticks
  ms_lt : r.time.remainSystickMsPrev.toNat < 168000
  us_lt : r.time.remainSystickUsPrev.toNat < 168
  systemTime : r.time.systemTime.toNat = ticks / 168000 % 2 ^ 64

def InRange (x : Int) : Prop := -2 ^ 31 ≤ x ∧ x < 2 ^ 31

/-- No operation of a turn leaves the range of its type. -/
structure NoOverflow (s : Time) (val : UInt32) : Prop where
  val_lt : val.toNat + 1 ≤ 2 ^ 24
  sub : InRange ((markOf val).toInt - s.prevSystick.toInt)
  add : InRange ((markOf val).toInt - s.prevSystick.toInt + 2 ^ 24)
  us : (timeDiffSystick s val).toNat + s.remainSystickUsPrev.toNat < 2 ^ 32
  ms : (timeDiffSystick s val).toNat + s.remainSystickMsPrev.toNat < 2 ^ 32

/-- After every turn all ticks are accounted for, and no turn leaves the range of a type. -/
def OnTime (phase : Nat) (start : Time) (evs : List Event) : Prop :=
  AtEach (fun h ev => ∀ d, ev = .turn d →
    Exact (elapsed (h ++ [ev])) (run phase start (h ++ [ev])) ∧
      NoOverflow (run phase start h).time (systickVal phase (elapsed (h ++ [ev])))) evs

/-! ## Marks -/

section

variable {v w : UInt32} {phase t d : Nat}

theorem systickVal_toNat (phase t : Nat) :
    (systickVal phase t).toNat = (((phase : Int) - t) % 2 ^ 24).toNat :=
  UInt32.toNat_ofNat_of_lt' (by rw [UInt32.size]; omega)

theorem systickVal_lt (phase t : Nat) : (systickVal phase t).toNat < 2 ^ 24 := by
  rw [systickVal_toNat]
  omega

theorem markOf_toInt (hv : v.toNat < 2 ^ 24) : (markOf v).toInt = 2 ^ 24 - 1 - v.toNat := by
  have hmark : (0x1000000 - v - 1).toNat = 2 ^ 24 - 1 - v.toNat := by
    simp only [UInt32.toNat_sub, UInt32.reduceToNat]
    omega
  rw [markOf, Int32.toInt, UInt32.toBitVec_toInt32, BitVec.toInt_eq_toNat_of_lt]
  · rw [UInt32.toNat_toBitVec, hmark]
    omega
  · rw [UInt32.toNat_toBitVec, hmark]
    omega

theorem profMark_toNat (hv : v.toNat < 2 ^ 24) (hw : w.toNat < 2 ^ 24) :
    (profMark (markOf v) w).1.toUInt32.toNat = (v.toNat + 2 ^ 24 - w.toNat) % 2 ^ 24 := by
  have hbits : (profMark (markOf v) w).1.toUInt32 =
      ((0x1000000 - w - 1) - (0x1000000 - v - 1) + 0x1000000) &&& 0xFFFFFF := rfl
  rw [hbits, UInt32.toNat_and, show (0xFFFFFF : UInt32).toNat = 2 ^ 24 - 1 from rfl,
    Nat.and_two_pow_sub_one_eq_mod]
  simp only [UInt32.toNat_add, UInt32.toNat_sub, UInt32.reduceToNat]
  omega

theorem profMark_ticks (hd : d < 2 ^ 24) :
    (profMark (markOf (systickVal phase t)) (systickVal phase (t + d))).1.toUInt32.toNat = d := by
  rw [profMark_toNat (systickVal_lt _ _) (systickVal_lt _ _), systickVal_toNat, systickVal_toNat]
  omega

end

/-! ## The time -/

/-- What holds after a number of ticks, of which `counted` have come to a turn. -/
structure Inv (phase counted : Nat) (r : Run) : Prop where
  prev : r.time.prevSystick = markOf (systickVal phase r.ticks)
  exact : Exact counted r

theorem carry_over {t r n : UInt32} {sum ticks : Nat} (hlt : t.toNat + r.toNat < 2 ^ 32)
    (hticks : n.toNat * sum + r.toNat = ticks) :
    n.toNat * (sum + ((t + r) / n).toNat) + ((t + r) % n).toNat = ticks + t.toNat := by
  have hdiv : n.toNat * ((t + r) / n).toNat + ((t + r) % n).toNat = t.toNat + r.toNat := by
    rw [UInt32.toNat_div, UInt32.toNat_mod, Nat.div_add_mod, UInt32.toNat_add,
      Nat.mod_eq_of_lt hlt]
  rw [Nat.mul_add]
  omega

theorem Exact.unique {m n : Nat} {r : Run} (hm : Exact m r) (hn : Exact n r) : m = n :=
  hm.ms.symm.trans hn.ms

theorem div_of_ms {ms remain ticks : Nat} (heq : 168000 * ms + remain = ticks)
    (hlt : remain < 168000) : ticks / 168000 = ms := by omega

section

variable {phase counted d : Nat} {r : Run} {evs : List Event}

theorem timeDiffSystick_eq (hr : Inv phase counted r) (hd : d < 2 ^ 24) :
    (timeDiffSystick r.time (systickVal phase (r.ticks + d))).toNat = d := by
  rw [timeDiffSystick, hr.prev, profMark_ticks hd]

theorem noOverflow_of_inv (hr : Inv phase counted r) (hd : d < 2 ^ 24) :
    NoOverflow r.time (systickVal phase (r.ticks + d)) := by
  have hval := systickVal_lt phase (r.ticks + d)
  have hprev := systickVal_lt phase r.ticks
  have hms := hr.exact.ms_lt
  have hus := hr.exact.us_lt
  refine ⟨by omega, ?_, ?_, ?_, ?_⟩
  · rw [hr.prev, markOf_toInt hval, markOf_toInt hprev, InRange]
    omega
  · rw [hr.prev, markOf_toInt hval, markOf_toInt hprev, InRange]
    omega
  · rw [timeDiffSystick_eq hr hd]
    omega
  · rw [timeDiffSystick_eq hr hd]
    omega

theorem inv_turn (hr : Inv phase counted r) (hd : d < 2 ^ 24) :
    Inv phase (counted + d) (turn phase r d) := by
  have hoverflow := noOverflow_of_inv hr hd
  have hticks := timeDiffSystick_eq hr hd
  have hus := carry_over (n := systickInUs) hoverflow.us hr.exact.us
  have hms := carry_over (n := systickInMs) hoverflow.ms hr.exact.ms
  rw [hticks] at hus hms
  have hlt : (turn phase r d).time.remainSystickMsPrev.toNat < 168000 := by
    change (_ % systickInMs).toNat < _
    rw [UInt32.toNat_mod]
    exact Nat.mod_lt _ (by decide)
  refine ⟨rfl, hms, hus, hlt, ?_, ?_⟩
  · change (_ % systickInUs).toNat < _
    rw [UInt32.toNat_mod]
    exact Nat.mod_lt _ (by decide)
  · have hsys : (turn phase r d).time.systemTime.toNat = (r.time.systemTime.toNat +
        (timeDiff r.time (systickVal phase (r.ticks + d))).ms.toNat) % 2 ^ 64 := by
      change (_ + UInt32.toUInt64 _).toNat = _
      rw [UInt64.toNat_add, UInt32.toNat_toUInt64]
    have hbefore := div_of_ms hr.exact.ms hr.exact.ms_lt
    have hafter : (counted + d) / 168000 = r.ms + _ := div_of_ms hms hlt
    rw [hsys, hr.exact.systemTime, hbefore, Nat.mod_add_mod]
    exact congrArg (· % 2 ^ 64) hafter.symm

theorem enter_time (phase : Nat) (r : Run) (d : Nat) : (enter phase r d).time =
    { r.time with prevSystick := markOf (systickVal phase (r.ticks + d)) } := rfl

theorem enter_ticks (phase : Nat) (r : Run) (d : Nat) : (enter phase r d).ticks = r.ticks + d := by
  rw [enter]

theorem enter_ms (phase : Nat) (r : Run) (d : Nat) : (enter phase r d).ms = r.ms := by rw [enter]

theorem enter_us (phase : Nat) (r : Run) (d : Nat) : (enter phase r d).us = r.us := by rw [enter]

theorem exact_congr {r' : Run} (hr : Exact counted r) (hms : r'.ms = r.ms) (hus : r'.us = r.us)
    (hremainMs : r'.time.remainSystickMsPrev = r.time.remainSystickMsPrev)
    (hremainUs : r'.time.remainSystickUsPrev = r.time.remainSystickUsPrev)
    (hsystemTime : r'.time.systemTime = r.time.systemTime) : Exact counted r' := by
  constructor
  · rw [hms, hremainMs]
    exact hr.ms
  · rw [hus, hremainUs]
    exact hr.us
  · rw [hremainMs]
    exact hr.ms_lt
  · rw [hremainUs]
    exact hr.us_lt
  · rw [hsystemTime]
    exact hr.systemTime

theorem inv_enter (hr : Inv phase counted r) : Inv phase counted (enter phase r d) := by
  refine ⟨?_, exact_congr hr.exact (enter_ms phase r d) (enter_us phase r d) ?_ ?_ ?_⟩
  · rw [enter_time, enter_ticks]
  · rw [enter_time]
  · rw [enter_time]
  · rw [enter_time]

theorem elapsed_snoc (evs : List Event) (ev : Event) :
    elapsed (evs ++ [ev]) = elapsed evs + ev.ticks := by
  rw [elapsed, List.map_append, List.sum_append, List.map_singleton, List.sum_singleton, elapsed]

theorem dropped_turn (evs : List Event) (d : Nat) : dropped (evs ++ [.turn d]) = dropped evs := by
  rw [dropped, List.map_append, List.sum_append]
  rfl

theorem dropped_enter (evs : List Event) (d : Nat) :
    dropped (evs ++ [.enter d]) = dropped evs + d := by
  rw [dropped, List.map_append, List.sum_append, List.map_singleton, List.sum_singleton, dropped]

/-- The turns count all ticks but those that are dropped. -/
theorem run_inv {start : Time} (hstart : Inv phase 0 { time := start })
    (hevs : ∀ ev ∈ evs, ev.ticks < 2 ^ 24) :
    ∃ counted, counted + dropped evs = elapsed evs ∧ (run phase start evs).ticks = elapsed evs ∧
      Inv phase counted (run phase start evs) := by
  induction evs using List.reverseRecOn with
  | nil => exact ⟨0, rfl, rfl, hstart⟩
  | append_singleton evs ev ih =>
      obtain ⟨counted, hsum, hticks, hinv⟩ := ih fun e he => hevs e (List.mem_append_left _ he)
      have hev := hevs ev (List.mem_append_right _ (List.mem_singleton_self ev))
      have hrun : run phase start (evs ++ [ev]) = step phase (run phase start evs) ev := by
        rw [run, List.foldl_append]
        rfl
      rw [hrun, elapsed_snoc]
      cases ev with
      | turn d =>
          rw [dropped_turn]
          refine ⟨counted + d, ?_, congrArg (· + d) hticks, inv_turn hinv hev⟩
          rw [← hsum, Nat.add_right_comm]
          rfl
      | enter d =>
          rw [dropped_enter]
          exact ⟨counted, by rw [← hsum, Nat.add_assoc]; rfl, congrArg (· + d) hticks,
            inv_enter hinv⟩

theorem inv_appStart (phase : Nat) : Inv phase 0 { time := appStart phase } :=
  ⟨rfl, rfl, rfl, (by decide : 0 < 168000), (by decide : 0 < 168),
    (by decide : 0 = 0 / 168000 % 2 ^ 64)⟩

theorem inv_ldrStart : Inv ldrPhase 0 { time := ldrStart } :=
  ⟨rfl, rfl, rfl, (by decide : 0 < 168000), (by decide : 0 < 168), rfl⟩

/-- A turn accounts for all ticks if none has been dropped before it. -/
theorem onTime_iff {start : Time} (hstart : Inv phase 0 { time := start })
    (hevs : ∀ ev ∈ evs, ev.ticks < 2 ^ 24) :
    OnTime phase start evs ↔ AtEach (fun h ev => ∀ d, ev = .turn d → dropped h = 0) evs := by
  refine forall_congr' fun h => forall_congr' fun ev => forall_congr' fun hpre =>
    forall_congr' fun d => forall_congr' fun hturn => ?_
  have hbefore : ∀ e ∈ h, e.ticks < 2 ^ 24 := fun e he =>
    hevs e (hpre.subset (List.mem_append_left _ he))
  have hev := hevs ev (hpre.subset (List.mem_append_right _ (List.mem_singleton_self ev)))
  subst hturn
  obtain ⟨counted, -, hticks, hinv⟩ := run_inv hstart hbefore
  have hafter : ∀ e ∈ h ++ [.turn d], e.ticks < 2 ^ 24 := fun e he => hevs e (hpre.subset he)
  obtain ⟨counted', hsum, -, hinv'⟩ := run_inv hstart hafter
  rw [dropped_turn] at hsum
  constructor
  · rintro ⟨hexact, -⟩
    have hall := hexact.unique hinv'.exact
    omega
  · intro hnone
    have hall : counted' = elapsed (h ++ [.turn d]) := by omega
    refine ⟨hall ▸ hinv'.exact, ?_⟩
    rw [elapsed_snoc, ← hticks]
    exact noOverflow_of_inv hinv hev

end

end ShGateway.Prof
