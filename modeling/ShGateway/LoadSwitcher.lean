import ShGateway.Lib.Runs

/-!
The load switch of `load_switcher.c`. The comparisons with the two thresholds of the current and
the level of the fault pin are arguments of a poll.
-/

namespace ShGateway.LoadSwitcher

open ShGateway.Lib.Runs

def timeoutOn : UInt32 := 200
def timeoutCurLongterm : UInt32 := 4000

/-- The variables of `load_switcher.c`, and the level of the pin that switches the load. -/
structure Switch where
  enabled : Bool := false
  timeoutOnMs : UInt32 := 0
  timeoutCurLongtermMs : UInt32 := 0
  pin : Bool := false

def loadSwitcherOn (s : Switch) : Switch :=
  { s with timeoutOnMs := timeoutOn, enabled := true, pin := true }

def loadSwitcherOff (s : Switch) : Switch := { s with pin := false, enabled := false }

/-- What a poll finds: a current of at least 0.25 A, one of at least 1 A, the fault pin high. -/
structure Poll where
  diffMs : UInt32
  longterm : Bool
  instant : Bool
  faultPin : Bool

def trip (s : Switch) (code : Nat) : Nat × Switch :=
  (if s.enabled then code else 0, loadSwitcherOff s)

def loadSwitcherPoll (s : Switch) (p : Poll) : Nat × Switch :=
  let s := { s with timeoutOnMs := if s.timeoutOnMs > p.diffMs then s.timeoutOnMs - p.diffMs else 0 }
  if s.timeoutOnMs = 0 then
    let s := { s with
      timeoutCurLongtermMs := if p.longterm then s.timeoutCurLongtermMs + p.diffMs else 0 }
    if p.faultPin = false then trip s 1
    else if p.instant then trip s 2
    else if s.timeoutCurLongtermMs ≥ timeoutCurLongterm then trip s 3
    else (0, s)
  else (0, s)

inductive Event
  | on
  | off
  | poll (p : Poll)

def step (s : Switch) : Event → Switch
  | .on => loadSwitcherOn s
  | .off => loadSwitcherOff s
  | .poll p => (loadSwitcherPoll s p).2

def run (events : List Event) : Switch := events.foldl step {}

/-! ## Trips -/

def time (polls : List Poll) : Nat := (polls.map (·.diffMs.toNat)).sum

/-- The load has been on since `load_switcher_on` was called last before the poll `p`, its
start-up time is over, and the latest polls since that call saw an overload of four seconds. -/
def Sustained (h : List Event) (p : Poll) : Prop :=
  ∃ earlier polls, h = earlier ++ Event.on :: polls.map Event.poll ∧
    (∀ l, l <+: polls → (run (earlier ++ Event.on :: l.map Event.poll)).pin = true) ∧
    200 ≤ time (polls ++ [p]) ∧
    ∃ front back, polls ++ [p] = front ++ back ∧ (∀ q ∈ back, q.longterm = true) ∧
      4000 ≤ time back

/-- A poll that returns 3 comes after a sustained overload, and one that returns a fault leaves
the load off. -/
def TripsRight (h : List Event) : Event → Prop
  | .poll p =>
      ((loadSwitcherPoll (run h) p).1 = 3 → Sustained h p) ∧
        ((loadSwitcherPoll (run h) p).1 ≠ 0 →
          (loadSwitcherPoll (run h) p).2.enabled = false ∧
            (loadSwitcherPoll (run h) p).2.pin = false)
  | _ => True

/-- No accumulated overload is left over when the load is switched on: the next overload is
added to it, which the largest number turns into one millisecond less. -/
def StartsAnew (h : List Event) (e : Event) : Prop :=
  e = .on → (run h).timeoutCurLongtermMs = 0 ∨ (run h).timeoutCurLongtermMs = 0xFFFFFFFF

section

variable {h : List Event} {s : Switch} {p : Poll} {polls : List Poll}

theorem run_snoc (e : Event) : run (h ++ [e]) = step (run h) e := by
  rw [run, List.foldl_append]
  rfl

theorem time_append (front back : List Poll) : time (front ++ back) = time front + time back := by
  rw [time, List.map_append, List.sum_append]
  rfl

theorem time_snoc : time (polls ++ [p]) = time polls + p.diffMs.toNat := time_append polls [p]

theorem polls_unique {earlier earlier' : List Event} {polls' : List Poll}
    (heq : earlier ++ Event.on :: polls.map Event.poll =
      earlier' ++ Event.on :: polls'.map Event.poll) :
    polls = polls' := by
  induction polls using List.reverseRecOn generalizing polls' with
  | nil =>
      rcases List.eq_nil_or_concat polls' with rfl | ⟨polls', q, rfl⟩
      · rfl
      · rw [List.concat_eq_append, List.map_append, ← List.cons_append,
          ← List.append_assoc] at heq
        cases (List.append_inj' heq rfl).2
  | append_singleton polls q ih =>
      rcases List.eq_nil_or_concat polls' with rfl | ⟨polls', q', rfl⟩
      · rw [List.map_append, ← List.cons_append, ← List.append_assoc] at heq
        cases (List.append_inj' heq rfl).2
      · rw [List.concat_eq_append, List.map_append, List.map_append, ← List.cons_append,
          ← List.cons_append, ← List.append_assoc, ← List.append_assoc] at heq
        obtain ⟨hfront, hlast⟩ := List.append_inj' heq rfl
        obtain rfl := Event.poll.inj (List.singleton_inj.mp hlast)
        rw [ih hfront, List.concat_eq_append]

/-! ## One poll -/

/-- The accumulated time of an overload after a poll behind the start-up time. -/
def accumulated (s : Switch) (p : Poll) : UInt32 :=
  if p.longterm then s.timeoutCurLongtermMs + p.diffMs else 0

theorem poll_startup (hlt : p.diffMs < s.timeoutOnMs) :
    loadSwitcherPoll s p = (0, { s with timeoutOnMs := s.timeoutOnMs - p.diffMs }) := by
  have hne : s.timeoutOnMs - p.diffMs ≠ 0 := by
    intro hzero
    have hnat := congrArg UInt32.toNat hzero
    rw [UInt32.toNat_sub_of_le _ _ (UInt32.le_of_lt hlt)] at hnat
    have hlt' := UInt32.lt_iff_toNat_lt.mp hlt
    have : (0 : UInt32).toNat = 0 := rfl
    omega
  rw [loadSwitcherPoll]
  dsimp only
  rw [if_pos hlt, if_neg hne]

/-- The switch after the measurement of a poll behind the start-up time. -/
def measured (s : Switch) (p : Poll) : Switch :=
  { s with timeoutOnMs := 0, timeoutCurLongtermMs := accumulated s p }

theorem poll_running (hle : s.timeoutOnMs ≤ p.diffMs) :
    (∃ code, loadSwitcherPoll s p = trip (measured s p) code ∧
        (code = 3 → timeoutCurLongterm ≤ accumulated s p)) ∨
      loadSwitcherPoll s p = (0, measured s p) := by
  have hpoll : loadSwitcherPoll s p =
      if p.faultPin = false then trip (measured s p) 1
      else if p.instant then trip (measured s p) 2
      else if accumulated s p ≥ timeoutCurLongterm then trip (measured s p) 3
      else (0, measured s p) := by
    rw [loadSwitcherPoll]
    dsimp only
    rw [if_neg (UInt32.not_lt.mpr hle), if_pos rfl]
    rfl
  rw [hpoll]
  split_ifs with hpin hinstant hlongterm
  · exact .inl ⟨1, rfl, nofun⟩
  · exact .inl ⟨2, rfl, nofun⟩
  · exact .inl ⟨3, rfl, fun _ => hlongterm⟩
  · exact .inr rfl

/-! ## The polls since the load was switched on -/

/-- The switch `s` after the history `h`: while the load is on, the time since then runs the
start-up down, and the accumulated time belongs to the latest polls behind it. -/
structure Inv (h : List Event) (s : Switch) : Prop where
  pin : s.pin = s.enabled
  running : s.enabled = true → ∃ earlier polls, h = earlier ++ Event.on :: polls.map Event.poll ∧
    (∀ l, l <+: polls → (run (earlier ++ Event.on :: l.map Event.poll)).pin = true) ∧
    s.timeoutOnMs.toNat = 200 - time polls ∧
    (time polls < 200 → s.timeoutCurLongtermMs = 0 ∨ s.timeoutCurLongtermMs = 0xFFFFFFFF) ∧
    (200 ≤ time polls → ∃ front back, polls = front ++ back ∧
      (∀ q ∈ back, q.longterm = true) ∧ s.timeoutCurLongtermMs.toNat ≤ time back)

/-- A poll behind the start-up time extends the overload or ends it. -/
theorem accumulated_le
    (hstart : time polls < 200 →
      s.timeoutCurLongtermMs = 0 ∨ s.timeoutCurLongtermMs = 0xFFFFFFFF)
    (hover : 200 ≤ time polls → ∃ front back, polls = front ++ back ∧
      (∀ q ∈ back, q.longterm = true) ∧ s.timeoutCurLongtermMs.toNat ≤ time back)
    (hle : 200 ≤ time (polls ++ [p])) :
    ∃ front back, polls ++ [p] = front ++ back ∧ (∀ q ∈ back, q.longterm = true) ∧
      (accumulated s p).toNat ≤ time back := by
  rw [accumulated]
  cases hp : p.longterm with
  | false => exact ⟨polls ++ [p], [], (List.append_nil _).symm, nofun, Nat.le_refl 0⟩
  | true =>
      rw [if_pos rfl]
      rcases Nat.lt_or_ge (time polls) 200 with hlt | hge
      · refine ⟨polls, [p], rfl, fun q hq => List.mem_singleton.mp hq ▸ hp, ?_⟩
        have htime : time [p] = p.diffMs.toNat := Nat.add_zero _
        rw [htime]
        rcases hstart hlt with hzero | hmax
        · rw [hzero, UInt32.zero_add]
        · rw [time_snoc] at hle
          rw [hmax, UInt32.toNat_add]
          have hnat : (0xFFFFFFFF : UInt32).toNat = 4294967295 := rfl
          have hlt' := p.diffMs.toNat_lt
          omega
      · obtain ⟨front, back, rfl, hback, hacc⟩ := hover hge
        refine ⟨front, back ++ [p], List.append_assoc .., ?_, ?_⟩
        · intro q hq
          rcases List.mem_append.mp hq with hq | hq
          · exact hback q hq
          · exact List.mem_singleton.mp hq ▸ hp
        · rw [time_snoc, UInt32.toNat_add]
          exact (Nat.mod_le _ _).trans (Nat.add_le_add_right hacc _)

theorem inv_on (hstart : (run h).timeoutCurLongtermMs = 0 ∨
    (run h).timeoutCurLongtermMs = 0xFFFFFFFF) : Inv (h ++ [Event.on]) (run (h ++ [Event.on])) := by
  rw [run_snoc]
  refine ⟨rfl, fun _ => ⟨h, [], rfl, ?_, rfl, fun _ => hstart, ?_⟩⟩
  · intro l hl
    obtain rfl := List.prefix_nil.mp hl
    exact congrArg Switch.pin (run_snoc .on)
  · intro hle
    exact absurd hle (by decide)

theorem inv_off (h : List Event) (s : Switch) : Inv h (loadSwitcherOff s) := by
  refine ⟨rfl, fun hon => ?_⟩
  cases hon

theorem pin_snoc {earlier : List Event} {l : List Poll}
    (hpolls : ∀ l, l <+: polls → (run (earlier ++ Event.on :: l.map Event.poll)).pin = true)
    (hlast : (run (earlier ++ Event.on :: polls.map Event.poll ++ [Event.poll p])).pin = true)
    (hl : l <+: polls ++ [p]) : (run (earlier ++ Event.on :: l.map Event.poll)).pin = true := by
  rcases List.prefix_concat_iff.mp hl with rfl | hl
  · rw [List.map_append, ← List.cons_append, ← List.append_assoc]
    exact hlast
  · exact hpolls l hl

theorem history_snoc {earlier : List Event} (heq : h = earlier ++ Event.on :: polls.map Event.poll) :
    h ++ [Event.poll p] = earlier ++ Event.on :: (polls ++ [p]).map Event.poll := by
  rw [heq, List.map_append, ← List.cons_append, ← List.append_assoc]
  rfl

theorem inv_startup (hs : Inv h (run h)) (hlt : p.diffMs < (run h).timeoutOnMs) :
    Inv (h ++ [Event.poll p]) (run (h ++ [Event.poll p])) := by
  have hrun : run (h ++ [Event.poll p]) =
      { run h with timeoutOnMs := (run h).timeoutOnMs - p.diffMs } := by
    rw [run_snoc]
    exact congrArg Prod.snd (poll_startup hlt)
  refine ⟨by rw [hrun]; exact hs.pin, fun hon => ?_⟩
  rw [hrun] at hon
  obtain ⟨earlier, polls, heq, hpolls, hstart, hacc, -⟩ := hs.running hon
  have htime := UInt32.lt_iff_toNat_lt.mp hlt
  have hsnoc := @time_snoc p polls
  refine ⟨earlier, polls ++ [p], history_snoc heq, ?_, ?_, ?_, ?_⟩
  · intro l
    refine pin_snoc hpolls ?_
    rw [← heq, hrun]
    exact hs.pin.trans hon
  · rw [hrun]
    change ((run h).timeoutOnMs - p.diffMs).toNat = _
    rw [UInt32.toNat_sub_of_le _ _ (UInt32.le_of_lt hlt)]
    omega
  · intro _
    rw [hrun]
    exact hacc (by omega)
  · omega

theorem running_polls (hs : Inv h (run h)) (hle : (run h).timeoutOnMs ≤ p.diffMs)
    (hon : (run h).enabled = true) :
    ∃ earlier polls, h = earlier ++ Event.on :: polls.map Event.poll ∧
      (∀ l, l <+: polls → (run (earlier ++ Event.on :: l.map Event.poll)).pin = true) ∧
      200 ≤ time (polls ++ [p]) ∧ ∃ front back, polls ++ [p] = front ++ back ∧
        (∀ q ∈ back, q.longterm = true) ∧ (accumulated (run h) p).toNat ≤ time back := by
  obtain ⟨earlier, polls, heq, hpolls, hstart, hacc, hover⟩ := hs.running hon
  have htime := UInt32.le_iff_toNat_le.mp hle
  have hle' : 200 ≤ time (polls ++ [p]) := by
    rw [time_snoc]
    omega
  exact ⟨earlier, polls, heq, hpolls, hle', accumulated_le hacc hover hle'⟩

theorem inv_running (hs : Inv h (run h)) (hle : (run h).timeoutOnMs ≤ p.diffMs) :
    Inv (h ++ [Event.poll p]) (run (h ++ [Event.poll p])) := by
  rw [run_snoc, step]
  rcases poll_running hle with ⟨code, hpoll, -⟩ | hpoll
  · rw [hpoll]
    exact inv_off _ _
  · have hrun : run (h ++ [Event.poll p]) = measured (run h) p := by
      rw [run_snoc, step, hpoll]
    rw [hpoll]
    refine ⟨hs.pin, fun hon => ?_⟩
    obtain ⟨earlier, polls, heq, hpolls, htime, hback⟩ := running_polls hs hle hon
    refine ⟨earlier, polls ++ [p], history_snoc heq, ?_, ?_, ?_, fun _ => hback⟩
    · intro l
      refine pin_snoc hpolls ?_
      rw [← heq, hrun]
      exact hs.pin.trans hon
    · change 0 = 200 - time (polls ++ [p])
      omega
    · omega

theorem run_inv {events : List Event} (hevents : AtEach StartsAnew events) :
    Inv events (run events) := by
  refine foldl_invariant Inv (inv_off [] {}) ?_ hevents
  intro h e hs hanew
  change Inv (h ++ [e]) (step (run h) e)
  rw [← run_snoc]
  cases e with
  | on => exact inv_on (hanew rfl)
  | off =>
      rw [run_snoc]
      exact inv_off _ _
  | poll p =>
      rcases UInt32.lt_or_le p.diffMs (run h).timeoutOnMs with hlt | hle
      · exact inv_startup hs hlt
      · exact inv_running hs hle

theorem tripsRight_of_inv (hs : Inv h (run h)) (e : Event) : TripsRight h e := by
  cases e with
  | on => trivial
  | off => trivial
  | poll p =>
      rcases UInt32.lt_or_le p.diffMs (run h).timeoutOnMs with hlt | hle
      · have hpoll : (loadSwitcherPoll (run h) p).1 = 0 := congrArg Prod.fst (poll_startup hlt)
        refine ⟨fun hcode => ?_, fun hcode => absurd hpoll hcode⟩
        exact absurd (hpoll.symm.trans hcode) (by decide)
      · rcases poll_running hle with ⟨code, hpoll, hthree⟩ | hpoll
        · rw [TripsRight, hpoll]
          refine ⟨fun hcode => ?_, fun _ => ⟨rfl, rfl⟩⟩
          have hon : (run h).enabled = true ∧ code = 3 := by
            cases henabled : (run h).enabled with
            | false =>
                rw [trip, measured, henabled] at hcode
                cases hcode
            | true =>
                rw [trip, measured, henabled] at hcode
                exact ⟨rfl, hcode⟩
          obtain ⟨earlier, polls, heq, hpolls, htime, front, back, hback, hlong, hacc⟩ :=
            running_polls hs hle hon.1
          refine ⟨earlier, polls, heq, hpolls, htime, front, back, hback, hlong, ?_⟩
          exact (UInt32.le_iff_toNat_le.mp (hthree hon.2)).trans hacc
        · rw [TripsRight, hpoll]
          exact ⟨nofun, fun hcode => absurd rfl hcode⟩

end

/-! ## Overloads that are left over -/

/-- A poll that measures an overload for `max 1 (4000 - acc)` milliseconds. -/
def earlyPoll (acc : UInt32) : Poll :=
  ⟨UInt32.ofNat (max 1 (4000 - acc.toNat)), true, false, true⟩

def startPoll : Poll := ⟨199, false, false, true⟩

section

variable {h : List Event} {acc : UInt32}

theorem earlyPoll_diffMs (acc : UInt32) :
    (earlyPoll acc).diffMs.toNat = max 1 (4000 - acc.toNat) := by
  rw [earlyPoll, UInt32.toNat_ofNat_of_lt']
  rw [UInt32.size]
  omega

theorem early_code (hacc : (run h).timeoutCurLongtermMs = acc) (hzero : acc ≠ 0)
    (hmax : acc ≠ 0xFFFFFFFF) :
    (loadSwitcherPoll (run (h ++ [Event.on] ++ [Event.poll startPoll])) (earlyPoll acc)).1 = 3 := by
  have hdiff := earlyPoll_diffMs acc
  have hrun : run (h ++ [Event.on] ++ [Event.poll startPoll]) = ⟨true, 1, acc, true⟩ := by
    have hlt : startPoll.diffMs < (loadSwitcherOn (run h)).timeoutOnMs := by
      change (199 : UInt32) < 200
      decide
    have hone : timeoutOn - 199 = 1 := by decide
    rw [run_snoc, run_snoc, ← hacc, ← hone]
    exact congrArg Prod.snd (poll_startup hlt)
  have hover : timeoutCurLongterm ≤ accumulated ⟨true, 1, acc, true⟩ (earlyPoll acc) := by
    have hne := mt UInt32.toNat_inj.mp hzero
    have hne' := mt UInt32.toNat_inj.mp hmax
    have hlt := acc.toNat_lt
    change ¬ acc.toNat = 0 at hne
    change ¬ acc.toNat = 4294967295 at hne'
    change timeoutCurLongterm ≤ acc + (earlyPoll acc).diffMs
    rw [UInt32.le_iff_toNat_le, UInt32.toNat_add, hdiff]
    change 4000 ≤ _
    omega
  have hle : (1 : UInt32) ≤ (earlyPoll acc).diffMs := by
    rw [UInt32.le_iff_toNat_le, hdiff]
    exact Nat.le_max_left 1 _
  rw [hrun, loadSwitcherPoll]
  dsimp only
  rw [if_neg (UInt32.not_lt.mpr hle), if_pos rfl]
  change (if accumulated ⟨true, 1, acc, true⟩ (earlyPoll acc) ≥ timeoutCurLongterm
    then (_ : Nat × Switch) else _).1 = 3
  rw [if_pos hover]
  rfl

theorem not_sustained_early (hzero : acc ≠ 0) :
    ¬ Sustained (h ++ [Event.on] ++ [Event.poll startPoll]) (earlyPoll acc) := by
  rintro ⟨earlier, polls, heq, -, -, front, back, hback, hlong, htime⟩
  have heq' : h ++ Event.on :: [startPoll].map Event.poll =
      earlier ++ Event.on :: polls.map Event.poll := by
    rw [← heq, List.append_assoc]
    rfl
  obtain rfl := polls_unique heq'
  have hne := mt UInt32.toNat_inj.mp hzero
  change ¬ acc.toNat = 0 at hne
  have hdiff := earlyPoll_diffMs acc
  -- the overload cannot begin before the second poll
  rcases front with _ | ⟨q, front⟩
  · have hstart := hlong startPoll (by rw [← List.nil_append back, ← hback]; simp)
    exact absurd hstart (by decide)
  · obtain ⟨-, hrest⟩ := List.cons.inj hback
    have hsum := congrArg time hrest
    change (earlyPoll acc).diffMs.toNat + 0 = time (front ++ back) at hsum
    rw [time_append] at hsum
    omega

end

/-- Neither a run nor the polls that may follow on a part of it ever trip the load early, exactly
if it is always switched on without an overload that is left over. -/
theorem neverEarly_iff (events : List Event) :
    (∀ h, h <+: events → ∀ polls : List Poll, AtEach TripsRight (h ++ polls.map Event.poll)) ↔
      AtEach StartsAnew events := by
  constructor
  · intro htrips h e hpre he
    subst he
    by_contra hleft
    rw [not_or] at hleft
    have hat := htrips (h ++ [Event.on]) hpre [startPoll, earlyPoll (run h).timeoutCurLongtermMs]
      (h ++ [Event.on] ++ [Event.poll startPoll]) (.poll (earlyPoll (run h).timeoutCurLongtermMs))
      (by simp)
    exact not_sustained_early hleft.1 (hat.1 (early_code rfl hleft.1 hleft.2))
  · intro hanew h hpre polls
    have hat : AtEach StartsAnew (h ++ polls.map Event.poll) := by
      induction polls using List.reverseRecOn with
      | nil =>
          rw [List.map_nil, List.append_nil]
          exact hanew.of_prefix hpre
      | append_singleton polls p ih =>
          rw [List.map_append, ← List.append_assoc]
          exact atEach_snoc.mpr ⟨ih, nofun⟩
    intro l e hl
    have hl' := (List.prefix_append l [e]).trans hl
    exact tripsRight_of_inv (run_inv (hat.of_prefix hl')) e

/-- Three seconds of an overload, and one more second after the load has been switched off and
on. -/
def leftOver : List Event :=
  [.on, .poll ⟨1000, true, false, true⟩, .poll ⟨1000, true, false, true⟩,
    .poll ⟨1000, true, false, true⟩, .off, .on]

theorem not_tripsRight_leftOver :
    ¬ AtEach TripsRight (leftOver ++ [Event.poll ⟨1000, true, false, true⟩]) := by
  intro h
  obtain ⟨earlier, polls, heq, -, -, front, back, hback, -, htime⟩ :=
    (h leftOver (.poll ⟨1000, true, false, true⟩) (List.prefix_refl _)).1 (by decide)
  have heq' : leftOver.dropLast ++ Event.on :: [].map Event.poll =
      earlier ++ Event.on :: polls.map Event.poll := heq
  obtain rfl := polls_unique heq'
  have hsum := congrArg time hback
  change 1000 = time (front ++ back) at hsum
  rw [time_append] at hsum
  omega

end ShGateway.LoadSwitcher
