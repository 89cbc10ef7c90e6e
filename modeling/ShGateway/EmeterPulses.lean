import ShGateway.Fram
import ShGateway.Lib.Since

/-!
The pulses that `emeter.c` counts. The light of a pulse is an argument of a poll; the power
is left out.
-/

namespace ShGateway.EmeterPulses

open ShGateway.Fram
open ShGateway.Lib.ByteWords
open ShGateway.Lib.Since

def minPulseWidthMs : UInt32 := 11
def maxPulseWidthMs : UInt32 := 120
def debounceTimeMs : UInt32 := 15

/-- `offsetof(fram_entries_t, emeter_cnt)`. -/
def emeterCntOffset : UInt32 := 4

/-- The variables of `emeter.c` that count pulses, and the FRAM. -/
structure Emeter where
  pulseAcc : UInt32
  prevOn : Bool
  outSt : Bool
  prevOutSt : Bool
  pulseDebTim : UInt32
  pulseWidthTim : UInt32
  fram : Chip

/-- `emeter_init` before the first poll. -/
def emeterInit (pulseAccOld : UInt32) (fram : Chip) : Emeter :=
  ⟨pulseAccOld, false, false, false, 0, 0, fram⟩

structure Poll where
  diffMs : UInt32
  on : Bool

/-- The edges of the light. -/
def edges (s : Emeter) (on : Bool) : Emeter :=
  if on ∧ ¬ s.prevOn then { s with prevOn := true, pulseWidthTim := 0 }
  else if ¬ on ∧ s.prevOn then
    let pulseWidth := s.pulseWidthTim
    let s :=
      if pulseWidth ≥ minPulseWidthMs ∧ pulseWidth ≤ maxPulseWidthMs then
        { s with pulseDebTim := 0, outSt := true }
      else s
    { s with prevOn := false }
  else s

def release (s : Emeter) : Emeter :=
  if s.outSt ∧ s.pulseDebTim > debounceTimeMs then { s with outSt := false } else s

/-- The edges of `out_st`. -/
def count (s : Emeter) : Emeter :=
  let s :=
    if s.prevOutSt = false ∧ s.outSt then
      let pulseAcc := s.pulseAcc + 1
      { s with pulseAcc, fram := (framWrite emeterCntOffset (le32 pulseAcc.toNat) s.fram).2 }
    else s
  { s with prevOutSt := s.outSt }

def emeterPoll (s : Emeter) (p : Poll) : Emeter :=
  if p.diffMs = 0 then s
  else
    let s := count (release (edges s p.on))
    { s with
      pulseWidthTim := s.pulseWidthTim + p.diffMs
      pulseDebTim := s.pulseDebTim + p.diffMs }

def run (pulseAccOld : UInt32) (fram : Chip) (polls : List Poll) : Emeter :=
  polls.foldl emeterPoll (emeterInit pulseAccOld fram)

/-- `emeter_cnt` in the FRAM. -/
def emeterCnt (fram : Chip) : Nat := ofLe (fram.entry emeterCntOffset.toNat 4)

/-! ## Pulses -/

/-- The polls that have an effect. -/
def effective (polls : List Poll) : List Poll := polls.filter (·.diffMs ≠ 0)

def time (polls : List Poll) : Nat := (polls.map (·.diffMs.toNat)).sum

/-- The on-polls at the end of `h`. -/
def pulse (h : List Poll) : List Poll := h.rtakeWhile (·.on)

/-- After the polls `h` the poll `p` is the first off-poll of a valid pulse. -/
def ValidEnd (h : List Poll) (p : Poll) : Prop :=
  p.on = false ∧ pulse h ≠ [] ∧ 11 ≤ time (pulse h) ∧ time (pulse h) ≤ 120

/-- The poll `p` ends a valid pulse for which no valid pulse has ended before, or whose distance
to the latest one is more than the debounce time. -/
def Counted (h : List Poll) (p : Poll) : Prop :=
  ValidEnd h p ∧ (Never ValidEnd [] h ∨ ∃ earlier q later, Latest ValidEnd h earlier q later ∧
    15 < time (q :: later).dropLast)

/-- What the poll `p` does to the count after the effective polls `h`. -/
structure CountsPulses (h : List Poll) (s : Emeter) (p : Poll) : Prop where
  idle : p.diffMs = 0 → emeterPoll s p = s
  counted : p.diffMs ≠ 0 → Counted h p →
    (emeterPoll s p).pulseAcc = s.pulseAcc + 1 ∧
      emeterCnt (emeterPoll s p).fram = (emeterPoll s p).pulseAcc.toNat
  kept : p.diffMs ≠ 0 → ¬ Counted h p →
    (emeterPoll s p).pulseAcc = s.pulseAcc ∧ (emeterPoll s p).fram = s.fram

section

variable {h l : List Poll} {p : Poll}

instance (h : List Poll) : DecidablePred (ValidEnd h) :=
  fun p => inferInstanceAs (Decidable (p.on = false ∧ _))

theorem time_snoc : time (h ++ [p]) = time h + p.diffMs.toNat := by
  rw [time, List.map_append, List.sum_append]
  rfl

theorem time_le_of_suffix (hl : l <:+ h) : time l ≤ time h := by
  obtain ⟨front, rfl⟩ := hl
  rw [time, time, List.map_append, List.sum_append]
  exact Nat.le_add_left _ _

theorem time_dropLast_le : time h.dropLast ≤ time h := by
  rcases List.eq_nil_or_concat h with rfl | ⟨h, p, rfl⟩
  · exact Nat.le_refl _
  · rw [List.concat_eq_append, List.dropLast_concat, time_snoc]
    exact Nat.le_add_right _ _

theorem time_effective (polls : List Poll) : time (effective polls) = time polls := by
  induction polls with
  | nil => rfl
  | cons p polls ih =>
      rcases Classical.em (p.diffMs = 0) with hp | hp
      · rw [effective, List.filter_cons_of_neg (by simp [hp])]
        refine ih.trans ?_
        simp [time, hp]
      · rw [effective, List.filter_cons_of_pos (by simp [hp])]
        exact congrArg (p.diffMs.toNat + ·) ih

theorem time_le_of_front (hl : l <+: h) : time l ≤ time h := by
  obtain ⟨back, rfl⟩ := hl
  rw [time, time, List.map_append, List.sum_append]
  exact Nat.le_add_right _ _

theorem effective_snoc :
    effective (h ++ [p]) = if p.diffMs = 0 then effective h else effective h ++ [p] := by
  rcases Classical.em (p.diffMs = 0) with hp | hp
  · rw [if_pos hp, effective, List.filter_append, List.filter_cons_of_neg (by simp [hp])]
    exact List.append_nil _
  · rw [if_neg hp, effective, List.filter_append, List.filter_cons_of_pos (by simp [hp])]
    rfl

theorem pulse_suffix : pulse h <:+ h := List.rtakeWhile_suffix _ h

theorem pulse_snoc : pulse (h ++ [p]) = if p.on then pulse h ++ [p] else [] :=
  List.rtakeWhile_concat ..

end

/-! ## The timers and edges of a run -/

/-- The state after the effective polls `h`: a timer holds the time since its last reset. -/
structure Inv (h : List Poll) (s : Emeter) : Prop where
  prevOn : s.prevOn = true ↔ pulse h ≠ []
  width : pulse h ≠ [] → s.pulseWidthTim.toNat = time (pulse h)
  deb : ∀ t, since ValidEnd h = some t → s.pulseDebTim.toNat = time t
  outSt : s.outSt = true ↔ ∃ t, since ValidEnd h = some t ∧ time t.dropLast ≤ 15
  prevOutSt : s.prevOutSt = s.outSt

section

variable {h : List Poll} {s : Emeter} {p : Poll}

theorem edges_validEnd (hs : Inv h s) (hp : ValidEnd h p) :
    edges s p.on = { s with prevOn := false, pulseDebTim := 0, outSt := true } := by
  obtain ⟨hoff, hpulse, hmin, hmax⟩ := hp
  have hprevOn := hs.prevOn.mpr hpulse
  have hwidth := hs.width hpulse
  have hvalid : s.pulseWidthTim ≥ minPulseWidthMs ∧ s.pulseWidthTim ≤ maxPulseWidthMs :=
    ⟨UInt32.le_iff_toNat_le.mpr (hmin.trans_eq hwidth.symm),
      UInt32.le_iff_toNat_le.mpr (hwidth.trans_le hmax)⟩
  rw [edges, if_neg (by simp [hoff]), if_pos (by simp [hoff, hprevOn])]
  dsimp only
  rw [if_pos hvalid]

theorem edges_of_not (hs : Inv h s) (hp : ¬ ValidEnd h p) :
    ∃ width, edges s p.on = { s with prevOn := p.on, pulseWidthTim := width } ∧
      (p.on = true → width.toNat = time (pulse h)) := by
  cases hon : p.on with
  | true =>
      rcases Classical.em (pulse h = []) with hnil | hpulse
      · have hprev : s.prevOn = false := by
          rw [← Bool.not_eq_true, hs.prevOn]
          exact not_not.mpr hnil
        refine ⟨0, ?_, fun _ => ?_⟩
        · rw [edges, if_pos (by simp [hprev])]
        · rw [hnil]
          rfl
      · have hprev := hs.prevOn.mpr hpulse
        refine ⟨s.pulseWidthTim, ?_, fun _ => hs.width hpulse⟩
        rw [edges, if_neg (by simp [hprev]), if_neg (by simp)]
        rw [← hprev]
  | false =>
      refine ⟨s.pulseWidthTim, ?_, nofun⟩
      rw [edges, if_neg (by simp)]
      cases hprev : s.prevOn with
      | false =>
          rw [if_neg (by simp)]
          rw [← hprev]
      | true =>
          have hpulse := hs.prevOn.mp hprev
          have hwidth := hs.width hpulse
          rw [if_pos (by simp)]
          dsimp only
          rw [if_neg]
          rintro ⟨hmin, hmax⟩
          have hmin := UInt32.le_iff_toNat_le.mp hmin
          have hmax := UInt32.le_iff_toNat_le.mp hmax
          rw [hwidth] at hmin hmax
          exact hp ⟨hon, hpulse, hmin, hmax⟩

/-- Once `out_st` has been updated, it tells whether the poll before this one was within the
debounce time of the latest valid pulse. -/
theorem release_spec (hs : Inv h s) (p : Poll) :
    ∃ out deb width, release (edges s p.on) =
        ⟨s.pulseAcc, p.on, out, s.prevOutSt, deb, width, s.fram⟩ ∧
      (p.on = true → width.toNat = time (pulse h)) ∧
      (∀ t, since ValidEnd (h ++ [p]) = some t → deb.toNat = time t.dropLast) ∧
      (out = true ↔ ∃ t, since ValidEnd (h ++ [p]) = some t ∧ time t.dropLast ≤ 15) := by
  rw [since_snoc]
  rcases Classical.em (ValidEnd h p) with hp | hp
  · refine ⟨true, 0, s.pulseWidthTim, ?_, ?_, ?_, ?_⟩
    · rw [edges_validEnd hs hp, release, if_neg (by simp), hp.1]
    · intro hon
      exact absurd (hon.symm.trans hp.1) (by decide)
    · rw [if_pos hp]
      rintro t ⟨⟩
      rfl
    · rw [if_pos hp]
      exact iff_of_true rfl ⟨[p], rfl, Nat.zero_le 15⟩
  · obtain ⟨width, hedges, hwidth⟩ := edges_of_not hs hp
    have hdeb : ∀ t, (since ValidEnd h).map (· ++ [p]) = some t →
        s.pulseDebTim.toNat = time t.dropLast := by
      intro t ht
      obtain ⟨t, hsince, rfl⟩ := Option.map_eq_some_iff.mp ht
      rw [List.dropLast_concat]
      exact hs.deb t hsince
    have hout : s.outSt = true ∧ s.pulseDebTim ≤ debounceTimeMs ↔
        ∃ t, (since ValidEnd h).map (· ++ [p]) = some t ∧ time t.dropLast ≤ 15 := by
      constructor
      · rintro ⟨hset, hle⟩
        obtain ⟨t, hsince, -⟩ := hs.outSt.mp hset
        have hmap : (since ValidEnd h).map (· ++ [p]) = some (t ++ [p]) := by
          rw [hsince]
          rfl
        exact ⟨t ++ [p], hmap, (hdeb _ hmap).symm.trans_le (UInt32.le_iff_toNat_le.mp hle)⟩
      · rintro ⟨t, ht, hle⟩
        have hle' := (hdeb t ht).trans_le hle
        obtain ⟨t, hsince, rfl⟩ := Option.map_eq_some_iff.mp ht
        rw [List.dropLast_concat] at hle
        exact ⟨hs.outSt.mpr ⟨t, hsince, time_dropLast_le.trans hle⟩,
          UInt32.le_iff_toNat_le.mpr hle'⟩
    rw [if_neg hp, hedges, release]
    rcases Classical.em (s.outSt = true ∧ s.pulseDebTim > debounceTimeMs) with hover | hover
    · refine ⟨false, s.pulseDebTim, width, by rw [if_pos hover], hwidth, hdeb, ?_⟩
      rw [← hout]
      exact iff_of_false (by decide) fun h => absurd hover.2 (UInt32.not_lt.mpr h.2)
    · refine ⟨s.outSt, s.pulseDebTim, width, by rw [if_neg hover], hwidth, hdeb, ?_⟩
      rw [← hout]
      constructor
      · intro hset
        exact ⟨hset, UInt32.not_lt.mp fun hlt => hover ⟨hset, hlt⟩⟩
      · exact And.left

theorem rises_iff (hs : Inv h s) {out : Bool}
    (hout : out = true ↔ ∃ t, since ValidEnd (h ++ [p]) = some t ∧ time t.dropLast ≤ 15) :
    s.prevOutSt = false ∧ out = true ↔ Counted h p := by
  rw [Counted, ← forall_since_iff (Q := fun t => 15 < time t.dropLast), hs.prevOutSt,
    ← Bool.not_eq_true, hs.outSt, hout, since_snoc]
  constructor
  · rintro ⟨hlow, t, ht, hle⟩
    have hp : ValidEnd h p := by
      rcases Classical.em (ValidEnd h p) with hp | hp
      · exact hp
      · rw [if_neg hp] at ht
        obtain ⟨t, hsince, rfl⟩ := Option.map_eq_some_iff.mp ht
        rw [List.dropLast_concat] at hle
        exact absurd ⟨t, hsince, time_dropLast_le.trans hle⟩ hlow
    exact ⟨hp, fun t ht => Nat.not_le.mp fun hle => hlow ⟨t, ht, hle⟩⟩
  · rintro ⟨hp, hlate⟩
    rw [if_pos hp]
    refine ⟨?_, [p], rfl, Nat.zero_le 15⟩
    rintro ⟨t, ht, hle⟩
    exact absurd (hlate t ht) (Nat.not_lt.mpr hle)

/-- What a poll with an effect does. -/
theorem emeterPoll_spec (hs : Inv h s) (hp : p.diffMs ≠ 0) (htime : time (h ++ [p]) < 2 ^ 32) :
    Inv (h ++ [p]) (emeterPoll s p) ∧
      (Counted h p → (emeterPoll s p).pulseAcc = s.pulseAcc + 1 ∧
        emeterCnt (emeterPoll s p).fram = (emeterPoll s p).pulseAcc.toNat) ∧
      (¬ Counted h p →
        (emeterPoll s p).pulseAcc = s.pulseAcc ∧ (emeterPoll s p).fram = s.fram) := by
  obtain ⟨out, deb, width, hrelease, hwidth, hdeb, hout⟩ := release_spec hs p
  have hrises := rises_iff hs hout
  have hpoll : ∃ acc fram, emeterPoll s p =
        ⟨acc, p.on, out, out, deb + p.diffMs, width + p.diffMs, fram⟩ ∧
      (Counted h p → acc = s.pulseAcc + 1 ∧ emeterCnt fram = acc.toNat) ∧
      (¬ Counted h p → acc = s.pulseAcc ∧ fram = s.fram) := by
    rw [emeterPoll, if_neg hp, hrelease, count]
    dsimp only
    rcases Classical.em (s.prevOutSt = false ∧ out = true) with hrise | hrise
    · refine ⟨_, _, by rw [if_pos hrise], fun _ => ⟨rfl, ?_⟩, fun h => absurd (hrises.mp hrise) h⟩
      have hentry := @framWrite_entry s.fram emeterCntOffset (le32 (s.pulseAcc + 1).toNat)
        (by rw [le32_length]; decide)
      rw [le32_length] at hentry
      rw [emeterCnt, hentry, ofLe_le32 (UInt32.toNat_lt _)]
    · refine ⟨_, _, by rw [if_neg hrise], fun h => absurd (hrises.mpr h) hrise, fun _ => ⟨rfl, rfl⟩⟩
  obtain ⟨acc, fram, hpoll, hcounted, hkept⟩ := hpoll
  rw [hpoll]
  refine ⟨?_, hcounted, hkept⟩
  have hbound := time_snoc ▸ htime
  constructor
  · rw [pulse_snoc]
    cases p.on with
    | true => exact iff_of_true rfl (List.concat_ne_nil _ _)
    | false => exact iff_of_false Bool.false_ne_true fun h => h rfl
  · rw [pulse_snoc]
    intro hpulse
    have hon : p.on = true := by
      rw [← Bool.not_eq_false]
      intro hoff
      rw [hoff] at hpulse
      exact hpulse rfl
    have hle := time_le_of_suffix (pulse_suffix (h := h))
    rw [if_pos hon, time_snoc, UInt32.toNat_add, hwidth hon]
    exact Nat.mod_eq_of_lt (by omega)
  · intro t ht
    have hlast := since_snoc_last ht
    have hle := time_le_of_suffix (since_suffix ht)
    rw [hlast, time_snoc] at hle
    rw [UInt32.toNat_add, hdeb t ht, hlast, time_snoc, List.dropLast_concat]
    exact Nat.mod_eq_of_lt (by omega)
  · exact hout
  · rfl

end

section

variable (pulseAccOld : UInt32) (fram : Chip)

theorem run_snoc (polls : List Poll) (p : Poll) :
    run pulseAccOld fram (polls ++ [p]) = emeterPoll (run pulseAccOld fram polls) p := by
  rw [run, List.foldl_append]
  rfl

theorem emeterPoll_idle {s : Emeter} {p : Poll} (hp : p.diffMs = 0) : emeterPoll s p = s :=
  if_pos hp

theorem run_inv {polls : List Poll} (htime : time polls < 2 ^ 32) :
    Inv (effective polls) (run pulseAccOld fram polls) := by
  induction polls using List.reverseRecOn with
  | nil =>
      constructor
      · exact iff_of_false Bool.false_ne_true fun h => h rfl
      · exact fun h => absurd rfl h
      · exact nofun
      · exact iff_of_false Bool.false_ne_true nofun
      · rfl
  | append_singleton polls p ih =>
      have hinv := ih ((time_le_of_front (List.prefix_append polls [p])).trans_lt htime)
      rw [run_snoc, effective_snoc]
      rcases Classical.em (p.diffMs = 0) with hp | hp
      · rw [if_pos hp, emeterPoll_idle hp]
        exact hinv
      · rw [if_neg hp]
        refine (emeterPoll_spec hinv hp ?_).1
        rwa [time_snoc, time_effective, ← time_snoc]

/-- In every run the pulses are counted as they should be, at each poll. -/
theorem run_countsPulses (polls : List Poll) (p : Poll) (htime : time (polls ++ [p]) < 2 ^ 32) :
    CountsPulses (effective polls) (run pulseAccOld fram polls) p := by
  have hinv := run_inv pulseAccOld fram
    ((time_le_of_front (List.prefix_append polls [p])).trans_lt htime)
  have htime' : time (effective polls ++ [p]) < 2 ^ 32 := by
    rwa [time_snoc, time_effective, ← time_snoc]
  constructor
  · exact emeterPoll_idle
  · exact fun hp => (emeterPoll_spec hinv hp htime').2.1
  · exact fun hp => (emeterPoll_spec hinv hp htime').2.2

end

/-- Two pulses of 20 ms with 10 ms between them. -/
def twoPulses : List Poll := [⟨20, true⟩, ⟨10, false⟩, ⟨20, true⟩]

theorem twoPulses_countsPulses : CountsPulses (effective twoPulses)
    (run 0 ⟨fun _ => 0, false⟩ twoPulses) ⟨10, false⟩ :=
  run_countsPulses 0 _ twoPulses ⟨10, false⟩ (by decide)

end ShGateway.EmeterPulses
