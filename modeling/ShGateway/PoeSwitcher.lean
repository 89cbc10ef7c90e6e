import ShGateway.MainsSense

/-!
The PoE channels of `poe_switcher.c`, their switching by the console and by the mains sensing of
`main`, and their protection. The comparisons of the two current sensors with 1 A are arguments of
a poll.
-/

namespace ShGateway.PoeSwitcher

open ShGateway.Lib.Runs

/-- `NUM_CH` channels. -/
abbrev Channel := Fin 8

/-- The sensor of a channel. -/
def adcIdx (i : Channel) : Nat := if i.val ≤ 1 then 0 else 1

/-- The channels that are on and the levels of their pins, the mask of the configured channels,
and the level of the mains at the last turn of the main loop. -/
structure Poe where
  on : Channel → Bool := fun _ => false
  pin : Channel → Bool := fun _ => false
  cfgPoeSwChnlBits : UInt32 := 0
  prevMainsSw0 : Bool := false

def Poe.configured (s : Poe) (i : Channel) : Prop :=
  s.cfgPoeSwChnlBits &&& (1 <<< UInt32.ofNat i) ≠ 0

instance (s : Poe) : DecidablePred s.configured := fun _ => inferInstanceAs (Decidable (_ ≠ _))

def poeSwitcherOn (s : Poe) (ch : UInt8) : Poe :=
  if h : ch.toNat < 8 then
    { s with
      on := Function.update s.on ⟨ch.toNat, h⟩ true
      pin := Function.update s.pin ⟨ch.toNat, h⟩ true }
  else s

def poeSwitcherOff (s : Poe) (ch : UInt8) : Poe :=
  if h : ch.toNat < 8 then
    { s with
      on := Function.update s.on ⟨ch.toNat, h⟩ false
      pin := Function.update s.pin ⟨ch.toNat, h⟩ false }
  else s

/-- The turn of the loop for a channel. -/
def poeSwitcherPollChannel (fault : Nat → Bool) (s : Poe) (i : Channel) : Poe :=
  if s.configured i then
    if fault (adcIdx i) then poeSwitcherOff s (UInt8.ofNat i) else s
  else s

def poeSwitcherPoll (s : Poe) (fault : Nat → Bool) : Poe :=
  (List.finRange 8).foldl (poeSwitcherPollChannel fault) s

/-- `cfg_poe_sw_cb` with its two numbers. -/
def cfgPoeSwCb (s : Poe) (ch en : UInt32) : Poe :=
  if ch < 32 then { s with cfgPoeSwChnlBits := MainsSense.bitWr s.cfgPoeSwChnlBits ch en } else s

/-- `poe_sw_cb` with its two numbers. -/
def poeSwCb (s : Poe) (ch en : UInt32) : Poe :=
  if en ≠ 0 then poeSwitcherOn s ch.toUInt8 else poeSwitcherOff s ch.toUInt8

/-- The turn of the main loop in which channel 0 follows the mains. -/
def mainsFollow (s : Poe) (mainsSenseIsOn : Bool) : Poe :=
  let s' :=
    if s.prevMainsSw0 ≠ mainsSenseIsOn then
      if mainsSenseIsOn then poeSwitcherOn s 0 else poeSwitcherOff s 0
    else s
  { s' with prevMainsSw0 := mainsSenseIsOn }

inductive Event
  | poeSw (ch en : UInt32)
  | cfgPoeSw (ch en : UInt32)
  | loadConfig (mask : UInt32)
  | mains (mainsSenseIsOn : Bool)
  | poll (fault : Nat → Bool)

def step (s : Poe) : Event → Poe
  | .poeSw ch en => poeSwCb s ch en
  | .cfgPoeSw ch en => cfgPoeSwCb s ch en
  | .loadConfig mask => { s with cfgPoeSwChnlBits := mask }
  | .mains mainsSenseIsOn => mainsFollow s mainsSenseIsOn
  | .poll fault => poeSwitcherPoll s fault

def run (events : List Event) : Poe := events.foldl step {}

/-! ## A poll -/

section

variable {s : Poe} {fault : Nat → Bool} {i : Channel}

theorem pollChannel_eq (s : Poe) (i : Channel) :
    poeSwitcherPollChannel fault s i =
      if s.configured i ∧ fault (adcIdx i) = true then
        { s with on := Function.update s.on i false, pin := Function.update s.pin i false }
      else s := by
  have hoff : poeSwitcherOff s (UInt8.ofNat i) =
      { s with on := Function.update s.on i false, pin := Function.update s.pin i false } := by
    have hch : (UInt8.ofNat i).toNat = i := UInt8.toNat_ofNat_of_lt' (by rw [UInt8.size]; omega)
    simp only [poeSwitcherOff, hch, i.isLt, dite_true, Fin.eta]
  rw [poeSwitcherPollChannel, hoff, ← ite_and]

theorem configured_congr {s' : Poe} (h : s'.cfgPoeSwChnlBits = s.cfgPoeSwChnlBits) :
    s'.configured i ↔ s.configured i := by
  rw [Poe.configured, Poe.configured, h]

theorem pollChannels_on (is : List Channel) (s : Poe) :
    (is.foldl (poeSwitcherPollChannel fault) s).cfgPoeSwChnlBits = s.cfgPoeSwChnlBits ∧
      ∀ i, (is.foldl (poeSwitcherPollChannel fault) s).on i = true ↔
        s.on i = true ∧ ¬ (i ∈ is ∧ s.configured i ∧ fault (adcIdx i) = true) := by
  induction is using List.reverseRecOn with
  | nil => exact ⟨rfl, fun i => (and_iff_left fun h => List.not_mem_nil h.1).symm⟩
  | append_singleton is j ih =>
      obtain ⟨hbits, hon⟩ := ih
      rw [List.foldl_append, List.foldl_cons, List.foldl_nil, pollChannel_eq]
      generalize is.foldl (poeSwitcherPollChannel fault) s = s' at hbits hon
      constructor
      · split_ifs
        · exact hbits
        · exact hbits
      · intro i
        rw [List.mem_append, List.mem_singleton]
        split_ifs with hj
        · rcases eq_or_ne i j with rfl | hne
          · rw [configured_congr hbits] at hj
            refine iff_of_false ?_ fun h => h.2 ⟨.inr rfl, hj⟩
            change ¬ Function.update s'.on i false i = true
            rw [Function.update_self]
            decide
          · change Function.update s'.on j false i = true ↔ _
            rw [Function.update_of_ne hne, hon, or_iff_left hne]
        · rw [hon]
          refine and_congr_right' (not_congr (and_congr_left fun hi => ?_))
          refine (or_iff_left ?_).symm
          rintro rfl
          exact hj ⟨(configured_congr hbits).mpr hi.1, hi.2⟩

theorem poll_on (s : Poe) (i : Channel) :
    (poeSwitcherPoll s fault).on i = true ↔
      s.on i = true ∧ ¬ (s.configured i ∧ fault (adcIdx i) = true) := by
  rw [poeSwitcherPoll, (pollChannels_on _ s).2, and_iff_right (List.mem_finRange i)]

end

/-! ## Protection -/

/-- After a poll no channel over the limit is on. -/
def Protected (h : List Event) : Event → Prop
  | .poll fault => ∀ i, fault (adcIdx i) = true → (step (run h) (.poll fault)).on i ≠ true
  | _ => True

/-- A poll finds all channels that are on and over the limit in the mask. -/
def Covered (h : List Event) : Event → Prop
  | .poll fault => ∀ i, fault (adcIdx i) = true → (run h).on i = true → (run h).configured i
  | _ => True

theorem protected_iff_covered (events : List Event) :
    AtEach Protected events ↔ AtEach Covered events := by
  refine atEach_iff (fun pre e _ => ?_) events
  cases e with
  | poll fault =>
      refine forall_congr' fun i => forall_congr' fun hfault => ?_
      rw [step, Ne, poll_on, not_and, not_not]
      exact imp_congr_right fun _ => and_iff_left hfault
  | poeSw ch en => exact Iff.rfl
  | cfgPoeSw ch en => exact Iff.rfl
  | loadConfig mask => exact Iff.rfl
  | mains mainsSenseIsOn => exact Iff.rfl

/-! ## Channels in the mask -/

/-- Only channels in the mask are switched on, and they stay in it while they are on. -/
def Respects (h : List Event) : Event → Prop
  | .poeSw ch en => en ≠ 0 → ∀ i : Channel, i.val = ch.toUInt8.toNat → (run h).configured i
  | .mains mainsSenseIsOn =>
      mainsSenseIsOn = true → ∀ i : Channel, i.val = 0 → (run h).configured i
  | .cfgPoeSw ch en => ∀ i, (run h).on i = true → (step (run h) (.cfgPoeSw ch en)).configured i
  | .loadConfig mask =>
      ∀ i, (run h).on i = true → (step (run h) (.loadConfig mask)).configured i
  | .poll _ => True

def OnConfigured (s : Poe) : Prop := ∀ i, s.on i = true → s.configured i

section

variable {s : Poe} {ch : UInt8} {i : Channel}

theorem onConfigured_on (hs : OnConfigured s)
    (hch : ∀ i : Channel, i.val = ch.toNat → s.configured i) :
    OnConfigured (poeSwitcherOn s ch) := by
  intro i hon
  rw [poeSwitcherOn] at hon ⊢
  split_ifs at hon ⊢ with hlt
  · rcases eq_or_ne i ⟨ch.toNat, hlt⟩ with rfl | hne
    · exact hch _ rfl
    · refine hs i ?_
      change Function.update s.on _ true i = true at hon
      rwa [Function.update_of_ne hne] at hon
  · exact hs i hon

theorem onConfigured_off (hs : OnConfigured s) : OnConfigured (poeSwitcherOff s ch) := by
  intro i hon
  rw [poeSwitcherOff] at hon ⊢
  split_ifs at hon ⊢ with hlt
  · refine hs i ?_
    change Function.update s.on _ false i = true at hon
    rcases eq_or_ne i ⟨ch.toNat, hlt⟩ with rfl | hne
    · rw [Function.update_self] at hon
      cases hon
    · rwa [Function.update_of_ne hne] at hon
  · exact hs i hon

theorem onConfigured_poll (hs : OnConfigured s) (fault : Nat → Bool) :
    OnConfigured (poeSwitcherPoll s fault) := by
  intro i hon
  exact (configured_congr (pollChannels_on _ s).1).mpr (hs i ((poll_on s i).mp hon).1)

theorem run_onConfigured {events : List Event} (hevents : AtEach Respects events) :
    OnConfigured (run events) := by
  refine foldl_invariant (fun _ s => OnConfigured s) ?_ ?_ hevents
  · intro i hon
    cases hon
  · intro h e hs hrespects
    change OnConfigured (run h) at hs
    change OnConfigured (step (run h) e)
    cases e with
    | poeSw ch en =>
        rw [step, poeSwCb]
        split_ifs with hen
        · exact onConfigured_on hs (hrespects hen)
        · exact onConfigured_off hs
    | mains mainsSenseIsOn =>
        have hturn : OnConfigured
            (if (run h).prevMainsSw0 ≠ mainsSenseIsOn then
              if mainsSenseIsOn then poeSwitcherOn (run h) 0 else poeSwitcherOff (run h) 0
            else run h) := by
          split_ifs with hchange hrising
          · exact onConfigured_on hs (hrespects hrising)
          · exact onConfigured_off hs
          · exact hs
        exact hturn
    | cfgPoeSw ch en =>
        intro i hon
        refine hrespects i ?_
        rw [step, cfgPoeSwCb] at hon
        split_ifs at hon
        · exact hon
        · exact hon
    | loadConfig mask => exact hrespects
    | poll fault => exact onConfigured_poll hs fault

end

/-- The polls of a run protect all channels exactly if the mask has each channel that is on and
over the limit. It does if only channels in the mask are switched on and none leaves it while it
is on. -/
theorem protected_iff (events : List Event) :
    (AtEach Protected events ↔ AtEach Covered events) ∧
      (AtEach Respects events → AtEach Protected events) := by
  refine ⟨protected_iff_covered events, fun hevents => ?_⟩
  refine (protected_iff_covered events).mpr fun h e hpre => ?_
  have hh := (List.prefix_append h [e]).trans hpre
  have hs := run_onConfigured (hevents.of_prefix hh)
  cases e with
  | poll fault => exact fun i _ hon => hs i hon
  | _ => trivial

/-- Channel 0 follows the mains while the mask has no channel. -/
theorem not_protected_mains :
    ¬ AtEach Protected ([.mains true] ++ [.poll fun _ => true]) := by
  intro h
  exact h [.mains true] (.poll fun _ => true) (List.prefix_refl _) ⟨0, by decide⟩ rfl rfl

end ShGateway.PoeSwitcher
