import ShGateway.Lib.RegisterBits
import ShGateway.Lib.Runs

/-!
The link callback of `netconf.c` and the configuration register of the MAC.
-/

namespace ShGateway.EthLink

open ShGateway.Lib.RegisterBits
open ShGateway.Lib.Runs

def ethMaccrFes : UInt32 := 0x00004000
def ethMaccrDm : UInt32 := 0x00000800
def ethMaccrTe : UInt32 := 0x00000008
def ethMaccrRe : UInt32 := 0x00000004

def ethSpeed10M : UInt32 := 0x00000000
def ethSpeed100M : UInt32 := 0x00004000
def ethModeHalfDuplex : UInt32 := 0x00000000
def ethModeFullDuplex : UInt32 := 0x00000800

def phySpeedStatus : UInt32 := 0x0004
def phyDuplexStatus : UInt32 := 0x0010

/-- The register, and the fields of `ETH_InitStructure` that the callback uses. -/
structure Eth where
  maccr : UInt32
  autoNegotiation : Bool
  ethSpeed : UInt32
  ethMode : UInt32

def ethStart (s : Eth) : Eth :=
  let s := { s with maccr := s.maccr ||| ethMaccrTe }
  { s with maccr := s.maccr ||| ethMaccrRe }

def ethStop (s : Eth) : Eth :=
  let s := { s with maccr := s.maccr &&& ~~~ethMaccrRe }
  { s with maccr := s.maccr &&& ~~~ethMaccrTe }

/-- The mode that the status register of the PHY reports. -/
def negotiatedMode (regVal : UInt32) : UInt32 :=
  if regVal &&& phyDuplexStatus ≠ 0 then ethModeFullDuplex else ethModeHalfDuplex

def negotiatedSpeed (regVal : UInt32) : UInt32 :=
  if regVal &&& phySpeedStatus ≠ 0 then ethSpeed10M else ethSpeed100M

/-- The link goes up, with the status register of the PHY at the end of the negotiation, or
down. -/
inductive Event
  | up (regVal : UInt32)
  | down

def cbEthLink (s : Eth) : Event → Eth
  | .up regVal =>
      let s :=
        if s.autoNegotiation then
          let s := { s with ethMode := negotiatedMode regVal, ethSpeed := negotiatedSpeed regVal }
          { s with maccr := s.maccr ||| (s.ethSpeed ||| s.ethMode) }
        else s
      ethStart s
  | .down => ethStop s

/-- What `eth_board_config` leaves: the negotiation is enabled. -/
def ethBoardConfig (maccr ethSpeed ethMode : UInt32) : Eth := ⟨maccr, true, ethSpeed, ethMode⟩

def run (start : Eth) (events : List Event) : Eth := events.foldl cbEthLink start

/-! ## The register after the link has gone up -/

/-- The bits that neither the negotiation nor starting and stopping the MAC is about. -/
def otherBits : UInt32 := ~~~(ethMaccrFes ||| ethMaccrDm ||| ethMaccrTe ||| ethMaccrRe)

/-- The register `maccr` follows the negotiation. -/
structure Follows (start : Eth) (regVal maccr : UInt32) : Prop where
  speed : maccr &&& ethMaccrFes = negotiatedSpeed regVal
  mode : maccr &&& ethMaccrDm = negotiatedMode regVal
  other : maccr &&& otherBits = start.maccr &&& otherBits

def FollowsLink (start : Eth) (h : List Event) : Event → Prop
  | .up regVal => Follows start regVal (cbEthLink (run start h) (.up regVal)).maccr
  | .down => True

/-- The speed and the duplex mode are not set unless they are negotiated again. -/
def SetAgain (start : Eth) (h : List Event) : Event → Prop
  | .up regVal =>
      ((run start h).maccr &&& ethMaccrFes ≠ 0 → negotiatedSpeed regVal = ethSpeed100M) ∧
        ((run start h).maccr &&& ethMaccrDm ≠ 0 → negotiatedMode regVal = ethModeFullDuplex)
  | .down => True

/-- A bit was set before the first link-up, or one of the link-ups negotiated it. -/
def WasSet (start : Eth) (h : List Event) (bit : UInt32) (negotiated : UInt32 → UInt32) : Prop :=
  start.maccr &&& bit ≠ 0 ∨ ∃ regVal, .up regVal ∈ h ∧ negotiated regVal = bit

/-- What was negotiated once is negotiated again. -/
def NegotiatedAgain (start : Eth) (h : List Event) : Event → Prop
  | .up regVal =>
      (WasSet start h ethMaccrFes negotiatedSpeed → negotiatedSpeed regVal = ethSpeed100M) ∧
        (WasSet start h ethMaccrDm negotiatedMode → negotiatedMode regVal = ethModeFullDuplex)
  | .down => True

section

variable {start s : Eth} {h : List Event} {regVal : UInt32}

theorem cbEthLink_up (hs : s.autoNegotiation = true) :
    (cbEthLink s (.up regVal)).maccr =
      s.maccr ||| (negotiatedSpeed regVal ||| negotiatedMode regVal) ||| ethMaccrTe |||
        ethMaccrRe := by
  rw [cbEthLink]
  dsimp only
  rw [if_pos hs]
  rfl

theorem negotiated_cases (regVal : UInt32) :
    (negotiatedSpeed regVal = 0 ∨ negotiatedSpeed regVal = ethMaccrFes) ∧
      (negotiatedMode regVal = 0 ∨ negotiatedMode regVal = ethMaccrDm) := by
  rw [negotiatedSpeed, negotiatedMode]
  constructor
  · split_ifs
    · exact .inl rfl
    · exact .inr rfl
  · split_ifs
    · exact .inr rfl
    · exact .inl rfl

/-- After the link has gone up, the bits it does not negotiate or start are as before, and the
others have been set. -/
theorem follows_up_iff (hs : s.autoNegotiation = true)
    (hother : s.maccr &&& otherBits = start.maccr &&& otherBits) :
    Follows start regVal (cbEthLink s (.up regVal)).maccr ↔
      (s.maccr &&& ethMaccrFes ≠ 0 → negotiatedSpeed regVal = ethSpeed100M) ∧
        (s.maccr &&& ethMaccrDm ≠ 0 → negotiatedMode regVal = ethModeFullDuplex) := by
  obtain ⟨hspeed, hmode⟩ := negotiated_cases regVal
  have hand : ∀ m, ethMaccrTe &&& m = 0 → ethMaccrRe &&& m = 0 →
      (cbEthLink s (.up regVal)).maccr &&& m =
        s.maccr &&& m ||| (negotiatedSpeed regVal &&& m ||| negotiatedMode regVal &&& m) := by
    intro m hte hre
    rw [cbEthLink_up hs, or_and_of_disjoint _ hre, or_and_of_disjoint _ hte, or_and, or_and]
  have hspeedBits : negotiatedSpeed regVal &&& ethMaccrFes = negotiatedSpeed regVal ∧
      negotiatedSpeed regVal &&& ethMaccrDm = 0 ∧ negotiatedSpeed regVal &&& otherBits = 0 := by
    rcases hspeed with h | h
    · rw [h]
      decide
    · rw [h]
      decide
  have hmodeBits : negotiatedMode regVal &&& ethMaccrDm = negotiatedMode regVal ∧
      negotiatedMode regVal &&& ethMaccrFes = 0 ∧ negotiatedMode regVal &&& otherBits = 0 := by
    rcases hmode with h | h
    · rw [h]
      decide
    · rw [h]
      decide
  have hfes := hand ethMaccrFes (by decide) (by decide)
  have hdm := hand ethMaccrDm (by decide) (by decide)
  have hrest := hand otherBits (by decide) (by decide)
  rw [hspeedBits.1, hmodeBits.2.1, UInt32.or_zero] at hfes
  rw [hspeedBits.2.1, hmodeBits.1, UInt32.zero_or] at hdm
  rw [hspeedBits.2.2, hmodeBits.2.2, UInt32.or_zero, UInt32.or_zero, hother] at hrest
  have hfesIff := or_eq_iff s.maccr (m := ethMaccrFes) (i := 14) rfl hspeed
  have hdmIff := or_eq_iff s.maccr (m := ethMaccrDm) (i := 11) rfl hmode
  rw [← hfes] at hfesIff
  rw [← hdm] at hdmIff
  constructor
  · intro h
    exact ⟨hfesIff.mp h.speed, hdmIff.mp h.mode⟩
  · rintro ⟨hfes', hdm'⟩
    exact ⟨hfesIff.mpr hfes', hdmIff.mpr hdm', hrest⟩

theorem run_other (hstart : start.autoNegotiation = true) (events : List Event) :
    (run start events).autoNegotiation = true ∧
      (run start events).maccr &&& otherBits = start.maccr &&& otherBits := by
  induction events using List.reverseRecOn with
  | nil => exact ⟨hstart, rfl⟩
  | append_singleton events e ih =>
      obtain ⟨hauto, hother⟩ := ih
      rw [run, List.foldl_append, List.foldl_cons, List.foldl_nil]
      change (cbEthLink (run start events) e).autoNegotiation = true ∧
        (cbEthLink (run start events) e).maccr &&& otherBits = _
      generalize run start events = s at hauto hother
      cases e with
      | up regVal =>
          refine ⟨?_, ?_⟩
          · rw [cbEthLink]
            dsimp only
            rw [if_pos hauto]
            exact hauto
          · obtain ⟨hspeed, hmode⟩ := negotiated_cases regVal
            have hbits : (negotiatedSpeed regVal ||| negotiatedMode regVal) &&& otherBits = 0 := by
              rcases hspeed with hspeed | hspeed <;> rcases hmode with hmode | hmode <;>
                rw [hspeed, hmode] <;> decide
            rw [cbEthLink_up hauto, or_and_of_disjoint _ (by decide),
              or_and_of_disjoint _ (by decide), or_and_of_disjoint _ hbits]
            exact hother
      | down =>
          refine ⟨hauto, ?_⟩
          have hre : ~~~ethMaccrRe &&& otherBits = otherBits := by decide
          have hte : ~~~ethMaccrTe &&& otherBits = otherBits := by decide
          change s.maccr &&& ~~~ethMaccrRe &&& ~~~ethMaccrTe &&& otherBits = _
          rw [UInt32.and_assoc, hte, UInt32.and_assoc, hre]
          exact hother

/-- A bit that the negotiation sets stays set. -/
theorem wasSet_iff (hstart : start.autoNegotiation = true) {bit : UInt32}
    {negotiated : UInt32 → UInt32} (hbit : bit ≠ 0)
    (hnegotiated : ∀ regVal, negotiated regVal = 0 ∨ negotiated regVal = bit)
    (hbits : ∀ regVal, (negotiatedSpeed regVal ||| negotiatedMode regVal) &&& bit =
      negotiated regVal)
    (hother : ethMaccrTe &&& bit = 0 ∧ ethMaccrRe &&& bit = 0 ∧ ~~~ethMaccrTe &&& bit = bit ∧
      ~~~ethMaccrRe &&& bit = bit) (h : List Event) :
    (run start h).maccr &&& bit ≠ 0 ↔ WasSet start h bit negotiated := by
  obtain ⟨hte, hre, hnotTe, hnotRe⟩ := hother
  induction h using List.reverseRecOn with
  | nil => simp [run, WasSet]
  | append_singleton h e ih =>
      have hauto := (run_other hstart h).1
      have hmem : WasSet start (h ++ [e]) bit negotiated ↔
          WasSet start h bit negotiated ∨ ∃ regVal, e = .up regVal ∧ negotiated regVal = bit := by
        simp only [WasSet, List.mem_append, List.mem_singleton, or_and_right, exists_or, or_assoc,
          eq_comm]
      rw [hmem, ← ih, run, List.foldl_append, List.foldl_cons, List.foldl_nil, ← run]
      cases e with
      | up regVal =>
          have hset : (∃ r, Event.up regVal = .up r ∧ negotiated r = bit) ↔
              negotiated regVal ≠ 0 := by
            constructor
            · rintro ⟨r, heq, hr⟩
              obtain rfl := Event.up.inj heq
              rwa [hr]
            · exact fun hne => ⟨regVal, rfl, (hnegotiated regVal).resolve_left hne⟩
          rw [hset, cbEthLink_up hauto, or_and_of_disjoint _ hre, or_and_of_disjoint _ hte, or_and,
            hbits, Ne, UInt32.or_eq_zero_iff, not_and_or]
      | down =>
          have hsame : (cbEthLink (run start h) .down).maccr &&& bit =
              (run start h).maccr &&& bit := by
            change (run start h).maccr &&& ~~~ethMaccrRe &&& ~~~ethMaccrTe &&& bit = _
            rw [UInt32.and_assoc, hnotTe, UInt32.and_assoc, hnotRe]
          rw [hsame]
          exact (or_iff_left fun ⟨_, heq, _⟩ => nomatch heq).symm

theorem setAgain_iff (hstart : start.autoNegotiation = true) (h : List Event) (e : Event) :
    SetAgain start h e ↔ NegotiatedAgain start h e := by
  have hspeed : ∀ regVal, (negotiatedSpeed regVal ||| negotiatedMode regVal) &&& ethMaccrFes =
      negotiatedSpeed regVal := by
    intro regVal
    obtain ⟨hs | hs, hm | hm⟩ := negotiated_cases regVal <;> rw [hs, hm] <;> decide
  have hmode : ∀ regVal, (negotiatedSpeed regVal ||| negotiatedMode regVal) &&& ethMaccrDm =
      negotiatedMode regVal := by
    intro regVal
    obtain ⟨hs | hs, hm | hm⟩ := negotiated_cases regVal <;> rw [hs, hm] <;> decide
  cases e with
  | up regVal =>
      rw [SetAgain, NegotiatedAgain,
        wasSet_iff hstart (by decide) (fun r => (negotiated_cases r).1) hspeed (by decide),
        wasSet_iff hstart (by decide) (fun r => (negotiated_cases r).2) hmode (by decide)]
  | down => exact Iff.rfl

/-- The register follows the negotiation at every link-up of a run exactly if a speed of 100 Mbit/s
and the full-duplex mode are always negotiated again once they are set, that is, once they were
negotiated or if they were set from the start. -/
theorem followsLink_iff (maccr ethSpeed ethMode : UInt32) (events : List Event) :
    (AtEach (FollowsLink (ethBoardConfig maccr ethSpeed ethMode)) events ↔
        AtEach (SetAgain (ethBoardConfig maccr ethSpeed ethMode)) events) ∧
      (AtEach (FollowsLink (ethBoardConfig maccr ethSpeed ethMode)) events ↔
        AtEach (NegotiatedAgain (ethBoardConfig maccr ethSpeed ethMode)) events) := by
  have hiff : AtEach (FollowsLink (ethBoardConfig maccr ethSpeed ethMode)) events ↔
      AtEach (SetAgain (ethBoardConfig maccr ethSpeed ethMode)) events := by
    refine atEach_iff (fun h e _ => ?_) events
    obtain ⟨hauto, hother⟩ := @run_other (ethBoardConfig maccr ethSpeed ethMode) rfl h
    cases e with
    | up regVal => exact follows_up_iff hauto hother
    | down => exact Iff.rfl
  exact ⟨hiff, hiff.trans (atEach_iff (fun h e _ => setAgain_iff rfl h e) events)⟩

end

/-- A full-duplex partner at 100 Mbit/s, and then a half-duplex one at 10 Mbit/s. -/
theorem not_followsLink_half :
    ¬ AtEach (FollowsLink (ethBoardConfig 0 0 0)) ([.up 0x0018, .down] ++ [.up 0x0004]) := by
  intro h
  have hspeed := (h [.up 0x0018, .down] (.up 0x0004) (List.prefix_refl _)).speed
  exact absurd hspeed (by decide)

end ShGateway.EthLink
