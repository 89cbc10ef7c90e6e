import ShGateway.Lib.RegisterBits

/-!
The bit timing that `can_drv_check_set_bitrate` finds, and the register it sets.
-/

namespace ShGateway.CanBitrate

open ShGateway.Lib.RegisterBits

def fOscCan : Int := 42000000

/-- The prescaler and the two segments of a bit after its first quantum. -/
structure Timing where
  brp : Int
  tseg1 : Int
  tseg2 : Int
deriving DecidableEq, Repr

/-- The prescalers from `brp` on, `n` of them: the first that meets the rate, with the number of
time quanta. -/
def findBrp (bitRate : Int) : Nat → Int → Option (Int × Int)
  | 0, _ => none
  | n + 1, brp =>
      let tqs := (fOscCan.tdiv brp).tdiv bitRate
      if tqs ≥ 5 ∧ tqs ≤ 16 ∧ (fOscCan.tdiv brp).tdiv tqs = bitRate then some (brp, tqs)
      else findBrp bitRate n (brp + 1)

/-- The quanta of a bit divided between `tseg1` and `tseg2`. -/
def segments (tqs : Int) : Int × Int :=
  let tseg2 := (tqs - 1).tdiv 2
  let tseg1 := if tqs - (1 + tseg2 + tseg2) = 1 then tseg2 + 1 else tseg2
  if tseg2 > 8 then (tseg1 + (tseg2 - 8), 8) else (tseg1, tseg2)

def chosenTiming (bitRate : Int) : Option Timing :=
  (findBrp bitRate 0x3FF 1).map fun found =>
    ⟨found.1, (segments found.2).1, (segments found.2).2⟩

def canBtrBrp : UInt32 := 0x000003FF
def canBtrTs1 : UInt32 := 0x000F0000
def canBtrTs2 : UInt32 := 0x00700000

/-- `BTR` with new values in its fields. -/
def withFields (btr brp ts1 ts2 : UInt32) : UInt32 :=
  btr &&& ~~~((0x3FF : UInt32) ||| (0x7F : UInt32) <<< 16) ||| (brp ||| ts1 <<< 16 ||| ts2 <<< 20)

/-- `can_drv_check_set_bitrate`: the result and what it leaves in `BTR`. -/
def canDrvCheckSetBitrate (btr : UInt32) (bitRate : Int) (isSet : Bool) : Int × UInt32 :=
  match chosenTiming bitRate with
  | none => (0, btr)
  | some t =>
      (bitRate, if isSet then
        withFields btr (.ofInt (t.brp - 1)) (.ofInt (t.tseg1 - 1)) (.ofInt (t.tseg2 - 1)) else btr)

/-! ## The search -/

/-- The test on a prescaler. -/
def Meets (bitRate brp tqs : Int) : Prop :=
  (fOscCan.tdiv brp).tdiv bitRate = tqs ∧ 5 ≤ tqs ∧ tqs ≤ 16 ∧
    (fOscCan.tdiv brp).tdiv tqs = bitRate

theorem findBrp_some {bitRate : Int} {n : Nat} {first brp tqs : Int}
    (h : findBrp bitRate n first = some (brp, tqs)) :
    first ≤ brp ∧ brp < first + n ∧ Meets bitRate brp tqs := by
  induction n generalizing first with
  | zero => cases h
  | succ n ih =>
      rw [findBrp] at h
      split_ifs at h with hmeets
      · obtain ⟨rfl, rfl⟩ := Prod.mk.inj (Option.some.inj h)
        exact ⟨Int.le_refl _, by omega, rfl, hmeets⟩
      · obtain ⟨hle, hlt, hbrp⟩ := ih h
        exact ⟨by omega, by omega, hbrp⟩

theorem findBrp_none {bitRate : Int} {n : Nat} {first : Int}
    (h : findBrp bitRate n first = none) {brp : Int} (hle : first ≤ brp)
    (hlt : brp < first + n) (tqs : Int) : ¬ Meets bitRate brp tqs := by
  induction n generalizing first with
  | zero => omega
  | succ n ih =>
      rw [findBrp] at h
      split_ifs at h with hmeets
      rcases Int.lt_or_eq_of_le hle with hgt | rfl
      · exact ih h (by omega) (by omega)
      · rintro ⟨rfl, htest⟩
        exact hmeets htest

section

variable {bitRate brp tqs : Int}

theorem Meets.rate (h : Meets bitRate brp tqs) (hbrp : 0 < brp) :
    bitRate * (brp * tqs) ≤ fOscCan ∧ fOscCan < (bitRate + 1) * (brp * tqs) := by
  obtain ⟨-, hfive, -, hrate⟩ := h
  have hosc : (0 : Int) ≤ fOscCan := by decide
  rw [Int.tdiv_eq_ediv_of_nonneg hosc,
    Int.tdiv_eq_ediv_of_nonneg (Int.ediv_nonneg hosc hbrp.le),
    Int.ediv_ediv_of_nonneg hbrp.le] at hrate
  have hpos : 0 < brp * tqs := Int.mul_pos hbrp (by omega)
  rw [← hrate]
  exact ⟨Int.ediv_mul_le _ hpos.ne', Int.lt_ediv_add_one_mul_self _ hpos⟩

theorem meets_of_exact (hrate : 0 < bitRate) (hfive : 5 ≤ tqs) (hsixteen : tqs ≤ 16)
    (h : brp * tqs * bitRate = fOscCan) : 0 < brp ∧ Meets bitRate brp tqs := by
  have htqs : 0 < tqs := by omega
  have hbrp : 0 < brp := by
    rcases lt_or_ge 0 brp with hpos | hneg
    · exact hpos
    · have hle : brp * tqs * bitRate ≤ 0 :=
        Int.mul_nonpos_of_nonpos_of_nonneg
          (Int.mul_nonpos_of_nonpos_of_nonneg hneg htqs.le) hrate.le
      rw [h] at hle
      exact absurd hle (by decide)
  have hdiv : fOscCan.tdiv brp = tqs * bitRate := by
    rw [← h, Int.mul_assoc]
    exact Int.mul_tdiv_cancel_left _ hbrp.ne'
  refine ⟨hbrp, ?_, hfive, hsixteen, ?_⟩
  · rw [hdiv]
    exact Int.mul_tdiv_cancel _ hrate.ne'
  · rw [hdiv]
    exact Int.mul_tdiv_cancel_left _ htqs.ne'

end

theorem segments_spec {tqs : Int} (hfive : 5 ≤ tqs) (hsixteen : tqs ≤ 16) :
    1 + (segments tqs).1 + (segments tqs).2 = tqs ∧ 2 ≤ (segments tqs).1 ∧
      (segments tqs).1 ≤ 8 ∧ 2 ≤ (segments tqs).2 ∧ (segments tqs).2 ≤ 7 := by
  interval_cases tqs <;> decide

/-! ## The register -/

theorem withFields_spec (btr : UInt32) {brp ts1 ts2 : UInt32} (hbrp : brp &&& canBtrBrp = brp)
    (hts1 : ts1 <<< 16 &&& canBtrTs1 = ts1 <<< 16)
    (hts2 : ts2 <<< 20 &&& canBtrTs2 = ts2 <<< 20) :
    withFields btr brp ts1 ts2 &&& canBtrBrp = brp ∧
      withFields btr brp ts1 ts2 &&& canBtrTs1 = ts1 <<< 16 ∧
      withFields btr brp ts1 ts2 &&& canBtrTs2 = ts2 <<< 20 ∧
      withFields btr brp ts1 ts2 &&& ~~~(canBtrBrp ||| canBtrTs1 ||| canBtrTs2) =
        btr &&& ~~~(canBtrBrp ||| canBtrTs1 ||| canBtrTs2) := by
  have hrest : ∀ m, ~~~((0x3FF : UInt32) ||| (0x7F : UInt32) <<< 16) &&& m = 0 →
      btr &&& ~~~((0x3FF : UInt32) ||| (0x7F : UInt32) <<< 16) &&& m = 0 := by
    intro m hm
    rw [UInt32.and_assoc, hm, UInt32.and_zero]
  refine ⟨?_, ?_, ?_, ?_⟩
  · rw [withFields, or_and, or_and, or_and, hrest _ (by decide), hbrp,
      and_eq_zero_of_disjoint hts1 (by decide), and_eq_zero_of_disjoint hts2 (by decide),
      UInt32.zero_or, UInt32.or_zero, UInt32.or_zero]
  · rw [withFields, or_and, or_and, or_and, hrest _ (by decide), hts1,
      and_eq_zero_of_disjoint hbrp (by decide), and_eq_zero_of_disjoint hts2 (by decide),
      UInt32.zero_or, UInt32.zero_or, UInt32.or_zero]
  · rw [withFields, or_and, or_and, or_and, hrest _ (by decide), hts2,
      and_eq_zero_of_disjoint hbrp (by decide), and_eq_zero_of_disjoint hts1 (by decide),
      UInt32.zero_or, UInt32.zero_or, UInt32.zero_or]
  · have hmask : ~~~((0x3FF : UInt32) ||| (0x7F : UInt32) <<< 16) &&&
        ~~~(canBtrBrp ||| canBtrTs1 ||| canBtrTs2) =
          ~~~(canBtrBrp ||| canBtrTs1 ||| canBtrTs2) := by decide
    rw [withFields, or_and, or_and, or_and, UInt32.and_assoc, hmask,
      and_eq_zero_of_disjoint hbrp (by decide), and_eq_zero_of_disjoint hts1 (by decide),
      and_eq_zero_of_disjoint hts2 (by decide), UInt32.zero_or, UInt32.or_zero, UInt32.or_zero]

theorem ofInt_brp {brp : Int} (hone : 1 ≤ brp) (hmax : brp ≤ 1023) :
    UInt32.ofInt (brp - 1) &&& canBtrBrp = UInt32.ofInt (brp - 1) ∧
      ((UInt32.ofInt (brp - 1)).toNat : Int) = brp - 1 := by
  have htoNat : (UInt32.ofInt (brp - 1)).toNat = (brp - 1).toNat := by
    rw [UInt32.ofInt, UInt32.toNat_ofNat']
    omega
  have hmask : canBtrBrp.toNat = 2 ^ 10 - 1 := rfl
  constructor
  · rw [← UInt32.toNat_inj, UInt32.toNat_and, htoNat, hmask, Nat.and_two_pow_sub_one_eq_mod]
    omega
  · omega

theorem ofInt_ts1 {tseg1 : Int} (htwo : 2 ≤ tseg1) (hmax : tseg1 ≤ 8) :
    UInt32.ofInt (tseg1 - 1) <<< 16 &&& canBtrTs1 = UInt32.ofInt (tseg1 - 1) <<< 16 ∧
      (((UInt32.ofInt (tseg1 - 1) <<< 16) >>> 16).toNat : Int) = tseg1 - 1 := by
  interval_cases tseg1 <;> decide

theorem ofInt_ts2 {tseg2 : Int} (htwo : 2 ≤ tseg2) (hmax : tseg2 ≤ 7) :
    UInt32.ofInt (tseg2 - 1) <<< 20 &&& canBtrTs2 = UInt32.ofInt (tseg2 - 1) <<< 20 ∧
      (((UInt32.ofInt (tseg2 - 1) <<< 20) >>> 20).toNat : Int) = tseg2 - 1 := by
  interval_cases tseg2 <;> decide

/-! ## Soundness and completeness -/

/-- A timing within the limits of the controller whose rate is less than 1 bit/s above
`bitRate`. -/
structure Timing.Sound (t : Timing) (bitRate : Int) : Prop where
  brp : 1 ≤ t.brp ∧ t.brp ≤ 1023
  tseg1 : 1 ≤ t.tseg1 ∧ t.tseg1 ≤ 16
  tseg2 : 1 ≤ t.tseg2 ∧ t.tseg2 ≤ 8
  quanta : 5 ≤ 1 + t.tseg1 + t.tseg2 ∧ 1 + t.tseg1 + t.tseg2 ≤ 16
  rate : (bitRate : ℚ) ≤ fOscCan / (t.brp * (1 + t.tseg1 + t.tseg2)) ∧
    (fOscCan / (t.brp * (1 + t.tseg1 + t.tseg2)) : ℚ) < bitRate + 1

/-- The fields of `btr'` hold the timing, and its other bits are those of `btr`. -/
structure Timing.InRegister (t : Timing) (btr btr' : UInt32) : Prop where
  brp : ((btr' &&& canBtrBrp).toNat : Int) = t.brp - 1
  ts1 : (((btr' &&& canBtrTs1) >>> 16).toNat : Int) = t.tseg1 - 1
  ts2 : (((btr' &&& canBtrTs2) >>> 20).toNat : Int) = t.tseg2 - 1
  others : btr' &&& ~~~(canBtrBrp ||| canBtrTs1 ||| canBtrTs2) =
    btr &&& ~~~(canBtrBrp ||| canBtrTs1 ||| canBtrTs2)

theorem chosenTiming_some {bitRate : Int} {t : Timing} (h : chosenTiming bitRate = some t) :
    ∃ tqs, 1 ≤ t.brp ∧ t.brp ≤ 1023 ∧ Meets bitRate t.brp tqs ∧
      (t.tseg1, t.tseg2) = segments tqs := by
  obtain ⟨⟨brp, tqs⟩, hfound, rfl⟩ := Option.map_eq_some_iff.mp h
  obtain ⟨hle, hlt, hmeets⟩ := findBrp_some hfound
  exact ⟨tqs, hle, by dsimp only; omega, hmeets, rfl⟩

theorem chosenTiming_sound {bitRate : Int} {t : Timing} (h : chosenTiming bitRate = some t) :
    t.Sound bitRate ∧ ∀ btr, t.InRegister btr (withFields btr (.ofInt (t.brp - 1))
      (.ofInt (t.tseg1 - 1)) (.ofInt (t.tseg2 - 1))) := by
  obtain ⟨tqs, hone, hmax, hmeets, hsegments⟩ := chosenTiming_some h
  obtain ⟨hsum, hlow1, hhigh1, hlow2, hhigh2⟩ := segments_spec hmeets.2.1 hmeets.2.2.1
  rw [← hsegments] at hsum hlow1 hhigh1 hlow2 hhigh2
  dsimp only at hsum hlow1 hhigh1 hlow2 hhigh2
  constructor
  · obtain ⟨hle, hlt⟩ := hmeets.rate (by omega)
    have hbrp : (0 : ℚ) < t.brp := by exact_mod_cast hone
    have htqs : (0 : ℚ) < tqs := by exact_mod_cast (by omega : 0 < tqs)
    have hquanta : (1 + t.tseg1 + t.tseg2 : ℚ) = tqs := by exact_mod_cast hsum
    refine ⟨⟨hone, hmax⟩, ⟨by omega, by omega⟩, ⟨by omega, by omega⟩, ?_, ?_, ?_⟩
    · rw [hsum]
      exact ⟨hmeets.2.1, hmeets.2.2.1⟩
    · rw [hquanta, le_div_iff₀ (mul_pos hbrp htqs)]
      exact_mod_cast hle
    · rw [hquanta, div_lt_iff₀ (mul_pos hbrp htqs)]
      exact_mod_cast hlt
  · intro btr
    obtain ⟨hbrp, hbrpVal⟩ := ofInt_brp hone hmax
    obtain ⟨hts1, hts1Val⟩ := ofInt_ts1 hlow1 hhigh1
    obtain ⟨hts2, hts2Val⟩ := ofInt_ts2 hlow2 hhigh2
    obtain ⟨hfield, hfield1, hfield2, hothers⟩ := withFields_spec btr hbrp hts1 hts2
    constructor
    · rw [hfield, hbrpVal]
    · rw [hfield1, hts1Val]
    · rw [hfield2, hts2Val]
    · exact hothers

/-- `can_drv_check_set_bitrate` sets a timing for every rate that the clock divides into, and
refuses the others or comes close to them. -/
theorem canDrvCheckSetBitrate_spec (btr : UInt32) {bitRate : Int} (hrate : 0 < bitRate)
    (isSet : Bool) :
    ((canDrvCheckSetBitrate btr bitRate isSet).1 = bitRate →
      ∃ t, chosenTiming bitRate = some t ∧ t.Sound bitRate ∧
        if isSet then t.InRegister btr (canDrvCheckSetBitrate btr bitRate isSet).2
        else (canDrvCheckSetBitrate btr bitRate isSet).2 = btr) ∧
    ((canDrvCheckSetBitrate btr bitRate isSet).1 ≠ bitRate →
      (canDrvCheckSetBitrate btr bitRate isSet).1 = 0) ∧
    ((canDrvCheckSetBitrate btr bitRate isSet).1 = 0 →
      (canDrvCheckSetBitrate btr bitRate isSet).2 = btr ∧
        ∀ brp tq : Int, brp ≤ 1023 → 5 ≤ tq → tq ≤ 16 → brp * tq * bitRate ≠ fOscCan) := by
  rw [canDrvCheckSetBitrate]
  rcases hchosen : chosenTiming bitRate with _ | t
  · refine ⟨fun hzero => absurd hzero (by dsimp only; omega), fun _ => rfl, fun _ => ⟨rfl, ?_⟩⟩
    intro brp tq hmax hfive hsixteen hexact
    obtain ⟨hbrp, hmeets⟩ := meets_of_exact hrate hfive hsixteen hexact
    exact findBrp_none (Option.map_eq_none_iff.mp hchosen) hbrp (by omega) tq hmeets
  · obtain ⟨hsound, hregister⟩ := chosenTiming_sound hchosen
    refine ⟨fun _ => ⟨t, rfl, hsound, ?_⟩, fun hne => absurd rfl hne, fun hzero => ?_⟩
    · cases isSet with
      | true => exact hregister btr
      | false => exact rfl
    · dsimp only at hzero
      omega

theorem canDrvCheckSetBitrate_500k :
    ∃ t, chosenTiming 500000 = some t ∧ t.Sound 500000 ∧
      t.InRegister 0 (canDrvCheckSetBitrate 0 500000 true).2 :=
  (canDrvCheckSetBitrate_spec 0 (by decide) true).1 (by decide)

end ShGateway.CanBitrate
