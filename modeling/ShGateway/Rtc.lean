import ShGateway.Lib.Calendar

/-!
The date of `rtc.c`: the date register of the RTC and the days that the hardware counts in it.
-/

namespace ShGateway.Rtc

open ShGateway.Lib.Calendar

/-! ## The date register -/

def rtcByteToBcd2 (value : UInt8) : UInt8 := (value / 10) <<< 4 ||| value % 10

def rtcBcd2ToByte (value : UInt8) : UInt8 := ((value &&& 0xF0) >>> 4) * 10 + (value &&& 0x0F)

/-- `RTC_DateTypeDef` without `RTC_Year_True`. -/
structure RtcDate where
  weekDay : UInt8
  month : UInt8
  date : UInt8
  year : UInt8
deriving DecidableEq, Repr

def dateRegister (d : RtcDate) : UInt32 :=
  ((rtcByteToBcd2 d.year).toUInt32 <<< 16 ||| (rtcByteToBcd2 d.month).toUInt32 <<< 8 |||
    (rtcByteToBcd2 d.date).toUInt32 ||| d.weekDay.toUInt32 <<< 13) &&& 0x00FFFF3F

/-- `RTC_SetDate` with a binary date; `initMode` and `synchro` are what the RTC answers. -/
def rtcSetDate (initMode synchro : Bool) (d : RtcDate) (dr : UInt32) : Bool × UInt32 :=
  let d := if d.month &&& 0x10 = 0x10 then { d with month := (d.month &&& ~~~0x10) + 0x0A } else d
  if initMode then (synchro, dateRegister d) else (false, dr)

def rtcGetDate (dr : UInt32) : RtcDate :=
  let tmpreg := dr &&& 0x00FFFF3F
  { year := rtcBcd2ToByte ((tmpreg &&& 0x00FF0000) >>> 16).toUInt8
    month := rtcBcd2ToByte ((tmpreg &&& 0x00001F00) >>> 8).toUInt8
    date := rtcBcd2ToByte (tmpreg &&& 0x0000003F).toUInt8
    weekDay := ((tmpreg &&& 0x0000E000) >>> 13).toUInt8 }

/-- The date with `RTC_Year_True`. -/
def mcuRtcGetDate (dr : UInt32) : UInt16 × RtcDate :=
  let d := rtcGetDate dr
  (1970 + d.year.toUInt16, d)

def mcuRtcSetDate (initMode synchro : Bool) (year : UInt16) (weekday month date : UInt8)
    (dr : UInt32) : Bool × UInt32 :=
  rtcSetDate initMode synchro ⟨weekday, month, date, (year - 1970).toUInt8⟩ dr

/-! ## The hardware -/

def registerLeap (year : Nat) : Bool := year % 4 = 0

/-- The day after `d`, after the year 99 again in the year 0. Behind a 29 February of a year that
has none in the register's calendar comes the 1 March. -/
def hardwareNext (d : Date) : Date :=
  let e := next registerLeap d
  { e with year := e.year % 100 }

/-- The date register a day later. -/
def hardwareDay (dr : UInt32) : UInt32 :=
  let d := rtcGetDate dr
  let e := hardwareNext ⟨d.year.toNat, d.month.toNat, d.date.toNat⟩
  dateRegister ⟨d.weekDay % 7 + 1, UInt8.ofNat e.month, UInt8.ofNat e.day, UInt8.ofNat e.year⟩

/-! ## The Gregorian calendar -/

def gregorianLeap (year : Nat) : Bool := year % 4 = 0 ∧ (year % 100 ≠ 0 ∨ year % 400 = 0)

/-- The Gregorian date `n` days after `d`. -/
def daysLater (n : Nat) (d : Date) : Date := (next gregorianLeap)^[n] d

/-- `mcu_rtc_get_date` gives the date `d`. -/
def Shows (dr : UInt32) (d : Date) : Prop :=
  (mcuRtcGetDate dr).1.toNat = d.year ∧ (mcuRtcGetDate dr).2.month.toNat = d.month ∧
    (mcuRtcGetDate dr).2.date.toNat = d.day

instance (dr : UInt32) (d : Date) : Decidable (Shows dr d) := inferInstanceAs (Decidable (_ ∧ _))

/-- From the first of March 1970, 1974 and so on to the 28th of February two years later, the
hardware has had one leap day more than the Gregorian calendar. -/
def Shifted (d : Date) : Prop :=
  (d.year - 1970) % 4 = 0 ∧ 3 ≤ d.month ∨ (d.year - 1970) % 4 = 1 ∨
    (d.year - 1970) % 4 = 2 ∧ (d.month = 1 ∨ d.month = 2 ∧ d.day ≤ 28)

instance : DecidablePred Shifted := fun _ => inferInstanceAs (Decidable (_ ∨ _))

/-! ## The register holds a date -/

theorem bcd_year : ∀ n < 100, rtcBcd2ToByte (rtcByteToBcd2 (UInt8.ofNat n)) = UInt8.ofNat n := by
  decide

theorem bcd_month : ∀ n < 20,
    rtcByteToBcd2 (UInt8.ofNat n) &&& 0x1F = rtcByteToBcd2 (UInt8.ofNat n) := by
  decide

theorem bcd_date : ∀ n < 40,
    rtcByteToBcd2 (UInt8.ofNat n) &&& 0x3F = rtcByteToBcd2 (UInt8.ofNat n) := by
  decide

theorem weekDay_mask : ∀ n < 8, UInt8.ofNat n &&& 0x07 = UInt8.ofNat n := by
  decide

theorem fields_eq (y m d w : UInt8) :
    let dr := (y.toUInt32 <<< 16 ||| (m &&& 0x1F).toUInt32 <<< 8 ||| (d &&& 0x3F).toUInt32 |||
      (w &&& 0x07).toUInt32 <<< 13) &&& 0x00FFFF3F
    ((dr &&& 0x00FFFF3F &&& 0x00FF0000) >>> 16).toUInt8 = y ∧
      ((dr &&& 0x00FFFF3F &&& 0x00001F00) >>> 8).toUInt8 = m &&& 0x1F ∧
      (dr &&& 0x00FFFF3F &&& 0x0000003F).toUInt8 = d &&& 0x3F ∧
      ((dr &&& 0x00FFFF3F &&& 0x0000E000) >>> 13).toUInt8 = w &&& 0x07 := by
  refine ⟨?_, ?_, ?_, ?_⟩ <;>
    refine UInt8.eq_of_toBitVec_eq (BitVec.eq_of_getLsbD_eq fun i hi => ?_) <;>
    interval_cases i <;> simp

theorem rtcGetDate_dateRegister {d : RtcDate} (hyear : d.year.toNat < 100)
    (hmonth : d.month.toNat < 20) (hdate : d.date.toNat < 40) (hweekDay : d.weekDay.toNat < 8) :
    rtcGetDate (dateRegister d) = d := by
  obtain ⟨w, m, e, y⟩ := d
  have hm := bcd_month m.toNat hmonth
  have he := bcd_date e.toNat hdate
  have hw := weekDay_mask w.toNat hweekDay
  have hy := bcd_year y.toNat hyear
  have hm' := bcd_year m.toNat (hmonth.trans (by decide))
  have he' := bcd_year e.toNat (hdate.trans (by decide))
  rw [UInt8.ofNat_toNat] at hm he hw hy hm' he'
  obtain ⟨hyear', hmonth', hdate', hweekDay'⟩ :=
    fields_eq (rtcByteToBcd2 y) (rtcByteToBcd2 m) (rtcByteToBcd2 e) w
  rw [hm, he, hw] at hyear' hmonth' hdate' hweekDay'
  rw [rtcGetDate, dateRegister]
  dsimp only
  rw [hyear', hmonth', hdate', hweekDay', hy, hm', he']

/-- The register holds the date `d`, its years counted from 1970. -/
def Holds (dr : UInt32) (d : Date) : Prop :=
  ∃ w : UInt8, w.toNat < 8 ∧
    rtcGetDate dr = ⟨w, UInt8.ofNat d.month, UInt8.ofNat d.day, UInt8.ofNat d.year⟩

/-- A date of the register: its year has two digits. -/
structure Fits (d : Date) : Prop where
  year : d.year < 100
  month : d.month ≤ 12
  day : d.day ≤ 31

section

variable {d e : Date} {dr : UInt32} {n : Nat}

theorem Fits.toNat (hd : Fits d) : (UInt8.ofNat d.year).toNat = d.year ∧
    (UInt8.ofNat d.month).toNat = d.month ∧ (UInt8.ofNat d.day).toNat = d.day :=
  ⟨UInt8.toNat_ofNat_of_lt' (hd.year.trans (by decide)),
    UInt8.toNat_ofNat_of_lt' (hd.month.trans_lt (by decide)),
    UInt8.toNat_ofNat_of_lt' (hd.day.trans_lt (by decide))⟩

theorem holds_dateRegister (hd : Fits d) {w : UInt8} (hw : w.toNat < 8) :
    Holds (dateRegister ⟨w, UInt8.ofNat d.month, UInt8.ofNat d.day, UInt8.ofNat d.year⟩) d := by
  obtain ⟨hyear, hmonth, hday⟩ := hd.toNat
  refine ⟨w, hw, rtcGetDate_dateRegister ?_ ?_ ?_ hw⟩
  · exact hyear.trans_lt hd.year
  · exact hmonth.trans_lt (hd.month.trans_lt (by decide))
  · exact hday.trans_lt (hd.day.trans_lt (by decide))

theorem shows_iff (hdr : Holds dr d) (hd : Fits d) :
    Shows dr e ↔ ⟨1970 + d.year, d.month, d.day⟩ = e := by
  obtain ⟨w, hw, hget⟩ := hdr
  obtain ⟨hyear, hmonth, hday⟩ := hd.toNat
  have hbase : (1970 : UInt16).toNat = 1970 := rfl
  have hlt := hd.year
  rw [Shows, mcuRtcGetDate, hget]
  dsimp only
  rw [UInt16.toNat_add, UInt8.toNat_toUInt16, hyear, hmonth, hday, hbase,
    Nat.mod_eq_of_lt (by omega)]
  constructor
  · rintro ⟨hyear', hmonth', hday'⟩
    rw [hyear', hmonth', hday']
  · rintro rfl
    exact ⟨rfl, rfl, rfl⟩

theorem fits_hardwareNext (hd : Fits d) : Fits (hardwareNext d) := by
  have hdays := @monthDays_le registerLeap d.year d.month
  have hmonth := hd.month
  refine ⟨Nat.mod_lt _ (by decide), ?_, ?_⟩
  · change (next registerLeap d).month ≤ 12
    rw [next]
    split_ifs <;> dsimp only <;> omega
  · change (next registerLeap d).day ≤ 31
    rw [next]
    split_ifs <;> dsimp only <;> omega

theorem holds_hardwareDay (hdr : Holds dr d) (hd : Fits d) :
    Holds (hardwareDay dr) (hardwareNext d) := by
  obtain ⟨w, hw, hget⟩ := hdr
  obtain ⟨hyear, hmonth, hday⟩ := hd.toNat
  rw [hardwareDay, hget]
  dsimp only
  rw [hyear, hmonth, hday]
  refine holds_dateRegister (fits_hardwareNext hd) ?_
  rw [UInt8.toNat_add, UInt8.toNat_mod]
  have hseven : (7 : UInt8).toNat = 7 := rfl
  have hone : (1 : UInt8).toNat = 1 := rfl
  rw [hseven, hone]
  omega

theorem holds_iterate (hdr : Holds dr d) (hd : Fits d) (n : Nat) :
    Holds (hardwareDay^[n] dr) (hardwareNext^[n] d) ∧ Fits (hardwareNext^[n] d) := by
  induction n with
  | zero => exact ⟨hdr, hd⟩
  | succ n ih =>
      rw [Function.iterate_succ_apply', Function.iterate_succ_apply']
      exact ⟨holds_hardwareDay ih.1 ih.2, fits_hardwareNext ih.2⟩

end

/-! ## The two calendars -/

/-- A Gregorian date from 1970 to 2069. -/
structure InRange (d : Date) : Prop where
  valid : d.Valid gregorianLeap
  ge : 1970 ≤ d.year
  le : d.year ≤ 2069

/-- A date as it is stored: the years are counted from 1970. -/
def stored (d : Date) : Date := { d with year := d.year - 1970 }

theorem stored_mk (year month day : Nat) :
    stored ⟨year, month, day⟩ = ⟨year - 1970, month, day⟩ := rfl

def LeapDay (d : Date) : Prop := d.month = 2 ∧ d.day = 29

instance : DecidablePred LeapDay := fun _ => inferInstanceAs (Decidable (_ ∧ _))

theorem gregorianLeap_eq : ∀ y < 100, gregorianLeap (1970 + y) = decide (y % 4 = 2) := by
  decide

theorem daysBeforeYear_register (y : Nat) :
    daysBeforeYear registerLeap y = 365 * y + (y + 3) / 4 := by
  induction y with
  | zero => rfl
  | succ y ih =>
      rw [daysBeforeYear, ih, yearDays, registerLeap]
      simp only [decide_eq_true_eq]
      split_ifs <;> omega

theorem daysBeforeYear_gregorian :
    ∃ base, ∀ y ≤ 100, daysBeforeYear gregorianLeap (1970 + y) = base + 365 * y + (y + 1) / 4 := by
  refine ⟨daysBeforeYear gregorianLeap 1970, fun y h => ?_⟩
  generalize hbase : daysBeforeYear gregorianLeap 1970 = base
  induction y with
  | zero => exact hbase
  | succ y ih =>
      rw [← Nat.add_assoc, daysBeforeYear, ih (Nat.le_of_succ_le h), yearDays,
        gregorianLeap_eq y h]
      simp only [decide_eq_true_eq]
      split_ifs <;> omega

section

variable {d : Date} {n : Nat}

/-- The dates from 1970 in the two calendars: a leap day has the number of the next day there. -/
theorem dayNumber_stored : ∃ base, ∀ d, InRange d →
    dayNumber registerLeap (stored d) + base =
      dayNumber gregorianLeap d + if Shifted d ∨ LeapDay d then 1 else 0 := by
  obtain ⟨base, hbase⟩ := daysBeforeYear_gregorian
  refine ⟨base, fun d hd => ?_⟩
  obtain ⟨⟨hmonth, hmonth', hday, hday'⟩, hge, hle⟩ := hd
  obtain ⟨year, month, day⟩ := d
  dsimp only at hge hle hmonth hmonth' hday hday'
  obtain ⟨y, hyear⟩ := Nat.exists_eq_add_of_le hge
  have hlt : y < 100 := by omega
  have hy : year - 1970 = y := by omega
  have hleapYear : gregorianLeap year = decide (y % 4 = 2) := by
    rw [hyear, gregorianLeap_eq y hlt]
  have hyears : daysBeforeYear gregorianLeap year = base + 365 * y + (y + 1) / 4 := by
    rw [hyear, hbase y hlt.le]
  have hleap : month = 2 → day ≤ 29 ∧ (day = 29 → y % 4 = 2) := by
    rintro rfl
    simp only [monthDays, hleapYear, decide_eq_true_eq] at hday'
    split_ifs at hday' <;> omega
  rw [dayNumber, dayNumber, stored_mk, hy, hyears, daysBeforeYear_register,
    daysBeforeMonth_eq hmonth', @daysBeforeMonth_eq gregorianLeap _ _ hmonth', hleapYear]
  simp only [registerLeap, decide_eq_true_eq, Shifted, LeapDay, hy]
  split_ifs <;> omega

theorem leapDay_year (hd : InRange d) (hleap : LeapDay d) : (d.year - 1970) % 4 = 2 := by
  obtain ⟨⟨-, -, -, hday⟩, hge, hle⟩ := hd
  obtain ⟨year, month, day⟩ := d
  obtain ⟨rfl, rfl⟩ : month = 2 ∧ day = 29 := hleap
  dsimp only at hge hle
  have hyear := gregorianLeap_eq (year - 1970) (by omega)
  rw [Nat.add_sub_cancel' hge] at hyear
  by_contra hnot
  rw [decide_eq_false hnot] at hyear
  simp [monthDays, hyear] at hday

theorem not_le_leapDay (hd : InRange d) (hleap : LeapDay d) :
    ¬ (stored d).day ≤ monthDays registerLeap (stored d).year (stored d).month := by
  have hyear := leapDay_year hd hleap
  obtain ⟨year, month, day⟩ := d
  obtain ⟨rfl, rfl⟩ : month = 2 ∧ day = 29 := hleap
  dsimp only at hyear
  rw [stored_mk]
  simp [monthDays, registerLeap, hyear]

theorem valid_stored (hd : InRange d) (hleap : ¬ LeapDay d) : (stored d).Valid registerLeap := by
  obtain ⟨⟨hmonth, hmonth', hday, hday'⟩, hge, hle⟩ := hd
  obtain ⟨year, month, day⟩ := d
  rw [stored_mk]
  refine ⟨hmonth, hmonth', hday, ?_⟩
  dsimp only at hmonth hday hday' ⊢
  rcases eq_or_ne month 2 with rfl | hother
  · have hne : day ≠ 29 := fun h => hleap ⟨rfl, h⟩
    have hle' : day ≤ 29 := by
      simp only [monthDays] at hday'
      split_ifs at hday' <;> omega
    simp only [monthDays]
    split_ifs <;> omega
  · have hdays : ∀ leap leap' y y', monthDays leap y month = monthDays leap' y' month := by
      intro leap leap' y y'
      unfold monthDays
      split
      · rfl
      · exact absurd rfl hother
      all_goals rfl
    rwa [hdays registerLeap gregorianLeap _ year]

/-- The days that the hardware has counted from a stored date. -/
theorem iterate_stored {base : Nat} (hbase : ∀ d, InRange d →
    dayNumber registerLeap (stored d) + base =
      dayNumber gregorianLeap d + if Shifted d ∨ LeapDay d then 1 else 0)
    (hd : InRange d) (n : Nat) :
    ((next registerLeap)^[n + 1] (stored d)).Valid registerLeap ∧
      dayNumber registerLeap ((next registerLeap)^[n + 1] (stored d)) + base =
        dayNumber gregorianLeap d + (if Shifted d then 1 else 0) + (n + 1) := by
  have hnumber := hbase d hd
  rcases Classical.em (LeapDay d) with hleap | hleap
  · -- the hardware has no such date: the next one is the first of March
    have hyear := leapDay_year hd hleap
    rw [if_pos (.inr hleap)] at hnumber
    obtain ⟨year, month, day⟩ := d
    obtain ⟨rfl, rfl⟩ : month = 2 ∧ day = 29 := hleap
    dsimp only at hyear
    have hshort : registerLeap (year - 1970) = false := by
      rw [registerLeap]
      exact decide_eq_false (by omega)
    have hnext : next registerLeap ⟨year - 1970, 2, 29⟩ = ⟨year - 1970, 3, 1⟩ := by
      simp [next, monthDays, hshort]
    have hsame : dayNumber registerLeap ⟨year - 1970, 3, 1⟩ =
        dayNumber registerLeap ⟨year - 1970, 2, 29⟩ := by
      simp [dayNumber, daysBeforeMonth, monthDays, hshort]
    have hvalid : (⟨year - 1970, 3, 1⟩ : Date).Valid registerLeap := by
      constructor <;> simp [monthDays]
    rw [stored_mk] at hnumber ⊢
    obtain ⟨hvalid', hiterate⟩ := iterate_next hvalid n
    rw [Function.iterate_succ_apply, hnext]
    have hnot : ¬ Shifted ⟨year, 2, 29⟩ := by
      simp only [Shifted]
      omega
    rw [if_neg hnot]
    exact ⟨hvalid', by omega⟩
  · obtain ⟨hvalid, hiterate⟩ := iterate_next (valid_stored hd hleap) (n + 1)
    simp only [hleap, or_false] at hnumber
    exact ⟨hvalid, by omega⟩

/-! ## The years of the register -/

def wrap (d : Date) : Date := { d with year := d.year % 100 }

theorem monthDays_wrap (y m : Nat) :
    monthDays registerLeap (y % 100) m = monthDays registerLeap y m := by
  have hleap : registerLeap (y % 100) = registerLeap y := by
    rw [registerLeap, registerLeap]
    exact decide_eq_decide.mpr (by omega)
  unfold monthDays
  rw [hleap]

theorem hardwareNext_wrap (d : Date) : hardwareNext (wrap d) = wrap (next registerLeap d) := by
  simp only [hardwareNext, next, wrap, monthDays_wrap]
  rcases Classical.em (d.day < monthDays registerLeap d.year d.month) with hday | hday
  · simp [hday]
  · rcases Classical.em (d.month < 12) with hmonth | hmonth
    · simp [hday, hmonth]
    · simp [hday, hmonth]

theorem iterate_hardwareNext (hd : d.year < 100) (n : Nat) :
    hardwareNext^[n] d = wrap ((next registerLeap)^[n] d) := by
  induction n with
  | zero =>
      rw [Function.iterate_zero, Function.iterate_zero, id, wrap, Nat.mod_eq_of_lt hd]
  | succ n ih =>
      rw [Function.iterate_succ_apply', Function.iterate_succ_apply', ih, hardwareNext_wrap]

theorem dayNumber_wrap (d : Date) :
    dayNumber registerLeap d = dayNumber registerLeap (wrap d) + 36525 * (d.year / 100) := by
  obtain ⟨year, month, day⟩ := d
  have hmonth : daysBeforeMonth registerLeap (year % 100) month =
      daysBeforeMonth registerLeap year month := by
    induction month with
    | zero => rfl
    | succ month ih => rw [daysBeforeMonth, daysBeforeMonth, ih, monthDays_wrap]
  simp only [dayNumber, wrap, hmonth, daysBeforeYear_register]
  omega

/-- The hardware comes to the stored form of the Gregorian date exactly if the calendars have had
the same leap days. -/
theorem hardware_iff (hd : InRange d) (ht : InRange (daysLater n d)) :
    hardwareNext^[n] (stored d) = stored (daysLater n d) ↔
      n = 0 ∨ ¬ LeapDay (daysLater n d) ∧ (Shifted d ↔ Shifted (daysLater n d)) := by
  cases n with
  | zero => exact iff_of_true rfl (.inl rfl)
  | succ n =>
      obtain ⟨base, hbase⟩ := dayNumber_stored
      obtain ⟨hvalid, hnumber⟩ := iterate_stored hbase hd n
      have hlater : dayNumber gregorianLeap (daysLater (n + 1) d) =
          dayNumber gregorianLeap d + (n + 1) := (iterate_next hd.valid (n + 1)).2
      have hyear : (stored d).year < 100 := by
        have hle := hd.le
        have hge := hd.ge
        change d.year - 1970 < 100
        omega
      have hyear' : (stored (daysLater (n + 1) d)).year < 100 := by
        have hle := ht.le
        have hge := ht.ge
        change (daysLater (n + 1) d).year - 1970 < 100
        omega
      have htarget := hbase _ ht
      have hwrap := dayNumber_wrap ((next registerLeap)^[n + 1] (stored d))
      rw [iterate_hardwareNext hyear, or_iff_right (Nat.succ_ne_zero n)]
      constructor
      · intro heq
        have hleap : ¬ LeapDay (daysLater (n + 1) d) := by
          intro hleap
          have hday := hvalid.day_le
          rw [← monthDays_wrap] at hday
          change (wrap _).day ≤ monthDays registerLeap (wrap _).year (wrap _).month at hday
          rw [heq] at hday
          exact not_le_leapDay ht hleap hday
        refine ⟨hleap, ?_⟩
        rw [heq] at hwrap
        simp only [hleap, or_false] at htarget
        split_ifs at hnumber htarget with hs hs' hs'
        · exact iff_of_true hs hs'
        · omega
        · omega
        · exact iff_of_false hs hs'
      · rintro ⟨hleap, hshifted⟩
        simp only [hleap, or_false, ← hshifted] at htarget
        have heq : (next registerLeap)^[n + 1] (stored d) = stored (daysLater (n + 1) d) :=
          eq_of_dayNumber hvalid (valid_stored ht hleap) (by omega)
        rw [heq, wrap, Nat.mod_eq_of_lt hyear']

theorem holds_setDate (hd : InRange d) {weekday : UInt8} (hw : weekday.toNat < 8)
    {initMode synchro : Bool} {dr : UInt32}
    (hset : (mcuRtcSetDate initMode synchro (UInt16.ofNat d.year) weekday (UInt8.ofNat d.month)
      (UInt8.ofNat d.day) dr).1 = true) :
    Holds (mcuRtcSetDate initMode synchro (UInt16.ofNat d.year) weekday (UInt8.ofNat d.month)
      (UInt8.ofNat d.day) dr).2 (stored d) ∧ Fits (stored d) := by
  obtain ⟨⟨hmonth, hmonth', hday, hday'⟩, hge, hle⟩ := hd
  obtain ⟨year, month, day⟩ := d
  dsimp only at hge hle hmonth hmonth' hday hday' hset ⊢
  have hfits : Fits (stored ⟨year, month, day⟩) := by
    rw [stored_mk]
    refine ⟨?_, hmonth', hday'.trans (monthDays_le _ _)⟩
    dsimp only
    omega
  refine ⟨?_, hfits⟩
  have hinit : initMode = true := by
    rcases Bool.eq_false_or_eq_true initMode with h | h
    · exact h
    · rw [h, mcuRtcSetDate, rtcSetDate] at hset
      exact absurd hset (by simp)
  have hbit : ¬ UInt8.ofNat month &&& 0x10 = 0x10 := by
    have hall : ∀ m < 13, ¬ UInt8.ofNat m &&& 0x10 = 0x10 := by decide
    exact hall month (Nat.lt_succ_of_le hmonth')
  have hyear : (UInt16.ofNat year - 1970).toUInt8 = UInt8.ofNat (year - 1970) := by
    have hbase : (1970 : UInt16) ≤ UInt16.ofNat year := by
      rw [UInt16.le_iff_toNat_le, UInt16.toNat_ofNat_of_lt' (by rw [UInt16.size]; omega)]
      exact hge
    have hnat : (1970 : UInt16).toNat = 1970 := rfl
    apply UInt8.toNat_inj.mp
    rw [UInt16.toNat_toUInt8, UInt16.toNat_sub_of_le _ _ hbase, hnat,
      UInt16.toNat_ofNat_of_lt' (by rw [UInt16.size]; omega), UInt8.toNat_ofNat']
  rw [mcuRtcSetDate, rtcSetDate, hinit, if_neg hbit, hyear]
  exact holds_dateRegister hfits hw

/-- A stored date is shown as the Gregorian date `n` days later exactly if the hardware has had
the leap days of the Gregorian calendar in between. -/
theorem shows_daysLater_iff (hd : InRange d) (hn : (daysLater n d).year ≤ 2069) {weekday : UInt8}
    (hw : weekday.toNat < 8) {initMode synchro : Bool} {dr : UInt32}
    (hset : (mcuRtcSetDate initMode synchro (UInt16.ofNat d.year) weekday (UInt8.ofNat d.month)
      (UInt8.ofNat d.day) dr).1 = true) :
    Shows (hardwareDay^[n] (mcuRtcSetDate initMode synchro (UInt16.ofNat d.year) weekday
        (UInt8.ofNat d.month) (UInt8.ofNat d.day) dr).2) (daysLater n d) ↔
      n = 0 ∨ ¬ LeapDay (daysLater n d) ∧ (Shifted d ↔ Shifted (daysLater n d)) := by
  have ht : InRange (daysLater n d) :=
    ⟨(iterate_next hd.valid n).1, hd.ge.trans (le_iterate_year d n), hn⟩
  obtain ⟨hholds, hfits⟩ := holds_setDate hd hw hset
  obtain ⟨hholds, hfits⟩ := holds_iterate hholds hfits n
  rw [shows_iff hholds hfits, ← hardware_iff hd ht]
  have hge := ht.ge
  rcases hardwareNext^[n] (stored d) with ⟨year, month, day⟩
  rcases hlater : daysLater n d with ⟨year', month', day'⟩
  rw [hlater] at hge
  dsimp only at hge
  have hyear : 1970 + year = year' ↔ year = year' - 1970 := by omega
  rw [stored_mk, Date.mk.injEq, Date.mk.injEq, hyear]

end

/-! ## The end of February 1970 -/

def february1970 : Date := ⟨1970, 2, 28⟩

/-- Two weeks earlier the calendars agree. -/
theorem shows_daysLater_february :
    Shows (hardwareDay^[14] (mcuRtcSetDate true true (UInt16.ofNat 1970) 6 (UInt8.ofNat 2)
      (UInt8.ofNat 14) 0).2) (daysLater 14 ⟨1970, 2, 14⟩) :=
  (shows_daysLater_iff (d := ⟨1970, 2, 14⟩) (n := 14)
    ⟨⟨by decide, by decide, by decide, by decide⟩, by decide, by decide⟩ (by decide)
    (by decide : (6 : UInt8).toNat < 8) rfl).mpr (.inr (by decide))

/-- The day after is the 29th of February. -/
theorem not_shows_february1970 :
    InRange february1970 ∧
      ¬ Shows (hardwareDay^[1] (mcuRtcSetDate true true (UInt16.ofNat 1970) 6 (UInt8.ofNat 2)
        (UInt8.ofNat 28) 0).2) (daysLater 1 february1970) :=
  ⟨⟨⟨by decide, by decide, by decide, by decide⟩, by decide, by decide⟩, by decide⟩

end ShGateway.Rtc
