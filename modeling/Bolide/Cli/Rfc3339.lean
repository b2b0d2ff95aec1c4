/-
Bolide.Cli.Rfc3339 — the time at which a session started
(`rfc3339_from_unix` of `bolide-cli/src/state.rs`).

`civilFromDays` counts years from March, so that the leap day is the last of
its year: `yearOfEra_spec` finds the year in the 400 years of an era, and
`exists_date` the month. The date that comes out is the one of the calendar
(`civilFromDays_spec`).

Translation notes. An `i64` is an `Int`: nothing that is computed comes near
the ends of the type. `div_euclid` and `rem_euclid` are `/` and `%`, and the
operators of the source are `tdiv` and `tmod`.
-/
import Bolide.Lib.Calendar

namespace Bolide.Cli

open Lib Calendar

/-! ## `state.rs` -/

/-- `{n:0width}`: a sign counts as one of the characters. -/
def padded (width : Nat) (n : Int) : Text :=
  let sign := if n < 0 then ['-'] else []
  let digits := Nat.toDigits 10 n.natAbs
  sign ++ List.replicate (width - sign.length - digits.length) '0' ++ digits

/-- `civil_from_days`: the year, month and day that are so many days after 1970-01-01. -/
def civilFromDays (days : Int) : Int × Int × Int :=
  let z := days + 719468
  let era := z / 146097
  let doe := z % 146097
  let yoe := (doe - doe.tdiv 1460 + doe.tdiv 36524 - doe.tdiv 146096).tdiv 365
  let y := yoe + era * 400
  let doy := doe - (365 * yoe + yoe.tdiv 4 - yoe.tdiv 100)
  let mp := (5 * doy + 2).tdiv 153
  let d := doy - (153 * mp + 2).tdiv 5 + 1
  let month := if mp < 10 then mp + 3 else mp - 9
  let year := if month ≤ 2 then y + 1 else y
  (year, month, d)

/-- `rfc3339_from_unix`. -/
def rfc3339FromUnix (secs : Int64) : Text :=
  let days := secs.toInt / 86400
  let timeOfDay := secs.toInt % 86400
  let h := timeOfDay.tdiv 3600
  let m := (timeOfDay.tmod 3600).tdiv 60
  let s := timeOfDay.tmod 60
  let (year, month, d) := civilFromDays days
  padded 4 year ++ '-' :: padded 2 month ++ '-' :: padded 2 d ++ 'T' :: padded 2 h ++
    ':' :: padded 2 m ++ ':' :: padded 2 s ++ ['Z']

/-! ## The year of an era -/

/-- `yoe`. -/
def yearOfEra (doe : Nat) : Nat := (doe - doe / 1460 + doe / 36524 - doe / 146096) / 365

/-- The day of its era on which a year starts, in March. -/
def eraYearStart (yoe : Nat) : Nat := 365 * yoe + yoe / 4 - yoe / 100 + yoe / 400

theorem yearOfEra_mono : Monotone yearOfEra := by
  refine monotone_nat_of_le_succ fun doe => Nat.div_le_div_right ?_
  omega

/-- The first and the last day of each year. -/
theorem yearOfEra_ends : ∀ yoe < 400,
    yearOfEra (eraYearStart yoe) = yoe ∧ yearOfEra (eraYearStart (yoe + 1) - 1) = yoe := by
  decide +kernel

/-- Every day of an era is in the year that is computed for it. -/
theorem yearOfEra_spec {doe : Nat} (h : doe < 146097) : yearOfEra doe < 400 ∧
    eraYearStart (yearOfEra doe) ≤ doe ∧ doe < eraYearStart (yearOfEra doe + 1) := by
  have hlast : yearOfEra 146096 = 399 := by decide
  have hyoe : yearOfEra doe < 400 := by
    have hmono := yearOfEra_mono (show doe ≤ 146096 by omega)
    omega
  refine ⟨hyoe, ?_, ?_⟩
  · by_contra hbefore
    cases hk : yearOfEra doe with
    | zero =>
        rw [hk] at hbefore
        exact hbefore (Nat.zero_le doe)
    | succ k =>
        rw [hk] at hbefore hyoe
        have hmono := yearOfEra_mono (show doe ≤ eraYearStart (k + 1) - 1 by omega)
        rw [(yearOfEra_ends k (by omega)).2] at hmono
        omega
  · by_contra hafter
    rcases Nat.lt_or_ge (yearOfEra doe + 1) 400 with hk | hk
    · have hmono := yearOfEra_mono (Nat.not_lt.mp hafter)
      rw [(yearOfEra_ends _ hk).1] at hmono
      omega
    · have hk : yearOfEra doe + 1 = 400 := by omega
      rw [hk] at hafter
      exact hafter h

/-! ## The month of a year that starts in March -/

/-- How many days after 1970-01-01 the March of a year starts. -/
def marchStart (year : Int) : Int := 365 * year + year / 4 - year / 100 + year / 400 - 719468

/-- The day of its year on which a month starts, from March on. -/
def marchMonth (mp : Nat) : Nat := (153 * mp + 2) / 5

theorem marchStart_eq (year : Int) :
    marchStart year = yearStart year + monthStart year 3 := by
  have hleap := leapYear_iff year
  rw [marchStart, yearStart]
  cases h : leapYear year with
  | true =>
      have hmarch : monthStart year 3 = 60 := by simp [monthStart, monthLength, h]
      rw [h, eq_self, true_iff] at hleap
      rw [hmarch]
      omega
  | false =>
      have hmarch : monthStart year 3 = 59 := by simp [monthStart, monthLength, h]
      rw [h] at hleap
      simp only [Bool.false_eq_true, false_iff, not_and_or, not_or, not_not] at hleap
      rw [hmarch]
      omega

/-- The months from March to December. -/
theorem march_december (year : Int) {mp : Nat} (h : mp < 10) :
    monthStart year (mp + 3) = monthStart year 3 + marchMonth mp ∧
      monthLength year (mp + 3) = marchMonth (mp + 1) - marchMonth mp := by
  interval_cases mp <;> simp [monthStart, monthLength, marchMonth]

/-- January comes after the end of December. -/
theorem january (year : Int) : yearStart (year + 1) = marchStart year + marchMonth 10 := by
  have hdecember := (march_december year (show 9 < 10 by decide)).1
  rw [yearStart_succ, marchStart_eq, hdecember, marchMonth, marchMonth]
  omega

/-- A day of a year that starts in March has a date. -/
theorem exists_date (y : Int) (doy : Nat) (h : doy < 365 + if leapYear (y + 1) then 1 else 0) :
    ∃ date : Date, date.number = marchStart y + doy ∧
      date.month = (if (5 * doy + 2) / 153 < 10 then (5 * doy + 2) / 153 + 3
        else (5 * doy + 2) / 153 - 9) ∧
      date.year = (if date.month ≤ 2 then y + 1 else y) ∧
      date.day = doy - marchMonth ((5 * doy + 2) / 153) + 1 := by
  have hmp : (5 * doy + 2) / 153 < 12 := by
    split at h <;> omega
  have hlow : marchMonth ((5 * doy + 2) / 153) ≤ doy := by
    rw [marchMonth]
    omega
  have hhigh : doy < marchMonth ((5 * doy + 2) / 153 + 1) := by
    rw [marchMonth]
    omega
  generalize (5 * doy + 2) / 153 = mp at hmp hlow hhigh ⊢
  by_cases hten : mp < 10
  · obtain ⟨hstart, hlength⟩ := march_december y hten
    refine ⟨⟨y, mp + 3, doy - marchMonth mp + 1, by omega, by omega, by omega, by omega⟩, ?_, ?_⟩
    · rw [Date.number, marchStart_eq, hstart]
      push_cast
      omega
    · simp [hten]
  · have hyear := january y
    have hjanuary : marchMonth 10 = 306 := rfl
    have hfebruary : marchMonth 11 = 337 := rfl
    obtain rfl | rfl : mp = 10 ∨ mp = 11 := by omega
    · have hlength : monthLength (y + 1) 1 = 31 := rfl
      change doy < marchMonth 11 at hhigh
      refine ⟨⟨y + 1, 1, doy - 306 + 1, le_rfl, by decide, by omega, by omega⟩, ?_, rfl, rfl, rfl⟩
      rw [Date.number, monthStart, hyear, hjanuary]
      push_cast
      omega
    · have hlength : monthLength (y + 1) 2 = 28 + if leapYear (y + 1) then 1 else 0 := by
        cases h : leapYear (y + 1) <;> simp [monthLength, h]
      have hstart : monthStart (y + 1) 2 = 31 := rfl
      refine ⟨⟨y + 1, 2, doy - 337 + 1, by decide, by decide, by omega, by omega⟩, ?_, rfl, rfl,
        rfl⟩
      rw [Date.number, hstart, hyear, hjanuary]
      push_cast
      omega

/-! ## The date that is computed -/

theorem tdiv_natCast (n : Nat) (m : Int) : (n : Int).tdiv m = n / m :=
  Int.tdiv_eq_ediv_of_nonneg (Int.natCast_nonneg n)

theorem yearOfEra_eq (doe : Nat) : ((doe : Int) - (doe : Int).tdiv 1460 + (doe : Int).tdiv 36524 -
    (doe : Int).tdiv 146096).tdiv 365 = yearOfEra doe := by
  have hdays : (doe : Int) - doe / 1460 + doe / 36524 - doe / 146096 =
      (doe - doe / 1460 + doe / 36524 - doe / 146096 : Nat) := by
    omega
  rw [tdiv_natCast, tdiv_natCast, tdiv_natCast, hdays, tdiv_natCast, yearOfEra]
  rfl

/-- Eras are alike. -/
theorem marchStart_era {yoe : Nat} (h : yoe < 400) (era : Int) :
    marchStart (yoe + era * 400) = era * 146097 + eraYearStart yoe - 719468 := by
  rw [marchStart, eraYearStart]
  push_cast
  omega

/-- A year has a leap day at its end if the next year, in which the day is, is a leap year. -/
theorem eraYearStart_succ {yoe : Nat} (h : yoe < 400) (era : Int) :
    eraYearStart (yoe + 1) =
      eraYearStart yoe + 365 + if leapYear (yoe + era * 400 + 1) then 1 else 0 := by
  have hleap := leapYear_iff (yoe + era * 400 + 1)
  rw [eraYearStart, eraYearStart]
  split
  · next hyear =>
      rw [hyear, eq_self, true_iff] at hleap
      omega
  · next hyear =>
      rw [Bool.not_eq_true] at hyear
      rw [hyear] at hleap
      simp only [Bool.false_eq_true, false_iff, not_and_or, not_or, not_not] at hleap
      omega

/-- What is computed from a year and a day of its era is not negative anywhere. -/
theorem doy_eq {doe : Nat} (h : doe < 146097) :
    (doe : Int) - (365 * yearOfEra doe + (yearOfEra doe : Int).tdiv 4 -
      (yearOfEra doe : Int).tdiv 100) = (doe - eraYearStart (yearOfEra doe) : Nat) := by
  obtain ⟨hyoe, hfirst, -⟩ := yearOfEra_spec h
  rw [tdiv_natCast, tdiv_natCast]
  rw [eraYearStart] at hfirst ⊢
  omega

theorem mp_eq (doy : Nat) : (5 * (doy : Int) + 2).tdiv 153 = ((5 * doy + 2) / 153 : Nat) :=
  tdiv_natCast (5 * doy + 2) 153

theorem marchMonth_eq (mp : Nat) : (153 * (mp : Int) + 2).tdiv 5 = marchMonth mp :=
  tdiv_natCast (153 * mp + 2) 5

/-- **The date that is computed** is the one with this number. -/
theorem civilFromDays_spec (days : Int) : ∃ date : Date, date.number = days ∧
    civilFromDays days = (date.year, (date.month : Int), (date.day : Int)) := by
  obtain ⟨doe, hdoe⟩ := Int.eq_ofNat_of_zero_le
    (Int.emod_nonneg (days + 719468) (show (146097 : Int) ≠ 0 by decide))
  have hlt : doe < 146097 := by omega
  obtain ⟨hyoe, hfirst, hlast⟩ := yearOfEra_spec hlt
  have hera : (days + 719468) / 146097 * 146097 + doe = days + 719468 := by
    rw [← hdoe]
    exact Int.ediv_mul_add_emod _ _
  rw [eraYearStart_succ hyoe ((days + 719468) / 146097)] at hlast
  obtain ⟨date, hnumber, hmonth, hyear, hday⟩ := exists_date
    (yearOfEra doe + (days + 719468) / 146097 * 400) (doe - eraYearStart (yearOfEra doe)) (by omega)
  refine ⟨date, ?_, ?_⟩
  · rw [hnumber, marchStart_era hyoe]
    omega
  · have hlow : marchMonth ((5 * (doe - eraYearStart (yearOfEra doe)) + 2) / 153) ≤
        doe - eraYearStart (yearOfEra doe) := by
      rw [marchMonth]
      omega
    simp only [civilFromDays, hdoe, yearOfEra_eq, doy_eq hlt, mp_eq, marchMonth_eq]
    generalize (5 * (doe - eraYearStart (yearOfEra doe)) + 2) / 153 = mp at hmonth hday hlow ⊢
    have hmonth' : (if (mp : Int) < 10 then (mp : Int) + 3 else mp - 9) = date.month := by
      rw [hmonth]
      split_ifs <;> omega
    rw [hmonth', hyear, hday]
    refine Prod.ext ?_ (Prod.ext rfl ?_)
    · split_ifs <;> omega
    · push_cast
      omega

/-! ## The text -/

theorem valueFrom_zeros (n : Nat) : Text.valueFrom 10 0 (List.replicate n '0') = some 0 := by
  induction n with
  | zero => rfl
  | succ n ih => exact ih

/-- A number that fits is written with exactly so many digits. -/
theorem padded_eq {width n : Nat} (hwidth : 0 < width) (h : n < 10 ^ width) :
    padded width n = Text.fixed width n := by
  have hlength := (Nat.length_toDigits_le_iff (by decide) hwidth).mpr h
  have hpadded : padded width n =
      List.replicate (width - (Nat.toDigits 10 n).length) '0' ++ Nat.toDigits 10 n := by
    rw [padded, if_neg (Int.not_lt.mpr (Int.natCast_nonneg n))]
    rfl
  have hwidth' : (padded width n).length = width := by
    rw [hpadded, List.length_append, List.length_replicate]
    omega
  have hvalue : Text.valueFrom 10 0 (padded width n) = some n := by
    rw [hpadded, Text.valueFrom_append, valueFrom_zeros]
    exact Text.valueFrom_toDigits (by decide) (by decide) n
  have hfixed := Text.eq_fixed hvalue (by rwa [hwidth'])
  rwa [hwidth'] at hfixed

/-- Every second has a moment, and its text is what is written. -/
theorem rfc3339FromUnix_eq (secs : Int64) : ∃ m : Moment, m.At secs.toInt ∧
    (m.FourDigits → rfc3339FromUnix secs = m.text) := by
  obtain ⟨time, htime⟩ := Int.eq_ofNat_of_zero_le
    (Int.emod_nonneg secs.toInt (show (86400 : Int) ≠ 0 by decide))
  obtain ⟨date, hnumber, hcivil⟩ := civilFromDays_spec (secs.toInt / 86400)
  have hlt : time < 86400 := by omega
  refine ⟨⟨date, time / 3600, time % 3600 / 60, time % 60, by omega, by omega, by omega⟩, ?_, ?_⟩
  · refine ⟨secs.toInt / 86400, daysBetween_iff.mpr ?_, ?_⟩
    · rw [hnumber, Date.number_epoch, zero_add]
    · push_cast
      omega
  · rintro ⟨hlow, hhigh⟩
    change 0 ≤ date.year at hlow
    change date.year ≤ 9999 at hhigh
    have hyear : padded 4 date.year = Text.fixed 4 date.year.toNat := by
      rw [← padded_eq (by decide) (by omega), Int.toNat_of_nonneg hlow]
    have hmonth := date.month_le
    have hday := date.day_lt
    have hh : (time : Int).tdiv 3600 = (time / 3600 : Nat) := tdiv_natCast time 3600
    have hm : ((time : Int).tmod 3600).tdiv 60 = (time % 3600 / 60 : Nat) :=
      tdiv_natCast (time % 3600) 60
    have hs : (time : Int).tmod 60 = (time % 60 : Nat) := rfl
    simp only [rfc3339FromUnix, htime, hcivil, Moment.text, hyear, hh, hm, hs]
    rw [padded_eq (by decide) (by omega), padded_eq (by decide) (by omega),
      padded_eq (by decide) (by omega), padded_eq (by decide) (by omega),
      padded_eq (by decide) (by omega)]

/-- Every timestamp is at one moment of the calendar. In the years that four digits hold it is
written as that moment, and what is written is ordered as the timestamps are. -/
theorem rfc3339FromUnix_spec (secs : Int64) : ∃ m : Moment,
    m.At secs.toInt ∧ (∀ m' : Moment, m'.At secs.toInt → m' = m) ∧
    (m.FourDigits → rfc3339FromUnix secs = m.text ∧
      ∀ (secs' : Int64) (m' : Moment), m'.At secs'.toInt → m'.FourDigits →
        Text.order (rfc3339FromUnix secs) (rfc3339FromUnix secs') =
          compare secs.toInt secs'.toInt) := by
  obtain ⟨m, hm, htext⟩ := rfc3339FromUnix_eq secs
  refine ⟨m, hm, fun m' hm' => hm'.eq hm, fun hdigits => ⟨htext hdigits, ?_⟩⟩
  intro secs' m' hm' hdigits'
  obtain ⟨m'', hm'', htext'⟩ := rfc3339FromUnix_eq secs'
  obtain rfl := hm''.eq hm'
  rw [htext hdigits, htext' hdigits', Moment.order_text hm hm' hdigits hdigits']

/-- A leap day. -/
theorem rfc3339FromUnix_spec_leap :
    rfc3339FromUnix 1709164800 = "2024-02-29T00:00:00Z".toList := by
  have hat : (⟨⟨2024, 2, 29, by decide, by decide, by decide, by decide⟩, 0, 0, 0, by decide,
      by decide, by decide⟩ : Moment).At (1709164800 : Int64).toInt :=
    Moment.at_iff.mpr (by decide)
  obtain ⟨m, -, hunique, htext⟩ := rfc3339FromUnix_spec 1709164800
  obtain rfl := hunique _ hat
  exact (htext ⟨by decide, by decide⟩).1

end Bolide.Cli
