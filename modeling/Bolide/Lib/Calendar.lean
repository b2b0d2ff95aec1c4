/-
Bolide.Lib.Calendar — the proleptic Gregorian calendar, day by day.

A `Date` has a month, and a day that exists in that month of that year, and
`Date.next` is the day after it. `DaysBetween` counts days one by one, forwards
or backwards. `Date.number` is the count from 1970-01-01 without counting:
`number_next` ties the two together, and `compare_number` says that later
dates have larger numbers, so that a date is known by its number.

A `Moment` is a date and a time of day. Moments are ordered as their texts
are (`order_text`), in the years that four digits hold.
-/
import Bolide.Lib.Order

namespace Lib.Calendar

/-! ## Dates -/

/-- The Gregorian rule. -/
def leapYear (year : Int) : Bool := year % 4 = 0 ∧ (year % 100 ≠ 0 ∨ year % 400 = 0)

/-- How many days a month has. -/
def monthLength (year : Int) : Nat → Nat
  | 2 => if leapYear year then 29 else 28
  | 4 | 6 | 9 | 11 => 30
  | _ => 31

@[ext]
structure Date where
  year : Int
  month : Nat
  day : Nat
  month_pos : 1 ≤ month
  month_le : month ≤ 12
  day_pos : 1 ≤ day
  day_le : day ≤ monthLength year month

namespace Date

theorem monthLength_pos (year : Int) (month : Nat) : 1 ≤ monthLength year month := by
  unfold monthLength
  split
  · split <;> decide
  all_goals decide

/-- The day after. -/
def next (d : Date) : Date :=
  if hday : d.day < monthLength d.year d.month then
    { d with day := d.day + 1, day_pos := by omega, day_le := hday }
  else if hmonth : d.month < 12 then
    ⟨d.year, d.month + 1, 1, by omega, hmonth, le_rfl, monthLength_pos _ _⟩
  else ⟨d.year + 1, 1, 1, le_rfl, by decide, le_rfl, monthLength_pos _ _⟩

/-- 1970-01-01. -/
def epoch : Date := ⟨1970, 1, 1, by decide, by decide, by decide, by decide⟩

end Date

/-- `n` days lead from `a` to `b`, or back if `n` is negative. -/
def DaysBetween (a b : Date) (n : Int) : Prop :=
  (0 ≤ n ∧ Date.next^[n.toNat] a = b) ∨ (n < 0 ∧ Date.next^[(-n).toNat] b = a)

/-! ## The number of a date -/

/-- How many days of a year are before a month. -/
def monthStart (year : Int) : Nat → Nat
  | 0 | 1 => 0
  | month + 2 => monthStart year (month + 1) + monthLength year (month + 1)

/-- How many days after 1970-01-01 a year starts. -/
def yearStart (year : Int) : Int :=
  365 * year + (year + 3) / 4 - (year + 99) / 100 + (year + 399) / 400 - 719528

theorem leapYear_iff (year : Int) :
    leapYear year = true ↔ year % 4 = 0 ∧ (year % 100 ≠ 0 ∨ year % 400 = 0) := by
  simp [leapYear]

/-- A year has 365 days, or 366. -/
theorem yearStart_succ (year : Int) :
    yearStart (year + 1) = yearStart year + monthStart year 12 + 31 := by
  have hlength : (monthStart year 12 : Int) + 31 = if leapYear year then 366 else 365 := by
    cases h : leapYear year <;> simp [monthStart, monthLength, h]
  have hleap := leapYear_iff year
  rw [add_assoc, hlength, yearStart, yearStart]
  split
  · next h =>
      rw [hleap] at h
      omega
  · next h =>
      rw [hleap] at h
      omega

theorem yearStart_mono {year year' : Int} (h : year ≤ year') : yearStart year ≤ yearStart year' := by
  rw [yearStart, yearStart]
  omega

theorem monthStart_succ (year : Int) {month : Nat} (h : 1 ≤ month) :
    monthStart year (month + 1) = monthStart year month + monthLength year month := by
  cases month with
  | zero => cases h
  | succ month => rfl

theorem monthStart_mono (year : Int) {month month' : Nat} (h : month ≤ month') :
    monthStart year month ≤ monthStart year month' := by
  refine monotone_nat_of_le_succ (fun month => ?_) h
  cases month with
  | zero => exact le_rfl
  | succ month => exact Nat.le_add_right _ _

namespace Date

/-- How many days after 1970-01-01 a date is. -/
def number (d : Date) : Int := yearStart d.year + monthStart d.year d.month + d.day - 1

theorem number_epoch : epoch.number = 0 := by decide

/-- **Day by day**: the day after has the next number. -/
theorem number_next (d : Date) : d.next.number = d.number + 1 := by
  unfold next
  split
  · simp only [number]
    omega
  · next hday =>
      have hlast : d.day = monthLength d.year d.month := le_antisymm d.day_le (not_lt.mp hday)
      split
      · simp only [number, monthStart_succ d.year d.month_pos, hlast]
        omega
      · next hmonth =>
          have hdecember : d.month = 12 := le_antisymm d.month_le (not_lt.mp hmonth)
          rw [hdecember] at hlast
          simp only [number, hdecember, hlast, yearStart_succ, monthStart, monthLength]
          omega

theorem number_iterate (d : Date) (n : Nat) : (next^[n] d).number = d.number + n := by
  induction n with
  | zero => simp
  | succ n ih =>
      rw [Function.iterate_succ_apply', number_next, ih]
      omega

theorem day_lt (d : Date) : d.day < 32 := by
  have hday := d.day_le
  have hlength : monthLength d.year d.month ≤ 31 := by
    unfold monthLength
    split
    · split <;> decide
    all_goals decide
  omega

/-! ## Later dates -/

variable {a b : Date}

/-- A month ends before the next one starts. -/
theorem number_lt_of_month (hyear : a.year = b.year) (hmonth : a.month < b.month) :
    a.number < b.number := by
  have hstart := monthStart_succ a.year a.month_pos
  have hmono := monthStart_mono a.year (show a.month + 1 ≤ b.month from hmonth)
  have ha := a.day_le
  have hb := b.day_pos
  rw [number, number, ← hyear]
  omega

/-- A year ends before the next one starts. -/
theorem number_lt_of_year (hyear : a.year < b.year) : a.number < b.number := by
  have hstart := monthStart_succ a.year a.month_pos
  have hmono := monthStart_mono a.year (show a.month + 1 ≤ 13 by have := a.month_le; omega)
  have hdecember : monthStart a.year 13 = monthStart a.year 12 + 31 := rfl
  have hyears := yearStart_mono (show a.year + 1 ≤ b.year by omega)
  rw [yearStart_succ] at hyears
  have ha := a.day_le
  have hb := b.day_pos
  rw [number, number]
  omega

/-- **Later dates have larger numbers**. -/
theorem compare_number (a b : Date) : compare a.number b.number =
    (compare a.year b.year).then ((compare a.month b.month).then (compare a.day b.day)) := by
  rcases lt_trichotomy a.year b.year with hyear | hyear | hyear
  · rw [compare_lt_iff_lt.mpr hyear, compare_lt_iff_lt.mpr (number_lt_of_year hyear)]
    rfl
  · rw [compare_eq_iff_eq.mpr hyear, Ordering.eq_then]
    rcases lt_trichotomy a.month b.month with hmonth | hmonth | hmonth
    · rw [compare_lt_iff_lt.mpr hmonth, compare_lt_iff_lt.mpr (number_lt_of_month hyear hmonth)]
      rfl
    · have hmono : StrictMono fun day : Nat =>
          yearStart b.year + monthStart b.year b.month + (day : Int) - 1 := by
        intro day day' hday
        exact Int.sub_lt_sub_right (Int.add_lt_add_left (Int.ofNat_lt.mpr hday) _) 1
      rw [compare_eq_iff_eq.mpr hmonth, Ordering.eq_then, number, number, hyear, hmonth]
      exact compare_map hmono a.day b.day
    · rw [compare_gt_iff_gt.mpr hmonth,
        compare_gt_iff_gt.mpr (number_lt_of_month hyear.symm hmonth)]
      rfl
  · rw [compare_gt_iff_gt.mpr hyear, compare_gt_iff_gt.mpr (number_lt_of_year hyear)]
    rfl

/-- A date is known by its number. -/
theorem number_injective : Function.Injective number := by
  intro a b h
  have hcompare := compare_number a b
  rw [compare_eq_iff_eq.mpr h, eq_comm, Ordering.then_eq_eq, Ordering.then_eq_eq,
    compare_eq_iff_eq, compare_eq_iff_eq, compare_eq_iff_eq] at hcompare
  exact Date.ext hcompare.1 hcompare.2.1 hcompare.2.2

end Date

theorem daysBetween_iff {a b : Date} {n : Int} : DaysBetween a b n ↔ b.number = a.number + n := by
  have hiterate : ∀ (a b : Date) (n : Nat), Date.next^[n] a = b ↔ b.number = a.number + n := by
    intro a b n
    rw [← Date.number_injective.eq_iff, Date.number_iterate, eq_comm]
  rw [DaysBetween, hiterate, hiterate]
  omega

/-! ## Moments -/

/-- A date and a time of day. -/
@[ext]
structure Moment where
  date : Date
  hour : Nat
  minute : Nat
  second : Nat
  hour_lt : hour < 24
  minute_lt : minute < 60
  second_lt : second < 60

namespace Moment

/-- So many seconds lead from 1970-01-01T00:00:00 to this moment, counted day by day. -/
def At (m : Moment) (seconds : Int) : Prop :=
  ∃ days, DaysBetween Date.epoch m.date days ∧
    seconds = days * 86400 + m.hour * 3600 + m.minute * 60 + m.second

/-- `YYYY-MM-DDThh:mm:ssZ`. -/
def text (m : Moment) : Text :=
  Text.fixed 4 m.date.year.toNat ++ '-' :: Text.fixed 2 m.date.month ++
    '-' :: Text.fixed 2 m.date.day ++ 'T' :: Text.fixed 2 m.hour ++
    ':' :: Text.fixed 2 m.minute ++ ':' :: Text.fixed 2 m.second ++ ['Z']

/-- The years that four digits hold. -/
def FourDigits (m : Moment) : Prop := 0 ≤ m.date.year ∧ m.date.year ≤ 9999

variable {a b m : Moment} {seconds seconds' : Int}

theorem at_iff : m.At seconds ↔
    seconds = ((m.date.number * 24 + m.hour) * 60 + m.minute) * 60 + m.second := by
  simp only [At, daysBetween_iff, Date.number_epoch, zero_add]
  constructor
  · rintro ⟨days, rfl, rfl⟩
    ring
  · rintro rfl
    exact ⟨_, rfl, by ring⟩

/-- **Later moments are after more seconds**. -/
theorem compare_seconds (ha : a.At seconds) (hb : b.At seconds') :
    compare seconds seconds' = (compare a.date.number b.date.number).then
      ((compare a.hour b.hour).then ((compare a.minute b.minute).then
        (compare a.second b.second))) := by
  rw [at_iff.mp ha, at_iff.mp hb,
    compare_mul_add (Nat.cast_lt_ofNat.mpr a.second_lt) (Nat.cast_lt_ofNat.mpr b.second_lt),
    compare_mul_add (Nat.cast_lt_ofNat.mpr a.minute_lt) (Nat.cast_lt_ofNat.mpr b.minute_lt),
    compare_mul_add (Nat.cast_lt_ofNat.mpr a.hour_lt) (Nat.cast_lt_ofNat.mpr b.hour_lt),
    Ordering.then_assoc, Ordering.then_assoc]

theorem At.eq (ha : a.At seconds) (hb : b.At seconds) : a = b := by
  have hcompare := compare_seconds ha hb
  rw [compare_eq_iff_eq.mpr rfl, eq_comm, Ordering.then_eq_eq, Ordering.then_eq_eq,
    Ordering.then_eq_eq, compare_eq_iff_eq, compare_eq_iff_eq, compare_eq_iff_eq,
    compare_eq_iff_eq] at hcompare
  exact Moment.ext (Date.number_injective hcompare.1) hcompare.2.1 hcompare.2.2.1 hcompare.2.2.2

/-- Texts are ordered as the seconds are. -/
theorem order_text (ha : a.At seconds) (hb : b.At seconds') (ha' : a.FourDigits)
    (hb' : b.FourDigits) : Text.order a.text b.text = compare seconds seconds' := by
  have hyear : compare a.date.year.toNat b.date.year.toNat = compare a.date.year b.date.year := by
    rw [← compare_natCast, Int.toNat_of_nonneg ha'.1, Int.toNat_of_nonneg hb'.1]
  have hmonth := a.date.month_le
  have hmonth' := b.date.month_le
  have hday := a.date.day_lt
  have hday' := b.date.day_lt
  have hhour := a.hour_lt
  have hhour' := b.hour_lt
  have hminute := a.minute_lt
  have hminute' := b.minute_lt
  have hsecond := a.second_lt
  have hsecond' := b.second_lt
  obtain ⟨hlow, hhigh⟩ := ha'
  obtain ⟨hlow', hhigh'⟩ := hb'
  rw [compare_seconds ha hb, Date.compare_number, Ordering.then_assoc, Ordering.then_assoc, ← hyear]
  simp only [text, List.append_assoc, List.cons_append]
  rw [Text.order_fixed_append (by omega) (by omega), Text.order_cons_self,
    Text.order_fixed_append (by omega) (by omega), Text.order_cons_self,
    Text.order_fixed_append (by omega) (by omega), Text.order_cons_self,
    Text.order_fixed_append (by omega) (by omega), Text.order_cons_self,
    Text.order_fixed_append (by omega) (by omega), Text.order_cons_self,
    Text.order_fixed_append (by omega) (by omega), Text.order_self, Ordering.then_eq]

end Moment

end Lib.Calendar
