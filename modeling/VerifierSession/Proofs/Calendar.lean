import Mathlib.Data.Int.Init
import Mathlib.Tactic.IntervalCases
import VerifierSession.Log.Calendar

/-!
# Days of the calendar

The calendar is told by the lengths of its months.  A date is so many days after the first of
January 1970 as there are in the years, months and days between, and before it in the same way.

* `Date.monthDays`: the length of a month, `Date.IsValid` for the dates that there are;
* `Date.count`: the days from the first of January 1970 to a date;
* `Date.yearOfEra_spec` and `Date.monthFromMarch_spec`: where a day of four hundred years, and a day
  of a year that begins in March, falls;
* `Date.isValid_ofDay` and `Date.count_ofDay`: the date of a day is there, and counting gives the
  day back, before 1970 and after.
-/

namespace VerifierSession
namespace Date

/-! ## The calendar -/

/-- Every fourth year is a leap year, but of those that end a century only every fourth. -/
def IsLeap (year : Int) : Prop :=
  4 ∣ year ∧ (100 ∣ year → 400 ∣ year)

instance (year : Int) : Decidable (IsLeap year) :=
  inferInstanceAs (Decidable (_ ∧ _))

def monthDays (year : Int) (month : Nat) : Nat :=
  match month with
  | 2 => if IsLeap year then 29 else 28
  | 4 | 6 | 9 | 11 => 30
  | _ => 31

/-- The days of the first months of a year. -/
def daysOfMonths (year : Int) (months : Nat) : Nat :=
  match months with
  | 0 => 0
  | months + 1 => daysOfMonths year months + monthDays year (months + 1)

def yearDays (year : Int) : Nat :=
  daysOfMonths year 12

/-- The days of some years, from the first of them on. -/
def daysOfYears (first : Int) (years : Nat) : Nat :=
  match years with
  | 0 => 0
  | years + 1 => yearDays first + daysOfYears (first + 1) years

/-- The days from the first of January 1970 to that of a year; only one of the two counts is not 0. -/
def daysToYear (year : Int) : Int :=
  (daysOfYears 1970 (year - 1970).toNat : Int) - daysOfYears year (1970 - year).toNat

/-- The days from the first of January of a year to the first of a month. -/
def daysToMonth (year : Int) (month : Nat) : Nat :=
  daysOfMonths year (month - 1)

/-- The days from the first of January 1970 to a date. -/
def count (date : Date) : Int :=
  daysToYear date.year + daysToMonth date.year date.month + date.day - 1

/-- The year has the month, and the month has the day. -/
def IsValid (date : Date) : Prop :=
  (1 ≤ date.month ∧ date.month ≤ 12) ∧ 1 ≤ date.day ∧ date.day ≤ monthDays date.year date.month

instance (date : Date) : Decidable date.IsValid :=
  inferInstanceAs (Decidable (_ ∧ _))

/-! ## Years -/

/-- One more day in a leap year. -/
def leapDay (year : Int) : Nat :=
  if IsLeap year then 1 else 0

theorem leapDay_le (year : Int) : leapDay year ≤ 1 := by
  unfold leapDay
  split <;> omega

theorem monthDays_february (year : Int) : monthDays year 2 = 28 + leapDay year := by
  show (if IsLeap year then 29 else 28) = 28 + if IsLeap year then 1 else 0
  split <;> rfl

theorem yearDays_eq (year : Int) : yearDays year = 365 + leapDay year := by
  have hmonths : yearDays year = 337 + monthDays year 2 := by
    simp only [yearDays, daysOfMonths, monthDays]
    omega
  rw [hmonths, monthDays_february]
  omega

theorem daysOfYears_succ (first : Int) (years : Nat) :
    daysOfYears first (years + 1) = daysOfYears first years + yearDays (first + years) := by
  induction years generalizing first with
  | zero => simp [daysOfYears]
  | succ years ih =>
      have hlast : first + 1 + (years : Int) = first + (years + 1 : Nat) := by omega
      rw [daysOfYears, ih, hlast, daysOfYears, Nat.add_assoc]

theorem daysToYear_succ (year : Int) :
    daysToYear (year + 1) = daysToYear year + yearDays year := by
  unfold daysToYear
  rcases Int.lt_or_le year 1970 with hbefore | hbehind
  · -- The year drops out of those before 1970.
    obtain ⟨years, hyears⟩ : ∃ years : Nat, 1970 - year = years + 1 :=
      ⟨(1969 - year).toNat, by omega⟩
    have hnone : (year - 1970).toNat = 0 ∧ (year + 1 - 1970).toNat = 0 := by omega
    have hfrom : (1970 - year).toNat = years + 1 ∧ (1970 - (year + 1)).toNat = years := by omega
    rw [hnone.1, hnone.2, hfrom.1, hfrom.2]
    simp only [daysOfYears]
    omega
  · obtain ⟨years, hyears⟩ := Int.eq_ofNat_of_zero_le (Int.sub_nonneg_of_le hbehind)
    have hnone : (1970 - year).toNat = 0 ∧ (1970 - (year + 1)).toNat = 0 := by omega
    have hfrom : (year - 1970).toNat = years ∧ (year + 1 - 1970).toNat = years + 1 := by omega
    have hlast : 1970 + (years : Int) = year := by omega
    rw [hnone.1, hnone.2, hfrom.1, hfrom.2, daysOfYears_succ, hlast]
    simp only [daysOfYears]
    omega

def leapDays (year : Int) : Int :=
  year / 4 - year / 100 + year / 400

theorem leapDays_succ (year : Int) : leapDays year = leapDays (year - 1) + leapDay year := by
  unfold leapDays leapDay
  by_cases h : IsLeap year
  · rw [if_pos h]
    unfold IsLeap at h
    omega
  · rw [if_neg h]
    unfold IsLeap at h
    omega

theorem daysToYear_eq (year : Int) :
    daysToYear year = 365 * (year - 1970) + (leapDays (year - 1) - leapDays 1969) := by
  have hstep (y : Int) :
      daysToYear (y + 1) = daysToYear y + 365 + (leapDays y - leapDays (y - 1)) := by
    have hleap := leapDays_succ y
    rw [daysToYear_succ, yearDays_eq]
    omega
  induction year using Int.inductionOn' (b := 1970) with
  | zero => simp [daysToYear]
  | succ y _ ih =>
      rw [hstep, ih, Int.add_sub_cancel]
      omega
  | pred y _ ih =>
      have hlast := hstep (y - 1)
      rw [Int.sub_add_cancel, ih] at hlast
      omega

/-! ## Four hundred years -/

theorem yearOfEra_mono {a b : Nat} (h : a ≤ b) (hb : b < 146097) : yearOfEra a ≤ yearOfEra b := by
  have hyears : a - a / 1460 ≤ b - b / 1460 := by omega
  have hcenturies : a / 36524 - a / 146096 ≤ b / 36524 - b / 146096 := by omega
  unfold yearOfEra
  omega

/-- The years of an era are right on their first and on their last days. -/
theorem yearOfEra_ends : ∀ y < 400, yearOfEra (daysBeforeYear y) = y ∧
    yearOfEra (daysBeforeYear (y + 1) + (y + 1) / 400 - 1) = y := by
  decide +kernel

/-- A day of an era falls into its year, the last of which has one more leap day. -/
theorem yearOfEra_spec {day : Nat} (h : day < 146097) :
    yearOfEra day < 400 ∧ daysBeforeYear (yearOfEra day) ≤ day ∧
      day < daysBeforeYear (yearOfEra day + 1) + (yearOfEra day + 1) / 400 := by
  have hlast : yearOfEra day < 400 := by
    have hmono := yearOfEra_mono (Nat.le_of_lt_succ h) (by decide)
    have hend : yearOfEra 146096 = 399 := by decide
    omega
  -- Years in between are right too, as a later day has no earlier year.
  generalize hyear : yearOfEra day = year at hlast
  refine ⟨hlast, ?_, ?_⟩
  · by_contra hearly
    have hpositive : 0 < year := by
      by_contra hfirst
      have hzero : year = 0 := by omega
      exact hearly (hzero ▸ Nat.zero_le _)
    have hend := (yearOfEra_ends (year - 1) (by omega)).2
    rw [Nat.sub_add_cancel hpositive, Nat.div_eq_of_lt hlast, Nat.add_zero] at hend
    have hmono := yearOfEra_mono (a := day) (b := daysBeforeYear year - 1) (by omega)
      (by unfold daysBeforeYear; omega)
    omega
  · by_contra hlate
    by_cases hfinal : year = 399
    · have hall : daysBeforeYear 400 + 400 / 400 = 146097 := by decide
      rw [hfinal, hall] at hlate
      omega
    · have hstart := (yearOfEra_ends (year + 1) (by omega)).1
      have hmono := yearOfEra_mono (a := daysBeforeYear (year + 1)) (b := day) (by omega) h
      omega

/-! ## Months -/

theorem monthFromMarch_spec {day : Nat} (h : day < 366) :
    monthFromMarch day < 12 ∧ daysBeforeMonth (monthFromMarch day) ≤ day ∧
      day < daysBeforeMonth (monthFromMarch day + 1) := by
  unfold daysBeforeMonth monthFromMarch
  omega

theorem monthDays_fromMarch (year : Int) {fromMarch : Nat} (h : fromMarch < 11) :
    daysBeforeMonth fromMarch +
        monthDays year (if fromMarch < 10 then fromMarch + 3 else fromMarch - 9) =
      daysBeforeMonth (fromMarch + 1) := by
  interval_cases fromMarch <;> rfl

theorem daysToMonth_succ (year : Int) (month : Nat) :
    daysToMonth year (month + 2) = daysToMonth year (month + 1) + monthDays year (month + 1) :=
  rfl

theorem daysToMonth_of_le_two (year : Int) {month : Nat} (h : 1 ≤ month ∧ month ≤ 2) :
    daysToMonth year month = 31 * (month - 1) := by
  obtain rfl | rfl : month = 1 ∨ month = 2 := by omega
  · rfl
  · rfl

theorem daysToMonth_fromMarch (year : Int) {fromMarch : Nat} (h : fromMarch < 10) :
    daysToMonth year (fromMarch + 3) = 59 + leapDay year + daysBeforeMonth fromMarch := by
  induction fromMarch with
  | zero =>
      have hbefore : daysBeforeMonth 0 = 0 := rfl
      rw [Nat.zero_add, daysToMonth_succ, daysToMonth_of_le_two year (by omega),
        monthDays_february]
      omega
  | succ fromMarch ih =>
      have hmonth := monthDays_fromMarch year (show fromMarch < 11 by omega)
      rw [if_pos (show fromMarch < 10 by omega)] at hmonth
      have hnext : daysToMonth year (fromMarch + 1 + 3) =
          daysToMonth year (fromMarch + 3) + monthDays year (fromMarch + 3) :=
        daysToMonth_succ year (fromMarch + 2)
      rw [hnext, ih (by omega), ← hmonth, Nat.add_assoc]

/-! ## Dates -/

/-- The date of a day of a year that begins in March. -/
def ofYearDay (year : Int) (day : Nat) : Date :=
  let fromMarch := monthFromMarch day
  let month := if fromMarch < 10 then fromMarch + 3 else fromMarch - 9
  ⟨year + (if month ≤ 2 then 1 else 0), month, day - daysBeforeMonth fromMarch + 1⟩

section YearDay

variable {year : Int} {day : Nat} (h : day < 365 + leapDay (year + 1))
include h

theorem lt_of_yearDay : day < 366 := by
  have hleap := leapDay_le (year + 1)
  omega

theorem isValid_ofYearDay : (ofYearDay year day).IsValid := by
  obtain ⟨hmonth, hlow, hhigh⟩ := monthFromMarch_spec (lt_of_yearDay h)
  unfold ofYearDay IsValid
  generalize monthFromMarch day = fromMarch at hmonth hlow hhigh
  by_cases hlast : fromMarch = 11
  · -- February ends the year, so it is the length of the year that bounds the day.
    subst hlast
    have hbefore : daysBeforeMonth 11 = 337 := rfl
    have hfebruary := monthDays_february (year + 1)
    simp only [Nat.reduceLT, Nat.reduceSub, if_false, Nat.reduceLeDiff, if_true, and_self, true_and]
    omega
  · have hlength := monthDays_fromMarch (year + if (if fromMarch < 10 then fromMarch + 3
      else fromMarch - 9) ≤ 2 then 1 else 0) (by omega : fromMarch < 11)
    refine ⟨?_, ?_, ?_⟩
    · dsimp only
      split <;> omega
    · dsimp only
      omega
    · dsimp only
      omega

/-- The first of March of 1970 is 59 days behind the first of January. -/
theorem count_ofYearDay :
    (ofYearDay year day).count =
      365 * (year - 1970) + (leapDays year - leapDays 1969) + 59 + day := by
  obtain ⟨hmonth, hlow, hhigh⟩ := monthFromMarch_spec (lt_of_yearDay h)
  rw [count, daysToYear_eq]
  unfold ofYearDay
  generalize monthFromMarch day = fromMarch at hmonth hlow hhigh
  by_cases hspring : fromMarch < 10
  · -- The leap day of the year is before March.
    have hleap := leapDays_succ year
    have hmarch : ¬ fromMarch + 3 ≤ 2 := by omega
    simp only [hspring, hmarch, if_true, if_false, Int.add_zero,
      daysToMonth_fromMarch year hspring]
    omega
  · have hwinter : 1 ≤ fromMarch - 9 ∧ fromMarch - 9 ≤ 2 := by omega
    simp only [hspring, hwinter.2, if_true, if_false, Int.add_sub_cancel,
      daysToMonth_of_le_two _ hwinter]
    unfold daysBeforeMonth at *
    omega

end YearDay

theorem daysBeforeYear_succ (era : Int) {year : Nat} (h : year < 400) :
    daysBeforeYear (year + 1) + (year + 1) / 400 =
      daysBeforeYear year + (365 + leapDay (era * 400 + year + 1)) := by
  unfold daysBeforeYear leapDay
  by_cases hleap : IsLeap (era * 400 + year + 1)
  · rw [if_pos hleap]
    unfold IsLeap at hleap
    omega
  · rw [if_neg hleap]
    unfold IsLeap at hleap
    omega

/-- Every day is a day of a year that begins in March, of an era. -/
theorem exists_ofDay_eq (day : Int) :
    ∃ (era : Int) (year yearDay : Nat), year < 400 ∧
      yearDay < 365 + leapDay (era * 400 + year + 1) ∧
      day + epoch = era * eraDays + (daysBeforeYear year + yearDay : Nat) ∧
      ofDay day = ofYearDay (era * 400 + year) yearDay := by
  have hera : 0 ≤ eraDays := by decide
  have hshift : 0 ≤ (day + epoch).fmod eraDays ∧ (day + epoch).fmod eraDays < eraDays ∧
      day + epoch = (day + epoch).fdiv eraDays * eraDays + (day + epoch).fmod eraDays := by
    rw [Int.fdiv_eq_ediv_of_nonneg _ hera, Int.fmod_eq_emod_of_nonneg _ hera]
    unfold eraDays
    omega
  obtain ⟨hlow, hhigh, hsplit⟩ := hshift
  have hday : ((day + epoch).fmod eraDays).toNat < 146097 := by
    unfold eraDays at *
    omega
  obtain ⟨hyear, hstart, hstop⟩ := yearOfEra_spec hday
  refine ⟨(day + epoch).fdiv eraDays, _, ((day + epoch).fmod eraDays).toNat -
    daysBeforeYear (yearOfEra ((day + epoch).fmod eraDays).toNat), hyear, ?_, ?_, rfl⟩
  · rw [daysBeforeYear_succ ((day + epoch).fdiv eraDays) hyear] at hstop
    omega
  · rw [Nat.add_sub_of_le hstart, Int.toNat_of_nonneg hlow]
    exact hsplit

theorem isValid_ofDay (day : Int) : (ofDay day).IsValid := by
  obtain ⟨era, year, yearDay, -, hyearDay, -, hdate⟩ := exists_ofDay_eq day
  rw [hdate]
  exact isValid_ofYearDay hyearDay

/-- Counting the days from 1970 to the date of a day gives the day back. -/
theorem count_ofDay (day : Int) : (ofDay day).count = day := by
  obtain ⟨era, year, yearDay, hyear, hyearDay, hday, hdate⟩ := exists_ofDay_eq day
  rw [hdate, count_ofYearDay hyearDay]
  unfold leapDays
  unfold epoch eraDays daysBeforeYear at hday
  omega

end Date
end VerifierSession
