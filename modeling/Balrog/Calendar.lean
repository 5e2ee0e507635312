import Mathlib.Tactic.IntervalCases
import Mathlib.Tactic.SplitIfs

/-!
# Days since the epoch

The clock of the machine gives a date, and `__rtc_to_epoch` needs the days from 1970-01-01 to it.
`__rtc_days_from_civil` has no loop: years begin in March, so that the leap day is the last one,
and are counted in eras of 400 years. Here the formula is compared with the calendar, one day at a
time.

Values of type `long` are integers: a year comes from the 16 bits of `rtc_time_t`, and nothing
that is computed from one is large. Values of type `unsigned` are modulo 2^32.
-/

namespace Balrog.Calendar

/-- `__rtc_days_from_civil` -/
def daysFromCivil (year : Int) (month day : Nat) : Int :=
  let year := if month ≤ 2 then year - 1 else year
  let era := (if 0 ≤ year then year else year - 399).tdiv 400
  let yoe := ((year - era * 400) % 2 ^ 32).toNat
  let shifted := (month + if 2 < month then 2 ^ 32 - 3 else 9) % 2 ^ 32
  let doy := ((153 * shifted + 2) % 2 ^ 32 / 5 + day + (2 ^ 32 - 1)) % 2 ^ 32
  let doe : Nat := (yoe * 365 + yoe / 4 + (2 ^ 32 - yoe / 100) + doy) % 2 ^ 32
  era * 146097 + doe - 719468

/-- A date of the Gregorian calendar. -/
structure Date where
  year : Int
  month : Nat
  day : Nat

/-- Every fourth year is a leap year, and of the hundredth ones every fourth. -/
def Leap (year : Int) : Prop := year % 4 = 0 ∧ (year % 100 ≠ 0 ∨ year % 400 = 0)

instance (year : Int) : Decidable (Leap year) := inferInstanceAs (Decidable (_ ∧ _))

/-- The days of a month. -/
def monthLength (year : Int) (month : Nat) : Nat :=
  if month = 2 then if Leap year then 29 else 28
  else if month = 4 ∨ month = 6 ∨ month = 9 ∨ month = 11 then 30
  else 31

/-- The dates of the calendar from the year zero on. -/
structure Date.Valid (date : Date) : Prop where
  year : 0 ≤ date.year
  month : 1 ≤ date.month ∧ date.month ≤ 12
  day : 1 ≤ date.day ∧ date.day ≤ monthLength date.year date.month

/-- The next day of the calendar. -/
def Date.next (date : Date) : Date :=
  if date.day < monthLength date.year date.month then { date with day := date.day + 1 }
  else if date.month < 12 then { date with month := date.month + 1, day := 1 }
  else { year := date.year + 1, month := 1, day := 1 }

/-- The days from the epoch to a date, as the code counts them. -/
def Date.days (date : Date) : Int := daysFromCivil date.year date.month date.day

theorem monthLength_bounds (year : Int) (month : Nat) :
    28 ≤ monthLength year month ∧ monthLength year month ≤ 31 := by
  unfold monthLength
  split_ifs <;> omega

/-- February is longer in the years that the quotients of the formula count. -/
theorem february_length (year : Int) :
    (monthLength year 2 : Int) = 28 + (year / 4 - (year - 1) / 4) -
      (year / 100 - (year - 1) / 100) + (year / 400 - (year - 1) / 400) := by
  have february : monthLength year 2 = if Leap year then 29 else 28 := by simp [monthLength]
  rw [february]
  by_cases leap : Leap year
  · rw [if_pos leap]
    unfold Leap at leap
    omega
  · rw [if_neg leap]
    unfold Leap at leap
    omega

/-- The year and the month as the formula counts them, from March on. -/
def marchYear (year : Int) (month : Nat) : Int := if month ≤ 2 then year - 1 else year

@[inherit_doc marchYear] def marchMonth (month : Nat) : Nat :=
  if 2 < month then month - 3 else month + 9

/-- The formula without eras: no unsigned value wraps around. -/
theorem daysFromCivil_eq {year : Int} {month day : Nat} (isYear : 0 ≤ year)
    (isMonth : 1 ≤ month ∧ month ≤ 12) (isDay : 1 ≤ day ∧ day ≤ 31) :
    daysFromCivil year month day =
      365 * marchYear year month + marchYear year month / 4 - marchYear year month / 100 +
        marchYear year month / 400 + ((153 * marchMonth month + 2) / 5 : Nat) + day - 719469 := by
  have low : -1 ≤ marchYear year month := by
    unfold marchYear
    split <;> omega
  have shifted : (month + if 2 < month then 2 ^ 32 - 3 else 9) % 2 ^ 32 = marchMonth month ∧
      marchMonth month ≤ 11 := by
    unfold marchMonth
    split <;> omega
  have era : (if 0 ≤ marchYear year month then marchYear year month
      else marchYear year month - 399).tdiv 400 = marchYear year month / 400 := by
    split
    · next above => exact Int.tdiv_eq_ediv_of_nonneg above
    · next below =>
      have last : marchYear year month = -1 := by omega
      rw [last]
      decide
  unfold daysFromCivil
  rw [← marchYear]
  simp only [era, shifted.1]
  generalize marchYear year month = start at low ⊢
  generalize marchMonth month = position at shifted ⊢
  obtain ⟨yoe, isYoe⟩ : ∃ yoe : Nat, (start - start / 400 * 400) % 2 ^ 32 = yoe :=
    ⟨_, (Int.toNat_of_nonneg (by omega)).symm⟩
  have small : yoe < 400 ∧ start = start / 400 * 400 + yoe := by omega
  have quarters : start / 4 = start / 400 * 100 + (yoe / 4 : Nat) := by omega
  have hundreds : start / 100 = start / 400 * 4 + (yoe / 100 : Nat) := by omega
  have product : (153 * position + 2) % 2 ^ 32 = 153 * position + 2 :=
    Nat.mod_eq_of_lt (by omega)
  obtain ⟨before, isBefore, few⟩ : ∃ before, (153 * position + 2) / 5 = before ∧ before ≤ 337 :=
    ⟨_, rfl, by omega⟩
  have doy : (before + day + (2 ^ 32 - 1)) % 2 ^ 32 = before + day - 1 := by omega
  have doe : (yoe * 365 + yoe / 4 + (2 ^ 32 - yoe / 100) + (before + day - 1)) % 2 ^ 32 =
      yoe * 365 + yoe / 4 - yoe / 100 + (before + day - 1) := by omega
  rw [isYoe, Int.toNat_natCast, product, isBefore, doy, doe]
  omega

/-- One day of the calendar is one day of the formula. -/
theorem days_next {date : Date} (valid : date.Valid) : date.next.days = date.days + 1 := by
  obtain ⟨year, month, day⟩ := date
  obtain ⟨isYear, isMonth, isDay⟩ := valid
  have bounds := monthLength_bounds year month
  simp only at isYear isMonth isDay
  have today := daysFromCivil_eq isYear isMonth ⟨isDay.1, by omega⟩
  simp only [Date.next]
  split_ifs with inside earlier
  · have tomorrow := @daysFromCivil_eq year month (day + 1) isYear isMonth (by omega)
    simp only [Date.days, today, tomorrow]
    omega
  · have tomorrow := @daysFromCivil_eq year (month + 1) 1 isYear (by omega) (by omega)
    have last : day = monthLength year month := by omega
    simp only [Date.days, today, tomorrow]
    rw [last]
    by_cases isFebruary : month = 2
    · have length := february_length year
      rw [isFebruary]
      simp [marchYear, marchMonth]
      omega
    · clear today tomorrow last bounds inside isDay
      obtain ⟨first, _⟩ := isMonth
      unfold monthLength marchYear marchMonth
      interval_cases month <;> simp at isFebruary ⊢ <;> omega
  · have tomorrow := @daysFromCivil_eq (year + 1) 1 1 (by omega) (by omega) (by omega)
    have december : month = 12 := by omega
    subst december
    have length : monthLength year 12 = 31 := by simp [monthLength]
    simp only [Date.days, today, tomorrow]
    simp [marchYear, marchMonth]
    omega

theorem next_valid {date : Date} (valid : date.Valid) : date.next.Valid := by
  obtain ⟨isYear, isMonth, isDay⟩ := valid
  unfold Date.next
  split_ifs with inside earlier
  · exact ⟨isYear, isMonth, Nat.le_add_left 1 _, inside⟩
  · have bounds := monthLength_bounds date.year (date.month + 1)
    exact ⟨isYear, ⟨Nat.le_add_left 1 _, earlier⟩, le_refl 1, (by decide : 1 ≤ 28).trans bounds.1⟩
  · have bounds := monthLength_bounds (date.year + 1) 1
    exact ⟨Int.le_add_one isYear, ⟨le_refl 1, (by decide : 1 ≤ 12)⟩, le_refl 1,
      (by decide : 1 ≤ 28).trans bounds.1⟩

/-- The formula counts the days from 1970-01-01: none to it, and one more to each next day. -/
theorem days_counted :
    daysFromCivil 1970 1 1 = 0 ∧
      ∀ date : Date, date.Valid → date.next.Valid ∧ date.next.days = date.days + 1 := by
  refine ⟨by decide, fun date valid => ⟨next_valid valid, days_next valid⟩⟩

theorem days_counted_leap :
    (Date.mk 2024 2 28).Valid ∧ (Date.mk 2024 2 28).next.days = (Date.mk 2024 2 28).days + 1 := by
  have valid : (Date.mk 2024 2 28).Valid := ⟨by decide, by decide, by decide⟩
  exact ⟨valid, (days_counted.2 _ valid).2⟩

end Balrog.Calendar
