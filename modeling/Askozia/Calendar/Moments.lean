import Mathlib.Order.Bounds.Basic
import Mathlib.Data.Nat.Notation

/-!
# Dates and moments of the Gregorian calendar

A date has a day its month has, a moment is a minute of a date. Dates and moments come one after the
other: by year, month and day, and by the time of day.

* `Date.next_le_of_lt`: there is no date between one and the next;
* `isLeast_firstAt`: the first moment from one on that has a given time of day.
-/

namespace Askozia
namespace Calendar

/-! ## Dates -/

/-- A leap year. -/
def isLeap (year : ℕ) : Bool := year % 4 == 0 && (year % 100 != 0 || year % 400 == 0)

/-- The number of days of a month. -/
def daysIn (year month : ℕ) : ℕ :=
  if month = 2 then (if isLeap year then 29 else 28)
  else if month = 4 ∨ month = 6 ∨ month = 9 ∨ month = 11 then 30
  else 31

/-- A date. -/
@[ext]
structure Date where
  year : ℕ
  month : ℕ
  day : ℕ
  month_pos : 1 ≤ month
  month_le : month ≤ 12
  day_pos : 1 ≤ day
  day_le : day ≤ daysIn year month
deriving DecidableEq, Repr

instance : LT Date :=
  ⟨fun d e => d.year < e.year ∨ d.year = e.year ∧ (d.month < e.month ∨ d.month = e.month ∧ d.day < e.day)⟩

theorem Date.lt_def {d e : Date} : d < e ↔
    d.year < e.year ∨ d.year = e.year ∧ (d.month < e.month ∨ d.month = e.month ∧ d.day < e.day) := Iff.rfl

theorem one_le_daysIn (year month : ℕ) : 1 ≤ daysIn year month := by
  unfold daysIn
  split_ifs <;> omega

/-- The next day. -/
def Date.next (d : Date) : Date :=
  if h : d.day < daysIn d.year d.month then
    ⟨d.year, d.month, d.day + 1, d.month_pos, d.month_le, by omega, h⟩
  else if h' : d.month < 12 then
    ⟨d.year, d.month + 1, 1, by omega, h', le_refl 1, one_le_daysIn _ _⟩
  else ⟨d.year + 1, 1, 1, le_refl 1, by omega, le_refl 1, one_le_daysIn _ _⟩

section Dates

variable {d e f : Date}

/-- The next day is tomorrow, or the first of a month. -/
theorem Date.next_cases (d : Date) :
    (d.day < daysIn d.year d.month ∧ d.next.year = d.year ∧ d.next.month = d.month ∧
      d.next.day = d.day + 1) ∨
    (d.day = daysIn d.year d.month ∧ d.month < 12 ∧ d.next.year = d.year ∧ d.next.month = d.month + 1 ∧
      d.next.day = 1) ∨
    (d.day = daysIn d.year d.month ∧ d.month = 12 ∧ d.next.year = d.year + 1 ∧ d.next.month = 1 ∧
      d.next.day = 1) := by
  have hday := d.day_le
  have hmonth := d.month_le
  unfold Date.next
  by_cases h : d.day < daysIn d.year d.month
  · rw [dif_pos h]
    exact .inl ⟨h, rfl, rfl, rfl⟩
  · rw [dif_neg h]
    by_cases h' : d.month < 12
    · rw [dif_pos h']
      exact .inr (.inl ⟨by omega, h', rfl, rfl, rfl⟩)
    · rw [dif_neg h']
      exact .inr (.inr ⟨by omega, by omega, rfl, rfl, rfl⟩)

theorem Date.lt_irrefl : ¬ d < d := by
  rw [Date.lt_def]
  omega

theorem Date.lt_trans (h : d < e) (h' : e < f) : d < f := by
  rw [Date.lt_def] at h h' ⊢
  omega

theorem Date.lt_next : d < d.next := by
  have hcases := d.next_cases
  rw [Date.lt_def]
  omega

/-- No date is between a date and the next one. -/
theorem Date.next_le_of_lt (h : d < e) : d.next < e ∨ d.next = e := by
  have hcases := d.next_cases
  have hmonth := e.month_pos
  have hday := e.day_pos
  have hfields : d.next < e ∨ d.next.year = e.year ∧ d.next.month = e.month ∧ d.next.day = e.day := by
    rw [Date.lt_def] at h ⊢
    have hle := e.day_le
    have hmonths := e.month_le
    -- in the same month there is no day after the last one
    have hsame : d.year = e.year → d.month = e.month → daysIn d.year d.month = daysIn e.year e.month := by
      intro hyear hmonth
      rw [hyear, hmonth]
    omega
  rcases hfields with hlt | ⟨hyear, hmonth, hday⟩
  · exact .inl hlt
  · exact .inr (Date.ext hyear hmonth hday)

end Dates

/-! ## Moments -/

/-- A time of day. -/
@[ext]
structure Clock where
  hour : ℕ
  minute : ℕ
  hour_lt : hour < 24
  minute_lt : minute < 60
deriving DecidableEq, Repr

/-- A minute of a date. -/
@[ext]
structure Moment where
  date : Date
  clock : Clock
deriving DecidableEq, Repr

/-- The minutes of the day before a time. -/
def Clock.minutes (c : Clock) : ℕ := c.hour * 60 + c.minute

instance : LE Moment :=
  ⟨fun m n => m.date < n.date ∨ m.date = n.date ∧ m.clock.minutes ≤ n.clock.minutes⟩

theorem Moment.le_def {m n : Moment} :
    m ≤ n ↔ m.date < n.date ∨ m.date = n.date ∧ m.clock.minutes ≤ n.clock.minutes := Iff.rfl

/-- The moment from one on that has a time of day. -/
def firstAt (now : Moment) (wake : Clock) : Moment :=
  if now.clock.minutes ≤ wake.minutes then ⟨now.date, wake⟩ else ⟨now.date.next, wake⟩

section Moments

variable {m n : Moment}

theorem Moment.le_antisymm (h : m ≤ n) (h' : n ≤ m) : m = n := by
  rw [Moment.le_def] at h h'
  rcases h with h | ⟨hdate, hclock⟩
  · rcases h' with h' | ⟨hdate, -⟩
    · exact absurd (Date.lt_trans h h') Date.lt_irrefl
    · rw [hdate] at h
      exact absurd h Date.lt_irrefl
  · rcases h' with h' | ⟨-, hclock'⟩
    · rw [hdate] at h'
      exact absurd h' Date.lt_irrefl
    · refine Moment.ext hdate (Clock.ext ?_ ?_)
      · have := m.clock.minute_lt
        have := n.clock.minute_lt
        unfold Clock.minutes at hclock hclock'
        omega
      · have := m.clock.minute_lt
        have := n.clock.minute_lt
        unfold Clock.minutes at hclock hclock'
        omega

/-- It is the first one. -/
theorem isLeast_firstAt (now : Moment) (wake : Clock) :
    IsLeast {w | now ≤ w ∧ w.clock = wake} (firstAt now wake) := by
  unfold firstAt
  split_ifs with htoday
  · constructor
    · exact ⟨.inr ⟨rfl, htoday⟩, rfl⟩
    · rintro w ⟨hnow, hclock⟩
      rcases hnow with hlt | ⟨hdate, -⟩
      · exact .inl hlt
      · exact .inr ⟨hdate, by rw [hclock]⟩
  · constructor
    · exact ⟨.inl Date.lt_next, rfl⟩
    · rintro w ⟨hnow, hclock⟩
      rcases hnow with hlt | ⟨-, hle⟩
      · rcases Date.next_le_of_lt hlt with hlt' | heq
        · exact .inl hlt'
        · exact .inr ⟨heq, by rw [hclock]⟩
      · rw [hclock] at hle
        exact absurd hle htoday

end Moments

end Calendar
end Askozia
