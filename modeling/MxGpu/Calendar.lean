import Mathlib.Order.Monotone.Basic
import Mathlib.Algebra.BigOperators.Group.List.Basic
import Mathlib.Algebra.GroupWithZero.Nat

/- The Gregorian calendar, also before it was made. Nothing here knows who asks for a date. -/
namespace Calendar

def IsLeap (year : Nat) : Prop := year % 4 = 0 ∧ year % 100 ≠ 0 ∨ year % 400 = 0

instance (year : Nat) : Decidable (IsLeap year) := inferInstanceAs (Decidable (_ ∨ _))

def daysInYear (year : Nat) : Nat := if IsLeap year then 366 else 365

def daysInMonth (year month : Nat) : Nat :=
  if month = 2 then if IsLeap year then 29 else 28
  else if month = 4 ∨ month = 6 ∨ month = 9 ∨ month = 11 then 30 else 31

structure Date where
  year : Nat
  month : Nat
  day : Nat
  deriving DecidableEq

namespace Date

structure Valid (d : Date) : Prop where
  month : 1 ≤ d.month ∧ d.month ≤ 12
  day : 1 ≤ d.day ∧ d.day ≤ daysInMonth d.year d.month

def next (d : Date) : Date :=
  if d.day < daysInMonth d.year d.month then { d with day := d.day + 1 }
  else if d.month < 12 then ⟨d.year, d.month + 1, 1⟩
  else ⟨d.year + 1, 1, 1⟩

def key (d : Date) : Nat := d.day + 64 * d.month + 1024 * d.year

end Date

def date : Nat → Date
  | 0 => ⟨0, 1, 1⟩
  | n + 1 => (date n).next

theorem daysInMonth_bounds (year month : Nat) :
    28 ≤ daysInMonth year month ∧ daysInMonth year month ≤ 31 := by
  unfold daysInMonth
  split <;> split <;> omega

theorem daysInYear_bounds (year : Nat) : 365 ≤ daysInYear year ∧ daysInYear year ≤ 366 := by
  unfold daysInYear
  split <;> omega

section Order

variable {d : Date}

theorem Date.Valid.next (valid : d.Valid) : d.next.Valid := by
  obtain ⟨⟨some_, last⟩, first, -⟩ := valid
  unfold Date.next
  split
  · rename_i inside
    exact ⟨⟨some_, last⟩, Nat.succ_pos _, inside⟩
  · split
    · rename_i before
      have long := (daysInMonth_bounds d.year (d.month + 1)).1
      exact ⟨⟨Nat.succ_pos _, before⟩, Nat.le_refl _, by simp only; omega⟩
    · have long := (daysInMonth_bounds (d.year + 1) 1).1
      exact ⟨⟨Nat.le_refl _, (by decide : 1 ≤ 12)⟩, Nat.le_refl _, by simp only; omega⟩

theorem Date.Valid.key_lt (valid : d.Valid) : d.key < d.next.key := by
  obtain ⟨⟨-, last⟩, -, inside⟩ := valid
  have short := (daysInMonth_bounds d.year d.month).2
  unfold Date.next Date.key
  split
  · simp only
    omega
  · split
    · simp only
      omega
    · simp only
      omega

theorem date_valid (n : Nat) : (date n).Valid := by
  induction n with
  | zero => exact ⟨⟨by decide, by decide⟩, by decide, by decide⟩
  | succ n ih => exact ih.next

theorem date_key_strictMono : StrictMono fun n => (date n).key :=
  strictMono_nat_of_lt_succ fun n => (date_valid n).key_lt

theorem date_injective : Function.Injective date := by
  intro m n same
  exact date_key_strictMono.injective (congrArg Date.key same)

end Order

section Numbers

def daysBeforeYear (year : Nat) : Nat :=
  365 * year + (year + 3) / 4 - (year + 99) / 100 + (year + 399) / 400

/-- The days of the months before, `months` of them. -/
def daysBeforeMonth (year months : Nat) : Nat :=
  ((List.range months).map fun month => daysInMonth year (month + 1)).sum

theorem periods_succ (year : Nat) :
    (year + 1 + 3) / 4 = (year + 3) / 4 + (if year % 4 = 0 then 1 else 0) ∧
    (year + 1 + 99) / 100 = (year + 99) / 100 + (if year % 100 = 0 then 1 else 0) ∧
    (year + 1 + 399) / 400 = (year + 399) / 400 + (if year % 400 = 0 then 1 else 0) := by
  refine ⟨?_, ?_, ?_⟩ <;> split <;> omega

theorem daysBeforeYear_succ (year : Nat) :
    daysBeforeYear (year + 1) = daysBeforeYear year + daysInYear year := by
  obtain ⟨four, century, cycle⟩ := periods_succ year
  have centuries : (year + 99) / 100 ≤ 365 * year := by omega
  have whole : year % 400 = 0 → year % 100 = 0 := by omega
  have quarter : year % 100 = 0 → year % 4 = 0 := by omega
  unfold daysBeforeYear daysInYear
  rw [four, century, cycle]
  clear four century cycle
  generalize (year + 3) / 4 = fours at *
  generalize (year + 99) / 100 = hundreds at *
  generalize (year + 399) / 400 = cycles at *
  by_cases byFour : year % 4 = 0
  · by_cases byCentury : year % 100 = 0
    · by_cases byCycle : year % 400 = 0
      · simp only [IsLeap, byFour, byCentury, byCycle, if_true, or_true]
        omega
      · simp only [IsLeap, byFour, byCentury, byCycle, if_true, if_false, ne_eq, not_true_eq_false,
          and_false, or_self]
        omega
    · have byCycle : ¬ year % 400 = 0 := fun cycle => byCentury (whole cycle)
      simp only [IsLeap, byFour, byCentury, byCycle, if_true, if_false, ne_eq, not_false_eq_true,
        and_self, true_or]
      omega
  · have byCentury : ¬ year % 100 = 0 := fun century => byFour (quarter century)
    have byCycle : ¬ year % 400 = 0 := fun cycle => byCentury (whole cycle)
    simp only [IsLeap, byFour, byCentury, byCycle, if_false, false_and, or_self]
    omega

theorem daysBeforeMonth_succ (year months : Nat) : daysBeforeMonth year (months + 1) =
    daysBeforeMonth year months + daysInMonth year (months + 1) := by
  unfold daysBeforeMonth
  rw [List.range_succ, List.map_append, List.sum_append, List.map_singleton, List.sum_singleton]

theorem daysBeforeMonth_twelve (year : Nat) : daysBeforeMonth year 12 = daysInYear year := by
  by_cases leap : IsLeap year <;>
    simp [daysBeforeMonth, daysInMonth, daysInYear, leap, List.range_succ]

theorem date_day {n year month : Nat} (first : date n = ⟨year, month, 1⟩) {day : Nat}
    (inside : day < daysInMonth year month) : date (n + day) = ⟨year, month, day + 1⟩ := by
  induction day with
  | zero => exact first
  | succ day ih =>
    show (date (n + day)).next = _
    rw [ih (Nat.lt_of_succ_lt inside)]
    exact if_pos inside

theorem date_month {n year : Nat} (first : date n = ⟨year, 1, 1⟩) {months : Nat}
    (inside : months < 12) : date (n + daysBeforeMonth year months) = ⟨year, months + 1, 1⟩ := by
  induction months with
  | zero => exact first
  | succ months ih =>
    have long := (daysInMonth_bounds year (months + 1)).1
    have last := date_day (ih (Nat.lt_of_succ_lt inside))
      (Nat.sub_lt (by omega) Nat.one_pos : daysInMonth year (months + 1) - 1 < _)
    have place : n + daysBeforeMonth year (months + 1) =
        n + daysBeforeMonth year months + (daysInMonth year (months + 1) - 1) + 1 := by
      rw [daysBeforeMonth_succ]
      omega
    rw [place]
    show (date _).next = _
    rw [last]
    unfold Date.next
    rw [if_neg (by simp only; omega), if_pos (by simp only; omega)]

theorem date_year (year : Nat) : date (daysBeforeYear year) = ⟨year, 1, 1⟩ := by
  induction year with
  | zero => rfl
  | succ year ih =>
    have december := date_month ih (by decide : 11 < 12)
    have last := date_day december (by decide : 30 < daysInMonth 0 12)
    have place : daysBeforeYear (year + 1) =
        daysBeforeYear year + daysBeforeMonth year 11 + 30 + 1 := by
      rw [daysBeforeYear_succ, ← daysBeforeMonth_twelve, daysBeforeMonth_succ]
      have long : daysInMonth year (11 + 1) = 31 := rfl
      omega
    rw [place]
    show (date _).next = _
    rw [last]
    rfl

theorem date_eq {year months day : Nat} (month : months < 12)
    (inside : day < daysInMonth year (months + 1)) :
    date (daysBeforeYear year + daysBeforeMonth year months + day) =
      ⟨year, months + 1, day + 1⟩ :=
  date_day (date_month (date_year year) month) inside

theorem le_date_year_iff {n year : Nat} : year ≤ (date n).year ↔ daysBeforeYear year ≤ n := by
  obtain ⟨⟨some_, last⟩, first, inside⟩ := date_valid n
  have short := (daysInMonth_bounds (date n).year (date n).month).2
  have order := date_key_strictMono.le_iff_le (a := daysBeforeYear year) (b := n)
  rw [← order]
  simp only [date_year, Date.key]
  omega

end Numbers

end Calendar
