/-! Dates of the Gregorian calendar, extended back to the year 0, and the number of days since its
first day. -/

namespace StreamMux

structure Date where
  year : Nat
  month : Nat
  day : Nat
  deriving DecidableEq

namespace Date

def isLeap (year : Nat) : Bool := year % 4 = 0 ∧ (year % 100 ≠ 0 ∨ year % 400 = 0)

/-- Days of a month; none for a number that is no month. -/
def daysIn (year month : Nat) : Nat :=
  if month = 2 then (if isLeap year then 29 else 28)
  else if month = 4 ∨ month = 6 ∨ month = 9 ∨ month = 11 then 30
  else if 1 ≤ month ∧ month ≤ 12 then 31
  else 0

/-- Days from the first day of the year 0 to the first day of a year. -/
def daysBeforeYear (year : Nat) : Nat :=
  365 * year + (year + 3) / 4 - (year + 99) / 100 + (year + 399) / 400

/-- Days from the first day of a year to the first day of a month. -/
def daysBeforeMonth (year : Nat) : Nat → Nat
  | 0 => 0
  | month + 1 => daysBeforeMonth year month + daysIn year month

/-- The date with these numbers, if the calendar has it. -/
def ofNumbers? (year month day : Nat) : Option Date :=
  if 1 ≤ day ∧ day ≤ daysIn year month then some ⟨year, month, day⟩ else none

/-- Days since the first day of the year 0. -/
def dayNumber (d : Date) : Nat := daysBeforeYear d.year + daysBeforeMonth d.year d.month + (d.day - 1)

/-- The month, searched upward from `month`, in which day `rest` counted from its first day falls. -/
def monthOf (year : Nat) : Nat → Nat → Nat → Nat × Nat
  | 0, month, rest => (month, rest)
  | fuel + 1, month, rest =>
    if rest < daysIn year month then (month, rest)
    else monthOf year fuel (month + 1) (rest - daysIn year month)

/-- The date so many days after the first day of the year 0. -/
def ofDayNumber (n : Nat) : Date :=
  let guess := n * 400 / 146097
  let year :=
    if n < daysBeforeYear guess then guess - 1
    else if daysBeforeYear (guess + 1) ≤ n then guess + 1
    else guess
  let (month, rest) := monthOf year 11 1 (n - daysBeforeYear year)
  ⟨year, month, rest + 1⟩

end Date

end StreamMux
