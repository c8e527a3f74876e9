/-!
Days of the Gregorian calendar, counted from 1 January 1970, from the year -262143 to the year
262142.
-/

namespace QueryLine

/-- A day of the calendar by year, month and day of the month, all counted as written. -/
structure Civil where
  year : Int
  month : Nat
  day : Nat
  deriving DecidableEq, Repr

namespace Civil

/-- Years here start in March, so that a leap day is the last of its year; an era is 400 of them. -/
def toDays (c : Civil) : Int :=
  let year := if c.month ≤ 2 then c.year - 1 else c.year
  let yearOfEra := year % 400
  let month := (c.month + 9) % 12
  let dayOfYear : Int := (153 * month + 2) / 5 + c.day - 1
  year / 400 * 146097 + (yearOfEra * 365 + yearOfEra / 4 - yearOfEra / 100 + dayOfYear) - 719468

def ofDays (days : Int) : Civil :=
  let shifted := days + 719468
  let dayOfEra := (shifted % 146097).toNat
  let yearOfEra := (dayOfEra - dayOfEra / 1460 + dayOfEra / 36524 - dayOfEra / 146096) / 365
  let dayOfYear := dayOfEra - (365 * yearOfEra + yearOfEra / 4 - yearOfEra / 100)
  let month := (5 * dayOfYear + 2) / 153
  let year := shifted / 146097 * 400 + yearOfEra
  let day := dayOfYear - (153 * month + 2) / 5 + 1
  if month < 10 then ⟨year, month + 3, day⟩ else ⟨year + 1, month - 9, day⟩

def isValid (c : Civil) : Bool := ofDays c.toDays = c

/-- The number of the day in its year, from 1 on. -/
def ordinal (c : Civil) : Nat := (c.toDays - toDays ⟨c.year, 1, 1⟩).toNat + 1

end Civil

inductive CalendarFault
  /-- A date has no time of day to write. -/
  | noTimeOfDay
  | tooManyDays (days : Int)
  deriving DecidableEq, Repr

namespace Date

def firstDay : Int := -96465292

def lastDay : Int := 95026236

end Date

structure Date where
  day : Int
  inRange : Date.firstDay ≤ day ∧ day ≤ Date.lastDay
  deriving DecidableEq, Repr

namespace Date

def ofDay? (day : Int) : Option Date :=
  if h : firstDay ≤ day ∧ day ≤ lastDay then some ⟨day, h⟩ else none

def ofCivil? (c : Civil) : Option Date := if c.isValid then ofDay? c.toDays else none

def civil (d : Date) : Civil := .ofDays d.day

/-- The date some days on, or the date itself where the calendar does not reach that far. -/
def plus (d : Date) (days : Int) : Date := (ofDay? (d.day + days)).getD d

/-- The days that milliseconds can count in a signed 64-bit number. -/
def maxShift : Nat := 106751991167

def shift (d : Date) (days : Int) : Except CalendarFault Date :=
  if days.natAbs ≤ maxShift then .ok (d.plus days) else .error (.tooManyDays days)

/-- Days since Monday. -/
def weekday (d : Date) : Nat := ((d.day + 3) % 7).toNat

/-- Weeks that began on day `first` of the week, within the year and up to this date. -/
def weekFrom (d : Date) (first : Nat) : Nat :=
  (d.civil.ordinal + 6 - (d.weekday + 7 - first) % 7) / 7

/-- The Thursday of its week, whose year and week of the year are those of the week. -/
def thursday (d : Date) : Civil := .ofDays (d.day - d.weekday + 3)

def weekYear (d : Date) : Int := d.thursday.year

def weekOfYear (d : Date) : Nat := (d.thursday.ordinal - 1) / 7 + 1

end Date
end QueryLine
