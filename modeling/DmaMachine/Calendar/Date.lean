/-!
# Dates

Days of the Gregorian calendar, carried on to the years before it was made and before year one:
year 0 is the year before year 1.  A day has a number, which counts from the first day of 1970.

Numbers are computed with years that begin in March.  Then a leap day is the last day of its year,
and the months before a given one have the same lengths in every year.  A *cycle* of 400 such
years has 146097 days, whichever it is; the first day of year 0 so counted is 719468 days before
1970.
-/

namespace DmaMachine

structure Date where
  year : Int
  month : Nat
  day : Nat
deriving DecidableEq

namespace Date

def isLeapYear (year : Int) : Bool := year % 4 == 0 && (year % 100 != 0 || year % 400 == 0)

def daysInMonth (year : Int) : Nat → Nat
  | 2 => if isLeapYear year then 29 else 28
  | 4 | 6 | 9 | 11 => 30
  | _ => 31

/-- Whether the calendar has this day. -/
def isValid (d : Date) : Bool :=
  1 ≤ d.month && d.month ≤ 12 && 1 ≤ d.day && d.day ≤ daysInMonth d.year d.month

/-- Days from the first day of March of year 0 to the first day of 1970. -/
def daysTo1970 : Int := 719468

/-- The number of a day, counted from the first of January 1970. -/
def number (d : Date) : Int :=
  let year := if d.month ≤ 2 then d.year - 1 else d.year
  let month := (d.month + 9) % 12
  let dayOfYear := (153 * month + 2) / 5 + d.day - 1
  365 * year + year / 4 - year / 100 + year / 400 + dayOfYear - daysTo1970

/-- The day with a number. -/
def ofNumber (n : Int) : Date :=
  let n := n + daysTo1970
  let cycle := n / 146097
  let dayOfCycle := (n % 146097).toNat
  let yearOfCycle :=
    (dayOfCycle - dayOfCycle / 1460 + dayOfCycle / 36524 - dayOfCycle / 146096) / 365
  let dayOfYear := dayOfCycle - (365 * yearOfCycle + yearOfCycle / 4 - yearOfCycle / 100)
  let month := (5 * dayOfYear + 2) / 153
  let year := yearOfCycle + 400 * cycle
  { year := if month < 10 then year else year + 1
    month := if month < 10 then month + 3 else month - 9
    day := dayOfYear - (153 * month + 2) / 5 + 1 }

end Date

end DmaMachine
