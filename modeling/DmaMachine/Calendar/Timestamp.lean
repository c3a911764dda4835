import DmaMachine.Calendar.Date
import DmaMachine.Text.Decimal

/-!
# Timestamps

A *timestamp* is a moment of calendar time.  It is written as a date, a `T` and a time of day in
universal time, and a `Z`; a fraction of a second has three, six or nine digits, the fewest that
lose nothing.  A year that four digits do not hold is written with its sign.

A leap second is the second before it, with a thousand million nanoseconds or more, and is written
as second 60.
-/

namespace DmaMachine

/-- Seconds since the beginning of 1970, and nanoseconds. -/
structure Timestamp where
  seconds : Int
  nanos : Nat
deriving DecidableEq

namespace Timestamp

/-- Nanoseconds of a second. -/
def second : Nat := 1000000000

/-- Seconds of a day that has no leap second. -/
def day : Nat := 86400

/-- Four digits, or the sign and four digits at least. -/
def yearText (year : Int) : String :=
  if 0 ≤ year ∧ year ≤ 9999 then Decimal.text 4 year.toNat
  else (if year < 0 then "-" else "+") ++ Decimal.text 4 year.natAbs

/-- A point and the fewest groups of three digits, or nothing. -/
def fractionText (nanos : Nat) : String :=
  if nanos = 0 then ""
  else if nanos % 1000000 = 0 then "." ++ Decimal.text 3 (nanos / 1000000)
  else if nanos % 1000 = 0 then "." ++ Decimal.text 6 (nanos / 1000)
  else "." ++ Decimal.text 9 nanos

/-- The written form of a moment. -/
def text (t : Timestamp) : String :=
  let date := Date.ofNumber (t.seconds / (day : Int))
  let time := (t.seconds % (day : Int)).toNat
  let leap := t.nanos / second
  yearText date.year ++ "-" ++ Decimal.text 2 date.month ++ "-" ++ Decimal.text 2 date.day
    ++ "T" ++ Decimal.text 2 (time / 3600) ++ ":" ++ Decimal.text 2 (time / 60 % 60)
    ++ ":" ++ Decimal.text 2 (time % 60 + leap) ++ fractionText (t.nanos % second) ++ "Z"

end Timestamp

end DmaMachine
