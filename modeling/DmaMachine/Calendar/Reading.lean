import DmaMachine.Calendar.Timestamp
import DmaMachine.Text.Blank

/-!
# Reading timestamps

More is read than is written.  Blanks may stand between the parts, the date is set off by a `T` of
either case or a space, a number need not have all its digits, and a fraction may have any number
of digits, of which nine count.  The time may be local: then a zone follows it instead of the `Z`,
a sign and hours and minutes that the time is ahead of universal time or behind it.

The calendar ends where years no longer fit (`firstYear`, `lastYear`): neither the local date nor
the moment in universal time may lie outside.
-/

namespace DmaMachine

namespace Timestamp

/-- The first year that a timestamp can be in. -/
def firstYear : Int := -262143

/-- The last year that a timestamp can be in. -/
def lastYear : Int := 262142

/-- Seconds at the beginning of the first year. -/
def firstSecond : Int := Date.number ⟨firstYear, 1, 1⟩ * day

/-- Seconds at the end of the last year. -/
def endOfTime : Int := (Date.number ⟨lastYear, 12, 31⟩ + 1) * day

abbrev TextReader (α : Type) := Reader Char α

/-- Passes over blanks. -/
def blanks : TextReader Unit := Reader.skipWhile isBlank

/-- A mark with blanks around it. -/
def mark (c : Char) : TextReader Unit := do
  blanks
  Reader.expect c
  blanks

/-- A number of two digits at most, no larger than `last`. -/
def part (last : Nat) : TextReader Nat := do
  blanks
  let n ← Decimal.readUpTo 2
  if n ≤ last then return n else Reader.fail

/-- Four digits at most, or a sign and any number of digits. -/
def year : TextReader Int := do
  blanks
  match ← Reader.peek? with
  | some '-' =>
      let _ ← Reader.next
      return -(← Decimal.read)
  | some '+' =>
      let _ ← Reader.next
      return (← Decimal.read)
  | _ => return (← Decimal.readUpTo 4)

def date : TextReader Date := do
  let year ← Timestamp.year
  mark '-'
  let month ← part 12
  mark '-'
  let day ← part 31
  let date : Date := ⟨year, month, day⟩
  if date.isValid && firstYear ≤ year && year ≤ lastYear then return date else Reader.fail

/-- What sets the time of day off from the date. -/
def separator : TextReader Unit := do
  let _ ← Reader.satisfy fun c => c = 'T' || c = 't' || c = ' '

/-- Nanoseconds, if a point follows. -/
def fraction : TextReader Nat := do
  match ← Reader.peek? with
  | some '.' =>
      let _ ← Reader.next
      let digits ← Reader.takeWhile Char.isDigit
      if digits = [] then Reader.fail
      else return Decimal.value ((digits ++ List.replicate 9 '0').take 9)
  | _ => return 0

/-- Seconds and nanoseconds since midnight. -/
def timeOfDay : TextReader (Nat × Nat) := do
  let hours ← part 23
  mark ':'
  let minutes ← part 59
  mark ':'
  let seconds ← part 60
  let nanos ← fraction
  let whole := 3600 * hours + 60 * minutes
  if seconds = 60 then return (whole + 59, nanos + second) else return (whole + seconds, nanos)

/-- A digit. -/
def digit : TextReader Nat := do
  let c ← Reader.satisfy Char.isDigit
  return c.toNat - 48

/-- Hours and minutes, as seconds below those of a day. -/
def zoneShift : TextReader Nat := do
  let hours := 10 * (← digit) + (← digit)
  Reader.skipWhile fun c => c = ':' || isBlank c
  let minutes := 10 * (← digit) + (← digit)
  let shift := 3600 * hours + 60 * minutes
  if minutes < 60 ∧ shift < day then return shift else Reader.fail

/-- How many seconds the time is ahead of universal time. -/
def zone : TextReader Int := do
  blanks
  match ← Reader.next with
  | 'Z' | 'z' => return 0
  | '+' => return (← zoneShift)
  | '-' | '−' => return -(← zoneShift)
  | 'U' | 'u' =>
      let _ ← Reader.satisfy fun c => c = 'T' || c = 't'
      let _ ← Reader.satisfy fun c => c = 'C' || c = 'c'
      return 0
  | _ => Reader.fail

def read : TextReader Timestamp := do
  let date ← Timestamp.date
  separator
  let (time, nanos) ← timeOfDay
  let ahead ← zone
  blanks
  let seconds := date.number * day + time - ahead
  if firstSecond ≤ seconds ∧ seconds < endOfTime then return ⟨seconds, nanos⟩ else Reader.fail

/-- The moment that a text is a written form of. -/
def ofText? (s : String) : Option Timestamp := read.all? s.toList

end Timestamp

end DmaMachine
