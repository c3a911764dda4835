import DmaMachine.Reader

/-!
# Decimal digits

Natural numbers as runs of decimal digits, most significant first, with zeros in front where a
fixed width is asked for.  Only the ten digits of ASCII are digits.
-/

namespace DmaMachine

namespace Decimal

/-- The value of a run of digits. -/
def value (ds : List Char) : Nat := ds.foldl (fun (n : Nat) (d : Char) => 10 * n + (d.toNat - 48)) 0

/-- The digits of `n`, with zeros in front up to `width` digits. -/
def text (width n : Nat) : String :=
  let digits := Nat.toDigits 10 n
  String.ofList (List.replicate (width - digits.length) '0' ++ digits)

/-- Reads one digit at least. -/
def read : Reader Char Nat := do
  let ds ← Reader.takeWhile Char.isDigit
  if ds = [] then Reader.fail else return value ds

/-- Reads one digit at least and `n` at most. -/
def readUpTo (n : Nat) : Reader Char Nat := do
  let ds ← Reader.takeUpTo Char.isDigit n
  if ds = [] then Reader.fail else return value ds

end Decimal

end DmaMachine
