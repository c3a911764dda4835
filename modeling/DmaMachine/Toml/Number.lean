import DmaMachine.Toml.Text

/-!
# Integers in TOML

An integer is decimal, with a sign or without one, or hexadecimal, octal or binary behind `0x`,
`0o` or `0b`, without a sign.  Single underscores may stand between digits.  A decimal integer
of more than one digit does not begin with zero.
-/

namespace DmaMachine

namespace Toml

/-- Digits with single underscores between them, without the underscores. -/
def ungrouped? (isDigit : Char → Bool) : List Char → Option (List Char)
  | [] => none
  | [c] => if isDigit c then some [c] else none
  | c :: '_' :: cs => if isDigit c then (ungrouped? isDigit cs).map (c :: ·) else none
  | c :: d :: cs => if isDigit c then (ungrouped? isDigit (d :: cs)).map (c :: ·) else none

/-- The value of a digit in a base. -/
def digitValue? (base : Nat) (c : Char) : Option Nat :=
  (Text.hexValue? c).filter (· < base)

/-- The number that digits stand for in a base. -/
def valueIn (base : Nat) (ds : List Char) : Nat :=
  ds.foldl (fun (n : Nat) (d : Char) => base * n + (digitValue? base d).getD 0) 0

/-- Digits in a base, with single underscores between them. -/
def natural? (base : Nat) (cs : List Char) : Option Nat :=
  (ungrouped? (fun c => (digitValue? base c).isSome) cs).map (valueIn base)

/-- A decimal number without a sign. -/
def decimal? (cs : List Char) : Option Nat :=
  match cs with
  | '0' :: _ :: _ => none
  | cs => natural? 10 cs

/-- The integer that a word stands for. -/
def integer? (word : List Char) : Option Int :=
  match word with
  | '+' :: cs => (decimal? cs).map fun n => (n : Int)
  | '-' :: cs => (decimal? cs).map fun n => -(n : Int)
  | '0' :: 'x' :: cs => (natural? 16 cs).map fun n => (n : Int)
  | '0' :: 'o' :: cs => (natural? 8 cs).map fun n => (n : Int)
  | '0' :: 'b' :: cs => (natural? 2 cs).map fun n => (n : Int)
  | cs => (decimal? cs).map fun n => (n : Int)

end Toml

end DmaMachine
