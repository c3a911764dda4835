import DmaMachine.Text.Attached
import DmaMachine.Text.Hidden

/-!
# Quoted texts

A text between quotation marks, so written that every character of it can be seen.  Quotation
marks, backslashes and the commonest controls have an escape of their own; hidden characters
and attached ones are given by their number, and all others stand for themselves.
-/

namespace DmaMachine

namespace Quoted

/-- A character given by its number. -/
def numbered (c : Char) : String :=
  "\\u\x7b" ++ String.ofList (Nat.toDigits 16 c.toNat) ++ "\x7d"

/-- How a character stands in a quoted text. -/
def escaped (c : Char) : String :=
  match c.toNat with
  | 0x22 => "\\\""
  | 0x5C => "\\\\"
  | 0x0A => "\\n"
  | 0x09 => "\\t"
  | 0x0D => "\\r"
  | 0x00 => "\\0"
  | _ => if isHidden c || isAttached c then numbered c else c.toString

/-- A text between quotation marks. -/
def text (s : String) : String := "\"" ++ String.join (s.toList.map escaped) ++ "\""

end Quoted

end DmaMachine
