/-!
# Outlines

An *outline* is a tree of numbers, texts, lists and named fields, made to be shown.  It is written
in JSON: a field or an item on a line of its own, two spaces further in than what it belongs to,
and an empty list or an outline without fields on one line.

In a text the quotation mark, the backslash and the control characters below the space are
escaped, and nothing else.
-/

namespace DmaMachine

inductive Outline where
  | number (n : Nat)
  | text (s : String)
  | list (items : List Outline)
  | fields (named : List (String × Outline))

namespace Outline

/-- A hexadecimal digit, in lower case. -/
def hexDigit (n : Nat) : Char := Char.ofNat (if n < 10 then 48 + n else 87 + n)

/-- How a character stands in a quoted text. -/
def escaped (c : Char) : List Char :=
  match c.toNat with
  | 0x22 => ['\\', '"']
  | 0x5C => ['\\', '\\']
  | 0x08 => ['\\', 'b']
  | 0x09 => ['\\', 't']
  | 0x0A => ['\\', 'n']
  | 0x0C => ['\\', 'f']
  | 0x0D => ['\\', 'r']
  | n => if n < 0x20 then ['\\', 'u', '0', '0', hexDigit (n / 16), hexDigit (n % 16)] else [c]

def quoted (s : String) : String := "\"" ++ String.ofList (s.toList.flatMap escaped) ++ "\""

/-- A line break and the space in front of the next line. -/
def lineBreak (depth : Nat) : String := "\n" ++ String.ofList (List.replicate (2 * depth) ' ')

/-- Parts in brackets, each on a line of its own at a depth. -/
def block (opening closing : String) (depth : Nat) (parts : List String) : String :=
  match parts with
  | [] => opening ++ closing
  | parts =>
      opening ++ String.intercalate "," (parts.map fun p => lineBreak (depth + 1) ++ p)
        ++ lineBreak depth ++ closing

mutual

/-- The outline as it stands at a depth. -/
def renderAt (depth : Nat) : Outline → String
  | number n => toString n
  | text s => quoted s
  | list items => block "[" "]" depth (renderItems (depth + 1) items)
  | fields named => block "\x7b" "\x7d" depth (renderFields (depth + 1) named)

def renderItems (depth : Nat) : List Outline → List String
  | [] => []
  | o :: os => renderAt depth o :: renderItems depth os

def renderFields (depth : Nat) : List (String × Outline) → List String
  | [] => []
  | (name, o) :: os => (quoted name ++ ": " ++ renderAt depth o) :: renderFields depth os

end

/-- The written form of an outline. -/
def render (o : Outline) : String := renderAt 0 o

end Outline

end DmaMachine
