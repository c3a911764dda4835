import DmaMachine.Toml.Number

/-!
# Flat documents

A *flat document* is a sequence of lines, each of which gives a key an integer or a text; no key
is given twice.  Lines may be blank, and a comment may end any of them.  Documents with tables,
lists or values of other kinds are not flat, and are not read.

A key is a word of letters, digits, underscores and dashes, or a text on a single line.  Lines
end with a line feed, which a carriage return may stand before.
-/

namespace DmaMachine

namespace Toml

inductive Value where
  | number (n : Int)
  | text (s : String)
deriving DecidableEq

/-- A key and its value. -/
abbrev Entry := String × Value

/-! ### Reading -/

/-- A blank within a line. -/
def isGap (c : Char) : Bool := c = ' ' || c = '\t'

def isKeyChar (c : Char) : Bool := c.isAlphanum || c = '_' || c = '-'

def key : Reader Char String := do
  match ← Reader.peek? with
  | some c =>
      if isKeyChar c then return String.ofList (← Reader.takeWhile isKeyChar) else Text.readLine
  | none => Reader.fail

/-- A character of a value that is not a text. -/
def isWordChar (c : Char) : Bool := !(isGap c || c = '\n' || c = '\r' || c = '#')

def value : Reader Char Value := do
  match ← Reader.peek? with
  | some c =>
      if c = Quoting.basic.delimiter || c = Quoting.literal.delimiter then
        return .text (← Text.read)
      else
        match integer? (← Reader.takeWhile isWordChar) with
        | some n => return .number n
        | none => Reader.fail
  | none => Reader.fail

def entry : Reader Char Entry := do
  let name ← key
  Reader.skipWhile isGap
  Reader.expect '='
  Reader.skipWhile isGap
  return (name, ← value)

/-- Passes over the comment of a line, if it has one. -/
def comment : Reader Char Unit := do
  match ← Reader.peek? with
  | some '#' => Reader.skipWhile isPlain
  | _ => return ()

/-- Passes over the end of a line or of the document. -/
def lineEnd : Reader Char Unit
  | [] => some ((), [])
  | '\n' :: cs => some ((), cs)
  | '\r' :: '\n' :: cs => some ((), cs)
  | _ => none

/-- A line, with its entry if it has one. -/
def line : Reader Char (Option Entry) := do
  Reader.skipWhile isGap
  let found ← match ← Reader.peek? with
    | none | some '#' | some '\n' | some '\r' => pure none
    | _ => some <$> entry
  Reader.skipWhile isGap
  comment
  lineEnd
  return found

/-- The entries of all lines, in order. -/
def entries? (cs : List Char) : Option (List Entry) :=
  match line cs with
  | none => none
  | some (found, rest) =>
      if rest.length < cs.length then (entries? rest).map (found.toList ++ ·)
      else some found.toList
termination_by cs.length

/-- The entries of a flat document.  A byte order mark in front of it does not count. -/
def read? (s : String) : Option (List Entry) :=
  let cs := match s.toList with
    | '\ufeff' :: cs => cs
    | cs => cs
  (entries? cs).filter fun es => (es.map Prod.fst).Nodup

/-! ### Writing -/

def Value.render : Value → String
  | number n => toString n
  | text s => Text.render s

/-- The document with the given entries, whose keys are words. -/
def render (es : List Entry) : String :=
  String.join (es.map fun (name, v) => name ++ " = " ++ v.render ++ "\n")

end Toml

end DmaMachine
