import DmaMachine.Outline
import DmaMachine.Reader

/-!
# Texts in TOML

A text is *basic*, between quotation marks and with escapes, or *literal*, between apostrophes and
with none.  Either kind may be on one line or, between triple marks, on several; then a line break
right behind the opening marks is no part of it, and one or two marks may stand before the
closing ones.

No control character but the tab may stand unescaped, and line breaks in texts on several lines.

* `Text.render` writes a text, in the plainest way that can hold it (`Quoting.of`).
* `Text.read` reads a text of any kind, and `Text.readLine` one on a single line.
-/

namespace DmaMachine

namespace Toml

/-- A character that may stand for itself. -/
def isPlain (c : Char) : Bool := c = '\t' || (0x20 ≤ c.toNat && c.toNat ≠ 0x7F)

/-- The two kinds of text. -/
inductive Quoting where
  | basic
  | literal
deriving DecidableEq

namespace Quoting

/-- What stands on either side. -/
def delimiter : Quoting → Char
  | basic => '\x22'
  | literal => '\x27'

/-- What stands on either side of a text on several lines. -/
def marks (q : Quoting) : List Char := List.replicate 3 q.delimiter

end Quoting

namespace Text

/-! ### Writing -/

/-- The longest run of `c`; `current` of them have just gone by. -/
def longestRun (c : Char) : Nat → List Char → Nat
  | current, [] => current
  | current, d :: ds =>
      if d = c then longestRun c (current + 1) ds else max current (longestRun c 0 ds)

/-- Whether a text needs escapes for what it holds besides marks and line breaks. -/
def needsEscapes (cs : List Char) : Bool := cs.any fun c => !isPlain c && c ≠ '\n'

/-- How a text is written: its kind, and whether it is on several lines. -/
def form (cs : List Char) : Quoting × Bool :=
  let escapes := needsEscapes cs
  let backslash := cs.contains '\\'
  let broken := cs.contains '\n'
  let run (q : Quoting) : Nat := longestRun q.delimiter 0 cs
  if !escapes && !backslash && !broken && run .basic = 0 then (.basic, false)
  else if !escapes && !broken && run .literal = 0 then (.literal, false)
  else if !escapes && !backslash && run .basic ≤ 2 then (.basic, true)
  else if !escapes && run .literal ≤ 2 then (.literal, true)
  else (.basic, broken)

/-- A character as it is written in a basic text. -/
def escaped (c : Char) : List Char :=
  match c.toNat with
  | 0x08 => ['\\', 'b']
  | 0x09 => ['\\', 't']
  | 0x0A => ['\\', 'n']
  | 0x0C => ['\\', 'f']
  | 0x0D => ['\\', 'r']
  | 0x22 => ['\\', c]
  | 0x5C => ['\\', '\\']
  | n =>
      if n < 0x20 ∨ n = 0x7F then
        ['\\', 'u', '0', '0', (Outline.hexDigit (n / 16)).toUpper,
          (Outline.hexDigit (n % 16)).toUpper]
      else [c]

/-- A basic text on several lines: line breaks stand for themselves, and so do marks, but for
every third of a run; `run` marks have just gone by. -/
def escapedLines : Nat → List Char → List Char
  | _, [] => []
  | run, c :: cs =>
      if c = '\n' then c :: escapedLines 0 cs
      else if c = Quoting.basic.delimiter then
        if run = 2 then escaped c ++ escapedLines 0 cs else c :: escapedLines (run + 1) cs
      else escaped c ++ escapedLines 0 cs

/-- A text as it is written in a document. -/
def render (s : String) : String :=
  let cs := s.toList
  let opened : List Char := if cs.contains '\n' then ['\n'] else []
  String.ofList <| match form cs with
    | (.basic, false) => '\x22' :: cs.flatMap escaped ++ ['\x22']
    | (.literal, false) => '\x27' :: cs ++ ['\x27']
    | (.basic, true) => Quoting.basic.marks ++ opened ++ escapedLines 0 cs ++ Quoting.basic.marks
    | (.literal, true) => Quoting.literal.marks ++ opened ++ cs ++ Quoting.literal.marks

/-! ### Reading -/

/-- The value of a hexadecimal digit. -/
def hexValue? (c : Char) : Option Nat :=
  if c.isDigit then some (c.toNat - 48)
  else if 'a' ≤ c ∧ c ≤ 'f' then some (c.toNat - 87)
  else if 'A' ≤ c ∧ c ≤ 'F' then some (c.toNat - 55)
  else none

/-- The character that a letter stands for behind a backslash. -/
def ofEscape? (c : Char) : Option Char :=
  match c with
  | 'b' => some '\x08'
  | 'e' => some '\x1b'
  | 't' => some '\t'
  | 'n' => some '\n'
  | 'f' => some '\x0c'
  | 'r' => some '\r'
  | '\\' => some '\\'
  | c => if c = Quoting.basic.delimiter then some c else none

/-- The character with a number, if there is one. -/
def ofNumber? (n : Nat) : Option Char := if n.isValidChar then some (Char.ofNat n) else none

/-- Where reading a text stands. -/
inductive Mode where
  | plain
  /-- Behind a backslash. -/
  | escape
  /-- Among the digits of a character's number. -/
  | digits (left value : Nat)
  /-- Behind a backslash at the end of a line, where blanks and line breaks are no part of the
  text; `broken` says whether the line has ended. -/
  | joining (broken : Bool)

/-- What a character of a text leads to. -/
inductive Step where
  /-- Reading goes on, with a character of the text or without one. -/
  | goOn (found : Option Char) (mode : Mode)
  /-- The text ends with these characters, before the rest of the document. -/
  | finish (found rest : List Char)
  /-- No text goes on like this. -/
  | refuse

/-- Whether a line ends here. -/
def atLineBreak : List Char → Bool
  | '\n' :: _ => true
  | '\r' :: '\n' :: _ => true
  | _ => false

/-- The end of a text behind its closing marks: two more marks at most still belong to it. -/
def closing (q : Char) (cs : List Char) : Step :=
  match cs with
  | c :: d :: rest =>
      if c = q then if d = q then .finish [q, q] rest else .finish [q] (d :: rest)
      else .finish [] cs
  | [c] => if c = q then .finish [q] [] else .finish [] cs
  | [] => .finish [] []

/-- A delimiter and what follows it. -/
def atDelimiter (q : Char) (lines : Bool) (cs : List Char) : Step :=
  if lines then
    match cs with
    | c :: d :: rest => if c = q ∧ d = q then closing q rest else .goOn (some q) .plain
    | _ => .goOn (some q) .plain
  else .finish [] cs

/-- A character that no backslash stands before, and what follows it. -/
def atPlain (q : Quoting) (lines : Bool) (c : Char) (cs : List Char) : Step :=
  if c = q.delimiter then atDelimiter c lines cs
  else if c = '\\' && q = .basic then .goOn none .escape
  else if isPlain c || (lines && atLineBreak (c :: cs)) then .goOn (some c) .plain
  else .refuse

/-- The character behind a backslash, and what follows it. -/
def atEscape (lines : Bool) (c : Char) (cs : List Char) : Step :=
  if c = 'x' then .goOn none (.digits 1 0)
  else if c = 'u' then .goOn none (.digits 3 0)
  else if c = 'U' then .goOn none (.digits 7 0)
  else if lines && (c = ' ' || c = '\t') then .goOn none (.joining false)
  else if lines && atLineBreak (c :: cs) then .goOn none (.joining (c = '\n'))
  else
    match ofEscape? c with
    | some e => .goOn (some e) .plain
    | none => .refuse

/-- A digit of a character's number. -/
def atDigit (left value : Nat) (c : Char) : Step :=
  match hexValue? c with
  | none => .refuse
  | some d =>
      let value := 16 * value + d
      match left with
      | left + 1 => .goOn none (.digits left value)
      | 0 =>
          match ofNumber? value with
          | some e => .goOn (some e) .plain
          | none => .refuse

/-- A character of a text, and what follows it. -/
def step (q : Quoting) (lines : Bool) (mode : Mode) (c : Char) (cs : List Char) : Step :=
  match mode with
  | .plain => atPlain q lines c cs
  | .escape => atEscape lines c cs
  | .digits left value => atDigit left value c
  | .joining broken =>
      if c = ' ' || c = '\t' then .goOn none (.joining broken)
      else if atLineBreak (c :: cs) then .goOn none (.joining (broken || c = '\n'))
      else if broken then atPlain q lines c cs
      else .refuse

/-- The rest of a text, up to and with its closing marks. -/
def body (q : Quoting) (lines : Bool) : Mode → Reader Char (List Char)
  | _, [] => none
  | mode, c :: cs =>
      match step q lines mode c cs with
      | .goOn found mode => (body q lines mode cs).map fun (es, rest) => (found.toList ++ es, rest)
      | .finish found rest => some (found, rest)
      | .refuse => none

/-- A text on a single line. -/
def readLine : Reader Char String := fun cs =>
  match cs with
  | c :: cs =>
      if c = Quoting.basic.delimiter then
        (body .basic false .plain cs).map fun (t, r) => (String.ofList t, r)
      else if c = Quoting.literal.delimiter then
        (body .literal false .plain cs).map fun (t, r) => (String.ofList t, r)
      else none
  | [] => none

/-- Passes over a line break right behind opening marks. -/
def opened : List Char → List Char
  | '\n' :: cs => cs
  | '\r' :: '\n' :: cs => cs
  | cs => cs

/-- A text of any kind. -/
def read : Reader Char String := fun cs =>
  if Quoting.basic.marks.isPrefixOf cs then
    (body .basic true .plain (opened (cs.drop 3))).map fun (t, r) => (String.ofList t, r)
  else if Quoting.literal.marks.isPrefixOf cs then
    (body .literal true .plain (opened (cs.drop 3))).map fun (t, r) => (String.ofList t, r)
  else readLine cs

end Text

end Toml

end DmaMachine
