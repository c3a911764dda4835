import DmaMachine.Settings.Basic

/-!
# Options of the command line

Four options take a value each, and one asks for help.  An option has a letter, behind one dash,
and a word, behind two.  The value of a letter follows it at once, or behind an equals sign, or
as the next argument; that of a word follows an equals sign or is the next argument.  A next
argument that begins with a dash is no value, unless it is a dash alone.

Arguments are read from left to right, and the first that is help or a mistake decides.  It is a
mistake to give an option twice.
-/

namespace DmaMachine

/-- The options that take a value. -/
inductive Flag where
  | config
  | cycles
  | saveState
  | logLevel
deriving DecidableEq

namespace Flag

def all : List Flag := [config, cycles, saveState, logLevel]

def letter : Flag → Char
  | config => 'c'
  | cycles => 'n'
  | saveState => 's'
  | logLevel => 'l'

def word : Flag → String
  | config => "config"
  | cycles => "cycles"
  | saveState => "save-state"
  | logLevel => "log-level"

end Flag

/-- What the command line says. -/
structure Options where
  config : Option String := none
  cycles : Option UInt64 := none
  saveState : Option String := none
  logLevel : Option String := none
deriving DecidableEq

/-- Why no options come of a command line. -/
inductive Declined where
  | help
  | mistake
deriving DecidableEq

/-- What an argument is. -/
inductive Argument where
  | flag (f : Flag) (attached : Option String)
  | help
  /-- Behind it no argument is an option. -/
  | separator
  | value (s : String)
  | unknown
deriving DecidableEq

namespace Argument

/-- The part of a text before the first equals sign, and the part behind it if there is one. -/
def splitEquals : List Char → List Char × Option (List Char)
  | [] => ([], none)
  | '=' :: cs => ([], some cs)
  | c :: cs =>
      let (name, rest) := splitEquals cs
      (c :: name, rest)

/-- The value attached to a letter. -/
def attachedTo : List Char → Option String
  | [] => none
  | '=' :: cs => some (String.ofList cs)
  | cs => some (String.ofList cs)

/-- An argument with two dashes in front. -/
def ofWord (cs : List Char) : Argument :=
  let (name, attached) := splitEquals cs
  match Flag.all.find? fun f => f.word.toList = name with
  | some f => flag f (attached.map String.ofList)
  | none => if name = "help".toList ∧ attached = none then help else unknown

/-- An argument with one dash in front. -/
def ofLetter (c : Char) (cs : List Char) : Argument :=
  match Flag.all.find? fun f => f.letter = c with
  | some f => flag f (attachedTo cs)
  | none => if c = 'h' then help else unknown

def of (s : String) : Argument :=
  match s.toList with
  | ['-', '-'] => separator
  | '-' :: '-' :: cs => ofWord cs
  | '-' :: c :: cs => ofLetter c cs
  | _ => value s

end Argument

namespace Options

/-- A number of at most 64 bits, with a plus in front or without. -/
def number? (s : String) : Option UInt64 :=
  let ds := match s.toList with
    | '+' :: ds => ds
    | ds => ds
  if ds ≠ [] ∧ ds.all Char.isDigit then
    let n := ds.foldl (fun (n : Nat) (d : Char) => 10 * n + (d.toNat - 48)) 0
    if n < UInt64.size then some (UInt64.ofNat n) else none
  else none

/-- A path, which is not empty. -/
def path? (s : String) : Option String := if s = "" then none else some s

/-- The options with one more, which must not be given already. -/
def set? (o : Options) (f : Flag) (s : String) : Option Options :=
  match f with
  | .config => if o.config.isSome then none else (path? s).map fun p => { o with config := some p }
  | .cycles =>
      if o.cycles.isSome then none else (number? s).map fun n => { o with cycles := some n }
  | .saveState =>
      if o.saveState.isSome then none else (path? s).map fun p => { o with saveState := some p }
  | .logLevel => if o.logLevel.isSome then none else some { o with logLevel := some s }

/-- The options with those of further arguments. -/
def parseFrom (o : Options) : List String → Except Declined Options
  | [] => .ok o
  | a :: as =>
      match Argument.of a with
      | .help => .error .help
      | .separator => if as = [] then .ok o else .error .mistake
      | .value _ | .unknown => .error .mistake
      | .flag f (some s) =>
          match o.set? f s with
          | some o => parseFrom o as
          | none => .error .mistake
      | .flag f none =>
          match as with
          | [] => .error .mistake
          | b :: bs =>
              match Argument.of b with
              | .value s =>
                  match o.set? f s with
                  | some o => parseFrom o bs
                  | none => .error .mistake
              | _ => .error .mistake

/-- The options that a command line gives. -/
def parse (args : List String) : Except Declined Options := parseFrom {} args

/-- Settings with those that the options give instead. -/
def override (o : Options) (s : Settings) : Settings where
  runCycles := o.cycles.getD s.runCycles
  priorityWord := s.priorityWord
  interruptWord := s.interruptWord
  framePeriod := s.framePeriod
  logLevel := o.logLevel.getD s.logLevel
  snapshotFile := o.saveState.orElse fun _ => s.snapshotFile

end Options

end DmaMachine
