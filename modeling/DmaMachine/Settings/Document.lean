import DmaMachine.Settings.Basic
import DmaMachine.Toml.Document

/-!
# Settings as documents

Settings are written as a flat document with a line for each of them, and read from one that
gives any of them, in any order; the rest have their defaults.  A document that gives something
else, or a value of the wrong kind or size, holds no settings.
-/

namespace DmaMachine

namespace Settings

open Toml (Value Entry)

/-- A number from zero on and below a limit. -/
def fitting? (limit : Nat) : Value → Option Nat
  | .number n => if 0 ≤ n ∧ n < limit then some n.toNat else none
  | .text _ => none

def word32? (v : Value) : Option UInt32 := (fitting? UInt32.size v).map UInt32.ofNat

def word64? (v : Value) : Option UInt64 := (fitting? UInt64.size v).map UInt64.ofNat

def text? : Value → Option String
  | .text s => some s
  | .number _ => none

/-- The settings with one of them as an entry gives it. -/
def set? (s : Settings) : Entry → Option Settings
  | ("run_cycles", v) => (word64? v).map fun n => { s with runCycles := n }
  | ("dpcr", v) => (word32? v).map fun w => { s with priorityWord := w }
  | ("dicr", v) => (word32? v).map fun w => { s with interruptWord := w }
  | ("timer_period", v) => (word64? v).map fun n => { s with framePeriod := n }
  | ("log_level", v) => (text? v).map fun t => { s with logLevel := t }
  | ("save_state", v) => (text? v).map fun t => { s with snapshotFile := some t }
  | _ => none

/-- The settings that entries give. -/
def ofEntries? (es : List Entry) : Option Settings := es.foldlM set? {}

/-- The settings that a text holds, if they are sound. -/
def parse (text : String) : Except SettingsFault Settings :=
  match (Toml.read? text).bind ofEntries? with
  | none => .error .malformed
  | some s => s.checked

/-- The settings that the bytes of a file hold, if they are sound. -/
def ofFile (bytes : ByteArray) : Except Fault Settings :=
  match String.fromUTF8? bytes with
  | none => .error (.file .notUtf8)
  | some text =>
      match parse text with
      | .ok s => .ok s
      | .error fault => .error (.settings fault)

/-- An entry for each of the settings. -/
def toEntries (s : Settings) : List Entry :=
  [("run_cycles", .number s.runCycles.toNat), ("dpcr", .number s.priorityWord.toNat),
    ("dicr", .number s.interruptWord.toNat), ("timer_period", .number s.framePeriod.toNat),
    ("log_level", .text s.logLevel)]
    ++ s.snapshotFile.toList.map fun path => ("save_state", .text path)

/-- The document of the settings. -/
def render (s : Settings) : String := Toml.render s.toEntries

end Settings

end DmaMachine
