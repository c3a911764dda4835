import DmaMachine.CommandLine.Options
import DmaMachine.CommandLine.Shell
import DmaMachine.Machine.Image
import DmaMachine.Session.Basic
import DmaMachine.Settings.Document
import DmaMachine.Snapshot.Image

/-!
# The program

Run from a command line, the program takes its settings from a file, if it is given one, and from
its options, which win.  It runs a session, prints the report, and leaves a snapshot where the
settings want one.

The settings of the file have to be sound by themselves, and again when the options are taken
into account.  What goes wrong after that is also put on the output for errors, unless the log
level is off.
-/

namespace DmaMachine

namespace CommandLine

/-- How the program ends, when it does not fail. -/
inductive Ending where
  | completed
  /-- It was asked for help. -/
  | helped
  /-- Its arguments were no options. -/
  | misused
  /-- More events than are provided for fired in the session. -/
  | unfinished
deriving DecidableEq

/-- What the program tells the shell at its end. -/
def exitCode : Except Fault Ending → UInt32
  | .ok .completed | .ok .helped => 0
  | .error _ => 1
  | .ok .misused => 2
  | .ok .unfinished => 3

/-- What the program asks of a shell, up to a result. -/
abbrev Program (β : Type) := Script Shell.interface β

def call (c : Shell.Call) : Program c.Answer := Script.call (I := Shell.interface) c

/-- A result, or failing with a fault. -/
def settle {β : Type} : Except Fault β → Program β
  | .ok b => .done b
  | .error fault => .fail fault

/-- What stands in for a mistaken command line. -/
def usage : String :=
  "Usage: [-c|--config PATH] [-n|--cycles N] [-s|--save-state PATH] [-l|--log-level LEVEL]"

/-- What is told about the program. -/
def help : String := "Runs a DMA workload.\n" ++ usage

/-- The settings that the options lead to. -/
def settings (o : Options) : Program Settings := do
  let given : Settings ←
    match o.config with
    | none => pure {}
    | some path => do
        let bytes : ByteArray ← call (.readFile path)
        settle (Settings.ofFile bytes)
  settle ((o.override given).checked.mapError .settings)

/-- The label of the snapshots made here. -/
def label : String := "psxcore"

/-- Runs a session, reports on it, and leaves a snapshot. -/
def session (s : Settings) : Program Ending :=
  match Session.run s with
  | none => pure .unfinished
  | some (.error fault, _) => .fail fault
  | some (.ok report, m) => do
      call (.print report.render)
      match s.snapshotFile with
      | none => return .completed
      | some path =>
          let now : Timestamp ← call .clock
          call (.writeFile path (m.capture label now).image)
          return .completed

/-- The program, given its arguments. -/
def program (args : List String) : Program Ending :=
  match Options.parse args with
  | .error .help => do
      call (.print help)
      return .helped
  | .error .mistake => do
      call (.warn usage)
      return .misused
  | .ok o => do
      let s ← settings o
      match ← (session s).outcome with
      | .ok ending => return ending
      | .error fault =>
          if LogLevel.ofName? s.logLevel ≠ some .off then
            call (.warn ("Run failed: " ++ fault.message))
          .fail fault

end CommandLine

end DmaMachine
