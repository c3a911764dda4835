import DmaMachine.Fault

/-!
# Settings

What a session can be told: how long to run, what to write into the two registers of the
controller first, how often a frame begins, how much to report, and where to leave a snapshot.

Settings drive a session when they are *sound* (`Settings.fault?` finds nothing): neither the
length of the run nor the period of the frames is zero, and the log level is one that is known.
-/

namespace DmaMachine

/-- How much a session reports of its progress. -/
inductive LogLevel where
  | off
  | error
  | warn
  | info
  | debug
  | trace
deriving DecidableEq

namespace LogLevel

def all : List LogLevel := [off, error, warn, info, debug, trace]

def name : LogLevel → String
  | off => "OFF"
  | error => "ERROR"
  | warn => "WARN"
  | info => "INFO"
  | debug => "DEBUG"
  | trace => "TRACE"

/-- The level of a name in any case. -/
def ofName? (s : String) : Option LogLevel :=
  all.find? fun level => s.toList.map Char.toUpper = level.name.toList

end LogLevel

structure Settings where
  /-- Cycles that the processor runs. -/
  runCycles : UInt64 := 100000
  /-- What the priority register is set to first. -/
  priorityWord : UInt32 := 0x0FEDCBA9
  /-- What the interrupt register is set to first. -/
  interruptWord : UInt32 := 0x00C40000
  /-- Cycles from frame to frame: about a millisecond. -/
  framePeriod : UInt64 := 33868
  logLevel : String := "info"
  /-- The file that takes a snapshot at the end. -/
  snapshotFile : Option String := none
deriving DecidableEq

namespace Settings

/-- The log level, if its name is one. -/
def level (s : Settings) : Except SettingsFault LogLevel :=
  match LogLevel.ofName? s.logLevel with
  | some level => .ok level
  | none => .error (.unknownLogLevel s.logLevel)

/-- Why the settings cannot drive a session. -/
def fault? (s : Settings) : Option SettingsFault :=
  if s.runCycles = 0 then some .zeroRunCycles
  else if s.framePeriod = 0 then some .zeroTimerPeriod
  else
    match s.level with
    | .ok _ => none
    | .error fault => some fault

/-- The settings, if they are sound. -/
def checked (s : Settings) : Except SettingsFault Settings :=
  match s.fault? with
  | none => .ok s
  | some fault => .error fault

/-! ### Laws -/

/-- Sound settings have a log level. -/
theorem exists_level {s : Settings} (h : s.fault? = none) : ∃ level, s.level = .ok level := by
  simp only [fault?] at h
  split at h
  · cases h
  · split at h
    · cases h
    · split at h
      · exact ⟨_, by assumption⟩
      · cases h

end Settings

end DmaMachine
