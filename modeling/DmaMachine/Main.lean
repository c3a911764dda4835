import DmaMachine.CommandLine.Program

/-!
# Running the program

The shell that the program really runs in: what it asks for is asked of the operating system.
-/

namespace DmaMachine

namespace CommandLine

/-- What a file operation failed of. -/
def fileFault : IO.Error → FileFault
  | .noFileOrDirectory .. => .notFound
  | .inappropriateType _ 20 _ => .notFolder
  | .inappropriateType _ 21 _ => .isFolder
  | .invalidArgument _ 36 _ => .nameTooLong
  | e => .other (toString e)

/-- The outcome of a file operation. -/
def attempted {β : Type} (act : IO β) : IO (Except Fault β) := do
  try return .ok (← act)
  catch e => return .error (.file (fileFault e))

/-- The time of day, as a file made just now has it. -/
def timeOfDay : IO Timestamp := do
  let (_, path) ← IO.FS.createTempFile
  let made := (← path.metadata).modified
  IO.FS.removeFile path
  return ⟨made.sec, made.nsec.toNat⟩

/-- Asks the operating system. -/
def answerTo : (c : Shell.Call) → IO (Except Fault c.Answer)
  | .readFile path => attempted (IO.FS.readBinFile path)
  | .writeFile path bytes => attempted (IO.FS.writeBinFile path bytes.toByteArray)
  | .clock => attempted timeOfDay
  | .print line => attempted (IO.println line)
  | .warn line => attempted (IO.eprintln line)

/-- Carries out what a program asks for. -/
def carryOut {β : Type} : Program β → IO (Except Fault β)
  | .done b => return .ok b
  | .fail fault => return .error fault
  | .ask c next => do carryOut (next (← answerTo c))

end CommandLine

end DmaMachine

def main (args : List String) : IO UInt32 := do
  let outcome ← DmaMachine.CommandLine.carryOut (DmaMachine.CommandLine.program args)
  if let .error fault := outcome then IO.eprintln ("Error: " ++ fault.message)
  return DmaMachine.CommandLine.exitCode outcome
