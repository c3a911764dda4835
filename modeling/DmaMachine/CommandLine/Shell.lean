import DmaMachine.Calendar.Timestamp
import DmaMachine.Script

/-!
# Shells

What a program run from a command line can ask of its surroundings: files, the time of day, and
lines on its two outputs.
-/

namespace DmaMachine

namespace Shell

inductive Call where
  | readFile (path : String)
  | writeFile (path : String) (bytes : List UInt8)
  | clock
  /-- A line on the output. -/
  | print (line : String)
  /-- A line on the output for errors. -/
  | warn (line : String)

def Call.Answer : Call → Type
  | .readFile _ => ByteArray
  | .writeFile .. | .print _ | .warn _ => Unit
  | .clock => Timestamp

/-- The calls on a shell. -/
def interface : Interface := ⟨Call, Call.Answer⟩

end Shell

end DmaMachine
