import DmaMachine.Session.Frames
import DmaMachine.Session.Report
import DmaMachine.Settings.Basic

/-!
# Sessions

A *session* runs the program of `Frames` on a machine from power-on.  The two registers of the
controller are set, frames are made to begin at their period, and the processor runs for its
cycles in slices of a period each.  After every slice, if the interrupt line has risen, all
interrupts flagged are acknowledged.

* `Session.program` is what the session has the machine do.
* `Session.run` is what comes of it: a report or a fault, and the machine at the end.
-/

namespace DmaMachine

namespace Session

open Frames (Program call load store address)

/-- Acknowledges the interrupts flagged, if the line has risen.  Gives how often: once or not at
all. -/
def acknowledge : Program Nat := do
  let rose : Bool ← call .takeEdge
  if rose then
    let flagged ← load (address .interrupt)
    store (address .interrupt) (flagged &&& 0x7FFFFFFF)
    return 1
  else return 0

/-- Runs the cycles that remain in slices of a period.  Gives how often interrupts were
acknowledged, with the times before. -/
def slices (period remaining acknowledged : Nat) : Program Nat :=
  if remaining = 0 ∨ period = 0 then pure acknowledged
  else do
    call (.run (min remaining period))
    let times ← acknowledge
    slices period (remaining - min remaining period) (acknowledged + times)
termination_by remaining
decreasing_by omega

/-- All that a session has the machine do.  Gives how often interrupts were acknowledged. -/
def program (s : Settings) : Program Nat := do
  store (address .priority) s.priorityWord
  store (address .interrupt) s.interruptWord
  let _ ← call (.schedulePeriodic "Frame" s.framePeriod.toNat .begin)
  slices s.framePeriod.toNat s.runCycles.toNat 0

/-- A bound on the events of a slice, far above any number that can fire. -/
def bound : Nat := 0x4000000000000000

/-- The machine that a session begins with. -/
def powerOn : Frames.Machine := Machine.initial {} 0

/-- The report on a machine at the end of a session. -/
def report (acknowledged : Nat) (m : Frames.Machine) : Report where
  cycles := m.timeline.now
  frames := m.memory
  words := m.bus.board.words
  acknowledged := acknowledged
  stats := m.stats

/-- Runs a session. -/
def run (s : Settings) : Option (Except Fault Report × Frames.Machine) :=
  match (program s).exec (Machine.perform Frames.handler bound) powerOn with
  | none => none
  | some (.error e, m) => some (.error e, m)
  | some (.ok acknowledged, m) => some (.ok (report acknowledged m), m)

end Session

end DmaMachine
