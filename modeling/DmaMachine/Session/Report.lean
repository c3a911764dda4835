import DmaMachine.Machine.Basic
import DmaMachine.Outline

/-!
# Reports

What is told of a session that ran to its end.
-/

namespace DmaMachine

structure Report where
  /-- The clock at the end. -/
  cycles : Nat
  /-- Frames begun. -/
  frames : Nat
  /-- Words that the drawing port took. -/
  words : Nat
  /-- How often interrupts were acknowledged. -/
  acknowledged : Nat
  stats : Stats
deriving DecidableEq

def Stats.outline (s : Stats) : Outline :=
  .fields [("dma_cycles", .number s.dmaCycles),
    ("transfers_completed", .number s.transfersCompleted),
    ("blocks_completed", .number s.blocksCompleted), ("chopped_windows", .number s.choppedWindows),
    ("bus_faults", .number s.busFaults), ("dma_interrupts", .number s.dmaInterrupts)]

def Report.outline (r : Report) : Outline :=
  .fields [("cycles", .number r.cycles), ("frames", .number r.frames),
    ("gp0_words", .number r.words), ("irqs_acknowledged", .number r.acknowledged),
    ("stats", r.stats.outline)]

/-- The report as text. -/
def Report.render (r : Report) : String := r.outline.render

end DmaMachine
