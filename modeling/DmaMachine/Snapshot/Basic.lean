import DmaMachine.Calendar.Timestamp

/-!
# Snapshots

A *snapshot* is what a machine at rest consists of: the clock and the next event identifier, the
programmed registers of the DMA engine, and the contents of RAM.  Pending events, transfers under
way and statistics are no part of it.  It is labelled, and it says when it was taken.
-/

namespace DmaMachine

/-- The registers of a channel in a snapshot. -/
structure ChannelRecord where
  number : UInt8
  base : UInt32
  blocks : UInt32
  control : UInt32
deriving DecidableEq

structure Snapshot where
  version : UInt32
  taken : Timestamp
  label : String
  /-- The clock, for a reader of the image. -/
  cycle : UInt64
  now : UInt64
  nextId : UInt64
  channels : List ChannelRecord
  priorityWord : UInt32
  interruptWord : UInt32
  ram : ByteArray

/-- The version of the images made here, and the only one understood. -/
def Snapshot.currentVersion : UInt32 := 1

end DmaMachine
