import DmaMachine.Outline
import DmaMachine.Snapshot.Basic

/-!
# Showing snapshots

What a snapshot holds, but for the contents of RAM, in a form to be read by people.
-/

namespace DmaMachine

def ChannelRecord.outline (r : ChannelRecord) : Outline :=
  .fields [("channel_id", .number r.number.toNat), ("base_address", .number r.base.toNat),
    ("block_control", .number r.blocks.toNat), ("channel_control", .number r.control.toNat)]

namespace Snapshot

def outline (s : Snapshot) : Outline :=
  .fields [
    ("version", .number s.version.toNat),
    ("metadata", .fields [("timestamp", .text s.taken.text), ("label", .text s.label),
      ("cycle", .number s.cycle.toNat)]),
    ("scheduler", .fields [("now", .number s.now.toNat), ("next_id", .number s.nextId.toNat)]),
    ("dma", .fields [("channels", .list (s.channels.map ChannelRecord.outline)),
      ("control", .number s.priorityWord.toNat), ("interrupt", .number s.interruptWord.toNat)])]

/-- The snapshot without its RAM, as text. -/
def dump (s : Snapshot) : String := s.outline.render

end Snapshot

end DmaMachine
