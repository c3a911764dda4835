import DmaMachine.Bus.Master
import DmaMachine.Channel.Control

/-!
# The peers of the DMA channels

A *peer* is what a channel moves data to and from.  The seven channels differ in nothing else:
the peer fixes the port that units go through, the directions, and whether linked lists are
understood.

```text
channel   peer                port         directions   a unit is
0         image decoder in    0x1F801820   from RAM     one word
1         image decoder out   0x1F801820   to RAM       one word
2         graphics            0x1F801810   both, lists  one word
3         disc drive          0x1F801802   to RAM       four bytes
4         sound               0x1F801DA8   both         two half words
5         expansion port      0x1F000000   both         one word
6         ordering table      none         to RAM       one word, built by the channel itself
```
-/

namespace DmaMachine

/-- The party at the other end of a channel. -/
inductive Peer where
  | decoderIn
  | decoderOut
  | graphics
  | disc
  | sound
  | expansion
  | orderingTable
deriving DecidableEq

/-- Number of channels. -/
def channelCount : Nat := 7

namespace Peer

/-- The peers in channel order. -/
def all : List Peer := [decoderIn, decoderOut, graphics, disc, sound, expansion, orderingTable]

/-- The channel number of a peer. -/
def index : Peer → Nat
  | decoderIn => 0
  | decoderOut => 1
  | graphics => 2
  | disc => 3
  | sound => 4
  | expansion => 5
  | orderingTable => 6

/-- The peer of a channel number. -/
def ofIndex? : Nat → Option Peer
  | 0 => some decoderIn
  | 1 => some decoderOut
  | 2 => some graphics
  | 3 => some disc
  | 4 => some sound
  | 5 => some expansion
  | 6 => some orderingTable
  | _ => none

def name : Peer → String
  | decoderIn => "MDEC In"
  | decoderOut => "MDEC Out"
  | graphics => "GPU"
  | disc => "CD-ROM"
  | sound => "SPU"
  | expansion => "PIO"
  | orderingTable => "OTC"

/-- The port that units of a channel pass through; the ordering table has none. -/
def port? : Peer → Option DataPort
  | decoderIn | decoderOut => some ⟨.word, 0x1F801820⟩
  | graphics => some ⟨.word, 0x1F801810⟩
  | disc => some ⟨.byte, 0x1F801802⟩
  | sound => some ⟨.half, 0x1F801DA8⟩
  | expansion => some ⟨.word, 0x1F000000⟩
  | orderingTable => none

/-- Whether the peer moves data in a direction. -/
def supports : Peer → Direction → Bool
  | decoderIn, d => d == .fromRam
  | decoderOut, d | disc, d | orderingTable, d => d == .toRam
  | graphics, _ | sound, _ | expansion, _ => true

/-- Whether the peer understands linked lists. -/
def walksLists (p : Peer) : Bool := p == graphics

/-! ### Channel numbers -/

theorem index_lt (p : Peer) : p.index < channelCount := by cases p <;> decide

@[simp] theorem ofIndex?_index (p : Peer) : ofIndex? p.index = some p := by cases p <;> rfl

theorem index_inj {p q : Peer} (h : p.index = q.index) : p = q :=
  Option.some.inj (by rw [← ofIndex?_index p, h, ofIndex?_index q])

theorem mem_all (p : Peer) : p ∈ all := by cases p <;> decide

/-- Every peer but the ordering table has a port. -/
theorem port?_eq_none_iff {p : Peer} : p.port? = none ↔ p = orderingTable := by
  cases p <;> simp [port?]

end Peer

end DmaMachine
