import DmaMachine.Bus.Board

/-!
# A drawing port

The *sink* is a board with the graphics processor's two ports: words written to the first are
counted and forgotten, and the second reads as ready for commands and for transfers.
-/

namespace DmaMachine

/-- The number of words that the drawing port has taken. -/
structure Sink where
  words : Nat := 0
deriving DecidableEq

namespace Sink

/-- Where the ports begin. -/
def base : UInt32 := 0x1F801810

/-- The last address of the ports. -/
def last : UInt32 := 0x1F801817

/-- The status of a port that is ready for anything. -/
def ready : UInt32 := 0x1C000000

instance : Board Sink where
  slotAt _ p := if base ≤ p && p ≤ last then some ⟨0, base, false⟩ else none
  read _ _ offset := pure (if offset = 4 then ready else 0)
  write _ _ offset _ := fun s => .ok () (if offset = 0 then { s with words := s.words + 1 } else s)

end Sink

end DmaMachine
