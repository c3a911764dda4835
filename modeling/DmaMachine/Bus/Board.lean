import DmaMachine.Op
import DmaMachine.Word

/-!
# Boards

A *board* carries the devices outside main memory.  A physical address may fall into a *slot* of
the board; the slot then gets the access, at an offset from the slot's base.  A slot either
decodes accesses of every width, or whole words only.  For a slot of the second kind a narrow read
takes its lane out of a word, and a narrow write reads the word, replaces the lane, and writes
the word back.

`Board` is the class of boards, and `Slot.read`, `Slot.write` are the accesses with the narrow
ones made up where they have to be.
-/

namespace DmaMachine

/-- A range of physical addresses that a device answers. -/
structure Slot where
  /-- Which of the board's devices answers. -/
  index : Nat
  /-- The address of offset zero. -/
  base : UInt32
  /-- Whether the device decodes narrow accesses itself. -/
  narrow : Bool
deriving DecidableEq

/-- What carries devices.  An access goes to a slot at an offset. -/
class Board (δ : Type) where
  /-- The slot that answers a physical address. -/
  slotAt : δ → UInt32 → Option Slot
  read : Slot → Width → UInt32 → Op δ UInt32
  write : Slot → Width → UInt32 → UInt32 → Op δ Unit

namespace Slot

variable {δ : Type} [Board δ]

/-- Whether the slot answers an access of this width as it is. -/
def direct (s : Slot) (w : Width) : Bool := s.narrow || w == .word

/-- Reads `w` at an offset. -/
def read (s : Slot) (w : Width) (offset : UInt32) : Op δ UInt32 :=
  if s.direct w then do
    let v ← Board.read s w offset
    return v &&& w.mask
  else do
    let v ← Board.read s .word (wordBase offset)
    return w.lane offset v

/-- Writes the low bits of `v` at an offset. -/
def write (s : Slot) (w : Width) (offset v : UInt32) : Op δ Unit :=
  if s.direct w then Board.write s w offset (v &&& w.mask)
  else do
    let old ← Board.read s .word (wordBase offset)
    Board.write s .word (wordBase offset) (w.setLane offset old v)

@[simp] theorem direct_word (s : Slot) : s.direct .word = true := by simp [direct]

end Slot

/-- The board without devices. -/
structure BareBoard where

instance : Board BareBoard where
  slotAt _ _ := none
  read _ w _ := pure w.mask
  write _ _ _ _ := pure ()

end DmaMachine
