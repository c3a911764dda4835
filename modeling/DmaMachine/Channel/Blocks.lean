import DmaMachine.Word

/-!
# A channel's block word

The *block word* says how much a transfer moves.  Its low half is the word count of a burst and
the block size of a slice transfer, its high half the number of blocks; a half that is zero
stands for `0x10000`.
-/

namespace DmaMachine

/-- The block word of a channel. -/
structure Blocks where
  bits : UInt32 := 0
deriving DecidableEq

namespace Blocks

/-- The low half of a word. -/
def lowHalf (v : UInt32) : UInt32 := v &&& 0xFFFF

/-- A sixteen-bit count, where zero stands for `0x10000`. -/
def count (half : UInt32) : Nat := if half = 0 then 0x10000 else half.toNat

/-- Words of a burst. -/
def wordCount (b : Blocks) : Nat := count (lowHalf b.bits)

/-- Words of one block of a slice transfer. -/
def blockSize (b : Blocks) : Nat := b.wordCount

/-- Blocks of a slice transfer. -/
def blockCount (b : Blocks) : Nat := count (b.bits >>> 16)

/-- The block word with its high half replaced by the low half of `n`. -/
def withBlockCount (b : Blocks) (n : UInt32) : Blocks :=
  ⟨lowHalf b.bits ||| lowHalf n <<< 16⟩

theorem count_pos (half : UInt32) : 0 < count half := by
  unfold count
  split
  · decide
  · rename_i h
    exact Nat.pos_of_ne_zero fun h0 => h (UInt32.toNat_inj.1 h0)

theorem wordCount_pos (b : Blocks) : 0 < b.wordCount := count_pos _

theorem blockCount_pos (b : Blocks) : 0 < b.blockCount := count_pos _

end Blocks

end DmaMachine
