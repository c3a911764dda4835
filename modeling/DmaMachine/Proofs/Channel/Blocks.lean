import DmaMachine.Proofs.Memory

/-!
# Counting blocks

The block word of a slice transfer gives the size and the number of its blocks.  The counter of
words holds every transfer but one: where both halves of the block word are zero, the words are
`2^32` together, and the counter starts at one less.

* `wordsBefore_blockCount`: **the counter of words** counts those of all blocks.
* `blockWords_eq`: the words of a block, from the two counters before it.
* `withBlockCount_shiftRight`, `blockSize_withBlockCount`: what changing the number of blocks does.
-/

namespace DmaMachine

namespace Blocks

/-! ### The halves of a block word -/

theorem toNat_lowHalf (v : UInt32) : (lowHalf v).toNat = v.toNat % 0x10000 := by
  rw [lowHalf, UInt32.toNat_and]
  exact Nat.and_two_pow_sub_one_eq_mod v.toNat 16

theorem toNat_highHalf (v : UInt32) : (v >>> 16).toNat = v.toNat / 0x10000 := by
  rw [UInt32.toNat_shiftRight, Nat.shiftRight_eq_div_pow]
  rfl

theorem lowHalf_shiftLeft_or (v n : UInt32) :
    lowHalf (lowHalf v ||| lowHalf n <<< 16) = lowHalf v := by
  have h16 : (16 : UInt32).toNat < 32 := by decide
  have hm : ∀ i < 32, bit 0xFFFF i = decide (i < 16) := by decide
  refine word_ext fun i hi => ?_
  simp only [lowHalf, bit_and, bit_or, bit_shiftLeft _ h16, hm i hi, UInt32.reduceToNat]
  grind

/-- The size of a block stays when the number of blocks changes. -/
@[simp] theorem blockSize_withBlockCount (b : Blocks) (n : UInt32) :
    (b.withBlockCount n).blockSize = b.blockSize := by
  simp only [blockSize, wordCount, withBlockCount, lowHalf_shiftLeft_or]

/-- The block word shows the number of blocks. -/
theorem withBlockCount_shiftRight (b : Blocks) (n : UInt32) :
    (b.withBlockCount n).bits >>> 16 = lowHalf n := by
  have h16 : (16 : UInt32).toNat < 32 := by decide
  have hm : ∀ i < 32, bit 0xFFFF i = decide (i < 16) := by decide
  refine word_ext fun i hi => ?_
  by_cases h : i < 16
  · have h' : 16 + i < 32 := by omega
    have hn : ¬ 16 + i < 16 := by omega
    simp [withBlockCount, lowHalf, bit_shiftLeft _ h16, bit_shiftRight _ h16, hm i hi,
      hm (16 + i) h', h, h', hn]
  · simp [lowHalf, bit_shiftRight _ h16, bit_of_ge _ (show 32 ≤ 16 + i by omega), hm i hi, h]

theorem blockSize_le (b : Blocks) : b.blockSize ≤ 0x10000 ∧
    (lowHalf b.bits ≠ 0 → b.blockSize ≤ 0xFFFF) := by
  have hl := toNat_lowHalf b.bits
  rw [blockSize, wordCount, count]
  split
  · simp_all
  · exact ⟨by omega, fun _ => by omega⟩

theorem blockCount_le (b : Blocks) : b.blockCount ≤ 0x10000 ∧
    (b.bits >>> 16 ≠ 0 → b.blockCount ≤ 0xFFFF) := by
  have hh := toNat_highHalf b.bits
  have hb := b.bits.toNat_lt
  rw [blockCount, count]
  split
  · simp_all
  · exact ⟨by omega, fun _ => by omega⟩

theorem bits_eq_zero {b : Blocks} (hl : lowHalf b.bits = 0) (hh : b.bits >>> 16 = 0) :
    b.bits = 0 := by
  have hl := congrArg UInt32.toNat hl
  have hh := congrArg UInt32.toNat hh
  rw [toNat_lowHalf] at hl
  rw [toNat_highHalf] at hh
  refine UInt32.toNat_inj.1 ?_
  simp only [UInt32.toNat_zero] at hl hh ⊢
  omega

/-! ### The words of blocks -/

/-- The words of the first `k` blocks. -/
def wordsBefore (b : Blocks) (k : Nat) : Nat :=
  if b.bits = 0 then k * b.blockSize - 1 else k * b.blockSize

/-- The words of block `k`.  One block of one transfer is short. -/
def blockWords (b : Blocks) (k : Nat) : Nat :=
  if b.bits = 0 ∧ k = 0 then b.blockSize - 1 else b.blockSize

theorem wordsBefore_zero (b : Blocks) : b.wordsBefore 0 = 0 := by simp [wordsBefore]

theorem wordsBefore_succ (b : Blocks) (k : Nat) :
    b.wordsBefore (k + 1) = b.wordsBefore k + b.blockWords k := by
  have hs : 0 < b.blockSize := b.wordCount_pos
  rw [wordsBefore, wordsBefore, blockWords, Nat.succ_mul]
  by_cases hb : b.bits = 0
  · by_cases hk : k = 0
    · simp [hb, hk]
    · have := Nat.mul_le_mul (Nat.one_le_iff_ne_zero.2 hk) hs
      simp only [hb, hk, and_false, if_true, if_false]
      omega
  · simp [hb]

/-- **The counter of words** counts those of all blocks. -/
theorem wordsBefore_blockCount (b : Blocks) :
    min (b.blockSize * b.blockCount) Channel.maxWords = b.wordsBefore b.blockCount := by
  obtain ⟨hs, hs'⟩ := b.blockSize_le
  obtain ⟨hn, hn'⟩ := b.blockCount_le
  rw [wordsBefore, Nat.mul_comm b.blockSize]
  by_cases hb : b.bits = 0
  · have hb : b = ⟨0⟩ := by
      obtain ⟨bits⟩ := b
      exact congrArg Blocks.mk hb
    rw [hb]
    rfl
  · -- One of the two halves is not zero, and so less than it could be.
    have hl : b.blockCount * b.blockSize ≤ 0x10000 * 0xFFFF := by
      by_cases h : lowHalf b.bits = 0
      · have hh : b.bits >>> 16 ≠ 0 := fun hh => hb (bits_eq_zero h hh)
        exact Nat.le_trans (Nat.mul_le_mul (hn' hh) hs) (by decide)
      · exact Nat.mul_le_mul hn (hs' h)
    rw [if_neg hb]
    exact Nat.min_eq_left (Nat.le_trans hl (by decide))

/-- Every block after the first one is whole. -/
theorem wordsBefore_add (b : Blocks) (k m : Nat) :
    b.wordsBefore (k + 1 + m) = b.wordsBefore (k + 1) + m * b.blockSize := by
  induction m with
  | zero => simp
  | succ m ih =>
      have hw : b.blockWords (k + 1 + m) = b.blockSize := if_neg (by omega)
      rw [← Nat.add_assoc, wordsBefore_succ, hw, ih, Nat.succ_mul, Nat.add_assoc]

/-- Block `k` is what the words left are more than the blocks after it. -/
theorem blockWords_eq (b : Blocks) {k n w : Nat} (hn : n + k = b.blockCount) (h : 0 < n)
    (hw : w + b.wordsBefore k = b.wordsBefore b.blockCount) :
    w - (n - 1) * b.blockSize = b.blockWords k := by
  have ha := b.wordsBefore_add k (n - 1)
  rw [show k + 1 + (n - 1) = b.blockCount by omega, wordsBefore_succ] at ha
  omega

end Blocks

end DmaMachine
