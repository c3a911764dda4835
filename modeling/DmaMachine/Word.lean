/-!
# Words, lanes and masks

A *word* is 32 bits.  A *lane* is the part of a word that a narrower access selects: an address
picks the byte or the half word by its low bits, lowest part first.  A *masked write* changes
exactly the bits of its mask.

* `merge`: the masked write, with its bit law `bit_merge`.
* `Width.lane` / `Width.setLane`: reading and replacing a lane; `setLane_eq_merge` says that
  replacing a lane is a masked write.
-/

namespace DmaMachine

/-- Bit `i` of a word. -/
def bit (word : UInt32) (i : Nat) : Bool := word.toBitVec.getLsbD i

/-- The bits of `value` where `mask` is set and those of `old` elsewhere. -/
def merge (old value mask : UInt32) : UInt32 := (old &&& ~~~mask) ||| (value &&& mask)

/-! ### Bits -/

theorem word_ext {a b : UInt32} (h : ∀ i < 32, bit a i = bit b i) : a = b :=
  UInt32.toBitVec_inj.1 (BitVec.eq_of_getLsbD_eq h)

theorem bit_of_ge (a : UInt32) {i : Nat} (h : 32 ≤ i) : bit a i = false :=
  BitVec.getLsbD_of_ge _ _ h

@[simp] theorem bit_zero (i : Nat) : bit 0 i = false := by simp [bit]

@[simp] theorem bit_and (a b : UInt32) (i : Nat) : bit (a &&& b) i = (bit a i && bit b i) := by
  simp [bit]

@[simp] theorem bit_or (a b : UInt32) (i : Nat) : bit (a ||| b) i = (bit a i || bit b i) := by
  simp [bit]

theorem bit_not (a : UInt32) (i : Nat) : bit (~~~a) i = (decide (i < 32) && !bit a i) := by
  simp [bit]

/-! ### Masked writes -/

/-- **A masked write changes exactly the bits of its mask.** -/
theorem bit_merge (old value mask : UInt32) (i : Nat) :
    bit (merge old value mask) i = if bit mask i then bit value i else bit old i := by
  by_cases h : i < 32
  · cases hm : bit mask i <;> simp [merge, bit_not, h, hm]
  · simp [bit_of_ge _ (Nat.le_of_not_lt h)]

@[simp] theorem merge_zero_mask (old value : UInt32) : merge old value 0 = old :=
  word_ext fun i _ => by simp [bit_merge]

theorem merge_self (old mask : UInt32) : merge old old mask = old :=
  word_ext fun i _ => by simp [bit_merge]

theorem merge_merge (old v w mask : UInt32) : merge (merge old v mask) w mask = merge old w mask :=
  word_ext fun i _ => by by_cases h : bit mask i <;> simp [bit_merge, h]

/-- A write through the full mask replaces the word. -/
theorem merge_full (old v : UInt32) : merge old v 0xFFFFFFFF = v := by
  have hb : ∀ i < 32, bit 0xFFFFFFFF i = true := by decide
  exact word_ext fun i hi => by rw [bit_merge, hb i hi, if_pos rfl]

/-! ### Lanes -/

/-- The three sizes of an access. -/
inductive Width where
  | byte
  | half
  | word
deriving DecidableEq

namespace Width

/-- Number of bytes that an access of this width covers. -/
def bytes : Width → Nat
  | byte => 1
  | half => 2
  | word => 4

/-- The bits of a value that an access of this width carries. -/
def mask : Width → UInt32
  | byte => 0xFF
  | half => 0xFFFF
  | word => 0xFFFFFFFF

/-- Whether an address is a multiple of the width. -/
def aligned : Width → UInt32 → Bool
  | byte, _ => true
  | half, a => a &&& 1 == 0
  | word, a => a &&& 3 == 0

/-- Position, within its word, of the lowest bit of the lane at address `a`. -/
def shift : Width → UInt32 → UInt32
  | byte, a => (a &&& 3) * 8
  | half, a => (a &&& 2) * 8
  | word, _ => 0

/-- The lane at address `a` of the word `v`. -/
def lane (w : Width) (a v : UInt32) : UInt32 := (v >>> w.shift a) &&& w.mask

/-- The word `old` with its lane at address `a` replaced by the low bits of `v`. -/
def setLane (w : Width) (a old v : UInt32) : UInt32 :=
  (old &&& ~~~(w.mask <<< w.shift a)) ||| ((v &&& w.mask) <<< w.shift a)

theorem setLane_eq_merge (w : Width) (a old v : UInt32) :
    w.setLane a old v = merge old (v <<< w.shift a) (w.mask <<< w.shift a) := by
  unfold setLane merge
  congr 1
  exact UInt32.toBitVec_inj.1 (by simp [BitVec.shiftLeft_and_distrib])

@[simp] theorem lane_word (a v : UInt32) : word.lane a v = v :=
  word_ext fun i h => by
    have : ∀ i < 32, bit 0xFFFFFFFF i = true := by decide
    simp [lane, shift, mask, this i h]

end Width

/-- The word-aligned address at or below `a`. -/
def wordBase (a : UInt32) : UInt32 := a &&& ~~~3

/-- A word from its four bytes, lowest first. -/
def wordOfBytes (b₀ b₁ b₂ b₃ : UInt8) : UInt32 :=
  b₀.toUInt32 ||| (b₁.toUInt32 <<< 8) ||| (b₂.toUInt32 <<< 16) ||| (b₃.toUInt32 <<< 24)

/-- A half word from its two bytes, lowest first. -/
def halfOfBytes (b₀ b₁ : UInt8) : UInt32 := b₀.toUInt32 ||| (b₁.toUInt32 <<< 8)

/-- Byte `i` of a word. -/
def byteOfWord (i : UInt32) (v : UInt32) : UInt8 := (v >>> (8 * i)).toUInt8

end DmaMachine
