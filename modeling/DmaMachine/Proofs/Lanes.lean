import DmaMachine.Proofs.Memory
import Mathlib.Algebra.GroupWithZero.Nat

/-!
# Lanes and bytes

A lane is taken out of a word, and put back, with shifts and masks.  Here the same is said with
numbers and with bytes: an aligned access at an address takes the bytes of the word from the
remainder of the address on, as many as it is wide, and puts back the same.

* `Width.toNat_lane`: **a lane is a run of digits of its word**, to the base 256.
* `Width.byteOfWord_setLane`: **a lane that is replaced changes its own bytes**, and no other.
* `byte_eq_iff`: bytes are the same when their bits are.
-/

namespace DmaMachine

/-! ### The word of an address -/

theorem toNat_wordBase (a : UInt32) : (wordBase a).toNat = a.toNat / 4 * 4 := by
  have h : a &&& (~~~3 : UInt32) = a >>> 2 <<< 2 := by
    refine word_ext fun i hi => ?_
    have hm : ∀ i < 32, bit (~~~3 : UInt32) i = decide (2 ≤ i) := by decide
    rw [bit_and, hm i hi, bit_shiftLeft _ (by decide), bit_shiftRight _ (by decide)]
    simp only [UInt32.reduceToNat]
    by_cases h2 : 2 ≤ i
    · simp [h2, hi, Nat.not_lt.2 h2]
    · simp [h2, Nat.lt_of_not_le h2]
  have hs : (a >>> 2).toNat = a.toNat / 4 := by
    rw [UInt32.toNat_shiftRight]
    exact Nat.shiftRight_eq_div_pow ..
  have hl := a.toNat_lt
  rw [wordBase, h, UInt32.toNat_shiftLeft, hs]
  simp only [UInt32.reduceToNat, Nat.shiftLeft_eq, Nat.reduceMod, Nat.reducePow]
  omega

theorem wordBase_of_aligned {a : UInt32} (ha : a.toNat % 4 = 0) : wordBase a = a := by
  refine UInt32.toNat_inj.1 ?_
  rw [toNat_wordBase]
  omega

/-- The word of an address that is less than a word on. -/
theorem wordBase_add {a i : UInt32} (ha : a.toNat % 4 = 0) (hi : i.toNat < 4) :
    wordBase (a + i) = a := by
  have hl := a.toNat_lt
  refine UInt32.toNat_inj.1 ?_
  rw [toNat_wordBase, UInt32.toNat_add]
  omega

/-- Folding an address does not touch its low bits, -/
theorem physical_mod {a : UInt32} (ha : a.toNat % 4 = 0) : (physical a).toNat % 4 = 0 := by
  rw [toNat_physical]
  omega

/-- and carries a step within a word over. -/
theorem physical_add {a i : UInt32} (ha : a.toNat % 4 = 0) (hi : i.toNat < 4) :
    physical (a + i) = physical a + i := by
  have hl := a.toNat_lt
  refine UInt32.toNat_inj.1 ?_
  rw [toNat_physical, UInt32.toNat_add, UInt32.toNat_add, toNat_physical]
  omega

theorem toNat_and_three (a : UInt32) : (a &&& (3 : UInt32)).toNat = a.toNat % 4 := by
  rw [UInt32.toNat_and]
  exact Nat.and_two_pow_sub_one_eq_mod a.toNat 2

/-! ### Bytes of words -/

section Bytes

variable {j k v w : UInt32}

theorem toNat_eight_mul (hk : k.toNat < 4) : (8 * k).toNat = 8 * k.toNat := by
  rw [UInt32.toNat_mul]
  simp only [UInt32.reduceToNat]
  omega

theorem bit_byte (hk : k.toNat < 4) (v : UInt32) (i : Nat) :
    bit (byteOfWord k v).toUInt32 i = (decide (i < 8) && bit v (8 * k.toNat + i)) := by
  have h8 := toNat_eight_mul hk
  rw [bit_byteOfWord v (by omega), h8]

/-- **Two bytes are the same** when their bits are. -/
theorem byte_eq_iff (hj : j.toNat < 4) (hk : k.toNat < 4) : byteOfWord j v = byteOfWord k w ↔
    ∀ i < 8, bit v (8 * j.toNat + i) = bit w (8 * k.toNat + i) := by
  constructor
  · intro h i hi
    have hb := congrArg (fun b : UInt8 => bit b.toUInt32 i) h
    simpa only [bit_byte hj, bit_byte hk, hi, decide_true, Bool.true_and] using hb
  · intro h
    have hw : (byteOfWord j v).toUInt32 = (byteOfWord k w).toUInt32 := by
      refine word_ext fun i _ => ?_
      rw [bit_byte hj, bit_byte hk]
      by_cases hi : i < 8
      · rw [h i hi]
      · simp [hi]
    exact UInt8.toNat_inj.1 (congrArg UInt32.toNat hw)

/-- The byte of a word, as it is taken out of the word. -/
theorem shiftRight_and_byte (hk : k.toNat < 4) (v : UInt32) :
    (v >>> (8 * k)) &&& 0xFF = (byteOfWord k v).toUInt32 := by
  have h8 := toNat_eight_mul hk
  have hb : ∀ i < 32, bit 0xFF i = decide (i < 8) := by decide
  refine word_ext fun i hi => ?_
  rw [bit_and, bit_shiftRight _ (by omega), h8, hb i hi, bit_byte hk, Bool.and_comm]

theorem byteOfWord_toUInt32 (b : UInt8) : byteOfWord 0 b.toUInt32 = b := by
  simp [byteOfWord]

end Bytes

/-- A masked write takes no bits but those of its mask. -/
theorem merge_congr {v v' mask : UInt32} (h : v &&& mask = v' &&& mask) (old : UInt32) :
    merge old v mask = merge old v' mask := by
  rw [merge, merge, h]

/-- Two masked writes of one value are one. -/
theorem merge_or (old v mask mask' : UInt32) :
    merge (merge old v mask) v mask' = merge old v (mask ||| mask') := by
  refine word_ext fun i _ => ?_
  simp only [bit_merge, bit_or]
  cases bit mask i <;> cases bit mask' i <;> simp

/-- Bits that are not stored need not be kept before a masked write. -/
theorem merge_and (old v mask k : UInt32) :
    merge (old &&& k) v mask &&& k = merge old v mask &&& k := by
  refine word_ext fun i _ => ?_
  simp only [bit_and, bit_merge]
  cases bit mask i <;> simp

namespace Width

variable {w : Width} {a : UInt32}

/-! ### Lanes as numbers -/

/-- An aligned lane begins with the byte that its address says. -/
theorem toNat_shift (ha : a.toNat % w.bytes = 0) : (w.shift a).toNat = 8 * (a.toNat % 4) := by
  cases w with
  | byte =>
      rw [shift, UInt32.toNat_mul, toNat_and_three]
      simp only [UInt32.reduceToNat]
      omega
  | half =>
      -- The lowest bit of an even address is clear.
      have h1 : a &&& 1 = 0 := by simpa [aligned] using (half.aligned_iff a).2 ha
      have hb : ∀ i < 32, bit 3 i = (bit 1 i || bit 2 i) := by decide
      have h2 : a &&& (2 : UInt32) = a &&& 3 := by
        refine word_ext fun i hi => ?_
        rw [bit_and, bit_and, hb i hi, Bool.and_or_distrib_left, ← bit_and a 1, h1, bit_zero,
          Bool.false_or]
      rw [shift, h2, UInt32.toNat_mul, toNat_and_three]
      simp only [UInt32.reduceToNat]
      omega
  | word =>
      rw [shift]
      simp only [bytes] at ha
      simp only [UInt32.reduceToNat]
      omega

/-- **A lane is a run of digits of its word.** -/
theorem toNat_lane (ha : a.toNat % w.bytes = 0) (v : UInt32) :
    (w.lane a v).toNat = v.toNat / 256 ^ (a.toNat % 4) % 256 ^ w.bytes := by
  have hm : ∀ n, n &&& w.mask.toNat = n % 256 ^ w.bytes := fun n => by
    cases w with
    | byte => exact Nat.and_two_pow_sub_one_eq_mod n 8
    | half => exact Nat.and_two_pow_sub_one_eq_mod n 16
    | word => exact Nat.and_two_pow_sub_one_eq_mod n 32
  have hs : (w.shift a).toNat % 32 = 8 * (a.toNat % 4) := by
    rw [toNat_shift ha]
    omega
  rw [lane, UInt32.toNat_and, hm, UInt32.toNat_shiftRight, hs, Nat.shiftRight_eq_div_pow,
    Nat.pow_mul]

theorem shift_lt (ha : a.toNat % w.bytes = 0) : (w.shift a).toNat < 32 := by
  rw [toNat_shift ha]
  omega

/-- **A lane that is put back in its place** has the bits that it was taken from. -/
theorem lane_shiftLeft (ha : a.toNat % w.bytes = 0) (v : UInt32) :
    ((w.lane a v &&& w.mask) <<< w.shift a) &&& (w.mask <<< w.shift a) =
      v &&& (w.mask <<< w.shift a) := by
  have hs := shift_lt ha
  refine word_ext fun i _ => ?_
  simp only [lane, bit_and, bit_shiftLeft _ hs, bit_shiftRight _ hs]
  by_cases hi : i < (w.shift a).toNat
  · simp [hi]
  · rw [Nat.add_sub_cancel' (Nat.le_of_not_lt hi)]
    grind

/-- The lane of a word is all of it. -/
@[simp] theorem and_mask_word (v : UInt32) : v &&& word.mask = v := by
  have hb : ∀ i < 32, bit word.mask i = true := by decide
  exact word_ext fun i hi => by rw [bit_and, hb i hi, Bool.and_true]

@[simp] theorem setLane_word (a old v : UInt32) : word.setLane a old v = v := by
  rw [setLane_eq_merge]
  show merge old (v <<< 0) ((0xFFFFFFFF : UInt32) <<< 0) = v
  rw [UInt32.shiftLeft_zero, UInt32.shiftLeft_zero, merge_full]

/-! ### Lanes as bytes -/

/-- The bits of the lane in its word. -/
theorem bit_laneMask (ha : a.toNat % w.bytes = 0) {i : Nat} (hi : i < 32) :
    bit (w.mask <<< w.shift a) i =
      decide (8 * (a.toNat % 4) ≤ i ∧ i < 8 * (a.toNat % 4 + w.bytes)) := by
  have hm : ∀ i, bit w.mask i = decide (i < 8 * w.bytes) := fun i => by
    by_cases hi : i < 32
    · revert i
      cases w <;> decide
    · rw [bit_of_ge _ (Nat.le_of_not_lt hi)]
      refine (decide_eq_false ?_).symm
      cases w <;> simp only [bytes] <;> omega
  rw [bit_shiftLeft _ (shift_lt ha), hm, toNat_shift ha]
  simp only [hi, decide_true, Bool.true_and, ← decide_not, ← Bool.decide_and, decide_eq_decide]
  omega

/-- **A lane that is replaced changes its own bytes**, and no other. -/
theorem byteOfWord_setLane (ha : a.toNat % w.bytes = 0) {k : UInt32} (hk : k.toNat < 4)
    (old v : UInt32) :
    byteOfWord k (w.setLane a old v) =
      if a.toNat % 4 ≤ k.toNat ∧ k.toNat < a.toNat % 4 + w.bytes then
        byteOfWord (k - (a &&& 3)) v
      else byteOfWord k old := by
  have hp : (a &&& (3 : UInt32)).toNat = a.toNat % 4 := toNat_and_three a
  have hs := toNat_shift ha
  have bit_lane : ∀ i < 8, bit (w.setLane a old v) (8 * k.toNat + i) =
      if 8 * (a.toNat % 4) ≤ 8 * k.toNat + i ∧ 8 * k.toNat + i < 8 * (a.toNat % 4 + w.bytes) then
        bit (v <<< w.shift a) (8 * k.toNat + i)
      else bit old (8 * k.toNat + i) := fun i hi => by
    rw [setLane_eq_merge, bit_merge, bit_laneMask ha (by omega)]
    simp only [decide_eq_true_eq]
  split
  · rename_i h
    have hd : (k - (a &&& 3)).toNat = k.toNat - a.toNat % 4 := by
      rw [UInt32.toNat_sub_of_le _ _ (UInt32.le_iff_toNat_le.2 (hp ▸ h.1)), hp]
    refine (byte_eq_iff hk (by omega)).2 fun i hi => ?_
    rw [bit_lane i hi, if_pos (by omega), bit_shiftLeft _ (shift_lt ha), hs, hd]
    simp only [show 8 * k.toNat + i < 32 by omega, decide_true, Bool.true_and,
      show ¬8 * k.toNat + i < 8 * (a.toNat % 4) by omega, decide_false, Bool.not_false]
    exact congrArg (bit v) (by omega)
  · refine (byte_eq_iff hk hk).2 fun i hi => ?_
    rw [bit_lane i hi, if_neg (by omega)]

end Width

end DmaMachine
