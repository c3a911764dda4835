import DmaMachine.Bus.Basic
import DmaMachine.Channel.Basic

/-!
# Words in memory

A channel accesses memory word by word, at addresses of 24 bits that a *stride* takes from one to
the next, up or down, and around at the end.  `along stride a i` is the address `i` strides on from
`a`.

RAM lies at the first eight mebibytes of these addresses, four times over, and nothing else does.

* `Ram.word_write`: **a word reads back**, and no other word changes.
* `Ram.storeAll`: several words, which `Ram.word_storeAll` reads back.
* `along_along`: strides add up.
* `regionOf_eq_ram_iff`: which addresses of a channel are RAM.
* `ramReach`: how many of several addresses come before the first one that is not RAM.
* `wordOfBytes_byteOfWord`, `bit_shiftLeft`, `bit_shiftRight`: what the parts of a word are.
-/

namespace DmaMachine

/-! ### Bits of shifted words -/

theorem bit_shiftLeft (v : UInt32) {n : UInt32} (hn : n.toNat < 32) (i : Nat) :
    bit (v <<< n) i = (decide (i < 32) && !decide (i < n.toNat) && bit v (i - n.toNat)) := by
  have hb : (v <<< n).toBitVec = v.toBitVec <<< n.toNat := by
    rw [UInt32.toBitVec_shiftLeft, BitVec.shiftLeft_eq', BitVec.toNat_umod]
    exact congrArg (v.toBitVec <<< ·) (Nat.mod_eq_of_lt hn)
  rw [bit, hb, BitVec.getLsbD_shiftLeft]
  rfl

theorem bit_shiftRight (v : UInt32) {n : UInt32} (hn : n.toNat < 32) (i : Nat) :
    bit (v >>> n) i = bit v (n.toNat + i) := by
  have hb : (v >>> n).toBitVec = v.toBitVec >>> n.toNat := by
    rw [UInt32.toBitVec_shiftRight, BitVec.ushiftRight_eq', BitVec.toNat_umod]
    exact congrArg (v.toBitVec >>> ·) (Nat.mod_eq_of_lt hn)
  rw [bit, hb, BitVec.getLsbD_ushiftRight]
  rfl

theorem bit_byteOfWord {k : UInt32} (v : UInt32) (hk : (8 * k).toNat < 32) (i : Nat) :
    bit (byteOfWord k v).toUInt32 i = (decide (i < 8) && bit v ((8 * k).toNat + i)) := by
  have hb : (byteOfWord k v).toUInt32.toBitVec =
      ((v >>> (8 * k)).toBitVec.setWidth 8).setWidth 32 := by
    rw [byteOfWord, UInt8.toBitVec_toUInt32, UInt32.toBitVec_toUInt8]
  have h32 : i < 8 → i < 32 := by omega
  rw [← bit_shiftRight v hk, bit, bit, hb, BitVec.getLsbD_setWidth, BitVec.getLsbD_setWidth]
  grind

/-- **A word is made of its four bytes.** -/
theorem wordOfBytes_byteOfWord (v : UInt32) :
    wordOfBytes (byteOfWord 0 v) (byteOfWord 1 v) (byteOfWord 2 v) (byteOfWord 3 v) = v := by
  refine word_ext fun i hi => ?_
  have h8 : (8 : UInt32).toNat < 32 := by decide
  have h16 : (16 : UInt32).toNat < 32 := by decide
  have h24 : (24 : UInt32).toNat < 32 := by decide
  simp only [wordOfBytes, bit_or, bit_shiftLeft _ h8, bit_shiftLeft _ h16, bit_shiftLeft _ h24,
    bit_byteOfWord (k := 0) v (by decide), bit_byteOfWord (k := 1) v (by decide),
    bit_byteOfWord (k := 2) v (by decide), bit_byteOfWord (k := 3) v (by decide),
    UInt32.reduceToNat, UInt32.reduceMul, hi]
  grind

/-! ### Addresses -/

theorem toNat_and_addressMask (a : UInt32) : (a &&& addressMask).toNat = a.toNat % 0x1000000 := by
  rw [UInt32.toNat_and]
  exact Nat.and_two_pow_sub_one_eq_mod a.toNat 24

theorem Width.aligned_iff (w : Width) (a : UInt32) :
    w.aligned a = true ↔ a.toNat % w.bytes = 0 := by
  cases w with
  | byte => simp [aligned, bytes, Nat.mod_one]
  | half =>
      have h : (a &&& 1).toNat = a.toNat % 2 := by
        rw [UInt32.toNat_and]
        exact Nat.and_two_pow_sub_one_eq_mod a.toNat 1
      rw [aligned, beq_iff_eq, bytes, ← h, ← UInt32.toNat_inj]
      rfl
  | word =>
      have h : (a &&& 3).toNat = a.toNat % 4 := by
        rw [UInt32.toNat_and]
        exact Nat.and_two_pow_sub_one_eq_mod a.toNat 2
      rw [aligned, beq_iff_eq, bytes, ← h, ← UInt32.toNat_inj]
      rfl

theorem aligned_word_iff {a : UInt32} : Width.word.aligned a = true ↔ a.toNat % 4 = 0 :=
  Width.word.aligned_iff a

@[simp] theorem aligned_wordAddress (v : UInt32) :
    Width.word.aligned (v &&& wordAddressMask) = true := by
  have h : ∀ i < 32, (bit wordAddressMask i && bit 3 i) = false := by decide
  rw [Width.aligned, beq_iff_eq]
  refine word_ext fun i hi => ?_
  rw [bit_and, bit_and, Bool.and_assoc, h i hi, Bool.and_false, bit_zero]

theorem and_wordAddressMask {a : UInt32} (h : Width.word.aligned a = true) :
    a &&& wordAddressMask = a &&& addressMask := by
  have h3 : a &&& 3 = 0 := by simpa [Width.aligned] using h
  have hm : ∀ i < 32, bit addressMask i = (bit wordAddressMask i || bit 3 i) := by decide
  refine word_ext fun i hi => ?_
  have hb : (bit a i && bit 3 i) = false := by rw [← bit_and, h3, bit_zero]
  rw [bit_and, bit_and, hm i hi, Bool.and_or_distrib_left, hb, Bool.or_false]

theorem and_addressMask_of_le {a : UInt32} (h : a ≤ addressMask) : a &&& addressMask = a := by
  have h : a.toNat ≤ 0xFFFFFF := h
  refine UInt32.toNat_inj.1 ?_
  rw [toNat_and_addressMask]
  omega

/-- The address `i` strides on from `a`. -/
def along (stride a : UInt32) (i : Nat) : UInt32 := (a + stride * UInt32.ofNat i) &&& addressMask

section Along

variable {stride a : UInt32}

theorem along_le (stride a : UInt32) (i : Nat) : along stride a i ≤ addressMask :=
  UInt32.and_le_right

theorem toNat_along (stride a : UInt32) (i : Nat) :
    (along stride a i).toNat = (a.toNat + stride.toNat * i) % 0x1000000 := by
  have h : (UInt32.ofNat i).toNat = i % 0x100000000 := UInt32.toNat_ofNat'
  rw [along, toNat_and_addressMask, UInt32.toNat_add, UInt32.toNat_mul, h, Nat.mul_mod_mod,
    Nat.add_mod_mod, Nat.mod_mod_of_dvd _ (by decide)]

theorem along_zero (h : a ≤ addressMask) : along stride a 0 = a := by
  rw [along]
  simpa using and_addressMask_of_le h

/-- **Strides add up.** -/
theorem along_along (i j : Nat) : along stride (along stride a i) j = along stride a (i + j) := by
  refine UInt32.toNat_inj.1 ?_
  rw [toNat_along, toNat_along, toNat_along, Nat.mul_add]
  omega

theorem aligned_along (hs : stride.toNat % 4 = 0) (ha : Width.word.aligned a = true) (i : Nat) :
    Width.word.aligned (along stride a i) = true := by
  rw [aligned_word_iff] at ha ⊢
  have hi : stride.toNat * i % 4 = 0 := by rw [Nat.mul_mod, hs, Nat.zero_mul]
  rw [toNat_along]
  omega

end Along

/-! ### Words of RAM -/

theorem toNat_physical (a : UInt32) : (physical a).toNat = a.toNat % 0x20000000 := by
  rw [physical, UInt32.toNat_and]
  exact Nat.and_two_pow_sub_one_eq_mod a.toNat 29

theorem physical_of_le {a : UInt32} (h : a ≤ addressMask) : physical a = a := by
  have h : a.toNat ≤ 0xFFFFFF := h
  refine UInt32.toNat_inj.1 ?_
  rw [toNat_physical]
  omega

/-- **What a channel can address is RAM or nothing.** -/
theorem regionOf_eq_ram_iff {a : UInt32} (h : a ≤ addressMask) :
    regionOf a = .ram ↔ a.toNat < 0x800000 := by
  have h : a.toNat ≤ 0xFFFFFF := h
  simp only [regionOf, physical_of_le h, UInt32.le_iff_toNat_le, UInt32.reduceToNat]
  split
  · simp; omega
  · rw [if_neg (by omega), if_neg (by omega)]
    simp
    omega

namespace Ram

/-- The word at an address of the bus. -/
def word (m : Ram) (a : UInt32) : UInt32 := m.read .word (physical a)

/-- An aligned access does not reach over the end of RAM. -/
theorem offset_add_of_lt {w : Width} {a i : UInt32} (ha : a.toNat % w.bytes = 0)
    (hi : i.toNat < w.bytes) : offset (a + i) = offset a + i.toNat := by
  have hl := a.toNat_lt
  rw [offset, offset, UInt32.toNat_add, size]
  cases w <;> simp only [Width.bytes] at ha hi <;> omega

section Offsets

variable {a : UInt32} (ha : Width.word.aligned a = true)
include ha

theorem offset_mod_four : offset a % 4 = 0 := by
  have h4 := aligned_word_iff.1 ha
  rw [offset, size]
  omega

theorem offset_add {i : UInt32} (hi : i.toNat < 4) : offset (a + i) = offset a + i.toNat :=
  offset_add_of_lt (w := .word) (aligned_word_iff.1 ha) hi

end Offsets

theorem read_write_word (m : Ram) {a b : UInt32} (ha : Width.word.aligned a = true)
    (hb : Width.word.aligned b = true) (v : UInt32) :
    (m.write .word a v).read .word b = if offset b = offset a then v else m.read .word b := by
  have hma := offset_mod_four ha
  have hmb := offset_mod_four hb
  have h1 : ∀ {c : UInt32}, Width.word.aligned c = true → offset (c + 1) = offset c + 1 :=
    fun hc => offset_add hc (by decide)
  have h2 : ∀ {c : UInt32}, Width.word.aligned c = true → offset (c + 2) = offset c + 2 :=
    fun hc => offset_add hc (by decide)
  have h3 : ∀ {c : UInt32}, Width.word.aligned c = true → offset (c + 3) = offset c + 3 :=
    fun hc => offset_add hc (by decide)
  simp only [read, write, byte_setByte, h1 ha, h2 ha, h3 ha, h1 hb, h2 hb, h3 hb]
  by_cases h : offset b = offset a
  · simp [h, wordOfBytes_byteOfWord]
  · -- The two words lie apart, and so do all of their bytes.
    have hne : ∀ i j : Nat, i < 4 → j < 4 → offset b + i ≠ offset a + j := by omega
    have h0 : ∀ j < 4, offset b ≠ offset a + j := fun j => hne 0 j (by omega)
    have h0' : ∀ i < 4, offset b + i ≠ offset a := fun i hi => hne i 0 hi (by omega)
    simp [h, hne, h0, h0']

/-- **A word reads back**, at every address that falls in the same place, and no other changes. -/
theorem word_write (m : Ram) {a b : UInt32} (ha : Width.word.aligned (physical a) = true)
    (hb : Width.word.aligned (physical b) = true) (v : UInt32) :
    (m.write .word (physical a) v).word b =
      if offset (physical b) = offset (physical a) then v else m.word b :=
  read_write_word m ha hb v

/-- A word that is stored changes no byte but its own four. -/
theorem byte_write_word (m : Ram) {a b : UInt32} (ha : Width.word.aligned a = true) (v : UInt32)
    (h : offset b / 4 ≠ offset a / 4) : (m.write .word a v).byte b = m.byte b := by
  have hm := offset_mod_four ha
  have h1 : offset (a + 1) = offset a + 1 := offset_add ha (by decide)
  have h2 : offset (a + 2) = offset a + 2 := offset_add ha (by decide)
  have h3 : offset (a + 3) = offset a + 3 := offset_add ha (by decide)
  simp only [write, byte_setByte, h1, h2, h3]
  rw [if_neg (by omega), if_neg (by omega), if_neg (by omega), if_neg (by omega)]

/-- Two words that stand less than the size of memory apart fall in different places. -/
theorem offset_along_ne {stride : UInt32} (hs : stride = 4 ∨ stride = -4) (a : UInt32) {i j : Nat}
    (hij : i < j) (hj : j < 0x80000) :
    offset (physical (along stride a i)) ≠ offset (physical (along stride a j)) := by
  have hs : stride.toNat = 4 ∨ stride.toNat = 0x100000000 - 4 := hs.imp (by rintro rfl; rfl)
    (by rintro rfl; rfl)
  rw [physical_of_le (along_le _ _ _), physical_of_le (along_le _ _ _), offset, offset, size,
    toNat_along, toNat_along]
  obtain hs | hs := hs <;> rw [hs] <;> omega

/-! ### Several words -/

/-- Memory after words were stored at addresses, one after the other. -/
def storeAll : List (UInt32 × UInt32) → Ram → Ram
  | [], m => m
  | (a, v) :: xs, m => storeAll xs (m.write .word (physical a) v)

/-- **Words that are stored** leave the bytes of all others alone, -/
theorem byte_storeAll {b : UInt32} : ∀ {xs : List (UInt32 × UInt32)} (m : Ram),
    (∀ x ∈ xs, Width.word.aligned (physical x.1) = true) →
      (∀ x ∈ xs, offset b / 4 ≠ offset (physical x.1) / 4) → (storeAll xs m).byte b = m.byte b
  | [], _, _, _ => rfl
  | (_, v) :: _, m, ha, hb => by
      obtain ⟨ha, has⟩ := List.forall_mem_cons.1 ha
      obtain ⟨hb, hbs⟩ := List.forall_mem_cons.1 hb
      rw [storeAll, byte_storeAll _ has hbs, m.byte_write_word ha v hb]

theorem word_storeAll_of_ne {b : UInt32} (hb : Width.word.aligned (physical b) = true) :
    ∀ {xs : List (UInt32 × UInt32)} (m : Ram),
      (∀ x ∈ xs, Width.word.aligned (physical x.1) = true) →
        (∀ x ∈ xs, offset (physical b) ≠ offset (physical x.1)) →
          (storeAll xs m).word b = m.word b
  | [], _, _, _ => rfl
  | (_, v) :: _, m, ha, hn => by
      obtain ⟨ha, has⟩ := List.forall_mem_cons.1 ha
      obtain ⟨hn, hns⟩ := List.forall_mem_cons.1 hn
      rw [storeAll, word_storeAll_of_ne hb _ has hns, m.word_write ha hb, if_neg hn]

/-- and all of them can be read back if no two fall in one place. -/
theorem word_storeAll {a v : UInt32} : ∀ {xs : List (UInt32 × UInt32)} (m : Ram),
    (∀ x ∈ xs, Width.word.aligned (physical x.1) = true) →
      xs.Pairwise (fun x y => offset (physical x.1) ≠ offset (physical y.1)) →
        (a, v) ∈ xs → (storeAll xs m).word a = v
  | (b, w) :: xs, m, ha, hd, hx => by
      obtain ⟨hb, has⟩ := List.forall_mem_cons.1 ha
      obtain ⟨hn, hd⟩ := List.pairwise_cons.1 hd
      rw [storeAll]
      obtain h | hx := List.mem_cons.1 hx
      · cases h
        rw [word_storeAll_of_ne hb _ has hn, m.word_write hb hb, if_pos rfl]
      · exact word_storeAll _ has hd hx

theorem storeAll_append : ∀ (xs ys : List (UInt32 × UInt32)) (m : Ram),
    storeAll (xs ++ ys) m = storeAll ys (storeAll xs m)
  | [], _, _ => rfl
  | _ :: xs, ys, _ => storeAll_append xs ys _

end Ram

/-! ### The end of memory -/

/-- How many of the first `n` addresses come before the first one that is not in memory, if there is
one. -/
def ramReach (n : Nat) (address : Nat → UInt32) : Nat :=
  (List.range n).findIdx fun i => regionOf (address i) ≠ .ram

section Reach

variable {n : Nat} {address : Nat → UInt32}

theorem ramReach_le (n : Nat) (address : Nat → UInt32) : ramReach n address ≤ n := by
  have h : ramReach n address ≤ (List.range n).length := List.findIdx_le_length
  rwa [List.length_range] at h

theorem ram_of_lt_ramReach {i : Nat} (hi : i < ramReach n address) :
    regionOf (address i) = .ram := by
  have h := List.not_of_lt_findIdx hi
  rw [List.getElem_range] at h
  simpa using h

theorem ne_ram_of_ramReach_lt (h : ramReach n address < n) :
    regionOf (address (ramReach n address)) ≠ .ram := by
  have hl : ramReach n address < (List.range n).length := by rwa [List.length_range]
  have hk : decide (regionOf (address (List.range n)[ramReach n address]) ≠ .ram) = true :=
    List.findIdx_getElem (w := hl)
  rw [List.getElem_range] at hk
  exact of_decide_eq_true hk

end Reach

end DmaMachine
