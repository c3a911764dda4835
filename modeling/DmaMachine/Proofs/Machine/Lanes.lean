import DmaMachine.Proofs.Engine.Registers
import DmaMachine.Proofs.Machine.Errands

/-!
# Narrow accesses to the register window

A register is a word.  The processor may read a byte or a half of it, and may write one: a narrow
read is a lane of the register, and a narrow write a masked write of the word.

Most registers can tell a word that is written at once from one that is written part by part: a flag
is acknowledged, or a transfer starts, when the part is written that has the bit.  The base
addresses, the block words and the priority word only store what is written.

* `store_store`: two masked writes to such a register are one.
* `storeParts_engine`: **the parts of a word, in whatever order**, come to the write of the word.
* `narrow_accesses`: this, and that every narrow read is a lane.
-/

namespace DmaMachine

/-! ### Parts of a word -/

/-- A byte or a half of a word. -/
inductive Part where
  | byte (i : Fin 4)
  | half (j : Fin 2)
deriving DecidableEq

namespace Part

def width : Part → Width
  | byte _ => .byte
  | half _ => .half

/-- Where the part begins, in bytes. -/
def place : Part → Nat
  | byte i => i
  | half j => 2 * j

/-- The part has this byte of the word. -/
def Covers (l : Part) (k : Fin 4) : Prop := l.place ≤ k ∧ k < l.place + l.width.bytes

instance (l : Part) (k : Fin 4) : Decidable (l.Covers k) :=
  inferInstanceAs (Decidable (_ ∧ _))

/-- The value of the part: a digit of the word, to the base of 256 or its square. -/
def of : Part → UInt32 → UInt32
  | byte i, v => UInt32.ofNat (v.toNat / 256 ^ i.val % 256)
  | half j, v => UInt32.ofNat (v.toNat / 65536 ^ j.val % 65536)

/-- The address of the part of the word at `a`. -/
def address (l : Part) (a : UInt32) : UInt32 := a + UInt32.ofNat l.place

/-- The bits of the part. -/
def mask (l : Part) : UInt32 := l.width.mask <<< UInt32.ofNat (8 * l.place)

theorem place_lt (l : Part) : l.place < 4 := by
  obtain ⟨i⟩ | ⟨j⟩ := l <;> simp only [place] <;> omega

theorem toNat_place (l : Part) : (UInt32.ofNat l.place).toNat = l.place :=
  UInt32.toNat_ofNat_of_lt' (Nat.lt_trans l.place_lt (by decide))

theorem bit_mask : ∀ (l : Part), ∀ i < 32, bit l.mask i = true ↔ l.Covers (Fin.ofNat 4 (i / 8))
  | byte i => by revert i; decide
  | half j => by revert j; decide

/-- The bits of a mask and of several parts. -/
def masks (ls : List Part) (mask : UInt32) : UInt32 := ls.foldl (fun k l => k ||| l.mask) mask

theorem bit_masks {i : Nat} : ∀ (ls : List Part) (mask : UInt32),
    bit (masks ls mask) i = true ↔ bit mask i = true ∨ ∃ l ∈ ls, bit l.mask i = true
  | [], _ => by simp [masks]
  | l :: ls, mask => by
      have ih := bit_masks ls (mask ||| l.mask) (i := i)
      rw [bit_or, Bool.or_eq_true, or_assoc] at ih
      simpa [masks] using ih

/-- Parts that have all four bytes have all bits. -/
theorem masks_of_covers {ls : List Part} (hc : ∀ k, ∃ l ∈ ls, l.Covers k) :
    masks ls 0 = 0xFFFFFFFF := by
  have hb : ∀ i < 32, bit 0xFFFFFFFF i = true := by decide
  refine word_ext fun i hi => ?_
  obtain ⟨l, hl, hk⟩ := hc (Fin.ofNat 4 (i / 8))
  rw [hb i hi]
  exact (bit_masks ls 0).2 (.inr ⟨l, hl, (l.bit_mask i hi).2 hk⟩)

section Address

variable (l : Part) {a : UInt32} (ha : a.toNat % 4 = 0)
include ha

theorem physical_address : physical (l.address a) = physical a + UInt32.ofNat l.place :=
  physical_add ha (l.toNat_place.symm ▸ l.place_lt)

theorem toNat_address : (physical (l.address a)).toNat = (physical a).toNat + l.place := by
  have hp := l.place_lt
  have hl := a.toNat_lt
  rw [l.physical_address ha, UInt32.toNat_add, l.toNat_place, toNat_physical]
  omega

theorem address_mod : (physical (l.address a)).toNat % 4 = l.place := by
  have hp := l.place_lt
  rw [l.toNat_address ha, toNat_physical]
  omega

theorem address_aligned : (physical (l.address a)).toNat % l.width.bytes = 0 := by
  have h := l.address_mod ha
  obtain ⟨i⟩ | ⟨j⟩ := l <;> simp only [width, place, Width.bytes] at h ⊢ <;> omega

theorem shift_address : l.width.shift (physical (l.address a)) = UInt32.ofNat (8 * l.place) := by
  have hp := l.place_lt
  refine UInt32.toNat_inj.1 ?_
  rw [Width.toNat_shift (l.address_aligned ha), l.address_mod ha,
    UInt32.toNat_ofNat_of_lt' (by simp only [UInt32.size]; omega)]

/-- **The lane at the address of a part** is the part. -/
theorem lane_address (v : UInt32) : l.width.lane (physical (l.address a)) v = l.of v := by
  refine UInt32.toNat_inj.1 ?_
  rw [Width.toNat_lane (l.address_aligned ha), l.address_mod ha]
  obtain ⟨i⟩ | ⟨j⟩ := l
  · rw [of, UInt32.toNat_ofNat_of_lt' (by simp only [UInt32.size]; omega)]
    rfl
  · rw [of, UInt32.toNat_ofNat_of_lt' (by simp only [UInt32.size]; omega), place, Nat.pow_mul]
    rfl

end Address

end Part

/-! ### Registers that only store -/

/-- A write to the register stores bits of it, and does nothing else. -/
def Register.Stores : Register → Prop
  | channel _ .base | channel _ .blocks | priority => True
  | _ => False

namespace Engine

variable {e : Engine} {o v v' mask : UInt32} {r : Register}

theorem put_congr (h : v &&& mask = v' &&& mask) (r : Register) (e : Engine) :
    put r v mask e = put r v' mask e := by
  cases r with
  | channel p r =>
      have hw : Channel.write p r v mask = Channel.write p r v' mask := by
        funext c
        cases r <;> simp only [Channel.write, merge_congr h]
      simp only [put, hw]
  | priority | interrupt =>
      simp only [put, Controller.putPriority, Controller.putInterrupt, merge_congr h]
  | fixedLow | fixedHigh => rfl

/-- A write takes no bits but those of its mask. -/
theorem write_congr (h : v &&& mask = v' &&& mask) (o : UInt32) (e : Engine) :
    write o v mask e = write o v' mask e := by
  rw [write, write]
  split
  · exact put_congr h _ e
  · rfl

/-- The engine after a masked write, whatever it is answered. -/
def store (o v mask : UInt32) (e : Engine) : Engine := (Op.outcome (write o v mask e)).2

/-- Two masked writes to a register that only stores are one. -/
theorem store_store {mask' : UInt32} (hr : r.Stores) (ho : r.At o) (v : UInt32) (e : Engine) :
    store o v mask' (store o v mask e) = store o v (mask ||| mask') e := by
  have hm : ∀ old k, merge (merge old v mask &&& k) v mask' &&& k =
      merge old v (mask ||| mask') &&& k := fun old k => by rw [merge_and, merge_or]
  have stored : ∀ (p : Peer) (r : Channel.Register) (f : UInt32 → Channel → Channel),
      (∀ mask c, (Op.outcome (Channel.write p r v mask c)).2 = f mask c) →
        (∀ c, f mask' (f mask c) = f (mask ||| mask') c) →
          (Op.outcome (put (.channel p r) v mask' (Op.outcome (put (.channel p r) v mask e)).2)).2 =
            (Op.outcome (put (.channel p r) v (mask ||| mask') e)).2 := fun p r f hf h => by
    simp only [outcome_put_channel, hf, channel_setChannel, setChannel_setChannel, if_true, h]
  simp only [store, write_at ho]
  cases r with
  | channel p r =>
      cases r with
      | base =>
          exact stored p .base
            (fun mask c => { c with base := merge c.base v mask &&& addressMask })
            (fun _ _ => rfl) fun c =>
              congrArg (fun b => { c with base := b }) (hm c.base addressMask)
      | blocks =>
          exact stored p .blocks (fun mask c => { c with blocks := ⟨merge c.blocks.bits v mask⟩ })
            (fun _ _ => rfl) fun c =>
              congrArg (fun b => { c with blocks := ⟨b⟩ }) (merge_or c.blocks.bits ..)
      | control => cases hr
  | priority =>
      exact congrArg (fun w => { e with controller := { e.controller with priorityWord := w } })
        (hm e.controller.priorityWord Controller.priorityBits)
  | interrupt | fixedLow | fixedHigh => cases hr

end Engine

/-! ### The processor's accesses -/

namespace Machine

variable {δ α υ : Type} [Board δ] {a : UInt32} {r : Register}

/-- An address in the window has the whole of its word there, -/
theorem inWindow_address (l : Part) (ha : a.toNat % 4 = 0) (hw : inWindow (physical a) = true) :
    inWindow (physical (l.address a)) = true := by
  have hp := l.place_lt
  have h := l.toNat_address ha
  have hm := toNat_physical a
  simp only [inWindow, windowStart, windowEnd, Bool.and_eq_true, decide_eq_true_eq,
    UInt32.le_iff_toNat_le, UInt32.reduceToNat] at hw ⊢
  omega

/-- and all of it at the offset of the word. -/
theorem wordBase_address (l : Part) (ha : a.toNat % 4 = 0) :
    wordBase (physical (l.address a) - windowStart) = physical a - windowStart := by
  have hp := l.place_lt
  have hm := toNat_physical a
  have hl := (physical a).toNat_lt
  refine UInt32.toNat_inj.1 ?_
  rw [toNat_wordBase, UInt32.toNat_sub, UInt32.toNat_sub, l.toNat_address ha, windowStart]
  simp only [UInt32.reduceToNat]
  omega

theorem read_word_register (hw : inWindow (physical a) = true) (m : Machine δ α υ) :
    read .word a m = match m.engine.read (physical a - windowStart) with
      | .ok v => .ok v m
      | .error e => .error e m := by
  cases h : m.engine.read (physical a - windowStart) <;>
    simp only [read, if_pos hw, if_true, Width.lane_word, h]

/-- **A narrow read of a register** is a part of it. -/
theorem read_part (l : Part) (ha : a.toNat % 4 = 0) (hw : inWindow (physical a) = true)
    (m : Machine δ α υ) :
    read l.width (l.address a) m = match m.engine.read (physical a - windowStart) with
      | .ok v => .ok (l.of v) m
      | .error e => .error e m := by
  have hn : ¬l.width = .word := by cases l <;> exact nofun
  cases h : m.engine.read (physical a - windowStart) <;>
    simp only [read, if_pos (inWindow_address l ha hw), if_neg hn, wordBase_address l ha,
      l.lane_address ha, h]

theorem writeMasked_register (hw : inWindow (physical a) = true) (v mask : UInt32)
    (m : Machine δ α υ) :
    (Op.outcome (writeMasked a v mask m)).2.engine =
      m.engine.store (physical a - windowStart) v mask := by
  simp only [writeMasked, if_pos hw]
  exact writeRegister_engine ..

/-- **A narrow write of a register** is the write of the word through the mask of the part. -/
theorem write_part (l : Part) (ha : a.toNat % 4 = 0) (hw : inWindow (physical a) = true)
    (v : UInt32) (m : Machine δ α υ) :
    (Op.outcome (write l.width (l.address a) (l.of v) m)).2.engine =
      m.engine.store (physical a - windowStart) v l.mask := by
  have hn : ¬l.width = .word := by cases l <;> exact nofun
  have hb : wordBase (l.address a) = a := wordBase_add ha (l.toNat_place.symm ▸ l.place_lt)
  have hl := Width.lane_shiftLeft (l.address_aligned ha) v
  rw [l.lane_address ha, l.shift_address ha] at hl
  simp only [write, if_neg hn, if_pos (inWindow_address l ha hw), hb, l.shift_address ha]
  exact (writeMasked_register hw _ _ m).trans
    (congrArg (fun r => (Op.outcome r).2) (Engine.write_congr hl _ m.engine))

/-- Writes parts of a word at `a`, one after the other, whatever each of them is answered. -/
def storeParts (a v : UInt32) (ls : List Part) (m : Machine δ α υ) : Machine δ α υ :=
  ls.foldl (fun m l => (Op.outcome (write l.width (l.address a) (l.of v) m)).2) m

/-- After a masked write, parts add to its mask. -/
theorem storeParts_store (hr : r.Stores) (ho : r.At (physical a - windowStart))
    (ha : a.toNat % 4 = 0) (hw : inWindow (physical a) = true) (v : UInt32) (e : Engine) :
    ∀ (ls : List Part) (mask : UInt32) (m : Machine δ α υ),
      m.engine = e.store (physical a - windowStart) v mask →
        (storeParts a v ls m).engine = e.store (physical a - windowStart) v (Part.masks ls mask)
  | [], _, _, h => h
  | l :: ls, mask, m, h => by
      refine storeParts_store hr ho ha hw v e ls (mask ||| l.mask) _ ?_
      rw [write_part l ha hw, h, Engine.store_store hr ho]

/-- **The parts of a word**, in whatever order and mixture, come to the write of the word. -/
theorem storeParts_engine (hr : r.Stores) (ho : r.At (physical a - windowStart))
    (ha : a.toNat % 4 = 0) (hw : inWindow (physical a) = true) (v : UInt32)
    {ls : List Part} (hc : ∀ k, ∃ l ∈ ls, l.Covers k) (m : Machine δ α υ) :
    (storeParts a v ls m).engine = (Op.outcome (write .word a v m)).2.engine := by
  cases ls with
  | nil =>
      obtain ⟨_, hl, -⟩ := hc 0
      cases hl
  | cons l ls =>
      have h := storeParts_store hr ho ha hw v m.engine ls l.mask _ (write_part l ha hw v m)
      have hm : Part.masks ls l.mask = 0xFFFFFFFF := by
        have h := Part.masks_of_covers hc
        rwa [Part.masks, List.foldl_cons, UInt32.zero_or] at h
      rw [hm] at h
      exact h.trans (writeMasked_register hw v 0xFFFFFFFF m).symm

/-- **Narrow accesses to the register window.**  For every word of the window, in whatever segment
it is addressed: the processor reads of a byte or a half of it what that part is of the word, or is
answered with the same fault, and nothing changes.  Where a base address, a block word or the
priority word stands, a word that is stored part by part, in whatever order and in bytes and halves
as one likes, leaves the engine, and so all registers, as the word does that is stored at once. -/
theorem narrow_accesses (ha : a.toNat % 4 = 0) (hw : inWindow (physical a) = true)
    (m : Machine δ α υ) :
    (∃ answer : Except Fault UInt32, Op.outcome (read .word a m) = (answer, m) ∧
      ∀ l : Part, Op.outcome (read l.width (l.address a) m) = (answer.map l.of, m)) ∧
    ∀ r : Register, r.Stores → r.At (physical a - windowStart) →
      ∀ (v : UInt32) (ls : List Part), (∀ k, ∃ l ∈ ls, l.Covers k) →
        (storeParts a v ls m).engine = (Op.outcome (write .word a v m)).2.engine := by
  refine ⟨⟨m.engine.read (physical a - windowStart), ?_, fun l => ?_⟩,
    fun r hr ho v ls hc => storeParts_engine hr ho ha hw v hc m⟩
  · rw [read_word_register hw]
    cases m.engine.read (physical a - windowStart) <;> rfl
  · rw [read_part l ha hw]
    cases m.engine.read (physical a - windowStart) <;> rfl

/-- The priority word, addressed in another segment, of a machine at power-on.  Its second byte is
read; then its upper half is written, its second byte and its first. -/
theorem narrow_accesses_priority :
    Op.outcome (read .byte 0xBF8010F1 (initial BareBoard.mk () : Machine BareBoard Unit Unit)) =
      (.ok 0x43, initial BareBoard.mk ()) ∧
    (storeParts 0xBF8010F0 0x0F654B21 [.half 1, .byte 1, .byte 0]
      (initial BareBoard.mk () : Machine BareBoard Unit Unit)).engine.controller.priorityWord =
        0x0F654B21 := by
  have ha : (0xBF8010F0 : UInt32).toNat % 4 = 0 := by decide
  have hw : inWindow (physical 0xBF8010F0) = true := by decide
  obtain ⟨⟨answer, hword, hpart⟩, hstore⟩ :=
    narrow_accesses ha hw (initial BareBoard.mk () : Machine BareBoard Unit Unit)
  constructor
  · rw [read_word_register hw] at hword
    cases congrArg Prod.fst hword
    exact (hpart (.byte 1)).trans rfl
  · rw [hstore .priority trivial (by rfl) _ _ (by decide)]
    rfl

end Machine

end DmaMachine
