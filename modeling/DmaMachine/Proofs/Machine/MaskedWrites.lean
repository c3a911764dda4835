import DmaMachine.Machine.Basic
import DmaMachine.Proofs.Bus.Flat
import DmaMachine.Proofs.Lanes
import DmaMachine.Rack

/-!
# Masked writes outside the register window

The processor writes the bits of a word through a mask.  The bus knows no masks: a mask that is a
whole word or half is one access of that width, and any other goes byte by byte.  A byte that is
masked in part is read first, and written with its other bits as they were.

In memory nobody can tell which accesses were made.  A device can: a read may take something out of
it, and a byte that is not masked may be a register of its own.

* `writeMasked_ram`: **in memory a masked write merges**, and changes no other byte.
* `writeMasked_device`: **a mask of whole bytes is writes alone**, in ascending order, of just the
  bytes that are masked.
* `Bus.Delivered`: what such writes do to the devices, access by access; `Machine.onBus_deliver`:
  nothing else of a machine is changed by them.
* `masked_write`: both, for every word.
-/

namespace DmaMachine

/-! ### Bytes of a masked write -/

section Bytes

variable {k old old' v mask : UInt32}

/-- The places of bytes in a word. -/
theorem place_cases (hk : k.toNat < 4) : k = 0 ∨ k = 1 ∨ k = 2 ∨ k = 3 := by
  simp only [← UInt32.toNat_inj, UInt32.reduceToNat]
  omega

theorem lt_of_mem_places (h : k ∈ ([0, 1, 2, 3] : List UInt32)) : k.toNat < 4 := by
  have h : k = 0 ∨ k = 1 ∨ k = 2 ∨ k = 3 := by simpa using h
  obtain rfl | rfl | rfl | rfl := h <;> decide

/-- A byte is merged bit by bit. -/
theorem bit_byte_merge (hk : k.toNat < 4) (old v mask : UInt32) {i : Nat} (hi : i < 8) :
    bit (merge old v mask) (8 * k.toNat + i) =
      if bit (byteOfWord k mask).toUInt32 i then bit v (8 * k.toNat + i)
      else bit old (8 * k.toNat + i) := by
  simp only [bit_merge, bit_byte hk, hi, decide_true, Bool.true_and]

/-- A byte that is not masked stays, -/
theorem byte_merge_of_unmasked (hk : k.toNat < 4) (hm : byteOfWord k mask = 0) (old v : UInt32) :
    byteOfWord k (merge old v mask) = byteOfWord k old := by
  refine (byte_eq_iff hk hk).2 fun i hi => ?_
  rw [bit_byte_merge hk _ _ _ hi, hm]
  exact if_neg (by simp)

/-- one that is wholly masked is replaced, -/
theorem byte_merge_of_masked (hk : k.toNat < 4) (hm : byteOfWord k mask = 0xFF) (old v : UInt32) :
    byteOfWord k (merge old v mask) = byteOfWord k v := by
  have hb : ∀ i < 8, bit (0xFF : UInt8).toUInt32 i = true := by decide
  refine (byte_eq_iff hk hk).2 fun i hi => ?_
  rw [bit_byte_merge hk _ _ _ hi, hm, if_pos (hb i hi)]

/-- and any is merged by itself. -/
theorem byte_merge (hk : k.toNat < 4) (old v mask : UInt32) :
    byteOfWord k (merge old v mask) = byteOfWord 0 (merge (byteOfWord k old).toUInt32
      (byteOfWord k v).toUInt32 (byteOfWord k mask).toUInt32) := by
  refine (byte_eq_iff hk (by decide)).2 fun i hi => ?_
  rw [bit_byte_merge hk _ _ _ hi]
  simp only [bit_merge, UInt32.reduceToNat, Nat.mul_zero, Nat.zero_add, bit_byte hk, hi,
    decide_true, Bool.true_and]

/-- The bytes of the lower half of a word, -/
theorem byte_low_half (hk : k.toNat < 2) (v : UInt32) :
    byteOfWord k (v &&& 0xFFFF) = byteOfWord k v := by
  have hf : ∀ i < 16, bit 0xFFFF i = true := by decide
  refine (byte_eq_iff (by omega) (by omega)).2 fun i hi => ?_
  rw [bit_and, hf _ (by omega), Bool.and_true]

/-- and of the upper one. -/
theorem byte_high_half (hk : k.toNat < 2) (v : UInt32) :
    byteOfWord k (v >>> 16) = byteOfWord (2 + k) v := by
  have h2 : (2 + k).toNat = 2 + k.toNat := by
    rw [UInt32.toNat_add]
    simp only [UInt32.reduceToNat]
    omega
  refine (byte_eq_iff (by omega) (by omega)).2 fun i hi => ?_
  rw [bit_shiftRight _ (by decide), h2]
  exact congrArg (bit v) (by simp only [UInt32.reduceToNat]; omega)

end Bytes

/-- **The bytes of a word** that is made of bytes. -/
theorem bytes_wordOfBytes (b₀ b₁ b₂ b₃ : UInt8) :
    byteOfWord 0 (wordOfBytes b₀ b₁ b₂ b₃) = b₀ ∧ byteOfWord 1 (wordOfBytes b₀ b₁ b₂ b₃) = b₁ ∧
      byteOfWord 2 (wordOfBytes b₀ b₁ b₂ b₃) = b₂ ∧
      byteOfWord 3 (wordOfBytes b₀ b₁ b₂ b₃) = b₃ := by
  have hn : (wordOfBytes b₀ b₁ b₂ b₃).toNat = ofLittleEndian [b₀, b₁, b₂, b₃] := by
    have h₀ := b₀.toNat_lt
    have h₁ := b₁.toNat_lt
    have h₂ := b₂.toNat_lt
    have h₃ := b₃.toNat_lt
    rw [wordOfBytes_eq]
    refine UInt32.toNat_ofNat_of_lt' ?_
    simp only [ofLittleEndian, UInt32.size]
    omega
  have hb := littleEndian_bytes .word (wordOfBytes b₀ b₁ b₂ b₃)
  rw [hn, show Width.word.bytes = [b₀, b₁, b₂, b₃].length from rfl,
    littleEndian_ofLittleEndian] at hb
  simpa [eq_comm] using hb

/-! ### Bytes of memory -/

namespace Ram

variable {a k : UInt32}

theorem setByte_byte (m : Ram) (a : UInt32) : m.setByte a (m.byte a) = m := by
  refine Ram.ext (ByteArray.ext ?_)
  exact Array.set_getElem_self (m.offset_lt a)

theorem physical_offset (ha : a.toNat % 4 = 0) {k : UInt32} (hk : k.toNat < 4) :
    offset (physical a + k) = offset (physical a) + k.toNat :=
  offset_add (aligned_word_iff.2 (physical_mod ha)) hk

/-- The bytes of a word in memory. -/
theorem byteOfWord_word (m : Ram) (hk : k.toNat < 4) :
    byteOfWord k (m.word a) = m.byte (physical a + k) := by
  obtain ⟨h₀, h₁, h₂, h₃⟩ := bytes_wordOfBytes (m.byte (physical a)) (m.byte (physical a + 1))
    (m.byte (physical a + 2)) (m.byte (physical a + 3))
  obtain rfl | rfl | rfl | rfl := place_cases hk
  · rw [UInt32.add_zero]
    exact h₀
  · exact h₁
  · exact h₂
  · exact h₃

theorem byte_setByte_of_ne (ha : a.toNat % 4 = 0) {j : UInt32} (hj : j.toNat < 4)
    (hk : k.toNat < 4) (h : j ≠ k) (m : Ram) (b : UInt8) :
    (m.setByte (physical a + k) b).byte (physical a + j) = m.byte (physical a + j) := by
  rw [byte_setByte, physical_offset ha hk, physical_offset ha hj, if_neg]
  exact fun he => h (UInt32.toNat_inj.1 (Nat.add_left_cancel he))

/-- The memory with bytes of a word put in at an address. -/
def putBytes (a w : UInt32) (ks : List UInt32) (m : Ram) : Ram :=
  ks.foldl (fun m k => m.setByte (physical a + k) (byteOfWord k w)) m

theorem putBytes_all (a w : UInt32) (m : Ram) :
    putBytes a w [0, 1, 2, 3] m = m.write .word (physical a) w := by
  simp only [putBytes, List.foldl_cons, List.foldl_nil, UInt32.add_zero, write]

/-- Bytes that are there already need not be put in. -/
theorem putBytes_of_same {w : UInt32} {m : Ram} : ∀ {ks : List UInt32},
    (∀ k ∈ ks, m.byte (physical a + k) = byteOfWord k w) → putBytes a w ks m = m
  | [], _ => rfl
  | k :: ks, h => by
      obtain ⟨hk, hks⟩ := List.forall_mem_cons.1 h
      rw [putBytes, List.foldl_cons, ← hk, setByte_byte]
      exact putBytes_of_same hks

/-- The two halves of a word, each of which may be put in alone when the other is there. -/
theorem putBytes_halves (ha : a.toNat % 4 = 0) (w : UInt32) (m : Ram) :
    (byteOfWord 2 (m.word a) = byteOfWord 2 w → byteOfWord 3 (m.word a) = byteOfWord 3 w →
      m.write .word (physical a) w = putBytes a w [0, 1] m) ∧
    (byteOfWord 0 (m.word a) = byteOfWord 0 w → byteOfWord 1 (m.word a) = byteOfWord 1 w →
      m.write .word (physical a) w = putBytes a w [2, 3] m) := by
  have hall : m.write .word (physical a) w = putBytes a w [2, 3] (putBytes a w [0, 1] m) :=
    (putBytes_all a w m).symm
  constructor
  · intro h₂ h₃
    rw [byteOfWord_word _ (by decide)] at h₂ h₃
    rw [hall]
    refine putBytes_of_same fun k hk => ?_
    have hk : k = 2 ∨ k = 3 := by simpa using hk
    simp only [putBytes, List.foldl_cons, List.foldl_nil]
    obtain rfl | rfl := hk
    · rw [byte_setByte_of_ne ha (by decide) (by decide) (by decide),
        byte_setByte_of_ne ha (by decide) (by decide) (by decide), h₂]
    · rw [byte_setByte_of_ne ha (by decide) (by decide) (by decide),
        byte_setByte_of_ne ha (by decide) (by decide) (by decide), h₃]
  · intro h₀ h₁
    rw [byteOfWord_word _ (by decide)] at h₀ h₁
    have hsame : putBytes a w [0, 1] m = m :=
      putBytes_of_same (List.forall_mem_cons.2 ⟨h₀, List.forall_mem_singleton.2 h₁⟩)
    rw [hall, hsame]

/-- The lower half of a word is merged as a whole, -/
theorem write_low_half (ha : a.toNat % 4 = 0) (v : UInt32) (m : Ram) :
    m.write .half (physical a) (v &&& 0xFFFF) =
      m.write .word (physical a) (merge (m.word a) v 0x0000FFFF) := by
  rw [(putBytes_halves ha _ m).1 (byte_merge_of_unmasked (by decide) (by decide) _ _).symm
    (byte_merge_of_unmasked (by decide) (by decide) _ _).symm]
  have h₀ : byteOfWord 0 (merge (m.word a) v 0x0000FFFF) = byteOfWord 0 v :=
    byte_merge_of_masked (by decide) (by decide) _ _
  have h₁ : byteOfWord 1 (merge (m.word a) v 0x0000FFFF) = byteOfWord 1 v :=
    byte_merge_of_masked (by decide) (by decide) _ _
  simp only [write, putBytes, List.foldl_cons, List.foldl_nil, UInt32.add_zero, h₀, h₁,
    byte_low_half (k := 0) (by decide), byte_low_half (k := 1) (by decide)]

/-- and so is the upper one. -/
theorem write_high_half (ha : a.toNat % 4 = 0) (v : UInt32) (m : Ram) :
    m.write .half (physical (a + 2)) (v >>> 16) =
      m.write .word (physical a) (merge (m.word a) v 0xFFFF0000) := by
  rw [(putBytes_halves ha _ m).2 (byte_merge_of_unmasked (by decide) (by decide) _ _).symm
    (byte_merge_of_unmasked (by decide) (by decide) _ _).symm, physical_add ha (by decide)]
  have h₂ : byteOfWord 2 (merge (m.word a) v 0xFFFF0000) = byteOfWord 2 v :=
    byte_merge_of_masked (by decide) (by decide) _ _
  have h₃ : byteOfWord 3 (merge (m.word a) v 0xFFFF0000) = byteOfWord 3 v :=
    byte_merge_of_masked (by decide) (by decide) _ _
  simp only [write, putBytes, List.foldl_cons, List.foldl_nil, UInt32.add_assoc, h₂, h₃,
    byte_high_half (k := 0) (by decide), byte_high_half (k := 1) (by decide), UInt32.reduceAdd]

end Ram

/-! ### Regions -/

/-- The halves of a word are aligned. -/
theorem half_aligned {a : UInt32} (ha : a.toNat % 4 = 0) : Width.half.aligned a = true := by
  refine (Width.half.aligned_iff a).2 ?_
  simp only [Width.bytes]
  omega

theorem half_aligned_two {a : UInt32} (ha : a.toNat % 4 = 0) :
    Width.half.aligned (a + 2) = true := by
  refine (Width.half.aligned_iff _).2 ?_
  rw [UInt32.toNat_add]
  simp only [Width.bytes, UInt32.reduceToNat]
  omega

/-- A word lies in one region. -/
theorem regionOf_add {a k : UInt32} (ha : a.toNat % 4 = 0) (hk : k.toNat < 4) :
    regionOf (a + k) = regionOf a := by
  have hp : (physical (a + k)).toNat = (physical a).toNat + k.toNat := by
    rw [physical_add ha hk, UInt32.toNat_add, toNat_physical]
    omega
  have hm := physical_mod ha
  have h₁ : physical (a + k) ≤ 0x007FFFFF ↔ physical a ≤ 0x007FFFFF := by
    simp only [UInt32.le_iff_toNat_le, UInt32.reduceToNat]
    omega
  have h₂ : 0x1F000000 ≤ physical (a + k) ∧ physical (a + k) ≤ 0x1F7FFFFF ↔
      0x1F000000 ≤ physical a ∧ physical a ≤ 0x1F7FFFFF := by
    simp only [UInt32.le_iff_toNat_le, UInt32.reduceToNat]
    omega
  have h₃ : 0x1F801000 ≤ physical (a + k) ∧ physical (a + k) ≤ 0x1F802FFF ↔
      0x1F801000 ≤ physical a ∧ physical a ≤ 0x1F802FFF := by
    simp only [UInt32.le_iff_toNat_le, UInt32.reduceToNat]
    omega
  simp only [regionOf, h₁, h₂, h₃]

/-- Memory is outside the window. -/
theorem not_inWindow_of_ram {a : UInt32} (hr : regionOf a = .ram) :
    inWindow (physical a) = false := by
  have hp : physical a ≤ 0x007FFFFF := by
    by_contra h
    rw [regionOf, if_neg h] at hr
    split at hr
    · cases hr
    · split at hr <;> cases hr
  simp only [inWindow, windowStart, Bool.and_eq_false_iff, decide_eq_false_iff_not,
    UInt32.le_iff_toNat_le, UInt32.reduceToNat] at hp ⊢
  omega

/-! ### Memory -/

namespace Machine

variable {δ α υ : Type} {a k v mask : UInt32} {ks : List UInt32}

/-- The machine with another main memory. -/
def setRam (ram : Ram) (m : Machine δ α υ) : Machine δ α υ := { m with bus := { m.bus with ram } }

@[simp] theorem ram_setRam (ram : Ram) (m : Machine δ α υ) : (m.setRam ram).bus.ram = ram := rfl

variable [Board δ]

theorem onBus_write_ram {w : Width} (ha : w.aligned a = true) (hr : regionOf a = .ram) (x : UInt32)
    (m : Machine δ α υ) :
    onBus (Bus.write w a x) m = .ok () (m.setRam (m.bus.ram.write w (physical a) x)) := by
  simp only [onBus, Bus.write_ram ha hr]
  rfl

theorem onBus_read_ram {w : Width} (ha : w.aligned a = true) (hr : regionOf a = .ram)
    (m : Machine δ α υ) : onBus (Bus.read w a) m = .ok (m.bus.ram.read w (physical a)) m := by
  simp only [onBus, Bus.read_ram ha hr]

/-- **A byte of memory is merged**, whatever of it is masked. -/
theorem writeLanes_cons_ram (ha : a.toNat % 4 = 0) (hr : regionOf a = .ram) (hk : k.toNat < 4)
    (m : Machine δ α υ) :
    writeLanes a v mask (k :: ks) m = writeLanes a v mask ks (m.setRam
      (m.bus.ram.setByte (physical a + k) (byteOfWord k (merge (m.bus.ram.word a) v mask)))) := by
  have hrk := (regionOf_add ha hk).trans hr
  have hpk := physical_add ha hk
  rw [writeLanes]
  dsimp only
  rw [shiftRight_and_byte hk, shiftRight_and_byte hk]
  split
  · rename_i h0
    have h0 : byteOfWord k mask = 0 := UInt8.toUInt32_inj.1 h0
    rw [byte_merge_of_unmasked hk h0, Ram.byteOfWord_word _ hk, Ram.setByte_byte]
    rfl
  · split
    · rename_i hf
      have hf : byteOfWord k mask = 0xFF := UInt8.toUInt32_inj.1 hf
      rw [byte_merge_of_masked hk hf, Op.bind_apply, onBus_write_ram rfl hrk, hpk]
      simp only [Ram.write, byteOfWord_toUInt32]
    · rw [byte_merge hk, Op.bind_apply, onBus_read_ram rfl hrk]
      dsimp only
      rw [Op.bind_apply, onBus_write_ram rfl hrk, hpk, Ram.byteOfWord_word _ hk]
      rfl

/-- **Bytes of memory are merged** one after the other; together they are the bytes of a word. -/
theorem writeLanes_ram (ha : a.toNat % 4 = 0) (hr : regionOf a = .ram) (v mask w : UInt32) :
    ∀ (ks : List UInt32) (m : Machine δ α υ), ks.Nodup → (∀ k ∈ ks, k.toNat < 4) →
      (∀ k ∈ ks, byteOfWord k (merge (m.bus.ram.word a) v mask) = byteOfWord k w) →
        writeLanes a v mask ks m = .ok () (m.setRam (m.bus.ram.putBytes a w ks))
  | [], _, _, _, _ => rfl
  | k :: ks, m, hd, hks, hw => by
      obtain ⟨hn, hd⟩ := List.nodup_cons.1 hd
      obtain ⟨hk, hks⟩ := List.forall_mem_cons.1 hks
      obtain ⟨hkw, hw⟩ := List.forall_mem_cons.1 hw
      rw [writeLanes_cons_ram ha hr hk, hkw, writeLanes_ram ha hr v mask w ks _ hd hks]
      · rfl
      · -- The byte that was put in is none of the others.
        intro j hj
        have hjk : j ≠ k := fun h => hn (h ▸ hj)
        have hb : byteOfWord j ((m.bus.ram.setByte (physical a + k) (byteOfWord k w)).word a) =
            byteOfWord j (m.bus.ram.word a) := by
          rw [Ram.byteOfWord_word _ (hks j hj), Ram.byteOfWord_word _ (hks j hj),
            Ram.byte_setByte_of_ne ha (hks j hj) hk hjk]
        refine Eq.trans ?_ (hw j hj)
        rw [byte_merge (hks j hj), byte_merge (hks j hj), ram_setRam, hb]

/-- **In memory a masked write merges.** -/
theorem writeMasked_ram (ha : a.toNat % 4 = 0) (hr : regionOf a = .ram) (v mask : UInt32)
    (m : Machine δ α υ) :
    writeMasked a v mask m = .ok () (m.setRam
      (m.bus.ram.write .word (physical a) (merge (m.bus.ram.word a) v mask))) := by
  have hword : Width.word.aligned a = true := aligned_word_iff.2 ha
  rw [writeMasked]
  simp only [not_inWindow_of_ram hr, Bool.false_eq_true, if_false]
  split
  · rename_i hm
    rw [onBus_write_ram hword hr, hm, merge_full]
  · split
    · rename_i hm
      rw [onBus_write_ram (half_aligned ha) hr, hm, Ram.write_low_half ha]
    · split
      · rename_i hm
        rw [onBus_write_ram (half_aligned_two ha) ((regionOf_add ha (by decide)).trans hr), hm,
          Ram.write_high_half ha]
      · rw [writeLanes_ram ha hr v mask _ _ _ (by decide) (fun _ => lt_of_mem_places)
          fun _ _ => rfl, Ram.putBytes_all]

end Machine

/-! ### Devices -/

namespace Bus

variable {δ : Type}

/-- A write access to the device at an address. -/
structure DeviceWrite where
  width : Width
  address : UInt32
  value : UInt32

namespace DeviceWrite

/-- What the access brings: each byte with its address. -/
def bytes (x : DeviceWrite) : List (UInt32 × UInt8) :=
  (List.range x.width.bytes).map fun i =>
    (x.address + UInt32.ofNat i, byteOfWord (UInt32.ofNat i) x.value)

/-- The device gets the access, if there is one, and nobody else gets anything. -/
def perform [Board δ] (x : DeviceWrite) : Op (Bus δ) Unit := fun b =>
  match Board.slotAt b.board (physical x.address) with
  | none => .ok () b
  | some slot => onBoard (slot.write x.width (physical x.address - slot.base) x.value) b

end DeviceWrite

variable [Board δ]

/-- Write accesses to devices, one after the other, up to the first one that is refused. -/
def deliver : List DeviceWrite → Op (Bus δ) Unit
  | [] => pure ()
  | x :: xs => do
      x.perform
      deliver xs

theorem deliver_singleton (x : DeviceWrite) : deliver [x] = (x.perform : Op (Bus δ) Unit) := by
  funext b
  rw [deliver, Op.bind_apply]
  cases x.perform b <;> rfl

/-- What write accesses make of the devices.  Each goes to the slot at its address, if there is one,
and the first one that is refused is the last that is made. -/
inductive Delivered : List DeviceWrite → δ → Except Fault Unit → δ → Prop where
  | nil (d : δ) : Delivered [] d (.ok ()) d
  | vacant {x : DeviceWrite} {xs : List DeviceWrite} {d d' : δ} {r : Except Fault Unit}
      (slot : Board.slotAt d (physical x.address) = none) (rest : Delivered xs d r d') :
      Delivered (x :: xs) d r d'
  | written {x : DeviceWrite} {xs : List DeviceWrite} {d d₁ d' : δ} {r : Except Fault Unit}
      {s : Slot} (slot : Board.slotAt d (physical x.address) = some s)
      (access : s.write x.width (physical x.address - s.base) x.value d = .ok () d₁)
      (rest : Delivered xs d₁ r d') : Delivered (x :: xs) d r d'
  | refused {x : DeviceWrite} {xs : List DeviceWrite} {d d' : δ} {fault : Fault} {s : Slot}
      (slot : Board.slotAt d (physical x.address) = some s)
      (access : s.write x.width (physical x.address - s.base) x.value d = .error fault d') :
      Delivered (x :: xs) d (.error fault) d'

/-- **Accesses that are delivered change the devices**, and nothing else of the bus. -/
theorem deliver_delivered : ∀ (xs : List DeviceWrite) (b : Bus δ), ∃ r board,
    Op.outcome (deliver xs b) = (r, { b with board }) ∧ Delivered xs b.board r board
  | [], b => ⟨.ok (), b.board, rfl, .nil _⟩
  | x :: xs, ⟨ram, board, raised, last, pending⟩ => by
      rw [deliver, Op.bind_apply, DeviceWrite.perform]
      cases hs : Board.slotAt board (physical x.address) with
      | none =>
          obtain ⟨r, board', ho, hd⟩ := deliver_delivered xs ⟨ram, board, raised, last, pending⟩
          exact ⟨r, board', ho, .vacant hs hd⟩
      | some s =>
          cases ha : s.write x.width (physical x.address - s.base) x.value board with
          | ok _ board₁ =>
              obtain ⟨r, board', ho, hd⟩ :=
                deliver_delivered xs ⟨ram, board₁, raised, last, pending⟩
              refine ⟨r, board', ?_, .written hs ha hd⟩
              simpa only [onBoard, ha] using ho
          | error fault board' =>
              refine ⟨.error fault, board', ?_, .refused hs ha⟩
              simp only [onBoard, ha]
              rfl

/-- In a device region a write is one for the device. -/
theorem write_device {w : Width} {a : UInt32} (ha : w.aligned a = true)
    (hr : regionOf a = .io ∨ regionOf a = .expansion) (v : UInt32) :
    write w a v = (DeviceWrite.perform ⟨w, a, v⟩ : Op (Bus δ) Unit) := by
  funext b
  obtain hr | hr := hr <;> simp only [write, ha, hr, DeviceWrite.perform] <;> rfl

end Bus

/-- The mask selects whole bytes. -/
def WholeBytes (mask : UInt32) : Prop :=
  ∀ k : UInt32, k.toNat < 4 → byteOfWord k mask = 0 ∨ byteOfWord k mask = 0xFF

/-- The bytes that the mask selects of the word at `a`, in ascending order and each with its
address. -/
def maskedBytes (a v mask : UInt32) : List (UInt32 × UInt8) :=
  (([0, 1, 2, 3] : List UInt32).filter fun k => byteOfWord k mask = 0xFF).map fun k =>
    (a + k, byteOfWord k v)

namespace Machine

variable {δ α υ β γ : Type} {a k v mask : UInt32}

theorem onBus_bind (x : Op (Bus δ) β) (f : β → Op (Bus δ) γ) :
    (onBus (x >>= f) : Op (Machine δ α υ) γ) = onBus x >>= fun b => onBus (f b) := by
  funext m
  simp only [onBus, Op.bind_apply]
  cases x m.bus <;> rfl

variable [Board δ]

theorem onBus_deliver (xs : List Bus.DeviceWrite) (m : Machine δ α υ) : ∃ r board,
    Op.outcome (onBus (Bus.deliver xs) m) = (r, { m with bus := { m.bus with board } }) ∧
      Bus.Delivered xs m.bus.board r board := by
  obtain ⟨r, board, ho, hd⟩ := Bus.deliver_delivered xs m.bus
  refine ⟨r, board, ?_, hd⟩
  rw [onBus]
  cases hx : Bus.deliver xs m.bus <;> rw [hx] at ho <;> cases ho <;> rfl

/-- The write of one byte. -/
def byteWrite (a v k : UInt32) : Bus.DeviceWrite := ⟨.byte, a + k, (byteOfWord k v).toUInt32⟩

theorem bytes_byteWrite (a v k : UInt32) : (byteWrite a v k).bytes = [(a + k, byteOfWord k v)] := by
  simp [Bus.DeviceWrite.bytes, byteWrite, Width.bytes, List.range_succ, byteOfWord_toUInt32]

/-- **Bytes that are masked as a whole are written**, and those that are not masked are left out. -/
theorem writeLanes_device (ha : a.toNat % 4 = 0) (hr : regionOf a = .io ∨ regionOf a = .expansion)
    (hm : WholeBytes mask) (v : UInt32) : ∀ ks : List UInt32, (∀ k ∈ ks, k.toNat < 4) →
      (writeLanes a v mask ks : Op (Machine δ α υ) Unit) =
        onBus (Bus.deliver ((ks.filter fun k => byteOfWord k mask = 0xFF).map (byteWrite a v)))
  | [], _ => rfl
  | k :: ks, hks => by
      obtain ⟨hk, hks⟩ := List.forall_mem_cons.1 hks
      have rest := writeLanes_device ha hr hm v ks hks
      have hw : Bus.write .byte (a + k) (byteOfWord k v).toUInt32 =
          ((byteWrite a v k).perform : Op (Bus δ) Unit) :=
        Bus.write_device rfl (by rwa [regionOf_add ha hk]) _
      rw [writeLanes]
      dsimp only
      rw [shiftRight_and_byte hk, shiftRight_and_byte hk, rest, hw]
      obtain h | h := hm k hk
      · rw [h, if_pos (by rfl), List.filter_cons_of_neg (by simp [h])]
      · rw [h, if_neg (by decide), if_pos (by rfl), List.filter_cons_of_pos (by simp [h]),
          List.map_cons, Bus.deliver, onBus_bind]

/-- **A mask of whole bytes is writes alone.** -/
theorem writeMasked_device (ha : a.toNat % 4 = 0)
    (hr : regionOf a = .io ∨ regionOf a = .expansion) (hw : inWindow (physical a) = false)
    (hm : WholeBytes mask) (v : UInt32) : ∃ xs : List Bus.DeviceWrite,
      (writeMasked a v mask : Op (Machine δ α υ) Unit) = onBus (Bus.deliver xs) ∧
        xs.flatMap Bus.DeviceWrite.bytes = maskedBytes a v mask := by
  rw [writeMasked]
  simp only [hw, Bool.false_eq_true, if_false]
  split
  · rename_i h
    subst h
    refine ⟨[⟨.word, a, v⟩], ?_, rfl⟩
    rw [Bus.deliver_singleton, Bus.write_device (aligned_word_iff.2 ha) hr]
  · split
    · rename_i h
      subst h
      refine ⟨[⟨.half, a, v &&& 0xFFFF⟩], ?_, ?_⟩
      · rw [Bus.deliver_singleton, Bus.write_device (half_aligned ha) hr]
      · show [(a + 0, _), (a + 1, _)] = [(a + 0, byteOfWord 0 v), (a + 1, byteOfWord 1 v)]
        rw [← byte_low_half (k := 0) (by decide), ← byte_low_half (k := 1) (by decide)]
        rfl
    · split
      · rename_i h
        subst h
        refine ⟨[⟨.half, a + 2, v >>> 16⟩], ?_, ?_⟩
        · rw [Bus.deliver_singleton,
            Bus.write_device (half_aligned_two ha) (by rwa [regionOf_add ha (by decide)])]
        · show [(a + 2 + 0, _), (a + 2 + 1, _)] = [(a + (2 + 0), byteOfWord (2 + 0) v),
            (a + (2 + 1), byteOfWord (2 + 1) v)]
          rw [← byte_high_half (k := 0) (by decide), ← byte_high_half (k := 1) (by decide),
            ← UInt32.add_assoc, ← UInt32.add_assoc]
          rfl
      · refine ⟨_, writeLanes_device ha hr hm v _ fun _ => lt_of_mem_places, ?_⟩
        rw [List.flatMap_map, maskedBytes, List.map_eq_flatMap]
        simp only [bytes_byteWrite]

/-- **Masked writes outside the register window.**  At every word of memory a masked write leaves
the bits of the value where the mask is set and the old ones elsewhere, no other byte of memory is
changed, and nothing else of the machine.  At every word of a device region a write through a mask
of whole bytes is a sequence of write accesses to the device at each address, up to the first one
that is refused: they bring the bytes that are masked, in ascending order, each once and at its own
address, and no others.  The devices come to be what these accesses make of them, so nothing is read
from one, and nothing else of the machine is changed. -/
theorem masked_write (ha : a.toNat % 4 = 0) (v mask : UInt32) :
    (regionOf a = .ram → ∀ m : Machine δ α υ, ∃ ram : Ram,
      writeMasked a v mask m = .ok () { m with bus := { m.bus with ram } } ∧
        ram.word a = ((m.bus.ram.word a &&& ~~~mask) ||| (v &&& mask)) ∧
        ∀ b, Ram.offset b / 4 ≠ Ram.offset (physical a) / 4 → ram.byte b = m.bus.ram.byte b) ∧
    (regionOf a = .io ∨ regionOf a = .expansion → inWindow (physical a) = false →
      WholeBytes mask → ∃ xs : List Bus.DeviceWrite,
        (writeMasked a v mask : Op (Machine δ α υ) Unit) = onBus (Bus.deliver xs) ∧
          xs.flatMap Bus.DeviceWrite.bytes = maskedBytes a v mask ∧
          ∀ m : Machine δ α υ, ∃ r board, Op.outcome (writeMasked a v mask m) =
            (r, { m with bus := { m.bus with board } }) ∧
              Bus.Delivered xs m.bus.board r board) := by
  have hp : Width.word.aligned (physical a) = true := aligned_word_iff.2 (physical_mod ha)
  refine ⟨fun hr m => ⟨_, writeMasked_ram ha hr v mask m, ?_, fun b hb => ?_⟩, fun hr hw hm => ?_⟩
  · rw [Ram.word_write _ hp hp, if_pos rfl, merge]
  · exact Ram.byte_write_word _ hp _ hb
  · obtain ⟨xs, hx, hb⟩ := writeMasked_device (δ := δ) (α := α) (υ := υ) ha hr hw hm v
    refine ⟨xs, hx, hb, fun m => ?_⟩
    rw [hx]
    exact onBus_deliver xs m

/-- Two bytes of a word of memory, through another segment; and the two middle bytes of a word of
the expansion region, which come as two writes. -/
theorem masked_write_middle :
    (∃ ram : Ram, writeMasked 0x80001004 0x11223344 0x00FFF000
        (initial BareBoard.mk () : Machine BareBoard Unit Unit) =
          .ok () { initial BareBoard.mk () with bus := { board := BareBoard.mk, ram } } ∧
      ram.word 0x80001004 = 0x00223000) ∧
    ∃ xs : List Bus.DeviceWrite,
      (writeMasked 0x1F000010 0x11223344 0x00FFFF00 : Op (Machine Rack Unit Unit) Unit) =
          onBus (Bus.deliver xs) ∧
        xs.flatMap Bus.DeviceWrite.bytes = [(0x1F000011, 0x33), (0x1F000012, 0x22)] := by
  constructor
  · have ha : (0x80001004 : UInt32).toNat % 4 = 0 := by decide
    obtain ⟨ram, hw, hr, -⟩ := (masked_write ha 0x11223344 0x00FFF000).1 (by decide)
      (initial BareBoard.mk () : Machine BareBoard Unit Unit)
    refine ⟨ram, hw, hr.trans ?_⟩
    have hz : Ram.zero.word 0x80001004 = 0 := by
      simp only [Ram.word, Ram.read, Ram.byte_zero]
      rfl
    show (Ram.zero.word 0x80001004 &&& _) ||| _ = _
    rw [hz]
    rfl
  · have hm : WholeBytes 0x00FFFF00 := fun k hk => by
      obtain rfl | rfl | rfl | rfl := place_cases hk <;> decide
    have ha : (0x1F000010 : UInt32).toNat % 4 = 0 := by decide
    obtain ⟨xs, hx, hb, -⟩ := (masked_write (δ := Rack) (α := Unit) (υ := Unit) ha 0x11223344
      0x00FFFF00).2 (.inr (by decide)) (by decide) hm
    exact ⟨xs, hx, hb⟩

end Machine

end DmaMachine
