import DmaMachine.Binary.Compact
import DmaMachine.Proofs.Channel.Carry

/-!
# Flat memory

Main memory, as it is seen through the bus, is one array of two mebibytes.  A *flat access* finds
the index of an address by arithmetic, goes through the array byte by byte, each index checked, and
takes the bytes for a number with the lowest first.  It knows no region, no segment and no mirror.

* `load?_read`, `store?_write`: an aligned access to RAM is the flat one.
* `performAll_flat`: **so is every sequence of accesses** as far as it is for RAM; what else is in
  it leaves the memory alone.
* `bus_is_flat`: this, and what comes of the accesses that are not for RAM.
-/

namespace DmaMachine

/-! ### Flat accesses -/

namespace Flat

/-- The index of an address. -/
def index (a : UInt32) : Nat := a.toNat % 0x20000000 % 0x200000

/-- The bytes from an index on, if all of them are there. -/
def load? : Nat → Nat → Array UInt8 → Option (List UInt8)
  | 0, _, _ => some []
  | n + 1, i, m => do
      let b ← m[i]?
      let bs ← load? n (i + 1) m
      return b :: bs

/-- The memory with bytes put in from an index on, if there is room for all of them. -/
def store? : List UInt8 → Nat → Array UInt8 → Option (Array UInt8)
  | [], _, m => some m
  | b :: bs, i, m => if h : i < m.size then store? bs (i + 1) (m.set i b h) else none

end Flat

/-! ### Bytes of words -/

theorem littleEndian_ofLittleEndian : ∀ bs : List UInt8,
    littleEndian bs.length (ofLittleEndian bs) = bs
  | [] => rfl
  | b :: bs => by
      have hb := b.toNat_lt
      rw [List.length_cons, littleEndian, ofLittleEndian,
        show (b.toNat + 256 * ofLittleEndian bs) / 256 = ofLittleEndian bs by omega,
        littleEndian_ofLittleEndian bs, ← UInt8.ofNat_mod_size]
      simp

theorem byteOfWord_eq {k : UInt32} (hk : k.toNat < 4) (v : UInt32) :
    byteOfWord k v = UInt8.ofNat (v.toNat >>> (8 * k.toNat)) := by
  have h8 : (8 * k).toNat % 32 = 8 * k.toNat := by
    rw [UInt32.toNat_mul, show (8 : UInt32).toNat = 8 from rfl]
    omega
  refine UInt8.toNat_inj.1 ?_
  rw [byteOfWord, UInt32.toNat_toUInt8, UInt32.toNat_shiftRight, h8, UInt8.toNat_ofNat']

/-- The bytes of a value that an access stores. -/
theorem littleEndian_bytes (w : Width) (v : UInt32) : littleEndian w.bytes v.toNat =
    [byteOfWord 0 v, byteOfWord 1 v, byteOfWord 2 v, byteOfWord 3 v].take w.bytes := by
  cases w <;> simp [littleEndian, byteOfWord_eq, Nat.div_div_eq_div_mul, Nat.shiftRight_eq_div_pow,
    Width.bytes]

/-- **A word is the number that its bytes stand for.** -/
theorem wordOfBytes_eq (b₀ b₁ b₂ b₃ : UInt8) :
    wordOfBytes b₀ b₁ b₂ b₃ = UInt32.ofNat (ofLittleEndian [b₀, b₁, b₂, b₃]) := by
  have hn : ofLittleEndian [b₀, b₁, b₂, b₃] < UInt32.size := by
    have h₀ := b₀.toNat_lt
    have h₁ := b₁.toNat_lt
    have h₂ := b₂.toNat_lt
    have h₃ := b₃.toNat_lt
    simp only [ofLittleEndian, UInt32.size]
    omega
  obtain ⟨v, hv⟩ : ∃ v : UInt32, v.toNat = ofLittleEndian [b₀, b₁, b₂, b₃] :=
    ⟨.ofNat _, UInt32.toNat_ofNat_of_lt' hn⟩
  -- The number has the four bytes, and so has the word that they make.
  have hb := littleEndian_bytes .word v
  rw [hv, show Width.word.bytes = [b₀, b₁, b₂, b₃].length from rfl,
    littleEndian_ofLittleEndian] at hb
  obtain ⟨rfl, rfl, rfl, rfl⟩ : b₀ = _ ∧ b₁ = _ ∧ b₂ = _ ∧ b₃ = _ := by simpa using hb
  rw [wordOfBytes_byteOfWord, ← hv, UInt32.ofNat_toNat]

theorem halfOfBytes_eq (b₀ b₁ : UInt8) :
    halfOfBytes b₀ b₁ = UInt32.ofNat (ofLittleEndian [b₀, b₁]) := by
  have h := wordOfBytes_eq b₀ b₁ 0 0
  simpa [wordOfBytes, halfOfBytes, ofLittleEndian] using h

/-! ### Accesses to memory -/

namespace Ram

/-- The contents of memory as an array. -/
def flat (m : Ram) : Array UInt8 := m.bytes.data

theorem offset_physical (a : UInt32) : offset (physical a) = Flat.index a := by
  rw [offset, toNat_physical]
  rfl

theorem load?_succ (m : Ram) {a : UInt32} {i : Nat} (h : offset a = i) (n : Nat) :
    Flat.load? (n + 1) i m.flat = (Flat.load? n (i + 1) m.flat).map (m.byte a :: ·) := by
  subst h
  have hb : m.flat[offset a]? = some (m.byte a) := Array.getElem?_eq_getElem (m.offset_lt a)
  rw [Flat.load?, hb]
  cases Flat.load? n (offset a + 1) m.flat <;> rfl

theorem store?_cons (m : Ram) {a : UInt32} {i : Nat} (h : offset a = i) (b : UInt8)
    (bs : List UInt8) :
    Flat.store? (b :: bs) i m.flat = Flat.store? bs (i + 1) (m.setByte a b).flat := by
  subst h
  exact dif_pos (m.offset_lt a)

section Aligned

variable {w : Width} {a : UInt32} (ha : a.toNat % w.bytes = 0)
include ha

/-- **An aligned read** takes the bytes at its index for a number. -/
theorem load?_read (m : Ram) : (Flat.load? w.bytes (offset a) m.flat).map
    (fun bs => UInt32.ofNat (ofLittleEndian bs)) = some (m.read w a) := by
  have hk : ∀ {k : UInt32}, k.toNat < w.bytes → offset (a + k) = offset a + k.toNat :=
    offset_add_of_lt ha
  cases w with
  | byte =>
      rw [Width.bytes, m.load?_succ rfl]
      simp [Flat.load?, ofLittleEndian, read]
  | half =>
      have h₁ : offset (a + 1) = offset a + 1 := hk (by decide)
      rw [Width.bytes, m.load?_succ rfl, m.load?_succ h₁]
      simp [Flat.load?, read, halfOfBytes_eq]
  | word =>
      have h₁ : offset (a + 1) = offset a + 1 := hk (by decide)
      have h₂ : offset (a + 2) = offset a + 1 + 1 := hk (by decide)
      have h₃ : offset (a + 3) = offset a + 1 + 1 + 1 := hk (by decide)
      rw [Width.bytes, m.load?_succ rfl, m.load?_succ h₁, m.load?_succ h₂, m.load?_succ h₃]
      simp [Flat.load?, read, wordOfBytes_eq]

/-- **An aligned write** puts the bytes of the value in at its index. -/
theorem store?_write (m : Ram) (v : UInt32) :
    Flat.store? (littleEndian w.bytes v.toNat) (offset a) m.flat = some (m.write w a v).flat := by
  have hk : ∀ {k : UInt32}, k.toNat < w.bytes → offset (a + k) = offset a + k.toNat :=
    offset_add_of_lt ha
  rw [littleEndian_bytes]
  cases w with
  | byte => exact store?_cons m rfl ..
  | half =>
      have h₁ : offset (a + 1) = offset a + 1 := hk (by decide)
      exact (store?_cons m rfl ..).trans (store?_cons _ h₁ ..)
  | word =>
      have h₁ : offset (a + 1) = offset a + 1 := hk (by decide)
      have h₂ : offset (a + 2) = offset a + 1 + 1 := hk (by decide)
      have h₃ : offset (a + 3) = offset a + 1 + 1 + 1 := hk (by decide)
      exact (((store?_cons m rfl ..).trans (store?_cons _ h₁ ..)).trans
        (store?_cons _ h₂ ..)).trans (store?_cons _ h₃ ..)

end Aligned

end Ram

namespace Bus

/-! ### What an access is for -/

/-- An access of a client. -/
structure Access where
  width : Width
  address : UInt32
  /-- What is written; nothing is by a read. -/
  written : Option UInt32 := none

namespace Access

variable {δ : Type} (x : Access)

/-- The address is a multiple of the width. -/
def Aligned : Prop := x.address.toNat % x.width.bytes = 0

/-- The address, without its three top bits, is in one of the four mirrors of memory. -/
def ForRam : Prop := x.address.toNat % 0x20000000 < 0x800000

/-- The address, without its three top bits, is in the expansion or the I/O region. -/
def ForDevice : Prop :=
  (0x1F000000 ≤ x.address.toNat % 0x20000000 ∧ x.address.toNat % 0x20000000 < 0x1F800000) ∨
    (0x1F801000 ≤ x.address.toNat % 0x20000000 ∧ x.address.toNat % 0x20000000 < 0x1F803000)

instance : DecidablePred Aligned := fun _ => inferInstanceAs (Decidable (_ = _))

instance : DecidablePred ForRam := fun _ => inferInstanceAs (Decidable (_ < _))

instance : DecidablePred ForDevice := fun _ => inferInstanceAs (Decidable (_ ∨ _))

theorem aligned_iff : x.width.aligned x.address = true ↔ x.Aligned := Width.aligned_iff ..

/-- What an access is for. -/
theorem region_cases :
    (x.ForRam ∧ regionOf x.address = .ram) ∨
      (¬x.ForRam ∧ x.ForDevice ∧
        (regionOf x.address = .io ∨ regionOf x.address = .expansion)) ∨
      (¬x.ForRam ∧ ¬x.ForDevice ∧ regionOf x.address = .unmapped) := by
  have hp := toNat_physical x.address
  simp only [regionOf, ForRam, ForDevice, UInt32.le_iff_toNat_le, hp, UInt32.reduceToNat]
  split
  · exact .inl ⟨by omega, rfl⟩
  · split
    · exact .inr (.inl ⟨by omega, by omega, .inr rfl⟩)
    · split
      · exact .inr (.inl ⟨by omega, by omega, .inl rfl⟩)
      · exact .inr (.inr ⟨by omega, by omega, rfl⟩)

/-! ### One access -/

/-- The answer to an access, with the value if it is a read, and the bus after it. -/
def perform [Board δ] (b : Bus δ) : Except Fault (Option UInt32) × Bus δ :=
  match x.written with
  | none => (Op.outcome (b.read x.width x.address)).map (·.map some) id
  | some v => (Op.outcome (b.write x.width x.address v)).map (·.map fun _ => none) id

/-- The access to an array of bytes. -/
def onFlat? (m : Array UInt8) : Option (Option UInt32 × Array UInt8) :=
  match x.written with
  | none => (Flat.load? x.width.bytes (Flat.index x.address) m).map fun bs =>
      (some (UInt32.ofNat (ofLittleEndian bs)), m)
  | some v =>
      (Flat.store? (littleEndian x.width.bytes v.toNat) (Flat.index x.address) m).map fun m =>
        (none, m)

/-- What an access to nothing gives: all ones for a read. -/
def openBus : Option UInt32 :=
  match x.written with
  | none => some (UInt32.ofNat (1 <<< (8 * x.width.bytes) - 1))
  | some _ => none

variable [Board δ] (b : Bus δ) {x}

theorem perform_of_unaligned (h : ¬x.Aligned) :
    x.perform b = (.error (.unaligned x.address x.width.bytes), b) := by
  replace h : x.width.aligned x.address = false := Bool.eq_false_iff.2 (mt x.aligned_iff.1 h)
  rw [perform]
  cases x.written with
  | none => simp only [read_of_unaligned h]; rfl
  | some v => simp only [write_of_unaligned h]; rfl

theorem perform_of_unmapped (ha : x.Aligned) (hr : regionOf x.address = .unmapped) :
    x.perform b = (.ok x.openBus, b.raise x.address) := by
  have hx := x.aligned_iff.2 ha
  rw [perform, openBus]
  cases x.written with
  | none =>
      simp only [read_unmapped hx hr]
      cases x.width <;> rfl
  | some v => simp only [write_unmapped hx hr]; rfl

/-- What an access for a device changes is on the board. -/
theorem perform_of_device (hr : regionOf x.address = .io ∨ regionOf x.address = .expansion) :
    BoardOnly b (x.perform b).2 := by
  rw [perform]
  cases x.written with
  | none => exact read_boardOnly hr b
  | some v => exact write_boardOnly hr v b

/-- **An aligned access to RAM is the flat one**, and nothing else changes. -/
theorem perform_of_ram (ha : x.Aligned) (hr : regionOf x.address = .ram) :
    ∃ (v : Option UInt32) (m : Ram),
      x.onFlat? b.ram.flat = some (v, m.flat) ∧ x.perform b = (.ok v, { b with ram := m }) := by
  have hp : (physical x.address).toNat % x.width.bytes = 0 := by
    rw [toNat_physical]
    rw [Aligned] at ha
    cases hw : x.width <;> rw [hw] at ha <;> simp only [Width.bytes] at ha ⊢ <;> omega
  have hx := x.aligned_iff.2 ha
  rw [onFlat?, perform]
  cases x.written with
  | none =>
      have hl := b.ram.load?_read hp
      rw [Ram.offset_physical] at hl
      obtain ⟨bs, hbs, hv⟩ := Option.map_eq_some_iff.1 hl
      refine ⟨some (b.ram.read x.width (physical x.address)), b.ram, ?_, ?_⟩
      · simp only [hbs, ← hv]
        rfl
      · simp only [read_ram hx hr]
        rfl
  | some v =>
      have hs := b.ram.store?_write hp v
      rw [Ram.offset_physical] at hs
      refine ⟨none, b.ram.write x.width (physical x.address) v, ?_, ?_⟩
      · simp only [hs]
        rfl
      · simp only [write_ram hx hr]
        rfl

end Access

/-! ### Sequences of accesses -/

/-- Accesses one after the other, whether they are faults or not: what each was answered, and the
bus after them. -/
def performAll [Board δ] :
    List Access → Bus δ → List (Access × Except Fault (Option UInt32)) × Bus δ
  | [], b => ([], b)
  | x :: xs, b =>
      let (answer, b) := x.perform b
      let (answers, b) := performAll xs b
      ((x, answer) :: answers, b)

/-- The accesses to an array of bytes; there is no result if one of them leaves it. -/
def flatAll? : List Access → Array UInt8 → Option (List (Access × Option UInt32) × Array UInt8)
  | [], m => some ([], m)
  | x :: xs, m => do
      let (answer, m) ← x.onFlat? m
      let (answers, m) ← flatAll? xs m
      return ((x, answer) :: answers, m)

variable [Board δ]

/-- The aligned accesses to RAM among the given ones. -/
def Access.OnRam (x : Access) : Prop := x.Aligned ∧ x.ForRam

instance : DecidablePred Access.OnRam := fun _ => inferInstanceAs (Decidable (_ ∧ _))

/-- An access that is none to RAM, or is not aligned, leaves RAM alone. -/
theorem Access.ram_perform {x : Access} (h : ¬x.OnRam) (b : Bus δ) :
    (x.perform b).2.ram = b.ram := by
  by_cases ha : x.Aligned
  · obtain ⟨hr, -⟩ | ⟨-, -, hr⟩ | ⟨-, -, hr⟩ := x.region_cases
    · exact absurd ⟨ha, hr⟩ h
    · exact (perform_of_device b hr).ram
    · rw [perform_of_unmapped b ha hr]
      rfl
  · rw [perform_of_unaligned b ha]

/-- **Every sequence of accesses** does to RAM, and answers for RAM, what the accesses to RAM among
them do to an array, none of them out of its range. -/
theorem performAll_flat : ∀ (xs : List Access) (b : Bus δ),
    ∃ answers, flatAll? (xs.filter Access.OnRam) b.ram.flat =
        some (answers, (performAll xs b).2.ram.flat) ∧
      (performAll xs b).1.filter (fun x => x.1.OnRam) = answers.map (Prod.map id .ok)
  | [], b => ⟨[], rfl, rfl⟩
  | x :: xs, b => by
      obtain ⟨answers, hf, hb⟩ := performAll_flat xs (x.perform b).2
      by_cases hx : x.OnRam
      · obtain ⟨-, hr⟩ | ⟨hn, -⟩ | ⟨hn, -⟩ := x.region_cases
        · obtain ⟨v, m, hv, hm⟩ := Access.perform_of_ram b hx.1 hr
          rw [hm] at hf hb
          refine ⟨(x, v) :: answers, ?_, ?_⟩
          · rw [List.filter_cons_of_pos (by simpa using hx), flatAll?, hv, performAll, hm]
            simp only [Option.bind_eq_bind, Option.bind_some]
            rw [hf]
            rfl
          · rw [performAll, hm]
            exact (List.filter_cons_of_pos (by simpa using hx)).trans (congrArg _ hb)
        · exact absurd hx.2 hn
        · exact absurd hx.2 hn
      · rw [Access.ram_perform hx] at hf
        refine ⟨answers, ?_, ?_⟩
        · rw [List.filter_cons_of_neg (by simpa using hx)]
          exact hf
        · exact (List.filter_cons_of_neg (by simpa using hx)).trans hb

/-- Only an unmapped access touches the flag. -/
theorem Access.flag_perform {x : Access} (h : x.ForRam ∨ x.ForDevice) (b : Bus δ) :
    (x.perform b).2.exception = b.exception ∧ (x.perform b).2.lastFault = b.lastFault := by
  by_cases ha : x.Aligned
  · obtain ⟨-, hr⟩ | ⟨-, -, hr⟩ | ⟨hr, hd, -⟩ := x.region_cases
    · obtain ⟨v, m, -, hm⟩ := perform_of_ram b ha hr
      rw [hm]
      exact ⟨rfl, rfl⟩
    · obtain ⟨board, hb⟩ := perform_of_device b hr
      rw [hb]
      exact ⟨rfl, rfl⟩
    · exact absurd h (not_or.2 ⟨hr, hd⟩)
  · rw [perform_of_unaligned b ha]
    exact ⟨rfl, rfl⟩

/-- **RAM seen through the bus is one flat array of bytes.**  Whatever the accesses of a sequence,
those that are aligned and for RAM have the answers that a flat array gives, every index in its
range, and leave the contents that it then has.  A misaligned access is refused and changes nothing,
wherever it is.  An unmapped one reads all ones, raises the flag with its address and changes
nothing else.  The others never raise the flag. -/
theorem bus_is_flat :
    (∀ b : Bus δ, b.ram.flat.size = 0x200000) ∧
    (∀ (xs : List Access) (b : Bus δ), ∃ answers,
      flatAll? (xs.filter Access.OnRam) b.ram.flat =
        some (answers, (performAll xs b).2.ram.flat) ∧
      (performAll xs b).1.filter (fun x => x.1.OnRam) = answers.map (Prod.map id .ok)) ∧
    (∀ (x : Access) (b : Bus δ), ¬x.Aligned →
      x.perform b = (.error (.unaligned x.address x.width.bytes), b)) ∧
    (∀ (x : Access) (b : Bus δ), x.Aligned → ¬x.ForRam → ¬x.ForDevice →
      x.perform b = (.ok x.openBus, { b with exception := true, lastFault := some x.address })) ∧
    (∀ (x : Access) (b : Bus δ), x.ForRam ∨ x.ForDevice →
      (x.perform b).2.exception = b.exception ∧ (x.perform b).2.lastFault = b.lastFault) := by
  refine ⟨fun b => b.ram.size_bytes, performAll_flat, fun x b => Access.perform_of_unaligned b,
    fun x b ha hr hd => ?_, fun x b h => Access.flag_perform h b⟩
  obtain ⟨h, -⟩ | ⟨-, h, -⟩ | ⟨-, -, hu⟩ := x.region_cases
  · exact absurd h hr
  · exact absurd h hd
  · exact Access.perform_of_unmapped b ha hu

/-- A word, a byte of it through another mirror, and a half of it through a third. -/
example : (performAll [⟨.word, 0xA0200004, some 0x11223344⟩, ⟨.byte, 0x00400005, some 0xAA⟩,
    ⟨.half, 0x80600004, none⟩] bareBus).1.map Prod.snd =
      [.ok none, .ok none, .ok (some 0xAA44)] := by
  decide +kernel

end Bus

end DmaMachine
