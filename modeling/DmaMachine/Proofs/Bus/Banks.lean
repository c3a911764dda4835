import DmaMachine.Proofs.Bus.Flat
import DmaMachine.Proofs.Lanes
import DmaMachine.Rack

/-!
# Banks of words

A *bank* is a device that decodes whole words only, and keeps a word at some of its offsets: a word
reads back as it was last written, and an offset without a word is refused.  The board makes up the
narrow accesses: a narrow read takes its lane out of a word that is read, and a narrow write writes
back a word that was read before.

Its clients need not know.  Whatever they do, byte by byte or word by word, the bank is to them one
array of bytes, lowest first, with gaps where a word is missing.

* `Bank`: what is to hold of a bank, and of nothing but its words.
* `Bank.perform_access`: **one access of any width** is an access to the bytes.
* `bank_is_bytes`: **so is every sequence of accesses.**
* `Rack.bank`: the banks of a rack.
-/

namespace DmaMachine

namespace Bus

/-! ### Bytes with gaps -/

/-- Bytes by their index, some of which need not be there. -/
def Bytes : Type := Nat → Option UInt8

namespace Bytes

/-- The bytes of words, each word lowest byte first. -/
def ofWords (words : Nat → Option UInt32) : Bytes := fun j =>
  (words (j / 4)).map fun v => UInt8.ofNat (v.toNat / 256 ^ (j % 4))

/-- The bytes from an index on, if all of them are there. -/
def load? (m : Bytes) : Nat → Nat → Option (List UInt8)
  | 0, _ => some []
  | n + 1, i => do
      let b ← m i
      let bs ← m.load? n (i + 1)
      return b :: bs

/-- The bytes with others put in from an index on. -/
def store (bs : List UInt8) (i : Nat) (m : Bytes) : Bytes := fun j =>
  if i ≤ j ∧ j < i + bs.length then bs[j - i]? else m j

end Bytes

/-- The access to bytes, from an index on: what it gives, and the bytes after it.  When one of its
bytes is not there it fails, and changes nothing. -/
def Access.onBytes (x : Access) (i : Nat) (m : Bytes) : Option (Option UInt32) × Bytes :=
  match m.load? x.width.bytes i, x.written with
  | none, _ => (none, m)
  | some bs, none => (some (some (UInt32.ofNat (ofLittleEndian bs))), m)
  | some _, some v => (some none, m.store (littleEndian x.width.bytes v.toNat) i)

/-! ### Lanes of words as bytes -/

namespace Bytes

variable {w : Width} {words : Nat → Option UInt32} {o v old : UInt32}

theorem getElem?_littleEndian : ∀ (k n j : Nat),
    (littleEndian k n)[j]? = if j < k then some (UInt8.ofNat (n / 256 ^ j)) else none
  | 0, _, _ => rfl
  | k + 1, n, 0 => by simp [littleEndian]
  | k + 1, n, j + 1 => by
      have ih := getElem?_littleEndian k (n / 256) j
      rw [Nat.div_div_eq_div_mul, ← Nat.pow_succ'] at ih
      simpa [littleEndian] using ih

theorem byteOfWord_ofNat (v : UInt32) {k : UInt32} (hk : k.toNat < 4) :
    byteOfWord k v = UInt8.ofNat (v.toNat / 256 ^ k.toNat) := by
  rw [byteOfWord_eq hk, Nat.shiftRight_eq_div_pow, Nat.pow_mul]

theorem ofLittleEndian_digits : ∀ k n : Nat, ofLittleEndian (littleEndian k n) = n % 256 ^ k
  | 0, n => by simp [littleEndian, ofLittleEndian, Nat.mod_one]
  | k + 1, n => by
      have hm : n % 256 ^ (k + 1) = n % 256 + 256 * (n / 256 % 256 ^ k) := by
        rw [Nat.pow_succ', Nat.mod_mul]
      rw [littleEndian, ofLittleEndian, ofLittleEndian_digits k, UInt8.toNat_ofNat']
      exact hm.symm

/-- A run of bytes within a word. -/
theorem load?_run : ∀ {n i : Nat}, i % 4 + n ≤ 4 → words (i / 4) = some v →
    (ofWords words).load? n i = some (littleEndian n (v.toNat / 256 ^ (i % 4)))
  | 0, _, _, _ => rfl
  | n + 1, i, hn, hv => by
      have hi : ofWords words i = some (UInt8.ofNat (v.toNat / 256 ^ (i % 4))) := by
        rw [ofWords, hv]
        rfl
      rw [load?, hi, littleEndian]
      cases n with
      | zero => rfl
      | succ n =>
          have hd : (i + 1) / 4 = i / 4 := by omega
          have hm : (i + 1) % 4 = i % 4 + 1 := by omega
          have hr := load?_run (n := n + 1) (i := i + 1) (by omega) (by rw [hd, hv])
          rw [hm, Nat.pow_succ, ← Nat.div_div_eq_div_mul] at hr
          rw [hr]
          rfl

/-- An aligned access lies within a word. -/
theorem place_add_le (ho : o.toNat % w.bytes = 0) : o.toNat % 4 + w.bytes ≤ 4 := by
  cases w <;> simp only [Width.bytes] at ho ⊢ <;> omega

/-- Where there is a word, **the bytes of a lane** are there, and stand for it. -/
theorem load?_of_some (ho : o.toNat % w.bytes = 0) (hv : words (o.toNat / 4) = some v) :
    ∃ bs, (ofWords words).load? w.bytes o.toNat = some bs ∧
      UInt32.ofNat (ofLittleEndian bs) = w.lane o v := by
  refine ⟨_, load?_run (place_add_le ho) hv, ?_⟩
  rw [ofLittleEndian_digits, ← Width.toNat_lane ho, UInt32.ofNat_toNat]

theorem load?_of_none (hv : words (o.toNat / 4) = none) :
    (ofWords words).load? w.bytes o.toNat = none := by
  have hb : ofWords words o.toNat = none := by
    rw [ofWords, hv]
    rfl
  cases w <;> simp only [Width.bytes, load?, hb] <;> rfl

/-- **A lane that is replaced** is bytes put in. -/
theorem store_ofWords (ho : o.toNat % w.bytes = 0) (hv : words (o.toNat / 4) = some old) :
    (ofWords words).store (littleEndian w.bytes v.toNat) o.toNat =
      ofWords (Function.update words (o.toNat / 4) (some (w.setLane o old v))) := by
  have hw := place_add_le ho
  funext j
  rw [store, length_littleEndian, ofWords, ofWords]
  by_cases hj : j / 4 = o.toNat / 4
  · -- A byte of the word: it is one of the lane, or as it was.
    have hk : (UInt32.ofNat (j % 4)).toNat = j % 4 :=
      UInt32.toNat_ofNat_of_lt' (by simp only [UInt32.size]; omega)
    have hb := Width.byteOfWord_setLane ho (k := UInt32.ofNat (j % 4)) (by omega) old v
    rw [byteOfWord_ofNat _ (by omega), byteOfWord_ofNat old (by omega), hk] at hb
    rw [hj, Function.update_self, hv, Option.map_some, Option.map_some, hb]
    by_cases hin : o.toNat ≤ j ∧ j < o.toNat + w.bytes
    · have hd : (UInt32.ofNat (j % 4) - (o &&& 3)).toNat = j - o.toNat := by
        rw [UInt32.toNat_sub_of_le, hk, toNat_and_three]
        · omega
        · rw [UInt32.le_iff_toNat_le, hk, toNat_and_three]
          omega
      rw [if_pos hin, if_pos (by omega), getElem?_littleEndian, if_pos (by omega),
        byteOfWord_ofNat _ (by omega), hd]
    · rw [if_neg hin, if_neg (by omega)]
  · rw [Function.update_of_ne hj, if_neg (by omega)]

end Bytes

/-! ### Banks -/

/-- A bank of words on a board: a device that decodes whole words only, and that no other device
stands before.  What the board shows of it are its words; the board may change otherwise with every
access. -/
structure Bank (δ : Type) [Board δ] where
  slot : Slot
  /-- The last address of the bank. -/
  last : UInt32
  wholeWords : slot.narrow = false
  aligned : slot.base.toNat % 4 = 0
  /-- The words that a board shows, by their number. -/
  Shows : δ → (Nat → Option UInt32) → Prop
  found : ∀ {board words}, Shows board words → ∀ p, slot.base ≤ p → p ≤ last →
    Board.slotAt board p = some slot
  /-- A word reads as it is, and stays. -/
  read_some : ∀ {board words}, Shows board words → ∀ o : UInt32, o.toNat % 4 = 0 →
    o ≤ last - slot.base → ∀ v, words (o.toNat / 4) = some v →
      ∃ after, Board.read slot .word o board = .ok v after ∧ Shows after words
  read_none : ∀ {board words}, Shows board words → ∀ o : UInt32, o.toNat % 4 = 0 →
    o ≤ last - slot.base → words (o.toNat / 4) = none →
      ∃ e after, Board.read slot .word o board = .error e after ∧ Shows after words
  /-- A word that is there can be written, and no other changes. -/
  write_some : ∀ {board words}, Shows board words → ∀ o : UInt32, o.toNat % 4 = 0 →
    o ≤ last - slot.base → words (o.toNat / 4) ≠ none → ∀ v,
      ∃ after, Board.write slot .word o v board = .ok () after ∧
        Shows after (Function.update words (o.toNat / 4) (some v))
  write_none : ∀ {board words}, Shows board words → ∀ o : UInt32, o.toNat % 4 = 0 →
    o ≤ last - slot.base → words (o.toNat / 4) = none → ∀ v,
      ∃ e after, Board.write slot .word o v board = .error e after ∧ Shows after words

namespace Bank

section OnBoard

variable {δ α : Type} {op : Op δ α} {b : Bus δ} {after : δ}

theorem onBoard_ok {v : α} (h : op b.board = .ok v after) :
    onBoard op b = .ok v { b with board := after } := by
  simp only [onBoard, h]

theorem onBoard_error {e : Fault} (h : op b.board = .error e after) :
    onBoard op b = .error e { b with board := after } := by
  simp only [onBoard, h]

end OnBoard

variable {δ : Type} [Board δ] (k : Bank δ) {board : δ} {words : Nat → Option UInt32} {w : Width}
  {o v : UInt32}

/-- The word of an offset in the bank is in the bank, and is the one of that number. -/
theorem wordBase_offset (hl : o ≤ k.last - k.slot.base) :
    (wordBase o).toNat % 4 = 0 ∧ wordBase o ≤ k.last - k.slot.base ∧
      (wordBase o).toNat / 4 = o.toNat / 4 := by
  have hb := toNat_wordBase o
  refine ⟨by omega, ?_, by omega⟩
  rw [UInt32.le_iff_toNat_le] at hl ⊢
  omega

/-- The bank decodes no narrow access. -/
theorem direct_iff : k.slot.direct w = true ↔ w = .word := by
  simp [Slot.direct, k.wholeWords]

/-- A read of any width takes its lane out of the word. -/
theorem slot_read (ho : o.toNat % w.bytes = 0) : (k.slot.read w o : Op δ UInt32) = do
    let v ← Board.read k.slot .word (wordBase o)
    return w.lane o v := by
  by_cases hw : w = .word
  · subst hw
    simp only [Slot.read, Slot.direct_word, if_true, wordBase_of_aligned ho, Width.lane_word,
      Width.and_mask_word]
  · rw [Slot.read, if_neg (mt k.direct_iff.1 hw)]

/-- **A read of any width** gives the lane of the word that is there, and is refused without one. -/
theorem read_cases (hs : k.Shows board words) (ho : o.toNat % w.bytes = 0)
    (hl : o ≤ k.last - k.slot.base) :
    ∃ after, k.Shows after words ∧
      ((∃ v, words (o.toNat / 4) = some v ∧ k.slot.read w o board = .ok (w.lane o v) after) ∨
        words (o.toNat / 4) = none ∧ ∃ e, k.slot.read w o board = .error e after) := by
  obtain ⟨hb, hlb, hn⟩ := k.wordBase_offset hl
  rw [k.slot_read ho, Op.bind_apply]
  cases hv : words (o.toNat / 4) with
  | some v =>
      obtain ⟨after, hr, ha⟩ := k.read_some hs _ hb hlb v (by rw [hn, hv])
      exact ⟨after, ha, .inl ⟨v, rfl, by rw [hr]; rfl⟩⟩
  | none =>
      obtain ⟨e, after, hr, ha⟩ := k.read_none hs _ hb hlb (by rw [hn, hv])
      exact ⟨after, ha, .inr ⟨rfl, e, by rw [hr]⟩⟩

/-- **A write of any width** replaces the lane of the word that is there, and is refused without
one. -/
theorem write_cases (hs : k.Shows board words) (ho : o.toNat % w.bytes = 0)
    (hl : o ≤ k.last - k.slot.base) (v : UInt32) :
    ∃ after, (∃ old, words (o.toNat / 4) = some old ∧ k.slot.write w o v board = .ok () after ∧
        k.Shows after (Function.update words (o.toNat / 4) (some (w.setLane o old v)))) ∨
      words (o.toNat / 4) = none ∧ k.Shows after words ∧
        ∃ e, k.slot.write w o v board = .error e after := by
  obtain ⟨hb, hlb, hn⟩ := k.wordBase_offset hl
  by_cases hw : w = .word
  · subst hw
    simp only [Slot.write, Slot.direct_word, if_true, Width.and_mask_word, Width.setLane_word]
    cases hv : words (o.toNat / 4) with
    | some old =>
        obtain ⟨after, hr, ha⟩ := k.write_some hs o ho hl (by rw [hv]; exact nofun) v
        exact ⟨after, .inl ⟨old, rfl, hr, ha⟩⟩
    | none =>
        obtain ⟨e, after, hr, ha⟩ := k.write_none hs o ho hl hv v
        exact ⟨after, .inr ⟨rfl, ha, e, hr⟩⟩
  · -- The word is read before it is written back.
    rw [Slot.write, if_neg (mt k.direct_iff.1 hw), Op.bind_apply]
    cases hv : words (o.toNat / 4) with
    | some old =>
        obtain ⟨between, hr, hs⟩ := k.read_some hs _ hb hlb old (by rw [hn, hv])
        obtain ⟨after, hw, ha⟩ := k.write_some hs _ hb hlb (by rw [hn, hv]; exact nofun)
          (w.setLane o old v)
        rw [hn] at ha
        exact ⟨after, .inl ⟨old, rfl, by rw [hr]; exact hw, ha⟩⟩
    | none =>
        obtain ⟨e, after, hr, ha⟩ := k.read_none hs _ hb hlb (by rw [hn, hv])
        exact ⟨after, .inr ⟨rfl, ha, e, by rw [hr]⟩⟩

/-! ### Accesses through the bus -/

variable {b : Bus δ} {x : Access}

/-- The access is aligned, and its address without the three top bits is in a device region and in
the range of the bank. -/
def Reaches (x : Access) : Prop :=
  x.Aligned ∧ x.ForDevice ∧ k.slot.base.toNat ≤ x.address.toNat % 0x20000000 ∧
    x.address.toNat % 0x20000000 ≤ k.last.toNat

instance : DecidablePred k.Reaches := fun _ => inferInstanceAs (Decidable (_ ∧ _ ∧ _ ∧ _))

/-- Where the access begins in the bank, in bytes. -/
def index (x : Access) : Nat := x.address.toNat % 0x20000000 - k.slot.base.toNat

variable {k}

theorem Reaches.bounds (hx : k.Reaches x) :
    k.slot.base ≤ physical x.address ∧ physical x.address ≤ k.last := by
  rw [UInt32.le_iff_toNat_le, UInt32.le_iff_toNat_le, toNat_physical]
  exact hx.2.2

theorem Reaches.offset (hx : k.Reaches x) :
    (physical x.address - k.slot.base).toNat = k.index x ∧
      k.index x % x.width.bytes = 0 ∧ physical x.address - k.slot.base ≤ k.last - k.slot.base := by
  obtain ⟨hb, hl⟩ := hx.bounds
  have ho : (physical x.address - k.slot.base).toNat = k.index x := by
    rw [UInt32.toNat_sub_of_le _ _ hb, toNat_physical]
    rfl
  have hlast : (k.last - k.slot.base).toNat = k.last.toNat - k.slot.base.toNat :=
    UInt32.toNat_sub_of_le _ _ (UInt32.le_trans hb hl)
  obtain ⟨ha, -, hb', hl'⟩ := hx
  have hk := k.aligned
  refine ⟨ho, ?_, ?_⟩
  · rw [Access.Aligned] at ha
    rw [index]
    cases hw : x.width <;> rw [hw] at ha <;> simp only [Width.bytes] at ha ⊢ <;> omega
  · rw [UInt32.le_iff_toNat_le, ho, hlast, index]
    omega

/-- The bus gives the access to the bank. -/
theorem Reaches.onBoard (hx : k.Reaches x) (hs : k.Shows b.board words) :
    Bus.read x.width x.address b =
        Bus.onBoard (k.slot.read x.width (physical x.address - k.slot.base)) b ∧
      ∀ v, Bus.write x.width x.address v b =
        Bus.onBoard (k.slot.write x.width (physical x.address - k.slot.base) v) b := by
  obtain ⟨hb, hl⟩ := hx.bounds
  have ha := x.aligned_iff.2 hx.1
  have hf := k.found hs _ hb hl
  have hr : regionOf x.address = .io ∨ regionOf x.address = .expansion := by
    have hd := hx.2.1
    obtain ⟨hram, -⟩ | ⟨-, -, hr⟩ | ⟨-, hn, -⟩ := x.region_cases
    · rw [Access.ForRam] at hram
      rw [Access.ForDevice] at hd
      omega
    · exact hr
    · exact absurd hd hn
  constructor
  · obtain hr | hr := hr <;> simp only [Bus.read, ha, hr, hf] <;> rfl
  · intro v
    obtain hr | hr := hr <;> simp only [Bus.write, ha, hr, hf] <;> rfl

/-- **An access to a word that is not there** fails, and no word changes. -/
theorem perform_missing (hs : k.Shows b.board words) (hx : k.Reaches x)
    (hn : words (k.index x / 4) = none) :
    ∃ e, (x.perform b).1 = .error e ∧ k.Shows (x.perform b).2.board words := by
  obtain ⟨hi, ho, hl⟩ := hx.offset
  obtain ⟨hread, hwrite⟩ := hx.onBoard hs
  rw [← hi] at ho hn
  rw [Access.perform]
  cases x.written with
  | none =>
      obtain ⟨after, ha, ⟨v, hv, -⟩ | ⟨-, e, hr⟩⟩ := k.read_cases hs ho hl
      · exact absurd (hv.symm.trans hn) (Option.some_ne_none _)
      · simp only [hread, onBoard_error hr]
        exact ⟨e, rfl, ha⟩
  | some v =>
      obtain ⟨after, ⟨old, hv, -⟩ | ⟨-, ha, e, hr⟩⟩ := k.write_cases hs ho hl v
      · exact absurd (hv.symm.trans hn) (Option.some_ne_none _)
      · simp only [hwrite, onBoard_error hr]
        exact ⟨e, rfl, ha⟩

/-- **One access of any width** is an access to the bytes of the bank. -/
theorem perform_access (hs : k.Shows b.board words) (hx : k.Reaches x) :
    ∃ words', k.Shows (x.perform b).2.board words' ∧
      ((x.perform b).1.toOption, Bytes.ofWords words') =
        x.onBytes (k.index x) (Bytes.ofWords words) := by
  obtain ⟨hi, ho, hl⟩ := hx.offset
  obtain ⟨hread, hwrite⟩ := hx.onBoard hs
  cases hn : words (k.index x / 4) with
  | none =>
      obtain ⟨e, he, ha⟩ := perform_missing hs hx hn
      rw [← hi] at hn
      refine ⟨words, ha, ?_⟩
      rw [he, Access.onBytes, ← hi, Bytes.load?_of_none hn]
      rfl
  | some old =>
      rw [← hi] at ho hn ⊢
      obtain ⟨bs, hbs, hval⟩ := Bytes.load?_of_some ho hn
      rw [Access.perform, Access.onBytes, hbs]
      cases x.written with
      | none =>
          obtain ⟨after, ha, ⟨v, hv, hr⟩ | ⟨hv, -⟩⟩ := k.read_cases hs ho hl
          · obtain rfl : old = v := Option.some.inj (hn.symm.trans hv)
            simp only [hread, onBoard_ok hr, hval]
            exact ⟨words, ha, rfl⟩
          · exact absurd (hn.symm.trans hv) (Option.some_ne_none _)
      | some v =>
          obtain ⟨after, ⟨old', hv, hr, ha⟩ | ⟨hv, -⟩⟩ := k.write_cases hs ho hl v
          · simp only [hwrite, onBoard_ok hr, Bytes.store_ofWords ho hv]
            exact ⟨_, ha, rfl⟩
          · exact absurd (hn.symm.trans hv) (Option.some_ne_none _)

/-- The accesses to bytes, one after the other: what each gives, and the bytes after them. -/
def onBytesAll (k : Bank δ) : List Access → Bytes → List (Option (Option UInt32)) × Bytes
  | [], m => ([], m)
  | x :: xs, m =>
      let (answer, m) := x.onBytes (k.index x) m
      let (answers, m) := k.onBytesAll xs m
      (answer :: answers, m)

theorem performAll_onBytes : ∀ (xs : List Access) {b : Bus δ} {words : Nat → Option UInt32},
    k.Shows b.board words → (∀ x ∈ xs, k.Reaches x) →
      ∃ words', k.Shows (performAll xs b).2.board words' ∧
        ((performAll xs b).1.map (·.2.toOption), Bytes.ofWords words') =
          k.onBytesAll xs (Bytes.ofWords words)
  | [], _, words, hs, _ => ⟨words, hs, rfl⟩
  | x :: xs, b, words, hs, hx => by
      obtain ⟨hx, hxs⟩ := List.forall_mem_cons.1 hx
      obtain ⟨between, hs, hone⟩ := perform_access hs hx
      obtain ⟨after, hs, hall⟩ := performAll_onBytes xs hs hxs
      refine ⟨after, hs, ?_⟩
      rw [onBytesAll, ← hone]
      dsimp only
      rw [← hall]
      rfl

end Bank

end Bus

/-! ### The banks of a rack -/

namespace Rack

/-- The device in this place of the rack is a bank with this range and these words, it refuses
nothing that it has, and no device before it answers in its range. -/
structure HasBank (i : Nat) (base size : UInt32) (r : Rack) (words : Nat → Option UInt32) :
    Prop where
  device : ∃ used ws, r.devices[i]? = some { kind := .bank ws, base, size, used } ∧
    words = fun n => ws[n]?
  first : ∀ j < i, ∀ d, r.devices[j]? = some d → ∀ p, base ≤ p → p ≤ base + size - 1 →
    d.answers p = false

variable {i : Nat} {base size : UInt32} {r : Rack} {words : Nat → Option UInt32}

/-- The bank after an access. -/
theorem HasBank.set (h : HasBank i base size r words) (used : Nat) (ws : Array UInt32)
    (t : Array Access) :
    HasBank i base size
      ⟨r.devices.setIfInBounds i { kind := .bank ws, base, size, used }, t⟩ fun n => ws[n]? := by
  obtain ⟨used', ws', hd, -⟩ := h.device
  have hi : i < r.devices.size := (Array.getElem?_eq_some_iff.1 hd).1
  refine ⟨⟨used, ws, ?_, rfl⟩, fun j hj d hd => h.first j hj d ?_⟩
  · simp [hi]
  · rwa [Array.getElem?_setIfInBounds, if_neg (by omega)] at hd

theorem HasBank.slotAt (h : HasBank i base size r words) {p : UInt32} (hb : base ≤ p)
    (hl : p ≤ base + size - 1) : r.slotAt p = some ⟨i, base, false⟩ := by
  obtain ⟨used, ws, hd, -⟩ := h.device
  obtain ⟨hi, hg⟩ := Array.getElem?_eq_some_iff.1 hd
  have hf : r.devices.findIdx? (·.answers p) = some i := by
    refine Array.findIdx?_eq_some_iff_getElem.2 ⟨hi, ?_, fun j hj => ?_⟩
    · rw [hg]
      simp [Device.answers, hb, hl]
    · simpa using h.first j hj _ (Array.getElem?_eq_getElem _) p hb hl
  rw [Rack.slotAt, hf]
  simp only [hd]
  rfl

theorem HasBank.read_some (h : HasBank i base size r words) {o v : UInt32}
    (hv : words (o.toNat / 4) = some v) :
    ∃ after, Rack.read ⟨i, base, false⟩ .word o r = .ok v after ∧
      HasBank i base size after words := by
  obtain ⟨used, ws, hd, rfl⟩ := h.device
  refine ⟨_, ?_, h.set (used + 1) ws (r.transcript.push ⟨i, false, .word, o, v, false⟩)⟩
  simp only [Rack.read, hd, Device.read, Device.spent, Bool.false_eq_true, if_false, hv,
    Width.and_mask_word]

theorem HasBank.read_none (h : HasBank i base size r words) {o : UInt32}
    (hv : words (o.toNat / 4) = none) :
    ∃ e after, Rack.read ⟨i, base, false⟩ .word o r = .error e after ∧
      HasBank i base size after words := by
  obtain ⟨used, ws, hd, rfl⟩ := h.device
  refine ⟨.invalidAccess (base + o), _, ?_,
    h.set (used + 1) ws (r.transcript.push ⟨i, false, .word, o, 0, true⟩)⟩
  simp only [Rack.read, hd, Device.read, Device.spent, Bool.false_eq_true, if_false, hv,
    Device.refusal]

theorem HasBank.write_some (h : HasBank i base size r words) {o : UInt32}
    (hv : words (o.toNat / 4) ≠ none) (v : UInt32) :
    ∃ after, Rack.write ⟨i, base, false⟩ .word o v r = .ok () after ∧
      HasBank i base size after (Function.update words (o.toNat / 4) (some v)) := by
  obtain ⟨used, ws, hd, rfl⟩ := h.device
  have hlt : o.toNat / 4 < ws.size := by simpa using hv
  have hs := h.set (used + 1) (ws.setIfInBounds (o.toNat / 4) v)
    (r.transcript.push ⟨i, true, .word, o, v, false⟩)
  have hw : (fun n => (ws.setIfInBounds (o.toNat / 4) v)[n]?) =
      Function.update (fun n => ws[n]?) (o.toNat / 4) (some v) := by
    funext n
    by_cases hn : n = o.toNat / 4
    · subst hn
      rw [Function.update_self, Array.getElem?_setIfInBounds, if_pos rfl, if_pos hlt]
    · rw [Function.update_of_ne hn, Array.getElem?_setIfInBounds, if_neg (Ne.symm hn)]
  rw [hw] at hs
  refine ⟨_, ?_, hs⟩
  simp only [Rack.write, hd, Device.write, Device.spent, Bool.false_eq_true, if_false, hlt, if_true]

theorem HasBank.write_none (h : HasBank i base size r words) {o : UInt32}
    (hv : words (o.toNat / 4) = none) (v : UInt32) :
    ∃ e after, Rack.write ⟨i, base, false⟩ .word o v r = .error e after ∧
      HasBank i base size after words := by
  obtain ⟨used, ws, hd, rfl⟩ := h.device
  have hlt : ¬o.toNat / 4 < ws.size := by simpa using hv
  refine ⟨.invalidAccess (base + o), _, ?_,
    h.set (used + 1) ws (r.transcript.push ⟨i, true, .word, o, v, true⟩)⟩
  simp only [Rack.write, hd, Device.write, Device.spent, Bool.false_eq_true, if_false, hlt,
    Device.refusal]

/-- **The banks of a rack** are banks of words. -/
def bank (i : Nat) (base size : UInt32) (aligned : base.toNat % 4 = 0) : Bus.Bank Rack where
  slot := ⟨i, base, false⟩
  last := base + size - 1
  wholeWords := rfl
  aligned := aligned
  Shows := HasBank i base size
  found h _ hb hl := h.slotAt hb hl
  read_some h _ _ _ _ hv := h.read_some hv
  read_none h _ _ _ hv := h.read_none hv
  write_some h _ _ _ hv := h.write_some hv
  write_none h _ _ _ hv := h.write_none hv

end Rack

/-! ### Every sequence of accesses -/

namespace Bus

/-- **A bank of words is one array of bytes.**  Whatever aligned accesses of every width are made
through the bus to the addresses of a bank in a device region, one after the other, each gives what
it would give on the bytes of the words, lowest first, and the words afterwards have the bytes that
it would leave: so a narrow write changes its own bytes and no other.  An access to a word that is
not there fails, and no word changes. -/
theorem bank_is_bytes {δ : Type} [Board δ] (k : Bank δ) {b : Bus δ} {words : Nat → Option UInt32}
    (hs : k.Shows b.board words) :
    (∀ xs : List Access, (∀ x ∈ xs, k.Reaches x) →
      ∃ words', k.Shows (performAll xs b).2.board words' ∧
        ((performAll xs b).1.map (·.2.toOption), Bytes.ofWords words') =
          k.onBytesAll xs (Bytes.ofWords words)) ∧
    ∀ x : Access, k.Reaches x → words (k.index x / 4) = none →
      ∃ e, (x.perform b).1 = .error e ∧ k.Shows (x.perform b).2.board words :=
  ⟨fun xs => Bank.performAll_onBytes xs hs, fun _ => Bank.perform_missing hs⟩

/-- A queue and, after it, a bank of two words with room for four. -/
def queueAndBank : Rack where
  devices := #[{ kind := .queue [], base := 0x1F801800, size := 4 },
    { kind := .bank #[0x11223344, 0x55667788], base := 0x1F000000, size := 16 }]

/-- The bank of this rack. -/
def secondBank : Bank Rack := Rack.bank 1 0x1F000000 16 (by decide)

/-- A byte is written in the middle of a word, through another segment; half of the word is read,
and the whole word; and half of a word that is not there. -/
theorem bank_is_bytes_queueAndBank :
    ((performAll [⟨.byte, 0x9F000001, some 0xAA⟩, ⟨.half, 0x1F000000, none⟩,
        ⟨.word, 0x1F000000, none⟩, ⟨.half, 0x1F00000A, none⟩]
          { board := queueAndBank : Bus Rack }).1.map (·.2.toOption)) =
      [some none, some (some 0xAA44), some (some 0x1122AA44), none] := by
  have hs : secondBank.Shows queueAndBank fun n => #[0x11223344, 0x55667788][n]? := by
    refine ⟨⟨0, _, rfl, rfl⟩, fun j hj d hd p _ hl => ?_⟩
    -- The queue lies above.
    obtain rfl : j = 0 := by omega
    obtain rfl : _ = d := Option.some.inj hd
    have hp : ¬(0x1F801800 : UInt32) ≤ p := fun h => absurd (UInt32.le_trans h hl) (by decide)
    show (decide ((0x1F801800 : UInt32) ≤ p) && _) = false
    rw [decide_eq_false hp, Bool.false_and]
  obtain ⟨words, -, h⟩ := (bank_is_bytes secondBank (b := { board := queueAndBank }) hs).1
    [⟨.byte, 0x9F000001, some 0xAA⟩, ⟨.half, 0x1F000000, none⟩, ⟨.word, 0x1F000000, none⟩,
      ⟨.half, 0x1F00000A, none⟩] (by decide)
  exact (congrArg Prod.fst h).trans (by decide +kernel)

end Bus

end DmaMachine
