import DmaMachine.Binary.Layout

/-!
# Compact numbers

A number below 251 is one byte.  A larger one is a mark and then two, four or eight bytes, the
least significant first; the mark says how many, and the writer takes the fewest.  A reader
accepts more than the fewest, but no more than the width of what it reads.
-/

namespace DmaMachine

/-! ### Little-endian numbers -/

/-- The low `k` bytes of a number, the least significant first. -/
def littleEndian : Nat → Nat → List UInt8
  | 0, _ => []
  | k + 1, n => UInt8.ofNat n :: littleEndian k (n / 256)

/-- The number that bytes stand for, the least significant first. -/
def ofLittleEndian : List UInt8 → Nat
  | [] => 0
  | b :: bs => b.toNat + 256 * ofLittleEndian bs

@[simp] theorem length_littleEndian (k n : Nat) : (littleEndian k n).length = k := by
  induction k generalizing n with
  | zero => rfl
  | succ k ih => simp [littleEndian, ih]

/-- A number that has room reads back. -/
theorem ofLittleEndian_littleEndian (k n : Nat) (h : n < 1 <<< (8 * k)) :
    ofLittleEndian (littleEndian k n) = n := by
  induction k generalizing n with
  | zero =>
      obtain rfl : n = 0 := Nat.lt_one_iff.1 h
      rfl
  | succ k ih =>
      have hk : 1 <<< (8 * (k + 1)) = 256 * 1 <<< (8 * k) := by
        rw [Nat.one_shiftLeft, Nat.one_shiftLeft, Nat.mul_succ, Nat.pow_add, Nat.mul_comm]
      have hn : n / 256 < 1 <<< (8 * k) := Nat.div_lt_of_lt_mul (hk ▸ h)
      simp only [littleEndian, ofLittleEndian, ih _ hn, UInt8.toNat_ofNat']
      omega

namespace Compact

/-- The mark of a number in `k` bytes. -/
def mark (k : Nat) : UInt8 := if k = 2 then 251 else if k = 4 then 252 else 253

/-- How many bytes a mark announces. -/
def length? (m : UInt8) : Option Nat :=
  if m = 251 then some 2 else if m = 252 then some 4 else if m = 253 then some 8 else none

/-- How many bytes a number that is not written as one byte takes behind its mark. -/
def width (n : Nat) : Nat := if n < 0x10000 then 2 else if n < 0x100000000 then 4 else 8

def write (n : Nat) : List UInt8 :=
  if n < 251 then [UInt8.ofNat n] else mark (width n) :: littleEndian (width n) n

/-- Reads a number of at most `room` bytes behind its mark. -/
def read (room : Nat) : Reader UInt8 Nat := do
  let m ← Reader.next
  if m < 251 then return m.toNat
  else
    match length? m with
    | none => Reader.fail
    | some k => if k ≤ room then ofLittleEndian <$> Reader.take k else Reader.fail

/-! ### Laws -/

theorem read_local (room : Nat) : (read room).Local := by
  refine Reader.Local.bind Reader.Local.next fun m => ?_
  split
  · exact Reader.Local.pure _
  · split
    · exact Reader.Local.fail
    · split
      · exact Reader.Local.map _ (Reader.Local.take _)
      · exact Reader.Local.fail

theorem length?_mark {k : Nat} (h : k = 2 ∨ k = 4 ∨ k = 8) : length? (mark k) = some k := by
  rcases h with rfl | rfl | rfl <;> rfl

theorem width_mem (n : Nat) : width n = 2 ∨ width n = 4 ∨ width n = 8 := by
  unfold width
  split
  · exact .inl rfl
  · split
    · exact .inr (.inl rfl)
    · exact .inr (.inr rfl)

theorem mark_not_lt {k : Nat} : ¬ mark k < 251 := by
  unfold mark
  split
  · decide
  · split <;> decide

/-- **A number reads back** where there is room for it. -/
theorem read_write {room n : Nat} (hr : width n ≤ room) (hn : n < UInt64.size) (rest : List UInt8) :
    read room (write n ++ rest) = some (n, rest) := by
  unfold write
  split
  · next h =>
      have hm : UInt8.ofNat n < 251 := by
        simp only [UInt8.lt_iff_toNat_lt, UInt8.toNat_ofNat']
        change n % 256 < 251
        omega
      change (if UInt8.ofNat n < 251 then (pure (UInt8.ofNat n).toNat : Reader UInt8 Nat) else _)
        rest = _
      rw [if_pos hm]
      change some ((UInt8.ofNat n).toNat, rest) = _
      rw [UInt8.toNat_ofNat', Nat.mod_eq_of_lt (by omega)]
  · have hroom : n < 1 <<< (8 * width n) := by
      unfold width UInt64.size at *
      split
      · omega
      · split <;> omega
    change (if mark (width n) < 251 then (pure (mark (width n)).toNat : Reader UInt8 Nat)
      else match length? (mark (width n)) with
        | none => Reader.fail
        | some k => if k ≤ room then ofLittleEndian <$> Reader.take k else Reader.fail)
      (littleEndian (width n) n ++ rest) = _
    rw [if_neg mark_not_lt, length?_mark (width_mem n)]
    simp only [hr, if_true]
    change (Reader.take (width n) (littleEndian (width n) n ++ rest)).bind
      (fun x => some (ofLittleEndian x.1, x.2)) = _
    have ht : Reader.take (width n) (littleEndian (width n) n ++ rest)
        = some (littleEndian (width n) n, rest) := by
      simp [Reader.take]
    rw [ht]
    change some (ofLittleEndian (littleEndian (width n) n), rest) = _
    rw [ofLittleEndian_littleEndian _ _ hroom]

end Compact

/-! ### Layouts -/

namespace Layout

/-- A number of four bytes at most. -/
def word32 : Layout UInt32 where
  write w := Compact.write w.toNat
  read := UInt32.ofNat <$> Compact.read 4

/-- A number of eight bytes at most. -/
def word64 : Layout UInt64 where
  write w := Compact.write w.toNat
  read := UInt64.ofNat <$> Compact.read 8

/-- A count of things that follow. -/
def count : Layout Nat where
  write n := Compact.write n
  read := Compact.read 8

theorem word32_local : word32.Local := Reader.Local.map _ (Compact.read_local 4)

theorem word64_local : word64.Local := Reader.Local.map _ (Compact.read_local 8)

theorem count_local : count.Local := Compact.read_local 8

theorem word32_faithful (w : UInt32) : word32.Faithful w := by
  intro rest
  have hr : Compact.width w.toNat ≤ 4 := by
    rw [Compact.width, if_pos w.toNat_lt_size]
    split <;> decide
  change (Compact.read 4 (Compact.write w.toNat ++ rest)).bind
    (fun x => some (UInt32.ofNat x.1, x.2)) = _
  rw [Compact.read_write hr (Nat.lt_of_lt_of_le w.toNat_lt_size (by decide))]
  simp

theorem word64_faithful (w : UInt64) : word64.Faithful w := by
  intro rest
  change (Compact.read 8 (Compact.write w.toNat ++ rest)).bind
    (fun x => some (UInt64.ofNat x.1, x.2)) = _
  rw [Compact.read_write (by rcases Compact.width_mem w.toNat with h | h | h <;> omega)
    w.toNat_lt_size]
  simp

theorem count_faithful {n : Nat} (h : n < UInt64.size) : count.Faithful n := by
  intro rest
  exact Compact.read_write (by rcases Compact.width_mem n with h | h | h <;> omega) h rest

end Layout

end DmaMachine
