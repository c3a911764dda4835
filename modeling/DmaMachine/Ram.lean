import DmaMachine.Word

/-!
# Main memory

*RAM* is two mebibytes, little-endian.  Every address reads somewhere: RAM is addressed modulo its
size, so an access never leaves it.

`Ram.byte` is the view of a memory as a function of the address, and `byte_setByte` the law of its
one primitive change; wider accesses are made of bytes.
-/

namespace DmaMachine

/-- Two mebibytes. -/
structure Ram where
  bytes : ByteArray
  size_bytes : bytes.size = 0x200000

namespace Ram

/-- Number of bytes. -/
def size : Nat := 0x200000

/-- Where an address falls in RAM. -/
def offset (a : UInt32) : Nat := a.toNat % size

/-- RAM full of zeros. -/
def zero : Ram where
  bytes := ⟨Array.replicate size 0⟩
  size_bytes := by simp [ByteArray.size, size]

/-- RAM with the given contents, if they have its size. -/
def ofBytes? (bytes : ByteArray) : Option Ram :=
  if h : bytes.size = 0x200000 then some ⟨bytes, h⟩ else none

theorem offset_lt (m : Ram) (a : UInt32) : offset a < m.bytes.size := by
  rw [m.size_bytes]
  exact Nat.mod_lt _ (by decide)

def byte (m : Ram) (a : UInt32) : UInt8 := m.bytes.get (offset a) (m.offset_lt a)

def setByte (a : UInt32) (v : UInt8) (m : Ram) : Ram where
  bytes := m.bytes.set (offset a) v (m.offset_lt a)
  size_bytes := (Array.size_set ..).trans m.size_bytes

/-! ### Accesses of every width -/

/-- The value at an address, little-endian. -/
def read (w : Width) (a : UInt32) (m : Ram) : UInt32 :=
  match w with
  | .byte => (m.byte a).toUInt32
  | .half => halfOfBytes (m.byte a) (m.byte (a + 1))
  | .word => wordOfBytes (m.byte a) (m.byte (a + 1)) (m.byte (a + 2)) (m.byte (a + 3))

/-- Stores the low bits of `v` at an address, little-endian. -/
def write (w : Width) (a v : UInt32) (m : Ram) : Ram :=
  match w with
  | .byte => m.setByte a (byteOfWord 0 v)
  | .half => (m.setByte a (byteOfWord 0 v)).setByte (a + 1) (byteOfWord 1 v)
  | .word =>
      (((m.setByte a (byteOfWord 0 v)).setByte (a + 1) (byteOfWord 1 v)).setByte (a + 2)
        (byteOfWord 2 v)).setByte (a + 3) (byteOfWord 3 v)

/-! ### Laws -/

@[ext] theorem ext {m n : Ram} (h : m.bytes = n.bytes) : m = n := by
  cases m; cases n; cases h; rfl

/-- **A byte reads back**, at every address that falls in the same place, and no other changes. -/
theorem byte_setByte (m : Ram) (a b : UInt32) (v : UInt8) :
    (m.setByte a v).byte b = if offset b = offset a then v else m.byte b := by
  have ha : offset a < m.bytes.data.size := m.offset_lt a
  have hb : offset b < (m.bytes.data.set (offset a) v ha).size := by
    rw [Array.size_set]
    exact m.offset_lt b
  show (m.bytes.data.set (offset a) v ha)[offset b] = _
  rw [Array.getElem_set]
  simp only [eq_comm (a := offset a)]
  rfl

@[simp] theorem byte_zero (a : UInt32) : zero.byte a = 0 := by
  have h : offset a < (Array.replicate size (0 : UInt8)).size := by
    simpa [offset] using Nat.mod_lt _ (by decide)
  show (Array.replicate size (0 : UInt8))[offset a] = 0
  simp

end Ram

end DmaMachine
