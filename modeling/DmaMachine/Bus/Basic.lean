import DmaMachine.Bus.Board
import DmaMachine.Ram

/-!
# The bus

The bus folds an address to a physical one by dropping its top three bits, and serves it by the
region that it falls into.

```text
physical address           region
0x00000000 to 0x007FFFFF   main memory, four times over
0x1F000000 to 0x1F7FFFFF   expansion: devices
0x1F801000 to 0x1F802FFF   I/O: devices
anything else              unmapped
```

Where a device region holds no device, a read gives all ones and a write is lost.  An unmapped
access does the same and besides *raises* the exception flag and notes the address; it is no
fault of the operation.  A misaligned access is, in every region, and leaves the bus as it was.

Beside memory and board the bus counts the cycles that its masters are charged, until somebody
takes them.
-/

namespace DmaMachine

/-- What stands behind a physical address. -/
inductive Region where
  | ram
  | expansion
  | io
  | unmapped
deriving DecidableEq

def Region.name : Region → String
  | .ram => "RAM"
  | .expansion => "Expansion"
  | .io => "IO"
  | .unmapped => "Unmapped"

/-- The address without its segment bits. -/
def physical (a : UInt32) : UInt32 := a &&& 0x1FFFFFFF

/-- The region that an address falls into. -/
def regionOf (a : UInt32) : Region :=
  let p := physical a
  if p ≤ 0x007FFFFF then .ram
  else if 0x1F000000 ≤ p ∧ p ≤ 0x1F7FFFFF then .expansion
  else if 0x1F801000 ≤ p ∧ p ≤ 0x1F802FFF then .io
  else .unmapped

/-- Main memory, the board, the exception flag with the address that raised it last, and the
cycles charged and not yet taken. -/
structure Bus (δ : Type) where
  ram : Ram := .zero
  board : δ
  exception : Bool := false
  lastFault : Option UInt32 := none
  pendingCycles : Nat := 0

namespace Bus

variable {δ α : Type}

/-- An operation on the board as one on the bus. -/
@[inline] def onBoard (op : Op δ α) : Op (Bus δ) α := fun ⟨ram, board, ex, last, pending⟩ =>
  match op board with
  | .ok a board => .ok a ⟨ram, board, ex, last, pending⟩
  | .error e board => .error e ⟨ram, board, ex, last, pending⟩

/-- The bus after an unmapped access. -/
def raise (a : UInt32) (b : Bus δ) : Bus δ := { b with exception := true, lastFault := some a }

/-- Reads `w` at an address. -/
def read [Board δ] (w : Width) (a : UInt32) : Op (Bus δ) UInt32 := fun b =>
  if !w.aligned a then .error (.unaligned a w.bytes) b
  else
    match regionOf a with
    | .ram => .ok (b.ram.read w (physical a)) b
    | .unmapped => .ok w.mask (b.raise a)
    | .io | .expansion =>
        match Board.slotAt b.board (physical a) with
        | none => .ok w.mask b
        | some slot => onBoard (slot.read w (physical a - slot.base)) b

/-- Writes the low bits of `v` at an address. -/
def write [Board δ] (w : Width) (a v : UInt32) : Op (Bus δ) Unit := fun b =>
  if !w.aligned a then .error (.unaligned a w.bytes) b
  else
    match regionOf a with
    | .ram =>
        let ⟨ram, board, ex, last, pending⟩ := b
        .ok () ⟨ram.write w (physical a) v, board, ex, last, pending⟩
    | .unmapped => .ok () (b.raise a)
    | .io | .expansion =>
        match Board.slotAt b.board (physical a) with
        | none => .ok () b
        | some slot => onBoard (slot.write w (physical a - slot.base) v) b

/-- Whether the exception flag was raised, and the bus with the flag down. -/
def takeException (b : Bus δ) : Bool × Bus δ :=
  (b.exception, { b with exception := false })

/-- Charges cycles to the masters of the bus. -/
def charge (n : Nat) (b : Bus δ) : Bus δ := { b with pendingCycles := b.pendingCycles + n }

/-- The cycles charged since they were last taken, and the bus with none pending. -/
def takeCycles (b : Bus δ) : Nat × Bus δ := (b.pendingCycles, { b with pendingCycles := 0 })

/-- Memory zeroed, no exception, no pending cycle; the board stays. -/
def reset (b : Bus δ) : Bus δ := { board := b.board }

/-- Replaces the contents of RAM. -/
def loadRam (bytes : ByteArray) : Op (Bus δ) Unit := fun b =>
  match Ram.ofBytes? bytes with
  | some ram => .ok () { b with ram }
  | none => .error (.snapshot (.wrongRamSize Ram.size bytes.size)) b

/-! ### Laws -/

/-- **Contents of the right size are loaded**, and nothing else changes. -/
theorem loadRam_bytes (ram : Ram) (b : Bus δ) : loadRam ram.bytes b = .ok () { b with ram } := by
  have h : Ram.ofBytes? ram.bytes = some ram := dif_pos ram.size_bytes
  simp only [loadRam, h]

/-- **A misaligned access is refused** in every region, and changes nothing. -/
theorem read_of_unaligned [Board δ] {w : Width} {a : UInt32} (h : w.aligned a = false)
    (b : Bus δ) : b.read w a = .error (.unaligned a w.bytes) b := by
  simp [read, h]

theorem write_of_unaligned [Board δ] {w : Width} {a : UInt32} (h : w.aligned a = false)
    (v : UInt32) (b : Bus δ) : b.write w a v = .error (.unaligned a w.bytes) b := by
  simp [write, h]

theorem read_ram [Board δ] {w : Width} {a : UInt32} (h : w.aligned a = true)
    (hr : regionOf a = .ram) (b : Bus δ) : b.read w a = .ok (b.ram.read w (physical a)) b := by
  simp [read, h, hr]

theorem write_ram [Board δ] {w : Width} {a : UInt32} (h : w.aligned a = true)
    (hr : regionOf a = .ram) (v : UInt32) (b : Bus δ) :
    b.write w a v = .ok () { b with ram := b.ram.write w (physical a) v } := by
  simp [write, h, hr]

theorem read_unmapped [Board δ] {w : Width} {a : UInt32} (h : w.aligned a = true)
    (hr : regionOf a = .unmapped) (b : Bus δ) : b.read w a = .ok w.mask (b.raise a) := by
  simp [read, h, hr]

theorem write_unmapped [Board δ] {w : Width} {a : UInt32} (h : w.aligned a = true)
    (hr : regionOf a = .unmapped) (v : UInt32) (b : Bus δ) :
    b.write w a v = .ok () (b.raise a) := by
  simp [write, h, hr]

end Bus

end DmaMachine
