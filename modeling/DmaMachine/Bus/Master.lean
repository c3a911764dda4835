import DmaMachine.Bus.Basic

/-!
# Bus masters

What a DMA channel needs of the bus: accesses of every width, the exception flag, and the cycle
counter.  A channel is written against this class, so that whatever it does to a bus is what it
does through these five operations.
-/

namespace DmaMachine

/-- A bus as its masters see it. -/
class Master (β : Type) where
  read : Width → UInt32 → Op β UInt32
  write : Width → UInt32 → UInt32 → Op β Unit
  /-- Whether the exception flag is raised. -/
  exception : β → Bool
  /-- Whether the exception flag was raised, and the bus with the flag down. -/
  takeException : β → Bool × β
  /-- Charges cycles to the master. -/
  charge : Nat → β → β

instance {δ : Type} [Board δ] : Master (Bus δ) where
  read := Bus.read
  write := Bus.write
  exception b := b.exception
  takeException := Bus.takeException
  charge := Bus.charge

/-- An address that whole units pass through, part by part. -/
structure DataPort where
  /-- The size of one part. -/
  width : Width
  address : UInt32
deriving DecidableEq

namespace DataPort

variable {β : Type} [Master β]

/-- Takes a unit out of the port: its parts are read one after the other, lowest first. -/
@[specialize] def read (p : DataPort) : Op β UInt32 :=
  match p.width with
  | .word => Master.read .word p.address
  | .half => do
      let low ← Master.read .half p.address
      let high ← Master.read .half p.address
      return low ||| high <<< 16
  | .byte => do
      let b₀ ← Master.read .byte p.address
      let b₁ ← Master.read .byte p.address
      let b₂ ← Master.read .byte p.address
      let b₃ ← Master.read .byte p.address
      return b₀ ||| b₁ <<< 8 ||| b₂ <<< 16 ||| b₃ <<< 24

/-- Puts a unit into the port: its parts are written one after the other, lowest first. -/
@[specialize] def write (p : DataPort) (v : UInt32) : Op β Unit :=
  match p.width with
  | .word => Master.write .word p.address v
  | .half => do
      Master.write .half p.address (v &&& 0xFFFF)
      Master.write .half p.address (v >>> 16)
  | .byte => do
      Master.write .byte p.address (v &&& 0xFF)
      Master.write .byte p.address ((v >>> 8) &&& 0xFF)
      Master.write .byte p.address ((v >>> 16) &&& 0xFF)
      Master.write .byte p.address (v >>> 24)

end DataPort

end DmaMachine
