import DmaMachine.Bus.Master
import DmaMachine.Script

/-!
# Calls on the bus

What a client with a hand on the bus can do, as data: accesses, the exception flag, the cycle
counter, the contents of RAM, and changes of the board that do not go through an access.
-/

namespace DmaMachine

namespace Bus

variable {δ : Type}

inductive Call (δ : Type) where
  | read (w : Width) (a : UInt32)
  | write (w : Width) (a v : UInt32)
  | readPort (p : DataPort)
  | writePort (p : DataPort) (v : UInt32)
  | takeException
  | charge (cycles : Nat)
  | takeCycles
  | reset
  | loadRam (bytes : ByteArray)
  /-- Looks at `count` bytes of RAM without an access. -/
  | inspect (start count : Nat)
  | changeBoard (change : δ → δ)

def Call.Answer : Call δ → Type
  | .read .. | .readPort _ => UInt32
  | .write .. | .writePort .. | .charge _ | .reset | .loadRam _ | .changeBoard _ => Unit
  | .takeException => Bool
  | .takeCycles => Nat
  | .inspect .. => List UInt8

/-- The calls on a bus. -/
def interface (δ : Type) : Interface := ⟨Call δ, Call.Answer⟩

/-- Bytes of RAM from an offset on; past its end there are none. -/
def bytesAt (b : Bus δ) (start count : Nat) : List UInt8 :=
  (b.ram.bytes.extract start (start + count)).toList

/-- Carries out a call. -/
def perform [Board δ] : (c : Call δ) → Op (Bus δ) c.Answer
  | .read w a => Bus.read w a
  | .write w a v => Bus.write w a v
  | .readPort p => p.read
  | .writePort p v => p.write v
  | .takeException => fun b =>
      let (raised, b) := b.takeException
      .ok raised b
  | .charge n => fun b => .ok () (b.charge n)
  | .takeCycles => fun b =>
      let (n, b) := b.takeCycles
      .ok n b
  | .reset => fun b => .ok () b.reset
  | .loadRam bytes => Bus.loadRam bytes
  | .inspect start count => fun b => .ok (b.bytesAt start count) b
  | .changeBoard change => fun b =>
      let ⟨ram, board, ex, last, pending⟩ := b
      .ok () ⟨ram, change board, ex, last, pending⟩

end Bus

end DmaMachine
