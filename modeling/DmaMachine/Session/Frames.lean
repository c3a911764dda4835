import DmaMachine.Machine.Call
import DmaMachine.Session.Sink

/-!
# Frames

What a program does for every frame that it draws.  It has an *ordering table* of sixteen slots
cleared, each linked to the one below; when there has been time for that, it puts a *packet* of
three drawing commands between the middle slot and what that is linked to, and has the table
sent to the drawing port from its head on.
-/

namespace DmaMachine

namespace Frames

/-- What the events of the program are for. -/
inductive Job where
  /-- A frame begins. -/
  | begin
  /-- The ordering table is cleared, and can be sent. -/
  | submit
deriving DecidableEq

/-- The machine of the program, which remembers the number of frames begun. -/
abbrev Machine := DmaMachine.Machine Sink Job Nat

/-- The calls of the program. -/
abbrev calls : Interface := DmaMachine.Machine.interface Sink Job Nat

/-- What the program does, up to a result. -/
abbrev Program (β : Type) := Script calls β

/-- Makes a call. -/
def call (c : DmaMachine.Machine.Call Sink Job Nat) : Program c.Answer := Script.call (I := calls) c

/-! ### Addresses -/

/-- Where a register of the engine stands. -/
def address (r : Register) : UInt32 := windowStart + r.offset

/-- Number of slots of the ordering table. -/
def slots : Nat := 16

/-- The lowest slot. -/
def tableBase : UInt32 := 0x10000

/-- The highest slot, which the table is entered by. -/
def tableHead : UInt32 := tableBase + 4 * (UInt32.ofNat slots - 1)

/-- The slot that the packet is put behind. -/
def middleSlot : UInt32 := tableBase + 4 * UInt32.ofNat (slots / 2)

/-- Where the packet stands. -/
def packetBase : UInt32 := 0x20000

/-- The commands of the packet. -/
def packet : List UInt32 := [0xE1000400, 0xE2000000, 0xE3000000]

/-! ### What is done -/

def load (a : UInt32) : Program UInt32 := call (.read .word a)

def store (a v : UInt32) : Program Unit := call (.write .word a v)

/-- Stores words one behind the other. -/
def storeAll (a : UInt32) : List UInt32 → Program Unit
  | [] => pure ()
  | w :: ws => do
      store a w
      storeAll (a + 4) ws

/-- Programs a channel. -/
def start (p : Peer) (base blocks control : UInt32) : Program Unit := do
  store (address (.channel p .base)) base
  store (address (.channel p .blocks)) blocks
  store (address (.channel p .control)) control

/-- How long after its beginning the table of a frame is sent: a cycle for every slot, and some
to spare. -/
def submitDelay : Nat := slots + 8

/-- Begins a frame. -/
def begin : Program Unit := do
  let _ ← call (.observe fun m => m.memory + 1)
  start .orderingTable tableHead (UInt32.ofNat slots) 0x11000000
  let _ ← call (.schedule "GPU submit" submitDelay .submit)

/-- Puts the packet into the table, and has the table sent. -/
def submit : Program Unit := do
  let next ← load middleSlot
  store packetBase (UInt32.ofNat packet.length <<< 24 ||| next &&& 0xFFFFFF)
  storeAll (packetBase + 4) packet
  store middleSlot packetBase
  start .graphics tableHead 0 0x01000401

/-- What the events of the program do. -/
def handler : DmaMachine.Machine.Handler Sink Job Nat
  | .begin, _ => begin
  | .submit, _ => submit

end Frames

end DmaMachine
