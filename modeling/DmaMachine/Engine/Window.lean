import DmaMachine.Channel.Basic

/-!
# The register window of the DMA engine

The engine's registers stand in one window of 128 bytes, a word each: sixteen bytes for every
channel, of which three words are registers, and after the channels the two words of the
controller and two of fixed contents.

`Register.ofOffset` decodes an offset, and `Register.offset` is the way back: by
`ofOffset_offset`, every register is found where it stands.
-/

namespace DmaMachine

/-- Where the window begins, as a physical address. -/
def windowStart : UInt32 := 0x1F801080

/-- The last address of the window. -/
def windowEnd : UInt32 := 0x1F8010FF

/-- Whether a physical address is in the window. -/
def inWindow (p : UInt32) : Bool := windowStart ≤ p && p ≤ windowEnd

/-- The registers of the window. -/
inductive Register where
  | channel (p : Peer) (r : Channel.Register)
  | priority
  | interrupt
  /-- The first word of fixed contents. -/
  | fixedLow
  /-- The second word of fixed contents. -/
  | fixedHigh
deriving DecidableEq

namespace Register

/-- The place of a register in the window. -/
def offset : Register → UInt32
  | channel p .base => UInt32.ofNat (16 * p.index)
  | channel p .blocks => UInt32.ofNat (16 * p.index + 4)
  | channel p .control => UInt32.ofNat (16 * p.index + 8)
  | priority => 0x70
  | interrupt => 0x74
  | fixedLow => 0x78
  | fixedHigh => 0x7C

/-- The register at an offset of the window, or the fault of there being none. -/
def ofOffset (offset : UInt32) : Except Fault Register :=
  let place := offset &&& 0xC
  let index := ((offset >>> 4) &&& 7).toNat
  match Peer.ofIndex? index with
  | some p =>
      match Channel.Register.ofOffset? place with
      | some r => .ok (channel p r)
      | none => .error (Channel.offsetFault p place)
  | none =>
      let word := wordBase offset
      if word = 0x70 then .ok priority
      else if word = 0x74 then .ok interrupt
      else if word = 0x78 then .ok fixedLow
      else if word = 0x7C then .ok fixedHigh
      else .error (.channel (.invalidRegister index place))

theorem ofOffset_offset (r : Register) : ofOffset r.offset = .ok r := by
  cases r with
  | channel p r => cases p <;> cases r <;> rfl
  | priority | interrupt | fixedLow | fixedHigh => rfl

end Register

end DmaMachine
