import DmaMachine.Word

/-!
# A channel's control word

The *control word* of a DMA channel says which way data moves, how the address steps, how the
transfer is paced, and whether it is to start.

```text
bit     meaning
0       direction: set when data leaves RAM
1       address step: set for four down, clear for four up
8       chopping: a burst yields the bus after every window
9-10    synchronisation mode
16-18   bus window, 2^n words
20-22   processor window, 2^n cycles
24      start, and busy while the transfer lasts
28      forced start
29      pause
30      stored, without effect
```

Each single-bit field is a `Flag`; `has_set` is the law of setting one.
-/

namespace DmaMachine

/-- Which way a transfer moves data. -/
inductive Direction where
  | toRam
  | fromRam
deriving DecidableEq

def Direction.describe : Direction → String
  | .toRam => "to RAM"
  | .fromRam => "from RAM"

/-- How a transfer is paced. -/
inductive SyncMode where
  /-- The whole word count at once. -/
  | burst
  /-- One block for each request of the peripheral. -/
  | slice
  /-- The nodes of a linked list in RAM, one after the other. -/
  | linkedList
  | reserved
deriving DecidableEq

namespace SyncMode

/-- The mode that the two low bits name. -/
def ofBits (v : UInt32) : SyncMode :=
  if v &&& 3 = 0 then burst
  else if v &&& 3 = 1 then slice
  else if v &&& 3 = 2 then linkedList
  else reserved

def bits : SyncMode → UInt32
  | burst => 0
  | slice => 1
  | linkedList => 2
  | reserved => 3

@[simp] theorem ofBits_bits (m : SyncMode) : ofBits m.bits = m := by cases m <;> rfl

end SyncMode

/-- The control word of a channel. -/
structure Control where
  bits : UInt32 := 0
deriving DecidableEq

namespace Control

/-- The fields of one bit. -/
inductive Flag where
  | fromRam
  | decrement
  | chopping
  | startBusy
  | forceStart
  | pause
  | spare
deriving DecidableEq

/-- Where a flag stands in the control word. -/
def Flag.position : Flag → Nat
  | fromRam => 0
  | decrement => 1
  | chopping => 8
  | startBusy => 24
  | forceStart => 28
  | pause => 29
  | spare => 30

/-- The word whose only set bit is the flag's. -/
def Flag.mask (f : Flag) : UInt32 := 1 <<< UInt32.ofNat f.position

/-- Every bit that a channel stores. -/
def storable : UInt32 := 0x71770703

def has (c : Control) (f : Flag) : Bool := bit c.bits f.position

def set (c : Control) (f : Flag) (on : Bool) : Control :=
  ⟨if on then c.bits ||| f.mask else c.bits &&& ~~~f.mask⟩

def direction (c : Control) : Direction := if c.has .fromRam then .fromRam else .toRam

def syncMode (c : Control) : SyncMode := .ofBits (c.bits >>> 9)

/-- Words that a chopped burst moves before it yields. -/
def busWindow (c : Control) : Nat := 1 <<< ((c.bits >>> 16) &&& 7).toNat

/-- Cycles for which a chopped burst yields. -/
def cpuWindow (c : Control) : Nat := 1 <<< ((c.bits >>> 20) &&& 7).toNat

/-! ### Laws of the flags -/

theorem Flag.bit_mask (f : Flag) {i : Nat} (h : i < 32) :
    bit f.mask i = decide (i = f.position) := by
  revert i
  cases f <;> decide

theorem Flag.position_lt (f : Flag) : f.position < 32 := by cases f <;> decide

theorem Flag.position_inj {f g : Flag} (h : f.position = g.position) : f = g := by
  cases f <;> cases g <;> first | rfl | exact absurd h (by decide)

/-- **Setting a flag changes that flag alone.** -/
@[simp] theorem has_set (c : Control) (f g : Flag) (on : Bool) :
    (c.set f on).has g = if g = f then on else c.has g := by
  have hm := f.bit_mask g.position_lt
  by_cases h : g = f
  · subst h
    cases on <;> simp [has, set, bit_not, hm, g.position_lt]
  · have hp : g.position ≠ f.position := fun e => h (Flag.position_inj e)
    cases on <;> simp [has, set, bit_not, hm, h, hp, g.position_lt]

/-- The bits outside the flag are left alone. -/
theorem bit_set (c : Control) (f : Flag) (on : Bool) {i : Nat} (hi : i < 32)
    (h : i ≠ f.position) : bit (c.set f on).bits i = bit c.bits i := by
  have hm := f.bit_mask hi
  cases on <;> simp [set, bit_not, hm, h, hi]

theorem direction_set (c : Control) {f : Flag} (hf : f ≠ .fromRam) (on : Bool) :
    (c.set f on).direction = c.direction := by
  simp [direction, hf.symm]

/-- No flag stands among the bits of the mode. -/
@[simp] theorem syncMode_set (c : Control) (f : Flag) (on : Bool) :
    (c.set f on).syncMode = c.syncMode := by
  have hs : ∀ (a : UInt32) (i : Nat), bit (a >>> 9) i = bit a (9 + i) := fun a i => by simp [bit]
  have ht : ∀ i < 32, ¬ i < 2 → bit 3 i = false := by decide
  have h : ((c.set f on).bits >>> 9) &&& (3 : UInt32) = (c.bits >>> 9) &&& 3 := by
    refine word_ext fun i hi => ?_
    rw [bit_and, bit_and, hs, hs]
    by_cases h2 : i < 2
    · rw [c.bit_set f on (by omega)]
      cases f <;> simp [Flag.position] <;> omega
    · rw [ht i hi h2, Bool.and_false, Bool.and_false]
  rw [syncMode, syncMode, SyncMode.ofBits, SyncMode.ofBits, h]

theorem busWindow_pos (c : Control) : 0 < c.busWindow := by
  rw [busWindow, Nat.one_shiftLeft]
  exact Nat.two_pow_pos _

theorem cpuWindow_pos (c : Control) : 0 < c.cpuWindow := by
  rw [cpuWindow, Nat.one_shiftLeft]
  exact Nat.two_pow_pos _

end Control

end DmaMachine
