import DmaMachine.Channel.Peer

/-!
# The DMA controller

What the seven channels share: the *priority word*, which says which channels may run and in
which order, and the *interrupt word* with the interrupt line that follows from it.

```text
priority word                          interrupt word
4n to 4n+2   priority of channel n     0-6     interrupt after every block of channel n
4n+3         channel n may run         15      bus error
28-30        priority of the processor 16-22   channel n may interrupt
                                       23      master enable
                                       24-30   channel n has interrupted; written 1 clears it
                                       31      the interrupt line, read only
```

The *line* is high when the master enable is set and either the bus error is, or some channel has
interrupted that may.  A rise of the line is *latched* as an edge until it is taken.

* `Controller.settle`: brings the line up to date, and latches an edge when it rises.
* `Controller.putPriority`, `Controller.putInterrupt`: the writes of the two words through a mask.
* `Controller.order`: the channels that may run, most urgent first.
-/

namespace DmaMachine

/-- The priority word, the interrupt word without its top bit, the line, and the latched edge. -/
structure Controller where
  priorityWord : UInt32 := 0x07654321
  /-- Bits 0 to 6 and 15 to 30 of the interrupt word. -/
  interruptWord : UInt32 := 0
  line : Bool := false
  edge : Bool := false
deriving DecidableEq

namespace Controller

/-- The power-on value of the priority word: no channel may run, channel 0 is most urgent. -/
def priorityReset : UInt32 := 0x07654321

/-- Every bit of the priority word but the top one. -/
def priorityBits : UInt32 := 0x7FFFFFFF

/-- The bits of the interrupt word that a write replaces. -/
def settingBits : UInt32 := 0x00FF807F

/-- The bits of the interrupt word that a written 1 clears. -/
def flagBits : UInt32 := 0x7F000000

/-! ### Fields -/

/-- How urgent a channel is; zero is most urgent. -/
def priority (c : Controller) (channel : Nat) : Nat :=
  (c.priorityWord.toNat >>> (4 * channel)) % 8

/-- Whether a channel may run. -/
def enabled (c : Controller) (channel : Nat) : Bool := bit c.priorityWord (4 * channel + 3)

/-- Whether a channel interrupts after every block. -/
def blockInterrupt (c : Controller) (channel : Nat) : Bool :=
  decide (channel < channelCount) && bit c.interruptWord channel

/-- Whether a channel may interrupt. -/
def mayInterrupt (c : Controller) (channel : Nat) : Bool :=
  decide (channel < channelCount) && bit c.interruptWord (16 + channel)

/-- Whether a channel has interrupted. -/
def interrupted (c : Controller) (channel : Nat) : Bool :=
  decide (channel < channelCount) && bit c.interruptWord (24 + channel)

def busError (c : Controller) : Bool := bit c.interruptWord 15

def masterEnable (c : Controller) : Bool := bit c.interruptWord 23

/-- The level that the line has to have. -/
def demanded (c : Controller) : Bool :=
  c.masterEnable &&
    (c.busError || (List.range channelCount).any fun n => c.mayInterrupt n && c.interrupted n)

/-- The channels that may run, most urgent first; of two that are equally urgent, the one with
the higher number comes first. -/
def order (c : Controller) : List Peer :=
  (Peer.all.reverse.filter fun p => c.enabled p.index).mergeSort fun p q =>
    c.priority p.index ≤ c.priority q.index

/-! ### Reading and writing -/

/-- Brings the line to its demanded level; a rise is latched. -/
def settle (c : Controller) : Controller :=
  { c with line := c.demanded, edge := c.edge || (c.demanded && !c.line) }

/-- The interrupt word with the line on top. -/
def readInterrupt (c : Controller) : UInt32 :=
  c.interruptWord ||| (if c.line then 0x80000000 else 0)

def writePriority (v : UInt32) (c : Controller) : Controller :=
  { c with priorityWord := v &&& priorityBits }

/-- Replaces the settings, and clears the flags where `v` has a 1. -/
def writeInterrupt (v : UInt32) (c : Controller) : Controller :=
  settle { c with
    interruptWord := (v &&& settingBits) ||| (c.interruptWord &&& flagBits &&& ~~~v) }

/-- Writes the bits of the priority word where the mask is set. -/
def putPriority (v mask : UInt32) (c : Controller) : Controller :=
  c.writePriority (merge c.priorityWord v mask)

/-- Writes the bits of the interrupt word where the mask is set.  A flag is cleared only where a 1
is written through the mask. -/
def putInterrupt (v mask : UInt32) (c : Controller) : Controller :=
  c.writeInterrupt (merge (c.readInterrupt &&& 0x00FFFFFF) v mask)

/-- Notes that a transfer met a bus error. -/
def signalBusError (c : Controller) : Controller :=
  settle { c with interruptWord := c.interruptWord ||| 0x8000 }

/-- Notes that a channel asks for an interrupt; one that may not interrupt leaves no flag. -/
def request (channel : Nat) (c : Controller) : Controller :=
  settle <| if c.mayInterrupt channel then
    { c with interruptWord := c.interruptWord ||| (1 <<< UInt32.ofNat (24 + channel)) }
  else c

/-- Notes that a block of a channel ended, which may ask for an interrupt. -/
def endBlock (channel : Nat) (c : Controller) : Controller :=
  if c.blockInterrupt channel then c.request channel else c

/-- Whether an edge was latched, and the controller with the latch clear. -/
def takeEdge (c : Controller) : Bool × Controller := (c.edge, { c with edge := false })

/-- The controller whose words read as given, with the line settled and nothing latched. -/
def ofWords (priorityWord interruptWord : UInt32) : Controller :=
  { settle
      { priorityWord := priorityWord &&& priorityBits
        interruptWord := interruptWord &&& (settingBits ||| flagBits) } with
    edge := false }

/-! ### Laws -/

@[simp] theorem line_settle (c : Controller) : c.settle.line = c.demanded := rfl

theorem demanded_settle (c : Controller) : c.settle.demanded = c.demanded := rfl

/-- **The latch of an edge** survives settling, and a rise sets it. -/
theorem edge_settle (c : Controller) :
    c.settle.edge = true ↔ c.edge = true ∨ (c.line = false ∧ c.settle.line = true) := by
  cases h : c.edge <;> cases h' : c.line <;> simp [settle, h, h']

theorem line_writeInterrupt (v : UInt32) (c : Controller) :
    (c.writeInterrupt v).line = (c.writeInterrupt v).demanded := rfl

theorem line_signalBusError (c : Controller) : c.signalBusError.line = c.signalBusError.demanded :=
  rfl

theorem priorityWord_request (n : Nat) (c : Controller) :
    (c.request n).priorityWord = c.priorityWord := by
  rw [request]
  split <;> rfl

theorem priorityWord_endBlock (n : Nat) (c : Controller) :
    (c.endBlock n).priorityWord = c.priorityWord := by
  rw [endBlock]
  split
  · exact priorityWord_request n c
  · rfl

theorem line_request (n : Nat) (c : Controller) : (c.request n).line = (c.request n).demanded :=
  rfl

theorem line_ofWords (p i : UInt32) : (ofWords p i).line = (ofWords p i).demanded := rfl

theorem mem_order (c : Controller) (p : Peer) : p ∈ c.order ↔ c.enabled p.index = true := by
  simp [order, Peer.mem_all]

end Controller

end DmaMachine
