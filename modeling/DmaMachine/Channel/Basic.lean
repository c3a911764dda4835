import DmaMachine.Channel.Blocks
import DmaMachine.Channel.Peer

/-!
# A DMA channel

A channel has three registers: the *base address*, the *block word* and the *control word*.
Setting the start bit or the forced-start bit of the control word *arms* a transfer: the base
address and the block word are copied to *shadows*, the counters are loaded, and from then on the
channel is *running*.  While it can move data it is *active* too; a running channel that is not
active waits, for its peripheral, for the end of a window, or for somebody to try again after a
bus error.  Arming a running channel that waits *resumes* it where it stopped, and clearing the
start bit *aborts* it.

Every start, resumption and abort gives the channel a new *generation*, so that a resumption
planned under an older one can be told apart.

* `Channel.refusal?`: what a programming is refused for, if it is.
* `Channel.arm`: starting or resuming; `Channel.write`: the masked write of a register.
* `Channel.request`: a request of the peripheral.
-/

namespace DmaMachine

/-- The bits of an address that a channel stores. -/
def addressMask : UInt32 := 0x00FFFFFF

/-- The bits of an address that a channel accesses words by. -/
def wordAddressMask : UInt32 := 0x00FFFFFC

/-- The state of a channel. -/
structure Channel where
  base : UInt32 := 0
  blocks : Blocks := {}
  control : Control := {}
  shadowBase : UInt32 := 0
  shadowBlocks : Blocks := {}
  /-- Words of the transfer, or of the list node, that are still to move. -/
  wordsLeft : Nat := 0
  blocksLeft : Nat := 0
  /-- The next address to access. -/
  address : UInt32 := 0
  /-- The header of the next list node. -/
  nextNode : UInt32 := 0
  /-- Whether the node being moved ends its list. -/
  lastNode : Bool := false
  /-- List nodes visited. -/
  nodeCount : Nat := 0
  /-- A unit taken from the port that RAM did not accept. -/
  held : Option UInt32 := none
  generation : UInt32 := 0
  running : Bool := false
  active : Bool := false
deriving DecidableEq

namespace Channel

/-- The registers of a channel. -/
inductive Register where
  | base
  | blocks
  | control
deriving DecidableEq

/-- Where a register stands in the channel's part of the register window. -/
def Register.ofOffset? (offset : UInt32) : Option Register :=
  if offset = 0 then some base
  else if offset = 4 then some blocks
  else if offset = 8 then some control
  else none

/-- What the control word becomes when `v` is written.  The ordering table always steps down and
stores few bits besides. -/
def storedControl (p : Peer) (v : UInt32) : Control :=
  if p = .orderingTable then Control.set ⟨v &&& 0x51000000⟩ .decrement true
  else ⟨v &&& Control.storable⟩

/-- A channel at power-on. -/
def initial (p : Peer) : Channel := { control := storedControl p 0 }

/-- A channel at rest with the given registers.  A saved transfer does not go on. -/
def atRest (p : Peer) (base blocks control : UInt32) : Channel where
  base := base &&& addressMask
  blocks := ⟨blocks⟩
  control :=
    storedControl p (control &&& ~~~Control.Flag.startBusy.mask &&& ~~~Control.Flag.forceStart.mask)

/-- The pace of the transfer; an ordering table is built at once, whatever the control word. -/
def mode (p : Peer) (c : Channel) : SyncMode :=
  if p = .orderingTable then .burst else c.control.syncMode

/-! ### Arming -/

/-- The fault of a reserved mode, or of a list on a channel without lists. -/
def modeFault (p : Peer) (c : Channel) : Fault :=
  .channel (.unsupportedSyncMode p.index p.name c.control.syncMode.bits)

/-- The fault of moving data in a direction that the peer does not. -/
def directionFault (p : Peer) (c : Channel) : Fault :=
  .channel (.unsupportedDirection p.index p.name c.control.direction.describe)

/-- What the programming of the channel is refused for. -/
def refusal? (p : Peer) (c : Channel) : Option Fault :=
  if c.mode p = .reserved ∨ (c.mode p = .linkedList ∧ p.walksLists = false) then
    some (c.modeFault p)
  else if p.supports c.control.direction = false ∨
      (c.mode p = .linkedList ∧ c.control.direction = .toRam) then
    some (c.directionFault p)
  else none

/-- The most words that a transfer counts. -/
def maxWords : Nat := 0xFFFFFFFF

/-- Takes the shadows, and loads the counters for a transfer from its beginning. -/
def load (p : Peer) (c : Channel) : Channel :=
  let start := c.base &&& wordAddressMask
  let c := { c with
    shadowBase := c.base, shadowBlocks := c.blocks, address := start
    nodeCount := 0, lastNode := false, held := none }
  match c.mode p with
  | .slice => { c with
      wordsLeft := min (c.blocks.blockSize * c.blocks.blockCount) maxWords
      blocksLeft := c.blocks.blockCount }
  | .linkedList => { c with wordsLeft := 0, blocksLeft := 0, nextNode := start }
  | .burst | .reserved => { c with wordsLeft := c.blocks.wordCount, blocksLeft := 1 }

/-- Makes the channel active in a new generation. -/
def activate (c : Channel) : Channel :=
  { c with
    control := (c.control.set .startBusy true).set .forceStart false
    generation := c.generation + 1, running := true, active := true }

/-- Starts a transfer, or resumes the one that waits.  A start is refused before anything but the
control word has changed. -/
def arm (p : Peer) (resume : Bool) : Op Channel Unit := fun c =>
  if resume then .ok () c.activate
  else
    match c.refusal? p with
    | some fault => .error fault c
    | none => .ok () (c.load p).activate

/-- A request of the peripheral.  Says whether the channel became active. -/
def request (p : Peer) : Op Channel Bool := fun c =>
  if c.active || !c.control.has .startBusy then .ok false c
  else
    match arm p c.running c with
    | .ok () c => .ok true c
    | .error e c => .error e c

/-! ### Registers -/

/-- Gives up the transfer. -/
def abort (c : Channel) : Channel :=
  { c with running := false, active := false, held := none, generation := c.generation + 1 }

/-- Stores a control word and does what it asks for.  Says whether the channel became active. -/
def writeControl (p : Peer) (v : UInt32) : Op Channel Bool := fun c =>
  let old := c.control
  let c := { c with control := storedControl p v }
  let rises (f : Control.Flag) : Bool := c.control.has f && !old.has f
  if c.running && !c.control.has .startBusy then .ok false c.abort
  else if (rises .startBusy || rises .forceStart) && !c.active then
    match arm p c.running c with
    | .ok () c => .ok true c
    | .error e c => .error e c
  else .ok false c

def read (r : Register) (c : Channel) : UInt32 :=
  match r with
  | .base => c.base
  | .blocks => c.blocks.bits
  | .control => c.control.bits

/-- Writes the bits of a register where `mask` is set.  Says whether the channel became
active. -/
def write (p : Peer) (r : Register) (v mask : UInt32) : Op Channel Bool := fun c =>
  match r with
  | .base => .ok false { c with base := merge c.base v mask &&& addressMask }
  | .blocks => .ok false { c with blocks := ⟨merge c.blocks.bits v mask⟩ }
  | .control => writeControl p (merge c.control.bits v mask) c

/-- The fault of an offset without a register. -/
def offsetFault (p : Peer) (offset : UInt32) : Fault :=
  .channel (.invalidRegister p.index offset)

/-- Reads the register at an offset. -/
def readAt (p : Peer) (offset : UInt32) (c : Channel) : Except Fault UInt32 :=
  match Register.ofOffset? offset with
  | some r => .ok (c.read r)
  | none => .error (offsetFault p offset)

/-- Writes the register at an offset. -/
def writeAt (p : Peer) (offset v mask : UInt32) : Op Channel Bool := fun c =>
  match Register.ofOffset? offset with
  | some r => write p r v mask c
  | none => .error (offsetFault p offset) c

/-! ### Laws -/

theorem arm_resume (p : Peer) (c : Channel) : arm p true c = .ok () c.activate := rfl

theorem arm_of_refusal {p : Peer} {c : Channel} {fault : Fault}
    (h : c.refusal? p = some fault) : arm p false c = .error fault c := by
  simp [arm, h]

theorem arm_of_accepted {p : Peer} {c : Channel} (h : c.refusal? p = none) :
    arm p false c = .ok () (c.load p).activate := by
  simp [arm, h]

/-- An active channel shows its start bit. -/
@[simp] theorem startBusy_activate (c : Channel) :
    c.activate.control.has .startBusy = true := by simp [activate]

@[simp] theorem forceStart_activate (c : Channel) :
    c.activate.control.has .forceStart = false := by simp [activate]

end Channel

end DmaMachine
