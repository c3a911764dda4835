import DmaMachine.Channel.Basic
import DmaMachine.Controller

/-!
# Moving data

A *step* lets an active channel move data until its transfer completes or has to wait.  It acts on
a *stage*: the channel, the controller that hears of the end and of bus errors, and the bus.

A *unit* is one word between RAM and the peer's port.  Every unit costs one cycle of the bus, and
so do a list header and an entry of an ordering table.  When the bus raised its exception flag the
unit is not retired: the channel stops, the controller notes a bus error, and the next attempt
begins with the same unit.  A unit that was taken from the port already is held meanwhile, and not
taken again.

* `moveUnit`, `moveUnits`: one unit, and several.
* `stepBurst`, `stepSlice`, `stepList`, `stepTable`: the four kinds of step.
* `step`: the step of a channel, by the mode that its control word names now.
-/

namespace DmaMachine

/-- A channel at work, with the controller and the bus. -/
structure Stage (β : Type) where
  channel : Channel
  controller : Controller
  bus : β

/-- What a step came to. -/
inductive Status where
  /-- The channel was not active. -/
  | idle
  /-- The transfer is over. -/
  | completed
  /-- A block is over, and the next one waits for the peripheral. -/
  | blockDone
  /-- A window is used up; the channel may resume after some cycles. -/
  | chopped (resumeIn : Nat)
  /-- A bus error stopped the channel. -/
  | faulted
deriving DecidableEq

namespace Stage

variable {β α : Type}

/-- An operation on the bus of a stage. -/
@[inline] def onBus (op : Op β α) : Op (Stage β) α := fun ⟨channel, controller, bus⟩ =>
  match op bus with
  | .ok a bus => .ok a ⟨channel, controller, bus⟩
  | .error e bus => .error e ⟨channel, controller, bus⟩

/-- A change of the channel of a stage. -/
@[inline] def onChannel (f : Channel → Channel) : Op (Stage β) Unit :=
  fun ⟨channel, controller, bus⟩ => .ok () ⟨f channel, controller, bus⟩

/-- A change of the controller of a stage. -/
@[inline] def onController (f : Controller → Controller) : Op (Stage β) Unit :=
  fun ⟨channel, controller, bus⟩ => .ok () ⟨channel, f controller, bus⟩

@[inline] def channelOf (f : Channel → α) : Op (Stage β) α := fun s => .ok (f s.channel) s

variable [Master β]

/-- Whether the exception flag of the bus is raised. -/
@[inline] def exception : Op (Stage β) Bool := fun s => .ok (Master.exception s.bus) s

/-- Charges a cycle and lowers the exception flag; says whether the flag was raised. -/
@[inline] def charge : Op (Stage β) Bool := fun ⟨channel, controller, bus⟩ =>
  let (raised, bus) := Master.takeException (Master.charge 1 bus)
  .ok raised ⟨channel, controller, bus⟩

end Stage

namespace Channel

variable {β : Type} [Master β]

/-- The address after one unit. -/
def nextAddress (p : Peer) (c : Channel) : UInt32 :=
  (if c.control.has .decrement && c.mode p != .linkedList then c.address - 4
    else c.address + 4) &&& addressMask

/-- The channel after a unit was retired. -/
def retire (p : Peer) (c : Channel) : Channel :=
  { c with address := c.nextAddress p, wordsLeft := c.wordsLeft - 1 }

/-- The channel waiting for somebody to make it active again. -/
def halted (c : Channel) : Channel := { c with active := false }

/-- Stops the channel and notes a bus error. -/
@[inline] def stop : Op (Stage β) Unit := do
  Stage.onController Controller.signalBusError
  Stage.onChannel halted

/-- Takes a unit from RAM to the port. -/
@[specialize] def unitFromRam (port : DataPort) (address : UInt32) : Op (Stage β) Bool := do
  let v ← Stage.onBus (Master.read .word address)
  if ← Stage.exception then return false
  Stage.onBus (port.write v)
  return !(← Stage.exception)

/-- The unit to store: the held one if there is one, else one out of the port. -/
@[specialize] def takeUnit (port : DataPort) : Op (Stage β) (Option UInt32) := do
  match ← Stage.channelOf (·.held) with
  | some v =>
      Stage.onChannel fun c => { c with held := none }
      return some v
  | none =>
      let v ← Stage.onBus port.read
      if ← Stage.exception then return none else return some v

/-- Stores a unit, or holds it for the next attempt. -/
@[specialize] def storeUnit (address v : UInt32) : Op (Stage β) Bool := do
  Stage.onBus (Master.write .word address v)
  if ← Stage.exception then
    Stage.onChannel fun c => { c with held := some v }
    return false
  else return true

/-- Takes a unit to RAM. -/
@[specialize] def unitToRam (port : DataPort) (address : UInt32) : Op (Stage β) Bool := do
  match ← takeUnit port with
  | none => return false
  | some v => storeUnit address v

/-- Moves one unit at the channel's address, and says whether it got through. -/
@[specialize] def transferUnit (p : Peer) : Op (Stage β) Bool := do
  let c ← Stage.channelOf fun c => (c.address, c.control.direction)
  match p.port? with
  | none => throw (.channel (.noDataPort p.index p.name))
  | some port =>
      match c.2 with
      | .fromRam => unitFromRam port c.1
      | .toRam => unitToRam port c.1

/-- Moves one unit and retires it; says whether it was retired. -/
@[specialize] def moveUnit (p : Peer) : Op (Stage β) Bool := do
  let through ← transferUnit p
  let raised ← Stage.charge
  if raised || !through then
    stop
    return false
  else
    Stage.onChannel (retire p)
    return true

/-- Moves up to `n` units; says whether all of them were retired. -/
@[specialize] def moveUnits (p : Peer) : Nat → Op (Stage β) Bool
  | 0 => pure true
  | n + 1 => do
      if ← moveUnit p then moveUnits p n else return false

/-- The channel after its transfer. -/
def completed (p : Peer) (c : Channel) : Channel :=
  { c with
    base := if c.mode p = .slice then c.address else c.base
    running := false, active := false, control := c.control.set .startBusy false }

/-- Ends the transfer and asks for an interrupt. -/
@[specialize] def complete (p : Peer) : Op (Stage β) Unit := do
  Stage.onChannel (completed p)
  Stage.onController (Controller.request p.index)

/-- The channel after a block that is not the last one. -/
def blockEnded (c : Channel) : Channel :=
  { c with
    active := false
    base := c.address, blocks := c.blocks.withBlockCount (UInt32.ofNat c.blocksLeft)
    shadowBase := c.address
    shadowBlocks := c.shadowBlocks.withBlockCount (UInt32.ofNat c.blocksLeft) }

/-- Ends a block, and asks for an interrupt if blocks do. -/
@[specialize] def endBlock (p : Peer) : Op (Stage β) Unit := do
  Stage.onChannel blockEnded
  Stage.onController fun k =>
    k.endBlock p.index

/-! ### The four kinds of step -/

/-- All words, or with chopping those of one window. -/
@[specialize] def stepBurst (p : Peer) : Op (Stage β) Status := do
  let (words, control) ← Stage.channelOf fun c => (c.wordsLeft, c.control)
  let n := if control.has .chopping then min control.busWindow words else words
  if ← moveUnits p n then
    if n = words then
      complete p
      return .completed
    else
      Stage.onChannel halted
      return .chopped control.cpuWindow
  else return .faulted

def countBlock (c : Channel) : Channel := { c with blocksLeft := c.blocksLeft - 1 }

/-- The words of one block. -/
@[specialize] def stepSlice (p : Peer) : Op (Stage β) Status := do
  let n ← Stage.channelOf fun c => c.wordsLeft - (c.blocksLeft - 1) * c.shadowBlocks.blockSize
  if ← moveUnits p n then
    Stage.onChannel countBlock
    if (← Stage.channelOf (·.blocksLeft)) = 0 then
      complete p
      return .completed
    else
      endBlock p
      return .blockDone
  else return .faulted

/-- The most nodes that a list may have. -/
def nodeLimit : Nat := 4096

/-- What a header says: words of the node, end mark, next node. -/
def enterNode (header : UInt32) (c : Channel) : Channel :=
  { c with
    nodeCount := c.nodeCount + 1
    wordsLeft := (header >>> 24).toNat
    lastNode := bit header 23
    address := (c.nextNode + 4) &&& addressMask
    nextNode := header &&& wordAddressMask
    base := header &&& addressMask }

/-- Reads the header of the next node and enters the node; says whether that went through. -/
@[specialize] def visitNode : Op (Stage β) Bool := do
  let header ← Stage.onBus (Master.read .word (← Stage.channelOf (·.nextNode)))
  if ← Stage.charge then
    stop
    return false
  else
    Stage.onChannel (enterNode header)
    return true

/-- The rest of a list of which `n` more nodes may be visited: the words of the node at hand,
then the header of the next one, and so on to the end mark. -/
@[specialize] def walk (p : Peer) (n : Nat) : Op (Stage β) Status := do
  if ← moveUnits p (← Stage.channelOf (·.wordsLeft)) then
    if ← Stage.channelOf (·.lastNode) then
      complete p
      return .completed
    else
      match n with
      | 0 =>
          throw (.channel (.linkedListOverflow p.index nodeLimit
            (← Stage.channelOf (·.nextNode))))
      | n + 1 => if ← visitNode then walk p n else return .faulted
  else return .faulted

/-- A linked list from the node at hand on. -/
@[specialize] def stepList (p : Peer) : Op (Stage β) Status := do
  walk p (nodeLimit - (← Stage.channelOf (·.nodeCount)))

/-- The address one word below. -/
def below (a : UInt32) : UInt32 := (a - 4) &&& addressMask

/-- The end mark of an ordering table. -/
def endMark : UInt32 := 0x00FFFFFF

/-- Writes the entry at hand of an ordering table, the one above `n` more; says whether that went
through. -/
@[specialize] def writeEntry (n : Nat) : Op (Stage β) Bool := do
  let a ← Stage.channelOf (·.address)
  Stage.onBus (Master.write .word a (if n = 0 then endMark else below a))
  if ← Stage.charge then
    stop
    return false
  else
    Stage.onChannel fun c => { c with address := below c.address, wordsLeft := n }
    return true

/-- The last `n` entries of an ordering table, downwards; each holds the address of the one
below, and the lowest the end mark. -/
@[specialize] def fillTable (p : Peer) : Nat → Op (Stage β) Status
  | 0 => do
      complete p
      return .completed
  | n + 1 => do
      if ← writeEntry n then fillTable p n else return .faulted

/-- An ordering table from the entry at hand on. -/
@[specialize] def stepTable (p : Peer) : Op (Stage β) Status := do
  fillTable p (← Stage.channelOf (·.wordsLeft))

/-- One step of a channel. -/
@[specialize] def step (p : Peer) : Op (Stage β) Status := do
  if !(← Stage.channelOf (·.active)) then return .idle
  else if p = .orderingTable then stepTable p
  else
    match ← Stage.channelOf (·.control.syncMode) with
    | .burst => stepBurst p
    | .slice => stepSlice p
    | .linkedList => stepList p
    | .reserved => throw (← Stage.channelOf (·.modeFault p))

/-- Ends a transfer or a block from outside a step. -/
@[specialize] def finish (p : Peer) (last : Bool) : Op (Stage β) Unit :=
  if last then complete p else endBlock p

end Channel

end DmaMachine
