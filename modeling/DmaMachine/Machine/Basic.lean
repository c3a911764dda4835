import DmaMachine.Bus.Call
import DmaMachine.Engine.Basic
import DmaMachine.Timeline.Advance

/-!
# The machine

A *machine* is a timeline, a bus and a DMA engine that work together.  The timeline's tasks are of
four kinds: a service pass of the engine, the resumption of a chopped channel, one firing of a
periodic event, and a client's action.

The processor's accesses go to the bus, but for those into the register window of the engine.  A
register write that leaves a channel to be serviced makes a *service event* at the current cycle;
there is at most one, and the machine remembers its identifier.  A service pass steps the channels
and keeps the statistics; for a channel that yielded it makes a *resume event*, tied to the
channel's generation, of which there is at most one for each channel.

A *periodic event* is registered in a slot.  The slot remembers the pending event of the
registration, and a generation by which a handle of a former owner is told from the present one's.

* `Machine.read`, `Machine.write`, `Machine.writeMasked`: the processor's accesses.
* `Machine.serviceChannels`: a service pass with its bookkeeping.
* `Machine.schedulePeriodic`, `Machine.cancelPeriodic`: periodic events.
-/

namespace DmaMachine

/-- What a client holds of a periodic event. -/
structure PeriodicHandle where
  slot : Nat
  generation : UInt32
deriving DecidableEq

/-- A slot for a periodic event, with the identifier of its pending event while it has an
owner. -/
structure PeriodicSlot where
  generation : UInt32 := 0
  event : Option Nat := none
deriving DecidableEq

/-- What an event of the machine does. -/
inductive Task (α : Type) where
  | service
  | resume (p : Peer) (generation : UInt32)
  | periodic (handle : PeriodicHandle) (name : String) (period : Nat) (action : α)
  | client (action : α)

/-- What the machine has done since it was reset. -/
structure Stats where
  /-- Cycles that the engine took from the processor. -/
  dmaCycles : Nat := 0
  transfersCompleted : Nat := 0
  blocksCompleted : Nat := 0
  choppedWindows : Nat := 0
  busFaults : Nat := 0
  /-- Rises of the interrupt line during service passes. -/
  dmaInterrupts : Nat := 0
deriving DecidableEq

/-- The state of a machine with board `δ`, whose client has actions `α` and a memory `υ`. -/
structure Machine (δ α υ : Type) where
  timeline : Timeline (Task α) := {}
  bus : Bus δ
  engine : Engine := {}
  serviceEvent : Option Nat := none
  resumeEvents : Vector (Option Nat) channelCount := Vector.replicate channelCount none
  slots : Array PeriodicSlot := #[]
  stats : Stats := {}
  memory : υ

namespace Machine

variable {δ α υ β : Type}

/-- A machine at power-on. -/
def initial (board : δ) (memory : υ) : Machine δ α υ := { bus := { board }, memory }

instance : Host (Machine δ α υ) (Task α) where
  timeline m := m.timeline
  setTimeline t m := { m with timeline := t }
  timeline_setTimeline _ _ := rfl
  setTimeline_timeline _ := rfl
  setTimeline_setTimeline _ _ _ := rfl

/-- An operation on the bus as one on the machine. -/
@[inline] def onBus (op : Op (Bus δ) β) : Op (Machine δ α υ) β :=
  fun ⟨timeline, bus, engine, service, resumes, slots, stats, memory⟩ =>
    match op bus with
    | .ok b bus => .ok b ⟨timeline, bus, engine, service, resumes, slots, stats, memory⟩
    | .error e bus => .error e ⟨timeline, bus, engine, service, resumes, slots, stats, memory⟩

/-- An operation on the engine as one on the machine. -/
@[inline] def onEngine (op : Op Engine β) : Op (Machine δ α υ) β := fun m =>
  match op m.engine with
  | .ok b engine => .ok b { m with engine }
  | .error e engine => .error e { m with engine }

/-- Everything at power-on but the identifiers, which go on, the board and the client's
memory. -/
def reset (m : Machine δ α υ) : Machine δ α υ where
  timeline := m.timeline.reset
  bus := m.bus.reset
  memory := m.memory

/-! ### Service events -/

/-- Makes an event with an engine's task. -/
def scheduleTask (name : String) (delay : Nat) (task : Task α) : Op (Machine δ α υ) Nat :=
  Host.onTimeline (Timeline.schedule name delay task)

/-- Whether the remembered service event is pending. -/
def servicePending (m : Machine δ α υ) : Bool :=
  match m.serviceEvent with
  | none => false
  | some id => m.timeline.isScheduled id

/-- Sees to it that a service event is pending. -/
def requestService : Op (Machine δ α υ) Unit := fun m =>
  if m.servicePending then .ok () m
  else
    match scheduleTask "DMA" 0 .service m with
    | .ok id m => .ok () { m with serviceEvent := some id }
    | .error e m => .error e m

/-- Gives up the resume event of a channel, if there is one. -/
def dropResume (p : Peer) (m : Machine δ α υ) : Machine δ α υ :=
  have := p.index_lt
  let m :=
    match m.resumeEvents[p.index] with
    | none => m
    | some stale => (Host.deschedule stale m).2
  { m with resumeEvents := m.resumeEvents.set p.index none p.index_lt }

/-- Makes the resume event of a channel that yielded, in place of an older one. -/
def scheduleResume (p : Peer) (delay : Nat) : Op (Machine δ α υ) Unit := fun m =>
  let m := m.dropResume p
  match scheduleTask "DMA resume" delay (.resume p (m.engine.channel p).generation) m with
  | .ok id m => .ok () { m with resumeEvents := m.resumeEvents.set p.index (some id) p.index_lt }
  | .error e m => .error e m

/-- Keeps the statistics of a step, and plans what it asks for. -/
def noteOutcome (p : Peer) : Status → Op (Machine δ α υ) Unit
  | .idle => fun m => .ok () m
  | .completed => fun m =>
      .ok () { m with
        stats := { m.stats with transfersCompleted := m.stats.transfersCompleted + 1 } }
  | .blockDone => fun m =>
      .ok () { m with stats := { m.stats with blocksCompleted := m.stats.blocksCompleted + 1 } }
  | .faulted => fun m =>
      .ok () { m with stats := { m.stats with busFaults := m.stats.busFaults + 1 } }
  | .chopped resumeIn => fun m =>
      scheduleResume p resumeIn { m with
        stats := { m.stats with choppedWindows := m.stats.choppedWindows + 1 } }

def noteOutcomes : List (Peer × Status) → Op (Machine δ α υ) Unit
  | [] => pure ()
  | (p, status) :: rest => do
      noteOutcome p status
      noteOutcomes rest

/-- Counts a rise of the interrupt line above a former level. -/
def noteRise (before : Bool) (m : Machine δ α υ) : Machine δ α υ :=
  if !before && m.engine.controller.line then
    { m with stats := { m.stats with dmaInterrupts := m.stats.dmaInterrupts + 1 } }
  else m

/-- A service pass of the engine, with its bookkeeping. -/
def serviceChannels [Board δ] : Op (Machine δ α υ) Unit :=
  fun ⟨timeline, bus, engine, _, resumes, slots, stats, memory⟩ =>
    let before := engine.controller.line
    match Engine.service (engine, bus) with
    | .error e (engine, bus) =>
        .error e ⟨timeline, bus, engine, none, resumes, slots, stats, memory⟩
    | .ok outcomes (engine, bus) =>
        match noteOutcomes outcomes
            ⟨timeline, bus, engine, none, resumes, slots, stats, memory⟩ with
        | .error e m => .error e m
        | .ok () m => .ok () (m.noteRise before)

/-- Resumes a channel that has waited since a given generation. -/
def resumeChannel (p : Peer) (generation : UInt32) : Op (Machine δ α υ) Unit := do
  modify fun m => { m with resumeEvents := m.resumeEvents.set p.index none p.index_lt }
  if ← onEngine (Engine.resume p generation) then requestService

/-- A request of a peripheral.  Says whether its channel is to be serviced. -/
def request (p : Peer) : Op (Machine δ α υ) Bool := do
  if ← onEngine (Engine.request p) then
    requestService
    return true
  else return false

/-! ### The processor's accesses -/

/-- Reads `w` as the processor does: a narrow read of a register is a lane of it. -/
def read [Board δ] (w : Width) (a : UInt32) : Op (Machine δ α υ) UInt32 := fun m =>
  let p := physical a
  if inWindow p then
    let offset := p - windowStart
    match m.engine.read (if w = .word then offset else wordBase offset) with
    | .ok v => .ok (w.lane p v) m
    | .error e => .error e m
  else onBus (Bus.read w a) m

/-- Writes the masked bits of a register of the engine. -/
def writeRegister (offset v mask : UInt32) : Op (Machine δ α υ) Unit := do
  if ← onEngine (Engine.write offset v mask) then requestService

/-- Writes the masked bits of the word at `a` on the bus, byte by byte from lane `lane` on: a byte
that is not wholly masked keeps its other bits, and one that is not masked is left alone. -/
def writeLanes [Board δ] (a v mask : UInt32) : List UInt32 → Op (Machine δ α υ) Unit
  | [] => pure ()
  | lane :: lanes => do
      let laneMask := (mask >>> (8 * lane)) &&& 0xFF
      let byte := (v >>> (8 * lane)) &&& 0xFF
      if laneMask = 0 then pure ()
      else if laneMask = 0xFF then onBus (Bus.write .byte (a + lane) byte)
      else
        let old ← onBus (Bus.read .byte (a + lane))
        onBus (Bus.write .byte (a + lane) (merge old byte laneMask))
      writeLanes a v mask lanes

/-- Writes the masked bits of the word at `a`.  Registers of the engine take the mask as it is;
elsewhere whole words and half words are single accesses, and other masks go byte by byte. -/
def writeMasked [Board δ] (a v mask : UInt32) : Op (Machine δ α υ) Unit :=
  let p := physical a
  if inWindow p then writeRegister (p - windowStart) v mask
  else if mask = 0xFFFFFFFF then onBus (Bus.write .word a v)
  else if mask = 0x0000FFFF then onBus (Bus.write .half a (v &&& 0xFFFF))
  else if mask = 0xFFFF0000 then onBus (Bus.write .half (a + 2) (v >>> 16))
  else writeLanes a v mask [0, 1, 2, 3]

/-- Writes `w` as the processor does: a narrow write of a register is a masked one. -/
def write [Board δ] (w : Width) (a v : UInt32) : Op (Machine δ α υ) Unit :=
  let p := physical a
  if w = .word then writeMasked a v 0xFFFFFFFF
  else if inWindow p then
    writeMasked (wordBase a) ((v &&& w.mask) <<< w.shift p) (w.mask <<< w.shift p)
  else onBus (Bus.write w a v)

/-! ### Periodic events -/

/-- Whether a handle's registration is still in force. -/
def isRegistered (m : Machine δ α υ) (h : PeriodicHandle) : Bool :=
  match m.slots[h.slot]? with
  | none => false
  | some slot => slot.generation == h.generation && slot.event.isSome

/-- Makes the next event of a registration. -/
def armPeriodic (h : PeriodicHandle) (name : String) (delay period : Nat) (action : α) :
    Op (Machine δ α υ) Unit := fun m =>
  match scheduleTask name delay (.periodic h name period action) m with
  | .error e m => .error e m
  | .ok id m =>
      .ok () { m with
        slots := m.slots.modify h.slot fun slot =>
          if slot.generation = h.generation then { slot with event := some id } else slot }

/-- Where the next registration goes: the first slot without an owner, or a new one. -/
def freeSlot (m : Machine δ α υ) : Nat :=
  (m.slots.findIdx? (·.event.isNone)).getD m.slots.size

/-- Has an action run every `period` cycles, the first time after one period. -/
def schedulePeriodic (name : String) (period : Nat) (action : α) :
    Op (Machine δ α υ) PeriodicHandle := fun m =>
  if period = 0 then .error (.settings (.zeroPeriod name)) m
  else
    let slot := m.freeSlot
    let slots := if slot < m.slots.size then m.slots else m.slots.push {}
    let generation := (slots[slot]?.getD {}).generation + 1
    let handle := ⟨slot, generation⟩
    let m := { m with slots := slots.modify slot fun s => { s with generation } }
    match armPeriodic handle name period period action m with
    | .ok () m => .ok handle m
    | .error e m => .error e m

/-- Ends a registration.  Says whether it was in force. -/
def cancelPeriodic (h : PeriodicHandle) (m : Machine δ α υ) : Bool × Machine δ α υ :=
  match m.slots[h.slot]? with
  | none => (false, m)
  | some slot =>
      if slot.generation = h.generation then
        match slot.event with
        | none => (false, m)
        | some id =>
            let m := { m with
              slots := m.slots.modify h.slot fun slot => { slot with event := none } }
            (true, (Host.deschedule id m).2)
      else (false, m)

end Machine

end DmaMachine
