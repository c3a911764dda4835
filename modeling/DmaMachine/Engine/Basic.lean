import DmaMachine.Channel.Transfer
import DmaMachine.Engine.Window

/-!
# The DMA engine

Seven channels and their controller.  The processor sees them as a window of registers; the
peripherals see a request line each; and the machine has the active channels *serviced*, one step
each, most urgent first.

A channel that became active has to be serviced only if the controller enables it.  One that is
active and not enabled keeps until the controller does.

* `Engine.read`, `Engine.write`: the registers.
* `Engine.request`, `Engine.resume`: the other two ways for a channel to become active.
* `Engine.step`, `Engine.service`: one channel's step, and those of all that are due.
-/

namespace DmaMachine

/-- The channels, in order, and the controller. -/
structure Engine where
  channels : Vector Channel channelCount := Vector.ofFn fun i =>
    ((Peer.ofIndex? i).map Channel.initial).getD {}
  controller : Controller := {}

namespace Engine

variable {α β : Type}

def channel (e : Engine) (p : Peer) : Channel :=
  have := p.index_lt
  e.channels[p.index]

def setChannel (p : Peer) (c : Channel) (e : Engine) : Engine :=
  { e with channels := e.channels.set p.index c p.index_lt }

/-- An operation on a channel as one on its engine. -/
@[inline] def onChannel (p : Peer) (op : Op Channel α) : Op Engine α := fun e =>
  match op (e.channel p) with
  | .ok a c => .ok a (e.setChannel p c)
  | .error fault c => .error fault (e.setChannel p c)

/-! ### Registers -/

/-- The contents of the words that nothing changes. -/
def fixedLowWord : UInt32 := 0x7FFAC68B

def fixedHighWord : UInt32 := 0x00FFFFF7

/-- Whether some channel is active and enabled. -/
def due (e : Engine) : Bool :=
  Peer.all.any fun p => (e.channel p).active && e.controller.enabled p.index

/-- The contents of a register. -/
def get (e : Engine) : Register → UInt32
  | .channel p r => (e.channel p).read r
  | .priority => e.controller.priorityWord
  | .interrupt => e.controller.readInterrupt
  | .fixedLow => fixedLowWord
  | .fixedHigh => fixedHighWord

/-- Writes the bits of a register where `mask` is set.  Says whether there is a channel to
service now that was not before. -/
def put (r : Register) (v mask : UInt32) : Op Engine Bool := fun e =>
  match r with
  | .channel p r =>
      match onChannel p (Channel.write p r v mask) e with
      | .ok active e => .ok (active && e.controller.enabled p.index) e
      | .error fault e => .error fault e
  | .priority =>
      let e := { e with controller := e.controller.putPriority v mask }
      .ok e.due e
  | .interrupt => .ok false { e with controller := e.controller.putInterrupt v mask }
  | .fixedLow | .fixedHigh => .ok false e

/-- Reads the register at an offset of the window. -/
def read (offset : UInt32) (e : Engine) : Except Fault UInt32 :=
  match Register.ofOffset offset with
  | .ok r => .ok (e.get r)
  | .error fault => .error fault

/-- Writes the register at an offset of the window. -/
def write (offset v mask : UInt32) : Op Engine Bool := fun e =>
  match Register.ofOffset offset with
  | .ok r => put r v mask e
  | .error fault => .error fault e

/-! ### Becoming active otherwise -/

/-- A request of a peripheral.  Says whether its channel is to be serviced. -/
def request (p : Peer) : Op Engine Bool := fun e =>
  match onChannel p (Channel.request p) e with
  | .ok active e => .ok (active && e.controller.enabled p.index) e
  | .error fault e => .error fault e

/-- Resumes a channel that waits since a given generation.  Says whether it is to be serviced. -/
def resume (p : Peer) (generation : UInt32) : Op Engine Bool := fun e =>
  let c := e.channel p
  if c.generation != generation || !c.running || c.active then .ok false e
  else .ok (e.controller.enabled p.index) (e.setChannel p c.activate)

/-! ### Service -/

variable [Master β]

/-- One step of a channel, whether enabled or not. -/
@[specialize] def step (p : Peer) : Op (Engine × β) Status := fun (⟨channels, controller⟩, bus) =>
  have := p.index_lt
  match Channel.step p ⟨channels[p.index], controller, bus⟩ with
  | .ok status ⟨c, controller, bus⟩ =>
      .ok status (⟨channels.set p.index c p.index_lt, controller⟩, bus)
  | .error fault ⟨c, controller, bus⟩ =>
      .error fault (⟨channels.set p.index c p.index_lt, controller⟩, bus)

/-- A step for each of the given channels that is active when its turn comes. -/
@[specialize] def serviceEach : List Peer → Op (Engine × β) (List (Peer × Status))
  | [] => pure []
  | p :: ps => fun s =>
      if (s.1.channel p).active then
        match step p s with
        | .ok status s =>
            match serviceEach ps s with
            | .ok rest s => .ok ((p, status) :: rest) s
            | .error fault s => .error fault s
        | .error fault s => .error fault s
      else serviceEach ps s

/-- A step for each enabled channel that is active, most urgent first, with what it came to. -/
@[specialize] def service : Op (Engine × β) (List (Peer × Status)) := fun s =>
  serviceEach s.1.controller.order s

/-! ### Laws -/

theorem channel_setChannel (p q : Peer) (c : Channel) (e : Engine) :
    (e.setChannel p c).channel q = if q = p then c else e.channel q := by
  unfold channel setChannel
  by_cases h : q = p
  · subst h; simp
  · have : p.index ≠ q.index := fun he => h (Peer.index_inj he.symm)
    simp [h, this]

theorem setChannel_setChannel (p : Peer) (c d : Channel) (e : Engine) :
    (e.setChannel p c).setChannel p d = e.setChannel p d := by
  simp [setChannel]

@[simp] theorem controller_setChannel (p : Peer) (c : Channel) (e : Engine) :
    (e.setChannel p c).controller = e.controller := rfl

end Engine

end DmaMachine
