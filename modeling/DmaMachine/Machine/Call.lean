import DmaMachine.Machine.Image

/-!
# Calls on the machine

What a client can have the machine do, as data, and what it comes to.  An action that a client
schedules fires as a script of such calls (`Handler`), so actions may call anything: schedule
themselves again, run the machine further, reset it.

Only running fires events.  To *run* is to advance the timeline by the processor's cycles and then,
as long as the engine took cycles from the processor, by those as well.

`Machine.perform` carries out a call under a bound, which falls by one with every level of
nesting and also limits the events of each advance.
-/

namespace DmaMachine

namespace Machine

variable {δ α υ : Type}

inductive Call (δ α υ : Type) where
  /-- An access of the processor. -/
  | read (w : Width) (a : UInt32)
  | write (w : Width) (a v : UInt32)
  | writeMasked (a v mask : UInt32)
  /-- A request of a peripheral. -/
  | request (p : Peer)
  /-- Takes the latched edge of the interrupt line. -/
  | takeEdge
  | run (cycles : Nat)
  /-- Runs up to the next event, and gives the cycles that it took. -/
  | runToNext
  | schedule (name : String) (delay : Nat) (action : α)
  | deschedule (id : Nat)
  | schedulePeriodic (name : String) (period : Nat) (action : α)
  | cancelPeriodic (h : PeriodicHandle)
  | reset
  | capture (label : String) (taken : Timestamp)
  | restore (s : Snapshot)
  /-- A client's hand on the bus. -/
  | bus (c : Bus.Call δ)
  /-- Puts what is seen of the machine into the client's memory. -/
  | observe (look : Machine δ α υ → υ)

def Call.Answer : Call δ α υ → Type
  | .read .. => UInt32
  | .write .. | .writeMasked .. | .run _ | .reset | .restore _ => Unit
  | .request _ | .takeEdge | .deschedule _ | .cancelPeriodic _ => Bool
  | .runToNext | .schedule .. => Nat
  | .schedulePeriodic .. => PeriodicHandle
  | .capture .. => Snapshot
  | .bus c => c.Answer
  | .observe _ => υ

/-- The calls on a machine. -/
def interface (δ α υ : Type) : Interface := ⟨Call δ α υ, Call.Answer⟩

/-- The scripts of a client's actions, given how late an action fires. -/
abbrev Handler (δ α υ : Type) := α → Nat → Script (interface δ α υ) Unit

/-- Takes the latched edge of the interrupt line. -/
def takeEdge : Op (Machine δ α υ) Bool := onEngine fun e =>
  let (edge, controller) := e.controller.takeEdge
  .ok edge { e with controller }

/-! ### Firing -/

/-- Fires a registration for each of its deadlines that has passed, `n` more after the first, and
makes its next event.  A registration that ends meanwhile does not fire again. -/
def catchUp (execute : Nat → Run (Machine δ α υ) Unit) (h : PeriodicHandle) (name : String)
    (period : Nat) (action : α) : Nat → Nat → Run (Machine δ α υ) Unit
  | n, late => fun m =>
      match execute late m with
      | none => none
      | some (.error e, m) => some (.error e, m)
      | some (.ok (), m) =>
          if m.isRegistered h then
            match n with
            | 0 => (armPeriodic h name (period - late) period action).toRun m
            | n + 1 => catchUp execute h name period action n (late - period) m
          else some (.ok (), m)

/-- Does what an event of the machine is for; `execute` carries out a client's action. -/
def fire [Board δ] (execute : α → Nat → Run (Machine δ α υ) Unit) :
    Task α → Nat → Run (Machine δ α υ) Unit
  | .service, _ => serviceChannels.toRun
  | .resume p generation, _ => (resumeChannel p generation).toRun
  | .periodic h name period action, late =>
      catchUp (execute action) h name period action (late / period) late
  | .client action, late => execute action late

/-! ### Running -/

/-- Counts cycles that the engine took, if it took any.  The count may wrap around. -/
def countStolen (s : Stats) : Nat → Stats
  | 0 => s
  | n + 1 => { s with dmaCycles := Timeline.wrap (s.dmaCycles + (n + 1)) }

@[simp] theorem countStolen_dmaInterrupts (s : Stats) (n : Nat) :
    (countStolen s n).dmaInterrupts = s.dmaInterrupts := by
  cases n <;> rfl

/-- Takes the cycles that the engine took from the processor, and counts them. -/
def takeStolen : Machine δ α υ → Nat × Machine δ α υ :=
  fun ⟨timeline, bus, engine, service, resumes, slots, stats, memory⟩ =>
    let (stolen, bus) := bus.takeCycles
    (stolen, ⟨timeline, bus, engine, service, resumes, slots, countStolen stats stolen, memory⟩)

/-- Advances by the cycles that the engine took, until it has taken none. -/
def drain (fire : Task α → Nat → Run (Machine δ α υ) Unit) (bound : Nat) :
    Nat → Run (Machine δ α υ) Unit
  | 0 => Run.outOfBound
  | n + 1 => fun m =>
      match takeStolen m with
      | (0, m) => some (.ok (), m)
      | (stolen + 1, m) =>
          match Host.advance fire bound (stolen + 1) m with
          | none => none
          | some (.error e, m) => some (.error e, m)
          | some (.ok (), m) => drain fire bound n m

/-- Runs the processor for some cycles. -/
def run (fire : Task α → Nat → Run (Machine δ α υ) Unit) (bound cycles : Nat) :
    Run (Machine δ α υ) Unit := fun m =>
  match Host.advance fire bound cycles m with
  | none => none
  | some (.error e, m) => some (.error e, m)
  | some (.ok (), m) => drain fire bound bound m

/-- Runs up to the next event. -/
def runToNext (fire : Task α → Nat → Run (Machine δ α υ) Unit) (bound : Nat) :
    Run (Machine δ α υ) Nat := fun m =>
  match m.timeline.untilNext? with
  | none => some (.ok 0, m)
  | some cycles =>
      match run fire bound cycles m with
      | none => none
      | some (.error e, m) => some (.error e, m)
      | some (.ok (), m) => some (.ok cycles, m)

/-- Carries out a call, with a bound on the nesting of runs and on the events of each. -/
def perform [Board δ] (handler : Handler δ α υ) :
    Nat → (c : Call δ α υ) → Run (Machine δ α υ) c.Answer
  | _, .read w a => (Machine.read w a).toRun
  | _, .write w a v => (Machine.write w a v).toRun
  | _, .writeMasked a v mask => (Machine.writeMasked a v mask).toRun
  | _, .request p => (Machine.request p).toRun
  | _, .takeEdge => takeEdge.toRun
  | _, .schedule name delay action => (scheduleTask name delay (.client action)).toRun
  | _, .deschedule id => fun m =>
      let (found, m) := Host.deschedule id m
      some (.ok found, m)
  | _, .schedulePeriodic name period action => (Machine.schedulePeriodic name period action).toRun
  | _, .cancelPeriodic h => fun m =>
      let (inForce, m) := m.cancelPeriodic h
      some (.ok inForce, m)
  | _, .reset => fun m => some (.ok (), m.reset)
  | _, .capture label taken => fun m => some (.ok (m.capture label taken), m)
  | _, .restore s => (Machine.restore s).toRun
  | _, .bus c => (onBus (Bus.perform c)).toRun
  | _, .observe look => fun m =>
      let memory := look m
      some (.ok memory, { m with memory })
  | 0, .run _ => Run.outOfBound
  | bound + 1, .run cycles =>
      run (fire fun action late => (handler action late).exec (perform handler bound))
        (bound + 1) cycles
  | 0, .runToNext => Run.outOfBound
  | bound + 1, .runToNext =>
      runToNext (fire fun action late => (handler action late).exec (perform handler bound))
        (bound + 1)

end Machine

end DmaMachine
