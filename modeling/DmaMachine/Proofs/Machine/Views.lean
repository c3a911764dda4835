import DmaMachine.Proofs.Machine.Journal
import DmaMachine.Proofs.Machine.Mirrors

/-!
# What is seen of a machine

The *view* of a machine is what its client and its devices can learn of it: registers, memory and
board, the interrupt line, the clock, and the pending events with their identifiers.

Calls on two machines *correspond* when they are the same but for the actions and the handles in
them, which the one machine's rendering takes to the other's.  The answers to them correspond when
they are the same, or the handles of the same registration.

* `Mirrors.view`: **mirrored machines have the same view.**
* `Call.Corresponds`, `Call.Answers`, `Item.Mirrors`: calls, answers and journals that correspond.
-/

namespace DmaMachine

namespace Machine

variable {δ α α' υ : Type}

/-- What can be seen of a machine. -/
structure View (δ υ : Type) where
  /-- The clock, the next identifier, and the pending events, whose tasks are hidden. -/
  timeline : Timeline Unit
  ram : Ram
  board : δ
  exception : Bool
  pendingCycles : Nat
  register : Register → UInt32
  line : Bool
  edge : Bool
  running : Peer → Bool
  active : Peer → Bool
  memory : υ

def view (m : Machine δ α υ) : View δ υ where
  timeline := m.timeline.map fun _ => ()
  ram := m.bus.ram
  board := m.bus.board
  exception := m.bus.exception
  pendingCycles := m.bus.pendingCycles
  register := m.engine.get
  line := m.engine.controller.line
  edge := m.engine.controller.edge
  running p := (m.engine.channel p).running
  active p := (m.engine.channel p).active
  memory := m.memory

section

variable {o : Rendering α α'} {m : Machine δ α υ} {m' : Machine δ α' υ}

/-- **Mirrored machines have the same view.** -/
theorem Mirrors.view (h : Mirrors o m m') : m'.view = m.view := by
  obtain ⟨last, hb⟩ := h.bus
  have ht : (m.timeline.map o.task).map (fun _ => ()) = m.timeline.map fun _ => () := by
    simp only [Timeline.map, List.map_map]
    rfl
  have hg : m'.engine.get = m.engine.get := funext h.engine.get
  simp only [Machine.view, h.timeline, ht, hb, hg, h.engine.controller, h.memory,
    (h.engine.channel _).running, (h.engine.channel _).active]

/-- Snapshots of mirrored machines are the same. -/
theorem Mirrors.capture (h : Mirrors o m m') (label : String) (taken : Timestamp) :
    m'.capture label taken = m.capture label taken := by
  obtain ⟨last, hb⟩ := h.bus
  have hc : ∀ p, channelRecord p (m'.engine.channel p) = channelRecord p (m.engine.channel p) :=
    fun p => by
      have hp := h.engine.channel p
      rw [channelRecord, channelRecord, hp.base, hp.blocks, hp.control]
  simp only [Machine.capture, hc, h.timeline, Timeline.map, hb, h.engine.controller]

end

/-! ### Calls -/

/-- The calls are the same but for what `o` renders: a client's actions, and handles.  What is
observed is the view, and no call clears the machines. -/
inductive Call.Corresponds (o : Rendering α α') : Call δ α υ → Call δ α' υ → Prop where
  | read (w : Width) (a : UInt32) : Corresponds o (.read w a) (.read w a)
  | write (w : Width) (a v : UInt32) : Corresponds o (.write w a v) (.write w a v)
  | writeMasked (a v mask : UInt32) : Corresponds o (.writeMasked a v mask) (.writeMasked a v mask)
  | request (p : Peer) : Corresponds o (.request p) (.request p)
  | takeEdge : Corresponds o .takeEdge .takeEdge
  | run (cycles : Nat) : Corresponds o (.run cycles) (.run cycles)
  | runToNext : Corresponds o .runToNext .runToNext
  | schedule (name : String) (delay : Nat) (action : α) :
      Corresponds o (.schedule name delay action) (.schedule name delay (o.action action))
  | deschedule (id : Nat) : Corresponds o (.deschedule id) (.deschedule id)
  | schedulePeriodic (name : String) (period : Nat) (action : α) :
      Corresponds o (.schedulePeriodic name period action)
        (.schedulePeriodic name period (o.action action))
  | cancelPeriodic (h : PeriodicHandle) :
      Corresponds o (.cancelPeriodic h) (.cancelPeriodic (o.handle h))
  | capture (label : String) (taken : Timestamp) :
      Corresponds o (.capture label taken) (.capture label taken)
  | bus (c : Bus.Call δ) : Corresponds o (.bus c) (.bus c)
  | observe (look : View δ υ → υ) :
      Corresponds o (.observe fun m => look m.view) (.observe fun m => look m.view)

/-- The answers are the same, or the handles of the same registration. -/
def Call.Answers (o : Rendering α α') :
    (c : Call δ α υ) → (d : Call δ α' υ) → c.Answer → d.Answer → Prop
  | .schedulePeriodic .., .schedulePeriodic .., h, h' => h' = o.handle h
  | _, _, a, a' => HEq a a'

/-- The scripts make calls that correspond, as long as the answers do. -/
abbrev ScriptTwins {β γ : Type} (o : Rendering α α') (V : β → γ → Prop)
    (x : Script (interface δ α υ) β) (y : Script (interface δ α' υ) γ) : Prop :=
  Script.Twins (I := interface δ α υ) (J := interface δ α' υ) (Call.Corresponds o)
    (Call.Answers o) V x y

/-! ### Items -/

/-- What the items say corresponds, and the machines have the same view. -/
inductive Item.Mirrors (o : Rendering α α') : Item δ α υ → Item δ α' υ → Prop where
  | began {c : Call δ α υ} {d : Call δ α' υ} {m : Machine δ α υ} {m' : Machine δ α' υ}
      (hc : c.Corresponds o d) (hv : m'.view = m.view) : Mirrors o (.began c m) (.began d m')
  | ended {c : Call δ α υ} {d : Call δ α' υ} {r : Except Fault c.Answer}
      {r' : Except Fault d.Answer} {m : Machine δ α υ} {m' : Machine δ α' υ}
      (hc : c.Corresponds o d)
      (hr : Agree (c.Answers o d) r r') (hv : m'.view = m.view) :
      Mirrors o (.ended c r m) (.ended d r' m')
  | fired (e : Event (Task α)) (late : Nat) {m : Machine δ α υ} {m' : Machine δ α' υ}
      (hv : m'.view = m.view) : Mirrors o (.fired e late m) (.fired (e.map o.task) late m')
  | invoked (action : α) (late : Nat) {m : Machine δ α υ} {m' : Machine δ α' υ}
      (hv : m'.view = m.view) :
      Mirrors o (.invoked action late m) (.invoked (o.action action) late m')

/-- The engine before and after, if the item begins a write of the processor. -/
def Item.written? [Board δ] : Item δ α υ → Option (Engine × Engine)
  | .began (.write w a v) m => some (m.engine, (Op.outcome (Machine.write w a v m)).2.engine)
  | .began (.writeMasked a v mask) m =>
      some (m.engine, (Op.outcome (Machine.writeMasked a v mask m)).2.engine)
  | _ => none

/-- The item does not begin a write after which a channel goes on running in another mode. -/
def Item.KeepsModes [Board δ] (i : Item δ α υ) : Prop := ∀ x ∈ i.written?, x.1.KeepsModes x.2

instance [Board δ] (i : Item δ α υ) : Decidable i.KeepsModes :=
  inferInstanceAs (Decidable (∀ x ∈ i.written?, x.1.KeepsModes x.2))

end Machine

end DmaMachine
