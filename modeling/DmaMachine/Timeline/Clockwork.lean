import DmaMachine.Script
import DmaMachine.Timeline.Advance

/-!
# Clockwork

The least host of a timeline: the timeline, and a memory for its client's own use.  The client
gives every event an action, and a *handler* says which script an action runs when it fires.

`Clockwork.perform` carries out a call.  Only advancing fires events, and the scripts of those
may advance again; hence the bound, which falls by one with every level of nesting.
-/

namespace DmaMachine

/-- A timeline of actions, and the client's memory. -/
structure Clockwork (α υ : Type) where
  timeline : Timeline α := {}
  memory : υ

namespace Clockwork

variable {α υ : Type}

instance : Host (Clockwork α υ) α where
  timeline s := s.timeline
  setTimeline t s := { s with timeline := t }
  timeline_setTimeline _ _ := rfl
  setTimeline_timeline _ := rfl
  setTimeline_setTimeline _ _ _ := rfl

/-- What a client can call. -/
inductive Call (α υ : Type) where
  | schedule (name : String) (delay : Nat) (action : α)
  | deschedule (id : Nat)
  | isScheduled (id : Nat)
  | advance (cycles : Nat)
  | reset
  | restore (now nextId : Nat)
  /-- Puts what is seen of the state into the client's memory. -/
  | observe (look : Clockwork α υ → υ)

def Call.Answer : Call α υ → Type
  | .schedule .. => Nat
  | .deschedule _ | .isScheduled _ => Bool
  | .advance _ | .reset | .restore .. => Unit
  | .observe _ => υ

/-- The calls on clockwork. -/
def interface (α υ : Type) : Interface := ⟨Call α υ, Call.Answer⟩

/-- The scripts of a client. -/
abbrev Handler (α υ : Type) := α → Nat → Script (interface α υ) Unit

/-- Carries out a call, with a bound on the nesting of advances and on the events of each. -/
def perform (handler : Handler α υ) : Nat → (c : Call α υ) → Run (Clockwork α υ) c.Answer
  | _, .schedule name delay action =>
      (Host.onTimeline (Timeline.schedule name delay action)).toRun
  | _, .deschedule id => fun s =>
      let (found, s) := Host.deschedule id s
      some (.ok found, s)
  | _, .isScheduled id => fun s => some (.ok (s.timeline.isScheduled id), s)
  | _, .reset => fun s => some (.ok (), { s with timeline := s.timeline.reset })
  | _, .restore now nextId => fun s =>
      some (.ok (), { s with timeline := s.timeline.restore now nextId })
  | _, .observe look => fun s =>
      let memory := look s
      some (.ok memory, { s with memory })
  | 0, .advance _ => Run.outOfBound
  | bound + 1, .advance n =>
      Host.advance (fun action late => (handler action late).exec (perform handler bound))
        (bound + 1) n

end Clockwork

end DmaMachine
