import DmaMachine.Timeline.Basic

/-!
# Advancing a timeline

A *host* is a state with a timeline in it.  *Advancing* a host moves its clock forward at once
and then fires, one by one, the events that are due at the new time.  What firing does is a
parameter: it acts on the whole host, so it may make events, take them away, or advance again.
The first event is looked up anew every time, hence all of that is seen.

An event fires with its *overshoot*: how far the clock stands past its trigger.

* `Host` is a state with a timeline, by a lawful pair of access functions.
* `fireDue` fires what is due, and `advance` moves the clock and does so; both have a bound on
  the number of events.
-/

namespace DmaMachine

/-- A state with a timeline whose events carry tasks `τ`. -/
class Host (σ : Type) (τ : outParam Type) where
  timeline : σ → Timeline τ
  setTimeline : Timeline τ → σ → σ
  timeline_setTimeline (t : Timeline τ) (s : σ) : timeline (setTimeline t s) = t
  setTimeline_timeline (s : σ) : setTimeline (timeline s) s = s
  setTimeline_setTimeline (t u : Timeline τ) (s : σ) :
    setTimeline t (setTimeline u s) = setTimeline t s

attribute [simp] Host.timeline_setTimeline Host.setTimeline_timeline Host.setTimeline_setTimeline

namespace Host

variable {σ τ α : Type} [Host σ τ]

/-- An operation on the timeline as one on its host. -/
@[inline] def onTimeline (op : Op (Timeline τ) α) : Op σ α := fun s =>
  match op (timeline s) with
  | .ok a t => .ok a (setTimeline t s)
  | .error e t => .error e (setTimeline t s)

/-- Takes an event out of the host's table; says whether it was pending. -/
def deschedule (id : Nat) (s : σ) : Bool × σ :=
  let (found, t) := (timeline s).deschedule id
  (found, setTimeline t s)

/-- The host with its clock moved. -/
def setNow (now : Nat) (s : σ) : σ := setTimeline { timeline s with now } s

/-- Fires the events that are due at `target`, at most as many as the bound. -/
def fireDue (fire : τ → Nat → Run σ Unit) (target : Nat) : Nat → Run σ Unit
  | 0 => Run.outOfBound
  | bound + 1 => fun s =>
      match (timeline s).popDue target with
      | none => some (.ok (), s)
      | some (e, t) =>
          match fire e.task (target - e.triggerAt) (setTimeline t s) with
          | none => none
          | some (.error fault, s) => some (.error fault, s)
          | some (.ok (), s) => fireDue fire target bound s

/-- Moves the clock by `n` cycles, and it may wrap around; then fires what is due. -/
def advance (fire : τ → Nat → Run σ Unit) (bound : Nat) (n : Nat) : Run σ Unit := fun s =>
  let target := Timeline.wrap ((timeline s).now + n)
  fireDue fire target bound (setNow target s)

/-! ### Laws -/

theorem outcome_onTimeline (op : Op (Timeline τ) α) (s : σ) :
    Op.outcome (onTimeline op s) =
      ((Op.outcome (op (timeline s))).1, setTimeline (Op.outcome (op (timeline s))).2 s) := by
  unfold onTimeline
  cases op (timeline s) <;> rfl

@[simp] theorem now_setNow (now : Nat) (s : σ) : (timeline (setNow now s)).now = now := by
  simp [setNow]

@[simp] theorem events_setNow (now : Nat) (s : σ) :
    (timeline (setNow now s)).events = (timeline s).events := by
  simp [setNow]

/-- Nothing is due, nothing fires. -/
theorem fireDue_of_popDue_eq_none {fire : τ → Nat → Run σ Unit} {target : Nat} {s : σ}
    (h : (timeline s).popDue target = none) (bound : Nat) :
    fireDue fire target (bound + 1) s = some (.ok (), s) := by
  simp [fireDue, h]

/-- An event whose firing fails ends the advance with its fault. -/
theorem fireDue_of_fault {fire : τ → Nat → Run σ Unit} {target : Nat} {s s' : σ}
    {e : Event τ} {t : Timeline τ} {fault : Fault}
    (h : (timeline s).popDue target = some (e, t))
    (hf : fire e.task (target - e.triggerAt) (setTimeline t s) = some (.error fault, s'))
    (bound : Nat) : fireDue fire target (bound + 1) s = some (.error fault, s') := by
  simp [fireDue, h, hf]

/-- An event whose firing succeeds is followed by those due after it. -/
theorem fireDue_of_ok {fire : τ → Nat → Run σ Unit} {target : Nat} {s s' : σ}
    {e : Event τ} {t : Timeline τ}
    (h : (timeline s).popDue target = some (e, t))
    (hf : fire e.task (target - e.triggerAt) (setTimeline t s) = some (.ok (), s'))
    (bound : Nat) : fireDue fire target (bound + 1) s = fireDue fire target bound s' := by
  simp [fireDue, h, hf]

end Host

end DmaMachine
