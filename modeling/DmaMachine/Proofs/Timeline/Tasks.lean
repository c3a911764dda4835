import DmaMachine.Timeline.Basic

/-!
# Timelines with other tasks

A timeline never looks at the tasks of its events.  So with every task replaced it does the same.

* `Event.map_insert`, `Timeline.deschedule_map`, `Timeline.popDue_map`: **the changes of the table
  commute with replacing the tasks.**
-/

namespace DmaMachine

variable {τ υ : Type} (f : τ → υ)

/-- The event with its task replaced. -/
def Event.map (e : Event τ) : Event υ := ⟨e.id, e.name, e.registeredAt, e.triggerAt, f e.task⟩

theorem Event.map_insert (e : Event τ) (es : List (Event τ)) :
    (insert e es).map (Event.map f) = insert (e.map f) (es.map (Event.map f)) := by
  induction es with
  | nil => rfl
  | cons d ds ih =>
      simp only [insert, List.map_cons, apply_ite (List.map (Event.map f)), ih]
      rfl

namespace Timeline

/-- The timeline with the tasks of its events replaced. -/
def map (t : Timeline τ) : Timeline υ := ⟨t.now, t.nextId, t.events.map (Event.map f)⟩

variable (t : Timeline τ)

theorem isScheduled_map (id : Nat) : (t.map f).isScheduled id = t.isScheduled id := by
  simp only [isScheduled, map, List.any_map]
  rfl

theorem deschedule_map (id : Nat) :
    (t.map f).deschedule id = ((t.deschedule id).1, (t.deschedule id).2.map f) := by
  rw [deschedule, isScheduled_map]
  simp only [deschedule, map, List.eraseP_map]
  rfl

theorem popDue_map (target : Nat) :
    (t.map f).popDue target = (t.popDue target).map fun x => (x.1.map f, x.2.map f) := by
  obtain ⟨now, nextId, _ | ⟨e, es⟩⟩ := t
  · rfl
  · simp only [popDue, map, List.map_cons, Event.map]
    split <;> rfl

theorem untilNext?_map : (t.map f).untilNext? = t.untilNext? := by
  simp only [untilNext?, map, List.head?_map, Option.map_map]
  rfl

end Timeline

end DmaMachine
