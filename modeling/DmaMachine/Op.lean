import DmaMachine.Fault

/-!
# Operations and bounded runs

An *operation* on a state `σ` gives a result or a fault, and either way the state it left behind:
what was done before a fault stays done.

A *bounded run* is an operation that may besides have no answer at all.  Running an event may
run further events, so a run is given a bound on its nesting; `none` says that the bound was too
small, and is no outcome of the machine.
-/

namespace DmaMachine

/-- An operation on `σ`. -/
abbrev Op (σ α : Type) := EStateM Fault σ α

/-- An operation on `σ` that can run out of its bound. -/
abbrev Run (σ α : Type) := ExceptT Fault (StateT σ Option) α

variable {σ τ α β : Type}

/-- A fault or a result, with the state left behind. -/
def Op.outcome : EStateM.Result Fault σ α → Except Fault α × σ
  | .ok a s => (.ok a, s)
  | .error e s => (.error e, s)

/-- An operation is a run that no bound is too small for. -/
def Op.toRun (op : Op σ α) : Run σ α := fun s => some (Op.outcome (op s))

/-- The run whose bound is used up. -/
def Run.outOfBound : Run σ α := fun _ => none

/-- Goes on with the outcome of a run, whether result or fault. -/
def Run.settle (x : Run σ α) (k : Except Fault α → Run σ β) : Run σ β := fun s =>
  match x s with
  | none => none
  | some (outcome, s) => k outcome s

/-! ### Laws -/

@[simp] theorem Op.outcome_ok (a : α) (s : σ) : outcome (.ok a s) = (.ok a, s) := rfl

@[simp] theorem Op.outcome_fault (e : Fault) (s : σ) :
    outcome (.error e s : EStateM.Result Fault σ α) = (.error e, s) := rfl

theorem Op.bind_apply (x : Op σ α) (f : α → Op σ β) (s : σ) :
    (x >>= f) s = match x s with
      | .ok a t => f a t
      | .error e t => .error e t := by
  show EStateM.bind x f s = _
  unfold EStateM.bind
  cases x s <;> rfl

/-- A sequence gives a result when both of its parts do. -/
theorem Op.bind_eq_ok {x : Op σ α} {f : α → Op σ β} {s u : σ} {b : β} :
    (x >>= f) s = .ok b u ↔ ∃ a t, x s = .ok a t ∧ f a t = .ok b u := by
  rw [bind_apply]
  cases x s with
  | ok a t =>
      constructor
      · exact fun h => ⟨a, t, rfl, h⟩
      · rintro ⟨_, _, ⟨⟩, h⟩; exact h
  | error e t =>
      constructor
      · rintro ⟨⟩
      · rintro ⟨_, _, ⟨⟩, _⟩

@[simp] theorem Op.toRun_apply (op : Op σ α) (s : σ) : op.toRun s = some (Op.outcome (op s)) := rfl

theorem Op.outcome_eq_ok {x : EStateM.Result Fault σ α} {s : σ} {a : α} :
    outcome x = (.ok a, s) ↔ x = .ok a s := by
  cases x <;> simp [outcome]

theorem Op.outcome_eq_error {x : EStateM.Result Fault σ α} {s : σ} {e : Fault} :
    outcome x = (.error e, s) ↔ x = .error e s := by
  cases x <;> simp [outcome]

theorem Op.toRun_eq_ok {op : Op σ α} {s t : σ} {a : α} :
    op.toRun s = some (.ok a, t) ↔ op s = .ok a t := by
  rw [toRun_apply, Option.some.injEq, outcome_eq_ok]

theorem Run.settle_toRun (op : Op σ α) (k : Except Fault α → Run σ β) (s : σ) :
    (op.toRun.settle k) s = k (Op.outcome (op s)).1 (Op.outcome (op s)).2 := rfl

theorem Run.settle_outOfBound (k : Except Fault α → Run σ β) :
    (outOfBound : Run σ α).settle k = outOfBound := rfl

end DmaMachine
