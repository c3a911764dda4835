import DmaMachine.Op

/-!
# Scripts

A *script* is what an event's owner wants done when the event fires: calls on the machine, one
after the other, each chosen in the light of the answers so far.  It is data, so it can be stored
with an event and reasoned about; `Script.exec` carries it out, given what performs a call.

An *interface* lists the calls and says what answers each of them.  A call may fail, and the
script sees that too: it goes on, or fails itself.

* `Script.call` fails when its call does; `Script.attempt` hands the fault over.
* `Script.Only` says that every call a script can make is of a given kind.
-/

namespace DmaMachine

/-- Calls, and the type of each call's answer. -/
structure Interface where
  Call : Type
  Answer : Call → Type

/-- A sequence of calls that ends with a value or a fault. -/
inductive Script (I : Interface) (β : Type) where
  | done (value : β)
  | fail (fault : Fault)
  | ask (call : I.Call) (next : Except Fault (I.Answer call) → Script I β)

namespace Script

variable {I J : Interface} {σ α β γ : Type}

def bind : Script I α → (α → Script I β) → Script I β
  | done a, f => f a
  | fail e, _ => fail e
  | ask c next, f => ask c fun answer => (next answer).bind f

instance : Monad (Script I) where
  pure := done
  bind := bind

/-- Makes a call, and fails with its fault. -/
def call (c : I.Call) : Script I (I.Answer c) :=
  ask c fun
    | .ok a => done a
    | .error e => fail e

/-- Makes a call, and hands over its outcome. -/
def attempt (c : I.Call) : Script I (Except Fault (I.Answer c)) := ask c done

/-- The outcome of a script in place of its fault. -/
def outcome : Script I α → Script I (Except Fault α)
  | done a => done (.ok a)
  | fail e => done (.error e)
  | ask c next => ask c fun answer => (next answer).outcome

/-- Carries a script out, given what performs a call. -/
def exec (perform : (c : I.Call) → Run σ (I.Answer c)) : Script I β → Run σ β
  | done b => fun s => some (.ok b, s)
  | fail e => fun s => some (.error e, s)
  | ask c next => fun s =>
      match perform c s with
      | none => none
      | some (answer, s) => (next answer).exec perform s

/-- The same calls made through another interface. -/
def embed (f : (c : I.Call) → Script J (I.Answer c)) : Script I β → Script J β
  | done b => done b
  | fail e => fail e
  | ask c next => (f c).outcome.bind fun answer => (next answer).embed f

/-- Every call that the script can make satisfies `P`. -/
inductive Only (P : I.Call → Prop) : Script I β → Prop where
  | done (b : β) : Only P (.done b)
  | fail (e : Fault) : Only P (.fail e)
  | ask {c : I.Call} {next : Except Fault (I.Answer c) → Script I β} :
      P c → (∀ answer, Only P (next answer)) → Only P (.ask c next)

/-! ### Laws -/

@[simp] theorem pure_eq (a : α) : (pure a : Script I α) = done a := rfl

@[simp] theorem bind_eq (x : Script I α) (f : α → Script I β) : x >>= f = x.bind f := rfl

theorem bind_done (x : Script I α) : x.bind done = x := by
  induction x with
  | done | fail => rfl
  | ask c next ih => simp only [bind, ih]

theorem bind_assoc (x : Script I α) (f : α → Script I β) (g : β → Script I γ) :
    (x.bind f).bind g = x.bind fun a => (f a).bind g := by
  induction x with
  | done | fail => rfl
  | ask c next ih => simp only [bind, ih]

/-- Carrying out one call is performing it. -/
theorem exec_call (perform : (c : I.Call) → Run σ (I.Answer c)) (c : I.Call) (s : σ) :
    (call c).exec perform s = perform c s := by
  rw [call, exec]
  dsimp only
  rcases perform c s with _ | ⟨_ | _, _⟩ <;> rfl

/-- **Carrying out a sequence** is carrying out its parts in turn. -/
theorem exec_bind (perform : (c : I.Call) → Run σ (I.Answer c)) (x : Script I α)
    (f : α → Script I β) (s : σ) :
    (x.bind f).exec perform s =
      match x.exec perform s with
      | none => none
      | some (.ok a, s) => (f a).exec perform s
      | some (.error e, s) => some (.error e, s) := by
  induction x generalizing s with
  | done | fail => rfl
  | ask c next ih =>
      simp only [bind, exec]
      cases perform c s with
      | none => rfl
      | some r => exact ih r.1 r.2

theorem Only.bind {P : I.Call → Prop} {x : Script I α} {f : α → Script I β} (h : Only P x)
    (hf : ∀ a, Only P (f a)) : Only P (x.bind f) := by
  induction h with
  | done b => exact hf b
  | fail e => exact .fail e
  | ask hc _ ih => exact .ask hc ih

end Script

end DmaMachine
