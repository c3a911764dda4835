import DmaMachine.Script
import DmaMachine.Proofs.Timeline.History

/-!
# What runs keep

An operation is a sequence of parts, a script is carried out call by call, and what is due is
fired event by event.  A relation between states that holds across every part, holds of nothing
done, and can be chained, holds across the whole.

* `Op.Relates`: for the parts of an operation, whether it gives a result or a fault.
* `Op.Projects`: an operation on a state as one on a part of it.
* `Script.exec_relates`: for scripts, with a condition on the calls that a script can make.
* `Host.fireDue_relates`: for the loop that fires what is due, taking an event out and firing it
  as one part.

With `R s s'` read as `P s → P s'` these say that an invariant is kept.
-/

namespace DmaMachine

variable {σ τ α β : Type}

/-- The relation holds across the operation. -/
def Op.Relates (R : σ → σ → Prop) (op : Op σ α) : Prop := ∀ s, R s (Op.outcome (op s)).2

/-- The relation holds of nothing done, and can be chained. -/
structure Chains (R : σ → σ → Prop) : Prop where
  refl : ∀ s, R s s
  trans : ∀ {s t u}, R s t → R t u → R s u

/-- What is kept by each of two is kept by both. -/
theorem Chains.of_invariant (P : σ → Prop) : Chains fun s s' => P s → P s' where
  refl _ h := h
  trans h k hs := k (h hs)

/-- What the first part brings about, and the parts after it keep. -/
theorem Op.relates_of_bind {R S : σ → σ → Prop} (hRS : ∀ {s t u}, R s t → S t u → R s u)
    {x : Op σ α} {f : α → Op σ β} {s : σ} (hx : R s (Op.outcome (x s)).2)
    (hf : ∀ a, Relates S (f a)) : R s (Op.outcome ((x >>= f) s)).2 := by
  rw [bind_apply]
  cases he : x s with
  | ok a t =>
      rw [he] at hx
      exact hRS hx (hf a t)
  | error e t =>
      rw [he] at hx
      exact hx

theorem Op.Relates.bind {R : σ → σ → Prop} (hR : Chains R) {x : Op σ α} {f : α → Op σ β}
    (hx : Relates R x) (hf : ∀ a, Relates R (f a)) : Relates R (x >>= f) :=
  fun s => relates_of_bind (R := R) (S := R) hR.trans (hx s) hf

theorem Op.Relates.of_ok {R : σ → σ → Prop} {op : Op σ α} (h : Relates R op) {s s' : σ} {a : α}
    (ho : op s = .ok a s') : R s s' := by
  have := h s
  rwa [ho] at this

theorem Op.Relates.of_outcome {R : σ → σ → Prop} {op : Op σ α} (h : Relates R op) {s s' : σ}
    {r : Except Fault α} (ho : outcome (op s) = (r, s')) : R s s' := by
  have := h s
  rwa [ho] at this

/-- Seen through a function of the state, the one operation is the other. -/
def Op.Projects (f : σ → τ) (x : Op σ α) (y : Op τ α) : Prop :=
  ∀ s, Op.outcome (y (f s)) = ((Op.outcome (x s)).1, f (Op.outcome (x s)).2)

theorem Op.Projects.bind {f : σ → τ} {x : Op σ α} {y : Op τ α} {g : α → Op σ β} {h : α → Op τ β}
    (hx : Projects f x y) (hg : ∀ a, Projects f (g a) (h a)) :
    Projects f (x >>= g) (y >>= h) := by
  intro s
  have hs := hx s
  rw [bind_apply, bind_apply]
  cases he : x s with
  | ok a t =>
      rw [he] at hs
      rw [outcome_eq_ok.1 hs]
      exact hg a t
  | error e t =>
      rw [he] at hs
      rw [outcome_eq_error.1 hs]
      rfl

theorem Op.Projects.eq_ok {f : σ → τ} {x : Op σ α} {y : Op τ α} (h : Projects f x y) {s : σ}
    {t : τ} {a : α} : y (f s) = .ok a t ↔ ∃ u, x s = .ok a u ∧ f u = t := by
  rw [← outcome_eq_ok, h s]
  cases x s <;> simp

theorem Op.Projects.eq_error {f : σ → τ} {x : Op σ α} {y : Op τ α} (h : Projects f x y) {s : σ}
    {t : τ} {e : Fault} : y (f s) = .error e t ↔ ∃ u, x s = .error e u ∧ f u = t := by
  rw [← outcome_eq_error, h s]
  cases x s <;> simp

theorem Op.Projects.pure {f : σ → τ} (a : α) : Projects f (Pure.pure a : Op σ α) (Pure.pure a) :=
  fun _ => rfl

theorem Script.exec_relates {I : Interface} {R : σ → σ → Prop} (hR : Chains R)
    {perform : (c : I.Call) → Run σ (I.Answer c)} {P : I.Call → Prop}
    (hp : ∀ c, P c → ∀ s r s', perform c s = some (r, s') → R s s')
    {x : Script I α} (hx : x.Only P) {s s' : σ} {r : Except Fault α}
    (h : x.exec perform s = some (r, s')) : R s s' := by
  induction hx generalizing s with
  | done | fail => cases h; exact hR.refl _
  | @ask c next hc _ ih =>
      simp only [exec] at h
      split at h
      · cases h
      · rename_i answer s₁ he
        exact hR.trans (hp c hc _ _ _ he) (ih answer h)

/-- Every script makes only calls. -/
theorem Script.only_true {I : Interface} (x : Script I α) : x.Only fun _ => True := by
  induction x with
  | done b => exact .done b
  | fail e => exact .fail e
  | ask c next ih => exact .ask trivial ih

namespace Host

variable [Host σ τ]

theorem fireDue_relates {R : σ → σ → Prop} (hR : Chains R) {fire : τ → Nat → Run σ Unit}
    {target : Nat}
    (hf : ∀ s e t r s', (timeline s).popDue target = some (e, t) →
      fire e.task (target - e.triggerAt) (setTimeline t s) = some (r, s') → R s s') :
    ∀ {bound : Nat} {s s' : σ} {r : Except Fault Unit},
      fireDue fire target bound s = some (r, s') → R s s'
  | 0, _, _, _, h => by cases h
  | bound + 1, s, s', r, h => by
      obtain ⟨-, -, rfl⟩ | ⟨e, t, hp, ⟨fault, he, -⟩ | ⟨s₁, he, h⟩⟩ := fireDue_cases h
      · exact hR.refl _
      · exact hf _ _ _ _ _ hp he
      · exact hR.trans (hf _ _ _ _ _ hp he) (fireDue_relates hR hf h)

end Host

end DmaMachine
