import DmaMachine.Proofs.Keeps

/-!
# Twins

Two states may look alike in all that matters and yet not be the same.  Operations on them are
*twins* when they come to the same from states that look alike: both give results that correspond,
or both fail with the same fault, and the states that they leave look alike again.

* `Op.Twins` for operations, with `Op.Twins.bind` for sequences.
* `Op.projects_iff`: the case where the one state is a function of the other.
* `Script.Twins` for scripts, which make calls that correspond as long as the answers do.
-/

namespace DmaMachine

variable {σ τ α β γ ε : Type}

/-- Results that correspond, or the same fault. -/
inductive Agree (V : α → β → Prop) : Except Fault α → Except Fault β → Prop where
  | ok {a : α} {b : β} (h : V a b) : Agree V (.ok a) (.ok b)
  | error (e : Fault) : Agree V (.error e) (.error e)

theorem Agree.eq {x y : Except Fault α} (h : Agree (· = ·) x y) : x = y := by
  cases h with
  | ok h => rw [h]
  | error e => rfl

/-- Outcomes that agree, with states that look alike. -/
structure Paired (V : α → β → Prop) (R : σ → τ → Prop) (x : Except Fault α × σ)
    (y : Except Fault β × τ) : Prop where
  agree : Agree V x.1 y.1
  states : R x.2 y.2

/-! ### Operations -/

/-- The operations end alike. -/
inductive Op.Meets (V : α → β → Prop) (R : σ → τ → Prop) :
    EStateM.Result Fault σ α → EStateM.Result Fault τ β → Prop where
  | ok {a : α} {b : β} {s : σ} {t : τ} (h : V a b) (hs : R s t) : Meets V R (.ok a s) (.ok b t)
  | error (e : Fault) {s : σ} {t : τ} (hs : R s t) : Meets V R (.error e s) (.error e t)

theorem Paired.mono {V W : α → β → Prop} {R : σ → τ → Prop} {x : Except Fault α × σ}
    {y : Except Fault β × τ} (h : Paired V R x y) (hV : ∀ a b, V a b → W a b) : Paired W R x y := by
  obtain ⟨x, s⟩ := x
  obtain ⟨y, t⟩ := y
  obtain ⟨ha, hs⟩ := h
  cases ha with
  | ok h => exact ⟨.ok (hV _ _ h), hs⟩
  | error e => exact ⟨.error e, hs⟩

/-- Outcomes of bounded runs, if there are any. -/
theorem Paired.rel_imp {V W : α → β → Prop} {R S : σ → τ → Prop} {u : Option (Except Fault α × σ)}
    {v : Option (Except Fault β × τ)} (h : Option.Rel (Paired V R) u v)
    (hp : ∀ x y, Paired V R x y → Paired W S x y) : Option.Rel (Paired W S) u v := by
  cases h with
  | none => exact .none
  | some h => exact .some (hp _ _ h)

theorem Op.Meets.paired {V : α → β → Prop} {R : σ → τ → Prop} {x : EStateM.Result Fault σ α}
    {y : EStateM.Result Fault τ β} (h : Meets V R x y) : Paired V R (outcome x) (outcome y) := by
  cases h with
  | ok h hs => exact ⟨.ok h, hs⟩
  | error e hs => exact ⟨.error e, hs⟩

theorem Op.Meets.imp {V : α → β → Prop} {R S : σ → τ → Prop} {x : EStateM.Result Fault σ α}
    {y : EStateM.Result Fault τ β} (h : Meets V R x y) (hR : ∀ s t, R s t → S s t) :
    Meets V S x y := by
  cases h with
  | ok h hs => exact .ok h (hR _ _ hs)
  | error e hs => exact .error e (hR _ _ hs)

/-- What is true besides of the state that the one leaves. -/
theorem Op.Meets.and {V : α → β → Prop} {R : σ → τ → Prop} {P : σ → Prop}
    {x : EStateM.Result Fault σ α} {y : EStateM.Result Fault τ β} (h : Meets V R x y)
    (hP : P (outcome x).2) : Meets V (fun s t => R s t ∧ P s) x y := by
  cases h with
  | ok h hs => exact .ok h ⟨hs, hP⟩
  | error e hs => exact .error e ⟨hs, hP⟩

/-- Sequences whose first parts end alike end alike, when what comes next does. -/
theorem Op.Meets.bind {V : α → β → Prop} {W : γ → ε → Prop} {R : σ → τ → Prop} {x : Op σ α}
    {y : Op τ β} {f : α → Op σ γ} {g : β → Op τ ε} {s : σ} {t : τ} (h : Meets V R (x s) (y t))
    (hf : ∀ {a b s' t'}, x s = .ok a s' → V a b → R s' t' → Meets W R (f a s') (g b t')) :
    Meets W R ((x >>= f) s) ((y >>= g) t) := by
  rw [bind_apply, bind_apply]
  generalize hu : x s = u at h
  generalize y t = v at h
  cases h with
  | ok h hs => exact hf hu h hs
  | error e hs => exact .error e hs

/-- From states that look alike the operations end alike. -/
def Op.Twins (V : α → β → Prop) (R : σ → τ → Prop) (x : Op σ α) (y : Op τ β) : Prop :=
  ∀ s t, R s t → Meets V R (x s) (y t)

namespace Op.Twins

variable {V : α → β → Prop} {W : γ → ε → Prop} {R : σ → τ → Prop}

/-- An operation is its own twin. -/
theorem refl (x : Op σ α) : Twins (· = ·) (· = ·) x x := by
  rintro s _ rfl
  cases x s with
  | ok => exact .ok rfl rfl
  | error e => exact .error e rfl

theorem pure {a : α} {b : β} (h : V a b) : Twins V R (Pure.pure a) (Pure.pure b) :=
  fun _ _ hs => .ok h hs

theorem throw (e : Fault) :
    Twins V R (throwThe Fault e : Op σ α) (throwThe Fault e : Op τ β) := fun _ _ hs => .error e hs

/-- **Sequences of twins are twins.** -/
theorem bind {x : Op σ α} {y : Op τ β} {f : α → Op σ γ} {g : β → Op τ ε} (hx : Twins V R x y)
    (hf : ∀ a b, V a b → Twins W R (f a) (g b)) : Twins W R (x >>= f) (y >>= g) :=
  fun s t hs => (hx s t hs).bind fun _ h hs => hf _ _ h _ _ hs

/-- A sequence whose first parts give the same. -/
theorem seq {x : Op σ α} {y : Op τ α} {f : α → Op σ γ} {g : α → Op τ ε}
    (hx : Twins (· = ·) R x y) (hf : ∀ a, Twins W R (f a) (g a)) :
    Twins W R (x >>= f) (y >>= g) :=
  hx.bind fun a b h => by
    cases h
    exact hf a

theorem ite {c : Prop} [Decidable c] {x x' : Op σ α} {y y' : Op τ β} (h : Twins V R x y)
    (h' : Twins V R x' y') : Twins V R (if c then x else x') (if c then y else y') := by
  split
  · exact h
  · exact h'

end Op.Twins

/-- One state is seen through a function of the other. -/
theorem Op.projects_iff {f : σ → τ} {x : Op σ α} {y : Op τ α} :
    Projects f x y ↔ Twins (· = ·) (fun s t => t = f s) x y := by
  constructor
  · rintro h s _ rfl
    have hs := h s
    cases he : x s with
    | ok a u =>
        rw [he] at hs
        rw [outcome_eq_ok.1 hs]
        exact .ok rfl rfl
    | error e u =>
        rw [he] at hs
        rw [outcome_eq_error.1 hs]
        exact .error e rfl
  · intro h s
    have hm := h s (f s) rfl
    generalize x s = u at hm
    generalize y (f s) = v at hm
    cases hm with
    | ok h hs => rw [outcome_ok, outcome_ok, h, hs]
    | error e hs => rw [outcome_fault, outcome_fault, hs]

/-! ### Scripts -/

/-- The scripts make calls that correspond by `C`, whatever the answers to them, as long as these
correspond by `A`; and they end with values that correspond by `V`, or with the same fault. -/
inductive Script.Twins {I J : Interface} (C : I.Call → J.Call → Prop)
    (A : (c : I.Call) → (d : J.Call) → I.Answer c → J.Answer d → Prop) (V : α → β → Prop) :
    Script I α → Script J β → Prop where
  | done {a : α} {b : β} (h : V a b) : Twins C A V (.done a) (.done b)
  | fail (e : Fault) : Twins C A V (.fail e) (.fail e)
  | ask {c : I.Call} {d : J.Call} {next : Except Fault (I.Answer c) → Script I α}
      {next' : Except Fault (J.Answer d) → Script J β} (h : C c d)
      (hn : ∀ r r', Agree (A c d) r r' → Twins C A V (next r) (next' r')) :
      Twins C A V (.ask c next) (.ask d next')

section

variable {I J : Interface} {C : I.Call → J.Call → Prop}
  {A : (c : I.Call) → (d : J.Call) → I.Answer c → J.Answer d → Prop} {V : α → β → Prop}
  {W : γ → ε → Prop}

theorem Script.Twins.bind {x : Script I α} {y : Script J β} {f : α → Script I γ}
    {g : β → Script J ε} (h : Twins C A V x y) (hf : ∀ a b, V a b → Twins C A W (f a) (g b)) :
    Twins C A W (x >>= f) (y >>= g) := by
  induction h with
  | done h => exact hf _ _ h
  | fail e => exact .fail e
  | ask h _ ih => exact .ask h ih

theorem Script.Twins.call {c : I.Call} {d : J.Call} (h : C c d) :
    Twins C A (A c d) (Script.call c) (Script.call d) :=
  .ask h fun _ _ hr => by
    cases hr with
    | ok ha => exact .done ha
    | error e => exact .fail e

end

end DmaMachine
