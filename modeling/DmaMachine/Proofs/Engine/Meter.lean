import DmaMachine.Engine.Basic
import DmaMachine.Proofs.Channel.Projection

/-!
# The cycles of a service pass

A *meter* is a bus that adds up the cycles charged to it.  An engine cannot tell a metered bus from
the bus inside, so the cycles that a service pass charges can be read off the pass on a meter, and
they are what the bus has pending afterwards beyond what it had before.

* `service_projects`: a service pass on a meter is the one on the bus inside.
* `service_charges`: **every cycle that a service pass charges is pending after it**, however it
  ends.
-/

namespace DmaMachine

namespace Bus

variable {δ : Type}

theorem pendingCycles_onBoard {α : Type} (op : Op δ α) (b : Bus δ) :
    (Op.outcome (Bus.onBoard op b)).2.pendingCycles = b.pendingCycles := by
  obtain ⟨ram, board, exception, lastFault, pendingCycles⟩ := b
  simp only [onBoard]
  cases op board <;> rfl

variable [Board δ]

theorem pendingCycles_read (w : Width) (a : UInt32) (b : Bus δ) :
    (Op.outcome (Bus.read w a b)).2.pendingCycles = b.pendingCycles := by
  simp only [read]
  repeat' split
  all_goals first | rfl | exact pendingCycles_onBoard _ b

theorem pendingCycles_write (w : Width) (a v : UInt32) (b : Bus δ) :
    (Op.outcome (Bus.write w a v b)).2.pendingCycles = b.pendingCycles := by
  simp only [write]
  repeat' split
  all_goals first | rfl | exact pendingCycles_onBoard _ b

end Bus

/-- A bus with the cycles charged to it. -/
structure Meter (β : Type) where
  bus : β
  charged : Nat := 0

namespace Meter

variable {β : Type} [Master β]

instance : Master (Meter β) where
  read w a r :=
    match Master.read w a r.bus with
    | .ok v b => .ok v ⟨b, r.charged⟩
    | .error e b => .error e ⟨b, r.charged⟩
  write w a v r :=
    match Master.write w a v r.bus with
    | .ok () b => .ok () ⟨b, r.charged⟩
    | .error e b => .error e ⟨b, r.charged⟩
  exception r := Master.exception r.bus
  takeException r := ((Master.takeException r.bus).1, ⟨(Master.takeException r.bus).2, r.charged⟩)
  charge n r := ⟨Master.charge n r.bus, r.charged + n⟩

theorem outcome_read (w : Width) (a : UInt32) (r : Meter β) :
    Op.outcome (Master.read w a r) = ((Op.outcome (Master.read w a r.bus)).1,
      ⟨(Op.outcome (Master.read w a r.bus)).2, r.charged⟩) := by
  simp only [Master.read]
  cases Master.read w a r.bus <;> rfl

theorem outcome_write (w : Width) (a v : UInt32) (r : Meter β) :
    Op.outcome (Master.write w a v r) = ((Op.outcome (Master.write w a v r.bus)).1,
      ⟨(Op.outcome (Master.write w a v r.bus)).2, r.charged⟩) := by
  simp only [Master.write]
  cases Master.write w a v r.bus <;> rfl

/-- An engine cannot tell a meter from the bus inside. -/
theorem transparent : Transparent (bus (β := β)) where
  read w a r := by rw [outcome_read]
  write w a v r := by rw [outcome_write]
  exception _ := rfl
  takeException _ := rfl
  charge _ _ := rfl

end Meter

namespace Engine

/-- A step of the first channel if it is active, and then the others. -/
theorem serviceEach_cons {β : Type} [Master β] (p : Peer) (ps : List Peer) (s : Engine × β) :
    serviceEach (p :: ps) s =
      if (s.1.channel p).active then
        (do
          let status ← Engine.step p
          let rest ← serviceEach ps
          return (p, status) :: rest : Op (Engine × β) (List (Peer × Status))) s
      else serviceEach ps s := by
  simp only [serviceEach, Op.bind_apply]
  split
  · cases Engine.step p s with
    | error e t => rfl
    | ok status t =>
        dsimp only
        cases serviceEach ps t <;> rfl
  · rfl

section Projection

variable {β γ : Type} [Master β] [Master γ] {f : β → γ} (h : Transparent f)
include h

theorem step_projects (p : Peer) :
    Op.Projects (Prod.map id f) (Engine.step p) (Engine.step p) := by
  rintro ⟨⟨channels, controller⟩, bus⟩
  have hi := p.index_lt
  have hs := h.step p ⟨channels[p.index], controller, bus⟩
  simp only [Engine.step, Prod.map, id, Stage.map] at hs ⊢
  cases hc : Channel.step p ⟨channels[p.index], controller, bus⟩ with
  | ok status t =>
      rw [hc] at hs
      rw [Op.outcome_eq_ok.1 hs]
      rfl
  | error e t =>
      rw [hc] at hs
      rw [Op.outcome_eq_error.1 hs]
      rfl

theorem serviceEach_projects (ps : List Peer) :
    Op.Projects (Prod.map id f) (serviceEach ps) (serviceEach ps) := by
  induction ps with
  | nil => exact fun _ => rfl
  | cons p ps ih =>
      intro s
      rw [serviceEach_cons, serviceEach_cons]
      show Op.outcome (if (s.1.channel p).active then _ else _) = _
      split
      · exact Op.Projects.bind (step_projects h p) (fun _ => .bind ih fun _ => .pure _) s
      · exact ih s

/-- **A service pass on a bus is the one on the bus seen through the function.** -/
theorem service_projects : Op.Projects (Prod.map id f) Engine.service Engine.service :=
  fun s => serviceEach_projects h s.1.controller.order s

end Projection

section Relates

variable {β : Type} [Master β] {Q : β → β → Prop} (hQ : Chains Q)
  (hr : ∀ w a, Op.Relates Q (Master.read w a)) (hw : ∀ w a v, Op.Relates Q (Master.write w a v))
  (hc : ∀ b, Q b (Master.takeException (Master.charge 1 b)).2)
include hQ hr hw hc

theorem step_relates (p : Peer) (s : Engine × β) :
    Q s.2 (Op.outcome (Engine.step p s)).2.2 := by
  obtain ⟨⟨channels, controller⟩, bus⟩ := s
  have hi := p.index_lt
  have hs := Channel.step_relates hQ hr hw hc p ⟨channels[p.index], controller, bus⟩
  simp only [Engine.step]
  split <;> rename_i he <;> rw [he] at hs <;> exact hs

theorem serviceEach_relates (ps : List Peer) :
    Op.Relates (fun s t : Engine × β => Q s.2 t.2) (serviceEach ps) := by
  have hR : Chains fun s t : Engine × β => Q s.2 t.2 := ⟨fun _ => hQ.refl _, hQ.trans⟩
  induction ps with
  | nil => exact hR.refl
  | cons p ps ih =>
      intro s
      rw [serviceEach_cons]
      split
      · exact Op.Relates.bind hR (step_relates hQ hr hw hc p)
          (fun _ => .bind hR ih fun _ _ => hQ.refl _) s
      · exact ih s

/-- **What every access and every charge keep of the bus, a service pass keeps.** -/
theorem service_relates (s : Engine × β) : Q s.2 (Op.outcome (Engine.service s)).2.2 :=
  serviceEach_relates hQ hr hw hc s.1.controller.order s

end Relates

/-! ### Cycles -/

section Charges

variable {δ : Type} [Board δ]

/-- The cycles that a service pass charges to the bus. -/
def charges (e : Engine) (b : Bus δ) : Nat :=
  (Op.outcome (Engine.service (e, (⟨b, 0⟩ : Meter (Bus δ))))).2.2.charged

/-- The bus has as many cycles more pending as were charged. -/
def Charged (r r' : Meter (Bus δ)) : Prop :=
  r'.bus.pendingCycles + r.charged = r.bus.pendingCycles + r'.charged

omit [Board δ] in
theorem charged_chains : Chains (Charged (δ := δ)) where
  refl _ := rfl
  trans h k := by
    unfold Charged at *
    omega

/-- **Every cycle that a service pass charges is pending after it**, however it ends. -/
theorem service_charges (e : Engine) (b : Bus δ) :
    (Op.outcome (Engine.service (e, b))).2.2.pendingCycles = b.pendingCycles + charges e b := by
  have hm := service_projects (Meter.transparent (β := Bus δ)) (e, ⟨b, 0⟩)
  have hq := service_relates (charged_chains (δ := δ))
    (fun w a r => by
      have hb := Bus.pendingCycles_read w a r.bus
      rw [Meter.outcome_read]
      exact congrArg (· + r.charged) hb)
    (fun w a v r => by
      have hb := Bus.pendingCycles_write w a v r.bus
      rw [Meter.outcome_write]
      exact congrArg (· + r.charged) hb)
    (fun r => Nat.add_right_comm ..) (e, ⟨b, 0⟩)
  rw [show (e, b) = Prod.map id Meter.bus (e, (⟨b, 0⟩ : Meter (Bus δ))) from rfl, hm]
  exact hq

end Charges

end Engine

end DmaMachine
