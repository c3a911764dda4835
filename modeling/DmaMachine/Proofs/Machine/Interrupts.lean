import DmaMachine.Proofs.Controller.Interrupts
import DmaMachine.Proofs.Machine.Errands

/-!
# The interrupt line of a machine

Whatever happens to a machine comes to deeds at its controller, one after the other: a step of a
channel is one at most (`Channel.step_deed`), a write of a controller's word is one, and so are
taking the edge, restoring a snapshot and a reset.  So all that is true after every history of a
controller is true of a machine at every moment.

* `Move.leads`: **every move comes to deeds at the controller.**
* `Moves.history`: the controller of a machine that was powered on has a history.
-/

namespace DmaMachine

/-! ### Deeds that lead on -/

namespace Controller

/-- Deeds make the one controller of the other. -/
def Leads (c c' : Controller) : Prop := ∃ ds : List Deed, afterAll ds c = c'

theorem leads_chains : Chains Leads where
  refl _ := ⟨[], rfl⟩
  trans := by
    rintro _ _ _ ⟨ds, rfl⟩ ⟨es, rfl⟩
    exact ⟨ds ++ es, afterAll_append ..⟩

theorem Deed.leads (d : Deed) (c : Controller) : Leads c (d.after c) := ⟨[d], rfl⟩

/-- The deeds that a step of a channel can be. -/
def Deed.OfStep : Deed → Prop
  | complete _ | endBlock _ | busError => True
  | _ => False

end Controller

open Controller

/-! ### Steps and passes -/

namespace Channel

variable {β : Type} [Master β]

/-- **A step of a channel** is a deed at most: an end, a bus error, or nothing. -/
theorem step_deed (p : Peer) (s : Stage β) :
    (Op.outcome (step p s)).2.controller = s.controller ∨
      ∃ d : Controller.Deed, d.OfStep ∧
        (Op.outcome (step p s)).2.controller = d.after s.controller := by
  have hs := step_course p s
  generalize step p s = r at hs
  cases hs with
  | idle => exact .inl rfl
  | completed hu | lastBlock hu => exact .inr ⟨.complete p, trivial, by rw [← hu.keeps.1]; rfl⟩
  | blockDone hu => exact .inr ⟨.endBlock p, trivial, by rw [← hu.keeps.1]; rfl⟩
  | chopped _ hu | refused _ hu => exact .inl hu.keeps.1
  | @faulted u t a hu _ ha =>
      obtain ⟨_, _, -, -, hr⟩ | ⟨_, v, he, -, hr⟩ | ⟨_, _, -, hr⟩ := Attempt.perform_cases ha <;>
        cases hr
      exact .inr ⟨.busError, trivial, by
        rw [← hu.keeps.1, ← (Attempt.access_keeps_rest he).1]; rfl⟩
  | @failed u t e a hu _ ha =>
      obtain ⟨_, _, -, -, hr⟩ | ⟨_, _, -, -, hr⟩ | ⟨_, v, he, hr⟩ := Attempt.perform_cases ha <;>
        cases hr
      obtain ⟨-, hc, -⟩ := a.access_outside p u
      rw [he] at hc
      exact .inl (hc.trans hu.keeps.1)

theorem step_leads (p : Peer) (s : Stage β) :
    Leads s.controller (Op.outcome (step p s)).2.controller := by
  obtain h | ⟨d, -, h⟩ := step_deed p s <;> rw [h]
  · exact leads_chains.refl _
  · exact d.leads _

end Channel

namespace Engine

variable {β : Type} [Master β]

theorem step_leads (p : Peer) (s : Engine × β) :
    Leads s.1.controller (Op.outcome (Engine.step p s)).2.1.controller := by
  obtain ⟨⟨channels, controller⟩, bus⟩ := s
  have hi := p.index_lt
  have hs := Channel.step_leads p ⟨channels[p.index], controller, bus⟩
  simp only [Engine.step]
  split <;> rename_i he <;> rw [he] at hs <;> exact hs

theorem serviceEach_leads (ps : List Peer) :
    Op.Relates (fun s t : Engine × β => Leads s.1.controller t.1.controller) (serviceEach ps) := by
  have hR : Chains fun s t : Engine × β => Leads s.1.controller t.1.controller :=
    ⟨fun _ => leads_chains.refl _, leads_chains.trans⟩
  induction ps with
  | nil => exact hR.refl
  | cons p ps ih =>
      intro s
      rw [serviceEach_cons]
      split
      · exact Op.Relates.bind hR (step_leads p) (fun _ => .bind hR ih fun _ _ =>
        Controller.leads_chains.refl _) s
      · exact ih s

theorem service_leads (s : Engine × β) :
    Leads s.1.controller (Op.outcome (Engine.service s)).2.1.controller :=
  serviceEach_leads s.1.controller.order s

/-! ### Registers and requests -/

/-- A write of a register is a deed at the controller, if it is one of its registers. -/
theorem put_leads (r : Register) (v mask : UInt32) (e : Engine) :
    Leads e.controller (Op.outcome (put r v mask e)).2.controller := by
  cases r with
  | channel p r =>
      simp only [put, onChannel]
      cases Channel.write p r v mask (e.channel p) <;> exact leads_chains.refl _
  | priority => exact (Deed.writePriority v mask).leads _
  | interrupt => exact (Deed.writeInterrupt v mask).leads _
  | fixedLow | fixedHigh => exact leads_chains.refl _

theorem write_leads (offset v mask : UInt32) (e : Engine) :
    Leads e.controller (Op.outcome (Engine.write offset v mask e)).2.controller := by
  simp only [Engine.write]
  split
  · exact put_leads _ v mask e
  · exact leads_chains.refl _

theorem request_controller (p : Peer) (e : Engine) :
    (Op.outcome (Engine.request p e)).2.controller = e.controller := by
  simp only [Engine.request, onChannel]
  cases Channel.request p (e.channel p) <;> rfl

theorem resume_controller (p : Peer) (generation : UInt32) (e : Engine) :
    (Op.outcome (Engine.resume p generation e)).2.controller = e.controller := by
  simp only [Engine.resume]
  split <;> rfl

end Engine

/-! ### Machines -/

namespace Machine

variable {δ α υ β : Type} {m m' : Machine δ α υ}

/-- Deeds make the controller of the one machine of the other's. -/
def Leads (m m' : Machine δ α υ) : Prop := m.engine.controller.Leads m'.engine.controller

theorem leads_chains : Chains (Leads (δ := δ) (α := α) (υ := υ)) where
  refl _ := Controller.leads_chains.refl _
  trans := Controller.leads_chains.trans

theorem leads_of_controller (h : m'.engine.controller = m.engine.controller) : Leads m m' := by
  rw [Leads, h]
  exact Controller.leads_chains.refl _

theorem leads_of_engine (h : m'.engine = m.engine) : Leads m m' :=
  leads_of_controller (congrArg Engine.controller h)

theorem onBus_leads (op : Op (Bus δ) β) : Op.Relates (Leads (α := α) (υ := υ)) (onBus op) := by
  intro m
  simp only [onBus]
  cases op m.bus <;> exact leads_of_engine rfl

theorem writeRegister_leads (offset v mask : UInt32) :
    Op.Relates (Leads (δ := δ) (α := α) (υ := υ)) (writeRegister offset v mask) := by
  intro m
  rw [Leads, writeRegister_engine]
  exact Engine.write_leads offset v mask m.engine

section Board

variable [Board δ] {handler : Handler δ α υ} {ls ls' : List (Level δ α υ)} {j : Journal δ α υ}

theorem writeMasked_leads (a v mask : UInt32) :
    Op.Relates (Leads (δ := δ) (α := α) (υ := υ)) (writeMasked a v mask) :=
  writeMasked_relates leads_chains (fun _ _ => onBus_leads _) (fun _ _ _ => onBus_leads _)
    writeRegister_leads a v mask

theorem write_leads (w : Width) (a v : UInt32) :
    Op.Relates (Leads (δ := δ) (α := α) (υ := υ)) (write w a v) :=
  write_relates leads_chains (fun _ _ => onBus_leads _) (fun _ _ _ => onBus_leads _)
    writeRegister_leads w a v

/-- **A call that fires nothing** comes to deeds at the controller. -/
theorem perform_leads {bound : Nat} {c : Call δ α υ} {r : Except Fault c.Answer} (hc : ¬c.Fires)
    (hp : perform handler bound c m = some (r, m')) : Leads m m' := by
  cases c with
  | read | bus | schedule | deschedule | schedulePeriodic | cancelPeriodic | capture | observe =>
      exact leads_of_engine (perform_apart (by exact trivial) hp).1
  | write w a v =>
      simp only [perform] at hp
      exact (write_leads w a v).of_outcome (Option.some.inj hp)
  | writeMasked a v mask =>
      simp only [perform] at hp
      exact (writeMasked_leads a v mask).of_outcome (Option.some.inj hp)
  | request p =>
      simp only [perform] at hp
      have h := request_engine p m
      rw [Option.some.inj hp] at h
      replace h : m'.engine = (Op.outcome (Engine.request p m.engine)).2 := h
      rw [Leads, h, Engine.request_controller]
      exact Controller.leads_chains.refl _
  | takeEdge =>
      simp only [perform] at hp
      cases hp
      exact Deed.takeEdge.leads _
  | reset =>
      simp only [perform] at hp
      cases hp
      exact Deed.reset.leads _
  | restore s =>
      simp only [perform] at hp
      rw [Op.toRun_apply] at hp
      cases hf : misfit? s with
      | some fault =>
          rw [restore_of_misfit hf m] at hp
          cases hp
          exact leads_of_engine rfl
      | none =>
          obtain ⟨ram, -, hr⟩ := restore_of_fit hf m
          rw [hr] at hp
          cases hp
          exact (Deed.restore s.priorityWord s.interruptWord).leads _
  | run | runToNext => exact absurd trivial hc

/-- **Every move comes to deeds at the controller.** -/
theorem Move.leads (h : m.Remembers) (hm : Move handler ls m j ls' m') : Leads m m' := by
  cases hm.effect h with
  | call hc hp => exact perform_leads hc hp
  | pass _ _ _ ho =>
      rw [Leads, ho.engine]
      exact Engine.service_leads (β := Bus δ) (m.engine, m.bus)
  | resume _ _ _ _ _ ho =>
      rw [Leads, ho, Engine.resume_controller]
      exact Controller.leads_chains.refl _
  | none _ _ he => exact leads_of_engine he

/-- **The controller of a machine has a history**, which begins at power-on. -/
theorem Moves.history {board : δ} {memory : υ}
    (hm : Moves handler [] (initial board memory) j ls m) :
    ∃ ds : List Deed, m.engine.controller = afterAll ds {} := by
  have h : m.Remembers ∧ Leads (initial board memory) m :=
    hm.preserves (h := []) (J := fun _ _ m => m.Remembers ∧ Leads (initial board memory) m)
      (fun ⟨hr, hl⟩ hm => ⟨hm.remembers hr, leads_chains.trans hl (hm.leads hr)⟩)
      ⟨initial_remembers board memory, leads_chains.refl _⟩
  obtain ⟨ds, hds⟩ := h.2
  exact ⟨ds, hds.symm⟩

/-- The words of the controller are sound at every moment. -/
theorem Moves.sound {board : δ} {memory : υ}
    (hm : Moves handler [] (initial board memory) j ls m) : m.engine.controller.Sound := by
  obtain ⟨ds, hds⟩ := hm.history
  rw [hds]
  exact sound_initial.afterAll ds

end Board

end Machine

end DmaMachine
