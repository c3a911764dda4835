import DmaMachine.Proofs.Channel.Accesses

/-!
# What happens to a channel

A *deed* is whatever the rest of the machine may do to a channel: write a register, pass on a
request of the peripheral, start or resume a transfer, let it step on some bus under some
controller, end a transfer or a block, reset it, or load the registers of a saved one.  A *history*
is a list of deeds, done one after the other whether they are answered with a fault or not.

* `arm_cases`, `writeControl_cases`, `request_cases`: what comes of the deeds that may start, resume
  or end a transfer.
* `Always`: a property of all deeds of a history, each with the channel that it finds.
* `Always.imp`: **what follows from a property of all deeds** under an invariant.
-/

namespace DmaMachine

namespace Channel

variable {β : Type}

/-- What may happen to a channel. -/
inductive Deed (β : Type) where
  | write (r : Register) (v mask : UInt32)
  /-- A request of the peripheral. -/
  | request
  | arm (resume : Bool)
  | step (controller : Controller) (bus : β)
  /-- The end of a transfer, or of a block, from outside a step. -/
  | finish (last : Bool) (controller : Controller) (bus : β)
  | reset
  /-- The registers of a saved channel are loaded. -/
  | load (base blocks control : UInt32)

namespace Deed

/-- An operation on the channel, whatever its result. -/
def onChannel {α : Type} (op : Op Channel α) (c : Channel) : Except Fault Unit × Channel :=
  match op c with
  | .ok _ c => (.ok (), c)
  | .error e c => (.error e, c)

/-- An operation on a stage, as far as the channel is concerned. -/
def onStage {α : Type} (op : Op (Stage β) α) (controller : Controller) (bus : β) (c : Channel) :
    Except Fault Unit × Channel :=
  match op ⟨c, controller, bus⟩ with
  | .ok _ s => (.ok (), s.channel)
  | .error e s => (.error e, s.channel)

theorem snd_onChannel {α : Type} (op : Op Channel α) (c : Channel) :
    (onChannel op c).2 = (Op.outcome (op c)).2 := by
  rw [onChannel]
  cases op c <;> rfl

end Deed

/-! ### Starting, requesting, programming -/

/-- What starting or resuming a transfer comes to. -/
theorem arm_cases (p : Peer) (resume : Bool) (c : Channel) :
    (resume = true ∧ Deed.onChannel (arm p resume) c = (.ok (), c.activate)) ∨
      (resume = false ∧ c.refusal? p = none ∧
        Deed.onChannel (arm p resume) c = (.ok (), (c.load p).activate)) ∨
      ∃ fault, resume = false ∧ c.refusal? p = some fault ∧
        Deed.onChannel (arm p resume) c = (.error fault, c) := by
  cases resume with
  | true => exact .inl ⟨rfl, rfl⟩
  | false =>
      cases hr : c.refusal? p with
      | none => exact .inr (.inl ⟨rfl, rfl, by rw [Deed.onChannel, arm_of_accepted hr]⟩)
      | some fault =>
          exact .inr (.inr ⟨fault, rfl, rfl, by rw [Deed.onChannel, arm_of_refusal hr]⟩)

/-- The new control word asks for a start. -/
def Rises (old new : Control) : Prop :=
  new.has .startBusy = true ∧ old.has .startBusy = false ∨
    new.has .forceStart = true ∧ old.has .forceStart = false

/-- What the write of a control word comes to. -/
theorem writeControl_cases (p : Peer) (v : UInt32) (c : Channel) :
    let d := { c with control := storedControl p v }
    (c.running = true ∧ d.control.has .startBusy = false ∧
        Deed.onChannel (writeControl p v) c = (.ok (), d.abort)) ∨
      ((c.running = true → d.control.has .startBusy = true) ∧
        (Rises c.control d.control ∧ c.active = false ∧
            Deed.onChannel (writeControl p v) c = Deed.onChannel (arm p c.running) d ∨
          ¬ (Rises c.control d.control ∧ c.active = false) ∧
            Deed.onChannel (writeControl p v) c = (.ok (), d))) := by
  intro d
  by_cases ha : (c.running && !d.control.has .startBusy) = true
  · obtain ⟨hr, hb⟩ : c.running = true ∧ d.control.has .startBusy = false := by simpa using ha
    refine .inl ⟨hr, hb, ?_⟩
    rw [Deed.onChannel, writeControl, if_pos ha]
  · refine .inr ⟨fun hr => by simpa [hr] using ha, ?_⟩
    have hr : ((d.control.has .startBusy && !c.control.has .startBusy ||
        d.control.has .forceStart && !c.control.has .forceStart) && !c.active) = true ↔
          Rises c.control d.control ∧ c.active = false := by
      simp [Rises]
    have he : writeControl p v c = _ := if_neg ha
    -- An active channel goes on, whatever it is programmed for.
    by_cases hs : Rises c.control d.control ∧ c.active = false
    · refine .inl ⟨hs.1, hs.2, ?_⟩
      rw [Deed.onChannel, Deed.onChannel, he.trans (if_pos (hr.2 hs))]
      cases arm p c.running d <;> rfl
    · refine .inr ⟨hs, ?_⟩
      rw [Deed.onChannel, he.trans (if_neg (mt hr.1 hs))]

/-- What a request comes to. -/
theorem request_cases (p : Peer) (c : Channel) :
    (c.active = false ∧ c.control.has .startBusy = true ∧
        Deed.onChannel (request p) c = Deed.onChannel (arm p c.running) c) ∨
      ((c.active = true ∨ c.control.has .startBusy = false) ∧
        Deed.onChannel (request p) c = (.ok (), c)) := by
  by_cases h : (c.active || !c.control.has .startBusy) = true
  · refine .inr ⟨by simpa using h, ?_⟩
    rw [Deed.onChannel, request, if_pos h]
  · refine .inl ⟨(by simpa using h : _ ∧ _).1, (by simpa using h : _ ∧ _).2, ?_⟩
    rw [Deed.onChannel, Deed.onChannel, request, if_neg h]
    cases arm p c.running c <;> rfl

/-! ### Deeds -/

variable [Master β]

namespace Deed

/-- What the deed is answered with, and the channel after it. -/
def perform (p : Peer) : Deed β → Channel → Except Fault Unit × Channel
  | write r v mask => onChannel (Channel.write p r v mask)
  | request => onChannel (Channel.request p)
  | arm resume => onChannel (Channel.arm p resume)
  | step controller bus => onStage (Channel.step p) controller bus
  | finish last controller bus => onStage (Channel.finish p last) controller bus
  | reset => fun _ => (.ok (), initial p)
  | load base blocks control => fun _ => (.ok (), atRest p base blocks control)

def answer (p : Peer) (d : Deed β) (c : Channel) : Except Fault Unit := (d.perform p c).1

def after (p : Peer) (d : Deed β) (c : Channel) : Channel := (d.perform p c).2

/-- The accesses of the deed to the bus; nothing but a step makes any. -/
def touches (p : Peer) (c : Channel) : Deed β → List Touch
  | step controller bus => accesses p ⟨c, controller, bus⟩
  | _ => []

section After

variable (p : Peer) (c : Channel) (controller : Controller) (bus : β)

theorem perform_writeControl (v mask : UInt32) :
    (write .control v mask : Deed β).perform p c =
      onChannel (writeControl p (merge c.control.bits v mask)) c := by
  have h : Channel.write p .control v mask c =
      writeControl p (merge c.control.bits v mask) c := by rw [Channel.write]
  rw [perform, onChannel, onChannel, h]

theorem after_writeControl (v mask : UInt32) :
    (write .control v mask : Deed β).after p c =
      (onChannel (writeControl p (merge c.control.bits v mask)) c).2 := by
  rw [after, perform_writeControl]

theorem after_request : (request : Deed β).after p c = (onChannel (Channel.request p) c).2 := rfl

theorem after_step :
    (step controller bus).after p c =
      (Op.outcome (Channel.step p ⟨c, controller, bus⟩)).2.channel := by
  show (onStage (Channel.step p) controller bus c).2 = _
  rw [onStage]
  cases Channel.step p ⟨c, controller, bus⟩ <;> rfl

theorem after_finish (last : Bool) :
    (finish last controller bus).after p c = if last then completed p c else c.blockEnded := by
  show (onStage (Channel.finish p last) controller bus c).2 = _
  cases last with
  | true => rfl
  | false =>
      rw [onStage, Channel.finish, if_neg (by decide), endBlock, Op.bind_apply]
      rfl

end After

end Deed

/-- The property holds of every deed and the channel that it finds. -/
def Always (p : Peer) (P : Channel → Deed β → Prop) : Channel → List (Deed β) → Prop
  | _, [] => True
  | c, d :: ds => P c d ∧ Always p P (d.after p c) ds

instance Always.decide (p : Peer) (P : Channel → Deed β → Prop) [∀ c d, Decidable (P c d)] :
    ∀ (c : Channel) (ds : List (Deed β)), Decidable (Always p P c ds)
  | _, [] => .isTrue trivial
  | c, d :: ds =>
      have := Always.decide p P (d.after p c) ds
      inferInstanceAs (Decidable (P c d ∧ Always p P (d.after p c) ds))

/-- What follows from the property of each deed under an invariant follows in every history. -/
theorem Always.imp {p : Peer} {P Q : Channel → Deed β → Prop} {I : Channel → Prop}
    (hI : ∀ c d, I c → P c d → I (d.after p c)) (hQ : ∀ c d, I c → P c d → Q c d) :
    ∀ {ds : List (Deed β)} {c : Channel}, I c → Always p P c ds → Always p Q c ds
  | [], _, _, _ => trivial
  | d :: _, c, hc, h => by
      obtain ⟨hd, h⟩ := h
      exact ⟨hQ c d hc hd, Always.imp hI hQ (hI c d hc hd) h⟩

theorem always_true (p : Peer) : ∀ (c : Channel) (ds : List (Deed β)),
    Always p (fun _ _ => True) c ds
  | _, [] => trivial
  | c, d :: ds => ⟨trivial, always_true p (d.after p c) ds⟩

end Channel

end DmaMachine
