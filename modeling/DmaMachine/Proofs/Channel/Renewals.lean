import DmaMachine.Proofs.Channel.Intact

/-!
# Generations of a channel

A start, a resumption and an abort each put the channel in its next generation.  They can be told by
what they do to the two flags of the channel: a start or a resumption makes an inactive channel
active, and an abort ends a running transfer.

* `Intact.renews`: **a deed from outside puts the channel in its next generation exactly when it
  starts, resumes or aborts.**
* `Waits.write`: what a write does to a channel that waits.
-/

namespace DmaMachine

namespace Channel

variable {β : Type} {p : Peer} {c d : Channel}

/-- The channel is in a transfer, and somebody has to make it active again. -/
def Waits (c : Channel) : Prop := c.running = true ∧ c.active = false

instance : DecidablePred Waits := fun _ => inferInstanceAs (Decidable (_ ∧ _))

/-- Whether a start, a resumption or an abort has made the one channel the other. -/
def renewed (c d : Channel) : Bool := (!c.active && d.active) || (c.running && !d.running)

/-- The generation counts what has happened to the channel. -/
def Renews (c d : Channel) : Prop :=
  d.generation = c.generation + if renewed c d then 1 else 0

@[simp] theorem renewed_self (c : Channel) : renewed c c = false := by simp [renewed]

theorem Renews.of_eq (hr : d.running = c.running) (ha : d.active = c.active)
    (hg : d.generation = c.generation) : Renews c d := by
  simp [Renews, renewed, hr, ha, hg]

theorem Renews.of_next (h : renewed c d = true) (hg : d.generation = c.generation + 1) :
    Renews c d := by
  simp [Renews, h, hg]

/-- A channel that waits still does so exactly when nothing was done to it. -/
theorem Waits.renewed_eq_false_iff (h : c.Waits) : renewed c d = false ↔ d.Waits := by
  obtain ⟨hr, ha⟩ := h
  simp [renewed, hr, ha, Waits, and_comm]

theorem Waits.of_renewed_eq_false (h : c.Waits) (hn : renewed c d = false) : d.Waits :=
  h.renewed_eq_false_iff.1 hn

theorem generation_load (p : Peer) (c : Channel) : (c.load p).generation = c.generation := by
  unfold load
  dsimp only
  split <;> rfl

theorem arm_renews (ha : c.active = false) (resume : Bool) (hd : d.running = c.running)
    (hda : d.active = c.active) (hg : d.generation = c.generation) :
    Renews c (Deed.onChannel (arm p resume) d).2 := by
  have made : ∀ e : Channel, e.generation = c.generation → Renews c e.activate := fun e he =>
    .of_next (by simp [renewed, ha, activate]) (congrArg (· + 1) he)
  obtain ⟨-, h⟩ | ⟨-, -, h⟩ | ⟨_, -, -, h⟩ := arm_cases p resume d <;> rw [h]
  · exact made d hg
  · exact made _ ((generation_load p d).trans hg)
  · exact .of_eq hd hda hg

variable [Master β]

/-- A write, a request, or the resumption of a channel that waits. -/
def Deed.Outer (c : Channel) : Deed β → Prop
  | .write .. | .request => True
  | .arm resume => resume = true ∧ c.active = false
  | .step .. | .finish .. | .reset | .load .. => False

/-- **A deed from outside puts the channel in its next generation exactly when it starts, resumes or
aborts.** -/
theorem Deed.Outer.renews {e : Deed β} (h : e.Outer c) : Renews c (e.after p c) := by
  cases e with
  | write r v mask =>
      cases r with
      | base | blocks => exact .of_eq rfl rfl rfl
      | control =>
          rw [Deed.after_writeControl]
          obtain ⟨hr, -, h⟩ | ⟨-, ⟨-, ha, h⟩ | ⟨-, h⟩⟩ :=
            writeControl_cases p (merge c.control.bits v mask) c <;> rw [h]
          · exact .of_next (by simp [renewed, hr, abort]) rfl
          · exact arm_renews ha _ rfl rfl rfl
          · exact .of_eq rfl rfl rfl
  | request =>
      rw [Deed.after_request]
      obtain ⟨ha, -, h⟩ | ⟨-, h⟩ := request_cases p c <;> rw [h]
      · exact arm_renews ha _ rfl rfl rfl
      · exact .of_eq rfl rfl rfl
  | arm resume => exact arm_renews h.2 resume rfl rfl rfl
  | step | finish | reset | load => cases h

/-- Whether the deed raises the forced-start bit of a channel, which makes the channel active. -/
def Deed.forces (p : Peer) (c : Channel) : Deed β → Bool
  | .write .control v mask =>
      let k := storedControl p (merge c.control.bits v mask)
      k.has .forceStart && !c.control.has .forceStart &&
        (!c.active && ((Deed.write .control v mask : Deed β).after p c).active)
  | _ => false

/-- **A write to a channel that waits** forces its start, or aborts the transfer, or leaves it
waiting in the same generation. -/
theorem Waits.write (hw : c.Waits) (hc : Intact p c) (r : Register) (v mask : UInt32) :
    (Deed.write r v mask : Deed β).forces p c = true ∨
      ((Deed.write r v mask : Deed β).after p c).running = false ∨
        ((Deed.write r v mask : Deed β).after p c).Waits ∧
          ((Deed.write r v mask : Deed β).after p c).generation = c.generation := by
  cases r with
  | base | blocks => exact .inr (.inr ⟨hw, rfl⟩)
  | control =>
      rw [Deed.forces, Deed.after_writeControl]
      obtain ⟨-, -, h⟩ | ⟨-, ⟨hk, -, h⟩ | ⟨-, h⟩⟩ :=
        writeControl_cases p (merge c.control.bits v mask) c <;> rw [h]
      · exact .inr (.inl rfl)
      · -- The start bit of a running channel is up, so it is the forced start that rises.
        obtain ⟨-, hs⟩ | ⟨hf, hn⟩ := hk
        · exact absurd (hs.symm.trans (hc.started hw.1)) Bool.false_ne_true
        · replace hf : (storedControl p (merge c.control.bits v mask)).has .forceStart = true := hf
          have ha : ∀ d, (Deed.onChannel (arm p true) d).2.active = true := fun _ => rfl
          exact .inl (by rw [hw.1, hf, hn, hw.2, ha]; rfl)
      · exact .inr (.inr ⟨hw, rfl⟩)

end Channel

end DmaMachine
