import DmaMachine.Proofs.Channel.Mirrors
import DmaMachine.Proofs.Engine.Channels
import DmaMachine.Proofs.Engine.Meter
import DmaMachine.Proofs.Engine.Service

/-!
# Mirrored engines

Engines are *mirrored* when they have the same controller and each channel of the one mirrors the
channel of the other, all of them ahead by generations of their own.

* `Mirrors.get`, `Mirrors.due`: they show the same.
* `Mirrors.write`, `Mirrors.request`, `Mirrors.resume`: **what is done to them comes to the same**,
  if running channels keep their modes and a resumption is for the corresponding generation.
* `Mirrors.service`: so does a service pass.
-/

namespace DmaMachine

namespace Engine

variable {α β γ : Type} {k : Peer → UInt32} {e e' : Engine}

/-- The controllers are the same, and the channels mirrored. -/
structure Mirrors (k : Peer → UInt32) (e e' : Engine) : Prop where
  controller : e'.controller = e.controller
  channel : ∀ p, Channel.Mirrors p (k p) (e.channel p) (e'.channel p)

/-- Channels that go on running do so in the same mode. -/
def KeepsModes (e e' : Engine) : Prop := ∀ p, Channel.KeepsMode p (e.channel p) (e'.channel p)

instance (e e' : Engine) : Decidable (e.KeepsModes e') :=
  decidable_of_iff (∀ p ∈ Peer.all, Channel.KeepsMode p (e.channel p) (e'.channel p))
    ⟨fun h p => h p (Peer.mem_all p), fun h p _ => h p⟩

theorem Mirrors.setChannel (h : Mirrors k e e') {p : Peer} {c d : Channel}
    (hc : Channel.Mirrors p (k p) c d) : Mirrors k (e.setChannel p c) (e'.setChannel p d) where
  controller := h.controller
  channel q := by
    rw [channel_setChannel, channel_setChannel]
    split
    · rename_i hq
      exact hq ▸ hc
    · exact h.channel q

theorem Mirrors.withController (h : Mirrors k e e') (f : Controller → Controller) :
    Mirrors k { e with controller := f e.controller } { e' with controller := f e'.controller } :=
  ⟨congrArg f h.controller, h.channel⟩

/-! ### Registers -/

theorem Mirrors.due (h : Mirrors k e e') : e'.due = e.due := by
  simp only [Engine.due, h.controller, (h.channel _).active]

/-- **Registers read the same.** -/
theorem Mirrors.get (h : Mirrors k e e') (r : Register) : e'.get r = e.get r := by
  cases r with
  | channel p r =>
      have hc := h.channel p
      cases r <;> simp only [Engine.get, Channel.read, hc.base, hc.blocks, hc.control]
  | priority | interrupt | fixedLow | fixedHigh => simp only [Engine.get, h.controller]

theorem Mirrors.read (h : Mirrors k e e') (offset : UInt32) : e'.read offset = e.read offset := by
  simp only [Engine.read, h.get]

theorem Mirrors.onChannel (h : Mirrors k e e') {p : Peer} {op : Op Channel α}
    (ho : Op.Meets (· = ·) (Channel.Mirrors p (k p)) (op (e.channel p)) (op (e'.channel p))) :
    Op.Meets (· = ·) (Mirrors k) (Engine.onChannel p op e) (Engine.onChannel p op e') := by
  rw [Engine.onChannel, Engine.onChannel]
  generalize op (e.channel p) = u at ho
  generalize op (e'.channel p) = v at ho
  cases ho with
  | ok ha hc => exact .ok ha (h.setChannel hc)
  | error fault hc => exact .error fault (h.setChannel hc)

/-- The answer is given only if the controller enables the channel. -/
theorem Mirrors.enabled (h : Mirrors k e e') {p : Peer} {op : Op Channel Bool}
    (ho : Op.Meets (· = ·) (Channel.Mirrors p (k p)) (op (e.channel p)) (op (e'.channel p))) :
    Op.Meets (· = ·) (Mirrors k)
      (match Engine.onChannel p op e with
        | .ok active e => .ok (active && e.controller.enabled p.index) e
        | .error fault e => .error fault e)
      (match Engine.onChannel p op e' with
        | .ok active e => .ok (active && e.controller.enabled p.index) e
        | .error fault e => .error fault e) := by
  have hm := h.onChannel ho
  generalize Engine.onChannel p op e = u at hm
  generalize Engine.onChannel p op e' = v at hm
  cases hm with
  | ok ha he => exact .ok (by rw [ha, he.controller]) he
  | error fault he => exact .error fault he

/-- **The write of a register comes to the same**, if channels that go on running keep their
modes. -/
theorem Mirrors.put (h : Mirrors k e e') {r : Register} {v mask : UInt32}
    (hk : e.KeepsModes (Op.outcome (put r v mask e)).2) :
    Op.Meets (· = ·) (Mirrors k) (put r v mask e) (put r v mask e') := by
  cases r with
  | channel p r =>
      have he : (Op.outcome (Engine.put (.channel p r) v mask e)).2 =
          (Op.outcome (Engine.onChannel p (Channel.write p r v mask) e)).2 := by
        rw [Engine.put]
        cases Engine.onChannel p (Channel.write p r v mask) e <;> rfl
      have hp := hk p
      rw [he, channel_onChannel, if_pos rfl, Channel.Deed.snd_onChannel] at hp
      exact h.enabled ((h.channel p).write hp)
  | priority =>
      have hw := h.withController fun c => c.putPriority v mask
      exact .ok hw.due.symm hw
  | interrupt =>
      exact .ok rfl (h.withController fun c => c.putInterrupt v mask)
  | fixedLow | fixedHigh => exact .ok rfl h

theorem Mirrors.write (h : Mirrors k e e') {offset v mask : UInt32}
    (hk : e.KeepsModes (Op.outcome (write offset v mask e)).2) :
    Op.Meets (· = ·) (Mirrors k) (write offset v mask e) (write offset v mask e') := by
  rw [Engine.write] at hk ⊢
  rw [Engine.write]
  cases hr : Register.ofOffset offset with
  | error fault => exact .error fault h
  | ok r =>
      rw [hr] at hk
      exact h.put hk

/-! ### Becoming active otherwise -/

theorem Mirrors.request (h : Mirrors k e e') (p : Peer) :
    Op.Meets (· = ·) (Mirrors k) (request p e) (request p e') :=
  h.enabled (h.channel p).request

/-- A resumption since a generation, and since the corresponding one. -/
theorem Mirrors.resume (h : Mirrors k e e') (p : Peer) (generation : UInt32) :
    Op.Meets (· = ·) (Mirrors k) (resume p generation e) (resume p (generation - k p) e') := by
  have hc := h.channel p
  have hg : ((e'.channel p).generation != generation - k p) =
      ((e.channel p).generation != generation) := by
    rw [hc.generation, Bool.eq_iff_iff, bne_iff_ne, bne_iff_ne, ne_eq, UInt32.sub_left_inj]
  rw [Engine.resume, Engine.resume]
  simp only [hg, hc.running, hc.active]
  split
  · exact .ok rfl h
  · rename_i hn
    exact .ok (by rw [h.controller]) (h.setChannel (hc.activate (by simp at hn; exact hn.1.2)))

/-! ### Service -/

/-- The engines are mirrored, and the buses as `B` says. -/
structure MirrorsWith (k : Peer → UInt32) (B : β → γ → Prop) (s : Engine × β) (t : Engine × γ) :
    Prop where
  engine : Mirrors k s.1 t.1
  bus : B s.2 t.2

variable [Master β] [Master γ] {B : β → γ → Prop}

theorem step_twins (hB : Kindred B) {s : Engine × β} {t : Engine × γ} (hs : MirrorsWith k B s t)
    {p : Peer} (ha : (s.1.channel p).active = true) :
    Op.Meets (· = ·) (MirrorsWith k B) (step p s) (step p t) := by
  have hm := Stage.Mirrors.step hB (p := p) (k := k p)
    (s := ⟨s.1.channel p, s.1.controller, s.2⟩) (t := ⟨t.1.channel p, t.1.controller, t.2⟩)
    ⟨hs.engine.channel p, hs.engine.controller, hs.bus⟩ ha
  rw [step_eq, step_eq]
  generalize Channel.step p ⟨s.1.channel p, s.1.controller, s.2⟩ = u at hm
  generalize Channel.step p ⟨t.1.channel p, t.1.controller, t.2⟩ = v at hm
  cases hm with
  | ok h hu =>
      exact .ok h ⟨⟨hu.controller, (hs.engine.setChannel hu.channel).channel⟩, hu.bus⟩
  | error fault hu =>
      exact .error fault ⟨⟨hu.controller, (hs.engine.setChannel hu.channel).channel⟩, hu.bus⟩

theorem serviceEach_twins (hB : Kindred B) (ps : List Peer) :
    Op.Twins (· = ·) (MirrorsWith k B) (serviceEach ps) (serviceEach ps) := by
  induction ps with
  | nil => exact fun _ _ hs => .ok rfl hs
  | cons p ps ih =>
      intro s t hs
      rw [serviceEach_cons, serviceEach_cons, (hs.engine.channel p).active]
      split
      · rename_i ha
        refine .bind (step_twins hB hs ha) fun _ h hu => ?_
        cases h
        exact ih.seq (fun _ => .pure rfl) _ _ hu
      · exact ih s t hs

/-- **A service pass comes to the same.** -/
theorem service_twins (hB : Kindred B) :
    Op.Twins (· = ·) (MirrorsWith k B) service service := fun s t hs => by
  rw [service, service, hs.engine.controller]
  exact serviceEach_twins hB _ s t hs

end Engine

end DmaMachine
