import DmaMachine.Proofs.Channel.Intact
import DmaMachine.Proofs.Channel.Twins

/-!
# Mirrored channels

Of what a channel holds besides its registers nothing matters while no transfer runs, for a start
loads all of it anew; nor do generations matter but for their differences.  So a channel *mirrors*
one that has the same registers, runs when it does, and is akin to it as long as it runs.

* `Mirrors`: the one channel is `k` generations ahead of the other.
* `Mirrors.write`, `Mirrors.request`: **what is done to mirrored channels comes to the same**, if a
  running channel keeps its mode.
* `Mirrors.step`: so does a step of them.
-/

namespace DmaMachine

variable {β γ : Type} {p : Peer} {k : UInt32}

namespace Channel

variable {c d : Channel}

/-- What the channels show is the same, and what they hold for a transfer as long as it runs. -/
structure Resembles (p : Peer) (k : UInt32) (c d : Channel) : Prop where
  base : d.base = c.base
  blocks : d.blocks = c.blocks
  control : d.control = c.control
  generation : d.generation = c.generation - k
  running : d.running = c.running
  active : d.active = c.active
  transfer : c.running = true → Akin (c.mode p = .linkedList) k c d

/-- The channels are alike, and the one that is ahead is intact. -/
structure Mirrors (p : Peer) (k : UInt32) (c d : Channel) : Prop extends Resembles p k c d where
  intact : Intact p c

/-- A channel that goes on running does so in the same mode. -/
def KeepsMode (p : Peer) (c c' : Channel) : Prop :=
  c.running = true → c'.running = true → c'.mode p = c.mode p

instance (p : Peer) (c c' : Channel) : Decidable (KeepsMode p c c') :=
  inferInstanceAs (Decidable (_ → _ → _))

theorem Akin.resembles {L : Prop} (h : Akin L k c d)
    (hL : c.running = true → c.mode p = .linkedList → L) : Resembles p k c d := by
  obtain ⟨n, hn, rfl⟩ := h
  exact ⟨rfl, rfl, rfl, rfl, rfl, rfl, fun hr => ⟨n, fun hm => hn (hL hr hm), rfl⟩⟩

/-- Channels at rest are alike when their registers are the same. -/
theorem resembles_of_idle (hb : d.base = c.base) (hk : d.blocks = c.blocks)
    (hc : d.control = c.control) (hg : d.generation = c.generation - k)
    (hr : c.running = false) (hr' : d.running = false) (ha : d.active = c.active) :
    Resembles p k c d :=
  ⟨hb, hk, hc, hg, hr'.trans hr.symm, ha, fun h => absurd (hr.symm.trans h) Bool.false_ne_true⟩

theorem generation_succ (g k : UInt32) : g - k + 1 = g + 1 - k := by
  grind

/-! ### Starting and resuming -/

theorem Akin.activate {L : Prop} (h : Akin L k c d) : Akin L k c.activate d.activate := by
  obtain ⟨n, hn, rfl⟩ := h
  refine ⟨n, hn, ?_⟩
  simp only [Channel.activate, marked, generation_succ]

theorem mode_activate (p : Peer) (c : Channel) : c.activate.mode p = c.mode p := by
  simp [mode, Channel.activate]

/-- A start loads everything that a transfer needs. -/
theorem Resembles.load (h : Resembles p k c d) :
    Akin (c.mode p = .linkedList) k (c.load p).activate (d.load p).activate := by
  have hm : d.mode p = c.mode p := mode_congr h.control
  unfold Channel.load Channel.activate Akin marked
  dsimp only
  simp only [mode] at hm ⊢
  rw [hm, h.base, h.blocks, h.control]
  generalize (if p = .orderingTable then SyncMode.burst else c.control.syncMode) = m
  -- Only a list has a header next.
  cases m with
  | linkedList => exact ⟨_, fun _ => rfl, by simp [h.generation, generation_succ]⟩
  | burst | slice | reserved =>
      exact ⟨d.nextNode, (fun hm => by cases hm), by simp [h.generation, generation_succ]⟩

/-- **Starting or resuming comes to the same.** -/
theorem Resembles.arm (h : Resembles p k c d) :
    Op.Meets (· = ·) (Resembles p k) (arm p c.running c) (arm p d.running d) := by
  rw [h.running]
  cases hr : c.running with
  | true =>
      rw [arm_resume, arm_resume]
      exact .ok rfl ((h.transfer hr).activate.resembles fun _ hm =>
        (mode_activate p c).symm.trans hm)
  | false =>
      have hf : d.refusal? p = c.refusal? p := refusal?_of_control h.control
      cases hc : c.refusal? p with
      | some fault =>
          rw [arm_of_refusal hc, arm_of_refusal (hf.trans hc)]
          exact .error fault h
      | none =>
          rw [arm_of_accepted hc, arm_of_accepted (hf.trans hc)]
          refine .ok rfl (h.load.resembles fun _ hm => ?_)
          rwa [mode_activate, mode_congr (control_load p c)] at hm

/-- Starting or resuming, with the answer that the channel became active. -/
theorem Resembles.armed (h : Resembles p k c d) :
    Op.Meets (· = ·) (Resembles p k)
      (match Channel.arm p c.running c with
        | .ok () c => .ok true c
        | .error e c => .error e c)
      (match Channel.arm p d.running d with
        | .ok () d => .ok true d
        | .error e d => .error e d) := by
  have harm := h.arm
  generalize Channel.arm p c.running c = u at harm
  generalize Channel.arm p d.running d = v at harm
  cases harm with
  | ok _ hs => exact .ok rfl hs
  | error e hs => exact .error e hs

/-- A request of the peripheral. -/
theorem Resembles.request (h : Resembles p k c d) :
    Op.Meets (· = ·) (Resembles p k) (request p c) (request p d) := by
  have harm := h.armed
  simp only [Channel.request, h.active, h.control]
  split
  · exact .ok rfl h
  · exact harm

/-! ### Registers -/

/-- Channels of which neither runs any more. -/
theorem Resembles.abort (h : Resembles p k c d) : Resembles p k c.abort d.abort :=
  resembles_of_idle h.base h.blocks h.control
    ((congrArg (· + 1) h.generation).trans (generation_succ ..)) rfl rfl rfl

theorem Resembles.stored (h : Resembles p k c d) {control : Control}
    (hm : c.running = true → mode p { c with control } = c.mode p) :
    Resembles p k { c with control } { d with control } :=
  { h with
    control := rfl
    transfer := fun hr => by
      rw [hm hr]
      exact (h.transfer hr).apply (g := fun c => { c with control }) fun _ _ _ => rfl }

/-- A running channel that shows its start bit under a new control word goes on under it. -/
theorem goesOn_writeControl {v : UInt32} (hr : c.running = true)
    (hb : (storedControl p v).has .startBusy = true) :
    (Op.outcome (writeControl p v c)).2.running = true ∧
      (Op.outcome (writeControl p v c)).2.mode p =
        mode p { c with control := storedControl p v } := by
  rw [writeControl, hr]
  dsimp only
  rw [if_neg (by simp [hb])]
  split
  · exact ⟨rfl, mode_activate p _⟩
  · exact ⟨rfl, rfl⟩

/-- **The write of a control word comes to the same**, if a channel that goes on running keeps its
mode. -/
theorem Resembles.writeControl (h : Resembles p k c d) {v : UInt32}
    (hk : KeepsMode p c (Op.outcome (writeControl p v c)).2) :
    Op.Meets (· = ·) (Resembles p k) (writeControl p v c) (writeControl p v d) := by
  have hm : c.running = true → (storedControl p v).has .startBusy = true →
      mode p { c with control := storedControl p v } = c.mode p := fun hr hb => by
    obtain ⟨hr', hm⟩ := goesOn_writeControl hr hb
    exact hm.symm.trans (hk hr hr')
  simp only [Channel.writeControl, h.running, h.active, h.control]
  by_cases ha : (c.running && !(storedControl p v).has .startBusy) = true
  · rw [if_pos ha, if_pos ha]
    -- The word that is stored matters no more than the one before: the transfer is given up.
    have hd : Resembles p k { c with control := storedControl p v, running := false }
        { d with control := storedControl p v, running := false } :=
      resembles_of_idle h.base h.blocks rfl h.generation rfl rfl h.active
    exact .ok rfl hd.abort
  · rw [if_neg ha, if_neg ha]
    have hd : Resembles p k { c with control := storedControl p v }
        { d with control := storedControl p v } :=
      h.stored fun hr => hm hr (by simpa [hr] using ha)
    have harm := hd.armed
    simp only [h.running, h.active] at hd harm
    split
    · exact harm
    · exact .ok rfl hd

/-- **The write of a register comes to the same**, if a channel that goes on running keeps its
mode. -/
theorem Resembles.write (h : Resembles p k c d) {r : Register} {v mask : UInt32}
    (hk : KeepsMode p c (Op.outcome (write p r v mask c)).2) :
    Op.Meets (· = ·) (Resembles p k) (write p r v mask c) (write p r v mask d) := by
  cases r with
  | base =>
      rw [Channel.write, Channel.write, h.base]
      exact .ok rfl { h with
        base := rfl
        transfer := fun hr => (h.transfer hr).apply
          (g := fun c => { c with base := _ }) fun _ _ _ => rfl }
  | blocks =>
      rw [Channel.write, Channel.write, h.blocks]
      exact .ok rfl { h with
        blocks := rfl
        transfer := fun hr => (h.transfer hr).apply
          (g := fun c => { c with blocks := _ }) fun _ _ _ => rfl }
  | control =>
      rw [Channel.write] at hk
      rw [Channel.write, Channel.write, h.control]
      exact h.writeControl hk

/-! ### Mirrored channels -/

theorem Mirrors.write (h : Mirrors p k c d) {r : Register} {v mask : UInt32}
    (hk : KeepsMode p c (Op.outcome (write p r v mask c)).2) :
    Op.Meets (· = ·) (Mirrors p k) (write p r v mask c) (write p r v mask d) :=
  ((h.toResembles.write hk).and (h.intact.write r v mask)).imp fun _ _ hs => ⟨hs.1, hs.2⟩

theorem Mirrors.request (h : Mirrors p k c d) :
    Op.Meets (· = ·) (Mirrors p k) (request p c) (request p d) :=
  (h.toResembles.request.and h.intact.request).imp fun _ _ hs => ⟨hs.1, hs.2⟩

/-- A running channel that is resumed. -/
theorem Mirrors.activate (h : Mirrors p k c d) (hr : c.running = true) :
    Mirrors p k c.activate d.activate :=
  ⟨(h.transfer hr).activate.resembles fun _ hm => (mode_activate p c).symm.trans hm,
    h.intact.activate⟩

section Step

variable [Master β]

theorem Attempt.perform_control (a : Attempt) (p : Peer) (s : Stage β) :
    (Op.outcome (a.perform p s)).2.channel.control = s.channel.control := by
  obtain ⟨held, h | h | ⟨f, t, ha, h⟩⟩ := a.perform_channel p s <;> rw [h]
  · rfl
  · exact (access_keeps ha _).1

/-- No step changes the mode of the channel. -/
theorem step_mode (p : Peer) (s : Stage β) :
    (Op.outcome (step p s)).2.channel.mode p = s.channel.mode p := by
  have hr := step_course p s
  generalize step p s = r at hr
  cases hr with
  | idle => rfl
  | completed h | lastBlock h => 
      refine Eq.trans ?_ (mode_congr h.keeps.2.1)
      simp [mode, completed, countBlock]
  | blockDone h | chopped _ h | refused _ h => exact mode_congr h.keeps.2.1
  | @faulted u t a h _ ha | @failed u t e a h _ ha =>
      have ht := a.perform_control p u
      rw [ha] at ht
      exact mode_congr (ht.trans h.keeps.2.1)

end Step

end Channel

/-- The channels of the stages are mirrored, and the rest is the same to them. -/
structure Stage.Mirrors (p : Peer) (k : UInt32) (B : β → γ → Prop) (s : Stage β) (t : Stage γ) :
    Prop where
  channel : Channel.Mirrors p k s.channel t.channel
  controller : t.controller = s.controller
  bus : B s.bus t.bus

/-- **A step of mirrored channels comes to the same.** -/
theorem Stage.Mirrors.step [Master β] [Master γ] {B : β → γ → Prop} (hB : Kindred B) {s : Stage β}
    {t : Stage γ} (hs : Mirrors p k B s t) (ha : s.channel.active = true) :
    Op.Meets (· = ·) (Mirrors p k B) (Channel.step p s) (Channel.step p t) := by
  have hr := hs.channel.intact.running ha
  have hm := (hB.step (Channel.akin_unseen _ k) id
    ⟨hs.channel.transfer hr, hs.controller, hs.bus⟩).and
    (P := fun u => u.channel.mode p = s.channel.mode p ∧ Channel.Intact p u.channel)
    ⟨Channel.step_mode p s, Channel.step_intact hs.channel.intact⟩
  refine hm.imp fun u v hu => ⟨⟨hu.1.channel.resembles fun _ hl => hu.2.1.symm.trans hl, hu.2.2⟩,
    hu.1.controller, hu.1.bus⟩

end DmaMachine
