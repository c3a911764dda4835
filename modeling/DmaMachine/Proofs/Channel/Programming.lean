import DmaMachine.Proofs.Channel.History

/-!
# Validated programming

A programming is validated when a transfer starts, and every unit reads the control word anew.  A
channel that is running may be programmed again, and nobody looks at what the new programming asks
for, until the transfer is over.

* `accesses_judged`: **an access of a step is one that the peer supports exactly when the
  programming at that moment is one that a start would accept.**
* `validated_iff`: the histories of a channel all of whose accesses are supported: those where no
  step makes an access while a running transfer is programmed for what a start would refuse.
  Programming a running transfer so is one of two ways to get there; the other is resuming a
  transfer that never started.
-/

namespace DmaMachine

/-- The way that an access moves data.  What is below `2^24` is memory, and the rest a port. -/
def Touch.direction (x : Touch) : Direction :=
  if decide (x.address ≤ addressMask) = x.isWrite then .toRam else .fromRam

namespace Channel

variable {β : Type} {p : Peer} {c d : Channel}

/-! ### Programmings -/

/-- The access belongs to a transfer that the peer supports, under this programming. -/
def Allowed (p : Peer) (c : Channel) (x : Touch) : Prop :=
  p.supports x.direction = true ∧
    (c.mode p = .linkedList → p = .graphics ∧ c.control.direction = .fromRam)

/-- What is true of a channel in every history. -/
structure Proper (p : Peer) (c : Channel) : Prop where
  address_le : c.address ≤ addressMask
  nextNode_le : c.nextNode ≤ addressMask
  running : c.active = true → c.running = true
  table_toRam : p = .orderingTable → c.control.direction = .toRam

/-- **A programming is accepted** when its mode is one of the peer's, and its direction is. -/
theorem refusal?_eq_none_iff : c.refusal? p = none ↔
    c.mode p ≠ .reserved ∧ p.supports c.control.direction = true ∧
      (c.mode p = .linkedList → p = .graphics ∧ c.control.direction = .fromRam) := by
  have hd : c.control.direction = .toRam ↔ c.control.direction ≠ .fromRam := by
    cases c.control.direction <;> simp
  rw [refusal?]
  by_cases hr : c.mode p = .reserved
  · simp [hr]
  by_cases hl : c.mode p = .linkedList
  · by_cases hp : p = .graphics
    · subst hp
      cases c.control.direction <;> simp [hl, Peer.walksLists, Peer.supports]
    · simp [hl, hp, Peer.walksLists]
  · cases hs : p.supports c.control.direction <;> simp [hr, hl]

theorem refusal?_congr (hd : d.control.direction = c.control.direction)
    (hm : d.control.syncMode = c.control.syncMode) : d.refusal? p = c.refusal? p := by
  have hmode : d.mode p = c.mode p := by rw [mode, mode, hm]
  have hf : d.modeFault p = c.modeFault p := by rw [modeFault, modeFault, hm]
  have hg : d.directionFault p = c.directionFault p := by rw [directionFault, directionFault, hd]
  simp only [refusal?, hmode, hf, hg, hd]

theorem refusal?_of_control (h : d.control = c.control) : d.refusal? p = c.refusal? p :=
  refusal?_congr (by rw [h]) (by rw [h])

/-! ### Attempts under a programming -/

/-- A port is not in memory. -/
theorem port_not_le {port : DataPort} (h : p.port? = some port) : ¬ port.address ≤ addressMask := by
  cases p <;> cases h <;> decide

theorem Attempt.Makes.direction {a : Attempt} {x : Touch} (hc : Proper p c) (hf : a.Fits p c)
    (h : a.Makes p c x) : x.direction = match a with
      | .unit => c.control.direction
      | .header => .fromRam
      | .entry _ => .toRam := by
  obtain ⟨isWrite, w, address, v⟩ := x
  cases a with
  | unit =>
      -- The four sides of a unit: read or written, in memory or at the port.
      cases hd : c.control.direction <;> cases isWrite <;>
        simp only [Makes, Reads, Writes, hd, if_true, if_false, Bool.false_eq_true] at h
      · have := port_not_le h
        simp_all [Touch.direction]
      · simp [Touch.direction, h.2, hc.address_le]
      · simp [Touch.direction, h.2, hc.address_le]
      · have := port_not_le h
        simp_all [Touch.direction]
  | header =>
      cases isWrite <;> simp [Makes, Reads, Writes] at h
      simp [Touch.direction, h.2, hc.nextNode_le]
  | entry n =>
      cases isWrite <;> simp [Makes, Reads, Writes] at h
      simp [Touch.direction, h.2, hc.address_le]

/-- **An access of an attempt is supported exactly when the programming is accepted.** -/
theorem Attempt.Makes.allowed_iff {a : Attempt} {x : Touch} (hc : Proper p c) (hf : a.Fits p c)
    (h : a.Makes p c x) : Allowed p c x ↔ c.refusal? p = none := by
  rw [refusal?_eq_none_iff, Allowed, h.direction hc hf]
  cases a with
  | unit => exact ⟨fun h => ⟨hf.2, h⟩, fun h => h.2⟩
  | header =>
      -- The header is read out of memory, even if the words of the node would go the other way.
      have hl : c.mode p = .linkedList := hf
      constructor
      · rintro ⟨hs, hg⟩
        obtain ⟨hp, hd⟩ := hg hl
        exact ⟨by simp [hl], by rwa [hd], fun _ => ⟨hp, hd⟩⟩
      · rintro ⟨-, hs, hg⟩
        obtain ⟨hp, hd⟩ := hg hl
        exact ⟨by rwa [hd] at hs, fun _ => ⟨hp, hd⟩⟩
  | entry n =>
      obtain rfl : p = .orderingTable := hf
      have hm : c.mode .orderingTable = .burst := rfl
      simp [hm, hc.table_toRam rfl]

/-! ### What every step keeps -/

theorem word_and_le (v : UInt32) : v &&& wordAddressMask ≤ addressMask :=
  Nat.le_trans UInt32.and_le_right (by decide)

theorem Proper.of_eq (hc : Proper p c) (ha : d.address = c.address)
    (hn : d.nextNode = c.nextNode) (hr : d.active = true → d.running = true)
    (hd : d.control.direction = c.control.direction) : Proper p d :=
  ⟨by rw [ha]; exact hc.address_le, by rw [hn]; exact hc.nextNode_le, hr,
    by rw [hd]; exact hc.table_toRam⟩

theorem Proper.held (hc : Proper p c) (held : Option UInt32) : Proper p { c with held } :=
  hc.of_eq rfl rfl hc.running rfl

theorem Proper.halted (hc : Proper p c) : Proper p c.halted :=
  hc.of_eq rfl rfl nofun rfl

section Steps

variable [Master β] {s t u : Stage β}

theorem Attempt.access_proper {a : Attempt} {f : Channel → Channel}
    (h : a.access p s = .ok (some f) t) (hc : Proper p c) : Proper p (f c) := by
  cases a with
  | unit =>
      obtain ⟨through, u, -, h⟩ := Op.bind_eq_ok.1 h
      cases through <;> cases h
      exact ⟨UInt32.and_le_right, hc.nextNode_le, hc.running, hc.table_toRam⟩
  | header =>
      obtain ⟨_, _, -, h⟩ := Op.bind_eq_ok.1 h
      obtain ⟨header, _, -, h⟩ := Op.bind_eq_ok.1 h
      cases h
      exact ⟨UInt32.and_le_right, word_and_le _, hc.running, hc.table_toRam⟩
  | entry n =>
      obtain ⟨_, _, -, h⟩ := Op.bind_eq_ok.1 h
      obtain ⟨_, _, -, h⟩ := Op.bind_eq_ok.1 h
      cases h
      exact ⟨UInt32.and_le_right, hc.nextNode_le, hc.running, hc.table_toRam⟩

theorem Attempt.perform_proper (a : Attempt) (hc : Proper p s.channel) :
    Proper p (Op.outcome (a.perform p s)).2.channel := by
  obtain ⟨held, h | h | ⟨f, t, ha, h⟩⟩ := a.perform_channel p s <;> rw [h]
  · exact hc.held held
  · exact (hc.held held).halted
  · exact access_proper ha (hc.held held)

theorem Through.proper (h : Through p s u) (hc : Proper p s.channel) : Proper p u.channel := by
  induction h with
  | none => exact hc
  | next a hf ha _ ih =>
      have ht := a.perform_proper hc
      rw [ha] at ht
      exact ih ht

theorem step_proper (hc : Proper p s.channel) :
    Proper p (Op.outcome (step p s)).2.channel := by
  have hs : ∀ {k : Control}, (k.set .startBusy false).direction = k.direction :=
    Control.direction_set _ (by decide) _
  have hr := step_course p s
  generalize step p s = r at hr
  cases hr with
  | idle => exact hc
  | completed hu | lastBlock hu => exact (hu.proper hc).of_eq rfl rfl nofun hs
  | blockDone hu => exact (hu.proper hc).of_eq rfl rfl nofun rfl
  | chopped _ hu => exact (hu.proper hc).halted
  | faulted a hu hf ha | failed a hu hf ha =>
      have ht := a.perform_proper (hu.proper hc)
      rw [ha] at ht
      exact ht
  | refused e hu => exact hu.proper hc

end Steps

/-! ### The accesses of a step -/

/-- The access is one that the peer supports exactly when the programming is accepted. -/
def Judged (p : Peer) (c : Channel) (x : Touch) : Prop := Allowed p c x ↔ c.refusal? p = none

theorem Judged.congr (hc : d.control = c.control) {x : Touch} (h : Judged p d x) :
    Judged p c x := by
  rw [Judged, Allowed, ← mode_congr hc, ← hc, ← refusal?_of_control hc]
  exact h

section Accesses

open Recorder (Logs logs_chains)

variable [Master β] {s u : Stage (Recorder β)}

theorem Attempt.perform_logs {a : Attempt} (hc : Proper p s.channel) (hf : a.Fits p s.channel) :
    Logs (Judged p s.channel) s.bus (Op.outcome (a.perform p s)).2.bus := by
  have hl := (a.access_logs p s).1.mono fun x hx => hx.allowed_iff hc hf
  rw [perform_eq]
  cases ha : a.access p s with
  | error e t =>
      rw [ha] at hl
      exact hl
  | ok f t =>
      rw [ha] at hl
      cases f with
      | none => exact hl
      | some f => cases hr : raised t <;> simp only [settled, hr] <;> exact hl

theorem Through.logs (h : Through p s u) (hc : Proper p s.channel) :
    Logs (Judged p s.channel) s.bus u.bus := by
  induction h with
  | none => exact (logs_chains _).refl _
  | @next s t u a hf ha hu ih =>
      have ht := a.perform_proper hc
      have hl := a.perform_logs hc hf
      rw [ha] at ht hl
      have hk : t.channel.control = s.channel.control :=
        (Through.next a hf ha (.none t)).keeps.2.1
      exact (logs_chains _).trans hl ((ih ht).mono fun x hx => hx.congr hk)

theorem step_logs (hc : Proper p s.channel) :
    Logs (Judged p s.channel) s.bus (Op.outcome (step p s)).2.bus := by
  have hr := step_course p s
  generalize step p s = r at hr
  cases hr with
  | idle => exact (logs_chains _).refl _
  | completed hu | lastBlock hu | blockDone hu | chopped _ hu | refused _ hu => exact hu.logs hc
  | faulted a hu hf ha | failed a hu hf ha =>
      have hl := a.perform_logs (hu.proper hc) hf
      rw [ha] at hl
      exact (logs_chains _).trans (hu.logs hc) (hl.mono fun x hx => hx.congr hu.keeps.2.1)

end Accesses

/-- **An access of a step is one that the peer supports exactly when the programming is
accepted.** -/
theorem accesses_judged [Master β] {s : Stage β} (hc : Proper p s.channel) {x : Touch}
    (hx : x ∈ accesses p s) : Allowed p s.channel x ↔ s.channel.refusal? p = none := by
  obtain ⟨k, hk, hp⟩ := step_logs (s := s.recorded) hc
  rw [accesses, hk] at hx
  exact hp x hx

/-! ### What every deed keeps -/

theorem direction_stored (v : UInt32) : (storedControl .orderingTable v).direction = .toRam := by
  have hb : bit 0x51000000 0 = false := by decide
  have hs : (Control.set ⟨v &&& 0x51000000⟩ .decrement true).direction =
      (⟨v &&& 0x51000000⟩ : Control).direction := Control.direction_set _ (by decide) _
  rw [storedControl, if_pos rfl, hs]
  simp [Control.direction, Control.has, Control.Flag.position, hb]

theorem Proper.stored (hc : Proper p c) (v : UInt32) :
    Proper p { c with control := storedControl p v } := by
  refine ⟨hc.address_le, hc.nextNode_le, hc.running, ?_⟩
  rintro rfl
  exact direction_stored v

/-- A channel at rest is proper. -/
theorem proper_of_stored {v : UInt32} (ha : c.address = 0) (hn : c.nextNode = 0)
    (hr : c.active = false) (hv : c.control = storedControl p v) : Proper p c := by
  have h0 : (0 : UInt32) ≤ addressMask := by decide
  refine ⟨by rwa [ha], by rwa [hn], fun h => ?_, ?_⟩
  · exact absurd (hr.symm.trans h) Bool.false_ne_true
  · rintro rfl
    rw [hv]
    exact direction_stored v

theorem proper_initial (p : Peer) : Proper p (initial p) := proper_of_stored rfl rfl rfl rfl

theorem direction_activate (c : Channel) :
    c.activate.control.direction = c.control.direction := by
  rw [activate, Control.direction_set _ (by decide), Control.direction_set _ (by decide)]

@[simp] theorem refusal?_activate (p : Peer) (c : Channel) :
    c.activate.refusal? p = c.refusal? p :=
  refusal?_congr (direction_activate c) (by simp [activate])

theorem Proper.activate (hc : Proper p c) : Proper p c.activate :=
  hc.of_eq rfl rfl (fun _ => rfl) (direction_activate c)

@[simp] theorem control_load (p : Peer) (c : Channel) : (c.load p).control = c.control := by
  rw [load]
  dsimp only
  split <;> rfl

theorem Proper.load (hc : Proper p c) : Proper p (c.load p) := by
  have ht := hc.table_toRam
  rw [← control_load p c] at ht
  refine ⟨?_, ?_, ?_, ht⟩ <;> rw [Channel.load] <;> dsimp only <;> split
  all_goals first | exact word_and_le _ | exact hc.nextNode_le | exact hc.running

@[simp] theorem refusal?_load (p : Peer) (c : Channel) : (c.load p).refusal? p = c.refusal? p :=
  refusal?_of_control (control_load p c)

theorem Proper.arm (hc : Proper p c) (resume : Bool) :
    Proper p (Deed.onChannel (arm p resume) c).2 := by
  obtain ⟨-, h⟩ | ⟨-, -, h⟩ | ⟨_, -, -, h⟩ := arm_cases p resume c <;> rw [h]
  · exact hc.activate
  · exact hc.load.activate
  · exact hc

/-- **Every deed keeps a channel proper.** -/
theorem Proper.after [Master β] (hc : Proper p c) (d : Deed β) : Proper p (d.after p c) := by
  cases d with
  | write r v mask =>
      cases r with
      | base | blocks => exact ⟨hc.address_le, hc.nextNode_le, hc.running, hc.table_toRam⟩
      | control =>
          have hs := hc.stored (merge c.control.bits v mask)
          rw [Deed.after_writeControl]
          obtain ⟨-, -, h⟩ | ⟨-, ⟨-, -, h⟩ | ⟨-, h⟩⟩ :=
            writeControl_cases p (merge c.control.bits v mask) c <;> rw [h]
          · exact hs.of_eq rfl rfl nofun rfl
          · exact hs.arm c.running
          · exact hs
  | request =>
      rw [Deed.after_request]
      obtain ⟨-, -, h⟩ | ⟨-, h⟩ := request_cases p c <;> rw [h]
      · exact hc.arm c.running
      · exact hc
  | arm resume => exact hc.arm resume
  | step controller bus =>
      rw [Deed.after_step]
      exact step_proper hc
  | finish last controller bus =>
      rw [Deed.after_finish]
      cases last with
      | true => exact hc.of_eq rfl rfl nofun (Control.direction_set _ (by decide) _)
      | false => exact hc.of_eq rfl rfl nofun rfl
  | reset => exact proper_initial p
  | load base blocks control => exact proper_of_stored rfl rfl rfl rfl

/-! ### Straying -/

/-- A transfer is running under a programming that a start would refuse. -/
def Strayed (p : Peer) (c : Channel) : Prop := c.running = true ∧ c.refusal? p ≠ none

/-- The deed does not make a transfer stray: it does not program a running one for what a start
would refuse, and it does not resume one under such a programming that never started. -/
def Careful (p : Peer) (c : Channel) : Deed β → Prop
  | .write .control v mask =>
      c.running = true → (storedControl p (merge c.control.bits v mask)).has .startBusy = true →
        refusal? p { c with control := storedControl p (merge c.control.bits v mask) } = none
  | .arm true => c.running = false → c.refusal? p = none
  | _ => True

/-- The deed asks for the start of a transfer, if none is running. -/
def Starts (p : Peer) (c : Channel) : Deed β → Prop
  | .write .control v mask =>
      Rises c.control (storedControl p (merge c.control.bits v mask))
  | .request => c.control.has .startBusy = true
  | .arm resume => resume = false
  | _ => False

theorem not_strayed_of_eq (hc : ¬ Strayed p c) (hr : d.running = true → c.running = true)
    (hd : d.control = c.control) : ¬ Strayed p d := by
  rintro ⟨ht, hf⟩
  exact hc ⟨hr ht, fun h => hf ((refusal?_of_control hd).trans h)⟩

theorem not_strayed_arm (h : ¬ Strayed p c) {resume : Bool}
    (hr : resume = true → c.running = false → c.refusal? p = none) :
    ¬ Strayed p (Deed.onChannel (arm p resume) c).2 := by
  rintro ⟨ht, hf⟩
  obtain ⟨hk, ha⟩ | ⟨-, hk, ha⟩ | ⟨_, -, -, ha⟩ := arm_cases p resume c <;> rw [ha] at ht hf
  · have hf : c.refusal? p ≠ none := by simpa using hf
    cases hc : c.running with
    | true => exact h ⟨hc, hf⟩
    | false => exact hf (hr hk hc)
  · exact hf (by simpa using hk)
  · exact h ⟨ht, hf⟩

/-! ### What a step keeps of a programming -/

section Steps

variable [Master β] {s u : Stage β}

theorem Attempt.perform_keeps (a : Attempt) (p : Peer) (s : Stage β) :
    (Op.outcome (a.perform p s)).2.channel.control = s.channel.control ∧
      (Op.outcome (a.perform p s)).2.channel.running = s.channel.running := by
  obtain ⟨held, h | h | ⟨f, t, ha, h⟩⟩ := a.perform_channel p s <;> rw [h]
  · exact ⟨rfl, rfl⟩
  · exact ⟨rfl, rfl⟩
  · exact (access_keeps ha _).imp id And.left

/-- A step leaves the control word alone, or ends the transfer and takes the start bit down. -/
theorem step_ends (p : Peer) (s : Stage β) :
    let c := (Op.outcome (step p s)).2.channel
    (c.running = s.channel.running ∧ c.control = s.channel.control) ∨
      (c.running = false ∧ c.control = s.channel.control.set .startBusy false) := by
  have hr := step_course p s
  generalize step p s = r at hr
  cases hr with
  | idle => exact .inl ⟨rfl, rfl⟩
  | completed hu | lastBlock hu =>
      obtain ⟨-, hk, -, -⟩ := hu.keeps
      exact .inr ⟨rfl, congrArg (·.set .startBusy false) hk⟩
  | blockDone hu | chopped _ hu | refused _ hu =>
      obtain ⟨-, hk, hr, -⟩ := hu.keeps
      exact .inl ⟨hr, hk⟩
  | @faulted u t a hu hf ha | @failed u t e a hu hf ha =>
      obtain ⟨-, hk, hr, -⟩ := hu.keeps
      obtain ⟨hk', hr'⟩ := a.perform_keeps p u
      rw [ha] at hk' hr'
      exact .inl ⟨hr'.trans hr, hk'.trans hk⟩

/-- A transfer that is running after a step was running before, under the same programming. -/
theorem step_keeps (h : (Op.outcome (step p s)).2.channel.running = true) :
    s.channel.running = true ∧
      (Op.outcome (step p s)).2.channel.control = s.channel.control := by
  obtain ⟨hr, hk⟩ | ⟨hr, -⟩ := step_ends p s
  · exact ⟨hr.symm.trans h, hk⟩
  · exact absurd (hr.symm.trans h) Bool.false_ne_true

end Steps

/-- **A careful deed makes no transfer stray.** -/
theorem not_strayed_after [Master β] {d : Deed β} (hc : ¬ Strayed p c) (hd : Careful p c d) :
    ¬ Strayed p (d.after p c) := by
  cases d with
  | write r v mask =>
      cases r with
      | base => exact not_strayed_of_eq hc id rfl
      | blocks => exact not_strayed_of_eq hc id rfl
      | control =>
          rw [Deed.after_writeControl]
          obtain ⟨-, -, h⟩ | ⟨hb, ⟨-, -, h⟩ | ⟨-, h⟩⟩ :=
            writeControl_cases p (merge c.control.bits v mask) c <;> rw [h]
          · exact fun hs => absurd hs.1 Bool.false_ne_true
          -- A running transfer is resumed unseen, and a fresh one is validated.
          · refine not_strayed_arm (fun hs => hs.2 (hd hs.1 (hb hs.1))) fun hr hn => ?_
            exact absurd (hn.symm.trans hr) Bool.false_ne_true
          · exact fun hs => hs.2 (hd hs.1 (hb hs.1))
  | request =>
      rw [Deed.after_request]
      obtain ⟨-, -, h⟩ | ⟨-, h⟩ := request_cases p c <;> rw [h]
      · exact not_strayed_arm hc fun hr hn => absurd (hn.symm.trans hr) Bool.false_ne_true
      · exact hc
  | arm resume =>
      refine not_strayed_arm hc ?_
      rintro rfl
      exact hd
  | step controller bus =>
      rw [Deed.after_step]
      rintro ⟨hr, hf⟩
      obtain ⟨hs, hk⟩ := step_keeps hr
      exact hc ⟨hs, fun h => hf ((refusal?_of_control hk).trans h)⟩
  | finish last controller bus =>
      rw [Deed.after_finish]
      cases last with
      | true => exact fun hs => absurd hs.1 Bool.false_ne_true
      | false => exact not_strayed_of_eq hc id rfl
  | reset => exact fun hs => absurd hs.1 Bool.false_ne_true
  | load base blocks control => exact fun hs => absurd hs.1 Bool.false_ne_true

/-! ### Answers -/

/-- The answer is what the programming left behind is refused for, if it is. -/
def Told (p : Peer) (r : Except Fault Unit × Channel) : Prop :=
  r.1 = match r.2.refusal? p with
    | some fault => .error fault
    | none => .ok ()

theorem arm_told (p : Peer) (c : Channel) : Told p (Deed.onChannel (arm p false) c) := by
  obtain ⟨hk, -⟩ | ⟨-, hk, ha⟩ | ⟨fault, -, hk, ha⟩ := arm_cases p false c
  · cases hk
  · rw [Told, ha, refusal?_activate, refusal?_load, hk]
  · rw [Told, ha, hk]

theorem Proper.active_eq_false (hc : Proper p c) (hn : c.running = false) : c.active = false := by
  by_contra ha
  rw [Bool.not_eq_false] at ha
  exact absurd (hn.symm.trans (hc.running ha)) Bool.false_ne_true

/-- The channel with the control word that the deed leaves. -/
def Deed.programmed (p : Peer) (c : Channel) : Deed β → Channel
  | .write .control v mask => { c with control := storedControl p (merge c.control.bits v mask) }
  | _ => c

/-- Nothing else is programmed. -/
theorem Deed.programmed_eq (d : Deed β) (p : Peer) (c : Channel) :
    ∃ control, d.programmed p c = { c with control } := by
  cases d with
  | write r v mask => cases r <;> exact ⟨_, rfl⟩
  | request | arm | step | finish | reset | load => exact ⟨_, rfl⟩

theorem Proper.programmed (hc : Proper p c) (d : Deed β) : Proper p (d.programmed p c) := by
  cases d with
  | write r v mask =>
      cases r with
      | base | blocks => exact hc
      | control => exact hc.stored _
  | request | arm | step | finish | reset | load => exact hc

variable [Master β] {d : Deed β}

/-- **A deed that asks for a start** of a channel that is not running starts the transfer that is
then programmed. -/
theorem Proper.perform_start (hc : Proper p c) (hn : c.running = false) (hs : Starts p c d) :
    d.perform p c = Deed.onChannel (Channel.arm p false) (d.programmed p c) := by
  have ha := hc.active_eq_false hn
  cases d with
  | write r v mask =>
      cases r with
      | base | blocks => cases hs
      | control =>
          rw [Deed.perform_writeControl]
          obtain ⟨hr, -, -⟩ | ⟨-, ⟨-, -, h⟩ | ⟨hf, -⟩⟩ :=
            writeControl_cases p (merge c.control.bits v mask) c
          · exact absurd (hn.symm.trans hr) Bool.false_ne_true
          · exact h.trans (congrArg (fun r => Deed.onChannel (Channel.arm p r) _) hn)
          · exact absurd ⟨hs, ha⟩ hf
  | request =>
      show Deed.onChannel (Channel.request p) c = _
      obtain ⟨-, -, h⟩ | ⟨h | h, -⟩ := request_cases p c
      · rw [h, hn]
        rfl
      · exact absurd (ha.symm.trans h) Bool.false_ne_true
      · exact absurd (h.symm.trans hs) Bool.false_ne_true
  | arm resume =>
      cases hs
      rfl
  | step | finish | reset | load => cases hs

/-- **A start is refused for what its programming is refused for**, and for nothing else. -/
theorem Proper.told (hc : Proper p c) (hn : c.running = false) (hs : Starts p c d) :
    Told p (d.perform p c) := by
  rw [hc.perform_start hn hs]
  exact arm_told p _

/-- **What makes a transfer stray is not refused.** -/
theorem strayed_of_careless (hd : ¬ Careful p c d) :
    d.answer p c = .ok () ∧ Strayed p (d.after p c) := by
  cases d with
  | write r v mask =>
      cases r with
      | base | blocks => exact absurd trivial hd
      | control =>
          simp only [Careful, Classical.not_imp] at hd
          obtain ⟨hr, hb, hf⟩ := hd
          rw [Deed.answer, Deed.after, Deed.perform_writeControl]
          obtain ⟨-, hb', -⟩ | ⟨-, ⟨-, -, h⟩ | ⟨-, h⟩⟩ :=
            writeControl_cases p (merge c.control.bits v mask) c
          · exact absurd (hb'.symm.trans hb) Bool.false_ne_true
          · rw [h, hr]
            exact ⟨rfl, rfl, fun hk => hf ((refusal?_activate p _).symm.trans hk)⟩
          · rw [h]
            exact ⟨rfl, hr, hf⟩
  | arm resume =>
      cases resume with
      | false => exact absurd trivial hd
      | true =>
          simp only [Careful, Classical.not_imp] at hd
          exact ⟨rfl, rfl, fun hk => hd.2 ((refusal?_activate p c).symm.trans hk)⟩
  | request | step | finish | reset | load => exact absurd trivial hd

/-- What a deed is answered with, as far as programmings go. -/
def Answered (p : Peer) (c : Channel) (d : Deed β) : Prop :=
  (c.running = false → Starts p c d → Told p (d.perform p c)) ∧
    (¬ Careful p c d → d.answer p c = .ok () ∧ Strayed p (d.after p c))

/-! ### Histories -/

/-- The accesses of the deed belong to transfers that the peer supports. -/
def Supported (p : Peer) (c : Channel) (d : Deed β) : Prop := ∀ x ∈ d.touches p c, Allowed p c x

/-- The deed makes no access for a transfer that has strayed. -/
def Harmless (p : Peer) (c : Channel) (d : Deed β) : Prop := Strayed p c → d.touches p c = []

theorem Proper.supported_iff (hc : Proper p c) (d : Deed β) :
    Supported p c d ↔ Harmless p c d := by
  cases d with
  | step controller bus =>
      have hj := fun x => accesses_judged (s := ⟨c, controller, bus⟩) (x := x) hc
      constructor
      · rintro h ⟨-, hf⟩
        refine List.eq_nil_iff_forall_not_mem.2 fun x hx => hf ?_
        exact (hj x hx).1 (h x hx)
      · intro h x hx
        by_cases hf : c.refusal? p = none
        · exact (hj x hx).2 hf
        -- Nothing is accessed but by an active channel, and that one is running.
        · have ha : c.active = true := by
            by_contra ha
            have he := accesses_of_idle (p := p) (s := ⟨c, controller, bus⟩) (by simpa using ha)
            rw [Deed.touches, he] at hx
            cases hx
          rw [h ⟨hc.running ha, hf⟩] at hx
          cases hx
  | write | request | arm | finish | reset | load =>
      exact ⟨fun _ _ => rfl, fun _ _ hx => absurd hx List.not_mem_nil⟩

/-- **The accesses of a channel belong to transfers that its peer supports** exactly in the
histories where no step makes an access for a transfer that has strayed.  Histories of careful
deeds are among them.  Starts are refused for what their programming is refused for; a deed that
makes a transfer stray is not. -/
theorem validated_iff (p : Peer) (ds : List (Deed β)) :
    (Always p (Supported p) (initial p) ds ↔ Always p (Harmless p) (initial p) ds) ∧
      (Always p (Careful p) (initial p) ds → Always p (Supported p) (initial p) ds) ∧
        Always p (Answered p) (initial p) ds := by
  -- The equivalence holds deed by deed at a proper channel, and so along the history.
  have hi := proper_initial p
  have hk : ∀ (c : Channel) (d : Deed β), Proper p c → Proper p (d.after p c) :=
    fun c d hc => hc.after d
  refine ⟨⟨?_, ?_⟩, ?_, ?_⟩
  · exact Always.imp (fun c d hc _ => hk c d hc) (fun c d hc => (hc.supported_iff d).1) hi
  · exact Always.imp (fun c d hc _ => hk c d hc) (fun c d hc => (hc.supported_iff d).2) hi
  · refine Always.imp (I := fun c => Proper p c ∧ ¬ Strayed p c) (fun c d hc hd => ?_)
      (fun c d hc _ => ?_) ⟨hi, fun h => absurd h.1 Bool.false_ne_true⟩
    · exact ⟨hk c d hc.1, not_strayed_after hc.2 hd⟩
    · exact (hc.1.supported_iff d).2 fun h => absurd h hc.2
  · exact Always.imp (fun c d hc _ => hk c d hc) (fun c d hc _ => ⟨hc.told, strayed_of_careless⟩) hi
      (always_true p (initial p) ds)

/-- A burst of the graphics, programmed, started and moved. -/
def burstHistory : List (Deed (Bus BareBoard)) :=
  [.write .base 0x1000 0xFFFFFFFF, .write .blocks 1 0xFFFFFFFF,
    .write .control 0x01000001 0xFFFFFFFF, .step {} { board := ⟨⟩ }]

theorem burstHistory_supported :
    Always .graphics (Careful .graphics) (initial .graphics) burstHistory ∧
      Always .graphics (Supported .graphics) (initial .graphics) burstHistory := by
  have h : Always .graphics (Careful .graphics) (initial .graphics) burstHistory :=
    ⟨trivial, trivial, fun h => absurd h (by decide +kernel), trivial, trivial⟩
  exact ⟨h, (validated_iff .graphics burstHistory).2.1 h⟩

/-- Programmed the other way while it is running, a burst into the decoder moves data out of it. -/
example : ¬ Always .decoderIn (Supported .decoderIn) (initial .decoderIn)
    ([.write .base 0x1000 0xFFFFFFFF, .write .blocks 1 0xFFFFFFFF,
      .write .control 0x01000001 0xFFFFFFFF, .write .control 0x01000000 0xFFFFFFFF,
      .step {} { board := ⟨⟩ }] : List (Deed (Bus BareBoard))) := by
  rintro ⟨-, -, -, -, h, -⟩
  have hx := h ⟨false, .word, 0x1F801820, 0xFFFFFFFF⟩ (by decide +kernel)
  exact absurd hx.1 (by decide)

end Channel

end DmaMachine
