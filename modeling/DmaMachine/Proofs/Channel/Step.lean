import DmaMachine.Channel.Transfer
import DmaMachine.Proofs.Keeps

/-!
# The course of a step

A step is made of *attempts*: at a unit, at the header of a list node, and at an entry of an
ordering table.  The accesses of an attempt change the bus, and of the channel the held unit alone
(`Attempt.access_frame`).  Then a cycle is charged, and the attempt *goes through* and takes the
channel further, or it stops the channel for a bus error; `Attempt.perform_eq` says which.

`Course p s r` lists what the step from `s` can come to: attempts that go through, one after the
other, and then the end of the transfer, of a block or of a window, or the attempt that did not go
through.  Every property of steps is read off it.

* `step_course`: **every step takes such a course.**
* `step_settles`: a step that gives a result leaves the channel inactive, and it leaves the
  priority word alone, so the same channels stay enabled.
-/

namespace DmaMachine

namespace Stage

variable {β α : Type}

theorem outcome_onBus (op : Op β α) (s : Stage β) :
    Op.outcome (onBus op s) =
      ((Op.outcome (op s.bus)).1, ⟨s.channel, s.controller, (Op.outcome (op s.bus)).2⟩) := by
  obtain ⟨channel, controller, bus⟩ := s
  simp only [onBus]
  cases op bus <;> rfl

end Stage

namespace Channel

variable {β : Type} {p : Peer} {s s' : Stage β}

/-! ### Units -/

/-- Between the stages only the bus, and of the channel the held unit, may differ, and the buses
are related. -/
def UnitFrame (Q : β → β → Prop) (s s' : Stage β) : Prop :=
  Q s.bus s'.bus ∧ s'.controller = s.controller ∧ ∃ held, s'.channel = { s.channel with held }

section Frame

variable {α : Type} {Q : β → β → Prop} (hQ : Chains Q)
include hQ

theorem unitFrame_chains : Chains (UnitFrame Q) where
  refl s := ⟨hQ.refl _, rfl, s.channel.held, rfl⟩
  trans := by
    rintro s t u ⟨hq, hc, held, hh⟩ ⟨kq, kc, held', kh⟩
    exact ⟨hQ.trans hq kq, kc.trans hc, held', by rw [kh, hh]⟩

theorem frame_pure (a : α) : Op.Relates (UnitFrame Q) (pure a : Op (Stage β) α) :=
  (unitFrame_chains hQ).refl

theorem frame_channelOf (f : Channel → α) :
    Op.Relates (UnitFrame Q) (Stage.channelOf (β := β) f) := (unitFrame_chains hQ).refl

theorem frame_held (held : Option UInt32) :
    Op.Relates (UnitFrame Q) (Stage.onChannel (β := β) fun c => { c with held }) :=
  fun _ => ⟨hQ.refl _, rfl, held, rfl⟩

omit hQ in
theorem frame_onBus {op : Op β α} (h : Op.Relates Q op) :
    Op.Relates (UnitFrame Q) (Stage.onBus op) := by
  intro s
  rw [Stage.outcome_onBus]
  exact ⟨h s.bus, rfl, s.channel.held, rfl⟩

variable [Master β]

theorem frame_exception : Op.Relates (UnitFrame Q) (Stage.exception (β := β)) :=
  (unitFrame_chains hQ).refl

/-- The parts of a unit are read one after the other. -/
theorem read_port {port : DataPort} (h : Op.Relates Q (Master.read port.width port.address)) :
    Op.Relates Q (port.read (β := β)) := by
  obtain ⟨w, a⟩ := port
  cases w with
  | word => exact h
  | half => exact .bind hQ h fun _ => .bind hQ h fun _ => hQ.refl
  | byte =>
      exact .bind hQ h fun _ => .bind hQ h fun _ => .bind hQ h fun _ =>
        .bind hQ h fun _ => hQ.refl

theorem write_port {port : DataPort}
    (h : ∀ v, Op.Relates Q (Master.write port.width port.address v)) (v : UInt32) :
    Op.Relates Q (port.write (β := β) v) := by
  obtain ⟨w, a⟩ := port
  cases w with
  | word => exact h v
  | half => exact .bind hQ (h _) fun _ => h _
  | byte =>
      exact .bind hQ (h _) fun _ => .bind hQ (h _) fun _ => .bind hQ (h _)
        fun _ => h _

/-- What follows on the read of a unit from RAM. -/
theorem send_frame {port : DataPort}
    (hw : ∀ v, Op.Relates Q (Master.write port.width port.address v)) (v : UInt32) :
    Op.Relates (UnitFrame Q) (do
      if ← Stage.exception then return false
      Stage.onBus (port.write (β := β) v)
      return !(← Stage.exception)) := by
  have hu := unitFrame_chains hQ
  refine .bind hu (frame_exception hQ) fun up => ?_
  cases up with
  | true => exact frame_pure hQ _
  | false =>
      exact .bind hu (frame_onBus (write_port hQ hw v)) fun _ =>
        .bind hu (frame_exception hQ) fun _ => frame_pure hQ _

theorem unitFromRam_frame {port : DataPort} {a : UInt32} (hr : Op.Relates Q (Master.read .word a))
    (hw : ∀ v, Op.Relates Q (Master.write port.width port.address v)) :
    Op.Relates (UnitFrame Q) (unitFromRam (β := β) port a) :=
  .bind (unitFrame_chains hQ) (frame_onBus hr) (send_frame hQ hw)

/-- What follows on the read of a unit out of the port. -/
theorem receive_frame (v : UInt32) :
    Op.Relates (UnitFrame Q) (do
      if ← Stage.exception (β := β) then return none else return some v) := by
  refine .bind (unitFrame_chains hQ) (frame_exception hQ) fun up => ?_
  cases up <;> exact frame_pure hQ _

theorem takeUnit_frame {port : DataPort}
    (hr : Op.Relates Q (Master.read port.width port.address)) :
    Op.Relates (UnitFrame Q) (takeUnit (β := β) port) := by
  have hu := unitFrame_chains hQ
  refine .bind hu (frame_channelOf hQ _) fun held => ?_
  cases held with
  | some v => exact .bind hu (frame_held hQ _) fun _ => frame_pure hQ _
  | none => exact .bind hu (frame_onBus (read_port hQ hr)) (receive_frame hQ)

/-- What follows on the write of a unit to RAM. -/
theorem hold_frame (v : UInt32) :
    Op.Relates (UnitFrame Q) (do
      if ← Stage.exception (β := β) then
        Stage.onChannel fun c => { c with held := some v }
        return false
      else return true) := by
  have hu := unitFrame_chains hQ
  refine .bind hu (frame_exception hQ) fun up => ?_
  cases up with
  | true => exact .bind hu (frame_held hQ _) fun _ => frame_pure hQ _
  | false => exact frame_pure hQ _

theorem storeUnit_frame {a : UInt32} (hw : ∀ v, Op.Relates Q (Master.write .word a v))
    (v : UInt32) : Op.Relates (UnitFrame Q) (storeUnit (β := β) a v) :=
  .bind (unitFrame_chains hQ) (frame_onBus (hw v)) fun _ => hold_frame hQ v

theorem unitToRam_frame {port : DataPort} {a : UInt32}
    (hr : Op.Relates Q (Master.read port.width port.address))
    (hw : ∀ v, Op.Relates Q (Master.write .word a v)) :
    Op.Relates (UnitFrame Q) (unitToRam (β := β) port a) := by
  refine .bind (unitFrame_chains hQ) (takeUnit_frame hQ hr) fun taken => ?_
  cases taken with
  | none => exact frame_pure hQ _
  | some v => exact storeUnit_frame hQ hw v

end Frame

variable [Master β]

theorem transferUnit_of_none (hp : p.port? = none) :
    transferUnit p s = .error (.channel (.noDataPort p.index p.name)) s := by
  rw [transferUnit, Op.bind_apply]
  simp only [Stage.channelOf, hp]
  rfl

theorem transferUnit_of_fromRam {port : DataPort} (hp : p.port? = some port)
    (hd : s.channel.control.direction = .fromRam) :
    transferUnit p s = unitFromRam port s.channel.address s := by
  rw [transferUnit, Op.bind_apply]
  simp only [Stage.channelOf, hp, hd]

theorem transferUnit_of_toRam {port : DataPort} (hp : p.port? = some port)
    (hd : s.channel.control.direction = .toRam) :
    transferUnit p s = unitToRam port s.channel.address s := by
  rw [transferUnit, Op.bind_apply]
  simp only [Stage.channelOf, hp, hd]

/-- A held unit is not taken again. -/
theorem takeUnit_of_held {port : DataPort} {v : UInt32} (h : s.channel.held = some v) :
    takeUnit port s =
      .ok (some v) ⟨{ s.channel with held := none }, s.controller, s.bus⟩ := by
  rw [takeUnit, Op.bind_apply]
  simp only [Stage.channelOf, h]
  rfl

theorem takeUnit_of_empty {port : DataPort} (h : s.channel.held = none) :
    takeUnit port s = (do
      let v ← Stage.onBus port.read
      if ← Stage.exception then return none else return some v) s := by
  rw [takeUnit, Op.bind_apply]
  simp only [Stage.channelOf, h]

/-! ### Attempts -/

/-- What a step makes attempts at. -/
inductive Attempt where
  | unit
  | header
  /-- An entry of an ordering table, above `n` more. -/
  | entry (n : Nat)

namespace Attempt

def perform (p : Peer) : Attempt → Op (Stage β) Bool
  | unit => moveUnit p
  | header => visitNode
  | entry n => writeEntry n

/-- The accesses of an attempt.  They give what the attempt makes of the channel, unless a unit
did not get through. -/
def access (p : Peer) : Attempt → Op (Stage β) (Option (Channel → Channel))
  | unit => do
      let through ← transferUnit p
      return if through then some (retire p) else none
  | header => do
      let header ← Stage.onBus (Master.read .word (← Stage.channelOf (·.nextNode)))
      return some (enterNode header)
  | entry n => do
      let a ← Stage.channelOf (·.address)
      Stage.onBus (Master.write .word a (if n = 0 then endMark else below a))
      return some fun c => { c with address := below c.address, wordsLeft := n }

/-- The reads that an attempt makes. -/
def Reads (p : Peer) (c : Channel) (w : Width) (x : UInt32) : Attempt → Prop
  | unit =>
      match c.control.direction with
      | .fromRam => w = .word ∧ x = c.address
      | .toRam => p.port? = some ⟨w, x⟩
  | header => w = .word ∧ x = c.nextNode
  | entry _ => False

/-- The writes that an attempt makes. -/
def Writes (p : Peer) (c : Channel) (w : Width) (x : UInt32) : Attempt → Prop
  | unit =>
      match c.control.direction with
      | .fromRam => p.port? = some ⟨w, x⟩
      | .toRam => w = .word ∧ x = c.address
  | header => False
  | entry _ => w = .word ∧ x = c.address

/-- The attempts that a channel makes in its mode. -/
def Fits (p : Peer) (c : Channel) : Attempt → Prop
  | unit => p ≠ .orderingTable ∧ c.mode p ≠ .reserved
  | header => c.mode p = .linkedList
  | entry _ => p = .orderingTable

end Attempt

/-- The stage with the cycle of an attempt charged and the exception flag down. -/
def charged (s : Stage β) : Stage β :=
  ⟨s.channel, s.controller, (Master.takeException (Master.charge 1 s.bus)).2⟩

/-- Whether the flag was up when the cycle of an attempt was charged. -/
def raised (s : Stage β) : Bool := (Master.takeException (Master.charge 1 s.bus)).1

omit [Master β] in
/-- The stage where an attempt stopped the channel. -/
def stopped (s : Stage β) : Stage β := ⟨s.channel.halted, s.controller.signalBusError, s.bus⟩

/-- The stage with a change of its channel. -/
def withChannel (f : Channel → Channel) (s : Stage β) : Stage β :=
  ⟨f s.channel, s.controller, s.bus⟩

/-- What follows on the accesses of an attempt. -/
def settled (f : Option (Channel → Channel)) (t : Stage β) : EStateM.Result Fault (Stage β) Bool :=
  match f, raised t with
  | some f, false => .ok true (withChannel f (charged t))
  | _, _ => .ok false (stopped (charged t))

/-- **An attempt** makes its accesses, charges a cycle, and either goes through or stops the
channel. -/
theorem Attempt.perform_eq (a : Attempt) (p : Peer) (s : Stage β) :
    a.perform p s = match a.access p s with
      | .ok f t => settled f t
      | .error e t => .error e t := by
  cases a with
  | unit =>
      simp only [perform, access, moveUnit, Op.bind_apply]
      cases transferUnit p s with
      | error e t => rfl
      | ok through t =>
          show (if raised t || !through then _ else _ : Op (Stage β) Bool) (charged t) =
            settled (if through then some (retire p) else none) t
          cases through <;> cases h : raised t <;> simp [settled, h] <;> rfl
  | header =>
      simp only [perform, access, visitNode, Op.bind_apply, Stage.channelOf]
      cases Stage.onBus (Master.read .word s.channel.nextNode) s with
      | error e t => rfl
      | ok header t =>
          show (if raised t then _ else _ : Op (Stage β) Bool) (charged t) =
            settled (some (enterNode header)) t
          cases h : raised t <;> simp [settled, h] <;> rfl
  | entry n =>
      simp only [perform, access, writeEntry, Op.bind_apply, Stage.channelOf]
      cases Stage.onBus (Master.write .word s.channel.address
          (if n = 0 then endMark else below s.channel.address)) s with
      | error e t => rfl
      | ok _ t =>
          show (if raised t then _ else _ : Op (Stage β) Bool) (charged t) =
            settled (some fun c => { c with address := below c.address, wordsLeft := n }) t
          cases h : raised t <;> simp [settled, h] <;> rfl

/-- **The accesses of an attempt** change the bus by reads and writes of its own, and of the channel
the held unit alone. -/
theorem Attempt.access_frame {Q : β → β → Prop} (hQ : Chains Q) (a : Attempt)
    (hr : ∀ w x, a.Reads p s.channel w x → Op.Relates Q (Master.read w x))
    (hw : ∀ w x v, a.Writes p s.channel w x → Op.Relates Q (Master.write w x v)) :
    UnitFrame Q s (Op.outcome (a.access p s)).2 := by
  have hu := unitFrame_chains hQ
  cases a with
  | unit =>
      have ht : UnitFrame Q s (Op.outcome (transferUnit p s)).2 := by
        cases hp : p.port? with
        | none =>
            rw [transferUnit_of_none hp]
            exact hu.refl s
        | some port =>
            cases hd : s.channel.control.direction with
            | fromRam =>
                rw [transferUnit_of_fromRam hp hd]
                exact unitFromRam_frame hQ (hr _ _ (by simp [Reads, hd]))
                  (fun v => hw _ _ v (by simp [Writes, hd, hp])) s
            | toRam =>
                rw [transferUnit_of_toRam hp hd]
                exact unitToRam_frame hQ (hr _ _ (by simp [Reads, hd, hp]))
                  (fun v => hw _ _ v (by simp [Writes, hd])) s
      simp only [access, Op.bind_apply]
      cases he : transferUnit p s with
      | ok through t =>
          rw [he] at ht
          exact ht
      | error e t =>
          rw [he] at ht
          exact ht
  | header =>
      exact Op.Relates.bind hu (frame_onBus (hr _ _ ⟨rfl, rfl⟩)) (fun _ => frame_pure hQ _) s
  | entry n =>
      exact Op.Relates.bind hu (frame_onBus (hw _ _ _ ⟨rfl, rfl⟩)) (fun _ => frame_pure hQ _) s

/-- The accesses leave alone what is not the bus, nor the held unit. -/
theorem Attempt.access_outside (a : Attempt) (p : Peer) (s : Stage β) :
    UnitFrame (fun _ _ => True) s (Op.outcome (a.access p s)).2 :=
  a.access_frame ⟨fun _ => trivial, fun _ _ => trivial⟩ (fun _ _ _ _ => trivial)
    fun _ _ _ _ _ => trivial

theorem Attempt.access_keeps_rest {a : Attempt} {r : Option (Channel → Channel)} {t : Stage β}
    (h : a.access p s = .ok r t) :
    t.controller = s.controller ∧ ∃ held, t.channel = { s.channel with held } := by
  have hf := a.access_outside p s
  rw [h] at hf
  exact hf.2

/-- An attempt that goes through keeps the programming of the channel. -/
theorem Attempt.access_keeps {a : Attempt} {t : Stage β} {f : Channel → Channel}
    (h : a.access p s = .ok (some f) t) (c : Channel) :
    (f c).control = c.control ∧ (f c).running = c.running ∧ (f c).active = c.active := by
  cases a with
  | unit =>
      simp only [access, Op.bind_eq_ok] at h
      obtain ⟨through, t, -, h⟩ := h
      cases through <;> cases h
      exact ⟨rfl, rfl, rfl⟩
  | header =>
      simp only [access, Op.bind_eq_ok] at h
      obtain ⟨_, _, -, header, t, -, h⟩ := h
      cases h
      exact ⟨rfl, rfl, rfl⟩
  | entry n =>
      simp only [access, Op.bind_eq_ok] at h
      obtain ⟨_, _, -, _, t, -, h⟩ := h
      cases h
      exact ⟨rfl, rfl, rfl⟩

/-- What an attempt comes to, with the stage after its accesses. -/
theorem Attempt.perform_cases {a : Attempt} {r : EStateM.Result Fault (Stage β) Bool}
    (h : a.perform p s = r) :
    (∃ f t, a.access p s = .ok (some f) t ∧ raised t = false ∧
        r = .ok true (withChannel f (charged t))) ∨
      (∃ f t, a.access p s = .ok f t ∧ (f = none ∨ raised t = true) ∧
        r = .ok false (stopped (charged t))) ∨
      ∃ e t, a.access p s = .error e t ∧ r = .error e t := by
  rw [perform_eq] at h
  cases ha : a.access p s with
  | error e t =>
      rw [ha] at h
      exact .inr (.inr ⟨e, t, rfl, h.symm⟩)
  | ok f t =>
      rw [ha] at h
      cases f with
      | none => exact .inr (.inl ⟨none, t, rfl, .inl rfl, h.symm⟩)
      | some f =>
          cases hr : raised t with
          | true => exact .inr (.inl ⟨some f, t, rfl, .inr hr, by simpa [settled, hr] using h.symm⟩)
          | false => exact .inl ⟨f, t, rfl, hr, by simpa [settled, hr] using h.symm⟩

/-- The channel after an attempt: as it was, or halted, or taken further, but for the held unit. -/
theorem Attempt.perform_channel (a : Attempt) (p : Peer) (s : Stage β) :
    ∃ held, (Op.outcome (a.perform p s)).2.channel = { s.channel with held } ∨
      (Op.outcome (a.perform p s)).2.channel = halted { s.channel with held } ∨
        ∃ f t, a.access p s = .ok (some f) t ∧
          (Op.outcome (a.perform p s)).2.channel = f { s.channel with held } := by
  obtain ⟨-, -, held, hh⟩ := a.access_outside p s
  refine ⟨held, ?_⟩
  obtain ⟨f, t, ha, -, h⟩ | ⟨f, t, ha, -, h⟩ | ⟨e, t, ha, h⟩ := perform_cases (p := p) (s := s) rfl
  · rw [ha] at hh
    rw [h]
    exact .inr (.inr ⟨f, t, ha, congrArg f hh⟩)
  · rw [ha] at hh
    rw [h]
    exact .inr (.inl (congrArg halted hh))
  · rw [ha] at hh
    rw [h]
    exact .inl hh

/-! ### Courses -/

/-- Attempts that the channel makes one after the other, and that all go through. -/
inductive Through (p : Peer) : Stage β → Stage β → Prop where
  | none (s : Stage β) : Through p s s
  | next {s t u : Stage β} (a : Attempt) (hf : a.Fits p s.channel)
      (ha : a.perform p s = .ok true t) (h : Through p t u) : Through p s u

/-- What the step from `s` can come to. -/
inductive Course (p : Peer) (s : Stage β) : EStateM.Result Fault (Stage β) Status → Prop where
  | idle (h : s.channel.active = false) : Course p s (.ok .idle s)
  | completed {u : Stage β} (h : Through p s u) :
      Course p s (.ok .completed
        ⟨completed p u.channel, u.controller.request p.index, u.bus⟩)
  | lastBlock {u : Stage β} (h : Through p s u) :
      Course p s (.ok .completed
        ⟨completed p u.channel.countBlock, u.controller.request p.index, u.bus⟩)
  | blockDone {u : Stage β} (h : Through p s u) :
      Course p s (.ok .blockDone
        ⟨u.channel.countBlock.blockEnded, u.controller.endBlock p.index, u.bus⟩)
  | chopped {u : Stage β} (window : Nat) (h : Through p s u) :
      Course p s (.ok (.chopped window) (withChannel halted u))
  | faulted {u t : Stage β} (a : Attempt) (h : Through p s u) (hf : a.Fits p u.channel)
      (ha : a.perform p u = .ok false t) : Course p s (.ok .faulted t)
  | failed {u t : Stage β} {e : Fault} (a : Attempt) (h : Through p s u) (hf : a.Fits p u.channel)
      (ha : a.perform p u = .error e t) : Course p s (.error e t)
  | refused {u : Stage β} (e : ChannelFault) (h : Through p s u) :
      Course p s (.error (.channel e) u)

/-- Attempts that go through leave the controller alone, and keep the programming. -/
theorem Through.keeps {u : Stage β} (h : Through p s u) :
    u.controller = s.controller ∧ u.channel.control = s.channel.control ∧
      u.channel.running = s.channel.running ∧ u.channel.active = s.channel.active := by
  induction h with
  | none => exact ⟨rfl, rfl, rfl, rfl⟩
  | @next s t u a _ ha _ ih =>
      obtain ⟨f, v, he, -, hr⟩ | ⟨_, _, -, -, hr⟩ | ⟨_, _, -, hr⟩ := Attempt.perform_cases ha <;>
        cases hr
      obtain ⟨hc, held, hv⟩ := Attempt.access_keeps_rest he
      obtain ⟨h₁, h₂, h₃⟩ := Attempt.access_keeps he v.channel
      obtain ⟨ihc, ih₁, ih₂, ih₃⟩ := ih
      refine ⟨ihc.trans hc, ih₁.trans (h₁.trans ?_), ih₂.trans (h₂.trans ?_),
        ih₃.trans (h₃.trans ?_)⟩ <;> rw [hv]

theorem Through.trans {u v : Stage β} (h : Through p s u) (k : Through p u v) :
    Through p s v := by
  induction h with
  | none => exact k
  | next a hf ha _ ih => exact .next a hf ha (ih k)

theorem mode_congr {c d : Channel} (h : d.control = c.control) : d.mode p = c.mode p := by
  rw [mode, mode, h]

theorem Attempt.Fits.congr {a : Attempt} {c d : Channel} (h : a.Fits p c)
    (hc : d.control = c.control) : a.Fits p d := by
  cases a <;> simpa only [Fits, mode_congr hc] using h

/-- What several attempts come to. -/
inductive Tried (p : Peer) (s : Stage β) : EStateM.Result Fault (Stage β) Bool → Prop where
  | through {u : Stage β} (h : Through p s u) : Tried p s (.ok true u)
  | stopped {u t : Stage β} (a : Attempt) (h : Through p s u) (hf : a.Fits p u.channel)
      (ha : a.perform p u = .ok false t) : Tried p s (.ok false t)
  | failed {u t : Stage β} {e : Fault} (a : Attempt) (h : Through p s u) (hf : a.Fits p u.channel)
      (ha : a.perform p u = .error e t) : Tried p s (.error e t)

theorem Through.tried {u : Stage β} (h : Through p s u)
    {r : EStateM.Result Fault (Stage β) Bool} (hr : Tried p u r) : Tried p s r := by
  cases hr with
  | through k => exact .through (h.trans k)
  | stopped a k hf ha => exact .stopped a (h.trans k) hf ha
  | failed a k hf ha => exact .failed a (h.trans k) hf ha

theorem Attempt.tried {a : Attempt} (hf : a.Fits p s.channel) :
    Tried p s (a.perform p s) := by
  cases ha : a.perform p s with
  | error e t => exact .failed a (.none s) hf ha
  | ok through t =>
      cases through with
      | true => exact .through (.next a hf ha (.none t))
      | false => exact .stopped a (.none s) hf ha

theorem moveUnits_tried : ∀ (n : Nat) {s : Stage β}, Attempt.unit.Fits p s.channel →
    Tried p s (moveUnits p n s)
  | 0, s, _ => .through (.none s)
  | n + 1, s, hf => by
      have ht : Tried p s (moveUnit p s) := Attempt.tried hf
      rw [moveUnits, Op.bind_apply]
      -- The rest is tried where the first unit left the channel, under the same programming.
      generalize moveUnit p s = r at ht
      cases ht with
      | through h => exact h.tried (moveUnits_tried n (hf.congr h.keeps.2.1))
      | stopped a h hf ha => exact .stopped a h hf ha
      | failed a h hf ha => exact .failed a h hf ha

/-- After attempts that go through, an active channel takes up its course. -/
theorem Through.course {u : Stage β} (h : Through p s u) (hs : s.channel.active = true)
    {r : EStateM.Result Fault (Stage β) Status} (hr : Course p u r) : Course p s r := by
  cases hr with
  | idle hu =>
      rw [h.keeps.2.2.2, hs] at hu
      cases hu
  | completed k => exact .completed (h.trans k)
  | lastBlock k => exact .lastBlock (h.trans k)
  | blockDone k => exact .blockDone (h.trans k)
  | chopped window k => exact .chopped window (h.trans k)
  | faulted a k hf ha => exact .faulted a (h.trans k) hf ha
  | failed a k hf ha => exact .failed a (h.trans k) hf ha
  | refused e k => exact .refused e (h.trans k)

/-- Attempts, and then what follows if all of them went through. -/
theorem Tried.course {x : Op (Stage β) Bool} {y : Op (Stage β) Status} (hx : Tried p s (x s))
    (hy : ∀ u, Through p s u → Course p s (y u)) :
    Course p s ((x >>= fun b => if b then y else pure .faulted) s) := by
  rw [Op.bind_apply]
  generalize x s = r at hx
  cases hx with
  | through h => exact hy _ h
  | stopped a h hf ha => exact .faulted a h hf ha
  | failed a h hf ha => exact .failed a h hf ha

/-! ### Every step takes a course -/

theorem stepBurst_course (hf : Attempt.unit.Fits p s.channel) :
    Course p s (stepBurst p s) := by
  rw [stepBurst, Op.bind_apply]
  refine (moveUnits_tried _ hf).course fun u h => ?_
  by_cases hn : (if s.channel.control.has .chopping
      then min s.channel.control.busWindow s.channel.wordsLeft
      else s.channel.wordsLeft) = s.channel.wordsLeft
  · rw [if_pos hn]
    exact .completed h
  · rw [if_neg hn]
    exact .chopped _ h

theorem stepSlice_course (hf : Attempt.unit.Fits p s.channel) :
    Course p s (stepSlice p s) := by
  rw [stepSlice, Op.bind_apply]
  refine (moveUnits_tried _ hf).course fun u h => ?_
  show Course p s ((if u.channel.countBlock.blocksLeft = 0 then _ else _ : Op (Stage β) Status)
    ⟨u.channel.countBlock, u.controller, u.bus⟩)
  by_cases hn : u.channel.countBlock.blocksLeft = 0
  · rw [if_pos hn]
    exact .lastBlock h
  · rw [if_neg hn]
    exact .blockDone h

theorem walk_course : ∀ (n : Nat) {s : Stage β}, s.channel.active = true →
    s.channel.mode p = .linkedList → Course p s (walk p n s)
  | n, s, hs, hm => by
      have hp : p ≠ .orderingTable := by
        rintro rfl
        cases hm
      have hf : Attempt.unit.Fits p s.channel := ⟨hp, by simp [hm]⟩
      rw [walk.eq_def, Op.bind_apply]
      refine (moveUnits_tried _ hf).course fun u h => ?_
      -- The words of the node are over: it was the last one, or its successor is visited.
      obtain ⟨-, hc, -, ha⟩ := h.keeps
      rw [hs] at ha
      have hm : u.channel.mode p = .linkedList := (mode_congr hc).trans hm
      show Course p s ((if u.channel.lastNode then _ else _ : Op (Stage β) Status) u)
      by_cases hl : u.channel.lastNode = true
      · rw [if_pos hl]
        exact .completed h
      · rw [if_neg hl]
        cases n with
        | zero => exact .refused _ h
        | succ n =>
            have hv : Tried p u (visitNode u) := Attempt.tried (a := .header) hm
            refine h.course hs (hv.course fun v k => ?_)
            obtain ⟨-, kc, -, ka⟩ := k.keeps
            exact k.course ha (walk_course n (ka.trans ha) ((mode_congr kc).trans hm))

theorem fillTable_course (hp : p = .orderingTable) : ∀ (n : Nat) {s : Stage β},
    s.channel.active = true → Course p s (fillTable p n s)
  | 0, s, _ => .completed (.none s)
  | n + 1, s, hs => by
      have hw : Tried p s (writeEntry n s) := Attempt.tried (a := .entry n) hp
      exact hw.course fun u h =>
        h.course hs (fillTable_course hp n (h.keeps.2.2.2.trans hs))

/-- **Every step takes a course.** -/
theorem step_course (p : Peer) (s : Stage β) : Course p s (step p s) := by
  show Course p s ((if !s.channel.active then _ else _ : Op (Stage β) Status) s)
  cases ha : s.channel.active with
  | false => exact .idle ha
  | true =>
      rw [if_neg (by simp)]
      by_cases hp : p = .orderingTable
      · rw [if_pos hp]
        exact fillTable_course hp _ ha
      · rw [if_neg hp, Op.bind_apply]
        have hm : s.channel.mode p = s.channel.control.syncMode := if_neg hp
        cases hs : s.channel.control.syncMode <;> simp only [Stage.channelOf, hs]
        case burst => exact stepBurst_course ⟨hp, by simp [hm, hs]⟩
        case slice => exact stepSlice_course ⟨hp, by simp [hm, hs]⟩
        case linkedList => exact walk_course _ ha (hm.trans hs)
        case reserved => exact .refused _ (.none s)

/-- **A step that gives a result leaves the channel inactive**, and the priority word alone. -/
theorem step_settles {status : Status} {t : Stage β} (h : step p s = .ok status t) :
    t.channel.active = false ∧ t.controller.priorityWord = s.controller.priorityWord := by
  have hk : ∀ {u : Stage β}, Through p s u →
      u.controller.priorityWord = s.controller.priorityWord := fun hu => by rw [hu.keeps.1]
  have hc := step_course p s
  rw [h] at hc
  cases hc with
  | idle hs => exact ⟨hs, rfl⟩
  | completed hu => exact ⟨rfl, (Controller.priorityWord_request ..).trans (hk hu)⟩
  | lastBlock hu => exact ⟨rfl, (Controller.priorityWord_request ..).trans (hk hu)⟩
  | blockDone hu => exact ⟨rfl, (Controller.priorityWord_endBlock ..).trans (hk hu)⟩
  | chopped window hu =>
      have := hk hu
      exact ⟨rfl, this⟩
  | @faulted u t a hu hf ha =>
      obtain ⟨_, _, -, -, hr⟩ | ⟨_, v, he, -, hr⟩ | ⟨_, _, -, hr⟩ := Attempt.perform_cases ha <;>
        cases hr
      exact ⟨rfl, (congrArg Controller.priorityWord (Attempt.access_keeps_rest he).1).trans (hk hu)⟩

/-! ### What a step keeps of the bus -/

section Bus

variable {Q : β → β → Prop} (hQ : Chains Q) (hr : ∀ w a, Op.Relates Q (Master.read w a))
  (hw : ∀ w a v, Op.Relates Q (Master.write w a v))
  (hc : ∀ b, Q b (Master.takeException (Master.charge 1 b)).2)
include hQ hr hw hc

theorem Attempt.perform_relates (a : Attempt) (p : Peer) (s : Stage β) :
    Q s.bus (Op.outcome (a.perform p s)).2.bus := by
  obtain ⟨hb, -, -⟩ := a.access_frame (p := p) (s := s) hQ (fun w x _ => hr w x)
    fun w x v _ => hw w x v
  obtain ⟨f, t, ha, -, h⟩ | ⟨f, t, ha, -, h⟩ | ⟨e, t, ha, h⟩ := perform_cases (p := p) (s := s) rfl
  all_goals rw [ha] at hb; rw [h]
  · exact hQ.trans hb (hc t.bus)
  · exact hQ.trans hb (hc t.bus)
  · exact hb

theorem Through.relates {u : Stage β} (h : Through p s u) : Q s.bus u.bus := by
  induction h with
  | none => exact hQ.refl _
  | @next s t u a _ ha _ ih =>
      have ht := a.perform_relates hQ hr hw hc p s
      rw [ha] at ht
      exact hQ.trans ht ih

/-- **What every access and every charge keep of the bus, a step keeps.** -/
theorem step_relates (p : Peer) (s : Stage β) : Q s.bus (Op.outcome (step p s)).2.bus := by
  have hs := step_course p s
  generalize step p s = r at hs
  cases hs with
  | idle => exact hQ.refl _
  | completed hu | lastBlock hu | blockDone hu | chopped _ hu | refused _ hu =>
      exact hu.relates hQ hr hw hc
  | @faulted u t a hu _ ha | @failed u t e a hu _ ha =>
      have ht := a.perform_relates hQ hr hw hc p u
      rw [ha] at ht
      exact hQ.trans (hu.relates hQ hr hw hc) ht

end Bus

end Channel

end DmaMachine
