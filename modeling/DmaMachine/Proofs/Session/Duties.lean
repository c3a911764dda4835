import DmaMachine.Proofs.Machine.Lockstep
import DmaMachine.Proofs.Machine.Registry
import DmaMachine.Proofs.Session.Works
import DmaMachine.Session.Basic

/-!
# What the program does

A machine that runs the program has events of three kinds.  A `View` is what there is to know of it
beside its `Display`: the clock, the events that are pending, and the counts.  `Shows` says that a
machine has a view.

* `Shows.scheduled`, `Shows.asked`, `Shows.armed`: an event is made, and waits its turn.
* `Does`: a part of the program is carried out on a machine.
* `Shows.submits`, `Shows.begins`: **the two actions of the program**, and the views that come of
  them.
* `Shows.acknowledges`: interrupts are acknowledged, and the view stays.
-/

namespace DmaMachine

namespace Frames

open Channel

/-! ### Views -/

/-- What a pending event of the program is for. -/
inductive Duty where
  | begin
  | submit
  | service
deriving DecidableEq

/-- The task of the event. -/
def Duty.task (period : Nat) : Duty → Task Job
  | .begin => .periodic ⟨0, 1⟩ "Frame" period .begin
  | .submit => .client .submit
  | .service => .service

/-- What there is to know of a machine that runs the program. -/
structure View extends Display where
  now : Nat
  /-- The events that are pending, in firing order, each with the clock from which on it is due. -/
  agenda : List (Nat × Duty)
  /-- Whether a service pass is asked for. -/
  serviced : Bool := false
  frames : Nat := 0
  /-- Cycles that the engine took from the processor. -/
  taken : Nat := 0

/-- Puts an event behind those that are due no later. -/
def enter (at' : Nat) (d : Duty) : List (Nat × Duty) → List (Nat × Duty)
  | [] => [(at', d)]
  | e :: es => if at' < e.1 then (at', d) :: e :: es else e :: enter at' d es

/-- The event has this trigger and is for this. -/
def Planned (period : Nat) (e : Event (Task Job)) (x : Nat × Duty) : Prop :=
  e.triggerAt = x.1 ∧ e.task = x.2.task period

theorem planned_insert {period : Nat} {e : Event (Task Job)} {x : Nat × Duty}
    (he : Planned period e x) {es : List (Event (Task Job))} {l : List (Nat × Duty)}
    (h : List.Forall₂ (Planned period) es l) :
    List.Forall₂ (Planned period) (Event.insert e es) (enter x.1 x.2 l) := by
  induction h with
  | nil => exact .cons he .nil
  | cons hd hl ih =>
      rw [Event.insert, enter, he.1, hd.1]
      split
      · exact .cons he (.cons hd hl)
      · exact .cons hd ih

namespace View

/-- A service pass is asked for, if none is yet. -/
def asked (v : View) : View :=
  if v.serviced then v
  else { v with serviced := true, agenda := enter (Timeline.wrap v.now) .service v.agenda }

/-- A frame begins, and the next one is planned. -/
def begun (period late : Nat) (v : View) : View :=
  let v := { v with frames := v.frames + 1, clearing := true }.asked
  { v with
    agenda := enter (Timeline.wrap (v.now + (period - late))) .begin
      (enter (Timeline.wrap (v.now + submitDelay)) .submit v.agenda) }

/-- The packet is put in, and the table is to be sent. -/
def submitted (v : View) : View := { v with table := v.table.hook, drawing := true }.asked

/-- A service pass is over. -/
def passed (v : View) : View := { v with toDisplay := v.sent.swept }

end View

/-! ### Machines -/

open DmaMachine.Machine (scheduleTask requestService armPeriodic)

/-- The machine has this view. -/
structure Shows (period : Nat) (v : View) (m : Machine) : Prop where
  now : m.timeline.now = v.now
  agenda : List.Forall₂ (Planned period) m.timeline.events v.agenda
  service :
    if v.serviced then ∃ e ∈ m.timeline.events, e.task = .service ∧ m.serviceEvent = some e.id
    else m.serviceEvent = none
  registered : m.isRegistered ⟨0, 1⟩ = true
  frames : m.memory = v.frames
  taken : m.stats.dmaCycles = v.taken
  faultless : m.stats.busFaults = 0
  works : Works v.toDisplay m.engine m.bus

@[simp] theorem length_enter (t : Nat) (d : Duty) : ∀ l : List (Nat × Duty),
    (enter t d l).length = l.length + 1
  | [] => rfl
  | e :: es => by
      rw [enter]
      split
      · rfl
      · rw [List.length_cons, length_enter t d es, List.length_cons]

namespace Shows

variable {period : Nat} {v : View} {m : Machine}

/-- **An event is made**, and waits its turn. -/
theorem scheduled (h : Shows period v m) (hr : v.agenda.length < Timeline.capacity) (name : String)
    (delay : Nat) (d : Duty) :
    ∃ m', scheduleTask name delay (d.task period) m = .ok m.timeline.nextId m' ∧
      (∃ e ∈ m'.timeline.events, e.task = d.task period ∧ e.id = m.timeline.nextId) ∧
      Shows period { v with agenda := enter (Timeline.wrap (v.now + delay)) d v.agenda } m' := by
  have hroom : m.timeline.events.length < Timeline.capacity := by rwa [h.agenda.length_eq]
  refine ⟨{ m with timeline := m.withEvent name delay (d.task period) }, ?_, ?_, ?_⟩
  · rw [scheduleTask, Host.onTimeline, show Host.timeline m = m.timeline from rfl,
      Timeline.schedule_of_room hroom]
    rfl
  · exact ⟨_, Event.mem_insert.2 (.inl rfl), rfl, rfl⟩
  · refine ⟨h.now, ?_, ?_, h.registered, h.frames, h.taken, h.faultless, h.works⟩
    · exact planned_insert (x := (Timeline.wrap (v.now + delay), d))
        ⟨congrArg (Timeline.wrap <| · + delay) h.now, rfl⟩ h.agenda
    · have hs := h.service
      split
      · rename_i hv
        rw [if_pos hv] at hs
        obtain ⟨e, he, ht, hid⟩ := hs
        exact ⟨e, Event.mem_insert.2 (.inr he), ht, hid⟩
      · rename_i hv
        rw [if_neg hv] at hs
        exact hs

/-- **A service pass is asked for.** -/
theorem asked (h : Shows period v m) (hr : v.agenda.length < Timeline.capacity) :
    ∃ m', requestService m = .ok () m' ∧ Shows period v.asked m' := by
  have hs := h.service
  rw [View.asked, requestService]
  cases hv : v.serviced with
  | true =>
      rw [hv] at hs
      obtain ⟨e, he, -, hid⟩ := hs
      rw [if_pos (Machine.servicePending_iff.2 ⟨e, he, hid⟩)]
      exact ⟨m, rfl, h⟩
  | false =>
      rw [hv] at hs
      obtain ⟨m', hm, ⟨e, he, ht, hid⟩, hw⟩ := h.scheduled hr "DMA" 0 .service
      have hp : ¬m.servicePending = true := fun hp => by
        obtain ⟨e, -, he⟩ := Machine.servicePending_iff.1 hp
        rw [show m.serviceEvent = none from hs] at he
        cases he
      rw [if_neg hp, show scheduleTask "DMA" 0 .service m = _ from hm]
      refine ⟨{ m' with serviceEvent := some m.timeline.nextId }, rfl, hw.now, hw.agenda, ?_,
        hw.registered, hw.frames, hw.taken, hw.faultless, hw.works⟩
      exact ⟨e, he, ht, by rw [hid]⟩

/-- **The next frame is planned.** -/
theorem armed (h : Shows period v m) (hr : v.agenda.length < Timeline.capacity) (delay : Nat) :
    ∃ m', armPeriodic ⟨0, 1⟩ "Frame" delay period .begin m = .ok () m' ∧
      Shows period { v with agenda := enter (Timeline.wrap (v.now + delay)) .begin v.agenda }
        m' := by
  obtain ⟨m', hm, -, hw⟩ := h.scheduled hr "Frame" delay .begin
  have hk := Machine.armPeriodic_registered h.registered ⟨0, 1⟩ "Frame" delay period .begin
  rw [armPeriodic, show scheduleTask "Frame" delay (.periodic ⟨0, 1⟩ "Frame" period .begin) m = _
    from hm] at hk ⊢
  exact ⟨_, rfl, hw.now, hw.agenda, hw.service, hk, hw.frames, hw.taken, hw.faultless, hw.works⟩

/-- The engine and the bus come to stand otherwise. -/
theorem working (h : Shows period v m) {d : Display} {e : Engine} {b : Bus Sink}
    (hw : Works d e b) :
    Shows period { v with toDisplay := d } { m with engine := e, bus := b } :=
  ⟨h.now, h.agenda, h.service, h.registered, h.frames, h.taken, h.faultless, hw⟩

end Shows

/-! ### Scripts -/

/-- Makes a call of the program. -/
def makes (bound : Nat) : (c : calls.Call) → Run Machine (calls.Answer c) :=
  DmaMachine.Machine.perform handler bound

/-- The program, carried out on the machine, gives this result and leaves this machine. -/
def Does {β : Type} (bound : Nat) (x : Program β) (m : Machine) (b : β) (m' : Machine) : Prop :=
  x.exec (makes bound) m = some (.ok b, m')

section Scripts

variable {β γ : Type} {bound : Nat} {m m₁ m₂ : Machine} {b : β} {c : γ}

/-- What is done is followed by the rest of the program. -/
theorem Does.exec_bind {x : Program β} (hx : Does bound x m b m₁) (f : β → Program γ) :
    (x >>= f).exec (makes bound) m = (f b).exec (makes bound) m₁ :=
  (Script.exec_bind (makes bound) x f m).trans (by rw [hx])

theorem Does.bind {x : Program β} {f : β → Program γ} (hx : Does bound x m b m₁)
    (hf : Does bound (f b) m₁ c m₂) : Does bound (x >>= f) m c m₂ := (hx.exec_bind f).trans hf

/-- Carrying out a call is performing it. -/
theorem exec_call (q : DmaMachine.Machine.Call Sink Job Nat) (m : Machine) :
    (call q).exec (makes bound) m = DmaMachine.Machine.perform handler bound q m :=
  Script.exec_call (makes bound) q m

theorem does_call {q : DmaMachine.Machine.Call Sink Job Nat} {a : q.Answer}
    (h : DmaMachine.Machine.perform handler bound q m = some (.ok a, m₁)) :
    Does bound (call q) m a m₁ :=
  (exec_call q m).trans h

/-- An address of memory, fit for a word. -/
def InRam (a : UInt32) : Prop :=
  Width.word.aligned a = true ∧ inWindow (physical a) = false ∧ regionOf a = .ram

instance (a : UInt32) : Decidable (InRam a) := inferInstanceAs (Decidable (_ ∧ _ ∧ _))

theorem does_load {a : UInt32} (ha : InRam a) : Does bound (load a) m (m.bus.ram.word a) m := by
  obtain ⟨timeline, bus, engine, service, resumes, slots, stats, memory⟩ := m
  refine does_call (?_ : DmaMachine.Machine.perform handler bound (.read .word a) _ = _)
  have hr : DmaMachine.Machine.read .word a
      (⟨timeline, bus, engine, service, resumes, slots, stats, memory⟩ : Machine) =
      .ok (bus.ram.word a) ⟨timeline, bus, engine, service, resumes, slots, stats, memory⟩ := by
    simp only [DmaMachine.Machine.read, ha.2.1, DmaMachine.Machine.onBus,
      Bus.read_ram ha.1 ha.2.2]
    rfl
  cases bound <;> exact Op.toRun_eq_ok.2 hr

/-- A word is stored in memory. -/
theorem does_store {a v : UInt32} (ha : InRam a) : Does bound (store a v) m ()
    { m with bus := { m.bus with ram := m.bus.ram.write .word (physical a) v } } := by
  obtain ⟨timeline, bus, engine, service, resumes, slots, stats, memory⟩ := m
  refine does_call (?_ : DmaMachine.Machine.perform handler bound (.write .word a v) _ = _)
  have hw : DmaMachine.Machine.write .word a v
      (⟨timeline, bus, engine, service, resumes, slots, stats, memory⟩ : Machine) =
      .ok () ⟨timeline, { bus with ram := bus.ram.write .word (physical a) v }, engine, service,
        resumes, slots, stats, memory⟩ := by
    simp only [DmaMachine.Machine.write, DmaMachine.Machine.writeMasked, ha.2.1,
      DmaMachine.Machine.onBus, Bus.write_ram ha.1 ha.2.2, if_true, if_false, Bool.false_eq_true]
  cases bound <;> exact Op.toRun_eq_ok.2 hw

/-- Where a register stands it is found. -/
theorem inWindow_address (r : Register) : inWindow (physical (address r)) = true ∧
    physical (address r) - windowStart = r.offset := by
  cases r with
  | channel p r => cases p <;> cases r <;> decide
  | _ => decide

variable (bound m) in
/-- A register is read. -/
theorem does_loadRegister (r : Register) : ∃ v, Does bound (load (address r)) m v m := by
  obtain ⟨ha, ho⟩ := inWindow_address r
  refine ⟨Width.word.lane (physical (address r)) (m.engine.get r), does_call
    (?_ : DmaMachine.Machine.perform handler bound (.read .word (address r)) _ = _)⟩
  have hr : DmaMachine.Machine.read .word (address r) m =
      .ok (Width.word.lane (physical (address r)) (m.engine.get r)) m := by
    simp only [DmaMachine.Machine.read, ha, ho, if_true, Engine.read, Register.ofOffset_offset]
  cases bound <;> exact Op.toRun_eq_ok.2 hr

/-- A register is written. -/
theorem does_storeRegister {r : Register} {v : UInt32} (active : Bool) {e : Engine}
    (hp : Engine.put r v 0xFFFFFFFF m.engine = .ok active e)
    (hq : if active then requestService { m with engine := e } = .ok () m₁
      else m₁ = { m with engine := e }) : Does bound (store (address r) v) m () m₁ := by
  refine does_call (?_ :
    DmaMachine.Machine.perform handler bound (.write .word (address r) v) _ = _)
  obtain ⟨ha, ho⟩ := inWindow_address r
  have hw : DmaMachine.Machine.write .word (address r) v m = .ok () m₁ := by
    simp only [DmaMachine.Machine.write, DmaMachine.Machine.writeMasked, ha, ho, if_true,
      DmaMachine.Machine.writeRegister]
    rw [Op.bind_apply]
    simp only [DmaMachine.Machine.onEngine, Engine.write, Register.ofOffset_offset, hp]
    cases active with
    | true => exact hq
    | false => exact congrArg _ hq.symm
  cases bound <;> exact Op.toRun_eq_ok.2 hw

theorem put_channel {p : Peer} {r : Channel.Register} {v : UInt32} {active : Bool} {e : Engine}
    {c : Channel} (h : Channel.write p r v 0xFFFFFFFF (e.channel p) = .ok active c) :
    Engine.put (.channel p r) v 0xFFFFFFFF e =
      .ok (active && e.controller.enabled p.index) (e.setChannel p c) := by
  simp only [Engine.put, Engine.onChannel, h, Engine.controller_setChannel]

/-- **A channel at rest is started.** -/
theorem does_start {p : Peer} {base blocks control : UInt32} (hr : (m.engine.channel p).Rests)
    (he : m.engine.controller.enabled p.index = true)
    (hs : (storedControl p control).has .startBusy = true)
    (ha : refusal? p (programmed p base blocks control (m.engine.channel p)) = none)
    (hq : requestService { m with
      engine := m.engine.setChannel p (started p base blocks control (m.engine.channel p)) } =
        .ok () m₁) :
    Does bound (start p base blocks control) m () m₁ := by
  have channel_eq : ∀ (c : Channel) (e : Engine), (e.setChannel p c).channel p = c := fun c e => by
    rw [Engine.channel_setChannel, if_pos rfl]
  let c₁ := { m.engine.channel p with base := base &&& addressMask }
  let c₂ := { c₁ with blocks := ⟨blocks⟩ }
  let e₁ := m.engine.setChannel p c₁
  let e₂ := m.engine.setChannel p c₂
  have h₁ : Engine.put (.channel p .base) base 0xFFFFFFFF m.engine = .ok false e₁ := by
    have hw : Channel.write p .base base 0xFFFFFFFF (m.engine.channel p) = .ok false c₁ := by
      rw [Channel.write, merge_full]
    rw [put_channel hw, Bool.false_and]
  have h₂ : Engine.put (.channel p .blocks) blocks 0xFFFFFFFF e₁ = .ok false e₂ := by
    have hw : Channel.write p .blocks blocks 0xFFFFFFFF (e₁.channel p) = .ok false c₂ := by
      rw [channel_eq, Channel.write, merge_full]
    rw [put_channel hw, Engine.setChannel_setChannel, Bool.false_and]
  have h₃ : Engine.put (.channel p .control) control 0xFFFFFFFF e₂ = .ok true
      (m.engine.setChannel p (started p base blocks control (m.engine.channel p))) := by
    have hw : Channel.write p .control control 0xFFFFFFFF (e₂.channel p) =
        .ok true (started p base blocks control (m.engine.channel p)) := by
      rw [channel_eq]
      exact write_starts (c := c₂) ⟨hr.running, hr.active, hr.startBusy⟩ hs ha
    rw [put_channel hw, Engine.setChannel_setChannel, Engine.controller_setChannel, he,
      Bool.and_self]
  exact (does_storeRegister _ h₁ rfl).bind
    ((does_storeRegister _ (m := { m with engine := e₁ }) h₂ rfl).bind
      (does_storeRegister _ (m := { m with engine := e₂ }) h₃ hq))

/-! ### The two actions -/

variable {period : Nat} {v : View}

variable (bound)

/-- **The packet is put in, and the table is to be sent.** -/
theorem Shows.submits (h : Shows period v m) (hd : v.drawing = false)
    (hr : v.agenda.length < Timeline.capacity) :
    ∃ m', Does bound submit m () m' ∧ Shows period v.submitted m' := by
  have hg : (m.engine.channel .graphics).Rests := by
    have hg := h.works.graphics
    rwa [hd] at hg
  have hw := h.working (h.works.hook.draw (drawing_started (m.engine.channel .graphics)))
  obtain ⟨m', hm, hs⟩ := hw.asked hr
  refine ⟨m', ?_, hs⟩
  refine (does_load (by decide)).bind ((does_store (by decide)).bind (Does.bind (b := ())
    ((does_store (by decide)).bind ((does_store (by decide)).bind
      ((does_store (by decide)).bind rfl))) ((does_store (by decide)).bind ?_)))
  exact does_start hg (h.works.enabled _) (by decide) (accepted (by decide) _ _ _) hm

theorem length_asked (v : View) : v.asked.agenda.length ≤ v.agenda.length + 1 := by
  rw [View.asked]
  split
  · exact Nat.le_succ _
  · exact Nat.le_of_eq (length_enter _ _ _)

/-- **A frame begins.** -/
theorem Shows.begins (h : Shows period v m) (hc : v.clearing = false)
    (hr : v.agenda.length + 1 < Timeline.capacity) :
    let w := { v with frames := v.frames + 1, clearing := true }.asked
    ∃ m', Does bound begin m () m' ∧
      Shows period { w with
        agenda := enter (Timeline.wrap (w.now + submitDelay)) .submit w.agenda } m' := by
  intro w
  have ht : (m.engine.channel .orderingTable).Rests := by
    have ht := h.works.orderingTable
    rwa [hc] at ht
  have hn : Shows period { v with frames := v.frames + 1 } { m with memory := m.memory + 1 } :=
    ⟨h.now, h.agenda, h.service, h.registered, congrArg (· + 1) h.frames, h.taken, h.faultless,
      h.works⟩
  have hw := hn.working (h.works.clear (clearing_started (m.engine.channel .orderingTable)))
  obtain ⟨m₁, hm, hs⟩ := hw.asked (Nat.lt_of_succ_lt hr)
  obtain ⟨m', hm', -, hs'⟩ := hs.scheduled (Nat.lt_of_le_of_lt (length_asked _) hr) "GPU submit"
    submitDelay .submit
  refine ⟨m', ?_, hs'⟩
  have observed : Does bound (call (.observe fun m => m.memory + 1)) m (m.memory + 1)
      { m with memory := m.memory + 1 } := does_call (by cases bound <;> rfl)
  have planned : Does bound (call (.schedule "GPU submit" submitDelay .submit)) m₁
      m₁.timeline.nextId m' := does_call (by cases bound <;> exact Op.toRun_eq_ok.2 hm')
  have started : Does bound (start .orderingTable tableHead (UInt32.ofNat slots) 0x11000000)
      { m with memory := m.memory + 1 } () m₁ :=
    does_start ht (h.works.enabled _) (by decide) (accepted (by decide) _ _ _) hm
  exact observed.bind (started.bind (planned.bind rfl))

/-- The controller may change, but for its priorities. -/
theorem Shows.controlled (h : Shows period v m) {k : Controller}
    (hk : k.priorityWord = m.engine.controller.priorityWord) :
    Shows period v { m with engine := { m.engine with controller := k } } :=
  ⟨h.now, h.agenda, h.service, h.registered, h.frames, h.taken, h.faultless,
    ⟨h.works.graphics, h.works.orderingTable, h.works.others, hk.trans h.works.priority,
      h.works.down, h.works.owed, h.works.holds⟩⟩

/-- **Acknowledging interrupts** changes nothing that the view tells. -/
theorem Shows.acknowledges (h : Shows period v m) : ∃ times m',
    Does bound Session.acknowledge m times m' ∧ Shows period v m' := by
  have edge : Does bound (call .takeEdge) m m.engine.controller.takeEdge.1 { m with
      engine := { m.engine with controller := m.engine.controller.takeEdge.2 } } :=
    does_call (by cases bound <;> rfl)
  have h₁ := h.controlled (k := m.engine.controller.takeEdge.2) rfl
  generalize { m with engine := { m.engine with controller := m.engine.controller.takeEdge.2 } } =
    m₁ at edge h₁
  cases hr : m.engine.controller.takeEdge.1 with
  | false =>
      rw [hr] at edge
      exact ⟨0, m₁, edge.bind rfl, h₁⟩
  | true =>
      rw [hr] at edge
      obtain ⟨flags, flagged⟩ := does_loadRegister bound m₁ .interrupt
      let k := m₁.engine.controller.putInterrupt (flags &&& 0x7FFFFFFF) 0xFFFFFFFF
      have written : Does bound (store (address .interrupt) (flags &&& 0x7FFFFFFF)) m₁ ()
          { m₁ with engine := { m₁.engine with controller := k } } :=
        does_storeRegister false rfl rfl
      exact ⟨1, _, edge.bind (b := true) (flagged.bind (written.bind rfl)),
        h₁.controlled (k := k) rfl⟩

end Scripts

end Frames

end DmaMachine
