import DmaMachine.Proofs.Engine.Meter
import DmaMachine.Proofs.Machine.Levels

/-!
# What the machine's operations leave alone

The slots of registrations and the channels' resumptions refer to pending events by identifier.  A
machine is *coherent* when these references are sound: none is to an identifier still to come, a
pending event that a slot remembers is one of a registration in that slot, and a pending event that
a resumption remembers is none of a registration.

Most operations have nothing to do with time nor with registrations: the processor's accesses,
requests, clients' events, and what the machine does with its own events.

* `Aside`: the time, the slots and the pending events of registrations are the same, and the machine
  stays coherent.
* `Beside`: the counts of cycles are the same as well.
* `perform_beside`, `perform_bus_aside`: **the calls that leave all of that alone.**
* `serviceChannels_beside`: so does a service pass, but for what the engine does on the bus.
-/

namespace DmaMachine

/-- The task of a registration. -/
def Task.isPeriodic {α : Type} : Task α → Bool
  | .periodic .. => true
  | _ => false

namespace Machine

variable {δ α υ β : Type} {m m' m₁ : Machine δ α υ}

/-- The pending events of registrations, in firing order. -/
def periodicEvents (m : Machine δ α υ) : List (Event (Task α)) :=
  m.timeline.events.filter (·.task.isPeriodic)

theorem mem_periodicEvents {e : Event (Task α)} :
    e ∈ m.periodicEvents ↔ e ∈ m.timeline.events ∧ e.task.isPeriodic = true := List.mem_filter

/-- The references to pending events are sound. -/
structure Coherent (m : Machine δ α υ) : Prop where
  wellFormed : m.timeline.WellFormed
  slot_lt : ∀ (i : Nat) (slot : PeriodicSlot) (id : Nat), m.slots[i]? = some slot →
    slot.event = some id → id < m.timeline.nextId
  resume_lt : ∀ id, some id ∈ m.resumeEvents → id < m.timeline.nextId
  slot_task : ∀ e ∈ m.timeline.events, ∀ (i : Nat) (slot : PeriodicSlot), m.slots[i]? = some slot →
    slot.event = some e.id → ∃ h name period action,
      e.task = .periodic h name period action ∧ h.slot = i
  resume_task : ∀ e ∈ m.timeline.events, some e.id ∈ m.resumeEvents → e.task.isPeriodic = false

/-- The operation has nothing to do with time nor with registrations. -/
structure Aside (m m' : Machine δ α υ) : Prop where
  now : m'.timeline.now = m.timeline.now
  slots : m'.slots = m.slots
  coherent : m.Coherent → m'.Coherent
  periodicEvents : m.Coherent → m'.periodicEvents = m.periodicEvents

/-- Nor with the counts of cycles. -/
structure Beside (m m' : Machine δ α υ) : Prop extends Aside m m' where
  dmaCycles : m'.stats.dmaCycles = m.stats.dmaCycles
  pendingCycles : m'.bus.pendingCycles = m.bus.pendingCycles

theorem aside_chains : Chains (Aside (δ := δ) (α := α) (υ := υ)) where
  refl _ := ⟨rfl, rfl, id, fun _ => rfl⟩
  trans h k := ⟨k.now.trans h.now, k.slots.trans h.slots, fun hc => k.coherent (h.coherent hc),
    fun hc => (k.periodicEvents (h.coherent hc)).trans (h.periodicEvents hc)⟩

theorem beside_chains : Chains (Beside (δ := δ) (α := α) (υ := υ)) where
  refl m := ⟨aside_chains.refl m, rfl, rfl⟩
  trans h k := ⟨aside_chains.trans h.toAside k.toAside, k.dmaCycles.trans h.dmaCycles,
    k.pendingCycles.trans h.pendingCycles⟩

/-! ### References -/

theorem scheduleTask_eq_ok {name : String} {delay id : Nat} {task : Task α}
    (h : scheduleTask name delay task m = .ok id m') :
    id = m.timeline.nextId ∧ m' = { m with timeline := { m.timeline with
      nextId := m.timeline.nextId + 1
      events := Event.insert ⟨m.timeline.nextId, name, m.timeline.now,
        Timeline.wrap (m.timeline.now + delay), task⟩ m.timeline.events } } := by
  simp only [scheduleTask, Host.onTimeline] at h
  split at h
  · rename_i id' t hs
    cases h
    obtain ⟨rfl, rfl⟩ := Timeline.schedule_eq_ok hs
    exact ⟨rfl, rfl⟩
  · cases h

theorem scheduleTask_eq_error {name : String} {delay : Nat} {task : Task α} {e : Fault}
    (h : scheduleTask name delay task m = .error e m') : m' = m := by
  simp only [scheduleTask, Host.onTimeline] at h
  split at h
  · cases h
  · rename_i e' t hs
    cases h
    by_cases hr : m.timeline.events.length < Timeline.capacity
    · rw [show Host.timeline m = m.timeline from rfl, Timeline.schedule_of_room hr] at hs
      cases hs
    · rw [show Host.timeline m = m.timeline from rfl,
        Timeline.schedule_of_full (Nat.le_of_not_lt hr)] at hs
      cases hs
      rfl

theorem scheduleTask_mem {name : String} {delay id : Nat} {task : Task α}
    (h : scheduleTask name delay task m = .ok id m') :
    id < m'.timeline.nextId ∧ ∃ e ∈ m'.timeline.events, e.id = id ∧ e.task = task := by
  obtain ⟨rfl, rfl⟩ := scheduleTask_eq_ok h
  exact ⟨Nat.lt_succ_self _, _, Event.mem_insert.2 (.inl rfl), rfl, rfl⟩

/-- Only the table of events and the references to it matter. -/
theorem Coherent.congr (h : m.Coherent) (ht : m'.timeline = m.timeline)
    (hs : m'.slots = m.slots) (hr : ∀ id, some id ∈ m'.resumeEvents → some id ∈ m.resumeEvents) :
    m'.Coherent where
  wellFormed := ht ▸ h.wellFormed
  slot_lt := by
    rw [ht, hs]
    exact h.slot_lt
  resume_lt id hi := ht ▸ h.resume_lt id (hr id hi)
  slot_task := by
    rw [ht, hs]
    exact h.slot_task
  resume_task e he hi := h.resume_task e (ht ▸ he) (hr e.id hi)

theorem Aside.of_timeline (ht : m'.timeline = m.timeline) (hs : m'.slots = m.slots)
    (hr : m'.resumeEvents = m.resumeEvents) : Aside m m' where
  now := by rw [ht]
  slots := hs
  coherent h := h.congr ht hs fun _ hi => hr ▸ hi
  periodicEvents _ := by rw [Machine.periodicEvents, Machine.periodicEvents, ht]

/-- Some events are taken out, and the clock is moved. -/
theorem Coherent.of_sublist (h : m.Coherent) {t : Timeline (Task α)}
    (hs : t.events.Sublist m.timeline.events) (hn : t.nextId = m.timeline.nextId) :
    Coherent { m with timeline := t } where
  wellFormed := h.wellFormed.of_sublist hs (Nat.le_of_eq hn.symm)
  slot_lt i slot id hi he := hn ▸ h.slot_lt i slot id hi he
  resume_lt id hi := hn ▸ h.resume_lt id hi
  slot_task e he := h.slot_task e (hs.subset he)
  resume_task e he := h.resume_task e (hs.subset he)

/-- A new event is referred to by nobody. -/
theorem Coherent.schedule (h : m.Coherent) {name : String} {delay id : Nat} {task : Task α}
    (hs : scheduleTask name delay task m = .ok id m') : m'.Coherent := by
  obtain ⟨rfl, rfl⟩ := scheduleTask_eq_ok hs
  refine ⟨h.wellFormed.insert ..,
    fun i slot id hi he => Nat.lt_succ_of_lt (h.slot_lt i slot id hi he),
    fun id hi => Nat.lt_succ_of_lt (h.resume_lt id hi), fun e he i slot hi hid => ?_,
    fun e he hi => ?_⟩
  · rcases Event.mem_insert.1 he with rfl | he
    · exact absurd (h.slot_lt i slot _ hi hid) (Nat.lt_irrefl _)
    · exact h.slot_task e he i slot hi hid
  · rcases Event.mem_insert.1 he with rfl | he
    · exact absurd (h.resume_lt _ hi) (Nat.lt_irrefl _)
    · exact h.resume_task e he hi

theorem filter_insert {τ : Type} {p : Event τ → Bool} {e : Event τ} (hp : p e = false)
    (es : List (Event τ)) : (Event.insert e es).filter p = es.filter p := by
  induction es with
  | nil => simp [Event.insert, hp]
  | cons d ds ih =>
      rw [Event.insert]
      split
      · simp [hp]
      · simp [List.filter_cons, ih]

/-- Taking out an element that fails the test is not seen by the filter. -/
theorem filter_eraseP {σ : Type} {p q : σ → Bool} {xs : List σ}
    (h : ∀ x ∈ xs, q x = true → p x = false) : (xs.eraseP q).filter p = xs.filter p := by
  induction xs with
  | nil => rfl
  | cons x xs ih =>
      rw [List.eraseP_cons]
      cases hq : q x with
      | true => simp [h x (.head _) hq]
      | false => simp [List.filter_cons, ih fun y hy => h y (.tail _ hy)]

/-! ### Events that are not of a registration -/

/-- One that is taken out to be fired. -/
theorem popDue_aside {target : Nat} {e : Event (Task α)} {t : Timeline (Task α)}
    (hp : m.timeline.popDue target = some (e, t)) (he : e.task.isPeriodic = false) :
    Aside m (Host.setTimeline t m) := by
  obtain ⟨hev, -, hnow, hid⟩ := Timeline.popDue_eq_some_iff.1 hp
  refine ⟨hnow, rfl, fun h => h.of_sublist (hev ▸ List.sublist_cons_self ..) hid, fun _ => ?_⟩
  rw [Machine.periodicEvents, Machine.periodicEvents, hev, List.filter_cons_of_neg (by simp [he])]
  rfl

/-- A new event that is not of a registration. -/
theorem scheduleTask_beside (name : String) (delay : Nat) {task : Task α}
    (ht : task.isPeriodic = false) :
    Op.Relates (Beside (δ := δ) (υ := υ)) (scheduleTask name delay task) := by
  intro m
  cases hs : scheduleTask name delay task m with
  | error e m' =>
      obtain rfl := scheduleTask_eq_error hs
      exact beside_chains.refl _
  | ok id m' =>
      have hc : m.Coherent → m'.Coherent := fun h => h.schedule hs
      obtain ⟨-, rfl⟩ := scheduleTask_eq_ok hs
      exact ⟨⟨rfl, rfl, hc, fun _ =>
        filter_insert (p := fun d : Event (Task α) => d.task.isPeriodic) ht _⟩, rfl, rfl⟩

theorem requestService_beside :
    Op.Relates (Beside (δ := δ) (α := α) (υ := υ)) requestService := by
  intro m
  have h : Beside m (Op.outcome (scheduleTask "DMA" 0 .service m)).2 :=
    scheduleTask_beside "DMA" 0 rfl m
  simp only [requestService]
  split
  · exact beside_chains.refl m
  · split <;> rename_i hs <;> rw [hs] at h
    · exact beside_chains.trans h ⟨.of_timeline rfl rfl rfl, rfl, rfl⟩
    · exact h

theorem setResume_beside (p : Peer) {event : Option Nat}
    (h : ∀ id, event = some id → id < m.timeline.nextId ∧
      (m.Coherent → ∀ e ∈ m.timeline.events, e.id = id → e.task.isPeriodic = false)) :
    Beside m { m with resumeEvents := m.resumeEvents.set p.index event p.index_lt } := by
  have := p.index_lt
  have hm : ∀ id, some id ∈ m.resumeEvents.set p.index event →
      some id ∈ m.resumeEvents ∨ event = some id := fun id hi =>
    (Vector.mem_or_eq_of_mem_set hi).imp_right Eq.symm
  refine ⟨⟨rfl, rfl, fun hc => ?_, fun _ => rfl⟩, rfl, rfl⟩
  refine ⟨hc.wellFormed, hc.slot_lt, fun id hi => ?_, hc.slot_task, fun e he hi => ?_⟩
  · exact (hm id hi).elim (hc.resume_lt id) fun hi => (h id hi).1
  · exact (hm e.id hi).elim (hc.resume_task e he) fun hi => (h e.id hi).2 hc e he rfl

theorem dropResume_beside (p : Peer) (m : Machine δ α υ) : Beside m (m.dropResume p) := by
  have := p.index_lt
  rw [dropResume]
  cases hr : m.resumeEvents[p.index] with
  | none => exact setResume_beside p nofun
  | some stale =>
      have hm : some stale ∈ m.resumeEvents := hr ▸ Vector.getElem_mem _
      have hd : Beside m (Host.deschedule stale m).2 :=
        { now := rfl
          slots := rfl
          coherent := fun h => h.of_sublist (List.eraseP_sublist ..) rfl
          periodicEvents := fun h => filter_eraseP fun e he hid =>
            h.resume_task e he (eq_of_beq hid ▸ hm)
          dmaCycles := rfl
          pendingCycles := rfl }
      exact beside_chains.trans hd (setResume_beside p nofun)

theorem scheduleResume_beside (p : Peer) (delay : Nat) :
    Op.Relates (Beside (δ := δ) (α := α) (υ := υ)) (scheduleResume p delay) := by
  intro m
  have := p.index_lt
  have hd := dropResume_beside p m
  simp only [scheduleResume]
  cases hs : scheduleTask "DMA resume" delay
      (.resume p ((m.dropResume p).engine.channel p).generation) (m.dropResume p) with
  | error e m₁ =>
      obtain rfl := scheduleTask_eq_error hs
      exact hd
  | ok id m₁ =>
      refine beside_chains.trans
        (beside_chains.trans hd ((scheduleTask_beside _ _ rfl).of_ok hs)) ?_
      obtain ⟨hlt, d, hd, rfl, ht⟩ := scheduleTask_mem hs
      refine setResume_beside p fun id hid => ?_
      cases hid
      -- The resumption refers to the event just made, which is no registration's.
      exact ⟨hlt, fun hc e he hid => by rw [hc.wellFormed.eq_of_id he hd hid, ht]; rfl⟩

/-! ### Operations -/

theorem onEngine_beside (op : Op Engine β) :
    Op.Relates (Beside (δ := δ) (α := α) (υ := υ)) (onEngine op) := by
  intro m
  simp only [onEngine]
  cases op m.engine <;> exact ⟨.of_timeline rfl rfl rfl, rfl, rfl⟩

theorem pure_beside (b : β) : Op.Relates (Beside (δ := δ) (α := α) (υ := υ)) (pure b) :=
  beside_chains.refl

/-- An operation on the engine, and a request of service if it says so. -/
theorem request_beside (p : Peer) :
    Op.Relates (Beside (δ := δ) (α := α) (υ := υ)) (request p) := by
  refine .bind beside_chains (onEngine_beside _) fun b => ?_
  cases b with
  | true => exact .bind beside_chains requestService_beside fun _ => pure_beside _
  | false => exact pure_beside _

theorem writeRegister_beside (offset v mask : UInt32) :
    Op.Relates (Beside (δ := δ) (α := α) (υ := υ)) (writeRegister offset v mask) := by
  refine .bind beside_chains (onEngine_beside _) fun b => ?_
  cases b with
  | true => exact requestService_beside
  | false => exact pure_beside _

theorem resumeChannel_beside (p : Peer) (generation : UInt32) :
    Op.Relates (Beside (δ := δ) (α := α) (υ := υ)) (resumeChannel p generation) := by
  refine .bind beside_chains (fun _ => setResume_beside p nofun) fun _ =>
    .bind beside_chains (onEngine_beside _) fun b => ?_
  cases b with
  | true => exact requestService_beside
  | false => exact pure_beside _

theorem noteOutcomes_beside : ∀ outcomes : List (Peer × Status),
    Op.Relates (Beside (δ := δ) (α := α) (υ := υ)) (noteOutcomes outcomes)
  | [] => pure_beside ()
  | (p, status) :: rest => by
      refine .bind beside_chains (fun m => ?_) fun _ => noteOutcomes_beside rest
      have counted : ∀ stats : Stats, stats.dmaCycles = m.stats.dmaCycles →
          Beside m { m with stats } := fun _ h => ⟨.of_timeline rfl rfl rfl, h, rfl⟩
      cases status with
      | idle => exact beside_chains.refl m
      | completed | blockDone | faulted => exact counted _ rfl
      | chopped resumeIn =>
          exact beside_chains.trans
            (counted { m.stats with choppedWindows := m.stats.choppedWindows + 1 } rfl)
            (scheduleResume_beside p resumeIn _)

theorem noteRise_beside (before : Bool) (m : Machine δ α υ) : Beside m (m.noteRise before) := by
  rw [noteRise]
  split
  · exact ⟨.of_timeline rfl rfl rfl, rfl, rfl⟩
  · exact beside_chains.refl m

section Board

variable [Board δ]

/-- The machine after the engine has served its channels on the bus. -/
def served (m : Machine δ α υ) : Machine δ α υ :=
  let (engine, bus) := (Op.outcome (Engine.service (m.engine, m.bus))).2
  { m with bus, engine, serviceEvent := none }

/-- **A service pass** is what the engine does on the bus, and the bookkeeping after it. -/
theorem serviceChannels_beside (m : Machine δ α υ) :
    Beside m.served (Op.outcome (serviceChannels m)).2 := by
  obtain ⟨timeline, bus, engine, service, resumes, slots, stats, memory⟩ := m
  simp only [serviceChannels, served]
  cases Engine.service (engine, bus) with
  | error e s => exact beside_chains.refl _
  | ok outcomes s =>
      have hn := noteOutcomes_beside outcomes
        ⟨timeline, s.2, s.1, none, resumes, slots, stats, memory⟩
      dsimp only
      split <;> rename_i he <;> rw [he] at hn
      · exact hn
      · exact beside_chains.trans hn (noteRise_beside _ _)

theorem serviceChannels_aside :
    Op.Relates (Aside (δ := δ) (α := α) (υ := υ)) serviceChannels := by
  intro m
  have hs : Aside m m.served := .of_timeline rfl rfl rfl
  exact aside_chains.trans hs (serviceChannels_beside m).toAside

/-- The machine's own events: a service pass. -/
theorem service_aside {target : Nat} {e : Event (Task α)} {t : Timeline (Task α)}
    {r : Except Fault Unit} (hp : m.timeline.popDue target = some (e, t)) (he : e.task = .service)
    (ho : Op.outcome (serviceChannels (Host.setTimeline t m)) = (r, m')) : Aside m m' :=
  aside_chains.trans (popDue_aside hp (by rw [he]; rfl)) (serviceChannels_aside.of_outcome ho)

omit [Board δ] in
/-- The machine's own events: a channel goes on after its pause. -/
theorem resume_aside {target : Nat} {e : Event (Task α)} {t : Timeline (Task α)} {p : Peer}
    {generation : UInt32} {r : Except Fault Unit} (hp : m.timeline.popDue target = some (e, t))
    (he : e.task = .resume p generation)
    (ho : Op.outcome (resumeChannel p generation (Host.setTimeline t m)) = (r, m')) :
    Aside m m' :=
  aside_chains.trans (popDue_aside hp (by rw [he]; rfl))
    ((resumeChannel_beside p generation).of_outcome ho).toAside

/-! ### Accesses -/

omit [Board δ] in
theorem onBus_aside (op : Op (Bus δ) β) : Op.Relates (Aside (α := α) (υ := υ)) (onBus op) := by
  intro m
  simp only [onBus]
  cases op m.bus <;> exact .of_timeline rfl rfl rfl

omit [Board δ] in
theorem onBus_beside {op : Op (Bus δ) β}
    (h : ∀ b, (Op.outcome (op b)).2.pendingCycles = b.pendingCycles) :
    Op.Relates (Beside (α := α) (υ := υ)) (onBus op) := by
  intro m
  have hb := h m.bus
  have ha := onBus_aside op m
  simp only [onBus] at ha ⊢
  cases ho : op m.bus <;> rw [ho] at hb ha <;> exact ⟨ha, rfl, hb⟩

theorem readBus_beside (w : Width) (a : UInt32) :
    Op.Relates (Beside (δ := δ) (α := α) (υ := υ)) (onBus (Bus.read w a)) :=
  onBus_beside (Bus.pendingCycles_read w a)

theorem writeBus_beside (w : Width) (a v : UInt32) :
    Op.Relates (Beside (δ := δ) (α := α) (υ := υ)) (onBus (Bus.write w a v)) :=
  onBus_beside (Bus.pendingCycles_write w a v)

section Relates

variable {R : Machine δ α υ → Machine δ α υ → Prop} (hR : Chains R)
  (hr : ∀ w a, Op.Relates R (onBus (Bus.read w a)))
include hR hr

/-- The processor reads a register, or from the bus. -/
theorem read_relates (w : Width) (a : UInt32) : Op.Relates R (read w a) := by
  intro m
  simp only [read]
  split
  · split <;> exact hR.refl m
  · exact hr w a m

theorem writeLanes_relates (hw : ∀ w a v, Op.Relates R (onBus (Bus.write w a v)))
    (a v mask : UInt32) : ∀ lanes : List UInt32, Op.Relates R (writeLanes a v mask lanes)
  | [] => hR.refl
  | lane :: lanes => by
      have rest : Op.Relates R (writeLanes a v mask lanes) := writeLanes_relates hw a v mask lanes
      rw [writeLanes]
      dsimp only
      split
      · exact rest
      · split
        · exact .bind hR (hw _ _ _) fun _ => rest
        · exact .bind hR (hr _ _) fun _ => .bind hR (hw _ _ _) fun _ => rest

/-- The processor writes a register, or to the bus. -/
theorem writeMasked_relates (hw : ∀ w a v, Op.Relates R (onBus (Bus.write w a v)))
    (hg : ∀ offset v mask, Op.Relates R (writeRegister offset v mask)) (a v mask : UInt32) :
    Op.Relates R (writeMasked a v mask) := by
  rw [writeMasked]
  repeat' split
  · exact hg _ _ _
  · exact hw _ _ _
  · exact hw _ _ _
  · exact hw _ _ _
  · exact writeLanes_relates hR hr hw _ _ _ _

theorem write_relates (hw : ∀ w a v, Op.Relates R (onBus (Bus.write w a v)))
    (hg : ∀ offset v mask, Op.Relates R (writeRegister offset v mask)) (w : Width)
    (a v : UInt32) : Op.Relates R (write w a v) := by
  rw [write]
  repeat' split
  · exact writeMasked_relates hR hr hw hg a v _
  · exact writeMasked_relates hR hr hw hg _ _ _
  · exact hw _ _ _

end Relates

theorem read_beside (w : Width) (a : UInt32) :
    Op.Relates (Beside (δ := δ) (α := α) (υ := υ)) (read w a) :=
  read_relates beside_chains readBus_beside w a

theorem writeMasked_beside (a v mask : UInt32) :
    Op.Relates (Beside (δ := δ) (α := α) (υ := υ)) (writeMasked a v mask) :=
  writeMasked_relates beside_chains readBus_beside writeBus_beside writeRegister_beside a v mask

theorem write_beside (w : Width) (a v : UInt32) :
    Op.Relates (Beside (δ := δ) (α := α) (υ := υ)) (write w a v) :=
  write_relates beside_chains readBus_beside writeBus_beside writeRegister_beside w a v

/-! ### Calls -/

/-- The calls that have nothing to do with time, registrations, nor the counts of cycles. -/
def Call.Plain : Call δ α υ → Prop
  | .read .. | .write .. | .writeMasked .. | .request _ | .takeEdge | .schedule .. | .capture ..
  | .observe _ => True
  | _ => False

/-- **The plain calls leave all of that alone.** -/
theorem perform_beside {handler : Handler δ α υ} {bound : Nat} {c : Call δ α υ}
    {r : Except Fault c.Answer} (hc : c.Plain) (hp : perform handler bound c m = some (r, m')) :
    Beside m m' := by
  have op : ∀ {β : Type} {x : Op (Machine δ α υ) β} {r : Except Fault β}, Op.Relates Beside x →
      x.toRun m = some (r, m') → Beside m m' := fun hx h => hx.of_outcome (Option.some.inj h)
  cases c with
  | read w a =>
      simp only [perform] at hp
      exact op (read_beside w a) hp
  | write w a v =>
      simp only [perform] at hp
      exact op (write_beside w a v) hp
  | writeMasked a v mask =>
      simp only [perform] at hp
      exact op (writeMasked_beside a v mask) hp
  | request p =>
      simp only [perform] at hp
      exact op (request_beside p) hp
  | takeEdge =>
      simp only [perform] at hp
      exact op (onEngine_beside _) hp
  | schedule name delay action =>
      simp only [perform] at hp
      exact op (scheduleTask_beside _ _ rfl) hp
  | capture =>
      simp only [perform] at hp
      cases hp
      exact beside_chains.refl m
  | observe =>
      simp only [perform] at hp
      cases hp
      exact ⟨.of_timeline rfl rfl rfl, rfl, rfl⟩
  | run | runToNext | deschedule | schedulePeriodic | cancelPeriodic | reset | restore | bus =>
      cases hc

/-- A client's hand on the bus leaves time and registrations alone. -/
theorem perform_bus_aside {handler : Handler δ α υ} {bound : Nat} {c : Bus.Call δ}
    {r : Except Fault c.Answer} (hp : perform handler bound (.bus c) m = some (r, m')) :
    Aside m m' := by
  simp only [perform] at hp
  exact (onBus_aside _).of_outcome (Option.some.inj hp)

end Board

end Machine

end DmaMachine
