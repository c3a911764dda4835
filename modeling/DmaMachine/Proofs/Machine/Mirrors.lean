import DmaMachine.Proofs.Bus.Twins
import DmaMachine.Proofs.Engine.Mirrors
import DmaMachine.Proofs.Machine.Errands
import DmaMachine.Proofs.Machine.Slots
import DmaMachine.Proofs.Timeline.Tasks

/-!
# Mirrored machines

A machine may carry more than it shows: what channels at rest hold of old transfers, how many
generations its channels and its slots have seen, identifiers of events that are no more, the
address of the last exception, and its statistics.  It *mirrors* a machine that shows the same and
has the same pending events, with everything that names a generation rendered for the other.

* `Rendering`: how actions, handles and tasks of the one machine are rendered for the other.
* `Mirrors`: the relation.
* `serviceChannels_twins`, `Mirrors.write`, `schedulePeriodic_twins` and so on: **what is done to
  mirrored machines comes to the same.**
-/

namespace DmaMachine

/-- How what belongs to the one machine is rendered for the other: the actions of its client, and
the generations of channels and slots, by which it is ahead. -/
structure Rendering (α α' : Type) where
  action : α → α'
  channel : Peer → UInt32
  slot : Nat → UInt32
  /-- The first identifier of an event that the other machine can have. -/
  firstId : Nat

namespace Rendering

variable {α α' : Type} (o : Rendering α α')

/-- The handle of the same registration. -/
def handle (h : PeriodicHandle) : PeriodicHandle := ⟨h.slot, h.generation - o.slot h.slot⟩

/-- The slot at an index. -/
def slotFor (i : Nat) (s : PeriodicSlot) : PeriodicSlot := ⟨s.generation - o.slot i, s.event⟩

def task : Task α → Task α'
  | .service => .service
  | .resume p generation => .resume p (generation - o.channel p)
  | .periodic h name period action => .periodic (o.handle h) name period (o.action action)
  | .client action => .client (o.action action)

/-- The same event is remembered, or one of before, of which the other machine knows nothing. -/
def Recalls (a b : Option Nat) : Prop := b = a ∨ b = none ∧ ∃ id, a = some id ∧ id < o.firstId

end Rendering

namespace Machine

variable {δ α α' υ β : Type}

/-! ### The relation -/

/-- The machines show the same, and have the same pending events as `o` renders them. -/
structure Mirrors (o : Rendering α α') (m : Machine δ α υ) (m' : Machine δ α' υ) : Prop where
  timeline : m'.timeline = m.timeline.map o.task
  fresh : ∀ e ∈ m.timeline.events, o.firstId ≤ e.id
  firstId_le : o.firstId ≤ m.timeline.nextId
  bus : m.bus.Akin m'.bus
  engine : Engine.Mirrors o.channel m.engine m'.engine
  serviceEvent : o.Recalls m.serviceEvent m'.serviceEvent
  resumeEvents : ∀ (i : Nat) (_ : i < channelCount), o.Recalls m.resumeEvents[i] m'.resumeEvents[i]
  slots : ∀ i, slotAt m'.slots i = o.slotFor i (slotAt m.slots i)
  memory : m'.memory = m.memory

/-- Operations on mirrored machines that give the same. -/
abbrev Twins (o : Rendering α α') (x : Op (Machine δ α υ) β) (y : Op (Machine δ α' υ) β) : Prop :=
  Op.Twins (· = ·) (Mirrors o) x y

/-- Outcomes that are the same. -/
abbrev Meets (o : Rendering α α') (x : EStateM.Result Fault (Machine δ α υ) β)
    (y : EStateM.Result Fault (Machine δ α' υ) β) : Prop :=
  Op.Meets (· = ·) (Mirrors o) x y

variable {o : Rendering α α'} {m : Machine δ α υ} {m' : Machine δ α' υ}

theorem Mirrors.stats (h : Mirrors o m m') (stats stats' : Stats) :
    Mirrors o { m with stats } { m' with stats := stats' } := { h with }

/-- Fewer events are pending. -/
theorem Mirrors.timeline_sublist (h : Mirrors o m m') {t : Timeline (Task α)}
    (ht : t.events.Sublist m.timeline.events) (hn : t.nextId = m.timeline.nextId) :
    Mirrors o (Host.setTimeline t m) (Host.setTimeline (t.map o.task) m') :=
  { h with
    timeline := rfl
    fresh := fun e he => h.fresh e (ht.subset he)
    firstId_le := Nat.le_trans h.firstId_le (Nat.le_of_eq hn.symm) }

theorem onBus_twins {x : Op (Bus δ) β} (hx : Bus.Twin x) :
    Twins o (onBus x : Op (Machine δ α υ) β) (onBus x : Op (Machine δ α' υ) β) := by
  intro m m' h
  have hm := hx _ _ h.bus
  simp only [Machine.onBus]
  generalize x m.bus = u at hm
  generalize x m'.bus = v at hm
  cases hm with
  | ok ha hb => exact .ok ha { h with bus := hb }
  | error e hb => exact .error e { h with bus := hb }

theorem Mirrors.onEngine (h : Mirrors o m m') {x y : Op Engine β}
    (hx : Op.Meets (· = ·) (Engine.Mirrors o.channel) (x m.engine) (y m'.engine)) :
    Meets o (onEngine x m) (onEngine y m') := by
  simp only [Machine.onEngine]
  generalize x m.engine = u at hx
  generalize y m'.engine = v at hx
  cases hx with
  | ok ha he => exact .ok ha { h with engine := he }
  | error e he => exact .error e { h with engine := he }

/-! ### Events -/

theorem Mirrors.isScheduled (h : Mirrors o m m') (id : Nat) :
    m'.timeline.isScheduled id = m.timeline.isScheduled id := by
  rw [h.timeline, Timeline.isScheduled_map]

/-- An event of before is not pending. -/
theorem Mirrors.not_isScheduled (h : Mirrors o m m') {id : Nat} (hid : id < o.firstId) :
    m.timeline.isScheduled id = false := by
  rw [Bool.eq_false_iff]
  intro hs
  obtain ⟨e, he, rfl⟩ := Timeline.isScheduled_iff.1 hs
  exact absurd (h.fresh e he) (Nat.not_le_of_lt hid)

/-- An event is taken out of the table. -/
theorem Mirrors.deschedule (h : Mirrors o m m') (id : Nat) :
    (Host.deschedule id m').1 = (Host.deschedule id m).1 ∧
      Mirrors o (Host.deschedule id m).2 (Host.deschedule id m').2 := by
  have ht : Host.timeline m' = m.timeline.map o.task := h.timeline
  rw [Host.deschedule, ht, Timeline.deschedule_map]
  exact ⟨rfl, h.timeline_sublist (t := (m.timeline.deschedule id).2) (List.eraseP_sublist ..) rfl⟩

/-- Nothing is left of an event of before. -/
theorem Mirrors.deschedule_old (h : Mirrors o m m') {id : Nat} (hid : id < o.firstId) :
    (Host.deschedule id m).2 = m := by
  have he : (m.timeline.deschedule id).2 = m.timeline := by
    have hn : m.timeline.events.eraseP (·.id == id) = m.timeline.events :=
      List.eraseP_of_forall_not fun e he => by
        have := h.fresh e he
        simp only [beq_iff_eq]
        omega
    rw [Timeline.deschedule, hn]
  show { m with timeline := (m.timeline.deschedule id).2 } = m
  rw [he]

theorem Mirrors.withEvent (h : Mirrors o m m') (name : String) (delay : Nat) (task : Task α) :
    Mirrors o { m with timeline := m.withEvent name delay task }
      { m' with timeline := m'.withEvent name delay (o.task task) } :=
  { h with
    timeline := by
      simp only [Machine.withEvent, h.timeline, Timeline.map, Event.map_insert]
      rfl
    fresh := fun e he => by
      rcases Event.mem_insert.1 he with rfl | he
      · exact h.firstId_le
      · exact h.fresh e he
    firstId_le := Nat.le_succ_of_le h.firstId_le }

/-- **Events are made alike.** -/
theorem scheduleTask_twins (name : String) (delay : Nat) (task : Task α) :
    Twins (δ := δ) (υ := υ) o (scheduleTask name delay task)
      (scheduleTask name delay (o.task task)) := by
  intro m m' h
  have hl : m'.timeline.events.length = m.timeline.events.length := by
    rw [h.timeline, Timeline.map, List.length_map]
  have ht : ∀ {α : Type} (m : Machine δ α υ), Host.timeline m = m.timeline := fun _ => rfl
  simp only [scheduleTask, Host.onTimeline, ht]
  by_cases hr : m.timeline.events.length < Timeline.capacity
  · rw [Timeline.schedule_of_room hr, Timeline.schedule_of_room (hl ▸ hr)]
    exact .ok (by rw [h.timeline]; rfl) (h.withEvent name delay task)
  · rw [Timeline.schedule_of_full (Nat.le_of_not_lt hr),
      Timeline.schedule_of_full (hl ▸ Nat.le_of_not_lt hr)]
    exact .error _ h

/-! ### Errands -/

theorem Mirrors.servicePending (h : Mirrors o m m') : m'.servicePending = m.servicePending := by
  rw [Machine.servicePending, Machine.servicePending]
  obtain he | ⟨he, id, hs, hid⟩ := h.serviceEvent
  · rw [he]
    cases m.serviceEvent with
    | none => rfl
    | some id => exact h.isScheduled id
  · rw [he, hs]
    exact (h.not_isScheduled hid).symm

theorem requestService_twins : Twins (δ := δ) (υ := υ) o requestService requestService := by
  intro m m' h
  have hs : Meets o (scheduleTask "DMA" 0 .service m) (scheduleTask "DMA" 0 .service m') :=
    scheduleTask_twins "DMA" 0 .service m m' h
  rw [requestService, requestService, h.servicePending]
  split
  · exact .ok rfl h
  · generalize scheduleTask "DMA" 0 .service m = u at hs
    generalize scheduleTask "DMA" 0 .service m' = v at hs
    cases hs with
    | ok hid hm => exact .ok rfl { hm with serviceEvent := .inl (congrArg some hid.symm) }
    | error e hm => exact .error e hm

theorem Mirrors.setResume (h : Mirrors o m m') (p : Peer) {a b : Option Nat} (hr : o.Recalls a b) :
    Mirrors o { m with resumeEvents := m.resumeEvents.set p.index a p.index_lt }
      { m' with resumeEvents := m'.resumeEvents.set p.index b p.index_lt } :=
  { h with
    resumeEvents := fun i hi => by
      rw [Vector.getElem_set, Vector.getElem_set]
      split
      · exact hr
      · exact h.resumeEvents i hi }

theorem Mirrors.dropResume (h : Mirrors o m m') (p : Peer) :
    Mirrors o (m.dropResume p) (m'.dropResume p) := by
  have hp := p.index_lt
  have hr := h.resumeEvents p.index hp
  rw [Machine.dropResume, Machine.dropResume]
  cases ha : m.resumeEvents[p.index] with
  | none =>
      have hb : m'.resumeEvents[p.index] = none := by
        rcases hr with hb | ⟨hb, -⟩
        · exact hb.trans ha
        · exact hb
      rw [hb]
      exact h.setResume p (.inl rfl)
  | some id =>
      rcases hr with hb | ⟨hb, id', ha', hid⟩
      · rw [hb, ha]
        exact (h.deschedule id).2.setResume p (.inl rfl)
      · obtain rfl : id' = id := Option.some.inj (ha'.symm.trans ha)
        rw [hb]
        dsimp only
        rw [h.deschedule_old hid]
        exact h.setResume p (.inl rfl)

theorem scheduleResume_twins (p : Peer) (delay : Nat) :
    Twins (δ := δ) (υ := υ) o (scheduleResume p delay) (scheduleResume p delay) := by
  intro m m' h
  have hd := h.dropResume p
  have hg : o.task (.resume p ((m.dropResume p).engine.channel p).generation) =
      .resume p ((m'.dropResume p).engine.channel p).generation := by
    rw [(hd.engine.channel p).generation]
    rfl
  have hs := scheduleTask_twins "DMA resume" delay
    (.resume p ((m.dropResume p).engine.channel p).generation) _ _ hd
  rw [hg] at hs
  rw [scheduleResume, scheduleResume]
  generalize scheduleTask "DMA resume" delay _ (m.dropResume p) = u at hs
  generalize scheduleTask "DMA resume" delay _ (m'.dropResume p) = v at hs
  cases hs with
  | ok hid hm => exact .ok rfl (hm.setResume p (.inl (congrArg some hid.symm)))
  | error e hm => exact .error e hm

/-! ### Service passes -/

theorem noteOutcome_twins (p : Peer) (status : Status) :
    Twins (δ := δ) (υ := υ) o (noteOutcome p status) (noteOutcome p status) := by
  intro m m' h
  cases status with
  | idle => exact .ok rfl h
  | completed | blockDone | faulted => exact .ok rfl (h.stats _ _)
  | chopped resumeIn => exact scheduleResume_twins p resumeIn _ _ (h.stats _ _)

theorem noteOutcomes_twins (outcomes : List (Peer × Status)) :
    Twins (δ := δ) (υ := υ) o (noteOutcomes outcomes) (noteOutcomes outcomes) := by
  induction outcomes with
  | nil => exact .pure rfl
  | cons x rest ih => exact .seq (noteOutcome_twins x.1 x.2) fun _ => ih

theorem Mirrors.noteRise (h : Mirrors o m m') (before before' : Bool) :
    Mirrors o (m.noteRise before) (m'.noteRise before') := by
  have counted : ∀ stats stats', Mirrors o { m with stats } { m' with stats := stats' } := h.stats
  rw [Machine.noteRise, Machine.noteRise]
  split <;> split
  · exact counted _ _
  · exact counted _ m'.stats
  · exact counted m.stats _
  · exact h

/-- **A service pass comes to the same.** -/
theorem serviceChannels_twins [Board δ] :
    Twins (δ := δ) (υ := υ) o serviceChannels serviceChannels := by
  intro m m' h
  have hs := Engine.service_twins Bus.akin_kindred (m.engine, m.bus) (m'.engine, m'.bus)
    ⟨h.engine, h.bus⟩
  have served : ∀ {s t : Engine × Bus δ}, Engine.MirrorsWith o.channel Bus.Akin s t →
      Mirrors o { m with engine := s.1, bus := s.2, serviceEvent := none }
        { m' with engine := t.1, bus := t.2, serviceEvent := none } := fun hs =>
    { h with engine := hs.engine, bus := hs.bus, serviceEvent := .inl rfl }
  rw [serviceChannels, serviceChannels]
  generalize Engine.service (m.engine, m.bus) = u at hs
  generalize Engine.service (m'.engine, m'.bus) = v at hs
  cases hs with
  | error e hs => exact .error e (served hs)
  | @ok outcomes _ s t ho hs =>
      cases ho
      have hn := noteOutcomes_twins outcomes _ _ (served hs)
      dsimp only
      generalize noteOutcomes outcomes _ = u at hn
      generalize noteOutcomes outcomes _ = v at hn
      cases hn with
      | ok _ hm => exact .ok rfl (hm.noteRise _ _)
      | error e hm => exact .error e hm

/-! ### Accesses and requests -/

theorem resumeChannel_twins (p : Peer) (generation : UInt32) :
    Twins (δ := δ) (υ := υ) o (resumeChannel p generation)
      (resumeChannel p (generation - o.channel p)) :=
  .seq (x := modify _) (y := modify _) (fun _ _ h => .ok rfl (h.setResume p (.inl rfl))) fun _ =>
    .seq (fun _ _ h => h.onEngine (h.engine.resume p generation)) fun _ =>
      .ite requestService_twins (.pure rfl)

theorem request_twins (p : Peer) :
    Twins (δ := δ) (υ := υ) o (Machine.request p) (Machine.request p) :=
  .seq (fun _ _ h => h.onEngine (h.engine.request p)) fun _ =>
    .ite (.seq requestService_twins fun _ => .pure rfl) (.pure rfl)

/-- Taking the latched edge. -/
theorem takeEdge_twins : Twins (δ := δ) (υ := υ) o takeEdge takeEdge := fun _ _ h =>
  h.onEngine (.ok (by rw [h.engine.controller])
    (h.engine.withController fun k => k.takeEdge.2))

/-- The write of a register, if channels that go on running keep their modes. -/
theorem Mirrors.writeRegister (h : Mirrors o m m') {offset v mask : UInt32}
    (hk : m.engine.KeepsModes (Op.outcome (writeRegister offset v mask m)).2.engine) :
    Meets o (writeRegister offset v mask m) (writeRegister offset v mask m') := by
  rw [writeRegister_engine] at hk
  refine .bind (h.onEngine (h.engine.write hk)) fun {b b' _ _} _ hb hs => ?_
  cases hb
  exact Op.Twins.ite requestService_twins (.pure rfl) _ _ hs

section Accesses

variable [Board δ]

theorem read_twins (w : Width) (a : UInt32) :
    Twins (δ := δ) (υ := υ) o (Machine.read w a) (Machine.read w a) := by
  intro m m' h
  rw [Machine.read, Machine.read]
  split
  · dsimp only
    rw [h.engine.read]
    split
    · exact .ok rfl h
    · exact .error _ h
  · exact onBus_twins (Bus.read_twin w a) m m' h

theorem writeLanes_twins (a v mask : UInt32) (lanes : List UInt32) :
    Twins (δ := δ) (υ := υ) o (writeLanes a v mask lanes) (writeLanes a v mask lanes) := by
  induction lanes with
  | nil => exact .pure rfl
  | cons lane lanes ih =>
      have hw : ∀ x, Twins (δ := δ) (υ := υ) o (onBus (Bus.write .byte (a + lane) x))
          (onBus (Bus.write .byte (a + lane) x)) := fun x => onBus_twins (Bus.write_twin _ _ x)
      rw [writeLanes, writeLanes]
      dsimp only
      split
      · exact ih
      · split
        · exact .seq (hw _) fun _ => ih
        · exact .seq (onBus_twins (Bus.read_twin _ _)) fun _ => .seq (hw _) fun _ => ih

theorem Mirrors.writeMasked (h : Mirrors o m m') {a v mask : UInt32}
    (hk : m.engine.KeepsModes (Op.outcome (writeMasked a v mask m)).2.engine) :
    Meets o (writeMasked a v mask m) (writeMasked a v mask m') := by
  have hb : ∀ w a v, Meets o (onBus (Bus.write w a v) m) (onBus (Bus.write w a v) m') :=
    fun w a v => onBus_twins (Bus.write_twin w a v) m m' h
  rw [Machine.writeMasked] at hk ⊢
  rw [Machine.writeMasked]
  by_cases hw : inWindow (physical a) = true
  · rw [if_pos hw] at hk ⊢
    rw [if_pos hw]
    exact h.writeRegister hk
  · rw [if_neg hw, if_neg hw]
    split
    · exact hb _ _ _
    · split
      · exact hb _ _ _
      · split
        · exact hb _ _ _
        · exact writeLanes_twins a v mask _ m m' h

/-- **A write of the processor**, if channels that go on running keep their modes. -/
theorem Mirrors.write (h : Mirrors o m m') {w : Width} {a v : UInt32}
    (hk : m.engine.KeepsModes (Op.outcome (write w a v m)).2.engine) :
    Meets o (write w a v m) (write w a v m') := by
  rw [Machine.write] at hk ⊢
  rw [Machine.write]
  by_cases hw : w = .word
  · rw [if_pos hw] at hk ⊢
    rw [if_pos hw]
    exact h.writeMasked hk
  · rw [if_neg hw] at hk ⊢
    rw [if_neg hw]
    split at hk
    · rename_i hp
      rw [if_pos hp, if_pos hp]
      exact h.writeMasked hk
    · rename_i hp
      rw [if_neg hp, if_neg hp]
      exact onBus_twins (Bus.write_twin w a v) m m' h

end Accesses

/-! ### Periodic events -/

/-- The owners are the same. -/
theorem Mirrors.event (h : Mirrors o m m') (i : Nat) :
    (slotAt m'.slots i).event = (slotAt m.slots i).event := by
  rw [h.slots, Rendering.slotFor]

theorem Mirrors.isRegistered (h : Mirrors o m m') (k : PeriodicHandle) :
    m'.isRegistered (o.handle k) = m.isRegistered k := by
  rw [isRegistered_eq, isRegistered_eq, Rendering.handle, h.slots, Bool.eq_iff_iff]
  simp only [Rendering.slotFor, Bool.and_eq_true, beq_iff_eq, UInt32.sub_left_inj]

theorem Mirrors.nextHandle (h : Mirrors o m m') : m'.nextHandle = o.handle m.nextHandle := by
  have hf : m'.freeSlot = m.freeSlot := freeSlot_congr h.event
  have hg : (slotAt m'.slots m.freeSlot).generation + 1 =
      (slotAt m.slots m.freeSlot).generation + 1 - o.slot m.freeSlot := by
    rw [h.slots]
    exact Channel.generation_succ _ _
  rw [Machine.nextHandle, hf]
  exact congrArg (PeriodicHandle.mk _) hg

theorem Mirrors.claimed (h : Mirrors o m m') : Mirrors o m.claimed m'.claimed :=
  { h with
    slots := fun i => by
      have hf : m'.freeSlot = m.freeSlot := freeSlot_congr h.event
      rw [slotAt_claimed, slotAt_claimed, h.nextHandle, hf]
      split
      · rename_i hi
        subst hi
        rfl
      · exact h.slots i }

/-- Making the next event of a registration whose slots are there. -/
theorem Mirrors.armPeriodic (h : Mirrors o m m') {k : PeriodicHandle} (hs : k.slot < m.slots.size)
    (hs' : k.slot < m'.slots.size) (name : String) (delay period : Nat) (action : α) :
    Meets o (armPeriodic k name delay period action m)
      (armPeriodic (o.handle k) name delay period (o.action action) m') := by
  have ht := scheduleTask_twins name delay (.periodic k name period action) m m' h
  rw [Rendering.task] at ht
  rw [Machine.armPeriodic, Machine.armPeriodic]
  cases hx : scheduleTask name delay (.periodic k name period action) m with
  | error e m₁ =>
      rw [hx] at ht
      generalize scheduleTask name delay _ m' = v at ht
      cases ht with
      | error _ hm => exact .error e hm
  | ok id m₁ =>
      rw [hx] at ht
      cases hy : scheduleTask name delay
          (.periodic (o.handle k) name period (o.action action)) m' with
      | error e m₁' =>
          rw [hy] at ht
          cases ht
      | ok id' m₁' =>
          rw [hy] at ht
          replace hs : k.slot < m₁.slots.size := by rwa [(scheduleTask_eq_ok hx).2]
          replace hs' : k.slot < m₁'.slots.size := by rwa [(scheduleTask_eq_ok hy).2]
          cases ht with
          | ok hid hm =>
              refine .ok rfl { hm with slots := fun i => ?_ }
              -- The slot has the generation of its handle on both sides or on neither.
              rw [slotAt_modify hs, slotAt_modify (show (o.handle k).slot < _ from hs'), hid]
              by_cases hi : i = k.slot
              · subst hi
                rw [if_pos rfl, if_pos (show k.slot = (o.handle k).slot from rfl),
                  show (o.handle k).slot = k.slot from rfl, hm.slots]
                simp only [Rendering.handle, Rendering.slotFor, UInt32.sub_left_inj]
                split <;> rfl
              · rw [if_neg hi, if_neg (show ¬ i = (o.handle k).slot from hi)]
                exact hm.slots i

/-- **Registrations are made alike**, with handles that correspond. -/
theorem schedulePeriodic_twins (name : String) (period : Nat) (action : α) :
    Op.Twins (fun k k' => k' = o.handle k) (Mirrors (δ := δ) (υ := υ) o)
      (schedulePeriodic name period action) (schedulePeriodic name period (o.action action)) := by
  intro m m' h
  by_cases hp : period = 0
  · rw [schedulePeriodic, schedulePeriodic, if_pos hp, if_pos hp]
    exact .error _ h
  · have hs : m.nextHandle.slot < m.claimed.slots.size := m.freeSlot_lt_claimed
    have hs' : m.nextHandle.slot < m'.claimed.slots.size := by
      have := m'.freeSlot_lt_claimed
      rwa [freeSlot_congr h.event] at this
    have ha := h.claimed.armPeriodic hs hs' name period period action
    rw [schedulePeriodic_eq hp, schedulePeriodic_eq hp, h.nextHandle]
    generalize Machine.armPeriodic m.nextHandle name period period action m.claimed = u at ha
    generalize Machine.armPeriodic _ name period period _ m'.claimed = v at ha
    cases ha with
    | ok _ hm => exact .ok rfl hm
    | error e hm => exact .error e hm

/-- **Registrations are ended alike**, by handles that correspond. -/
theorem Mirrors.cancelPeriodic (h : Mirrors o m m') (k : PeriodicHandle) :
    (m'.cancelPeriodic (o.handle k)).1 = (m.cancelPeriodic k).1 ∧
      Mirrors o (m.cancelPeriodic k).2 (m'.cancelPeriodic (o.handle k)).2 := by
  have hr := h.isRegistered k
  cases hk : m.isRegistered k with
  | false =>
      rw [hk] at hr
      rw [cancelPeriodic_of_lapsed hk, cancelPeriodic_of_lapsed hr]
      exact ⟨rfl, h⟩
  | true =>
      rw [hk] at hr
      obtain ⟨id, slots, hid, he, hs⟩ := cancelPeriodic_of_registered hk
      obtain ⟨id', slots', hid', he', hs'⟩ := cancelPeriodic_of_registered hr
      have hee : id' = id := by
        have hev := h.event k.slot
        rw [slotAt_of_some hid, slotAt_of_some (show m'.slots[k.slot]? = _ from hid')] at hev
        exact Option.some.inj hev
      subst hee
      rw [he, he']
      refine ⟨rfl, { (h.deschedule id').2 with slots := fun i => ?_ }⟩
      show slotAt slots' i = o.slotFor i (slotAt slots i)
      rw [slotAt, slotAt, hs, hs']
      by_cases hi : i = k.slot
      · subst hi
        rw [if_pos rfl, if_pos (show k.slot = (o.handle k).slot from rfl)]
        rfl
      · rw [if_neg hi, if_neg (show ¬ i = (o.handle k).slot from hi)]
        exact h.slots i

/-! ### Time and cycles -/

theorem Mirrors.setNow (h : Mirrors o m m') (now : Nat) :
    Mirrors o (Host.setNow now m) (Host.setNow now m') := by
  have ht : (Host.setNow now m').timeline = ({ m.timeline with now }).map o.task :=
    congrArg (fun t : Timeline (Task α') => { t with now }) h.timeline
  exact { h with timeline := ht }

/-- The same event is taken out, or none. -/
theorem Mirrors.popDue (h : Mirrors o m m') (target : Nat) :
    m'.timeline.popDue target =
      (m.timeline.popDue target).map fun x => (x.1.map o.task, x.2.map o.task) := by
  rw [h.timeline, Timeline.popDue_map]

theorem Mirrors.popped (h : Mirrors o m m') {target : Nat} {e : Event (Task α)}
    {t : Timeline (Task α)} (hp : m.timeline.popDue target = some (e, t)) :
    Mirrors o (Host.setTimeline t m) (Host.setTimeline (t.map o.task) m') := by
  obtain ⟨hev, -, -, hid⟩ := Timeline.popDue_eq_some_iff.1 hp
  exact h.timeline_sublist (hev ▸ List.sublist_cons_self ..) hid

theorem Mirrors.takeStolen (h : Mirrors o m m') :
    (takeStolen m').1 = (takeStolen m).1 ∧ Mirrors o (takeStolen m).2 (takeStolen m').2 := by
  obtain ⟨last, hb⟩ := h.bus
  have hb' : m'.bus.takeCycles.1 = m.bus.takeCycles.1 ∧
      m.bus.takeCycles.2.Akin m'.bus.takeCycles.2 := by
    rw [hb]
    exact ⟨rfl, last, rfl⟩
  exact ⟨hb'.1, { h with bus := hb'.2 }⟩

end Machine

end DmaMachine
