import DmaMachine.Proofs.Engine.Passes
import DmaMachine.Proofs.Machine.Table

/-!
# The engine's own events

The machine has events on two kinds of *errand* for its engine: a service pass, and the resumption
of a channel.  It remembers the identifier of one event for every errand, and makes another only
when that one is not pending or has been dropped.

* `Remembers`: every pending event on an errand is the one that the machine remembers.
* `Remembers.single`: then no errand has two events.
* `Move.remembers`: **every move keeps the machine remembering.**
* `Passed`: what a service pass comes to, and which resumptions it plans.
* `perform_apart`: the calls that leave the engine alone.
-/

namespace DmaMachine

/-- What the engine has events for. -/
inductive Errand where
  | service
  | resume (p : Peer)
deriving DecidableEq

/-- The errand of an event's task. -/
def Task.errand? {α : Type} : Task α → Option Errand
  | .service => some .service
  | .resume p _ => some (.resume p)
  | .periodic .. | .client _ => none

namespace Machine

open Journal Timeline

variable {δ α υ β : Type} {m m' : Machine δ α υ}

/-- The identifier that the machine remembers for an errand. -/
def eventOf (m : Machine δ α υ) : Errand → Option Nat
  | .service => m.serviceEvent
  | .resume p =>
      have := p.index_lt
      m.resumeEvents[p.index]

/-- A machine at rest remembers nothing. -/
theorem eventOf_of_rest (hs : m.serviceEvent = none)
    (hr : m.resumeEvents = Vector.replicate channelCount none) (o : Errand) :
    m.eventOf o = none := by
  cases o with
  | service => exact hs
  | resume p => simp [eventOf, hr]

/-- The pending events on an errand. -/
def eventsOn (o : Errand) (m : Machine δ α υ) : List (Event (Task α)) :=
  m.timeline.events.filter (·.task.errand? = some o)

theorem mem_eventsOn {o : Errand} {e : Event (Task α)} :
    e ∈ m.eventsOn o ↔ e ∈ m.timeline.events ∧ e.task.errand? = some o := by
  simp [eventsOn]

/-- Every pending event on an errand is the one that the machine remembers, and none is remembered
that is still to come. -/
structure Remembers (m : Machine δ α υ) : Prop where
  wellFormed : m.timeline.WellFormed
  known : ∀ o, ∀ e ∈ m.eventsOn o, m.eventOf o = some e.id
  lt : ∀ o id, m.eventOf o = some id → id < m.timeline.nextId

/-- No errand has two pending events. -/
def Single (m : Machine δ α υ) : Prop := ∀ o, (m.eventsOn o).length ≤ 1

/-- **No errand has two events** that the machine remembers. -/
theorem Remembers.single (h : m.Remembers) : m.Single := by
  intro o
  have hd := (List.pairwise_map.1 h.wellFormed.distinct).filter
    fun e : Event (Task α) => decide (e.task.errand? = some o)
  have hk := h.known o
  rw [eventsOn] at hk ⊢
  generalize m.timeline.events.filter _ = es at hd hk
  match es with
  | [] | [_] => simp
  | d :: e :: es =>
      have hde : some d.id = some e.id :=
        (hk d (.head _)).symm.trans (hk e (.tail _ (.head _)))
      exact absurd (Option.some.inj hde) ((List.pairwise_cons.1 hd).1 e (.head _))

theorem eventsOn_sublist {o : Errand} (hs : m'.timeline.events.Sublist m.timeline.events) :
    (m'.eventsOn o).Sublist (m.eventsOn o) := hs.filter _

theorem Single.of_sublist (h : m.Single) (hs : m'.timeline.events.Sublist m.timeline.events) :
    m'.Single := fun o => Nat.le_trans (eventsOn_sublist hs).length_le (h o)

theorem Remembers.of_sublist (h : m.Remembers)
    (hs : m'.timeline.events.Sublist m.timeline.events)
    (hn : m.timeline.nextId ≤ m'.timeline.nextId) (ho : ∀ o, m'.eventOf o = m.eventOf o) :
    m'.Remembers where
  wellFormed := h.wellFormed.of_sublist hs hn
  known o e he := (ho o).trans (h.known o e ((eventsOn_sublist hs).subset he))
  lt o id he := Nat.lt_of_lt_of_le (h.lt o id ((ho o).symm.trans he)) hn

/-- A machine without events has nothing to remember. -/
theorem remembers_of_nil (hw : m'.timeline.WellFormed) (he : m'.timeline.events = [])
    (ho : ∀ o, m'.eventOf o = none) : m'.Remembers where
  wellFormed := hw
  known o e hm := by
    rw [mem_eventsOn, he] at hm
    exact absurd hm.1 List.not_mem_nil
  lt o id hm := by simp [ho] at hm

/-- An event is made for an errand that has none, or on none, and is the one remembered. -/
theorem Remembers.withEvent (h : m.Remembers) {name : String} {delay : Nat} {task : Task α}
    (ht : m'.timeline = m.withEvent name delay task)
    (hnone : ∀ o, task.errand? = some o →
      m.eventsOn o = [] ∧ m'.eventOf o = some m.timeline.nextId)
    (hsame : ∀ o, task.errand? ≠ some o → m'.eventOf o = m.eventOf o) : m'.Remembers where
  wellFormed := ht ▸ h.wellFormed.insert ..
  known o e he := by
    rw [mem_eventsOn, ht] at he
    obtain ⟨he, ho⟩ := he
    by_cases hto : task.errand? = some o
    · obtain ⟨hn, hev⟩ := hnone o hto
      rcases Event.mem_insert.1 he with rfl | he
      · exact hev
      · exact absurd (hn ▸ mem_eventsOn.2 ⟨he, ho⟩) List.not_mem_nil
    · rw [hsame o hto]
      rcases Event.mem_insert.1 he with rfl | he
      · exact absurd ho hto
      · exact h.known o e (mem_eventsOn.2 ⟨he, ho⟩)
  lt o id he := by
    have hn : m'.timeline.nextId = m.timeline.nextId + 1 := by rw [ht]; rfl
    by_cases hto : task.errand? = some o
    · obtain rfl := Option.some.inj ((hnone o hto).2.symm.trans he)
      omega
    · have := h.lt o id ((hsame o hto).symm.trans he)
      omega

/-! ### Operations that plan nothing -/

/-- The machine goes on remembering, and no resumption is planned. -/
structure Tidy (m m' : Machine δ α υ) : Prop where
  remembers : m.Remembers → m'.Remembers
  resumes : ∀ p, ∀ e ∈ m'.eventsOn (.resume p), e ∈ m.eventsOn (.resume p)

theorem tidy_chains : Chains (Tidy (δ := δ) (α := α) (υ := υ)) where
  refl _ := ⟨id, fun _ _ => id⟩
  trans h k :=
    ⟨fun hm => k.remembers (h.remembers hm), fun p e he => h.resumes p e (k.resumes p e he)⟩

theorem Tidy.of_sublist (hs : m'.timeline.events.Sublist m.timeline.events)
    (hn : m.timeline.nextId ≤ m'.timeline.nextId) (ho : ∀ o, m'.eventOf o = m.eventOf o) :
    Tidy m m' where
  remembers h := h.of_sublist hs hn ho
  resumes _ _ he := (eventsOn_sublist hs).subset he

/-- Only the table and what the machine remembers matter. -/
theorem Tidy.of_timeline (ht : m'.timeline = m.timeline) (ho : ∀ o, m'.eventOf o = m.eventOf o) :
    Tidy m m' :=
  .of_sublist (ht ▸ List.Sublist.refl _) (ht ▸ Nat.le_refl _) ho

theorem Tidy.of_nil (hw : m.timeline.WellFormed → m'.timeline.WellFormed)
    (he : m'.timeline.events = []) (ho : ∀ o, m'.eventOf o = none) : Tidy m m' where
  remembers h := remembers_of_nil (hw h.wellFormed) he ho
  resumes p e hm := by
    rw [mem_eventsOn, he] at hm
    exact absurd hm.1 List.not_mem_nil

/-- An event on no errand is made. -/
theorem Tidy.withEvent {name : String} {delay : Nat} {task : Task α}
    (ht : m'.timeline = m.withEvent name delay task) (hn : task.errand? = none)
    (ho : ∀ o, m'.eventOf o = m.eventOf o) : Tidy m m' where
  remembers h := h.withEvent ht (fun o hto => by simp [hn] at hto) fun o _ => ho o
  resumes p e he := by
    rw [mem_eventsOn, ht] at he
    obtain ⟨he, hp⟩ := he
    rcases Event.mem_insert.1 he with rfl | he
    · exact absurd (hn.symm.trans hp) (by simp)
    · exact mem_eventsOn.2 ⟨he, hp⟩

theorem scheduleTask_tidy (name : String) (delay : Nat) {task : Task α} (hn : task.errand? = none) :
    Op.Relates (Tidy (δ := δ) (υ := υ)) (scheduleTask name delay task) := by
  intro m
  cases hs : scheduleTask name delay task m with
  | error e m' =>
      obtain rfl := scheduleTask_eq_error hs
      exact tidy_chains.refl _
  | ok id m' =>
      obtain ⟨-, rfl⟩ := scheduleTask_eq_ok hs
      exact .withEvent rfl hn fun _ => rfl

theorem deschedule_tidy (id : Nat) (m : Machine δ α υ) : Tidy m (Host.deschedule id m).2 :=
  .of_sublist (List.eraseP_sublist ..) (Nat.le_refl _) fun _ => rfl

/-- A service event is made when the one that the machine remembers is not pending. -/
theorem requestService_tidy :
    Op.Relates (Tidy (δ := δ) (α := α) (υ := υ)) requestService := by
  intro m
  simp only [requestService]
  by_cases hp : m.servicePending = true
  · rw [if_pos hp]
    exact tidy_chains.refl m
  · rw [if_neg hp]
    cases hs : scheduleTask "DMA" 0 .service m with
    | error e m₁ =>
        obtain rfl := scheduleTask_eq_error hs
        exact tidy_chains.refl _
    | ok id m₁ =>
        obtain ⟨rfl, rfl⟩ := scheduleTask_eq_ok hs
        refine ⟨fun h => h.withEvent rfl (fun o ho => ?_) fun o ho => ?_, fun p e he => ?_⟩
        · obtain rfl : Errand.service = o := Option.some.inj ho
          refine ⟨List.eq_nil_iff_forall_not_mem.2 fun e he => hp ?_, rfl⟩
          exact servicePending_iff.2 ⟨e, (mem_eventsOn.1 he).1, h.known _ e he⟩
        · cases o with
          | service => exact absurd rfl ho
          | resume p => rfl
        · obtain ⟨he, ht⟩ := mem_eventsOn.1 he
          rcases Event.mem_insert.1 he with rfl | he
          · cases ht
          · exact mem_eventsOn.2 ⟨he, ht⟩

theorem onEngine_tidy (op : Op Engine β) :
    Op.Relates (Tidy (δ := δ) (α := α) (υ := υ)) (onEngine op) := by
  intro m
  simp only [onEngine]
  cases op m.engine <;> exact .of_timeline rfl fun _ => rfl

theorem onBus_tidy (op : Op (Bus δ) β) :
    Op.Relates (Tidy (α := α) (υ := υ)) (onBus op) := by
  intro m
  simp only [onBus]
  cases op m.bus <;> exact .of_timeline rfl fun o => by cases o <;> rfl

/-- An operation of the engine, and a request of service if it says so. -/
theorem writeRegister_tidy (offset v mask : UInt32) :
    Op.Relates (Tidy (δ := δ) (α := α) (υ := υ)) (writeRegister offset v mask) := by
  refine .bind tidy_chains (onEngine_tidy _) fun b => ?_
  cases b with
  | true => exact requestService_tidy
  | false => exact tidy_chains.refl

theorem request_tidy (p : Peer) : Op.Relates (Tidy (δ := δ) (α := α) (υ := υ)) (request p) := by
  refine .bind tidy_chains (onEngine_tidy _) fun b => ?_
  cases b with
  | true => exact .bind tidy_chains requestService_tidy fun _ => tidy_chains.refl
  | false => exact tidy_chains.refl

theorem armPeriodic_tidy (h : PeriodicHandle) (name : String) (delay period : Nat) (action : α) :
    Op.Relates (Tidy (δ := δ) (υ := υ)) (armPeriodic h name delay period action) := by
  intro m
  obtain ⟨e, he⟩ | ⟨slots, he, -⟩ := armPeriodic_cases h name delay period action m <;> rw [he]
  · exact tidy_chains.refl m
  · exact .withEvent rfl rfl fun o => by cases o <;> rfl

/-! ### Resumptions -/

theorem eventOf_setResume (p : Peer) (event : Option Nat) (o : Errand) :
    eventOf { m with resumeEvents := m.resumeEvents.set p.index event p.index_lt } o =
      if o = .resume p then event else m.eventOf o := by
  cases o with
  | service => rfl
  | resume q =>
      have hp := p.index_lt
      have hq := q.index_lt
      show (m.resumeEvents.set p.index event p.index_lt)[q.index] = _
      by_cases hqp : q = p
      · subst hqp
        simp
      · have hi : p.index ≠ q.index := fun hi => hqp (Peer.index_inj hi.symm)
        simp [hi, hqp, eventOf]

/-- An errand without events may be forgotten. -/
theorem Remembers.forget (h : m.Remembers) {o : Errand}
    (hs : m'.timeline.events.Sublist m.timeline.events)
    (hn : m.timeline.nextId ≤ m'.timeline.nextId) (hnone : m'.eventsOn o = [])
    (hev : m'.eventOf o = none) (ho : ∀ o', o' ≠ o → m'.eventOf o' = m.eventOf o') :
    m'.Remembers where
  wellFormed := h.wellFormed.of_sublist hs hn
  known o' e he := by
    by_cases heq : o' = o
    · rw [heq, hnone] at he
      exact absurd he List.not_mem_nil
    · exact (ho o' heq).trans (h.known o' e ((eventsOn_sublist hs).subset he))
  lt o' id he := by
    have hne : o' ≠ o := fun heq => by simp [heq, hev] at he
    exact Nat.lt_of_lt_of_le (h.lt o' id ((ho o' hne).symm.trans he)) hn

/-- When an event on an errand is taken out to be fired, no other one is left. -/
theorem Remembers.popped (h : m.Remembers) {target : Nat} {e : Event (Task α)}
    {t : Timeline (Task α)} {o : Errand} (hp : m.timeline.popDue target = some (e, t))
    (ho : e.task.errand? = some o) : (Host.setTimeline t m : Machine δ α υ).eventsOn o = [] := by
  have hev : m.eventsOn o = e :: (Host.setTimeline t m : Machine δ α υ).eventsOn o := by
    rw [eventsOn, (popDue_eq_some_iff.1 hp).1]
    exact List.filter_cons_of_pos (by simp [ho])
  have hl := h.single o
  rw [hev, List.length_cons] at hl
  exact List.length_eq_zero_iff.1 (by omega)

/-- The resume event of a channel is dropped. -/
theorem Remembers.dropResume (h : m.Remembers) (p : Peer) :
    (m.dropResume p).Remembers ∧ (m.dropResume p).eventsOn (.resume p) = [] := by
  have hp := p.index_lt
  have dropped : ∀ m₁ : Machine δ α υ, m₁.timeline.events.Sublist m.timeline.events →
      m.timeline.nextId ≤ m₁.timeline.nextId → m₁.eventsOn (.resume p) = [] →
      (∀ o, m₁.eventOf o = m.eventOf o) → Remembers
        { m₁ with resumeEvents := m₁.resumeEvents.set p.index none p.index_lt } :=
    fun m₁ hs hn hnone ho => h.forget (o := .resume p) hs hn hnone
      ((eventOf_setResume ..).trans (if_pos rfl)) fun o' hne => by
        rw [eventOf_setResume, if_neg hne, ho]
  rw [Machine.dropResume]
  cases hr : m.resumeEvents[p.index] with
  | none =>
      have hnone : m.eventsOn (.resume p) = [] :=
        List.eq_nil_iff_forall_not_mem.2 fun e he =>
          absurd (hr.symm.trans (h.known _ e he)) (by simp)
      exact ⟨dropped m (List.Sublist.refl _) (Nat.le_refl _) hnone fun _ => rfl, hnone⟩
  | some stale =>
      have hnone : (Host.deschedule stale m).2.eventsOn (.resume p) = [] := by
        refine List.eq_nil_iff_forall_not_mem.2 fun e he => ?_
        obtain ⟨he, ho⟩ := mem_eventsOn.1 he
        rw [(deschedule_descheduled h.wellFormed stale).2] at he
        obtain ⟨he, hne⟩ := List.mem_filter.1 he
        have hid := hr.symm.trans (h.known _ e (mem_eventsOn.2 ⟨he, ho⟩))
        exact of_decide_eq_true hne (Option.some.inj hid).symm
      exact ⟨dropped _ (List.eraseP_sublist ..) (Nat.le_refl _) hnone fun _ => rfl, hnone⟩

/-- What the bookkeeping of a pass with these outcomes comes to. -/
structure Planned (outcomes : List (Peer × Status)) (m m' : Machine δ α υ) : Prop where
  engine : m'.engine = m.engine
  now : m'.timeline.now = m.timeline.now
  remembers : m.Remembers → m'.Remembers
  resumes : ∀ p, ∀ e ∈ m'.eventsOn (.resume p), e ∈ m.eventsOn (.resume p) ∨
    ∃ c, (p, .chopped c) ∈ outcomes ∧ e.task = .resume p (m.engine.channel p).generation ∧
      e.triggerAt = wrap (m.timeline.now + c)

variable {outcomes : List (Peer × Status)}

theorem planned_chains : Chains (Planned (δ := δ) (α := α) (υ := υ) outcomes) where
  refl _ := ⟨rfl, rfl, id, fun _ _ => .inl⟩
  trans h k := {
    engine := k.engine.trans h.engine
    now := k.now.trans h.now
    remembers := fun hm => k.remembers (h.remembers hm)
    resumes := fun p e he => by
      rcases k.resumes p e he with he | ⟨c, hc, ht, hd⟩
      · exact h.resumes p e he
      · exact .inr ⟨c, hc, h.engine ▸ ht, h.now ▸ hd⟩ }

theorem Planned.of_tidy (ht : Tidy m m') (he : m'.engine = m.engine)
    (hn : m'.timeline.now = m.timeline.now) : Planned outcomes m m' :=
  ⟨he, hn, ht.remembers, fun p e he => .inl (ht.resumes p e he)⟩

theorem scheduleResume_planned {p : Peer} {delay : Nat} (hc : (p, .chopped delay) ∈ outcomes) :
    Op.Relates (Planned (δ := δ) (α := α) (υ := υ) outcomes) (scheduleResume p delay) := by
  intro m
  have hd : (m.dropResume p).engine = m.engine ∧
      (m.dropResume p).timeline.now = m.timeline.now ∧
      (m.dropResume p).timeline.events.Sublist m.timeline.events := by
    have := p.index_lt
    rw [dropResume]
    cases m.resumeEvents[p.index] with
    | none => exact ⟨rfl, rfl, List.Sublist.refl _⟩
    | some stale => exact ⟨rfl, rfl, List.eraseP_sublist ..⟩
  obtain ⟨he, hn, hs⟩ := hd
  have hold : ∀ q, ∀ e ∈ (m.dropResume p).eventsOn (.resume q), e ∈ m.eventsOn (.resume q) :=
    fun q e hm => (eventsOn_sublist hs).subset hm
  simp only [scheduleResume]
  cases hk : scheduleTask "DMA resume" delay
      (.resume p ((m.dropResume p).engine.channel p).generation) (m.dropResume p) with
  | error e m₁ =>
      obtain rfl := scheduleTask_eq_error hk
      exact ⟨he, hn, fun h => (h.dropResume p).1, fun q e hm => .inl (hold q e hm)⟩
  | ok id m₁ =>
      obtain ⟨rfl, rfl⟩ := scheduleTask_eq_ok hk
      refine ⟨he, hn, fun h => ?_, fun q e hm => ?_⟩
      · obtain ⟨hr, hnone⟩ := h.dropResume p
        refine hr.withEvent rfl (fun o ho => ?_) fun o ho => ?_
        · obtain rfl : Errand.resume p = o := Option.some.inj ho
          exact ⟨hnone, (eventOf_setResume ..).trans (if_pos rfl)⟩
        · refine (eventOf_setResume ..).trans (if_neg ?_)
          rintro rfl
          exact ho rfl
      · obtain ⟨hm, ht⟩ := mem_eventsOn.1 hm
        rcases Event.mem_insert.1 hm with rfl | hm
        · obtain rfl : p = q := Errand.resume.inj (Option.some.inj ht)
          exact .inr ⟨delay, hc, he ▸ rfl, hn ▸ rfl⟩
        · exact .inl (hold q e (mem_eventsOn.2 ⟨hm, ht⟩))

theorem noteOutcomes_planned : ∀ {ps : List (Peer × Status)}, (∀ x ∈ ps, x ∈ outcomes) →
    Op.Relates (Planned (δ := δ) (α := α) (υ := υ) outcomes) (noteOutcomes ps)
  | [], _ => planned_chains.refl
  | (p, status) :: rest, h => by
      refine .bind planned_chains (fun m => ?_) fun _ =>
        noteOutcomes_planned fun x hx => h x (.tail _ hx)
      have counted : ∀ stats, Planned outcomes m { m with stats } := fun stats =>
        .of_tidy (.of_timeline rfl fun o => by cases o <;> rfl) rfl rfl
      cases status with
      | idle => exact planned_chains.refl m
      | completed | blockDone | faulted => exact counted _
      | chopped resumeIn =>
          exact planned_chains.trans
            (counted { m.stats with choppedWindows := m.stats.choppedWindows + 1 })
            (scheduleResume_planned (h _ (.head _)) _)

/-! ### The engine -/

theorem requestService_engine (m : Machine δ α υ) :
    (Op.outcome (requestService m)).2.engine = m.engine := by
  simp only [requestService]
  split
  · rfl
  · split <;> rename_i hs
    · obtain ⟨-, rfl⟩ := scheduleTask_eq_ok hs
      rfl
    · obtain rfl := scheduleTask_eq_error hs
      rfl

/-- What comes after an operation of the engine leaves the engine as that operation did. -/
theorem engine_onEngine {γ : Type} {op : Op Engine β} {f : β → Op (Machine δ α υ) γ}
    (hf : ∀ b m, (Op.outcome (f b m)).2.engine = m.engine) (m : Machine δ α υ) :
    (Op.outcome ((onEngine op >>= f) m)).2.engine = (Op.outcome (op m.engine)).2 := by
  refine Op.relates_of_bind (R := fun m m' => m'.engine = (Op.outcome (op m.engine)).2)
    (S := fun m m' : Machine δ α υ => m'.engine = m.engine) (fun h k => k.trans h) ?_ hf
  simp only [onEngine]
  cases op m.engine <;> rfl

theorem writeRegister_engine (offset v mask : UInt32) (m : Machine δ α υ) :
    (Op.outcome (writeRegister offset v mask m)).2.engine =
      (Op.outcome (Engine.write offset v mask m.engine)).2 := by
  refine engine_onEngine (fun b m => ?_) m
  cases b with
  | true => exact requestService_engine m
  | false => rfl

theorem request_engine (p : Peer) (m : Machine δ α υ) :
    (Op.outcome (request p m)).2.engine = (Op.outcome (Engine.request p m.engine)).2 := by
  refine engine_onEngine (fun b m => ?_) m
  cases b with
  | true =>
      exact Op.relates_of_bind (R := fun m m' : Machine δ α υ => m'.engine = m.engine)
        (S := fun m m' => m'.engine = m.engine) (fun h k => k.trans h) (requestService_engine m)
        fun _ _ => rfl
  | false => rfl

theorem resumeChannel_engine (p : Peer) (generation : UInt32) (m : Machine δ α υ) :
    (Op.outcome (resumeChannel p generation m)).2.engine =
      (Op.outcome (Engine.resume p generation m.engine)).2 := by
  refine engine_onEngine (fun b m => ?_)
    { m with resumeEvents := m.resumeEvents.set p.index none p.index_lt }
  cases b with
  | true => exact requestService_engine m
  | false => rfl

/-- A resumption fires, and the machine forgets its event. -/
theorem resumeChannel_tidy (p : Peer) (generation : UInt32) (m : Machine δ α υ)
    (hnone : m.Remembers → m.eventsOn (.resume p) = []) :
    Tidy m (Op.outcome (resumeChannel p generation m)).2 := by
  have hforget : Tidy m { m with
      resumeEvents := m.resumeEvents.set p.index none p.index_lt } := by
    refine ⟨fun h => h.forget (o := .resume p) (List.Sublist.refl _) (Nat.le_refl _) (hnone h)
      ((eventOf_setResume ..).trans (if_pos rfl)) fun o ho => ?_, fun _ _ => id⟩
    rw [eventOf_setResume, if_neg ho]
  refine tidy_chains.trans hforget (Op.Relates.bind tidy_chains (onEngine_tidy _) (fun b => ?_) _)
  cases b with
  | true => exact requestService_tidy
  | false => exact tidy_chains.refl

section Board

variable [Board δ] {handler : Handler δ α υ} {bound : Nat}

theorem writeMasked_tidy (a v mask : UInt32) :
    Op.Relates (Tidy (δ := δ) (α := α) (υ := υ)) (writeMasked a v mask) :=
  writeMasked_relates tidy_chains (fun _ _ => onBus_tidy _) (fun _ _ _ => onBus_tidy _)
    writeRegister_tidy a v mask

theorem write_tidy (w : Width) (a v : UInt32) :
    Op.Relates (Tidy (δ := δ) (α := α) (υ := υ)) (write w a v) :=
  write_relates tidy_chains (fun _ _ => onBus_tidy _) (fun _ _ _ => onBus_tidy _)
    writeRegister_tidy w a v

/-- The calls that have nothing to do with the engine. -/
def Call.Apart : Call δ α υ → Prop
  | .read .. | .bus _ | .schedule .. | .deschedule _ | .schedulePeriodic .. | .cancelPeriodic _
  | .capture .. | .observe _ => True
  | _ => False

/-- **They leave the engine alone**, and what the machine has counted. -/
theorem perform_apart {c : Call δ α υ} {r : Except Fault c.Answer} (hc : c.Apart)
    (hp : perform handler bound c m = some (r, m')) :
    m'.engine = m.engine ∧ m'.stats = m.stats := by
  have hR : Chains fun m m' : Machine δ α υ => m'.engine = m.engine ∧ m'.stats = m.stats :=
    ⟨fun _ => ⟨rfl, rfl⟩, fun h k => ⟨k.1.trans h.1, k.2.trans h.2⟩⟩
  have onBus : ∀ {β : Type} (op : Op (Bus δ) β), Op.Relates (fun m m' : Machine δ α υ =>
      m'.engine = m.engine ∧ m'.stats = m.stats) (onBus op) := fun op m => by
    simp only [Machine.onBus]
    cases op m.bus <;> exact ⟨rfl, rfl⟩
  cases c with
  | read w a =>
      simp only [perform] at hp
      exact (read_relates hR (fun _ _ => onBus _) w a).of_outcome (Option.some.inj hp)
  | bus c =>
      simp only [perform] at hp
      exact (onBus _).of_outcome (Option.some.inj hp)
  | schedule name delay action =>
      simp only [perform] at hp
      cases hs : scheduleTask name delay (.client action) m with
      | error e m₁ =>
          obtain rfl := scheduleTask_eq_error hs
          rw [Op.toRun_apply, hs] at hp
          cases hp
          exact ⟨rfl, rfl⟩
      | ok id m₁ =>
          rw [Op.toRun_apply, hs] at hp
          cases hp
          obtain ⟨-, rfl⟩ := scheduleTask_eq_ok hs
          exact ⟨rfl, rfl⟩
  | schedulePeriodic name period action =>
      simp only [perform] at hp
      obtain ⟨-, e, he⟩ | ⟨-, slots, ⟨⟨e, he⟩, -⟩ | ⟨he, -⟩⟩ :=
        schedulePeriodic_cases name period action m <;> rw [Op.toRun_apply, he] at hp <;>
        cases hp <;> exact ⟨rfl, rfl⟩
  | cancelPeriodic h =>
      simp only [perform] at hp
      obtain ⟨-, he⟩ | ⟨id, slots, -, he, -⟩ := cancelPeriodic_cases h m <;> rw [he] at hp <;>
        cases hp <;> exact ⟨rfl, rfl⟩
  | deschedule | capture | observe =>
      simp only [perform] at hp
      cases hp
      exact ⟨rfl, rfl⟩
  | write | writeMasked | request | takeEdge | reset | restore | run | runToNext => exact hc.elim

/-- **A call that fires nothing plans no resumption.** -/
theorem perform_tidy {c : Call δ α υ} {r : Except Fault c.Answer} (hc : ¬c.Fires)
    (hp : perform handler bound c m = some (r, m')) : Tidy m m' := by
  have op : ∀ {β : Type} {x : Op (Machine δ α υ) β} {r : Except Fault β}, Op.Relates Tidy x →
      x.toRun m = some (r, m') → Tidy m m' := fun hx h => hx.of_outcome (Option.some.inj h)
  cases c with
  | read w a =>
      simp only [perform] at hp
      exact op (read_relates tidy_chains (fun _ _ => onBus_tidy _) w a) hp
  | write w a v =>
      simp only [perform] at hp
      exact op (write_tidy w a v) hp
  | writeMasked a v mask =>
      simp only [perform] at hp
      exact op (writeMasked_tidy a v mask) hp
  | request p =>
      simp only [perform] at hp
      exact op (request_tidy p) hp
  | takeEdge =>
      simp only [perform] at hp
      exact op (onEngine_tidy _) hp
  | schedule name delay action =>
      simp only [perform] at hp
      exact op (scheduleTask_tidy name delay rfl) hp
  | bus c =>
      simp only [perform] at hp
      exact op (onBus_tidy _) hp
  | deschedule id =>
      simp only [perform] at hp
      cases hp
      exact deschedule_tidy id m
  | schedulePeriodic name period action =>
      simp only [perform] at hp
      obtain ⟨-, e, he⟩ | ⟨-, slots, ⟨⟨e, he⟩, -⟩ | ⟨he, -⟩⟩ :=
        schedulePeriodic_cases name period action m <;> rw [Op.toRun_apply, he] at hp <;> cases hp
      · exact tidy_chains.refl m
      · exact .of_timeline rfl fun o => by cases o <;> rfl
      · exact .withEvent rfl rfl fun o => by cases o <;> rfl
  | cancelPeriodic h =>
      simp only [perform] at hp
      obtain ⟨-, he⟩ | ⟨id, slots, -, he, -⟩ := cancelPeriodic_cases h m <;> rw [he] at hp <;>
        cases hp
      · exact tidy_chains.refl m
      · exact .of_sublist (List.eraseP_sublist ..) (Nat.le_refl _) fun o => by cases o <;> rfl
  | capture | observe =>
      simp only [perform] at hp
      cases hp
      exact .of_timeline rfl fun o => by cases o <;> rfl
  | reset =>
      simp only [perform] at hp
      cases hp
      exact .of_nil (fun hw => hw.of_sublist (List.nil_sublist _) (Nat.le_refl _)) rfl
        (eventOf_of_rest rfl rfl)
  | restore s =>
      simp only [perform] at hp
      cases hf : misfit? s with
      | some fault =>
          rw [Op.toRun_apply, restore_of_misfit hf m] at hp
          cases hp
          exact tidy_chains.refl m
      | none =>
          obtain ⟨ram, -, hr⟩ := restore_of_fit hf m
          rw [Op.toRun_apply, hr] at hp
          cases hp
          exact .of_nil (fun hw => hw.of_sublist (List.nil_sublist _) (Nat.le_max_left ..)) rfl
            (eventOf_of_rest rfl rfl)
  | run | runToNext => exact absurd trivial hc

/-! ### Service passes -/

/-- What a service pass comes to. -/
structure Passed (m m' : Machine δ α υ) : Prop where
  engine : m'.engine = (Op.outcome (Engine.service (m.engine, m.bus))).2.1
  now : m'.timeline.now = m.timeline.now
  remembers : m.Remembers → m.eventsOn .service = [] → m'.Remembers
  /-- A resumption is planned for a channel whose window ended. -/
  resumes : ∀ p, ∀ e ∈ m'.eventsOn (.resume p), e ∈ m.eventsOn (.resume p) ∨
    ∃ c, Engine.outcome? p (m.engine, m.bus) = some (.ok (.chopped c)) ∧
      e.task = .resume p (m'.engine.channel p).generation ∧ e.triggerAt = wrap (m.timeline.now + c)

/-- **A service pass** plans a resumption for every channel whose window ended, at most. -/
theorem serviceChannels_passed (m : Machine δ α υ) :
    Passed m (Op.outcome (serviceChannels m)).2 := by
  have hs : m.Remembers → m.eventsOn .service = [] → m.served.Remembers := fun h hnone =>
    h.forget (o := .service) (List.Sublist.refl _) (Nat.le_refl _) hnone rfl fun o ho => by
      cases o with
      | service => exact absurd rfl ho
      | resume p => rfl
  obtain ⟨timeline, bus, engine, service, resumes, slots, stats, memory⟩ := m
  simp only [serviceChannels, served] at hs ⊢
  cases he : Engine.service (engine, bus) with
  | error e s =>
      rw [he] at hs
      exact ⟨by rw [he]; rfl, rfl, hs, fun _ _ => .inl⟩
  | ok outcomes s =>
      rw [he] at hs
      have hn := noteOutcomes_planned (fun x (hx : x ∈ outcomes) => hx)
        ⟨timeline, s.2, s.1, none, resumes, slots, stats, memory⟩
      have passed : ∀ m' : Machine δ α υ,
          Planned outcomes ⟨timeline, s.2, s.1, none, resumes, slots, stats, memory⟩ m' →
          Passed ⟨timeline, bus, engine, service, resumes, slots, stats, memory⟩ m' := fun m' h => {
        engine := h.engine.trans (by rw [he]; rfl)
        now := h.now
        remembers := fun hm hnone => h.remembers (hs hm hnone)
        resumes := fun p e hm => (h.resumes p e hm).imp_right fun hc => by
          obtain ⟨c, hc, ht, hd⟩ := hc
          exact ⟨c, (Engine.mem_outcomes_iff he).1 hc, h.engine ▸ ht, hd⟩ }
      dsimp only
      split <;> rename_i ho <;> rw [ho] at hn
      · exact passed _ hn
      · refine passed _ (planned_chains.trans hn (.of_tidy ?_ ?_ ?_)) <;> rw [noteRise] <;> split
        all_goals first | rfl | exact .of_timeline rfl fun o => by cases o <;> rfl

/-! ### Moves -/

/-- The item is no call that fires nothing, and no event on an errand. -/
def Item.Idle : Item δ α υ → Prop
  | .began c _ | .ended c _ _ => c.Fires
  | .fired e _ _ => e.task.errand? = none
  | .invoked .. => True

omit [Board δ] in
theorem Item.Idle.clears {i : Item δ α υ} (h : i.Idle) : i.clears = false := by
  cases i with
  | ended c r => cases c <;> first | exact absurd h id | rfl
  | began | fired | invoked => rfl

/-- What a move is to the engine. -/
inductive Effect (handler : Handler δ α υ) (ls : List (Level δ α υ)) (m : Machine δ α υ) :
    Journal δ α υ → Machine δ α υ → Prop where
  | call {bound : Nat} {c : Call δ α υ} {r : Except Fault c.Answer} {m' : Machine δ α υ}
      (hc : ¬c.Fires) (hp : perform handler bound c m = some (r, m')) :
      Effect handler ls m [.began c m, .ended c r m'] m'
  | pass {l : Level δ α υ} {e : Event (Task α)} {t : Timeline (Task α)} {m' : Machine δ α υ}
      (hl : l ∈ ls) (hp : m.timeline.popDue l.target = some (e, t)) (he : e.task = .service)
      (ho : Passed (Host.setTimeline t m) m') :
      Effect handler ls m [.fired e (l.target - e.triggerAt) (Host.setTimeline t m)] m'
  | resume {l : Level δ α υ} {e : Event (Task α)} {t : Timeline (Task α)} {p : Peer}
      {generation : UInt32} {m' : Machine δ α υ} (hl : l ∈ ls)
      (hp : m.timeline.popDue l.target = some (e, t)) (he : e.task = .resume p generation)
      (ht : Tidy m m') (hn : m'.timeline.now = m.timeline.now)
      (ho : m'.engine = (Op.outcome (Engine.resume p generation m.engine)).2) :
      Effect handler ls m [.fired e (l.target - e.triggerAt) (Host.setTimeline t m)] m'
  | none {j : Journal δ α υ} {m' : Machine δ α υ} (hj : ∀ i ∈ j, i.Idle) (ht : Tidy m m')
      (he : m'.engine = m.engine) : Effect handler ls m j m'

variable {ls ls' : List (Level δ α υ)} {j : Journal δ α υ}

omit [Board δ] in
/-- An event is taken out. -/
theorem popped_tidy {target : Nat} {e : Event (Task α)} {t : Timeline (Task α)}
    (hp : m.timeline.popDue target = some (e, t)) : Tidy m (Host.setTimeline t m) := by
  obtain ⟨hev, -, -, hid⟩ := popDue_eq_some_iff.1 hp
  exact .of_sublist (hev ▸ List.sublist_cons_self ..) (Nat.le_of_eq hid.symm) fun o => by
    cases o <;> rfl

/-- **What every move is to the engine.** -/
theorem Move.effect (h : m.Remembers) (hm : Move handler ls m j ls' m') :
    Effect handler ls m j m' := by
  have now : ∀ {target : Nat} {e : Event (Task α)} {t : Timeline (Task α)},
      m.timeline.popDue target = some (e, t) →
        (Host.setTimeline t m : Machine δ α υ).timeline.now = m.timeline.now := fun hp =>
    (popDue_eq_some_iff.1 hp).2.2.1
  cases hm with
  | call hc hp => exact .call hc hp
  | @service _ _ _ _ _ _ t _ hp he ho =>
      have hs := serviceChannels_passed (Host.setTimeline t m : Machine δ α υ)
      rw [ho] at hs
      exact .pass (.head _) hp he hs
  | @resume ls _ _ c target e t p generation r hp he ho =>
      have hnone : (Host.setTimeline t m : Machine δ α υ).eventsOn (.resume p) = [] :=
        h.popped hp (by rw [he]; rfl)
      have ht := resumeChannel_tidy p generation (Host.setTimeline t m) fun _ => hnone
      have heng := resumeChannel_engine p generation (Host.setTimeline t m)
      rw [ho] at ht heng
      exact .resume (.head _) hp he (tidy_chains.trans (popped_tidy hp) ht)
        ((resumeChannel_beside p generation).of_outcome ho |>.now.trans (now hp)) heng
  | client hp he | periodic hp he =>
      refine .none ?_ (popped_tidy hp) rfl
      simp [Item.Idle, he, Task.errand?]
  | began hc =>
      exact .none (by simpa [Item.Idle] using hc)
        (.of_sublist (List.Sublist.refl _) (Nat.le_refl _) fun o => by cases o <;> rfl) rfl
  | drained _ ht =>
      obtain rfl := (Prod.mk.inj ht).2
      exact .none (List.forall_mem_nil _)
        (.of_sublist (List.Sublist.refl _) (Nat.le_refl _) fun o => by cases o <;> rfl) rfl
  | rearm _ ho =>
      refine .none (List.forall_mem_nil _)
        (Op.Relates.of_outcome (armPeriodic_tidy _ _ _ _ _) ho) ?_
      obtain ⟨e, he⟩ | ⟨slots, he, -⟩ := armPeriodic_cases .. <;> rw [he] at ho <;> cases ho <;> rfl
  | idle | next | lapsed | failed =>
      exact .none (by simp [Item.Idle, Call.Fires]) (tidy_chains.refl m) rfl
  | ended hc | aborted hc =>
      exact .none (by simpa [Item.Idle] using hc) (tidy_chains.refl m) rfl

theorem Effect.remembers (h : m.Remembers) (he : Effect handler ls m j m') : m'.Remembers := by
  cases he with
  | call hc hp => exact (perform_tidy hc hp).remembers h
  | pass _ hp he ho =>
      exact ho.remembers ((popped_tidy hp).remembers h) (h.popped hp (by rw [he]; rfl))
  | resume _ _ _ ht | none _ ht => exact ht.remembers h

/-- **Every move keeps the machine remembering.** -/
theorem Move.remembers (h : m.Remembers) (hm : Move handler ls m j ls' m') : m'.Remembers :=
  (hm.effect h).remembers h

omit [Board δ] in
theorem initial_remembers (board : δ) (memory : υ) :
    (initial board memory : Machine δ α υ).Remembers :=
  remembers_of_nil (initial_coherent board memory).wellFormed rfl (eventOf_of_rest rfl rfl)

end Board

end Machine

end DmaMachine
