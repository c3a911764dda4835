import DmaMachine.Proofs.Machine.Clock
import DmaMachine.Proofs.Machine.Force
import DmaMachine.Proofs.Timeline.Exact

/-!
# What happens to the table of events

Whatever the machine does, to its timeline it does one of four things (`Timeline.Turn`): it makes
events and drops some while the clock stands, it does so after it has taken out the first event to
fire it, it moves the clock, or it throws all events away and sets the clock.

* `Turn.wellFormed`, `Turn.room`, `Turn.triggersFit`, `Turn.mem`: what becomes of the table then.
* `perform_changing`: a call that leaves the clock alone makes and drops events.
* `Move.turn`: **every move does one of the four things.**
-/

namespace DmaMachine

namespace Timeline

variable {τ : Type} {t t' : Timeline τ}

/-- One thing that happens to a timeline. -/
inductive Turn : Timeline τ → Timeline τ → Prop where
  | changed {t t' : Timeline τ} {h : List (Entry τ)} (hc : Changes t h t') : Turn t t'
  | fired {t u t' : Timeline τ} {target : Nat} {e : Event τ} {h : List (Entry τ)}
      (hp : t.popDue target = some (e, u)) (hc : Changes u h t') : Turn t t'
  | moved (t : Timeline τ) (now : Nat) : Turn t { t with now }
  | cleared {t t' : Timeline τ} (he : t'.events = []) (hn : t.nextId ≤ t'.nextId) : Turn t t'

theorem schedule_room {name : String} {delay id : Nat} {task : τ}
    (h : t.schedule name delay task = .ok id t') : t.events.length < capacity := by
  by_contra hr
  rw [schedule_of_full (Nat.le_of_not_lt hr)] at h
  cases h

/-- What is made finds room. -/
theorem Changes.room {h : List (Entry τ)} (hc : Changes t h t')
    (hr : t.events.length ≤ capacity) : t'.events.length ≤ capacity := by
  induction hc with
  | none => exact hr
  | made name delay task hs _ ih =>
      have hlt := schedule_room hs
      obtain ⟨-, rfl⟩ := schedule_eq_ok hs
      exact ih (by simpa using Nat.succ_le_of_lt hlt)
  | @dropped t t' e h he _ ih =>
      exact ih (Nat.le_trans (List.eraseP_sublist ..).length_le hr)

/-- 64 bits hold every trigger of the table. -/
def TriggersFit (t : Timeline τ) : Prop := ∀ e ∈ t.events, e.triggerAt < UInt64.size

/-- What is made has a trigger that fits. -/
theorem Changes.triggersFit {h : List (Entry τ)} (hc : Changes t h t') (ht : t.TriggersFit) :
    t'.TriggersFit := by
  induction hc with
  | none => exact ht
  | made name delay task hs _ ih =>
      obtain ⟨-, rfl⟩ := schedule_eq_ok hs
      refine ih fun e he => ?_
      rcases Event.mem_insert.1 he with rfl | he
      · exact wrap_lt _
      · exact ht e he
  | dropped he _ ih => exact ih fun e he => ht e ((List.eraseP_sublist ..).subset he)

/-- What is pending afterwards had been pending, or was made meanwhile with a new identifier. -/
theorem Changes.mem {h : List (Entry τ)} (hc : Changes t h t') (hw : t.WellFormed) {e : Event τ}
    (he : e ∈ t'.events) : e ∈ t.events ∨ t.nextId ≤ e.id ∧ e.registeredAt = t.now :=
  (hc.mem_of_pending hw he).imp_right fun hm =>
    ⟨((hc.keeps hw).2.2.2.bounds e hm).1, ((hc.keeps hw).2.2.2.bounds e hm).2.2⟩

theorem popDue_sublist {target : Nat} {e : Event τ} (hp : t.popDue target = some (e, t')) :
    t'.events.Sublist t.events :=
  (popDue_eq_some_iff.1 hp).1 ▸ List.sublist_cons_self ..

/-- **A table stays well-formed.** -/
theorem Turn.wellFormed (h : Turn t t') (hw : t.WellFormed) : t'.WellFormed := by
  cases h with
  | changed hc => exact (hc.keeps hw).1
  | fired hp hc => exact (hc.keeps (hw.popDue hp).1).1
  | moved => exact hw.of_sublist (List.Sublist.refl _) (Nat.le_refl _)
  | cleared he hn => exact hw.of_sublist (he ▸ List.nil_sublist _) hn

/-- Never more events are pending than there is room for. -/
theorem Turn.room (h : Turn t t') (hr : t.events.length ≤ capacity) :
    t'.events.length ≤ capacity := by
  cases h with
  | changed hc => exact hc.room hr
  | fired hp hc => exact hc.room (Nat.le_trans (popDue_sublist hp).length_le hr)
  | moved => exact hr
  | cleared he => simp [he]

/-- 64 bits still hold every trigger. -/
theorem Turn.triggersFit (h : Turn t t') (ht : t.TriggersFit) : t'.TriggersFit := by
  cases h with
  | changed hc => exact hc.triggersFit ht
  | fired hp hc => exact hc.triggersFit fun e he => ht e ((popDue_sublist hp).subset he)
  | moved => exact ht
  | cleared he => exact fun e hm => absurd (he ▸ hm) List.not_mem_nil

/-- No identifier is taken back. -/
theorem Turn.nextId_le (h : Turn t t') (hw : t.WellFormed) : t.nextId ≤ t'.nextId := by
  cases h with
  | changed hc => exact (hc.keeps hw).2.2.1
  | fired hp hc => exact (hw.popDue hp).2.2 ▸ (hc.keeps (hw.popDue hp).1).2.2.1
  | moved => exact Nat.le_refl _
  | cleared _ hn => exact hn

/-- What is pending afterwards had been pending, or has a new identifier. -/
theorem Turn.mem (h : Turn t t') (hw : t.WellFormed) {e : Event τ} (he : e ∈ t'.events) :
    e ∈ t.events ∨ t.nextId ≤ e.id := by
  cases h with
  | changed hc => exact (hc.mem hw he).imp_right And.left
  | fired hp hc =>
      obtain ⟨hu, -, hid⟩ := hw.popDue hp
      exact (hc.mem hu he).imp (fun he => (popDue_sublist hp).subset he) fun hn => hid ▸ hn.1
  | moved => exact .inl he
  | cleared hn =>
      rw [hn] at he
      cases he

end Timeline

namespace Machine

open Timeline

variable {δ α υ β : Type} {m m' : Machine δ α υ}

/-- Events were made and dropped while the clock stood and nothing fired. -/
def Changing (m m' : Machine δ α υ) : Prop := ∃ h, Changes m.timeline h m'.timeline

theorem Changing.of_timeline (h : m'.timeline = m.timeline) : Changing m m' :=
  ⟨[], h ▸ .none _⟩

theorem changing_chains : Chains (Changing (δ := δ) (α := α) (υ := υ)) where
  refl _ := .of_timeline rfl
  trans := fun ⟨_, h⟩ ⟨_, k⟩ => ⟨_, h.trans k⟩

/-! ### Operations -/

theorem scheduleTask_changing (name : String) (delay : Nat) (task : Task α) :
    Op.Relates (Changing (δ := δ) (υ := υ)) (scheduleTask name delay task) := by
  intro m
  have h := exists_changes_schedule m.timeline name delay task
  rw [scheduleTask, Host.outcome_onTimeline]
  exact h

theorem deschedule_changing (id : Nat) (m : Machine δ α υ) :
    Changing m (Host.deschedule id m).2 := exists_changes_deschedule m.timeline id

theorem requestService_changing :
    Op.Relates (Changing (δ := δ) (α := α) (υ := υ)) requestService := by
  intro m
  have h := scheduleTask_changing "DMA" 0 .service m
  simp only [requestService]
  split
  · exact changing_chains.refl m
  · split <;> rename_i hs <;> rw [hs] at h <;> exact h

theorem scheduleResume_changing (p : Peer) (delay : Nat) :
    Op.Relates (Changing (δ := δ) (α := α) (υ := υ)) (scheduleResume p delay) := by
  intro m
  have hd : Changing m (m.dropResume p) := by
    have hp := p.index_lt
    rw [dropResume]
    cases m.resumeEvents[p.index] with
    | none => exact .of_timeline rfl
    | some stale => exact deschedule_changing stale m
  have h := scheduleTask_changing "DMA resume" delay
    (.resume p ((m.dropResume p).engine.channel p).generation) (m.dropResume p)
  simp only [scheduleResume]
  split <;> rename_i hs <;> rw [hs] at h <;> exact changing_chains.trans hd h

theorem noteOutcomes_changing : ∀ outcomes : List (Peer × Status),
    Op.Relates (Changing (δ := δ) (α := α) (υ := υ)) (noteOutcomes outcomes)
  | [] => changing_chains.refl
  | (p, status) :: rest => by
      refine .bind changing_chains (fun m => ?_) fun _ => noteOutcomes_changing rest
      cases status with
      | chopped resumeIn =>
          exact scheduleResume_changing p resumeIn { m with
            stats := { m.stats with choppedWindows := m.stats.choppedWindows + 1 } }
      | idle | completed | blockDone | faulted => exact .of_timeline rfl

theorem serviceChannels_changing [Board δ] :
    Op.Relates (Changing (δ := δ) (α := α) (υ := υ)) serviceChannels := by
  rintro ⟨timeline, bus, engine, service, resumes, slots, stats, memory⟩
  simp only [serviceChannels]
  cases Engine.service (engine, bus) with
  | error e s => exact .of_timeline rfl
  | ok outcomes s =>
      have hn := noteOutcomes_changing outcomes
        ⟨timeline, s.2, s.1, none, resumes, slots, stats, memory⟩
      dsimp only
      split <;> rename_i he <;> rw [he] at hn
      · exact hn
      · refine changing_chains.trans hn (.of_timeline ?_)
        rw [noteRise]
        split <;> rfl

/-- An operation of the engine, and a request of service if it says so. -/
theorem onEngine_changing (op : Op Engine β) :
    Op.Relates (Changing (δ := δ) (α := α) (υ := υ)) (onEngine op) := by
  intro m
  simp only [onEngine]
  cases op m.engine <;> exact .of_timeline rfl

theorem resumeChannel_changing (p : Peer) (generation : UInt32) :
    Op.Relates (Changing (δ := δ) (α := α) (υ := υ)) (resumeChannel p generation) := by
  refine .bind changing_chains (fun _ => .of_timeline rfl) fun _ =>
    .bind changing_chains (onEngine_changing _) fun b => ?_
  cases b with
  | true => exact requestService_changing
  | false => exact changing_chains.refl

theorem request_changing (p : Peer) :
    Op.Relates (Changing (δ := δ) (α := α) (υ := υ)) (request p) := by
  refine .bind changing_chains (onEngine_changing _) fun b => ?_
  cases b with
  | true => exact .bind changing_chains requestService_changing fun _ => changing_chains.refl
  | false => exact changing_chains.refl

theorem armPeriodic_changing (h : PeriodicHandle) (name : String) (delay period : Nat)
    (action : α) :
    Op.Relates (Changing (δ := δ) (υ := υ)) (armPeriodic h name delay period action) := by
  intro m
  have hs := scheduleTask_changing name delay (.periodic h name period action) m
  simp only [armPeriodic]
  split <;> rename_i he <;> rw [he] at hs <;> exact hs

theorem schedulePeriodic_changing (name : String) (period : Nat) (action : α) :
    Op.Relates (Changing (δ := δ) (υ := υ)) (schedulePeriodic name period action) := by
  intro m
  -- Claiming a slot is nothing to the table.
  have armed : ∀ {h : PeriodicHandle} {slots : Array PeriodicSlot} {r : Except Fault Unit}
      {k : Machine δ α υ}, Op.outcome (armPeriodic h name period period action { m with slots }) =
        (r, k) → Changing m k := fun he => by
    obtain ⟨l, hl⟩ := Op.Relates.of_outcome (armPeriodic_changing _ _ _ _ _) he
    exact ⟨l, hl⟩
  simp only [schedulePeriodic]
  split
  · exact changing_chains.refl m
  · split <;> rename_i he
    · exact armed (Op.outcome_eq_ok.2 he)
    · exact armed (Op.outcome_eq_error.2 he)

theorem cancelPeriodic_changing (h : PeriodicHandle) (m : Machine δ α υ) :
    Changing m (m.cancelPeriodic h).2 := by
  obtain ⟨-, he⟩ | ⟨id, slots, -, he, -⟩ := cancelPeriodic_cases h m <;> rw [he]
  · exact changing_chains.refl m
  · exact deschedule_changing id m

section Board

variable [Board δ]

omit [Board δ] in
theorem onBus_changing (op : Op (Bus δ) β) :
    Op.Relates (Changing (α := α) (υ := υ)) (onBus op) := by
  intro m
  simp only [onBus]
  cases op m.bus <;> exact .of_timeline rfl

omit [Board δ] in
theorem writeRegister_changing (offset v mask : UInt32) :
    Op.Relates (Changing (δ := δ) (α := α) (υ := υ)) (writeRegister offset v mask) := by
  refine .bind changing_chains (onEngine_changing _) fun b => ?_
  cases b with
  | true => exact requestService_changing
  | false => exact changing_chains.refl

theorem writeMasked_changing (a v mask : UInt32) :
    Op.Relates (Changing (δ := δ) (α := α) (υ := υ)) (writeMasked a v mask) :=
  writeMasked_relates changing_chains (fun _ _ => onBus_changing _) (fun _ _ _ => onBus_changing _)
    writeRegister_changing a v mask

theorem write_changing (w : Width) (a v : UInt32) :
    Op.Relates (Changing (δ := δ) (α := α) (υ := υ)) (write w a v) :=
  write_relates changing_chains (fun _ _ => onBus_changing _) (fun _ _ _ => onBus_changing _)
    writeRegister_changing w a v

/-- **A call that leaves the clock alone makes and drops events**, and nothing else happens to the
table. -/
theorem perform_changing {handler : Handler δ α υ} {bound : Nat} {c : Call δ α υ}
    {r : Except Fault c.Answer} (hc : c.Stays) (hp : perform handler bound c m = some (r, m')) :
    Changing m m' := by
  have op : ∀ {β : Type} {x : Op (Machine δ α υ) β} {r : Except Fault β}, Op.Relates Changing x →
      x.toRun m = some (r, m') → Changing m m' := fun hx h => hx.of_outcome (Option.some.inj h)
  cases c with
  | read w a =>
      simp only [perform] at hp
      exact op (read_relates changing_chains (fun _ _ => onBus_changing _) w a) hp
  | write w a v =>
      simp only [perform] at hp
      exact op (write_changing w a v) hp
  | writeMasked a v mask =>
      simp only [perform] at hp
      exact op (writeMasked_changing a v mask) hp
  | request p =>
      simp only [perform] at hp
      exact op (request_changing p) hp
  | takeEdge =>
      simp only [perform] at hp
      exact op (onEngine_changing _) hp
  | schedule name delay action =>
      simp only [perform] at hp
      exact op (scheduleTask_changing _ _ _) hp
  | schedulePeriodic name period action =>
      simp only [perform] at hp
      exact op (schedulePeriodic_changing name period action) hp
  | bus c =>
      simp only [perform] at hp
      exact op (onBus_changing _) hp
  | deschedule id =>
      simp only [perform] at hp
      cases hp
      exact deschedule_changing id m
  | cancelPeriodic h =>
      simp only [perform] at hp
      cases hp
      exact cancelPeriodic_changing h m
  | capture | observe =>
      simp only [perform] at hp
      cases hp
      exact .of_timeline rfl
  | run | runToNext | reset | restore => cases hc

/-- A call that fires nothing makes and drops events, or throws all of them away. -/
theorem perform_turn {handler : Handler δ α υ} {bound : Nat} {c : Call δ α υ}
    {r : Except Fault c.Answer} (hc : ¬c.Fires) (hp : perform handler bound c m = some (r, m')) :
    Changing m m' ∨ (Item.ended c r m').clears = true ∧ m'.timeline.events = [] ∧
      m.timeline.nextId ≤ m'.timeline.nextId := by
  cases c with
  | run | runToNext => exact absurd trivial hc
  | reset =>
      simp only [perform] at hp
      cases hp
      exact .inr ⟨rfl, rfl, Nat.le_refl _⟩
  | restore s =>
      simp only [perform] at hp
      obtain ⟨e, he⟩ | ⟨m₁, he, ht, -⟩ := restore_cases s m <;> rw [Op.toRun_apply, he] at hp <;>
        cases hp
      · exact .inl (changing_chains.refl m)
      · exact .inr ⟨rfl, by rw [ht]; rfl, by rw [ht]; exact Nat.le_max_left ..⟩
  | _ => exact .inl (perform_changing (by exact trivial) hp)

/-- **What a move does to the timeline.** -/
theorem Move.turn {handler : Handler δ α υ} {ls ls' : List (Level δ α υ)} {j : Journal δ α υ}
    (hm : Move handler ls m j ls' m') : Turn m.timeline m'.timeline := by
  have same : Turn m.timeline m.timeline := .changed (.none _)
  cases hm with
  | call hc hp =>
      obtain ⟨_, h⟩ | ⟨-, he, hn⟩ := perform_turn hc hp
      · exact .changed h
      · exact .cleared he hn
  | began => exact .moved _ _
  | service hp _ ho =>
      obtain ⟨_, h⟩ := serviceChannels_changing.of_outcome ho
      exact .fired hp h
  | resume hp _ ho =>
      obtain ⟨_, h⟩ := (resumeChannel_changing _ _).of_outcome ho
      exact .fired hp h
  | client hp | periodic hp => exact .fired hp (.none _)
  | rearm _ ho =>
      obtain ⟨_, h⟩ := Op.Relates.of_outcome (armPeriodic_changing _ _ _ _ _) ho
      exact .changed h
  | drained _ ht =>
      obtain rfl := (Prod.mk.inj ht).2
      exact .moved _ _
  | idle | next | lapsed | failed | ended | aborted => exact same

theorem Moves.triggersFit {handler : Handler δ α υ} {ls ls' : List (Level δ α υ)}
    {j : Journal δ α υ} (hm : Moves handler ls m j ls' m') (h : m.timeline.TriggersFit) :
    m'.timeline.TriggersFit :=
  hm.preserves (h := []) (J := fun _ _ m => m.timeline.TriggersFit)
    (fun ih hm => hm.turn.triggersFit ih) h

end Board

end Machine

end DmaMachine
