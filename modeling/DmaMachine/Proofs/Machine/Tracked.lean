import DmaMachine.Machine.Call
import DmaMachine.Proofs.Engine.Service
import DmaMachine.Proofs.Machine.Clock

/-!
# The service event

The machine remembers the identifier of its service event.  It is *tracked* as long as nobody else
has that identifier: no client was handed it, no registration has it for its next event, and no
channel for its resumption (`Foreign`).  Then nobody but the machine can take the event out, and a
pending event with that identifier is a service event that is due.

A machine is *watched* when its service event is tracked and is pending whenever some channel is
due.

* `Tracked`, `Watched`: the two invariants, given the identifiers that were handed out.
* `perform_watched`: **a call that fires nothing and ends well keeps the watch.**
* `serviceChannels_watched`, `resumeChannel_watched`, `armPeriodic_watched`: so do the tasks of the
  machine's own events.
-/

namespace DmaMachine

namespace Machine

variable {δ α υ β : Type} {handed : List Nat} {m m' : Machine δ α υ}

/-- An identifier that somebody else has than the machine for its service event. -/
def Foreign (handed : List Nat) (m : Machine δ α υ) (id : Nat) : Prop :=
  id ∈ handed ∨ (∃ slot ∈ m.slots, slot.event = some id) ∨ some id ∈ m.resumeEvents

/-- Nobody else has the identifier of the service event. -/
structure Tracked (handed : List Nat) (m : Machine δ α υ) : Prop where
  wellFormed : m.timeline.WellFormed
  known : ∀ id, m.serviceEvent = some id → id < m.timeline.nextId
  foreign : ∀ id, Foreign handed m id → id < m.timeline.nextId ∧ m.serviceEvent ≠ some id
  service : ∀ e ∈ m.timeline.events, m.serviceEvent = some e.id →
    e.task = .service ∧ e.triggerAt ≤ m.timeline.now

/-- The service event is tracked, and pending whenever some channel is due. -/
structure Watched (handed : List Nat) (m : Machine δ α υ) : Prop extends Tracked handed m where
  pending : m.engine.due = true → m.servicePending = true

theorem servicePending_iff : m.servicePending = true ↔
    ∃ e ∈ m.timeline.events, m.serviceEvent = some e.id := by
  unfold servicePending
  cases m.serviceEvent with
  | none => simp
  | some id =>
      dsimp only
      rw [Timeline.isScheduled_iff]
      exact ⟨fun ⟨e, he, hid⟩ => ⟨e, he, hid ▸ rfl⟩,
        fun ⟨e, he, hid⟩ => ⟨e, he, (Option.some.inj hid).symm⟩⟩

/-! ### Changes of the table -/

/-- A service event that nobody has taken out stays tracked and pending. -/
theorem Tracked.of_owners {handed' : List Nat} (h : Tracked handed m)
    (ht : m'.timeline = m.timeline) (hs : m'.serviceEvent = m.serviceEvent)
    (hf : ∀ id, Foreign handed' m' id → Foreign handed m id) : Tracked handed' m' where
  wellFormed := ht ▸ h.wellFormed
  known id he := ht ▸ h.known id (hs ▸ he)
  foreign id hi := by
    rw [ht, hs]
    exact h.foreign id (hf id hi)
  service e he hid := by
    rw [ht] at he ⊢
    exact h.service e he (hs ▸ hid)

/-- A new event is somebody else's, and leaves the service event tracked and pending. -/
theorem Tracked.schedule (h : Tracked handed m) {name : String} {delay id : Nat} {task : Task α}
    (hs : scheduleTask name delay task m = .ok id m') :
    Tracked (id :: handed) m' ∧ (m.servicePending = true → m'.servicePending = true) := by
  obtain ⟨rfl, rfl⟩ := scheduleTask_eq_ok hs
  refine ⟨⟨h.wellFormed.insert .., fun id he => Nat.lt_succ_of_lt (h.known id he),
    fun id hi => ?_, fun e he hid => ?_⟩, fun hp => ?_⟩
  -- Identifiers are handed out once, so the new one is not the service event's.
  · rcases hi with hi | hi
    · rcases List.mem_cons.1 hi with rfl | hi
      · exact ⟨Nat.lt_succ_self _, fun he => Nat.lt_irrefl _ (h.known _ he)⟩
      · obtain ⟨hl, hn⟩ := h.foreign id (.inl hi)
        exact ⟨Nat.lt_succ_of_lt hl, hn⟩
    · obtain ⟨hl, hn⟩ := h.foreign id (.inr hi)
      exact ⟨Nat.lt_succ_of_lt hl, hn⟩
  · rcases Event.mem_insert.1 he with rfl | he
    · exact absurd (h.known _ hid) (Nat.lt_irrefl _)
    · exact h.service e he hid
  · obtain ⟨e, he, hid⟩ := servicePending_iff.1 hp
    exact servicePending_iff.2 ⟨e, Event.mem_insert.2 (.inr he), hid⟩

/-- Somebody else's event can be taken out. -/
theorem Tracked.deschedule (h : Tracked handed m) {id : Nat} (hf : Foreign handed m id) :
    Tracked handed (Host.deschedule id m).2 ∧
      (m.servicePending = true → (Host.deschedule id m).2.servicePending = true) := by
  have hsub := List.eraseP_sublist (p := (·.id == id)) (l := m.timeline.events)
  refine ⟨⟨h.wellFormed.of_sublist hsub (Nat.le_refl _), h.known, h.foreign,
    fun e he hid => h.service e (hsub.subset he) hid⟩, fun hp => ?_⟩
  obtain ⟨e, he, hid⟩ := servicePending_iff.1 hp
  refine servicePending_iff.2 ⟨e, (List.mem_eraseP_of_neg ?_).2 he, hid⟩
  intro heq
  exact (h.foreign id hf).2 (eq_of_beq heq ▸ hid)

/-- **After a request of service the service event is pending.** -/
theorem Tracked.requestService (h : Tracked handed m) (hr : requestService m = .ok () m') :
    Watched handed m' := by
  simp only [Machine.requestService] at hr
  split at hr
  · rename_i hp
    cases hr
    exact ⟨h, fun _ => hp⟩
  · split at hr
    · rename_i id m₁ hs
      cases hr
      obtain ⟨rfl, rfl⟩ := scheduleTask_eq_ok hs
      refine ⟨⟨h.wellFormed.insert .., fun id he => ?_, fun id hi => ?_, fun e he hid => ?_⟩,
        fun _ => servicePending_iff.2 ⟨_, Event.mem_insert.2 (.inl rfl), rfl⟩⟩
      · cases he
        exact Nat.lt_succ_self _
      · have hl := (h.foreign id hi).1
        refine ⟨Nat.lt_succ_of_lt hl, fun he => ?_⟩
        cases he
        exact Nat.lt_irrefl _ hl
      · rcases Event.mem_insert.1 he with rfl | he
        · exact ⟨rfl, Timeline.wrap_le _⟩
        -- An event of the table has an older identifier than the one tracked now.
        · have := h.wellFormed.handedOut e he
          rw [← Option.some.inj hid] at this
          exact absurd this (Nat.lt_irrefl _)
    · cases hr

/-! ### Operations of the engine -/

/-- An operation that reports what becomes due, followed by a request of service if it does. -/
theorem Watched.onEngine (h : Watched handed m) {op : Op Engine Bool} {b : Bool}
    (hop : ∀ {e' : Engine}, op m.engine = .ok b e' → Engine.Reports m.engine b e')
    (ho : onEngine op m = .ok b m') :
    Tracked handed m' ∧ (b = false → Watched handed m') := by
  simp only [Machine.onEngine] at ho
  split at ho
  · rename_i b' e' he
    cases ho
    refine ⟨h.toTracked.of_owners rfl rfl fun _ hi => hi, fun hb =>
      ⟨h.toTracked.of_owners rfl rfl fun _ hi => hi, fun hd => ?_⟩⟩
    rcases hop he hd with hd | hb'
    · exact h.pending hd
    · rw [hb] at hb'
      cases hb'
  · cases ho

theorem Watched.alike (h : Watched handed m) (ha : Alike m m') : Watched handed m' := by
  obtain ⟨_, _, _, rfl⟩ := ha
  exact ⟨h.toTracked.of_owners rfl rfl fun _ hi => hi, h.pending⟩

theorem writeRegister_watched (h : Watched handed m) {offset v mask : UInt32}
    (ho : writeRegister offset v mask m = .ok () m') : Watched handed m' := by
  obtain ⟨b, m₁, he, hr⟩ := Op.bind_eq_ok.1 ho
  obtain ⟨ht, hq⟩ := h.onEngine Engine.write_reports he
  cases b with
  | true => exact ht.requestService hr
  | false =>
      cases hr
      exact hq rfl

theorem request_watched (h : Watched handed m) {p : Peer} {b : Bool}
    (ho : request p m = .ok b m') : Watched handed m' := by
  obtain ⟨b, m₁, he, hr⟩ := Op.bind_eq_ok.1 ho
  obtain ⟨ht, hq⟩ := h.onEngine Engine.request_reports he
  cases b with
  | true =>
      obtain ⟨_, m₂, hr, hb⟩ := Op.bind_eq_ok.1 hr
      cases hb
      exact ht.requestService hr
  | false =>
      cases hr
      exact hq rfl

/-- A channel's resumption may be given an identifier that is somebody else's already. -/
theorem Tracked.setResume (h : Tracked handed m) (p : Peer) {event : Option Nat}
    (hev : ∀ id, event = some id → Foreign handed m id) :
    Tracked handed { m with resumeEvents := m.resumeEvents.set p.index event p.index_lt } := by
  refine h.of_owners rfl rfl fun id hi => ?_
  rcases hi with hi | hi | hi
  · exact .inl hi
  · exact .inr (.inl hi)
  · have := p.index_lt
    replace hi : some id ∈ m.resumeEvents.set p.index event := hi
    rcases Vector.mem_or_eq_of_mem_set hi with hi | hi
    · exact .inr (.inr hi)
    · exact hev id hi.symm

theorem resumeChannel_watched (h : Watched handed m) {p : Peer} {generation : UInt32}
    (ho : resumeChannel p generation m = .ok () m') : Watched handed m' := by
  obtain ⟨_, m₁, hm, ho⟩ := Op.bind_eq_ok.1 ho
  cases hm
  -- The resumption that fired is nobody's any more.
  have h₁ : Watched handed
      { m with resumeEvents := m.resumeEvents.set p.index none p.index_lt } :=
    ⟨h.toTracked.setResume p (by rintro _ ⟨⟩), h.pending⟩
  obtain ⟨b, m₂, he, hr⟩ := Op.bind_eq_ok.1 ho
  obtain ⟨ht, hq⟩ := h₁.onEngine Engine.resume_reports he
  cases b with
  | true => exact ht.requestService hr
  | false =>
      cases hr
      exact hq rfl

/-! ### Registrations -/

theorem mem_modify {σ : Type} {xs : Array σ} {i : Nat} {f : σ → σ} {x : σ}
    (h : x ∈ xs.modify i f) : x ∈ xs ∨ ∃ y ∈ xs, x = f y := by
  obtain ⟨j, hj, rfl⟩ := Array.mem_iff_getElem.1 h
  rw [Array.getElem_modify]
  have hj' : j < xs.size := by simpa using hj
  split
  · exact .inr ⟨_, Array.getElem_mem hj', rfl⟩
  · exact .inl (Array.getElem_mem hj')

/-- Registrations may be given identifiers that are somebody else's already. -/
theorem Tracked.setSlots (h : Tracked handed m) {slots : Array PeriodicSlot}
    (hs : ∀ slot ∈ slots, ∀ id, slot.event = some id → Foreign handed m id) :
    Tracked handed { m with slots } := by
  refine h.of_owners rfl rfl fun id hi => ?_
  rcases hi with hi | ⟨slot, hm, he⟩ | hi
  · exact .inl hi
  · exact hs slot hm id he
  · exact .inr (.inr hi)

/-- Nobody loses an identifier when fewer are handed out. -/
theorem Tracked.mono {handed' : List Nat} (h : Tracked handed m)
    (hs : ∀ id ∈ handed', id ∈ handed) : Tracked handed' m :=
  h.of_owners rfl rfl fun id hi => hi.imp_left (hs id)

theorem armPeriodic_watched (h : Watched handed m) {handle : PeriodicHandle} {name : String}
    {delay period : Nat} {action : α}
    (ho : armPeriodic handle name delay period action m = .ok () m') :
    Watched handed m' := by
  simp only [armPeriodic] at ho
  split at ho
  · cases ho
  · rename_i id m₁ hs
    cases ho
    obtain ⟨ht, hp⟩ := h.toTracked.schedule hs
    obtain ⟨rfl, rfl⟩ := scheduleTask_eq_ok hs
    refine ⟨(ht.setSlots fun slot hm id he => ?_).mono fun id hi => .tail _ hi,
      fun hd => hp (h.pending hd)⟩
    rcases mem_modify hm with hs | ⟨old, hs, rfl⟩
    · exact .inr (.inl ⟨slot, hs, he⟩)
    · split at he
      · cases he
        exact .inl (.head _)
      · exact .inr (.inl ⟨old, hs, he⟩)

theorem schedulePeriodic_watched (h : Watched handed m) {name : String} {period : Nat} {action : α}
    {handle : PeriodicHandle} (ho : schedulePeriodic name period action m = .ok handle m') :
    Watched handed m' := by
  simp only [schedulePeriodic] at ho
  split at ho
  · cases ho
  · split at ho
    · rename_i m₁ ha
      cases ho
      refine armPeriodic_watched ?_ ha
      refine ⟨h.toTracked.setSlots fun slot hm id he => ?_, h.pending⟩
      -- Neither a new slot nor a new generation brings an event with it.
      have old : ∀ slot ∈ if m.freeSlot < m.slots.size then m.slots else m.slots.push {},
          slot.event = some id → Foreign handed m id := fun slot hs he => by
        split at hs
        · exact .inr (.inl ⟨slot, hs, he⟩)
        · rcases Array.mem_push.1 hs with hs | rfl
          · exact .inr (.inl ⟨slot, hs, he⟩)
          · cases he
      rcases mem_modify hm with hs | ⟨slot, hs, rfl⟩
      · exact old slot hs he
      · exact old slot hs he
    · cases ho

theorem cancelPeriodic_watched (h : Watched handed m) (handle : PeriodicHandle) :
    Watched handed (m.cancelPeriodic handle).2 := by
  simp only [cancelPeriodic]
  split
  · exact h
  · rename_i slot hslot
    split
    · split
      · exact h
      · rename_i id hid
        have hf : Foreign handed m id := .inr (.inl ⟨slot, Array.mem_of_getElem? hslot, hid⟩)
        obtain ⟨ht, hp⟩ := h.toTracked.deschedule hf
        refine ⟨ht.setSlots fun slot hm id he => ?_, fun hd => hp (h.pending hd)⟩
        replace hm : slot ∈ m.slots.modify handle.slot fun slot => { slot with event := none } := hm
        rcases mem_modify hm with hs | ⟨_, _, rfl⟩
        · exact .inr (.inl ⟨slot, hs, he⟩)
        · cases he
    · exact h

/-! ### Service passes -/

theorem dropResume_tracked (h : Tracked handed m) (p : Peer) :
    Tracked handed (m.dropResume p) ∧ (m.dropResume p).engine = m.engine := by
  have := p.index_lt
  rw [dropResume]
  cases hr : m.resumeEvents[p.index] with
  | none => exact ⟨h.setResume p (by rintro _ ⟨⟩), rfl⟩
  | some stale =>
      have hf : Foreign handed m stale := .inr (.inr (hr ▸ Vector.getElem_mem _))
      exact ⟨(h.deschedule hf).1.setResume p (by rintro _ ⟨⟩), rfl⟩

theorem scheduleResume_tracked {p : Peer} {delay : Nat}
    (ho : scheduleResume p delay m = .ok () m') (h : Tracked handed m) :
    Tracked handed m' ∧ m'.engine = m.engine := by
  obtain ⟨hd, he⟩ := dropResume_tracked h p
  simp only [scheduleResume] at ho
  split at ho
  · rename_i id m₁ hs
    cases ho
    obtain ⟨ht, -⟩ := hd.schedule hs
    obtain ⟨-, rfl⟩ := scheduleTask_eq_ok hs
    refine ⟨(ht.setResume p fun id hid => ?_).mono fun id hi => .tail _ hi, he⟩
    cases hid
    exact .inl (.head _)
  · cases ho

theorem noteOutcome_tracked {p : Peer} {status : Status} (ho : noteOutcome p status m = .ok () m')
    (h : Tracked handed m) : Tracked handed m' ∧ m'.engine = m.engine := by
  cases status with
  | chopped resumeIn =>
      have hs : Tracked handed
          { m with stats := { m.stats with choppedWindows := m.stats.choppedWindows + 1 } } :=
        h.of_owners rfl rfl fun _ hi => hi
      have hr := scheduleResume_tracked ho hs
      exact hr
  | idle | completed | blockDone | faulted =>
      cases ho
      exact ⟨h.of_owners rfl rfl fun _ hi => hi, rfl⟩

/-- Resumptions are planned without a word to the engine. -/
theorem noteOutcomes_tracked : ∀ {outcomes : List (Peer × Status)} {m : Machine δ α υ},
    Tracked handed m → noteOutcomes outcomes m = .ok () m' →
      Tracked handed m' ∧ m'.engine = m.engine
  | [], m, h, ho => by
      cases ho
      exact ⟨h, rfl⟩
  | (p, status) :: rest, m, h, ho => by
      obtain ⟨_, m₁, hn, ho⟩ := Op.bind_eq_ok.1 ho
      obtain ⟨h₁, he₁⟩ := noteOutcome_tracked hn h
      obtain ⟨h', he'⟩ := noteOutcomes_tracked h₁ ho
      exact ⟨h', he'.trans he₁⟩

/-- **After a service pass that ends well no channel is due.** -/
theorem serviceChannels_watched [Board δ] (h : Tracked handed m)
    (ho : serviceChannels m = .ok () m') : Watched handed m' := by
  simp only [serviceChannels] at ho
  split at ho
  · cases ho
  · rename_i outcomes engine bus hs
    split at ho
    · cases ho
    · rename_i m₁ hn
      cases ho
      have h₀ : Tracked handed { m with bus, engine, serviceEvent := none } :=
        { wellFormed := h.wellFormed
          known := by rintro _ ⟨⟩
          foreign := fun id hi => ⟨(h.foreign id hi).1, by rintro ⟨⟩⟩
          service := by rintro _ _ ⟨⟩ }
      obtain ⟨h₁, he⟩ := noteOutcomes_tracked h₀ hn
      have hd : m₁.engine.due = false := by
        rw [he]
        exact Engine.service_settles hs
      have hr : Alike m₁ (m₁.noteRise m.engine.controller.line) := by
        rw [noteRise]
        split
        · exact ⟨m₁.bus, _, m₁.memory, rfl⟩
        · exact alike_chains.refl _
      exact Watched.alike ⟨h₁, fun hd' => by rw [hd] at hd'; cases hd'⟩ hr

/-! ### Accesses -/

theorem writeMasked_watched [Board δ] (h : Watched handed m) {a v mask : UInt32}
    (ho : writeMasked a v mask m = .ok () m') : Watched handed m' := by
  simp only [writeMasked] at ho
  split at ho
  · exact writeRegister_watched h ho
  · refine h.alike ?_
    split at ho
    · exact (alike_onBus _).of_ok ho
    · split at ho
      · exact (alike_onBus _).of_ok ho
      · split at ho
        · exact (alike_onBus _).of_ok ho
        · exact (writeLanes_alike a v mask _).of_ok ho

theorem write_watched [Board δ] (h : Watched handed m) {w : Width} {a v : UInt32}
    (ho : write w a v m = .ok () m') : Watched handed m' := by
  simp only [write] at ho
  split at ho
  · exact writeMasked_watched h ho
  · split at ho
    · exact writeMasked_watched h ho
    · exact h.alike ((alike_onBus _).of_ok ho)

/-! ### Reset and snapshots -/

theorem not_due_initial : Engine.due {} = false := by decide

/-- A machine at rest is watched. -/
theorem watched_of_rest (hev : m.timeline.events = [])
    (hh : ∀ id ∈ handed, id < m.timeline.nextId) (hs : m.serviceEvent = none)
    (hr : m.resumeEvents = Vector.replicate channelCount none) (hsl : m.slots = #[])
    (hd : m.engine.due = false) : Watched handed m where
  wellFormed := by
    refine ⟨?_, ?_, fun e he => ?_⟩
    · rw [hev]
      exact List.Pairwise.nil
    · rw [hev]
      exact List.nodup_nil
    · rw [hev] at he
      cases he
  known id he := by
    rw [hs] at he
    cases he
  foreign id hi := by
    refine ⟨?_, by rw [hs]; rintro ⟨⟩⟩
    rcases hi with hi | ⟨slot, hm, -⟩ | hi
    · exact hh id hi
    · rw [hsl] at hm
      exact absurd hm (Array.not_mem_empty _)
    · rw [hr] at hi
      obtain ⟨-, ⟨⟩⟩ := Vector.mem_replicate.1 hi
  service e he := by
    rw [hev] at he
    cases he
  pending hd' := by
    rw [hd] at hd'
    cases hd'

theorem initial_watched (board : δ) (memory : υ) :
    Watched [] (initial board memory : Machine δ α υ) :=
  watched_of_rest rfl (fun _ hi => nomatch hi) rfl rfl rfl not_due_initial

theorem reset_watched (h : Tracked handed m) : Watched handed m.reset :=
  watched_of_rest rfl (fun id hi => (h.foreign id (.inl hi)).1) rfl rfl rfl not_due_initial

/-- Restored channels are at rest, and what is true of channels at rest is true of them. -/
theorem restoredChannels_preserves {P : Channel → Prop} (q : Peer)
    (hr : ∀ base blocks control, P (Channel.atRest q base blocks control)) :
    ∀ (ps : List Peer) (rs : List ChannelRecord) {e : Engine}, P (e.channel q) →
      P ((restoredChannels ps rs e).channel q)
  | [], _, _, h | _ :: _, [], _, h => h
  | p :: ps, r :: rs, e, h => by
      rw [restoredChannels]
      refine restoredChannels_preserves q hr ps rs ?_
      rw [Engine.channel_setChannel]
      split
      · rename_i hqp
        exact hqp ▸ hr ..
      · exact h

theorem restore_watched (h : Tracked handed m) {s : Snapshot} (ho : restore s m = .ok () m') :
    Watched handed m' := by
  cases hf : misfit? s with
  | some fault =>
      rw [restore_of_misfit hf m] at ho
      cases ho
  | none =>
      obtain ⟨ram, -, hr⟩ := restore_of_fit hf m
      rw [hr] at ho
      cases ho
      refine watched_of_rest rfl (fun id hi => ?_) rfl rfl rfl (Bool.eq_false_iff.2 fun hd => ?_)
      · exact Nat.lt_of_lt_of_le (h.foreign id (.inl hi)).1 (Nat.le_max_left ..)
      · obtain ⟨p, ha, -⟩ := Engine.due_iff.1 hd
        have hr := restoredChannels_preserves (P := fun c => c.active = false) p (fun _ _ _ => rfl)
          Peer.all s.channels (e := {}) (by cases p <;> rfl)
        exact Bool.false_ne_true (hr.symm.trans ha)

/-! ### Calls -/

/-- The identifier that a call gave away. -/
def given : (c : Call δ α υ) → c.Answer → List Nat
  | .schedule .., id => [id]
  | _, _ => []

/-- **A call that fires nothing and ends well keeps the watch**, if what it takes out of the table
was handed out. -/
theorem perform_watched [Board δ] {handler : Handler δ α υ} {bound : Nat} {c : Call δ α υ}
    {a : c.Answer} (h : Watched handed m) (hc : ¬c.Fires)
    (hd : ∀ id, c = .deschedule id → id ∈ handed)
    (hp : perform handler bound c m = some (.ok a, m')) : Watched (given c a ++ handed) m' := by
  cases c with
  | read w x =>
      simp only [perform] at hp
      replace hp := Op.toRun_eq_ok.1 hp
      exact h.alike ((read_alike w x).of_ok hp)
  | write w x v =>
      simp only [perform] at hp
      replace hp := Op.toRun_eq_ok.1 hp
      exact write_watched h hp
  | writeMasked x v mask =>
      simp only [perform] at hp
      replace hp := Op.toRun_eq_ok.1 hp
      exact writeMasked_watched h hp
  | request p =>
      simp only [perform] at hp
      replace hp := Op.toRun_eq_ok.1 hp
      exact request_watched h hp
  | takeEdge =>
      simp only [perform] at hp
      replace hp := Op.toRun_eq_ok.1 hp
      cases hp
      refine ⟨h.toTracked.of_owners rfl rfl fun _ hi => hi, fun hd => h.pending ?_⟩
      exact (Engine.due_congr (e := m.engine) rfl).symm.trans hd
  | schedule name delay action =>
      simp only [perform] at hp
      replace hp := Op.toRun_eq_ok.1 hp
      obtain ⟨ht, hq⟩ := h.toTracked.schedule hp
      obtain ⟨-, rfl⟩ := scheduleTask_eq_ok hp
      exact ⟨ht, fun hd => hq (h.pending hd)⟩
  | deschedule id =>
      simp only [perform] at hp
      cases hp
      obtain ⟨ht, hq⟩ := h.toTracked.deschedule (.inl (hd id rfl))
      exact ⟨ht, fun hd => hq (h.pending hd)⟩
  | schedulePeriodic name period action =>
      simp only [perform] at hp
      replace hp := Op.toRun_eq_ok.1 hp
      exact schedulePeriodic_watched h hp
  | cancelPeriodic handle =>
      simp only [perform] at hp
      cases hp
      exact cancelPeriodic_watched h handle
  | reset =>
      simp only [perform] at hp
      cases hp
      exact reset_watched h.toTracked
  | capture label taken =>
      simp only [perform] at hp
      cases hp
      exact h
  | restore s =>
      simp only [perform] at hp
      replace hp := Op.toRun_eq_ok.1 hp
      exact restore_watched h.toTracked hp
  | bus c =>
      simp only [perform] at hp
      replace hp := Op.toRun_eq_ok.1 hp
      exact h.alike ((alike_onBus _).of_ok hp)
  | observe look =>
      simp only [perform] at hp
      cases hp
      exact h.alike ⟨m.bus, m.stats, look m, rfl⟩
  | run | runToNext => exact absurd trivial hc

end Machine

end DmaMachine
