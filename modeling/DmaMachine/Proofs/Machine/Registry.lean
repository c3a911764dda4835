import DmaMachine.Proofs.Machine.Operations

/-!
# The registry of periodic events

What becomes of the slots and of the table when a registration is made, armed again, or ended; and
that whatever happens the references between them stay sound.

* `armPeriodic_cases`, `schedulePeriodic_cases`, `cancelPeriodic_cases`: what each of the three can
  come to.
* `Move.coherent`, `Moves.coherent`: **every move keeps the machine coherent**, and every history.
-/

namespace DmaMachine

namespace Machine

variable {δ α υ : Type} {m m' : Machine δ α υ}

/-- A registration is in force when its slot has its generation and remembers an event. -/
theorem isRegistered_iff {h : PeriodicHandle} :
    m.isRegistered h = true ↔ ∃ id, m.slots[h.slot]? = some ⟨h.generation, some id⟩ := by
  rw [isRegistered]
  rcases m.slots[h.slot]? with _ | ⟨generation, _ | id⟩ <;> simp

/-- The registration is in force as before if its slot is. -/
theorem isRegistered_of_slot {h : PeriodicHandle} (hs : m'.slots[h.slot]? = m.slots[h.slot]?) :
    m'.isRegistered h = m.isRegistered h := by
  rw [isRegistered, isRegistered, hs]

theorem isRegistered_congr {h : PeriodicHandle} (hs : m'.slots = m.slots) :
    m'.isRegistered h = m.isRegistered h := isRegistered_of_slot (by rw [hs])

/-- The table after an event was made. -/
def withEvent (name : String) (delay : Nat) (task : Task α) (m : Machine δ α υ) :
    Timeline (Task α) :=
  { m.timeline with
    nextId := m.timeline.nextId + 1
    events := Event.insert ⟨m.timeline.nextId, name, m.timeline.now,
      Timeline.wrap (m.timeline.now + delay), task⟩ m.timeline.events }

/-! ### Arming -/

/-- Arming makes an event, and the slot remembers it if it still has the generation; or it fails
and changes nothing. -/
theorem armPeriodic_cases (h : PeriodicHandle) (name : String) (delay period : Nat) (action : α)
    (m : Machine δ α υ) :
    (∃ e, armPeriodic h name delay period action m = .error e m) ∨
      ∃ slots, armPeriodic h name delay period action m =
          .ok () { m with
            timeline := m.withEvent name delay (.periodic h name period action), slots } ∧
        ∀ i, slots[i]? = if i = h.slot then
            m.slots[i]?.map fun slot =>
              if slot.generation = h.generation then { slot with event := some m.timeline.nextId }
              else slot
          else m.slots[i]? := by
  simp only [armPeriodic]
  cases hs : scheduleTask name delay (.periodic h name period action) m with
  | error e m₁ =>
      obtain rfl := scheduleTask_eq_error hs
      exact .inl ⟨e, rfl⟩
  | ok id m₁ =>
      obtain ⟨rfl, rfl⟩ := scheduleTask_eq_ok hs
      refine .inr ⟨_, rfl, fun i => ?_⟩
      rw [Array.getElem?_modify]
      simp only [eq_comm]

/-- The first slot without an owner, or a new one. -/
theorem slots_freeSlot (m : Machine δ α υ) :
    m.slots[m.freeSlot]? = none ∨ ∃ generation, m.slots[m.freeSlot]? = some ⟨generation, none⟩ := by
  rw [freeSlot]
  cases hf : m.slots.findIdx? (·.event.isNone) with
  | none => exact .inl (Array.getElem?_eq_none (Nat.le_refl _))
  | some i =>
      obtain ⟨hi, he, -⟩ := Array.findIdx?_eq_some_iff_getElem.1 hf
      refine .inr ⟨m.slots[i].generation, ?_⟩
      rw [Option.getD_some, Array.getElem?_eq_getElem hi]
      rcases hs : m.slots[i] with ⟨generation, _ | id⟩
      · rfl
      · rw [hs] at he
        cases he

theorem freeSlot_le (m : Machine δ α υ) : m.freeSlot ≤ m.slots.size := by
  rw [freeSlot]
  cases hf : m.slots.findIdx? (·.event.isNone) with
  | none => exact Nat.le_refl _
  | some i => exact Nat.le_of_lt (Array.findIdx?_eq_some_iff_getElem.1 hf).1

/-- The slot of a registration in force is not free. -/
theorem freeSlot_ne {h : PeriodicHandle} (hr : m.isRegistered h = true) : h.slot ≠ m.freeSlot := by
  intro he
  obtain ⟨id, hs⟩ := isRegistered_iff.1 hr
  rw [he] at hs
  obtain hn | ⟨generation, hn⟩ := m.slots_freeSlot <;> rw [hs] at hn <;> cases hn

theorem handle_eq {h k : PeriodicHandle} (hs : h.slot = k.slot)
    (hg : h.generation = k.generation) : h = k := by
  cases h
  cases k
  cases hs
  cases hg
  rfl

/-- Two registrations in force in one slot are the same. -/
theorem eq_of_slot {h k : PeriodicHandle} (hr : m.isRegistered h = true)
    (kr : m.isRegistered k = true) (he : h.slot = k.slot) : h = k := by
  obtain ⟨id, hs⟩ := isRegistered_iff.1 hr
  obtain ⟨id', ks⟩ := isRegistered_iff.1 kr
  rw [he, ks] at hs
  exact handle_eq he (PeriodicSlot.mk.inj (Option.some.inj hs)).1.symm

/-- Emptying the slot of a registration in force ends that one alone. -/
theorem isRegistered_freed {h k : PeriodicHandle} (hr : m.isRegistered h = true)
    (hs : ∀ i, m'.slots[i]? = if i = h.slot then some ⟨h.generation, none⟩ else m.slots[i]?) :
    m'.isRegistered k = true ↔ m.isRegistered k = true ∧ k ≠ h := by
  by_cases he : k.slot = h.slot
  · have hf : m'.isRegistered k = false := by
      rw [isRegistered, hs, if_pos he]
      simp
    rw [hf]
    exact ⟨nofun, fun ⟨kr, hne⟩ => absurd (eq_of_slot kr hr he) hne⟩
  · rw [isRegistered_of_slot ((hs _).trans (if_neg he))]
    exact ⟨fun kr => ⟨kr, fun heq => he (congrArg PeriodicHandle.slot heq)⟩, And.left⟩

/-- The handle of the next registration. -/
def nextHandle (m : Machine δ α υ) : PeriodicHandle :=
  ⟨m.freeSlot, (m.slots[m.freeSlot]?.getD {}).generation + 1⟩

/-- Without slots the next registration is in the first, in its first generation. -/
theorem nextHandle_of_empty (h : m.slots.size = 0) : m.nextHandle = ⟨0, 1⟩ := by
  have hf : m.freeSlot = 0 := Nat.le_zero.1 (h ▸ m.freeSlot_le)
  rw [nextHandle, hf, Array.getElem?_eq_none_iff.2 (Nat.le_of_eq h)]
  rfl

/-- The machine with the slot of the next registration claimed. -/
def claimed (m : Machine δ α υ) : Machine δ α υ :=
  { m with
    slots := (if m.freeSlot < m.slots.size then m.slots else m.slots.push {}).modify m.freeSlot
      fun s => { s with generation := m.nextHandle.generation } }

theorem slots_claimed (m : Machine δ α υ) (i : Nat) :
    m.claimed.slots[i]? =
      if i = m.freeSlot then some ⟨m.nextHandle.generation, none⟩ else m.slots[i]? := by
  rw [claimed, Array.getElem?_modify]
  by_cases hi : i = m.freeSlot
  · subst hi
    rw [if_pos rfl, if_pos rfl]
    obtain hn | ⟨generation, hs⟩ := m.slots_freeSlot
    · have hle : ¬ m.freeSlot < m.slots.size := fun hl => by
        rw [Array.getElem?_eq_getElem hl] at hn
        cases hn
      have heq : m.freeSlot = m.slots.size := Nat.le_antisymm m.freeSlot_le (Nat.le_of_not_lt hle)
      rw [if_neg hle, heq, Array.getElem?_push_size]
      rfl
    · have hl : m.freeSlot < m.slots.size := (Array.getElem?_eq_some_iff.1 hs).1
      rw [if_pos hl, hs]
      rfl
  · rw [if_neg (Ne.symm hi), if_neg hi]
    split
    · rfl
    · rename_i hle
      have heq : m.freeSlot = m.slots.size := Nat.le_antisymm m.freeSlot_le (Nat.le_of_not_lt hle)
      rw [Array.getElem?_push, if_neg (heq ▸ hi)]

/-- A registration claims its slot, and makes its first event. -/
theorem schedulePeriodic_eq {period : Nat} (hp : period ≠ 0) (name : String) (action : α)
    (m : Machine δ α υ) :
    schedulePeriodic name period action m =
      match armPeriodic m.nextHandle name period period action m.claimed with
      | .ok () m₁ => .ok m.nextHandle m₁
      | .error e m₁ => .error e m₁ := by
  have hg : ((if m.freeSlot < m.slots.size then m.slots else m.slots.push {})[m.freeSlot]?.getD
      {}).generation + 1 = m.nextHandle.generation := by
    split
    · rfl
    · rename_i hle
      have heq : m.freeSlot = m.slots.size := Nat.le_antisymm m.freeSlot_le (Nat.le_of_not_lt hle)
      rw [nextHandle, heq, Array.getElem?_push_size, Array.getElem?_eq_none (Nat.le_refl _)]
      rfl
  simp only [schedulePeriodic, if_neg hp, hg]
  rfl

/-- A registration is refused for its period; or it claims a slot, and either the table is full or
the slot remembers the first event. -/
theorem schedulePeriodic_cases (name : String) (period : Nat) (action : α) (m : Machine δ α υ) :
    (period = 0 ∧ ∃ e, schedulePeriodic name period action m = .error e m) ∨
      period ≠ 0 ∧ ∃ slots : Array PeriodicSlot,
        ((∃ e, schedulePeriodic name period action m = .error e { m with slots }) ∧
            ∀ i, slots[i]? = if i = m.freeSlot then some ⟨m.nextHandle.generation, none⟩
              else m.slots[i]?) ∨
          (schedulePeriodic name period action m = .ok m.nextHandle { m with
              timeline := m.withEvent name period (.periodic m.nextHandle name period action)
              slots } ∧
            ∀ i, slots[i]? = if i = m.freeSlot then
                some ⟨m.nextHandle.generation, some m.timeline.nextId⟩
              else m.slots[i]?) := by
  by_cases hp : period = 0
  · exact .inl ⟨hp, _, if_pos hp⟩
  · refine .inr ⟨hp, ?_⟩
    rw [schedulePeriodic_eq hp]
    obtain ⟨e, he⟩ | ⟨slots, ha, hs⟩ :=
      armPeriodic_cases m.nextHandle name period period action m.claimed
    · exact ⟨_, .inl ⟨⟨e, by rw [he]; rfl⟩, slots_claimed m⟩⟩
    · refine ⟨slots, .inr ⟨by rw [ha]; rfl, fun i => ?_⟩⟩
      rw [hs, slots_claimed, show m.nextHandle.slot = m.freeSlot from rfl]
      split
      · simp [claimed]
      · rfl

/-- Ending a registration that is in force drops the event that its slot remembers; ending any
other does nothing. -/
theorem cancelPeriodic_cases (h : PeriodicHandle) (m : Machine δ α υ) :
    (m.isRegistered h = false ∧ m.cancelPeriodic h = (false, m)) ∨
      ∃ id slots, m.slots[h.slot]? = some ⟨h.generation, some id⟩ ∧
        m.cancelPeriodic h =
          (true, { m with timeline := (m.timeline.deschedule id).2, slots }) ∧
        ∀ i, slots[i]? = if i = h.slot then some ⟨h.generation, none⟩ else m.slots[i]? := by
  rw [isRegistered, cancelPeriodic]
  cases hs : m.slots[h.slot]? with
  | none => exact .inl ⟨rfl, rfl⟩
  | some slot =>
      obtain ⟨generation, event⟩ := slot
      by_cases hg : generation = h.generation
      · subst hg
        cases event with
        | none => exact .inl ⟨by simp, by simp⟩
        | some id =>
            refine .inr ⟨id, _, rfl, if_pos rfl, fun i => ?_⟩
            rw [Array.getElem?_modify]
            by_cases hi : i = h.slot
            · subst hi
              rw [if_pos rfl, if_pos rfl, hs]
              rfl
            · rw [if_neg (Ne.symm hi), if_neg hi]
      · exact .inl ⟨by simp [hg], if_neg hg⟩

/-- Ending a registration that is not in force does nothing. -/
theorem cancelPeriodic_of_lapsed {h : PeriodicHandle} (hr : m.isRegistered h = false) :
    m.cancelPeriodic h = (false, m) := by
  obtain ⟨-, he⟩ | ⟨id, -, hs, -⟩ := cancelPeriodic_cases h m
  · exact he
  · exact absurd (hr.symm.trans (isRegistered_iff.2 ⟨id, hs⟩)) Bool.false_ne_true

theorem cancelPeriodic_of_registered {h : PeriodicHandle} (hr : m.isRegistered h = true) :
    ∃ id slots, m.slots[h.slot]? = some ⟨h.generation, some id⟩ ∧
      m.cancelPeriodic h = (true, { m with timeline := (m.timeline.deschedule id).2, slots }) ∧
      ∀ i, slots[i]? = if i = h.slot then some ⟨h.generation, none⟩ else m.slots[i]? := by
  obtain ⟨hn, -⟩ | hc := cancelPeriodic_cases h m
  · exact absurd (hn.symm.trans hr) Bool.false_ne_true
  · exact hc

/-! ### Coherence -/

/-- Slots that remember no other events than before. -/
theorem Coherent.of_slots (h : m.Coherent) {slots : Array PeriodicSlot}
    (hs : ∀ (i : Nat) (slot : PeriodicSlot) (id : Nat), slots[i]? = some slot →
      slot.event = some id → ∃ old, m.slots[i]? = some old ∧ old.event = some id) :
    Coherent { m with slots } where
  wellFormed := h.wellFormed
  slot_lt i slot id hi he := by
    obtain ⟨old, ho, hid⟩ := hs i slot id hi he
    exact h.slot_lt i old id ho hid
  resume_lt := h.resume_lt
  slot_task e he i slot hi hid := by
    obtain ⟨old, ho, hid⟩ := hs i slot e.id hi hid
    exact h.slot_task e he i old ho hid
  resume_task := h.resume_task

/-- A new event of a registration, which nothing but its slot remembers. -/
theorem Coherent.withEvent (h : m.Coherent) {handle : PeriodicHandle} {name : String}
    {delay period : Nat} {action : α} {slots : Array PeriodicSlot}
    (hs : ∀ (i : Nat) (slot : PeriodicSlot) (id : Nat), slots[i]? = some slot →
      slot.event = some id → (i = handle.slot ∧ id = m.timeline.nextId) ∨
        ∃ old, m.slots[i]? = some old ∧ old.event = some id) :
    Coherent { m with
      timeline := m.withEvent name delay (.periodic handle name period action), slots } where
  wellFormed := h.wellFormed.insert ..
  slot_lt i slot id hi he := by
    obtain ⟨-, rfl⟩ | ⟨old, ho, hid⟩ := hs i slot id hi he
    · exact Nat.lt_succ_self _
    · exact Nat.lt_succ_of_lt (h.slot_lt i old id ho hid)
  resume_lt id hi := Nat.lt_succ_of_lt (h.resume_lt id hi)
  slot_task e he i slot hi hid := by
    rcases Event.mem_insert.1 he with rfl | he
    · obtain ⟨hi, -⟩ | ⟨old, ho, hid⟩ := hs i slot _ hi hid
      · exact ⟨handle, name, period, action, rfl, hi.symm⟩
      · exact absurd (h.slot_lt i old _ ho hid) (Nat.lt_irrefl _)
    · obtain ⟨-, heq⟩ | ⟨old, ho, hid⟩ := hs i slot _ hi hid
      · exact absurd (heq ▸ h.wellFormed.handedOut e he) (Nat.lt_irrefl _)
      · exact h.slot_task e he i old ho hid
  resume_task e he hi := by
    rcases Event.mem_insert.1 he with rfl | he
    · exact absurd (h.resume_lt _ hi) (Nat.lt_irrefl _)
    · exact h.resume_task e he hi

theorem armPeriodic_coherent {handle : PeriodicHandle} {name : String} {delay period : Nat}
    {action : α} : Op.Relates (fun m m' : Machine δ α υ => m.Coherent → m'.Coherent)
      (armPeriodic handle name delay period action) := by
  intro m h
  obtain ⟨e, he⟩ | ⟨slots, ha, hs⟩ := armPeriodic_cases handle name delay period action m
  · rw [he]
    exact h
  · rw [ha]
    refine h.withEvent fun i slot id hi hid => ?_
    rw [hs] at hi
    split at hi
    · rename_i hslot
      obtain ⟨old, ho, rfl⟩ := Option.map_eq_some_iff.1 hi
      split at hid
      · exact .inl ⟨hslot, (Option.some.inj hid).symm⟩
      · exact .inr ⟨old, ho, hid⟩
    · exact .inr ⟨slot, hi, hid⟩

/-- Making the next event of a registration leaves all that are in force so. -/
theorem armPeriodic_registered {k : PeriodicHandle} (hk : m.isRegistered k = true)
    (h : PeriodicHandle) (name : String) (delay period : Nat) (action : α) :
    (Op.outcome (armPeriodic h name delay period action m)).2.isRegistered k = true := by
  obtain ⟨e, he⟩ | ⟨slots, he, hs⟩ := armPeriodic_cases h name delay period action m <;> rw [he]
  · exact hk
  · obtain ⟨id, hid⟩ := isRegistered_iff.1 hk
    have hsl := hs k.slot
    rw [hid] at hsl
    split at hsl
    · by_cases hg : k.generation = h.generation
      · exact isRegistered_iff.2 ⟨m.timeline.nextId, hsl.trans (by simp [hg])⟩
      · exact isRegistered_iff.2 ⟨id, hsl.trans (by simp [hg])⟩
    · exact isRegistered_iff.2 ⟨id, hsl⟩

theorem schedulePeriodic_coherent {name : String} {period : Nat} {action : α} :
    Op.Relates (fun m m' : Machine δ α υ => m.Coherent → m'.Coherent)
      (schedulePeriodic name period action) := by
  intro m h
  obtain ⟨-, e, he⟩ | ⟨-, slots, ⟨⟨e, he⟩, hs⟩ | ⟨he, hs⟩⟩ :=
    schedulePeriodic_cases name period action m <;> rw [he]
  · exact h
  · refine h.of_slots fun i slot id hi hid => ?_
    rw [hs] at hi
    split at hi
    · cases hi
      cases hid
    · exact ⟨slot, hi, hid⟩
  · refine h.withEvent fun i slot id hi hid => ?_
    rw [hs] at hi
    split at hi
    · rename_i hslot
      cases hi
      exact .inl ⟨hslot, (Option.some.inj hid).symm⟩
    · exact .inr ⟨slot, hi, hid⟩

theorem cancelPeriodic_coherent (h : m.Coherent) (handle : PeriodicHandle) :
    (m.cancelPeriodic handle).2.Coherent := by
  obtain ⟨-, he⟩ | ⟨id, slots, -, he, hs⟩ := cancelPeriodic_cases handle m <;> rw [he]
  · exact h
  · have hd : (Host.deschedule id m).2.Coherent := h.of_sublist (List.eraseP_sublist ..) rfl
    refine hd.of_slots fun i slot id hi hid => ?_
    rw [hs] at hi
    split at hi
    · cases hi
      cases hid
    · exact ⟨slot, hi, hid⟩

/-- A machine at rest is coherent. -/
theorem coherent_of_rest (hev : m.timeline.events = []) (hs : m.slots = #[])
    (hr : m.resumeEvents = Vector.replicate channelCount none) : m.Coherent where
  wellFormed := by
    refine ⟨?_, ?_, fun e he => ?_⟩
    · rw [hev]
      exact List.Pairwise.nil
    · rw [hev]
      exact List.nodup_nil
    · rw [hev] at he
      cases he
  slot_lt i slot id hi := by
    rw [hs] at hi
    cases hi
  resume_lt id hi := by
    rw [hr] at hi
    obtain ⟨-, ⟨⟩⟩ := Vector.mem_replicate.1 hi
  slot_task e he := by
    rw [hev] at he
    cases he
  resume_task e he := by
    rw [hev] at he
    cases he

theorem initial_coherent (board : δ) (memory : υ) :
    (initial board memory : Machine δ α υ).Coherent := coherent_of_rest rfl rfl rfl

/-- Restoring a snapshot fails and changes nothing, or leaves the machine at rest at the time of the
snapshot. -/
theorem restore_cases (s : Snapshot) (m : Machine δ α υ) :
    (∃ e, restore s m = .error e m) ∨
      ∃ m', restore s m = .ok () m' ∧ m'.timeline = m.timeline.restore s.now.toNat s.nextId.toNat ∧
        m'.slots = #[] ∧ m'.resumeEvents = Vector.replicate channelCount none ∧ m'.stats = {} ∧
        m'.bus.pendingCycles = 0 := by
  cases hf : misfit? s with
  | some fault => exact .inl ⟨_, restore_of_misfit hf m⟩
  | none =>
      obtain ⟨ram, -, hr⟩ := restore_of_fit hf m
      exact .inr ⟨_, hr, rfl, rfl, rfl, rfl, rfl⟩

variable [Board δ] {handler : Handler δ α υ}

/-- **A call that fires nothing keeps the machine coherent.** -/
theorem perform_coherent {bound : Nat} {c : Call δ α υ} {r : Except Fault c.Answer}
    (h : m.Coherent) (hc : ¬c.Fires) (hp : perform handler bound c m = some (r, m')) :
    m'.Coherent := by
  cases c with
  | read | write | writeMasked | request | takeEdge | schedule | capture | observe =>
      exact (perform_beside (by exact trivial) hp).coherent h
  | bus c => exact (perform_bus_aside hp).coherent h
  | deschedule id =>
      simp only [perform] at hp
      cases hp
      exact h.of_sublist (List.eraseP_sublist ..) rfl
  | schedulePeriodic name period action =>
      simp only [perform] at hp
      exact schedulePeriodic_coherent.of_outcome (Option.some.inj hp) h
  | cancelPeriodic handle =>
      simp only [perform] at hp
      cases hp
      exact cancelPeriodic_coherent h handle
  | reset =>
      simp only [perform] at hp
      cases hp
      exact coherent_of_rest rfl rfl rfl
  | restore s =>
      simp only [perform] at hp
      obtain ⟨e, he⟩ | ⟨m₁, he, ht, hs, hr, -⟩ := restore_cases s m <;>
        rw [Op.toRun_apply, he] at hp <;> cases hp
      · exact h
      · exact coherent_of_rest (by rw [ht]; rfl) hs hr
  | run | runToNext => exact absurd trivial hc

/-- **Every move keeps the machine coherent.** -/
theorem Move.coherent {ls ls' : List (Level δ α υ)} {j : Journal δ α υ} (h : m.Coherent)
    (hm : Move handler ls m j ls' m') : m'.Coherent := by
  have popped : ∀ {target : Nat} {e : Event (Task α)} {t : Timeline (Task α)},
      m.timeline.popDue target = some (e, t) → (Host.setTimeline t m).Coherent := fun hp => by
    obtain ⟨hev, -, -, hid⟩ := Timeline.popDue_eq_some_iff.1 hp
    exact h.of_sublist (hev ▸ List.sublist_cons_self ..) hid
  have moved : ∀ {n : Nat} {k : Machine δ α υ}, k.Coherent → (Host.setNow n k).Coherent :=
    fun hk => hk.of_sublist (List.Sublist.refl _) rfl
  cases hm with
  | call hc hp => exact perform_coherent h hc hp
  | began => exact moved h
  | service hp _ ho => exact (serviceChannels_aside.of_outcome ho).coherent (popped hp)
  | resume hp _ ho => exact ((resumeChannel_beside _ _).of_outcome ho).coherent (popped hp)
  | client hp | periodic hp => exact popped hp
  | rearm _ ho => exact armPeriodic_coherent.of_outcome ho h
  | drained _ ht =>
      refine moved (h.congr (congrArg (·.2.timeline) ht.symm) (congrArg (·.2.slots) ht.symm) ?_)
      intro id hi
      rwa [← congrArg (·.2.resumeEvents) ht] at hi
  | idle | next | lapsed | failed | ended | aborted => exact h

theorem Moves.coherent {ls ls' : List (Level δ α υ)} {j : Journal δ α υ} (h : m.Coherent)
    (hm : Moves handler ls m j ls' m') : m'.Coherent :=
  hm.preserves (h := []) (J := fun _ _ m => m.Coherent) (fun h hm => hm.coherent h) h

end Machine

end DmaMachine
