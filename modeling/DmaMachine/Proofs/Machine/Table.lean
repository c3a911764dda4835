import DmaMachine.Proofs.Machine.Changes
import DmaMachine.Proofs.Machine.Wakeup

/-!
# The table of events

Events are kept in firing order and never in greater number than there is room for, and an
identifier is given once: neither a reset nor a restored snapshot brings one back.

What a history has seen of events are those that were pending or fired at some item of its journal
(`shownIn`).

* `Ledger`: the table is in order, and all events that were seen have identifiers of their own that
  were handed out.
* `Move.ledger`: **every move keeps the ledger**, whatever callbacks do.
* `table_stays_sound`: the statement, with what the two calls on the table come to.
-/

namespace DmaMachine

namespace Timeline

/-- The table is in firing order, has room, and holds only events whose identifiers were handed
out. -/
structure Sound {τ : Type} (t : Timeline τ) : Prop where
  ordered : Event.Ordered t.events
  room : t.events.length ≤ capacity
  handedOut : ∀ e ∈ t.events, e.id < t.nextId

end Timeline

namespace Machine

open Journal Timeline

variable {δ α υ β : Type} {m m' : Machine δ α υ} {j k : Journal δ α υ}

/-! ### What an item shows -/

/-- The events that are pending at the item, or taken out there to be fired. -/
def Item.shown : Item δ α υ → List (Event (Task α))
  | .fired e _ m => e :: m.timeline.events
  | .began _ m | .ended _ _ m | .invoked _ _ m => m.timeline.events

/-- The events that were pending or fired in a history. -/
def shownIn (j : Journal δ α υ) : List (Event (Task α)) := j.flatMap Item.shown

/-- The item shows the table of the machine, or a part of it. -/
def Item.Shows (m : Machine δ α υ) (i : Item δ α υ) : Prop :=
  i.machine.timeline.events.Sublist m.timeline.events ∧
    i.machine.timeline.nextId = m.timeline.nextId ∧ ∀ e ∈ i.shown, e ∈ m.timeline.events

theorem Item.shows_of_machine {i : Item δ α υ} (hm : i.machine = m)
    (hs : i.shown = m.timeline.events) : i.Shows m :=
  ⟨hm ▸ List.Sublist.refl _, hm ▸ rfl, fun _ he => hs ▸ he⟩

theorem Item.Shows.sound {i : Item δ α υ} (h : i.Shows m) (hm : m.timeline.Sound) :
    i.machine.timeline.Sound where
  ordered := hm.ordered.sublist h.1
  room := Nat.le_trans h.1.length_le hm.room
  handedOut e he := h.2.1 ▸ hm.handedOut e (h.1.subset he)

/-! ### The ledger -/

/-- The table is in order, all events that were seen have identifiers of their own, and so had the
answers of the calls that made events. -/
structure Ledger (j : Journal δ α υ) (m : Machine δ α υ) : Prop where
  wellFormed : m.timeline.WellFormed
  room : m.timeline.events.length ≤ capacity
  items : ∀ i ∈ j, i.machine.timeline.Sound
  known : ∀ e ∈ shownIn j ++ m.timeline.events, e.id < m.timeline.nextId
  distinct : ∀ d ∈ shownIn j ++ m.timeline.events, ∀ e ∈ shownIn j ++ m.timeline.events,
    d.id = e.id → d = e
  given : (handedIn j).Pairwise (· < ·)
  given_lt : ∀ id ∈ handedIn j, id < m.timeline.nextId

theorem Ledger.sound (h : Ledger j m) : m.timeline.Sound :=
  ⟨h.wellFormed.ordered, h.room, h.wellFormed.handedOut⟩

theorem initial_ledger (board : δ) (memory : υ) :
    Ledger [] (initial board memory : Machine δ α υ) := by
  have hev : (initial board memory : Machine δ α υ).timeline.events = [] := rfl
  have hs : shownIn ([] : Journal δ α υ) = [] := rfl
  have hg : handedIn ([] : Journal δ α υ) = [] := rfl
  refine ⟨(initial_coherent board memory).wellFormed, ?_, by simp, ?_, ?_, ?_, ?_⟩
  · simp [hev]
  · simp [hs, hev]
  · simp [hs, hev]
  · simp [hg]
  · simp [hg]

/-- One more thing happens, and the items of it show the table before or after it. -/
theorem Ledger.next (h : Ledger j m) (ht : Turn m.timeline m'.timeline)
    (hk : ∀ i ∈ k, i.Shows m ∨ i.Shows m')
    (hg : handedIn k = [] ∨
      handedIn k = [m.timeline.nextId] ∧ m'.timeline.nextId = m.timeline.nextId + 1) :
    Ledger (j ++ k) m' := by
  have hw := ht.wellFormed h.wellFormed
  have hr := ht.room h.room
  have hn := ht.nextId_le h.wellFormed
  have hs : m'.timeline.Sound := ⟨hw.ordered, hr, hw.handedOut⟩
  -- An event that is seen now was seen before, or it is pending now and new.
  have seen : ∀ e ∈ shownIn (j ++ k) ++ m'.timeline.events,
      e ∈ shownIn j ++ m.timeline.events ∨ e ∈ m'.timeline.events ∧ m.timeline.nextId ≤ e.id := by
    have after : ∀ e ∈ m'.timeline.events, e ∈ shownIn j ++ m.timeline.events ∨
        e ∈ m'.timeline.events ∧ m.timeline.nextId ≤ e.id := fun e he =>
      (ht.mem h.wellFormed he).imp (List.mem_append_right _) fun hn => ⟨he, hn⟩
    intro e he
    rw [shownIn, List.flatMap_append, List.append_assoc, List.mem_append, List.mem_append] at he
    rcases he with he | he | he
    · exact .inl (List.mem_append_left _ he)
    · obtain ⟨i, hi, he⟩ := List.mem_flatMap.1 he
      rcases hk i hi with hi | hi
      · exact .inl (List.mem_append_right _ (hi.2.2 e he))
      · exact after e (hi.2.2 e he)
    · exact after e he
  refine ⟨hw, hr, fun i hi => ?_, fun e he => ?_, fun d hd e he hid => ?_, ?_, fun id hid => ?_⟩
  · rcases List.mem_append.1 hi with hi | hi
    · exact h.items i hi
    · exact (hk i hi).elim (·.sound h.sound) (·.sound hs)
  · rcases seen e he with he | ⟨he, -⟩
    · exact Nat.lt_of_lt_of_le (h.known e he) hn
    · exact hw.handedOut e he
  · rcases seen d hd with hd | ⟨hd, hnd⟩ <;> rcases seen e he with he | ⟨he, hne⟩
    · exact h.distinct d hd e he hid
    · exact absurd (h.known d hd) (Nat.not_lt_of_le (hid ▸ hne))
    · exact absurd (h.known e he) (Nat.not_lt_of_le (hid ▸ hnd))
    · exact hw.eq_of_id hd he hid
  · rw [handedIn_append]
    rcases hg with hg | ⟨hg, -⟩ <;> rw [hg]
    · simpa using h.given
    · exact List.pairwise_append.2 ⟨h.given, List.pairwise_singleton .., fun a ha b hb =>
        List.mem_singleton.1 hb ▸ h.given_lt a ha⟩
  · rw [handedIn_append] at hid
    rcases List.mem_append.1 hid with hid | hid
    · exact Nat.lt_of_lt_of_le (h.given_lt id hid) hn
    · rcases hg with hg | ⟨hg, hn⟩ <;> rw [hg] at hid
      · cases hid
      · rw [List.mem_singleton.1 hid, hn]
        exact Nat.lt_succ_self _

section Moves

variable [Board δ] {handler : Handler δ α υ} {ls ls' : List (Level δ α υ)}

omit [Board δ] in
/-- An item of an event that is taken out. -/
theorem Item.shows_of_popped {i : Item δ α υ} {target : Nat} {e : Event (Task α)}
    {t : Timeline (Task α)} (hp : m.timeline.popDue target = some (e, t))
    (hi : i.machine = Host.setTimeline t m) (hs : ∀ d ∈ i.shown, d ∈ e :: t.events) :
    i.Shows m := by
  obtain ⟨hev, -, -, hid⟩ := popDue_eq_some_iff.1 hp
  exact ⟨hi ▸ popDue_sublist hp, hi ▸ hid, fun d hd => hev ▸ hs d hd⟩

/-- The items of a move show the table before it or after it. -/
theorem Move.shows (hm : Move handler ls m k ls' m') : ∀ i ∈ k, i.Shows m ∨ i.Shows m' := by
  have now : ∀ {i : Item δ α υ}, i.machine = m → i.shown = m.timeline.events →
      i.Shows m ∨ i.Shows m' := fun hi hs => .inl (Item.shows_of_machine hi hs)
  cases hm with
  | call =>
      simp only [List.mem_cons, List.not_mem_nil, or_false, forall_eq_or_imp, forall_eq]
      exact ⟨now rfl rfl, .inr (Item.shows_of_machine rfl rfl)⟩
  | idle =>
      simp only [List.mem_cons, List.not_mem_nil, or_false, forall_eq_or_imp, forall_eq]
      exact ⟨now rfl rfl, now rfl rfl⟩
  | began | next | ended | aborted =>
      simp only [List.mem_singleton, forall_eq]
      exact now rfl rfl
  | service hp | resume hp =>
      simp only [List.mem_singleton, forall_eq]
      exact .inl (Item.shows_of_popped hp rfl fun _ hd => hd)
  | client hp | periodic hp =>
      simp only [List.mem_cons, List.not_mem_nil, or_false, forall_eq_or_imp, forall_eq]
      exact ⟨.inl (Item.shows_of_popped hp rfl fun _ hd => hd),
        .inl (Item.shows_of_popped hp rfl fun _ hd => .tail _ hd)⟩
  | rearm | lapsed | failed | drained => exact fun _ hi => absurd hi List.not_mem_nil

/-- The answer of a call that made an event is the next identifier. -/
theorem Move.handed (hm : Move handler ls m k ls' m') : handedIn k = [] ∨
    handedIn k = [m.timeline.nextId] ∧ m'.timeline.nextId = m.timeline.nextId + 1 := by
  cases hm with
  | @call _ _ _ _ c r hc hp =>
      have hh : handedIn [.began c m, .ended c r m'] = (Item.ended c r m').handed := by
        simp [handedIn, Item.handed]
      rw [hh]
      cases r with
      | error e => exact .inl rfl
      | ok a =>
          cases c with
          | schedule name delay action =>
              simp only [perform] at hp
              obtain ⟨rfl, rfl⟩ := scheduleTask_eq_ok (Op.toRun_eq_ok.1 hp)
              exact .inr ⟨rfl, rfl⟩
          | _ => exact .inl rfl
  | @ended _ _ c _ hc | @began _ _ c _ hc | @aborted _ _ c _ hc =>
      refine .inl ?_
      cases c <;> first | rfl | exact hc.elim
  | idle | service | resume | client | periodic | next | rearm | lapsed | failed | drained =>
      exact .inl rfl

/-- **Every move keeps the ledger.** -/
theorem Move.ledger (h : Ledger j m) (hm : Move handler ls m k ls' m') : Ledger (j ++ k) m' :=
  h.next hm.turn hm.shows hm.handed

theorem Moves.ledger {board : δ} {memory : υ}
    (hm : Moves handler [] (initial board memory) j ls m) :
    Ledger j m :=
  hm.preserves (h := []) (J := fun _ h m => Ledger h m) (fun h hm => hm.ledger h)
    (initial_ledger board memory)

/-! ### Calls on the table -/

/-- A call to make an event is refused exactly when the table is full, and then nothing has changed;
else it gives the next identifier. -/
def Scheduled (name : String) (delay : Nat) (action : α) (m : Machine δ α υ) (r : Except Fault Nat)
    (m' : Machine δ α υ) : Prop :=
  if m.timeline.events.length = capacity then r = .error (.tableFull capacity) ∧ m' = m
  else r = .ok m.timeline.nextId ∧
    m' = { m with timeline := m.withEvent name delay (.client action) }

/-- A call to take out an event says whether it was pending, and takes out no other. -/
def Descheduled (id : Nat) (m : Machine δ α υ) (r : Except Fault Bool) (m' : Machine δ α υ) :
    Prop :=
  (∃ found, r = .ok found ∧ (found = true ↔ ∃ e ∈ m.timeline.events, e.id = id)) ∧
    m' = { m with timeline := { m.timeline with
      events := m.timeline.events.filter (·.id ≠ id) } }

omit [Board δ] in
theorem scheduleTask_scheduled (hr : m.timeline.events.length ≤ capacity) (name : String)
    (delay : Nat) (action : α) {r : Except Fault Nat}
    (h : Op.outcome (scheduleTask name delay (.client action) m) = (r, m')) :
    Scheduled name delay action m r m' := by
  have ht : Host.timeline m = m.timeline := rfl
  rw [scheduleTask, Host.outcome_onTimeline, ht] at h
  rw [Scheduled]
  split
  · rename_i hf
    rw [schedule_of_full (Nat.le_of_eq hf.symm)] at h
    cases h
    exact ⟨rfl, rfl⟩
  · rename_i hf
    rw [schedule_of_room (Nat.lt_of_le_of_ne hr hf)] at h
    cases h
    exact ⟨rfl, rfl⟩

omit [Board δ] in
theorem deschedule_descheduled (hw : m.timeline.WellFormed) (id : Nat) :
    Descheduled id m (.ok (Host.deschedule id m).1) (Host.deschedule id m).2 := by
  refine ⟨⟨_, rfl, isScheduled_iff⟩, ?_⟩
  have he : m.timeline.events.eraseP (·.id == id) = m.timeline.events.filter (·.id ≠ id) := by
    refine (eraseP_eq_filter ?_).trans (List.filter_congr fun e _ => ?_)
    · refine (List.pairwise_map.1 hw.distinct).imp fun {d e} hne hd => ?_
      exact beq_eq_false_iff_ne.2 fun he => hne ((eq_of_beq hd).trans he.symm)
    · rw [Bool.eq_iff_iff]
      simp
  show { m with timeline := (m.timeline.deschedule id).2 } = _
  rw [Timeline.deschedule, he]

/-! ### The statement -/

/-- **The table of events stays sound**, in every history from power-on and whatever its callbacks
do: between any two happenings it is in firing order, within its room, and below the next
identifier.  No identifier is given twice, neither to a client nor to two events, not even across
resets and restored snapshots.  A call to take out an event, or to make one, comes to what is said
above. -/
theorem table_stays_sound {bound : Nat} {x : Script (interface δ α υ) β} {board : δ} {memory : υ}
    {r : Except Fault β}
    (hx : x.exec (perform handler bound) (initial board memory) = some (r, m)) :
    ((∀ i ∈ chronicle handler bound x (initial board memory), i.machine.timeline.Sound) ∧
        m.timeline.Sound) ∧
      ((handedIn (chronicle handler bound x (initial board memory))).Pairwise (· < ·) ∧
        ∀ d ∈ shownIn (chronicle handler bound x (initial board memory)),
          ∀ e ∈ shownIn (chronicle handler bound x (initial board memory)), d.id = e.id → d = e) ∧
      (∀ k id answer m₁ l, chronicle handler bound x (initial board memory) =
          k ++ .ended (.deschedule id) answer m₁ :: l →
        ∃ k₀ m₀, k = k₀ ++ [.began (.deschedule id) m₀] ∧ Descheduled id m₀ answer m₁) ∧
      ∀ k name delay action answer m₁ l, chronicle handler bound x (initial board memory) =
          k ++ .ended (.schedule name delay action) answer m₁ :: l →
        ∃ k₀ m₀, k = k₀ ++ [.began (.schedule name delay action) m₀] ∧
          Scheduled name delay action m₀ answer m₁ := by
  have hm := exec_moves bound x [] _ r m hx
  have h := hm.ledger
  refine ⟨⟨h.items, h.sound⟩, ⟨h.given, fun d hd e he => ?_⟩, ?_, ?_⟩
  · exact h.distinct d (List.mem_append_left _ hd) e (List.mem_append_left _ he)
  · intro k id answer m₁ l hj
    obtain ⟨k₀, ls, m₀, before, after, ls', m₂, l₂, h₀, hc, -, rfl, -⟩ := hm.split hj
    obtain ⟨rfl, -, rfl, -, bound', hp⟩ := hc.of_ended not_false
    simp only [perform] at hp
    cases hp
    exact ⟨k₀, m₀, rfl, deschedule_descheduled h₀.ledger.wellFormed id⟩
  · intro k name delay action answer m₁ l hj
    obtain ⟨k₀, ls, m₀, before, after, ls', m₂, l₂, h₀, hc, -, rfl, -⟩ := hm.split hj
    obtain ⟨rfl, -, rfl, -, bound', hp⟩ := hc.of_ended not_false
    simp only [perform] at hp
    exact ⟨k₀, m₀, rfl,
      scheduleTask_scheduled h₀.ledger.room name delay action (Option.some.inj hp)⟩

end Moves

/-! The callback of the first event resets the machine and makes a second one, whose callback fails;
then the first one's identifier is taken out. -/

/-- Makes an event, runs, takes the event's identifier out, and answers whether it was pending. -/
def resetScript : Script (interface BareBoard Bool Unit) Bool := do
  let first ← Script.call (I := interface BareBoard Bool Unit) (.schedule "first" 5 true)
  let _ ← Script.attempt (I := interface BareBoard Bool Unit) (.run 10)
  Script.call (I := interface BareBoard Bool Unit) (.deschedule first)

def resetHandler : Handler BareBoard Bool Unit
  | true, _ => do
      Script.call (I := interface BareBoard Bool Unit) .reset
      let _ ← Script.call (I := interface BareBoard Bool Unit) (.schedule "second" 3 false)
      let _ ← Script.call (I := interface BareBoard Bool Unit) (.schedule "third" 30 false)
      return ()
  | false, _ => .fail (.settings .malformed)

/-- The identifiers go on after the reset, and the first one is not pending any more. -/
theorem reset_table_stays_sound : ∃ m,
    resetScript.exec (perform resetHandler 4) (initial ⟨⟩ ()) = some (.ok false, m) ∧
      m.timeline.Sound ∧
      handedIn (chronicle resetHandler 4 resetScript (initial ⟨⟩ ())) = [0, 1, 2] ∧
      (handedIn (chronicle resetHandler 4 resetScript (initial ⟨⟩ ()))).Pairwise (· < ·) := by
  have hr : (resetScript.exec (perform resetHandler 4) (initial ⟨⟩ ())).any
      (fun r => match r.1 with | .ok b => !b | .error _ => false) = true := by
    decide +kernel
  have hh : handedIn (chronicle resetHandler 4 resetScript (initial ⟨⟩ ())) = [0, 1, 2] := by
    decide +kernel
  obtain ⟨⟨r, m⟩, hx, hm⟩ := (Option.any_eq_true _ _).1 hr
  cases r with
  | error e => cases hm
  | ok b =>
      obtain rfl : b = false := by simpa using hm
      obtain ⟨⟨-, hs⟩, ⟨hg, -⟩, -⟩ := table_stays_sound hx
      exact ⟨m, hx, hs, hh, hg⟩

end Machine

end DmaMachine
