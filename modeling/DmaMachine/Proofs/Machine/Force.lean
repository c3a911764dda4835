import DmaMachine.Proofs.Machine.Callbacks
import DmaMachine.Proofs.Machine.Registry

/-!
# Registrations in force

A registration is in force from the call that made it until it is cancelled, or until a reset or a
restored snapshot drops it.  What a client can tell from the journal (`inForce`) and what the
machine's slots say are the same, as far as handles go; and as long as no handle is given twice, a
handle tells whose event and whose callback it is.

* `Owned`: every pending event of a registration, and every registration being called, is of one
  that was made; the pending ones are in force, and no registration has two.
* `Owned.cancel`: **a cancellation that answers true ends the one registration with the handle**,
  and takes out its event and no other.
* `Move.owned`: **every move keeps a machine owned** while no handle is given twice.
-/

namespace DmaMachine

/-- The handle of a registration's task. -/
def Task.handle? {α : Type} : Task α → Option PeriodicHandle
  | .periodic h .. => some h
  | _ => none

namespace Machine

variable {δ α υ : Type} {m m' : Machine δ α υ}

/-! ### Registrations of a history -/

/-- The registration that the item made. -/
def Item.made? : Item δ α υ → Option (Registration α)
  | .ended (.schedulePeriodic name period action) (.ok h) _ => some ⟨h, name, period, action⟩
  | _ => none

/-- The registrations that a history made, in order. -/
def registrations (j : Journal δ α υ) : List (Registration α) := j.filterMap Item.made?

/-- Whether the item drops all registrations: a reset, or a snapshot restored. -/
def Item.clears : Item δ α υ → Bool
  | .ended .reset _ _ | .ended (.restore _) (.ok _) _ => true
  | _ => false

/-- The registrations in force after one more item. -/
def Item.force (gs : List (Registration α)) : Item δ α υ → List (Registration α)
  | .ended (.schedulePeriodic name period action) (.ok h) _ => ⟨h, name, period, action⟩ :: gs
  | .ended (.cancelPeriodic h) (.ok true) _ => gs.filter (·.handle ≠ h)
  | .ended .reset _ _ | .ended (.restore _) (.ok _) _ => []
  | _ => gs

/-- The registrations in force after a history. -/
def inForce (j : Journal δ α υ) : List (Registration α) := j.foldl Item.force []

theorem registrations_append (j k : Journal δ α υ) :
    registrations (j ++ k) = registrations j ++ registrations k := List.filterMap_append

theorem inForce_append (j k : Journal δ α υ) :
    inForce (j ++ k) = k.foldl Item.force (inForce j) := List.foldl_append

theorem registrations_call (c : Call δ α υ) (r : Except Fault c.Answer) (m m' : Machine δ α υ) :
    registrations [.began c m, .ended c r m'] = (Item.ended c r m').made?.toList := by
  show [Item.ended c r m'].filterMap Item.made? = _
  cases h : (Item.ended c r m').made? with
  | none => exact List.filterMap_cons_none h
  | some g => exact List.filterMap_cons_some h

/-- Registrations with distinct handles are told apart by them. -/
theorem Registration.eq_of_handle {rs : List (Registration α)}
    (h : (rs.map Registration.handle).Nodup) {g g' : Registration α} (hg : g ∈ rs) (hg' : g' ∈ rs)
    (he : g.handle = g'.handle) : g = g' := List.inj_on_of_nodup_map h hg hg' he

theorem Registration.task_inj {g g' : Registration α} (h : g.task = g'.task) : g = g' := by
  cases g
  cases g'
  obtain ⟨rfl, rfl, rfl, rfl⟩ := Task.periodic.inj h
  rfl

/-! ### Owners -/

/-- The registrations that the runs under way are catching up with, as their tasks. -/
def busy (ls : List (Level δ α υ)) : List (Task α) := ls.filterMap (·.doing.task?)

theorem busy_sublist (l : Level δ α υ) (ls : List (Level δ α υ)) :
    (busy ls).Sublist (busy (l :: ls)) := (List.sublist_cons_self l ls).filterMap _

/-- Whose the slots, the pending events and the calls under way are, given the registrations in
force and all that were made. -/
structure Owned (gs rs : List (Registration α)) (ls : List (Level δ α υ)) (m : Machine δ α υ) :
    Prop where
  coherent : m.Coherent
  registered : ∀ h, m.isRegistered h = true ↔ ∃ g ∈ gs, g.handle = h
  made : ∀ g ∈ gs, g ∈ rs
  pending : ∀ e ∈ m.periodicEvents, ∃ g ∈ gs, e.task = g.task ∧
    m.slots[g.handle.slot]? = some ⟨g.handle.generation, some e.id⟩
  calling : ∀ t ∈ busy ls, ∃ g ∈ rs, t = g.task
  /-- No registration is being called twice, or being called with an event pending. -/
  apart : (busy ls ++ m.periodicEvents.map (·.task)).Nodup

/-- The registration with the handle is ended, and no other. -/
structure Stops (h : PeriodicHandle) (m m' : Machine δ α υ) : Prop where
  ended : m'.isRegistered h = false
  others : ∀ k, k ≠ h → m'.isRegistered k = m.isRegistered k
  events : m'.timeline.events = m.timeline.events.filter (·.task.handle? ≠ some h)

variable {gs rs : List (Registration α)} {ls ls' : List (Level δ α υ)}

theorem initial_owned (board : δ) (memory : υ) :
    Owned [] [] [] (initial board memory : Machine δ α υ) where
  coherent := initial_coherent board memory
  registered _ := by simp [isRegistered, initial]
  made := nofun
  pending := nofun
  calling := nofun
  apart := List.nodup_nil

/-- Only slots and the pending events of registrations matter. -/
theorem Owned.congr (h : Owned gs rs ls m) (hc : m'.Coherent) (hs : m'.slots = m.slots)
    (he : m'.periodicEvents = m.periodicEvents) : Owned gs rs ls m' where
  coherent := hc
  registered k := by rw [isRegistered_congr hs, h.registered]
  made := h.made
  pending := by
    rw [he, hs]
    exact h.pending
  calling := h.calling
  apart := he ▸ h.apart

theorem Owned.aside (h : Owned gs rs ls m) (ha : Aside m m') : Owned gs rs ls m' :=
  h.congr (ha.coherent h.coherent) ha.slots (ha.periodicEvents h.coherent)

/-- Runs end, or are at something else. -/
theorem Owned.levels (h : Owned gs rs ls m) (hs : (busy ls').Sublist (busy ls)) :
    Owned gs rs ls' m where
  coherent := h.coherent
  registered := h.registered
  made := h.made
  pending := h.pending
  calling t ht := h.calling t (hs.subset ht)
  apart := h.apart.sublist (hs.append (List.Sublist.refl _))

/-- Some events are taken out. -/
theorem Owned.deschedule (h : Owned gs rs ls m) (id : Nat) :
    Owned gs rs ls (Host.deschedule id m).2 := by
  have hsub : (Host.deschedule id m).2.periodicEvents.Sublist m.periodicEvents :=
    (List.eraseP_sublist ..).filter _
  exact {
    coherent := h.coherent.of_sublist (List.eraseP_sublist ..) rfl
    registered := h.registered
    made := h.made
    pending := fun e he => h.pending e (hsub.subset he)
    calling := h.calling
    apart := h.apart.sublist ((List.Sublist.refl _).append (hsub.map _)) }

/-- All registrations are dropped; those being called still are. -/
theorem Owned.clear (h : Owned gs rs ls m) (hc : m'.Coherent) (hev : m'.timeline.events = [])
    (hs : m'.slots = #[]) : Owned [] rs ls m' := by
  have hp : m'.periodicEvents = [] := by rw [periodicEvents, hev, List.filter_nil]
  refine ⟨hc, fun k => ?_, fun g hg => absurd hg List.not_mem_nil, fun e he => ?_, h.calling, ?_⟩
  · rw [isRegistered, hs]
    simp
  · rw [hp] at he
    exact absurd he List.not_mem_nil
  · rw [hp]
    exact h.apart.sublist ((List.Sublist.refl _).append (List.nil_sublist _))

/-- In force means registered. -/
theorem Owned.registered_of_mem (h : Owned gs rs ls m) {g : Registration α} (hg : g ∈ gs) :
    m.isRegistered g.handle = true := (h.registered _).2 ⟨g, hg, rfl⟩

/-- A slot is claimed, but no event could be made. -/
theorem Owned.refuse (h : Owned gs rs ls m) {slots : Array PeriodicSlot} {generation : UInt32}
    (hs : ∀ i, slots[i]? = if i = m.freeSlot then some ⟨generation, none⟩ else m.slots[i]?)
    (hc : Coherent { m with slots }) : Owned gs rs ls { m with slots } := by
  have same : ∀ {k : PeriodicHandle}, m.isRegistered k = true →
      slots[k.slot]? = m.slots[k.slot]? := fun hk => by rw [hs, if_neg (freeSlot_ne hk)]
  refine ⟨hc, fun k => ?_, h.made, fun e he => ?_, h.calling, h.apart⟩
  · rw [← h.registered]
    refine ⟨fun hk => ?_, fun hk => (isRegistered_of_slot (same hk)).trans hk⟩
    obtain ⟨id, hid⟩ := isRegistered_iff.1 hk
    replace hid : slots[k.slot]? = _ := hid
    rw [hs] at hid
    split at hid
    · cases hid
    · exact isRegistered_iff.2 ⟨id, hid⟩
  · obtain ⟨g, hg, ht, hsl⟩ := h.pending e he
    exact ⟨g, hg, ht, (same (h.registered_of_mem hg)).trans hsl⟩

/-- An event is made for a registration in force, or one that is in force from now on, and its slot
remembers the event; no other event of it is pending, and no run is calling it any more. -/
theorem Owned.arm (h : Owned gs rs ls m) {g : Registration α} {delay : Nat}
    {slots : Array PeriodicSlot} {gs' rs' : List (Registration α)}
    (hc : Coherent { m with timeline := m.withEvent g.name delay g.task, slots })
    (hown : slots[g.handle.slot]? = some ⟨g.handle.generation, some m.timeline.nextId⟩)
    (hsame : ∀ i, i ≠ g.handle.slot → slots[i]? = m.slots[i]?)
    (hgs : ∀ g', g' ∈ gs' ↔ g' = g ∨ g' ∈ gs) (hrs : ∀ g' ∈ rs, g' ∈ rs') (hg : g ∈ rs')
    (hslot : ∀ g' ∈ gs, g' ≠ g → g'.handle.slot ≠ g.handle.slot)
    (hls : (busy ls').Sublist (busy ls)) (hb : g.task ∉ busy ls')
    (hp : ∀ e ∈ m.periodicEvents, e.task ≠ g.task) :
    Owned gs' rs' ls' { m with timeline := m.withEvent g.name delay g.task, slots } := by
  have perm : (periodicEvents
      { m with timeline := m.withEvent g.name delay g.task, slots }).Perm
        (⟨m.timeline.nextId, g.name, m.timeline.now,
          Timeline.wrap (m.timeline.now + delay), g.task⟩ :: m.periodicEvents) :=
    (Event.perm_insert ..).filter _
  refine ⟨hc, fun k => ⟨fun hk => ?_, ?_⟩, fun g' hg' => ?_, fun e he => ?_, fun t ht => ?_, ?_⟩
  · obtain ⟨id, hid⟩ := isRegistered_iff.1 hk
    replace hid : slots[k.slot]? = _ := hid
    by_cases hks : k.slot = g.handle.slot
    · rw [hks, hown] at hid
      exact ⟨g, (hgs g).2 (.inl rfl),
        handle_eq hks.symm (PeriodicSlot.mk.inj (Option.some.inj hid)).1⟩
    · rw [hsame _ hks] at hid
      obtain ⟨g', hg', rfl⟩ := (h.registered k).1 (isRegistered_iff.2 ⟨id, hid⟩)
      exact ⟨g', (hgs g').2 (.inr hg'), rfl⟩
  · rintro ⟨g', hg', rfl⟩
    by_cases heq : g' = g
    · exact isRegistered_iff.2 ⟨_, heq ▸ hown⟩
    · have hg' := ((hgs g').1 hg').resolve_left heq
      exact (isRegistered_of_slot (hsame _ (hslot g' hg' heq))).trans (h.registered_of_mem hg')
  · rcases (hgs g').1 hg' with rfl | hg'
    · exact hg
    · exact hrs g' (h.made g' hg')
  · rcases List.mem_cons.1 (perm.mem_iff.1 he) with rfl | he
    · exact ⟨g, (hgs g).2 (.inl rfl), rfl, hown⟩
    · obtain ⟨g', hg', ht, hsl⟩ := h.pending e he
      have hne : g' ≠ g := fun heq => hp e he (heq ▸ ht)
      exact ⟨g', (hgs g').2 (.inr hg'), ht, (hsame _ (hslot g' hg' hne)).trans hsl⟩
  · obtain ⟨g', hg', ht⟩ := h.calling t (hls.subset ht)
    exact ⟨g', hrs g' hg', ht⟩
  · refine (((perm.map _).append_left _).trans List.perm_middle).nodup_iff.2 ?_
    refine List.nodup_cons.2 ⟨fun hm => ?_, h.apart.sublist (hls.append (List.Sublist.refl _))⟩
    rcases List.mem_append.1 hm with hm | hm
    · exact hb hm
    · obtain ⟨e, he, ht⟩ := List.mem_map.1 hm
      exact hp e he ht

/-- A registration is made, with a handle that was not given before. -/
theorem Owned.register (h : Owned gs rs ls m) {g : Registration α} {slots : Array PeriodicSlot}
    (hg : g.handle = m.nextHandle) (hn : ∀ g' ∈ rs, g'.handle ≠ g.handle)
    (hs : ∀ i, slots[i]? = if i = m.freeSlot then
        some ⟨m.nextHandle.generation, some m.timeline.nextId⟩ else m.slots[i]?)
    (hc : Coherent { m with timeline := m.withEvent g.name g.period g.task, slots }) :
    Owned (g :: gs) (rs ++ [g]) ls
      { m with timeline := m.withEvent g.name g.period g.task, slots } := by
  have hslot : g.handle.slot = m.freeSlot := congrArg PeriodicHandle.slot hg
  have fresh : ∀ g' ∈ rs, g.task ≠ g'.task := fun g' hg' ht =>
    hn g' hg' (congrArg _ (Registration.task_inj ht).symm)
  refine h.arm hc ?_ (fun i hi => ?_) (fun _ => List.mem_cons)
    (fun g' hg' => List.mem_append_left _ hg') (List.mem_append_right _ (.head _))
    (fun g' hg' _ => hslot ▸ freeSlot_ne (h.registered_of_mem hg')) (List.Sublist.refl _)
    (fun hb => ?_) fun e he ht => ?_
  · rw [hs, if_pos hslot, hg]
  · rw [hs, if_neg (hslot ▸ hi)]
  · obtain ⟨g', hg', ht⟩ := h.calling _ hb
    exact fresh g' hg' ht
  · obtain ⟨g', hg', ht', -⟩ := h.pending e he
    exact fresh g' (h.made g' hg') (ht.symm.trans ht')

/-- A registration whose event is taken out to be fired is in force. -/
theorem Owned.popped {target : Nat} {e : Event (Task α)} {t : Timeline (Task α)}
    {g : Registration α} (h : Owned gs rs ls m)
    (hp : m.timeline.popDue target = some (e, t)) (he : e.task = g.task) :
    g ∈ gs ∧ m.periodicEvents = e :: (Host.setTimeline t m).periodicEvents := by
  have hps : m.periodicEvents = e :: (Host.setTimeline t m).periodicEvents := by
    rw [periodicEvents, (Timeline.popDue_eq_some_iff.1 hp).1]
    exact List.filter_cons_of_pos (by rw [he]; rfl)
  obtain ⟨g', hg', ht, -⟩ := h.pending e (hps ▸ .head _)
  obtain rfl := Registration.task_inj (he.symm.trans ht)
  exact ⟨hg', hps⟩

/-- An event of a registration is taken out to be fired. -/
theorem Owned.pop {c : Call δ α υ} {target left late : Nat} {e : Event (Task α)}
    {t : Timeline (Task α)} {g : Registration α} (h : Owned gs rs (⟨c, target, .firing⟩ :: ls) m)
    (hp : m.timeline.popDue target = some (e, t)) (he : e.task = g.task) :
    Owned gs rs (⟨c, target, .catching g.handle g.name g.period g.action left late⟩ :: ls)
      (Host.setTimeline t m) := by
  obtain ⟨hev, -, -, hid⟩ := Timeline.popDue_eq_some_iff.1 hp
  obtain ⟨hg, hps⟩ := h.popped hp he
  refine ⟨h.coherent.of_sublist (hev ▸ List.sublist_cons_self ..) hid, h.registered, h.made,
    fun d hd => h.pending d (hps ▸ .tail _ hd), fun t ht => ?_, ?_⟩
  · rcases List.mem_cons.1 ht with rfl | ht
    · exact ⟨g, h.made g hg, rfl⟩
    · exact h.calling t ht
  · have ha := h.apart
    rw [hps, List.map_cons, he] at ha
    exact List.perm_middle.nodup_iff.1 ha

/-- Taking out all elements of which there is but one. -/
theorem eraseP_eq_filter {σ : Type} {q : σ → Bool} {xs : List σ}
    (h : xs.Pairwise fun x y => q x = true → q y = false) :
    xs.eraseP q = xs.filter (!q ·) := by
  induction xs with
  | nil => rfl
  | cons x xs ih =>
      obtain ⟨hx, hxs⟩ := List.pairwise_cons.1 h
      rw [List.eraseP_cons]
      cases hq : q x with
      | true =>
          have hf : xs.filter (!q ·) = xs := List.filter_eq_self.2 fun y hy => by simp [hx y hy hq]
          simp [hq, hf]
      | false => simp [hq, ih hxs]

/-- The event that a slot remembers is the only one of a registration with the handle. -/
theorem Owned.event_iff (h : Owned gs rs ls m) {k : PeriodicHandle} {id : Nat}
    (hid : m.slots[k.slot]? = some ⟨k.generation, some id⟩) {e : Event (Task α)}
    (he : e ∈ m.timeline.events) : e.id = id ↔ e.task.handle? = some k := by
  have owner : e.task.isPeriodic = true → ∃ g ∈ gs, e.task = g.task ∧
      m.slots[g.handle.slot]? = some ⟨g.handle.generation, some e.id⟩ := fun hp =>
    h.pending e (mem_periodicEvents.2 ⟨he, hp⟩)
  constructor
  · rintro rfl
    obtain ⟨k', name, period, action, ht, hsl⟩ := h.coherent.slot_task e he k.slot _ hid rfl
    obtain ⟨g, hg, htg, -⟩ := owner (by rw [ht]; rfl)
    have hgk : g.handle = k' := (Task.periodic.inj (ht.symm.trans htg)).1.symm
    have hgk' : g.handle = k :=
      eq_of_slot (h.registered_of_mem hg) (isRegistered_iff.2 ⟨_, hid⟩) (hgk ▸ hsl)
    rw [htg, ← hgk']
    rfl
  · intro hh
    have hper : e.task.isPeriodic = true := by
      cases ht : e.task <;> rw [ht] at hh <;> first | rfl | cases hh
    obtain ⟨g, -, htg, hgs⟩ := owner hper
    obtain rfl : g.handle = k := by
      rw [htg] at hh
      exact Option.some.inj hh
    rw [hid] at hgs
    exact (Option.some.inj (PeriodicSlot.mk.inj (Option.some.inj hgs)).2).symm

/-- To take out the event that a slot remembers is to take out all events with the handle. -/
theorem Owned.events_deschedule (h : Owned gs rs ls m) {k : PeriodicHandle} {id : Nat}
    (hid : m.slots[k.slot]? = some ⟨k.generation, some id⟩) :
    (m.timeline.deschedule id).2.events =
      m.timeline.events.filter (·.task.handle? ≠ some k) := by
  refine (eraseP_eq_filter ?_).trans (List.filter_congr fun e he => ?_)
  · refine (List.pairwise_map.1 h.coherent.wellFormed.distinct).imp fun {d e} hne hd => ?_
    exact beq_eq_false_iff_ne.2 fun he => hne ((eq_of_beq hd).trans he.symm)
  · rw [Bool.eq_iff_iff]
    simp [← h.event_iff hid he]

/-- **A cancellation ends the one registration with the handle**, and takes out its event and no
other; or no registration in force has the handle, and nothing happens. -/
theorem Owned.cancel (h : Owned gs rs ls m) (k : PeriodicHandle) :
    ((∃ g ∈ gs, g.handle = k) ∧ (m.cancelPeriodic k).1 = true ∧ Stops k m (m.cancelPeriodic k).2 ∧
        Owned (gs.filter (·.handle ≠ k)) rs ls (m.cancelPeriodic k).2) ∨
      (¬∃ g ∈ gs, g.handle = k) ∧ m.cancelPeriodic k = (false, m) := by
  obtain ⟨hr, he⟩ | ⟨id, slots, hid, he, hs⟩ := cancelPeriodic_cases k m
  · refine .inr ⟨fun hg => ?_, he⟩
    rw [(h.registered k).2 hg] at hr
    cases hr
  have hk : m.isRegistered k = true := isRegistered_iff.2 ⟨id, hid⟩
  have hco := cancelPeriodic_coherent h.coherent k
  rw [he] at hco ⊢
  have freed : ∀ {k'}, isRegistered { m with timeline := (m.timeline.deschedule id).2, slots } k' =
      true ↔ m.isRegistered k' = true ∧ k' ≠ k := isRegistered_freed hk hs
  have events := h.events_deschedule hid
  have hsub : (m.timeline.deschedule id).2.events.Sublist m.timeline.events :=
    List.eraseP_sublist ..
  have stops : Stops k m { m with timeline := (m.timeline.deschedule id).2, slots } := by
    refine ⟨Bool.eq_false_iff.2 fun hr => (freed.1 hr).2 rfl, fun k' hne => ?_, events⟩
    rw [Bool.eq_iff_iff, freed]
    exact and_iff_left hne
  refine .inl ⟨(h.registered k).1 hk, rfl, stops, hco, fun k' => ?_,
    fun g hg => h.made g (List.mem_of_mem_filter hg), fun e he => ?_, h.calling,
    h.apart.sublist ((List.Sublist.refl _).append ((hsub.filter _).map _))⟩
  · rw [freed, h.registered]
    simp only [List.mem_filter, decide_eq_true_eq]
    constructor
    · rintro ⟨⟨g, hg, rfl⟩, hne⟩
      exact ⟨g, ⟨hg, hne⟩, rfl⟩
    · rintro ⟨g, ⟨hg, hne⟩, rfl⟩
      exact ⟨⟨g, hg, rfl⟩, hne⟩
  · obtain ⟨hev, hper⟩ := mem_periodicEvents.1 he
    obtain ⟨g, hg, ht, hsl⟩ := h.pending e (mem_periodicEvents.2 ⟨hsub.subset hev, hper⟩)
    have hne : g.handle ≠ k := fun heq => by
      have hk := events ▸ hev
      rw [List.mem_filter, ht, ← heq] at hk
      simp [Task.handle?, Registration.task] at hk
    refine ⟨g, List.mem_filter.2 ⟨hg, decide_eq_true hne⟩, ht, ?_⟩
    rw [hs, if_neg fun heq => hne (eq_of_slot (h.registered_of_mem hg) hk heq)]
    exact hsl

section Distinct

variable (hn : (rs.map Registration.handle).Nodup)
include hn

/-- A registration whose handle is in force is itself in force. -/
theorem Owned.of_isRegistered (h : Owned gs rs ls m) {g : Registration α} (hg : g ∈ rs)
    (hr : m.isRegistered g.handle = true) : g ∈ gs := by
  obtain ⟨g', hg', he⟩ := (h.registered _).1 hr
  exact Registration.eq_of_handle hn (h.made g' hg') hg he ▸ hg'

/-- Two registrations in force in one slot are the same. -/
theorem Owned.eq_of_slot (h : Owned gs rs ls m) {g g' : Registration α} (hg : g ∈ gs)
    (hg' : g' ∈ gs) (he : g.handle.slot = g'.handle.slot) : g = g' :=
  Registration.eq_of_handle hn (h.made g hg) (h.made g' hg')
    (Machine.eq_of_slot (h.registered_of_mem hg) (h.registered_of_mem hg') he)

/-- A run that is done calling a registration still in force has its next event made. -/
theorem Owned.rearm {c : Call δ α υ} {target left late delay : Nat} {g : Registration α}
    {r : Except Fault Unit}
    (h : Owned gs rs
      (⟨c, target, .catching g.handle g.name g.period g.action left late⟩ :: ls) m)
    (hr : m.isRegistered g.handle = true)
    (ho : Op.outcome (armPeriodic g.handle g.name delay g.period g.action m) = (r, m')) :
    Owned gs rs (⟨c, target, .after r⟩ :: ls) m' := by
  have hg : g ∈ rs := by
    obtain ⟨g', hg', ht⟩ := h.calling g.task (.head _)
    exact Registration.task_inj ht ▸ hg'
  have hf := h.of_isRegistered hn hg hr
  obtain ⟨hcalled, -⟩ := List.nodup_cons.1 h.apart
  have hsub : (busy (⟨c, target, .after r⟩ :: ls)).Sublist
      (busy (⟨c, target, .catching g.handle g.name g.period g.action left late⟩ :: ls)) := by
    cases r <;> exact List.sublist_cons_self ..
  have hco := armPeriodic_coherent.of_outcome ho h.coherent
  obtain ⟨e, he⟩ | ⟨slots, he, hs⟩ :=
    armPeriodic_cases g.handle g.name delay g.period g.action m <;> rw [he] at ho <;> cases ho
  · exact h.levels hsub
  · refine h.arm hco ?_ (fun i hi => (hs i).trans (if_neg hi)) (fun g' => ?_) (fun _ hg' => hg') hg
      (fun g' hg' hne heq => hne (h.eq_of_slot hn hg' hf heq)) hsub
      (fun hb => hcalled (List.mem_append_left _ hb)) fun e he ht => hcalled ?_
    · obtain ⟨id, hid⟩ := isRegistered_iff.1 hr
      rw [hs, if_pos rfl, hid]
      simp
    · exact ⟨.inr, fun hg' => hg'.elim (fun heq => heq ▸ hf) id⟩
    · exact List.mem_append_right _ (List.mem_map.2 ⟨e, he, ht⟩)

end Distinct

/-! ### Moves -/

variable [Board δ] {handler : Handler δ α υ}

/-- A call that fires nothing. -/
theorem Owned.perform {bound : Nat} {c : Call δ α υ} {r : Except Fault c.Answer}
    (h : Owned gs rs ls m) (hc : ¬c.Fires) (hp : perform handler bound c m = some (r, m'))
    (hn : ((rs ++ (Item.ended c r m').made?.toList).map Registration.handle).Nodup) :
    Owned ((Item.ended c r m').force gs) (rs ++ (Item.ended c r m').made?.toList) ls m' := by
  have hco := perform_coherent h.coherent hc hp
  cases c with
  | read | write | writeMasked | request | takeEdge | schedule | capture | observe =>
      have ha := (perform_beside (by exact trivial) hp).toAside
      exact (List.append_nil rs).symm ▸ h.aside ha
  | bus => exact (List.append_nil rs).symm ▸ h.aside (perform_bus_aside hp)
  | run | runToNext => exact absurd trivial hc
  | deschedule id =>
      simp only [Machine.perform] at hp
      cases hp
      exact (List.append_nil rs).symm ▸ h.deschedule id
  | reset =>
      simp only [Machine.perform] at hp
      cases hp
      exact (List.append_nil rs).symm ▸ h.clear hco rfl rfl
  | restore s =>
      simp only [Machine.perform] at hp
      obtain ⟨e, he⟩ | ⟨m₁, he, ht, hs, -⟩ := restore_cases s m <;>
        rw [Op.toRun_apply, he] at hp <;> cases hp
      · exact (List.append_nil rs).symm ▸ h
      · exact (List.append_nil rs).symm ▸ h.clear hco (by rw [ht]; rfl) hs
  | cancelPeriodic k =>
      simp only [Machine.perform] at hp
      obtain ⟨-, hk, -, ho⟩ | ⟨-, hk⟩ := h.cancel k
      · rw [show m.cancelPeriodic k = (true, (m.cancelPeriodic k).2) from
          Prod.ext hk rfl] at hp
        cases hp
        exact (List.append_nil rs).symm ▸ ho
      · rw [hk] at hp
        cases hp
        exact (List.append_nil rs).symm ▸ h
  | schedulePeriodic name period action =>
      simp only [Machine.perform] at hp
      obtain ⟨-, e, he⟩ | ⟨-, slots, ⟨⟨e, he⟩, hs⟩ | ⟨he, hs⟩⟩ :=
        schedulePeriodic_cases name period action m <;> rw [Op.toRun_apply, he] at hp <;> cases hp
      · exact (List.append_nil rs).symm ▸ h
      · exact (List.append_nil rs).symm ▸ h.refuse hs hco
      · refine h.register (g := ⟨m.nextHandle, name, period, action⟩) rfl (fun g hg he => ?_) hs hco
        rw [List.map_append, List.nodup_append] at hn
        exact hn.2.2 _ (List.mem_map_of_mem hg) _ (List.mem_singleton_self _) he

/-- **Every move keeps a machine owned** while no handle is given twice. -/
theorem Move.owned {j k : Journal δ α υ} (h : Owned (inForce j) (registrations j) ls m)
    (hm : Move handler ls m k ls' m')
    (hn : ((registrations (j ++ k)).map Registration.handle).Nodup) :
    Owned (inForce (j ++ k)) (registrations (j ++ k)) ls' m' := by
  rw [registrations_append] at hn ⊢
  rw [inForce_append]
  have silent : k.foldl Item.force (inForce j) = inForce j → registrations k = [] →
      Owned (inForce j) (registrations j) ls' m' →
      Owned (k.foldl Item.force (inForce j)) (registrations j ++ registrations k) ls' m' :=
    fun hf hr ho => by rwa [hf, hr, List.append_nil]
  have hco := hm.coherent h.coherent
  cases hm with
  | call hc hp => exact h.perform hc hp hn
  | idle => exact silent rfl rfl h
  | began => exact silent rfl rfl ((h.congr hco rfl rfl).levels (List.Sublist.refl _))
  | @service _ _ _ c _ _ _ r hp he ho =>
      have hs := h.aside (service_aside hp he ho)
      exact silent rfl rfl (hs.levels (by cases r <;> exact List.Sublist.refl _))
  | @resume _ _ _ c _ _ _ _ _ r hp he ho =>
      have hs := h.aside (resume_aside hp he ho)
      exact silent rfl rfl (hs.levels (by cases r <;> exact List.Sublist.refl _))
  | client hp he => exact silent rfl rfl (h.aside (popDue_aside hp (by rw [he]; rfl)))
  | @periodic _ _ _ _ _ _ handle name period action hp he =>
      exact silent rfl rfl (h.pop (g := ⟨handle, name, period, action⟩) hp he)
  | next => exact silent rfl rfl (h.levels (List.Sublist.refl _))
  | @rearm _ _ _ _ _ handle name period action late r hr ho =>
      rw [show registrations ([] : Journal δ α υ) = [] from rfl, List.append_nil] at hn
      exact silent rfl rfl (h.rearm hn (g := ⟨handle, name, period, action⟩) hr ho)
  | @lapsed ls | @failed ls => exact silent rfl rfl (h.levels (busy_sublist _ ls))
  | drained _ ht =>
      have hev := congrArg (·.2.timeline.events.filter (·.task.isPeriodic)) ht
      exact silent rfl rfl ((h.congr hco (congrArg (·.2.slots) ht).symm hev.symm).levels
        (List.Sublist.refl _))
  | @ended _ _ c _ hc | @aborted _ _ c _ hc =>
      cases c <;> first | exact hc.elim | exact silent rfl rfl (h.levels (busy_sublist ..))

end Machine

end DmaMachine
