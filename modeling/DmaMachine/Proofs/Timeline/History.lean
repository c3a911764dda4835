import DmaMachine.Timeline.Advance
import Mathlib.Data.List.Perm.Basic
import Mathlib.Data.List.Nodup

/-!
# Histories of a timeline

The table of a timeline changes in three ways: an event is *made*, it is *dropped* before its
turn, or it is taken out to be *fired*.  A *history* lists these changes in the order in which
they happened.

`Reachable` is every timeline that the operations lead to, in any order.  Such a table is
`WellFormed`: it is in firing order, and every identifier in it was handed out once.

`Changes t h t'` says that `h` is what happened between `t` and `t'` while the clock stood and
nothing fired.  `Firing fire target s h r s'` is the same for the loop that fires what is due at
`target`: `h` has all changes, of the loop and of the callbacks, and `r` is how the loop ended.

* `Changes.perm`, `Firing.perm`: **no event is lost and none doubled**.  What was pending or was
  made has been dropped, has been fired, or is pending still.
* `Firing.ordered`: events fire in firing order, and before all that is pending afterwards, if no
  trigger that was made on the way has wrapped around.
* `exists_firing`: the loop has a history whenever its callbacks only make and drop events.
-/

namespace DmaMachine

variable {σ τ : Type}

namespace Timeline

/-- Every timeline that the operations lead to. -/
inductive Reachable : Timeline τ → Prop where
  | initial : Reachable {}
  | schedule {t : Timeline τ} (name : String) (delay : Nat) (task : τ) :
      Reachable t → Reachable (Op.outcome (t.schedule name delay task)).2
  | deschedule {t : Timeline τ} (id : Nat) : Reachable t → Reachable (t.deschedule id).2
  | forward {t : Timeline τ} (n : Nat) :
      Reachable t → Reachable { t with now := wrap (t.now + n) }
  | popDue {t u : Timeline τ} {target : Nat} {e : Event τ} :
      Reachable t → t.popDue target = some (e, u) → Reachable u
  | reset {t : Timeline τ} : Reachable t → Reachable t.reset
  | restore {t : Timeline τ} (now nextId : Nat) : Reachable t → Reachable (t.restore now nextId)

/-- A table in firing order, with distinct identifiers that were all handed out. -/
structure WellFormed (t : Timeline τ) : Prop where
  ordered : Event.Ordered t.events
  distinct : (t.events.map Event.id).Nodup
  handedOut : ∀ e ∈ t.events, e.id < t.nextId

/-! ### Well-formed tables -/

theorem WellFormed.of_sublist {t u : Timeline τ} (h : t.WellFormed)
    (hs : u.events.Sublist t.events) (hn : t.nextId ≤ u.nextId) : u.WellFormed where
  ordered := h.ordered.sublist hs
  distinct := h.distinct.sublist (hs.map _)
  handedOut e he := Nat.lt_of_lt_of_le (h.handedOut e (hs.subset he)) hn

theorem WellFormed.eq_of_id {t : Timeline τ} (h : t.WellFormed) {d e : Event τ}
    (hd : d ∈ t.events) (he : e ∈ t.events) (hid : d.id = e.id) : d = e :=
  List.inj_on_of_nodup_map h.distinct hd he hid

/-- A new event, made at time `now`, keeps the table well-formed. -/
theorem WellFormed.insert {t : Timeline τ} (h : t.WellFormed) (name : String) (now at' : Nat)
    (task : τ) : WellFormed { t with
      nextId := t.nextId + 1
      events := Event.insert ⟨t.nextId, name, now, at', task⟩ t.events } where
  ordered := Event.ordered_insert h.ordered h.handedOut
  distinct := by
    refine ((Event.perm_insert _ _).map _).nodup_iff.2 ?_
    rw [List.map_cons, List.nodup_cons]
    refine ⟨fun hm => ?_, h.distinct⟩
    obtain ⟨e, he, hid⟩ := List.mem_map.1 hm
    exact Nat.ne_of_lt (h.handedOut e he) hid
  handedOut e he := by
    rcases Event.mem_insert.1 he with rfl | he
    · exact Nat.lt_succ_self _
    · exact Nat.lt_succ_of_lt (h.handedOut e he)

theorem popDue_eq_some_iff {t u : Timeline τ} {target : Nat} {e : Event τ} :
    t.popDue target = some (e, u) ↔
      t.events = e :: u.events ∧ e.triggerAt ≤ target ∧ u.now = t.now ∧ u.nextId = t.nextId := by
  obtain ⟨now, nextId, events⟩ := t
  obtain ⟨now', nextId', events'⟩ := u
  cases events with
  | nil => simp [popDue]
  | cons d ds =>
      simp only [popDue]
      split
      · rename_i hd
        constructor
        · rintro ⟨⟩; exact ⟨rfl, hd, rfl, rfl⟩
        · rintro ⟨⟨⟩, -, ⟨⟩, ⟨⟩⟩; rfl
      · rename_i hd
        constructor
        · rintro ⟨⟩
        · rintro ⟨⟨⟩, he, -⟩; exact absurd he hd

theorem WellFormed.popDue {t u : Timeline τ} (h : t.WellFormed) {target : Nat} {e : Event τ}
    (hp : t.popDue target = some (e, u)) :
    u.WellFormed ∧ u.now = t.now ∧ u.nextId = t.nextId := by
  obtain ⟨hev, -, hnow, hid⟩ := popDue_eq_some_iff.1 hp
  exact ⟨h.of_sublist (hev ▸ List.sublist_cons_self ..) (Nat.le_of_eq hid.symm), hnow, hid⟩

/-- When the first event is not due, none is. -/
theorem WellFormed.not_due {t : Timeline τ} (h : t.WellFormed) {target : Nat}
    (hp : t.popDue target = none) : ∀ e ∈ t.events, target < e.triggerAt := by
  have hhead := popDue_eq_none_iff.1 hp
  have hord := h.ordered
  intro e he
  cases hev : t.events with
  | nil => rw [hev] at he; cases he
  | cons d ds =>
      rw [hev] at he hhead hord
      have hd := hhead d rfl
      rcases List.mem_cons.1 he with rfl | he
      · exact hd
      · rcases (List.pairwise_cons.1 hord).1 e he with hlt | ⟨heq, -⟩ <;> omega

theorem Reachable.wellFormed {t : Timeline τ} (h : t.Reachable) : t.WellFormed := by
  induction h with
  | initial => exact ⟨List.Pairwise.nil, List.nodup_nil, fun e he => nomatch he⟩
  | @schedule t name delay task _ ih =>
      by_cases hr : t.events.length < capacity
      · rw [schedule_of_room hr]; exact ih.insert ..
      · rw [schedule_of_full (Nat.le_of_not_lt hr)]; exact ih
  | deschedule id _ ih => exact ih.of_sublist (List.eraseP_sublist ..) (Nat.le_refl _)
  | forward n _ ih => exact ih.of_sublist (List.Sublist.refl _) (Nat.le_refl _)
  | popDue _ hp ih => exact (ih.popDue hp).1
  | reset _ ih => exact ih.of_sublist (List.nil_sublist _) (Nat.le_refl _)
  | restore now nextId _ ih => exact ih.of_sublist (List.nil_sublist _) (Nat.le_max_left ..)

/-! ### Histories -/

/-- One change of the table. -/
inductive Entry (τ : Type) where
  | made (e : Event τ)
  | dropped (e : Event τ)
  /-- The event was fired, and its callback was told this overshoot. -/
  | fired (e : Event τ) (overshoot : Nat)

def Entry.made? : Entry τ → Option (Event τ)
  | .made e => some e
  | _ => none

def Entry.dropped? : Entry τ → Option (Event τ)
  | .dropped e => some e
  | _ => none

def Entry.fired? : Entry τ → Option (Event τ)
  | .fired e _ => some e
  | _ => none

/-- The events that a history made, dropped, and fired, each in order. -/
def madeIn (h : List (Entry τ)) : List (Event τ) := h.filterMap Entry.made?

def droppedIn (h : List (Entry τ)) : List (Event τ) := h.filterMap Entry.dropped?

def firedIn (h : List (Entry τ)) : List (Event τ) := h.filterMap Entry.fired?

theorem mem_madeIn {h : List (Entry τ)} {e : Event τ} : e ∈ madeIn h ↔ .made e ∈ h := by
  simp only [madeIn, List.mem_filterMap]
  constructor
  · rintro ⟨x, hx, he⟩; cases x <;> cases he; exact hx
  · exact fun he => ⟨_, he, rfl⟩

theorem mem_droppedIn {h : List (Entry τ)} {e : Event τ} : e ∈ droppedIn h ↔ .dropped e ∈ h := by
  simp only [droppedIn, List.mem_filterMap]
  constructor
  · rintro ⟨x, hx, he⟩; cases x <;> cases he; exact hx
  · exact fun he => ⟨_, he, rfl⟩

theorem mem_firedIn {h : List (Entry τ)} {e : Event τ} :
    e ∈ firedIn h ↔ ∃ overshoot, .fired e overshoot ∈ h := by
  simp only [firedIn, List.mem_filterMap]
  constructor
  · rintro ⟨x, hx, he⟩; cases x <;> cases he; exact ⟨_, hx⟩
  · exact fun ⟨_, he⟩ => ⟨_, he, rfl⟩

@[simp] theorem madeIn_append (h k : List (Entry τ)) : madeIn (h ++ k) = madeIn h ++ madeIn k :=
  List.filterMap_append

@[simp] theorem droppedIn_append (h k : List (Entry τ)) :
    droppedIn (h ++ k) = droppedIn h ++ droppedIn k := List.filterMap_append

@[simp] theorem firedIn_append (h k : List (Entry τ)) :
    firedIn (h ++ k) = firedIn h ++ firedIn k := List.filterMap_append

@[simp] theorem madeIn_fired (e : Event τ) (late : Nat) (h : List (Entry τ)) :
    madeIn (.fired e late :: h) = madeIn h := rfl

@[simp] theorem droppedIn_fired (e : Event τ) (late : Nat) (h : List (Entry τ)) :
    droppedIn (.fired e late :: h) = droppedIn h := rfl

@[simp] theorem firedIn_fired (e : Event τ) (late : Nat) (h : List (Entry τ)) :
    firedIn (.fired e late :: h) = e :: firedIn h := rfl

/-- `h` is what happened between `t` and `t'` while the clock stood and nothing fired: events
were made, as long as there was room, and pending ones were dropped. -/
inductive Changes : Timeline τ → List (Entry τ) → Timeline τ → Prop where
  | none (t : Timeline τ) : Changes t [] t
  | made {t u t' : Timeline τ} {id : Nat} {h : List (Entry τ)} (name : String) (delay : Nat)
      (task : τ) (hs : t.schedule name delay task = .ok id u) (hc : Changes u h t') :
      Changes t (.made ⟨id, name, t.now, wrap (t.now + delay), task⟩ :: h) t'
  | dropped {t t' : Timeline τ} {e : Event τ} {h : List (Entry τ)} (he : e ∈ t.events)
      (hc : Changes (t.deschedule e.id).2 h t') : Changes t (.dropped e :: h) t'

/-- The event made by a call that succeeded, and the table after it. -/
theorem schedule_eq_ok {t u : Timeline τ} {name : String} {delay id : Nat} {task : τ}
    (h : t.schedule name delay task = .ok id u) :
    id = t.nextId ∧ u = { t with
      nextId := t.nextId + 1
      events := Event.insert ⟨t.nextId, name, t.now, wrap (t.now + delay), task⟩ t.events } := by
  by_cases hr : t.events.length < capacity
  · rw [schedule_of_room hr] at h
    cases h
    exact ⟨rfl, rfl⟩
  · rw [schedule_of_full (Nat.le_of_not_lt hr)] at h
    cases h

/-- Dropping a pending event takes that event out and no other. -/
theorem WellFormed.perm_deschedule {t : Timeline τ} (h : t.WellFormed) {e : Event τ}
    (he : e ∈ t.events) : t.events.Perm (e :: (t.deschedule e.id).2.events) := by
  obtain ⟨d, l, r, -, hd, hev, her⟩ :=
    List.exists_of_eraseP (p := (·.id == e.id)) he (beq_self_eq_true _)
  have hde : d = e := h.eq_of_id (hev ▸ List.mem_append_right _ List.mem_cons_self) he
    (eq_of_beq hd)
  show t.events.Perm (e :: t.events.eraseP _)
  rw [her, hev, hde]
  exact List.perm_middle

/-- The events `es` were made in this order at time `now`, with identifiers from `lo` on and below
`hi`. -/
structure MadeBetween (lo hi now : Nat) (es : List (Event τ)) : Prop where
  increasing : es.Pairwise fun d e => d.id < e.id
  bounds : ∀ e ∈ es, lo ≤ e.id ∧ e.id < hi ∧ e.registeredAt = now

theorem MadeBetween.nil {lo hi now : Nat} : MadeBetween lo hi now ([] : List (Event τ)) :=
  ⟨List.Pairwise.nil, fun _ he => nomatch he⟩

theorem MadeBetween.append {lo mid hi now : Nat} {es fs : List (Event τ)}
    (he : MadeBetween lo mid now es) (hf : MadeBetween mid hi now fs) (hlo : lo ≤ mid)
    (hhi : mid ≤ hi) : MadeBetween lo hi now (es ++ fs) where
  increasing := List.pairwise_append.2 ⟨he.increasing, hf.increasing, fun d hd e he' =>
    Nat.lt_of_lt_of_le (he.bounds d hd).2.1 (hf.bounds e he').1⟩
  bounds e hm := by
    rcases List.mem_append.1 hm with hm | hm
    · obtain ⟨h₁, h₂, h₃⟩ := he.bounds e hm
      exact ⟨h₁, Nat.lt_of_lt_of_le h₂ hhi, h₃⟩
    · obtain ⟨h₁, h₂, h₃⟩ := hf.bounds e hm
      exact ⟨Nat.le_trans hlo h₁, h₂, h₃⟩

/-- Events that were pending and events made later have distinct identifiers. -/
theorem WellFormed.distinct_append {t : Timeline τ} (h : t.WellFormed) {hi now : Nat}
    {es : List (Event τ)} (he : MadeBetween t.nextId hi now es) :
    ((t.events ++ es).map Event.id).Nodup := by
  rw [List.map_append, List.nodup_append]
  refine ⟨h.distinct, List.pairwise_map.2 (he.increasing.imp Nat.ne_of_lt), ?_⟩
  intro a ha b hb
  obtain ⟨d, hd, rfl⟩ := List.mem_map.1 ha
  obtain ⟨e, hm, rfl⟩ := List.mem_map.1 hb
  exact Nat.ne_of_lt (Nat.lt_of_lt_of_le (h.handedOut d hd) (he.bounds e hm).1)

/-- What changes keep: the table stays well-formed, the clock stands, and what was made has
identifiers that were new. -/
theorem Changes.keeps {t t' : Timeline τ} {h : List (Entry τ)} (hc : Changes t h t')
    (ht : t.WellFormed) :
    t'.WellFormed ∧ t'.now = t.now ∧ t.nextId ≤ t'.nextId ∧
      MadeBetween t.nextId t'.nextId t.now (madeIn h) := by
  induction hc with
  | none t => exact ⟨ht, rfl, Nat.le_refl _, .nil⟩
  | @made t u t' id h name delay task hs _ ih =>
      obtain ⟨rfl, rfl⟩ := schedule_eq_ok hs
      obtain ⟨hw, hn, hi, hm⟩ := ih (ht.insert ..)
      have hone : MadeBetween t.nextId (t.nextId + 1) t.now
          [(⟨t.nextId, name, t.now, wrap (t.now + delay), task⟩ : Event τ)] :=
        ⟨List.pairwise_singleton .., fun e he => by
          cases List.mem_singleton.1 he
          exact ⟨Nat.le_refl _, Nat.lt_succ_self _, rfl⟩⟩
      exact ⟨hw, hn, Nat.le_of_succ_le hi, hone.append hm (Nat.le_succ _) hi⟩
  | dropped he _ ih => exact ih (ht.of_sublist (List.eraseP_sublist ..) (Nat.le_refl _))

/-- While the clock stands nothing fires. -/
theorem Changes.firedIn_eq_nil {t t' : Timeline τ} {h : List (Entry τ)} (hc : Changes t h t') :
    firedIn h = [] := by
  induction hc with
  | none => rfl
  | made _ _ _ _ _ ih => exact ih
  | dropped _ _ ih => exact ih

/-- **Changes lose nothing and double nothing.** -/
theorem Changes.perm {t t' : Timeline τ} {h : List (Entry τ)} (hc : Changes t h t')
    (ht : t.WellFormed) :
    (t.events ++ madeIn h).Perm (droppedIn h ++ t'.events) := by
  induction hc with
  | none t => simp [madeIn, droppedIn]
  | @made t u t' id h name delay task hs _ ih =>
      obtain ⟨rfl, rfl⟩ := schedule_eq_ok hs
      refine List.perm_middle.trans (.trans ?_ (ih (ht.insert ..)))
      exact ((Event.perm_insert ..).append_right _).symm
  | @dropped t t' e h he _ ih =>
      have hd := ih (ht.of_sublist (List.eraseP_sublist ..) (Nat.le_refl _))
      exact ((ht.perm_deschedule he).append_right _).trans (hd.cons e)

/-- What is pending afterwards had been pending or made. -/
theorem Changes.mem_of_pending {t t' : Timeline τ} {h : List (Entry τ)} (hc : Changes t h t')
    (ht : t.WellFormed) {e : Event τ} (he : e ∈ t'.events) : e ∈ t.events ∨ e ∈ madeIn h :=
  List.mem_append.1 ((hc.perm ht).mem_iff.2 (List.mem_append_right _ he))

/-- A pending event that is due comes before whatever is made from then on and does not wrap
around. -/
theorem WellFormed.before_made {t : Timeline τ} (h : t.WellFormed) {lo hi now : Nat}
    {es : List (Event τ)} (hm : MadeBetween lo hi now es) (hlo : t.nextId ≤ lo) {d e : Event τ}
    (he : e ∈ t.events) (hdue : e.triggerAt ≤ now) (hd : d ∈ es) (hun : d.Unwrapped) :
    Event.Before e d := by
  obtain ⟨hl, -, hat⟩ := hm.bounds d hd
  have hid := h.handedOut e he
  unfold Event.Unwrapped at hun
  unfold Event.Before
  omega

/-- An event that is taken out to be fired comes before all that is pending when its callback is
done. -/
theorem WellFormed.before_pending {t u t' : Timeline τ} (ht : t.WellFormed) {target : Nat}
    (hn : t.now = target) {e : Event τ} (hp : t.popDue target = some (e, u))
    {h : List (Entry τ)} (hc : Changes u h t') (hun : ∀ d, .made d ∈ h → d.Unwrapped)
    {d : Event τ} (hd : d ∈ t'.events) : Event.Before e d := by
  obtain ⟨hu, hnow, hid⟩ := ht.popDue hp
  obtain ⟨hev, hdue, -⟩ := popDue_eq_some_iff.1 hp
  rcases hc.mem_of_pending hu hd with hd | hd
  · exact (List.pairwise_cons.1 (hev ▸ ht.ordered)).1 d hd
  · exact ht.before_made (hc.keeps hu).2.2.2 (Nat.le_of_eq hid.symm)
      (hev ▸ List.mem_cons_self) (by omega) hd (hun d (mem_madeIn.1 hd))

end Timeline

namespace Host

open Timeline
open scoped List

variable [Host σ τ]

/-- Callbacks that make and drop events, and do not touch the clock. -/
def Confined (fire : τ → Nat → Run σ Unit) : Prop :=
  ∀ task late s r s', fire task late s = some (r, s') →
    ∃ h, Changes (timeline s) h (timeline s')

/-- `h` is what happened while the events due at `target` were fired, from `s` to `s'`.  The
loop ends when no event is due, or with the fault of a callback. -/
inductive Firing (fire : τ → Nat → Run σ Unit) (target : Nat) :
    σ → List (Entry τ) → Except Fault Unit → σ → Prop where
  | ended {s : σ} (hp : (timeline s).popDue target = none) : Firing fire target s [] (.ok ()) s
  | failed {s s' : σ} {e : Event τ} {t : Timeline τ} {late : Nat} {fault : Fault}
      {h : List (Entry τ)} (hp : (timeline s).popDue target = some (e, t))
      (hl : late = target - e.triggerAt)
      (hf : fire e.task late (setTimeline t s) = some (.error fault, s'))
      (hc : Changes t h (timeline s')) :
      Firing fire target s (.fired e late :: h) (.error fault) s'
  | fired {s s₁ s' : σ} {e : Event τ} {t : Timeline τ} {late : Nat} {h k : List (Entry τ)}
      {r : Except Fault Unit} (hp : (timeline s).popDue target = some (e, t))
      (hl : late = target - e.triggerAt)
      (hf : fire e.task late (setTimeline t s) = some (.ok (), s₁))
      (hc : Changes t h (timeline s₁)) (hk : Firing fire target s₁ k r s') :
      Firing fire target s (.fired e late :: (h ++ k)) r s'

/-- What one round of the loop can do. -/
theorem fireDue_cases {fire : τ → Nat → Run σ Unit} {target bound : Nat} {s s' : σ}
    {r : Except Fault Unit} (h : fireDue fire target (bound + 1) s = some (r, s')) :
    ((timeline s).popDue target = none ∧ r = .ok () ∧ s' = s) ∨
      ∃ e t, (timeline s).popDue target = some (e, t) ∧
        ((∃ fault, fire e.task (target - e.triggerAt) (setTimeline t s) = some (.error fault, s') ∧
            r = .error fault) ∨
          ∃ s₁, fire e.task (target - e.triggerAt) (setTimeline t s) = some (.ok (), s₁) ∧
            fireDue fire target bound s₁ = some (r, s')) := by
  simp only [fireDue] at h
  split at h
  · rename_i hp
    cases h
    exact .inl ⟨hp, rfl, rfl⟩
  · rename_i e t hp
    refine .inr ⟨e, t, hp, ?_⟩
    split at h
    · cases h
    · rename_i fault s₁ he
      cases h
      exact .inl ⟨fault, he, rfl⟩
    · rename_i s₁ he
      exact .inr ⟨s₁, he, h⟩

/-- **The loop has a history**, however it ends. -/
theorem exists_firing {fire : τ → Nat → Run σ Unit} (hf : Confined fire) {target : Nat} :
    ∀ {bound : Nat} {s s' : σ} {r : Except Fault Unit},
      fireDue fire target bound s = some (r, s') → ∃ h, Firing fire target s h r s'
  | 0, _, _, _, hr => by cases hr
  | bound + 1, s, s', r, hr => by
      obtain ⟨hp, rfl, rfl⟩ | ⟨e, t, hp, ⟨fault, he, rfl⟩ | ⟨s₁, he, hr⟩⟩ := fireDue_cases hr
      · exact ⟨[], .ended hp⟩
      · obtain ⟨h, hc⟩ := hf _ _ _ _ _ he
        rw [timeline_setTimeline] at hc
        exact ⟨_, .failed hp rfl he hc⟩
      · obtain ⟨h, hc⟩ := hf _ _ _ _ _ he
        rw [timeline_setTimeline] at hc
        obtain ⟨k, hk⟩ := exists_firing hf hr
        exact ⟨_, .fired hp rfl he hc hk⟩

variable {fire : τ → Nat → Run σ Unit} {target : Nat} {s s' : σ} {h : List (Entry τ)}
  {r : Except Fault Unit}

/-- What firing keeps: the table stays well-formed, the clock stands at the target, and what was
made was made then, with identifiers that were new. -/
theorem Firing.keeps (hfi : Firing fire target s h r s') (hw : (timeline s).WellFormed)
    (hn : (timeline s).now = target) :
    (timeline s').WellFormed ∧ (timeline s').now = target ∧
      (timeline s).nextId ≤ (timeline s').nextId ∧
      MadeBetween (timeline s).nextId (timeline s').nextId target (madeIn h) := by
  induction hfi with
  | ended => exact ⟨hw, hn, Nat.le_refl _, .nil⟩
  | failed hp _ _ hc =>
      obtain ⟨hu, hnow, hid⟩ := hw.popDue hp
      rw [← hid, ← hn, ← hnow]
      exact hc.keeps hu
  | fired hp _ _ hc _ ih =>
      obtain ⟨hu, hnow, hid⟩ := hw.popDue hp
      obtain ⟨hw₁, hn₁, hi₁, hm₁⟩ := hc.keeps hu
      rw [hnow, hn] at hn₁ hm₁
      obtain ⟨hw', hn', hi, hm⟩ := ih hw₁ hn₁
      rw [hid] at hi₁ hm₁
      rw [madeIn_fired, madeIn_append]
      exact ⟨hw', hn', Nat.le_trans hi₁ hi, hm₁.append hm hi₁ hi⟩

/-- **Firing loses nothing and doubles nothing**: what was pending or was made has been fired, has
been dropped, or is pending still. -/
theorem Firing.perm (hfi : Firing fire target s h r s') (hw : (timeline s).WellFormed) :
    ((timeline s).events ++ madeIn h).Perm
      (firedIn h ++ (droppedIn h ++ (timeline s').events)) := by
  induction hfi with
  | ended => simp [madeIn, droppedIn, firedIn]
  | @failed s s' e t late fault h hp _ _ hc =>
      obtain ⟨hu, -⟩ := hw.popDue hp
      rw [(popDue_eq_some_iff.1 hp).1, firedIn_fired, hc.firedIn_eq_nil]
      exact (hc.perm hu).cons e
  | @fired s s₁ s' e t late h k r hp _ _ hc _ ih =>
      obtain ⟨hu, -⟩ := hw.popDue hp
      simp only [(popDue_eq_some_iff.1 hp).1, firedIn_fired, madeIn_fired, droppedIn_fired,
        firedIn_append, madeIn_append, droppedIn_append, hc.firedIn_eq_nil, List.nil_append]
      refine List.Perm.cons e ?_
      calc t.events ++ (madeIn h ++ madeIn k)
          _ = t.events ++ madeIn h ++ madeIn k := (List.append_assoc ..).symm
          _ ~ droppedIn h ++ (timeline s₁).events ++ madeIn k := (hc.perm hu).append_right _
          _ = droppedIn h ++ ((timeline s₁).events ++ madeIn k) := List.append_assoc ..
          _ ~ droppedIn h ++ (firedIn k ++ (droppedIn k ++ (timeline s').events)) :=
              (ih (hc.keeps hu).1).append_left _
          _ ~ firedIn k ++ (droppedIn h ++ (droppedIn k ++ (timeline s').events)) :=
              List.perm_append_comm_assoc ..
          _ = firedIn k ++ (droppedIn h ++ droppedIn k ++ (timeline s').events) := by
              rw [List.append_assoc (droppedIn h)]

/-- What was pending or made was fired, was dropped, or is pending afterwards. -/
theorem Firing.known_iff (hfi : Firing fire target s h r s') (hw : (timeline s).WellFormed)
    {e : Event τ} : e ∈ (timeline s).events ∨ .made e ∈ h ↔
      e ∈ firedIn h ∨ .dropped e ∈ h ∨ e ∈ (timeline s').events := by
  have := (hfi.perm hw).mem_iff (a := e)
  rwa [List.mem_append, List.mem_append, List.mem_append, mem_madeIn, mem_droppedIn] at this

/-- Every identifier occurs once among what was fired, was dropped, and is pending afterwards. -/
theorem Firing.distinct (hfi : Firing fire target s h r s') (hw : (timeline s).WellFormed)
    (hn : (timeline s).now = target) :
    ((firedIn h ++ (droppedIn h ++ (timeline s').events)).map Event.id).Nodup :=
  ((hfi.perm hw).map Event.id).nodup_iff.1 (hw.distinct_append (hfi.keeps hw hn).2.2.2)

/-- What was dropped was not fired, and is not pending afterwards. -/
theorem Firing.not_dropped (hfi : Firing fire target s h r s') (hw : (timeline s).WellFormed)
    (hn : (timeline s).now = target) {e : Event τ}
    (he : e ∈ firedIn h ∨ e ∈ (timeline s').events) : .dropped e ∉ h := by
  intro hd
  have hnodup := (hfi.distinct hw hn).of_map
  rcases he with he | he
  · exact List.disjoint_of_nodup_append hnodup he
      (List.mem_append_left _ (mem_droppedIn.2 hd))
  · exact List.disjoint_of_nodup_append (List.nodup_append.1 hnodup).2.1 (mem_droppedIn.2 hd) he

/-- An event that fires was due, and its callback was told how far the target is past it. -/
theorem Firing.due (hfi : Firing fire target s h r s') {e : Event τ} {late : Nat}
    (he : .fired e late ∈ h) : e.triggerAt ≤ target ∧ late = target - e.triggerAt := by
  have quiet : ∀ {t t' : Timeline τ} {k : List (Entry τ)}, Changes t k t' →
      .fired e late ∉ k := fun hc hk => by
    have := mem_firedIn.2 ⟨_, hk⟩
    rw [hc.firedIn_eq_nil] at this
    cases this
  induction hfi with
  | ended => cases he
  | failed hp hl _ hc =>
      rcases List.mem_cons.1 he with heq | he
      · cases heq
        exact ⟨(popDue_eq_some_iff.1 hp).2.1, hl⟩
      · exact absurd he (quiet hc)
  | fired hp hl _ hc _ ih =>
      rcases List.mem_cons.1 he with heq | he
      · cases heq
        exact ⟨(popDue_eq_some_iff.1 hp).2.1, hl⟩
      · rcases List.mem_append.1 he with he | he
        · exact absurd he (quiet hc)
        · exact ih he

/-- **Events fire in firing order, and before all that is pending afterwards**, however the loop
ends, if no trigger has wrapped around.  What comes after an event was behind it in the table, or
was made by a callback: then it triggers at the target or later, and its identifier is higher. -/
theorem Firing.ordered (hfi : Firing fire target s h r s') (hw : (timeline s).WellFormed)
    (hn : (timeline s).now = target) (hun : ∀ e, .made e ∈ h → e.Unwrapped) :
    Event.Ordered (firedIn h ++ (timeline s').events) := by
  induction hfi with
  | ended => exact hw.ordered
  | @failed s s' e t late fault h hp _ _ hc =>
      rw [firedIn_fired, hc.firedIn_eq_nil]
      refine List.pairwise_cons.2 ⟨fun d hd => ?_, (hc.keeps (hw.popDue hp).1).1.ordered⟩
      exact hw.before_pending hn hp hc (fun d hd => hun d (.tail _ hd)) hd
  | @fired s s₁ s' e t late h k r hp _ _ hc hk ih =>
      obtain ⟨hu, hnow, hid⟩ := hw.popDue hp
      obtain ⟨hev, hdue, -⟩ := popDue_eq_some_iff.1 hp
      obtain ⟨hw₁, hn₁, hi₁, -⟩ := hc.keeps hu
      rw [hnow, hn] at hn₁
      have hunh : ∀ d, .made d ∈ h → d.Unwrapped := fun d hd =>
        hun d (.tail _ (List.mem_append_left _ hd))
      have hunk : ∀ d, .made d ∈ k → d.Unwrapped := fun d hd =>
        hun d (.tail _ (List.mem_append_right _ hd))
      rw [firedIn_fired, firedIn_append, hc.firedIn_eq_nil, List.nil_append]
      refine List.pairwise_cons.2 ⟨fun d hd => ?_, ih hw₁ hn₁ hunk⟩
      have hd : d ∈ (timeline s₁).events ∨ .made d ∈ k :=
        (hk.known_iff hw₁).2 ((List.mem_append.1 hd).imp_right .inr)
      rcases hd with hd | hd
      · exact hw.before_pending hn hp hc hunh hd
      · exact hw.before_made (hk.keeps hw₁ hn₁).2.2.2 (hid ▸ hi₁) (hev ▸ List.mem_cons_self) hdue
          (mem_madeIn.2 hd) (hunk d hd)

/-- A loop that ends well leaves nothing due. -/
theorem Firing.popDue_eq_none (hfi : Firing fire target s h (.ok ()) s') :
    (timeline s').popDue target = none := by
  generalize hr : (.ok () : Except Fault Unit) = r at hfi
  induction hfi with
  | ended hp => exact hp
  | failed => cases hr
  | fired _ _ _ _ _ ih => exact ih hr

end Host

end DmaMachine
