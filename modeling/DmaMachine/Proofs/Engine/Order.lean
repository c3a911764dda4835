import DmaMachine.Proofs.Engine.Passes
import DmaMachine.Proofs.Channel.Carry

/-!
# The order of a service pass

The controller gives every channel a *priority*, and a smaller one is more urgent.  Of two channels
that are equally urgent the one with the higher number has its turn first.

* `order_precedes`: **the order of the turns is this one**, whatever the priority word says.
* `turns`: a pass gives a turn to the channels that are active when the pass begins, for a step
  leaves the other channels alone.
* `service_outcomes`: **what a pass comes to.**  It lists the channels that were enabled and active,
  each once and in their order; they are inactive after it, and the others are as they were.
-/

namespace DmaMachine

/-- An operation whose outcome is a result gives it. -/
theorem Op.exists_ok {σ α : Type} {x : EStateM.Result Fault σ α} {a : α}
    (h : (Op.outcome x).1 = .ok a) : ∃ s, x = .ok a s :=
  ⟨_, Op.outcome_eq_ok.1 (Prod.ext h rfl)⟩

/-! ### The order of the channels -/

namespace Controller

variable (k : Controller)

/-- A channel has its turn before another one. -/
def Precedes (p q : Peer) : Prop :=
  k.priority p.index < k.priority q.index ∨
    k.priority p.index = k.priority q.index ∧ q.index < p.index

instance (p q : Peer) : Decidable (k.Precedes p q) := inferInstanceAs (Decidable (_ ∨ _))

variable {k} in
theorem Precedes.asymm {p q : Peer} (h : k.Precedes p q) : ¬k.Precedes q p := by
  unfold Precedes at *
  omega

theorem order_perm : k.order.Perm (Peer.all.reverse.filter fun p => k.enabled p.index) :=
  List.mergeSort_perm ..

theorem order_nodup : k.order.Nodup :=
  k.order_perm.nodup_iff.2 (.filter _ (List.nodup_reverse.2 (by decide)))

/-- Before they are sorted, the channels stand with the higher numbers first. -/
theorem descending {p q : Peer} (h : p.index < q.index) : List.Sublist [q, p] Peer.all.reverse := by
  cases p <;> cases q <;> first | decide | exact absurd h (by decide)

/-- Sorting is stable, so of two equally urgent channels the higher numbered stays first. -/
theorem order_stable {p q : Peer} (hp : k.enabled p.index = true) (hq : k.enabled q.index = true)
    (he : k.priority p.index = k.priority q.index) (h : p.index < q.index) :
    List.Sublist [q, p] k.order := by
  refine List.pair_sublist_mergeSort (fun _ _ _ => ?_) (fun _ _ => ?_) ?_ ?_
  · simpa using Nat.le_trans
  · simpa using Nat.le_total ..
  · simp [he]
  · simpa [hp, hq] using (descending h).filter fun p => k.enabled p.index

/-- **The most urgent channels come first**, and of equally urgent ones the higher numbered. -/
theorem order_precedes : k.order.Pairwise k.Precedes := by
  have hs : k.order.Pairwise fun p q => k.priority p.index ≤ k.priority q.index := by
    refine (List.pairwise_mergeSort (fun _ _ _ => ?_) (fun _ _ => ?_) _).imp fun h => ?_
    · simpa using Nat.le_trans
    · simpa using Nat.le_total ..
    · simpa using h
  refine List.pairwise_iff_forall_sublist.2 fun {p q} hpq => ?_
  obtain hlt | he := Nat.lt_or_eq_of_le (List.pairwise_iff_forall_sublist.1 hs hpq)
  · exact .inl hlt
  · have hmem : ∀ r ∈ [p, q], k.enabled r.index = true := fun r hr =>
      (k.mem_order r).1 (hpq.subset hr)
    refine .inr ⟨he, Nat.lt_of_not_le fun hle => ?_⟩
    -- Were the lower numbered first, the two would stand in the order both ways round.
    have hne : p ≠ q := fun h => by
      have := hpq.nodup k.order_nodup
      simp [h] at this
    have hqp := k.order_stable (hmem p (by simp)) (hmem q (by simp)) he
      (Nat.lt_of_le_of_ne hle fun hi => hne (Peer.index_inj hi))
    have := (k.order_nodup.perm_iff_eq_of_sublist hpq hqp).1 (.swap ..)
    exact hne (List.cons_eq_cons.1 this).1

/-- No other list of the enabled channels is in this order. -/
theorem order_eq {ps : List Peer} (hs : ps.Pairwise k.Precedes)
    (hm : ∀ p, p ∈ ps ↔ k.enabled p.index = true) : k.order = ps := by
  have hn : ps.Nodup := hs.imp fun {p q} h => by
    rintro rfl
    exact h.asymm h
  have hp : k.order.Perm ps := (List.perm_ext_iff_of_nodup k.order_nodup hn).2 fun p =>
    (k.mem_order p).trans (hm p).symm
  exact hp.eq_of_pairwise (fun _ _ _ _ h h' => absurd h' h.asymm) k.order_precedes hs

end Controller

namespace Channel

variable {β : Type} [Master β]

/-- The step of an active channel is not idle. -/
theorem step_ne_idle {p : Peer} {s t : Stage β} (ha : s.channel.active = true) :
    step p s ≠ .ok .idle t := fun h => by
  have hc := step_course p s
  rw [h] at hc
  cases hc with
  | idle hs => exact Bool.false_ne_true (hs.symm.trans ha)

end Channel

/-! ### The turns of a pass -/

namespace Engine

variable {β : Type} [Master β] {s t : Engine × β} {outcomes : List (Peer × Status)}

/-- The channels that have a turn in a pass. -/
def turns (e : Engine) : List Peer := e.controller.order.filter fun p => (e.channel p).active

theorem mem_turns {e : Engine} {p : Peer} :
    p ∈ e.turns ↔ e.controller.enabled p.index = true ∧ (e.channel p).active = true := by
  simp [turns, Controller.mem_order]

/-- **A pass lists those of the given channels that are active when it begins.** -/
theorem serviceEach_lists : ∀ {ps : List Peer} {s t : Engine × β}
    {outcomes : List (Peer × Status)}, ps.Nodup → serviceEach ps s = .ok outcomes t →
      outcomes.map Prod.fst = ps.filter fun p => (s.1.channel p).active
  | [], s, t, outcomes, _, h => by
      cases h
      rfl
  | p :: ps, s, t, outcomes, hn, h => by
      obtain ⟨hp, hn⟩ := List.nodup_cons.1 hn
      rw [serviceEach_cons] at h
      by_cases ha : (s.1.channel p).active = true
      · rw [if_pos ha] at h
        obtain ⟨status, u, hs, h⟩ := Op.bind_eq_ok.1 h
        obtain ⟨rest, v, hv, h⟩ := Op.bind_eq_ok.1 h
        cases h
        refine (congrArg (p :: ·) (serviceEach_lists hn hv)).trans ?_
        rw [List.filter_cons, if_pos ha]
        -- The step of the first channel leaves those after it as they were.
        exact congrArg (p :: ·) (List.filter_congr fun q hq => by
          rw [(step_settles hs).2.1 q fun h => hp (h ▸ hq)])
      · rw [if_neg ha] at h
        rw [List.filter_cons, if_neg ha]
        exact serviceEach_lists hn h

theorem service_lists (h : service s = .ok outcomes t) : outcomes.map Prod.fst = s.1.turns :=
  serviceEach_lists s.1.controller.order_nodup h

/-- No channel is listed as idle. -/
theorem service_ne_idle (h : service s = .ok outcomes t) (p : Peer) : (p, .idle) ∉ outcomes :=
  fun hm => by
    have ho := (mem_outcomes_iff h).1 hm
    obtain ⟨hn, -⟩ | ⟨ha, k, b, hk, -⟩ := service_channel p s
    · cases hn.symm.trans ho
    · have hs := hk.symm.trans ho
      cases hc : Channel.step p ⟨s.1.channel p, k, b⟩ with
      | ok status u =>
          rw [hc] at hs
          cases hs
          exact Channel.step_ne_idle ha hc
      | error e u =>
          rw [hc] at hs
          cases hs

/-- **What a service pass comes to** when it gives a result.  It lists the channels that were
enabled and active when it began, and no others; each is listed once, the more urgent before the
less urgent and the higher numbered before the lower of equally urgent ones, and none as idle.  The
listed channels are inactive after it, and the others are as they were. -/
theorem service_outcomes (h : service s = .ok outcomes t) :
    (∀ p, p ∈ outcomes.map Prod.fst ↔
      s.1.controller.enabled p.index = true ∧ (s.1.channel p).active = true) ∧
    (outcomes.map Prod.fst).Nodup ∧
    (outcomes.map Prod.fst).Pairwise s.1.controller.Precedes ∧
    (∀ o ∈ outcomes, o.2 ≠ .idle) ∧
    (∀ p ∈ outcomes.map Prod.fst, (t.1.channel p).active = false) ∧
    (∀ p, p ∉ outcomes.map Prod.fst → t.1.channel p = s.1.channel p) := by
  have hl := service_lists h
  obtain ⟨hin, hout, -⟩ := serviceEach_settles h
  rw [hl]
  refine ⟨fun p => mem_turns, s.1.controller.order_nodup.filter _,
    s.1.controller.order_precedes.filter _, ?_, fun p hp => hin p (List.mem_of_mem_filter hp),
    fun p hp => ?_⟩
  · rintro ⟨p, status⟩ hm rfl
    exact service_ne_idle h p hm
  · by_cases ho : p ∈ s.1.controller.order
    · -- A channel that is enabled and not listed was not active.
      have ha : (s.1.channel p).active = false :=
        Bool.eq_false_iff.2 fun ha => hp (List.mem_filter.2 ⟨ho, ha⟩)
      have := (service_of_inactive ha).2
      rwa [h] at this
    · exact hout p ho

/-- Four bursts.  Those of the graphics and the ordering table are equally urgent, that of the sound
is more urgent, and that of the expansion port is not enabled. -/
def fourBursts : Engine :=
  [(0x70, 0x0B090B00), (0x24, 1), (0x28, 0x11000001), (0x44, 1), (0x48, 0x11000001), (0x54, 1),
    (0x58, 0x11000001), (0x60, 0x100), (0x64, 2), (0x68, 0x11000002)].foldl
      (fun e (offset, v) => (Op.outcome (write offset v 0xFFFFFFFF e)).2) {}

/-- The sound goes first, then the ordering table, then the graphics.  The burst that is not enabled
stays as it is. -/
theorem service_outcomes_fourBursts : ∃ t,
    service (fourBursts, bareBus) =
      .ok [(.sound, .completed), (.orderingTable, .completed), (.graphics, .completed)] t ∧
    (t.1.channel .orderingTable).active = false ∧ (fourBursts.channel .expansion).active = true ∧
    t.1.channel .expansion = fourBursts.channel .expansion := by
  have ho : fourBursts.controller.order = [.sound, .orderingTable, .graphics] :=
    Controller.order_eq _ (by decide +kernel) fun p => by cases p <;> decide +kernel
  have hs : (Op.outcome (serviceEach [.sound, .orderingTable, .graphics]
        (fourBursts, bareBus))).1 =
      .ok [(.sound, .completed), (.orderingTable, .completed), (.graphics, .completed)] := by
    decide +kernel
  obtain ⟨t, h⟩ : ∃ t, service (fourBursts, bareBus) =
      .ok [(.sound, .completed), (.orderingTable, .completed), (.graphics, .completed)] t := by
    rw [service, ho]
    exact Op.exists_ok hs
  obtain ⟨-, -, -, -, hin, hout⟩ := service_outcomes h
  exact ⟨t, h, hin .orderingTable (by decide), by decide +kernel, hout .expansion (by decide)⟩

end Engine

end DmaMachine
