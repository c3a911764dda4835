import DmaMachine.Proofs.Channel.Regular
import DmaMachine.Proofs.Engine.Meter
import DmaMachine.Proofs.Engine.Service

/-!
# A channel's turn in a service pass

A service pass gives the enabled channels their turns, most urgent first, and a channel that is
active when its turn comes makes one step.  What the step comes to is the channel's *outcome* of the
pass.  A channel has none if it is not active, or if the pass fails before its turn; then it moves
nothing.

* `Engine.outcome?`: the outcome of a channel.
* `serviceEach_channel`: **a pass does to a channel what its own step does**, and nothing to
  a channel without an outcome.
* `mem_outcomes_iff`: a pass that gives a result lists the outcomes.
-/

namespace DmaMachine

variable {β : Type} [Master β]

/-! ### Steps and generations -/

namespace Channel

variable {p : Peer} {s t u : Stage β}

theorem Attempt.perform_generation (a : Attempt) (p : Peer) (s : Stage β) :
    (Op.outcome (a.perform p s)).2.channel.generation = s.channel.generation := by
  obtain ⟨held, h | h | ⟨f, t, ha, h⟩⟩ := a.perform_channel p s <;> rw [h]
  · rfl
  · have ht := access_takes ha
    cases a with
    | unit | entry =>
        cases ht
        rfl
    | header =>
        obtain ⟨header, rfl⟩ := ht
        rfl

theorem Through.generation (h : Through p s u) :
    u.channel.generation = s.channel.generation := by
  induction h with
  | none => rfl
  | @next s t u a _ ha _ ih =>
      have ht := a.perform_generation p s
      rw [ha] at ht
      exact ih.trans ht

/-- No step puts the channel in a new generation. -/
theorem step_generation (p : Peer) (s : Stage β) :
    (Op.outcome (step p s)).2.channel.generation = s.channel.generation := by
  have hr := step_course p s
  generalize step p s = r at hr
  cases hr with
  | idle => rfl
  | completed h | lastBlock h | blockDone h | chopped _ h | refused _ h => exact h.generation
  | @faulted u t a h _ ha | @failed u t e a h _ ha =>
      have ht := a.perform_generation p u
      rw [ha] at ht
      exact ht.trans h.generation

/-- After a window the transfer goes on, but not at once. -/
theorem step_paused {resumeIn : Nat} (h : step p s = .ok (.chopped resumeIn) t) :
    t.channel.running = s.channel.running ∧ t.channel.active = false := by
  have hc := step_course p s
  rw [h] at hc
  cases hc with
  | chopped _ hu => exact ⟨hu.keeps.2.2.1, rfl⟩

end Channel

/-! ### Turns -/

namespace Engine

variable {p q : Peer} {s t : Engine × β}

/-- The outcome of a channel when the given ones have their turns. -/
def outcomeIn (p : Peer) : List Peer → Engine × β → Option (Except Fault Status)
  | [], _ => none
  | q :: qs, s =>
      if (s.1.channel q).active then
        if q = p then some (Op.outcome (step q s)).1
        else
          match step q s with
          | .ok _ s => outcomeIn p qs s
          | .error .. => none
      else outcomeIn p qs s

/-- The outcome of a channel in a service pass. -/
def outcome? (p : Peer) (s : Engine × β) : Option (Except Fault Status) :=
  outcomeIn p s.1.controller.order s

theorem channel_step (p q : Peer) (s : Engine × β) :
    (Op.outcome (step p s)).2.1.channel q =
      if q = p then (Op.outcome (Channel.step p ⟨s.1.channel p, s.1.controller, s.2⟩)).2.channel
      else s.1.channel q := by
  rw [step_eq]
  cases Channel.step p ⟨s.1.channel p, s.1.controller, s.2⟩ <;> exact channel_setChannel ..

theorem outcome_step (p : Peer) (s : Engine × β) : (Op.outcome (step p s)).1 =
    (Op.outcome (Channel.step p ⟨s.1.channel p, s.1.controller, s.2⟩)).1 := by
  rw [step_eq]
  cases Channel.step p ⟨s.1.channel p, s.1.controller, s.2⟩ <;> rfl

/-- **A pass does to a channel what the channel's own step does**, and nothing to a channel without
an outcome. -/
theorem serviceEach_channel (p : Peer) : ∀ (ps : List Peer) (s : Engine × β),
    (outcomeIn p ps s = none ∧ (Op.outcome (serviceEach ps s)).2.1.channel p = s.1.channel p) ∨
      (s.1.channel p).active = true ∧ ∃ (k : Controller) (b : β),
        outcomeIn p ps s = some (Op.outcome (Channel.step p ⟨s.1.channel p, k, b⟩)).1 ∧
          (Op.outcome (serviceEach ps s)).2.1.channel p =
            (Op.outcome (Channel.step p ⟨s.1.channel p, k, b⟩)).2.channel
  | [], s => .inl ⟨rfl, rfl⟩
  | q :: qs, s => by
      by_cases ha : (s.1.channel q).active = true
      · have hc := channel_step q p s
        have ho := outcome_step q s
        rw [outcomeIn, serviceEach_cons, if_pos ha, if_pos ha, Op.bind_apply]
        cases hs : step q s with
        | error e t =>
            rw [hs] at hc ho
            by_cases hqp : q = p
            · subst hqp
              rw [if_pos rfl] at hc
              exact .inr ⟨ha, _, _, (if_pos rfl).trans (congrArg some ho), hc⟩
            · rw [if_neg (Ne.symm hqp)] at hc
              exact .inl ⟨if_neg hqp, hc⟩
        | ok status t =>
            rw [hs] at hc ho
            have ht := serviceEach_channel p qs t
            have hr : (Op.outcome ((serviceEach qs >>= fun rest => pure ((q, status) :: rest) :
                Op (Engine × β) (List (Peer × Status))) t)).2 =
                  (Op.outcome (serviceEach qs t)).2 := by
              rw [Op.bind_apply]
              cases serviceEach qs t <;> rfl
            dsimp only
            rw [hr]
            by_cases hqp : q = p
            · subst hqp
              rw [if_pos rfl] at hc
              -- A channel that has had its turn is not active in another one.
              obtain ⟨-, ht⟩ | ⟨hat, -⟩ := ht
              · exact .inr ⟨ha, _, _, (if_pos rfl).trans (congrArg some ho), ht.trans hc⟩
              · exact absurd ((step_settles hs).1.symm.trans hat) Bool.false_ne_true
            · rw [if_neg (Ne.symm hqp)] at hc
              replace hc : t.1.channel p = s.1.channel p := hc
              rw [if_neg hqp, ← hc]
              exact ht
      · rw [outcomeIn, serviceEach_cons, if_neg ha, if_neg ha]
        exact serviceEach_channel p qs s

/-- A channel that is not active has no outcome. -/
theorem outcomeIn_of_inactive (ps : List Peer) (h : (s.1.channel p).active = false) :
    outcomeIn p ps s = none ∧ (Op.outcome (serviceEach ps s)).2.1.channel p = s.1.channel p :=
  (serviceEach_channel p ps s).resolve_right fun ha =>
    absurd (h.symm.trans ha.1) Bool.false_ne_true

theorem mem_outcomesIn_iff {status : Status} : ∀ {ps : List Peer} {s t : Engine × β}
    {outcomes : List (Peer × Status)}, serviceEach ps s = .ok outcomes t →
      ((p, status) ∈ outcomes ↔ outcomeIn p ps s = some (.ok status))
  | [], s, t, outcomes, h => by
      cases h
      simp [outcomeIn]
  | q :: qs, s, t, outcomes, h => by
      rw [serviceEach_cons] at h
      rw [outcomeIn]
      by_cases ha : (s.1.channel q).active = true
      · rw [if_pos ha] at h ⊢
        obtain ⟨status', u, hs, h⟩ := Op.bind_eq_ok.1 h
        obtain ⟨rest, v, hv, h⟩ := Op.bind_eq_ok.1 h
        cases h
        have hu : (p, status) ∈ rest ↔ _ := mem_outcomesIn_iff hv
        rw [hs]
        by_cases hqp : q = p
        · subst hqp
          rw [(outcomeIn_of_inactive qs (step_settles hs).1).1] at hu
          simp [hu, eq_comm]
        · simp [hqp, Ne.symm hqp, hu]
      · rw [if_neg ha] at h ⊢
        exact mem_outcomesIn_iff h

/-- **A pass that gives a result lists the outcomes.** -/
theorem mem_outcomes_iff {status : Status} {outcomes : List (Peer × Status)}
    (h : service s = .ok outcomes t) :
    (p, status) ∈ outcomes ↔ outcome? p s = some (.ok status) := mem_outcomesIn_iff h

theorem service_channel (p : Peer) (s : Engine × β) :
    (outcome? p s = none ∧ (Op.outcome (service s)).2.1.channel p = s.1.channel p) ∨
      (s.1.channel p).active = true ∧ ∃ (k : Controller) (b : β),
        outcome? p s = some (Op.outcome (Channel.step p ⟨s.1.channel p, k, b⟩)).1 ∧
          (Op.outcome (service s)).2.1.channel p =
            (Op.outcome (Channel.step p ⟨s.1.channel p, k, b⟩)).2.channel :=
  serviceEach_channel p _ s

/-- A pass leaves a channel alone that is not active. -/
theorem service_of_inactive (h : (s.1.channel p).active = false) :
    outcome? p s = none ∧ (Op.outcome (service s)).2.1.channel p = s.1.channel p :=
  outcomeIn_of_inactive _ h

/-- No pass puts a channel in a new generation. -/
theorem service_generation (p : Peer) (s : Engine × β) :
    ((Op.outcome (service s)).2.1.channel p).generation = (s.1.channel p).generation := by
  obtain ⟨-, h⟩ | ⟨-, k, b, -, h⟩ := service_channel p s <;> rw [h]
  exact Channel.step_generation p _

/-- A channel whose window ended was active, and waits in the same transfer. -/
theorem service_chopped {resumeIn : Nat} (h : outcome? p s = some (.ok (.chopped resumeIn))) :
    (s.1.channel p).active = true ∧
      ((Op.outcome (service s)).2.1.channel p).running = (s.1.channel p).running ∧
      ((Op.outcome (service s)).2.1.channel p).active = false := by
  obtain ⟨hn, -⟩ | ⟨ha, k, b, ho, hc⟩ := service_channel p s
  · exact absurd (hn.symm.trans h) (by simp)
  · rw [hc]
    rw [ho] at h
    cases hs : Channel.step p ⟨s.1.channel p, k, b⟩ with
    | error e t =>
        rw [hs] at h
        cases h
    | ok status t =>
        rw [hs] at h
        cases h
        exact ⟨ha, Channel.step_paused hs⟩

end Engine

end DmaMachine
