import DmaMachine.Engine.Basic
import DmaMachine.Proofs.Channel.Step

/-!
# When a channel is due

A channel is *due* when it is active and the controller enables it.  A channel becomes active by a
start, a request, or a resumption, and an active one becomes due when the controller enables it;
each of these operations answers whether there is something to service.

* `put_reports`, `request_reports`, `resume_reports`: **no channel becomes due in silence.**  If
  some channel is due after an operation, then one was before, or the operation said so.
* `service_settles`: after a service pass that gives a result no channel is due.
-/

namespace DmaMachine

/-! ### Channels that become active -/

namespace Channel

variable {p : Peer} {c c' : Channel} {b : Bool}

/-- The channel is active only if it was or the operation said so. -/
def Reports (c : Channel) (b : Bool) (c' : Channel) : Prop :=
  c'.active = true → c.active = true ∨ b = true

theorem reports_of_true : Reports c true c' := fun _ => .inr rfl

theorem reports_of_active (h : c'.active = c.active) : Reports c b c' := fun ha => .inl (h ▸ ha)

theorem request_reports (h : request p c = .ok b c') : Reports c b c' := by
  simp only [request] at h
  split at h
  · cases h
    exact reports_of_active rfl
  · split at h
    · cases h
      exact reports_of_true
    · cases h

theorem writeControl_reports {v : UInt32} (h : writeControl p v c = .ok b c') :
    Reports c b c' := by
  simp only [writeControl] at h
  split at h
  · cases h
    rintro ⟨⟩
  · split at h
    · split at h
      · cases h
        exact reports_of_true
      · cases h
    · cases h
      exact reports_of_active rfl

theorem write_reports {r : Register} {v mask : UInt32} (h : write p r v mask c = .ok b c') :
    Reports c b c' := by
  cases r with
  | base | blocks =>
      cases h
      exact reports_of_active rfl
  | control => exact writeControl_reports h

end Channel

namespace Engine

variable {β : Type} {p : Peer} {e e' : Engine} {b : Bool}

theorem due_iff : e.due = true ↔
    ∃ p, (e.channel p).active = true ∧ e.controller.enabled p.index = true := by
  simp [due, Peer.mem_all]

/-- Some channel is due only if one was or the operation said so. -/
def Reports (e : Engine) (b : Bool) (e' : Engine) : Prop :=
  e'.due = true → e.due = true ∨ b = true

/-- An operation on one channel, answering as the controller enables it. -/
theorem reports_setChannel {c : Channel} (h : Channel.Reports (e.channel p) b c) :
    Reports e (b && e.controller.enabled p.index) (e.setChannel p c) := by
  intro hd
  obtain ⟨q, ha, hq⟩ := due_iff.1 hd
  rw [channel_setChannel] at ha
  rw [controller_setChannel] at hq
  by_cases hqp : q = p
  -- The answer tells of a channel that became active only if it is enabled, as a due one is.
  · subst hqp
    rw [if_pos rfl] at ha
    rcases h ha with ha | rfl
    · exact .inl (due_iff.2 ⟨q, ha, hq⟩)
    · exact .inr (by rw [hq]; rfl)
  · rw [if_neg hqp] at ha
    exact .inl (due_iff.2 ⟨q, ha, hq⟩)

/-- Only the priority word of the controller matters to what is due. -/
theorem due_congr {k : Controller} (h : k.priorityWord = e.controller.priorityWord) :
    Engine.due { e with controller := k } = e.due := by
  simp only [due, Controller.enabled, h]
  rfl

theorem put_reports {r : Register} {v mask : UInt32} (h : put r v mask e = .ok b e') :
    Reports e b e' := by
  cases r with
  | channel p r =>
      simp only [put, onChannel] at h
      split at h
      · rename_i a e₁ he
        split at he <;> cases he
        cases h
        rename_i hw
        exact reports_setChannel (Channel.write_reports hw)
      · cases h
  | priority =>
      cases h
      exact fun hd => .inr hd
  | interrupt =>
      cases h
      exact fun hd => .inl ((due_congr (e := e) rfl).symm.trans hd)
  | fixedLow | fixedHigh =>
      cases h
      exact .inl

theorem write_reports {offset v mask : UInt32} (h : write offset v mask e = .ok b e') :
    Reports e b e' := by
  simp only [write] at h
  split at h
  · exact put_reports h
  · cases h

theorem request_reports (h : request p e = .ok b e') : Reports e b e' := by
  simp only [request, onChannel] at h
  split at h
  · rename_i a e₁ he
    split at he <;> cases he
    cases h
    rename_i hr
    exact reports_setChannel (Channel.request_reports hr)
  · cases h

theorem resume_reports {generation : UInt32} (h : resume p generation e = .ok b e') :
    Reports e b e' := by
  simp only [resume] at h
  split at h
  · cases h
    exact .inl
  · cases h
    have := reports_setChannel (e := e) (p := p) (c := (e.channel p).activate)
      Channel.reports_of_true
    rwa [Bool.true_and] at this

/-! ### Service -/

variable [Master β]

/-- The step of a channel within its engine. -/
theorem step_eq (p : Peer) (s : Engine × β) :
    step p s = match Channel.step p ⟨s.1.channel p, s.1.controller, s.2⟩ with
      | .ok status t =>
          .ok status ({ s.1.setChannel p t.channel with controller := t.controller }, t.bus)
      | .error fault t =>
          .error fault ({ s.1.setChannel p t.channel with controller := t.controller }, t.bus) := by
  obtain ⟨⟨channels, controller⟩, bus⟩ := s
  have := p.index_lt
  simp only [step, channel]
  cases Channel.step p ⟨channels[p.index], controller, bus⟩ <;> rfl

/-- A step of the channel that gives a result is one of the engine. -/
theorem step_of_channel {p : Peer} {s : Engine × β} {status : Status} {t : Stage β}
    (h : Channel.step p ⟨s.1.channel p, s.1.controller, s.2⟩ = .ok status t) :
    ∃ e, step p s = .ok status (e, t.bus) ∧ e.channel p = t.channel := by
  refine ⟨_, by rw [step_eq, h], ?_⟩
  show (s.1.setChannel p t.channel).channel p = _
  rw [channel_setChannel, if_pos rfl]

/-- A step that gives a result leaves its channel inactive, and the other channels and the
priority word alone. -/
theorem step_settles {status : Status} {s t : Engine × β} (h : step p s = .ok status t) :
    (t.1.channel p).active = false ∧ (∀ q, q ≠ p → t.1.channel q = s.1.channel q) ∧
      t.1.controller.priorityWord = s.1.controller.priorityWord := by
  rw [step_eq] at h
  split at h
  · rename_i hs
    cases h
    obtain ⟨ha, hk⟩ := Channel.step_settles hs
    refine ⟨?_, fun q hq => ?_, hk⟩
    · show ((s.1.setChannel p _).channel p).active = false
      rw [channel_setChannel, if_pos rfl]
      exact ha
    · show (s.1.setChannel p _).channel q = _
      rw [channel_setChannel, if_neg hq]
  · cases h

/-- After their steps the given channels are inactive, and the others are as they were. -/
theorem serviceEach_settles : ∀ {ps : List Peer} {s t : Engine × β}
    {outcomes : List (Peer × Status)}, serviceEach ps s = .ok outcomes t →
      (∀ p ∈ ps, (t.1.channel p).active = false) ∧
        (∀ q, q ∉ ps → t.1.channel q = s.1.channel q) ∧
        t.1.controller.priorityWord = s.1.controller.priorityWord
  | [], s, t, outcomes, h => by
      cases h
      exact ⟨fun p hp => (List.not_mem_nil hp).elim, fun _ _ => rfl, rfl⟩
  | p :: ps, s, t, outcomes, h => by
      -- A channel that is settled before the rest of the list stays so.
      have rest : ∀ {u : Engine × β} {more : List (Peer × Status)}, serviceEach ps u = .ok more t →
          (u.1.channel p).active = false → (∀ q, q ≠ p → u.1.channel q = s.1.channel q) →
          u.1.controller.priorityWord = s.1.controller.priorityWord →
          (∀ q ∈ p :: ps, (t.1.channel q).active = false) ∧
            (∀ q, q ∉ p :: ps → t.1.channel q = s.1.channel q) ∧
            t.1.controller.priorityWord = s.1.controller.priorityWord := fun hu ha hq hk => by
        obtain ⟨hin, hout, hkt⟩ := serviceEach_settles hu
        refine ⟨fun q hm => ?_, fun q hm => ?_, hkt.trans hk⟩
        · by_cases hqs : q ∈ ps
          · exact hin q hqs
          · rw [hout q hqs]
            rcases List.mem_cons.1 hm with rfl | hm
            · exact ha
            · exact absurd hm hqs
        · rw [List.mem_cons, not_or] at hm
          exact (hout q hm.2).trans (hq q hm.1)
      simp only [serviceEach] at h
      by_cases ha : (s.1.channel p).active = true
      · rw [if_pos ha] at h
        split at h
        · rename_i hs
          split at h
          · rename_i hu
            cases h
            obtain ⟨hin, hout, hk⟩ := step_settles hs
            exact rest hu hin hout hk
          · cases h
        · cases h
      · rw [if_neg ha] at h
        exact rest h (Bool.not_eq_true _ ▸ ha) (fun _ _ => rfl) rfl

/-- **After a service pass that gives a result no channel is due.** -/
theorem service_settles {s t : Engine × β} {outcomes : List (Peer × Status)}
    (h : service s = .ok outcomes t) : t.1.due = false := by
  obtain ⟨hin, -, hk⟩ := serviceEach_settles h
  rw [Bool.eq_false_iff]
  intro hd
  obtain ⟨p, ha, hp⟩ := due_iff.1 hd
  rw [Controller.enabled, hk] at hp
  rw [hin p ((Controller.mem_order _ p).2 hp)] at ha
  cases ha

end Engine

end DmaMachine
