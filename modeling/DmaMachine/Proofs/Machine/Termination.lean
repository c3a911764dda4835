import DmaMachine.Proofs.Engine.Yields
import DmaMachine.Proofs.Machine.Errands
import DmaMachine.Proofs.Machine.Lockstep
import Mathlib.Algebra.Order.BigOperators.Group.List
import Mathlib.Algebra.Order.Group.Nat

/-!
# Runs that end

A run feeds itself: the cycles that the engine takes advance the clock, by that a channel may resume
that has yielded, and it takes more of them.  A client's actions can keep a run going forever.  The
engine cannot.  Every event of its own that fires either is a resumption, which asks for one service
pass at most, or is a service pass, and plans a resumption only for a burst that has moved words and
has some left.

* `Machine.work`: what is left to do for the engine, as a number.
* `fire_settles`: **an event on an errand that fires leaves less work.**
* `run_ends`: so **every run ends** whose events are all on errands, in as many rounds as there
  is work, with a result or a fault.
-/

namespace DmaMachine

/-! ### Loops with a measure -/

namespace Host

variable {σ τ ι : Type} [Host σ τ]

/-- Firing an event of a state with the invariant ends, in the same way for every member of a
family, and leaves the invariant and a smaller measure behind if it gives a result. -/
def Settles (fire : ι → τ → Nat → Run σ Unit) (I : σ → Prop) (μ : σ → Nat) : Prop :=
  ∀ {s : σ} {target : Nat} {e : Event τ} {t : Timeline τ}, I s →
    (timeline s).popDue target = some (e, t) →
      ∃ r s', (∀ i, fire i e.task (target - e.triggerAt) (setTimeline t s) = some (r, s')) ∧
        (r = .ok () → I s' ∧ μ s' < μ s)

variable {fire : ι → τ → Nat → Run σ Unit} {I : σ → Prop} {μ : σ → Nat}

/-- **The loop ends** within any bound above the measure.  It has fired nothing or the measure is
smaller. -/
theorem Settles.fireDue (hf : Settles fire I μ) (target : Nat) {s : σ} (hs : I s) :
    ∃ r s', (∀ i bound, μ s < bound → Host.fireDue (fire i) target bound s = some (r, s')) ∧
      (r = .ok () → I s' ∧ (s' = s ∨ μ s' < μ s)) := by
  induction hn : μ s using Nat.strongRecOn generalizing s with
  | ind n ih =>
    subst hn
    have succ : ∀ {bound : Nat}, μ s < bound → ∃ b, bound = b + 1 ∧ μ s ≤ b := fun h =>
      ⟨_, (Nat.succ_pred_eq_of_pos (Nat.zero_lt_of_lt h)).symm, Nat.le_pred_of_lt h⟩
    cases hp : (timeline s).popDue target with
    | none =>
        refine ⟨.ok (), s, fun i bound hb => ?_, fun _ => ⟨hs, .inl rfl⟩⟩
        obtain ⟨b, rfl, -⟩ := succ hb
        exact fireDue_of_popDue_eq_none hp b
    | some et =>
        obtain ⟨e, t⟩ := et
        obtain ⟨r, s₁, hr, hs₁⟩ := hf hs hp
        cases r with
        | error fault =>
            refine ⟨.error fault, s₁, fun i bound hb => ?_, nofun⟩
            obtain ⟨b, rfl, -⟩ := succ hb
            exact fireDue_of_fault hp (hr i) b
        | ok =>
            obtain ⟨hI, hlt⟩ := hs₁ rfl
            obtain ⟨r, s', hr', hs'⟩ := ih _ hlt hI rfl
            refine ⟨r, s', fun i bound hb => ?_, fun h => ?_⟩
            · obtain ⟨b, rfl, hle⟩ := succ hb
              rw [fireDue_of_ok hp (hr i) b]
              exact hr' i b (Nat.lt_of_lt_of_le hlt hle)
            · refine ⟨(hs' h).1, .inr ?_⟩
              obtain rfl | hlt' := (hs' h).2
              · exact hlt
              · exact Nat.lt_trans hlt' hlt

end Host

/-! ### The work of the engine -/

/-- How many events may fire for one: a resumption may ask for a service pass. -/
def Task.weight {α : Type} : Task α → Nat
  | .service => 1
  | .resume .. => 2
  | .periodic .. | .client _ => 0

namespace Machine

variable {δ α υ : Type} {m m' : Machine δ α υ}

/-- Every pending event is on an errand of the engine. -/
def OnErrands (m : Machine δ α υ) : Prop := ∀ e ∈ m.timeline.events, e.task.errand? ≠ none

instance (m : Machine δ α υ) : Decidable m.OnErrands :=
  inferInstanceAs (Decidable (∀ e ∈ m.timeline.events, e.task.errand? ≠ none))

/-- What the pending events amount to. -/
def load (m : Machine δ α υ) : Nat := (m.timeline.events.map (·.task.weight)).sum

/-- What is left to do for the engine: every word that is left to a burst may come to a resumption
and a service pass. -/
def work (m : Machine δ α υ) : Nat := 3 * m.engine.burstWords + m.load

/-! ### New events -/

/-- The engine is the same, and events on errands have come that amount to `n` at most. -/
structure Adds (n : Nat) (m m' : Machine δ α υ) : Prop where
  engine : m'.engine = m.engine
  load : m'.load ≤ m.load + n
  onErrands : m.OnErrands → m'.OnErrands

theorem adds_of_sublist (he : m'.engine = m.engine)
    (hs : m'.timeline.events.Sublist m.timeline.events) : Adds 0 m m' where
  engine := he
  load := (hs.map _).sum_le_sum fun _ _ => Nat.zero_le _
  onErrands h e hm := h e (hs.subset hm)

theorem Adds.trans {k n : Nat} {m₁ : Machine δ α υ} (h : Adds k m m₁) (h' : Adds n m₁ m') :
    Adds (k + n) m m' where
  engine := h'.engine.trans h.engine
  load := Nat.le_trans h'.load (Nat.add_assoc .. ▸ Nat.add_le_add_right h.load n)
  onErrands := h'.onErrands ∘ h.onErrands

theorem scheduleTask_adds {name : String} {delay id : Nat} {task : Task α}
    (ht : task.errand? ≠ none) (h : scheduleTask name delay task m = .ok id m') :
    Adds task.weight m m' := by
  obtain ⟨-, rfl⟩ := scheduleTask_eq_ok h
  refine ⟨rfl, Nat.le_of_eq ?_, fun hm e he => ?_⟩
  · have hp := (Event.perm_insert ⟨m.timeline.nextId, name, m.timeline.now,
      Timeline.wrap (m.timeline.now + delay), task⟩ m.timeline.events).map (·.task.weight)
    exact hp.sum_eq.trans (Nat.add_comm ..)
  · obtain rfl | he := Event.mem_insert.1 he
    · exact ht
    · exact hm e he

theorem requestService_adds (h : requestService m = .ok () m') : Adds 1 m m' := by
  simp only [requestService] at h
  split at h
  · cases h
    exact ⟨rfl, Nat.le_add_right .., id⟩
  · split at h
    · rename_i hs
      cases h
      have ha := scheduleTask_adds (by simp [Task.errand?]) hs
      exact ⟨ha.engine, ha.load, ha.onErrands⟩
    · cases h

theorem dropResume_adds (p : Peer) (m : Machine δ α υ) : Adds 0 m (m.dropResume p) := by
  have := p.index_lt
  rw [dropResume]
  cases m.resumeEvents[p.index] with
  | none => exact adds_of_sublist rfl (List.Sublist.refl _)
  | some stale => exact adds_of_sublist rfl (List.eraseP_sublist ..)

theorem scheduleResume_adds {p : Peer} {delay : Nat} (h : scheduleResume p delay m = .ok () m') :
    Adds 2 m m' := by
  simp only [scheduleResume] at h
  split at h
  · rename_i hs
    cases h
    have ha := (dropResume_adds p m).trans (scheduleTask_adds (by simp [Task.errand?]) hs)
    exact ⟨ha.engine, ha.load, ha.onErrands⟩
  · cases h

/-- A resumption is planned for every channel that yields. -/
theorem noteOutcomes_adds : ∀ {outcomes : List (Peer × Status)} {m m' : Machine δ α υ},
    noteOutcomes outcomes m = .ok () m' → Adds (2 * Engine.yields outcomes) m m'
  | [], m, m', h => by
      cases h
      exact ⟨rfl, Nat.le_refl _, id⟩
  | (p, status) :: rest, m, m', h => by
      obtain ⟨⟨⟩, m₁, h₁, h⟩ := Op.bind_eq_ok.1 h
      have hr := noteOutcomes_adds h
      have counted : ∀ stats : Stats, Adds 0 m { m with stats } := fun _ =>
        adds_of_sublist rfl (List.Sublist.refl _)
      rw [Engine.yields, List.countP_cons, ← Engine.yields, Nat.mul_add, Nat.add_comm]
      cases status with
      | chopped resumeIn =>
          have hs := (counted _).trans ((scheduleResume_adds h₁).trans hr)
          rwa [Nat.zero_add] at hs
      | idle | completed | blockDone | faulted =>
          cases h₁
          exact (counted _).trans hr

/-! ### Firing -/

section Board

variable [Board δ]

/-- A service pass does the work of the resumptions that it plans. -/
theorem serviceChannels_work (hm : m.OnErrands) (h : serviceChannels m = .ok () m') :
    m'.OnErrands ∧ m'.work ≤ m.work := by
  obtain ⟨timeline, bus, engine, service, resumes, slots, stats, memory⟩ := m
  simp only [serviceChannels] at h
  cases he : Engine.service (engine, bus) with
  | error e s =>
      rw [he] at h
      cases h
  | ok outcomes s =>
      rw [he] at h
      have hw := Engine.service_burstWords he
      dsimp only at h hw
      split at h
      · cases h
      · rename_i m₁ hn
        cases h
        have ha := noteOutcomes_adds hn
        have hrise : Adds 0 m₁ (m₁.noteRise engine.controller.line) := by
          rw [noteRise]
          split <;> exact adds_of_sublist rfl (List.Sublist.refl _)
        have hall := ha.trans hrise
        refine ⟨hall.onErrands hm, ?_⟩
        have hl : Machine.load _ ≤ Machine.load _ + _ := hall.load
        simp only [work, hall.engine] at hl ⊢
        show 3 * s.1.burstWords + _ ≤ 3 * engine.burstWords + (timeline.events.map _).sum
        have : Machine.load (δ := δ) ⟨timeline, s.2, s.1, none, resumes, slots, stats, memory⟩ =
          (timeline.events.map (·.task.weight)).sum := rfl
        omega

omit [Board δ] in
/-- A resumption asks for one service pass at most. -/
theorem resumeChannel_work {p : Peer} {generation : UInt32} (hm : m.OnErrands)
    (h : resumeChannel p generation m = .ok () m') :
    m'.OnErrands ∧ m'.work ≤ m.work + 1 := by
  have hw := congrArg Engine.burstWords (resumeChannel_engine p generation m)
  rw [Engine.resume_burstWords, h] at hw
  obtain ⟨⟨⟩, m₁, h₁, h⟩ := Op.bind_eq_ok.1 h
  obtain ⟨b, m₂, h₂, h⟩ := Op.bind_eq_ok.1 h
  have ht : m₂.timeline = m.timeline := by
    cases h₁
    simp only [onEngine] at h₂
    split at h₂ <;> cases h₂
    rfl
  have ha : Adds 1 m₂ m' := by
    cases b with
    | true => exact requestService_adds h
    | false =>
        cases h
        exact ⟨rfl, Nat.le_add_right .., id⟩
  refine ⟨ha.onErrands ?_, ?_⟩
  · rw [OnErrands, ht]
    exact hm
  · have hl := ha.load
    simp only [load, ht] at hl
    simp only [work, load]
    replace hw : m'.engine.burstWords = _ := hw
    omega

/-- **An event on an errand that fires leaves less work.**  No client has a part in it. -/
theorem fire_settles :
    Host.Settles (fire (δ := δ) (α := α) (υ := υ)) OnErrands work := by
  intro m target e t hm hp
  obtain ⟨hev, -⟩ := Timeline.popDue_eq_some_iff.1 hp
  replace hev : m.timeline.events = e :: t.events := hev
  have hpop : (Host.setTimeline t m).OnErrands := fun d hd =>
    hm d (hev ▸ List.mem_cons_of_mem e hd)
  have hwork : m.work = (Host.setTimeline t m).work + e.task.weight := by
    simp only [work, load, hev, List.map_cons, List.sum_cons]
    show _ = 3 * m.engine.burstWords + (t.events.map _).sum + _
    omega
  have he := hm e (hev ▸ List.mem_cons_self)
  cases ht : e.task with
  | service =>
      rw [ht, Task.weight] at hwork
      refine ⟨_, _, fun i => rfl, fun h => ?_⟩
      obtain ⟨hI, hw⟩ := serviceChannels_work hpop (Op.outcome_eq_ok.1 (Prod.ext h rfl))
      exact ⟨hI, Nat.lt_of_le_of_lt hw (by omega)⟩
  | resume p generation =>
      rw [ht, Task.weight] at hwork
      refine ⟨_, _, fun i => rfl, fun h => ?_⟩
      obtain ⟨hI, hw⟩ := resumeChannel_work hpop (Op.outcome_eq_ok.1 (Prod.ext h rfl))
      exact ⟨hI, Nat.lt_of_le_of_lt hw (by omega)⟩
  | periodic | client => exact absurd (congrArg Task.errand? ht) he

/-! ### Running -/

/-- An advance ends within any bound above the work.  Either nothing has fired or there is less work
than before. -/
theorem advance_ends (n : Nat) (hm : m.OnErrands) :
    ∃ r m', (∀ execute bound, m.work < bound →
        Host.advance (fire execute) bound n m = some (r, m')) ∧
      (r = .ok () → m'.OnErrands ∧
        (m' = Host.setNow (Timeline.wrap (m.timeline.now + n)) m ∨ m'.work < m.work)) :=
  let target := Timeline.wrap (m.timeline.now + n)
  fire_settles.fireDue target (s := Host.setNow target m) hm

/-- **The cycles that the engine takes run out.**  Every round after which some are left has fired
an event, so there is less work than before. -/
theorem drain_ends (hm : m.OnErrands) : ∃ r m', ∀ execute bound n, m.work < bound →
    m.work + 1 < n → drain (fire execute) bound n m = some (r, m') := by
  induction hn : m.work using Nat.strongRecOn generalizing m with
  | ind w ih =>
    subst hn
    have succ : ∀ {n : Nat}, m.work + 1 < n → ∃ k, n = k + 1 ∧ m.work < k := fun h =>
      ⟨_, (Nat.succ_pred_eq_of_pos (Nat.zero_lt_of_lt h)).symm, Nat.lt_pred_of_succ_lt h⟩
    rcases ht : takeStolen m with ⟨_ | stolen, m₁⟩
    · refine ⟨.ok (), m₁, fun execute bound n _ hn => ?_⟩
      obtain ⟨n, rfl, -⟩ := succ hn
      exact drain_of_takeStolen_eq_zero ht bound n
    · obtain ⟨hm₁, hw₁, hb₁⟩ : m₁.OnErrands ∧ m₁.work = m.work ∧ m₁.bus.pendingCycles = 0 := by
        obtain rfl : (takeStolen m).2 = m₁ := congrArg Prod.snd ht
        exact ⟨hm, rfl, rfl⟩
      obtain ⟨r, m₂, hadv, hm₂⟩ := advance_ends (stolen + 1) hm₁
      rw [hw₁] at hadv hm₂
      cases r with
      | error fault =>
          refine ⟨.error fault, m₂, fun execute bound n hb hn => ?_⟩
          obtain ⟨n, rfl, -⟩ := succ hn
          rw [drain_of_takeStolen ht, Run.bind_apply, hadv execute bound hb]
      | ok =>
          obtain ⟨hI, heq | hlt⟩ := hm₂ rfl
          -- Nothing has fired, so nothing has been taken since.
          · have hz : m₂.bus.pendingCycles = 0 := heq ▸ hb₁
            refine ⟨.ok (), m₂, fun execute bound n hb hn => ?_⟩
            obtain ⟨k, rfl, hk⟩ := succ hn
            obtain ⟨k, rfl⟩ := Nat.exists_eq_add_one_of_ne_zero (Nat.ne_zero_of_lt hk)
            rw [drain_of_takeStolen ht, Run.bind_apply, hadv execute bound hb]
            exact drain_of_takeStolen_eq_zero (takeStolen_of_pendingCycles hz) bound k
          · obtain ⟨r, m', hd⟩ := ih _ hlt hI rfl
            refine ⟨r, m', fun execute bound n hb hn => ?_⟩
            obtain ⟨k, rfl, hk⟩ := succ hn
            rw [drain_of_takeStolen ht, Run.bind_apply, hadv execute bound hb]
            exact hd execute bound k (Nat.lt_trans hlt hb)
              (Nat.lt_of_le_of_lt (Nat.succ_le_of_lt hlt) hk)

/-- **Every run ends** whose events are all on errands of the engine, with a result or a fault, and
takes no more rounds and no more events in one of them than there is work.  What its client would
do is never asked. -/
theorem run_ends (cycles : Nat) (hm : m.OnErrands) :
    ∃ r m', ∀ (handler : Handler δ α υ) (bound : Nat), m.work + 2 ≤ bound →
      perform handler bound (.run cycles) m = some (r, m') := by
  obtain ⟨r, m₁, hadv, hm₁⟩ := advance_ends cycles hm
  have hrun : ∀ (handler : Handler δ α υ) {bound : Nat}, m.work + 2 ≤ bound →
      ∃ execute, m.work + 1 < bound ∧ perform handler bound (.run cycles) m =
        (Host.advance (fire execute) bound cycles >>= fun _ =>
          drain (fire execute) bound bound) m := fun handler bound hb => by
    obtain ⟨b, rfl⟩ := Nat.exists_eq_add_one_of_ne_zero (Nat.ne_zero_of_lt hb)
    exact ⟨_, hb, congrFun (run_eq (b + 1) cycles) m⟩
  cases r with
  | error fault =>
      refine ⟨.error fault, m₁, fun handler bound hb => ?_⟩
      obtain ⟨execute, hb, h⟩ := hrun handler hb
      rw [h, Run.bind_apply, hadv execute bound (Nat.lt_of_succ_lt hb)]
      rfl
  | ok =>
      obtain ⟨hI, hw⟩ := hm₁ rfl
      have hle : m₁.work ≤ m.work := by
        obtain rfl | hlt := hw
        · exact Nat.le_refl _
        · exact Nat.le_of_lt hlt
      obtain ⟨r, m', hd⟩ := drain_ends hI
      refine ⟨r, m', fun handler bound hb => ?_⟩
      obtain ⟨execute, hb, h⟩ := hrun handler hb
      rw [h, Run.bind_apply, hadv execute bound (Nat.lt_of_succ_lt hb)]
      exact hd execute bound bound (by omega) (by omega)

end Board

/-! A burst of three words is started, chopped after each of them.  It yields twice. -/

def choppedScript : Script (interface BareBoard Unit Unit) Unit := do
  let _ ← Script.call (I := interface BareBoard Unit Unit) (.write .word 0x1F8010F0 0x00000800)
  let _ ← Script.call (I := interface BareBoard Unit Unit) (.write .word 0x1F8010A0 0x100)
  let _ ← Script.call (I := interface BareBoard Unit Unit) (.write .word 0x1F8010A4 3)
  Script.call (I := interface BareBoard Unit Unit) (.write .word 0x1F8010A8 0x11000101)

theorem chopped_burst_ends : ∃ m,
    choppedScript.exec (perform (fun _ _ => .done ()) 0) (initial ⟨⟩ ()) = some (.ok (), m) ∧
      m.OnErrands ∧ m.work = 10 ∧
      ∃ r m', ∀ (handler : Handler BareBoard Unit Unit) (bound : Nat), 12 ≤ bound →
        perform handler bound (.run 1) m = some (r, m') := by
  have hx : (choppedScript.exec (perform (fun _ _ => .done ()) 0) (initial ⟨⟩ ())).any (fun x =>
      x.1.isOk && decide x.2.OnErrands && x.2.work == 10) = true := by
    decide +kernel
  obtain ⟨⟨r, m⟩, hx, hm⟩ := (Option.any_eq_true _ _).1 hx
  simp only [Bool.and_eq_true, decide_eq_true_eq, beq_iff_eq] at hm
  obtain ⟨⟨hr, hm⟩, hw⟩ := hm
  cases r with
  | error e => cases hr
  | ok =>
      have hends := run_ends 1 hm
      rw [hw] at hends
      exact ⟨m, hx, hm, hw, hends⟩

end Machine

end DmaMachine
