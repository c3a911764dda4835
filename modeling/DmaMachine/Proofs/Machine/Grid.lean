import DmaMachine.Proofs.Machine.Generations
import DmaMachine.Proofs.Machine.Range

/-!
# Deadlines on the grid

A registration made at time `t₀` with period `p` has its deadlines at `t₀ + p`, `t₀ + 2 * p`, and so
on.  Runs may be of any size, and the engine may take cycles from any of them: deadlines pass by
while the clock moves, and each of them is called for when the run comes to the registration's
event, as late as it then is.

Between two deadlines the registration *waits*: one event of it is pending, at the next deadline.
When the event is taken out the registration is *called*, once for the event and once for every
further deadline that has passed, and then its next event is made, `p - late` from now.  All of that
happens at the time up to which the run fires what is due, so no call drifts off the grid.

* `perform_spares`: a call that spares the registration leaves its events and its slot alone.
* `Move.ticking`: **a move keeps the registration on its grid.**
* `Moves.task_unused`: no event and no call has the registration's task when it is made, unless the
  generations of its slot have come round.
* `deadlines_stay_on_grid`: **so does every history** whose callbacks leave the clock alone and
  which spares the registration.
* `slow_called_early`: a deadline that 64 bits do not hold, and a call long before it.
-/

namespace DmaMachine

namespace Machine

open Journal

variable {δ α υ β γ : Type} [DecidableEq α] {m m' : Machine δ α υ}

/-- The pending events of a registration. -/
def eventsOf (g : Registration α) (m : Machine δ α υ) : List (Event (Task α)) :=
  m.timeline.events.filter (·.task = g.task)

/-- The item neither ends the registration nor takes out its event, and is of no run that fails. -/
def Item.Spares (g : Registration α) : Item δ α υ → Prop
  | .began (.cancelPeriodic h) _ => h ≠ g.handle
  | .began (.deschedule id) m => ∀ e ∈ m.eventsOf g, e.id ≠ id
  | .began .reset _ | .ended (.restore _) (.ok _) _ => False
  | .ended (.run _) r _ => ∃ a, r = .ok a
  | .ended .runToNext r _ => ∃ a, r = .ok a
  | _ => True

instance {β : Type} : DecidablePred fun r : Except Fault β => ∃ a, r = .ok a
  | .ok a => .isTrue ⟨a, rfl⟩
  | .error _ => .isFalse fun ⟨_, h⟩ => nomatch h

instance (g : Registration α) : DecidablePred (Item.Spares (δ := δ) (υ := υ) g)
  | .began (.cancelPeriodic h) _ => inferInstanceAs (Decidable (h ≠ g.handle))
  | .began (.deschedule id) m => inferInstanceAs (Decidable (∀ e ∈ m.eventsOf g, e.id ≠ id))
  | .began .reset _ | .ended (.restore _) (.ok _) _ => .isFalse id
  | .ended (.run _) r _ => inferInstanceAs (Decidable (∃ a, r = .ok a))
  | .ended .runToNext r _ => inferInstanceAs (Decidable (∃ a, r = .ok a))
  | .began (.read ..) _ | .began (.write ..) _ | .began (.writeMasked ..) _
  | .began (.request _) _ | .began .takeEdge _ | .began (.run _) _ | .began .runToNext _
  | .began (.schedule ..) _ | .began (.schedulePeriodic ..) _ | .began (.capture ..) _
  | .began (.restore _) _ | .began (.bus _) _ | .began (.observe _) _
  | .ended (.read ..) .. | .ended (.write ..) .. | .ended (.writeMasked ..) ..
  | .ended (.request _) .. | .ended .takeEdge .. | .ended (.schedule ..) ..
  | .ended (.schedulePeriodic ..) .. | .ended (.cancelPeriodic _) .. | .ended (.deschedule _) ..
  | .ended .reset .. | .ended (.capture ..) .. | .ended (.restore _) (.error _) _
  | .ended (.bus _) .. | .ended (.observe _) .. | .fired .. | .invoked .. => .isTrue trivial

/-- 64 bits hold the deadline that is next at the time. -/
def Registration.Fits (g : Registration α) (t₀ now : Nat) : Prop :=
  t₀ + ((now - t₀) / g.period + 1) * g.period < UInt64.size

omit [DecidableEq α] in
theorem Registration.Fits.mono {g : Registration α} {t₀ now now' : Nat} (h : g.Fits t₀ now')
    (hn : now ≤ now') : g.Fits t₀ now := by
  refine Nat.lt_of_le_of_lt (Nat.add_le_add_left (Nat.mul_le_mul_right _ ?_) t₀) h
  exact Nat.succ_le_succ (Nat.div_le_div_right (Nat.sub_le_sub_right hn t₀))

omit [DecidableEq α] in
/-- A deadline fits that comes after one that has passed. -/
theorem Registration.Fits.deadline_lt {g : Registration α} {t₀ now n : Nat} (h : g.Fits t₀ now)
    (hpos : 0 < g.period) (hn : t₀ + n * g.period ≤ now) :
    t₀ + (n + 1) * g.period < UInt64.size := by
  refine Nat.lt_of_le_of_lt (Nat.add_le_add_left (Nat.mul_le_mul_right _ ?_) t₀) h
  exact Nat.succ_le_succ ((Nat.le_div_iff_mul_le hpos).2 (Nat.le_sub_of_add_le' hn))

/-- Where a registration stands after it was called for so many deadlines. -/
inductive Stands (g : Registration α) (t₀ n : Nat) : List (Level δ α υ) → Machine δ α υ → Prop where
  /-- Its only event is pending at the next deadline. -/
  | waiting {ls : List (Level δ α υ)} {m : Machine δ α υ} (e : Event (Task α))
      (he : m.eventsOf g = [e]) (ht : e.triggerAt = t₀ + (n + 1) * g.period)
      (hn : t₀ + n * g.period ≤ m.timeline.now) (hd : ls = [] → m.timeline.now < e.triggerAt)
      (hl : ∀ l ∈ ls, l.doing.task? ≠ some g.task) : Stands g t₀ n ls m
  /-- It is being called, and has no event pending. -/
  | called {m : Machine δ α υ} (c : Call δ α υ) (target late : Nat) (he : m.eventsOf g = [])
      (hn : m.timeline.now = t₀ + n * g.period + late) :
      Stands g t₀ n
        [⟨c, target, .catching g.handle g.name g.period g.action (late / g.period) late⟩] m
  /-- The run has failed. -/
  | failed {ls : List (Level δ α υ)} {m : Machine δ α υ} (l : Level δ α υ)
      (hl : l ∈ ls) (hf : l.doing = .failing) : Stands g t₀ n ls m

/-- A registration in force and on its grid, given the calls of it so far. -/
structure OnGrid (g : Registration α) (t₀ : Nat) (calls : List (Nat × Nat))
    (ls : List (Level δ α υ)) (m : Machine δ α υ) : Prop where
  registered : m.isRegistered g.handle = true
  /-- The call for each deadline says how long ago it was. -/
  gridded : ∀ (i late now : Nat), calls[i]? = some (late, now) →
    now = t₀ + (i + 1) * g.period + late
  stands : Stands g t₀ calls.length ls m

/-- So it is, and levels, journal and clock are in order. -/
structure Ticking (g : Registration α) (t₀ : Nat) (ts : List (Option (Task α)))
    (calls : List (Nat × Nat)) (ls : List (Level δ α υ)) (m : Machine δ α υ) : Prop
    extends OnGrid g t₀ calls ls m where
  coherent : m.Coherent
  agrees : Matches ls ts
  atTarget : AtTarget ls m

variable {g : Registration α}

theorem mem_eventsOf {e : Event (Task α)} :
    e ∈ m.eventsOf g ↔ e ∈ m.timeline.events ∧ e.task = g.task := by
  simp [eventsOf]

theorem eventsOf_congr (h : m'.periodicEvents = m.periodicEvents) :
    m'.eventsOf g = m.eventsOf g := by
  have eq : ∀ k : Machine δ α υ, k.eventsOf g = k.periodicEvents.filter (·.task = g.task) := by
    intro k
    rw [eventsOf, periodicEvents, List.filter_filter]
    refine List.filter_congr fun e _ => ?_
    by_cases he : e.task = g.task <;> simp [he]
    rfl
  rw [eq, eq, h]

variable [Board δ] {handler : Handler δ α υ}

/-- A call that spares the registration. -/
theorem perform_spares {bound : Nat} {c : Call δ α υ} {r : Except Fault c.Answer} (h : m.Coherent)
    (hg : m.isRegistered g.handle = true) (hc : ¬c.Fires)
    (hp : perform handler bound c m = some (r, m')) (hs : (Item.began c m).Spares g)
    (hs' : (Item.ended c r m').Spares g) :
    SameTime m m' ∧ m'.eventsOf g = m.eventsOf g ∧ m'.isRegistered g.handle = true := by
  have aside : Aside m m' →
      SameTime m m' ∧ m'.eventsOf g = m.eventsOf g ∧ m'.isRegistered g.handle = true := fun ha =>
    ⟨ha.now, eventsOf_congr (ha.periodicEvents h), (isRegistered_congr ha.slots).trans hg⟩
  cases c with
  | read | write | writeMasked | request | takeEdge | schedule | capture | observe =>
      exact aside (perform_beside (by exact trivial) hp).toAside
  | bus => exact aside (perform_bus_aside hp)
  | run | runToNext => exact absurd trivial hc
  | reset => exact hs.elim
  | restore s =>
      simp only [perform] at hp
      obtain ⟨e, he⟩ | ⟨m₁, he, -⟩ := restore_cases s m <;> rw [Op.toRun_apply, he] at hp <;>
        cases hp
      · exact ⟨rfl, rfl, hg⟩
      · exact hs'.elim
  | deschedule id =>
      simp only [perform] at hp
      cases hp
      refine ⟨rfl, filter_eraseP fun e he hid => ?_, hg⟩
      exact decide_eq_false fun ht => hs e (mem_eventsOf.2 ⟨he, ht⟩) (eq_of_beq hid)
  | schedulePeriodic name period action =>
      simp only [perform] at hp
      have hslot := freeSlot_ne hg
      obtain ⟨-, e, he⟩ | ⟨-, slots, ⟨⟨e, he⟩, hsl⟩ | ⟨he, hsl⟩⟩ :=
        schedulePeriodic_cases name period action m <;> rw [Op.toRun_apply, he] at hp <;> cases hp
      · exact ⟨rfl, rfl, hg⟩
      · exact ⟨rfl, rfl, (isRegistered_of_slot (by rw [hsl, if_neg hslot])).trans hg⟩
      · refine ⟨rfl, filter_insert (decide_eq_false fun ht => hslot ?_) _,
          (isRegistered_of_slot (by rw [hsl, if_neg hslot])).trans hg⟩
        exact (congrArg PeriodicHandle.slot (Task.periodic.inj ht).1).symm
  | cancelPeriodic handle =>
      simp only [perform] at hp
      obtain ⟨-, he⟩ | ⟨id, slots, hid, he, hsl⟩ := cancelPeriodic_cases handle m
      · rw [he] at hp
        cases hp
        exact ⟨rfl, rfl, hg⟩
      · rw [he] at hp
        cases hp
        have hslot : g.handle.slot ≠ handle.slot := fun ht =>
          hs (eq_of_slot hg (isRegistered_iff.2 ⟨id, hid⟩) ht).symm
        refine ⟨rfl, filter_eraseP fun e he heq => decide_eq_false fun ht => hslot ?_,
          (isRegistered_of_slot (by rw [hsl, if_neg hslot])).trans hg⟩
        -- The event that is taken out is the other slot's.
        obtain ⟨h', _, _, _, ht', hs'⟩ :=
          h.slot_task e he handle.slot _ hid (congrArg some (eq_of_beq heq).symm)
        rw [← hs', (Task.periodic.inj (ht'.symm.trans ht)).1]

omit [Board δ] in
/-- What is taken out to be fired is the registration's event, or another one. -/
theorem eventsOf_popped {target : Nat} {e : Event (Task α)} {t : Timeline (Task α)}
    (hp : m.timeline.popDue target = some (e, t)) :
    m.eventsOf g = if e.task = g.task then e :: (Host.setTimeline t m).eventsOf g
      else (Host.setTimeline t m).eventsOf g := by
  rw [eventsOf, (Timeline.popDue_eq_some_iff.1 hp).1, List.filter_cons]
  simp only [decide_eq_true_eq]
  rfl

omit [Board δ] in
/-- The next event of another registration. -/
theorem armPeriodic_other {h : PeriodicHandle} {name : String} {delay period : Nat} {action : α}
    {r : Except Fault Unit} (ho : Op.outcome (armPeriodic h name delay period action m) = (r, m'))
    (hne : .periodic h name period action ≠ g.task) : m'.eventsOf g = m.eventsOf g := by
  obtain ⟨e, he⟩ | ⟨slots, he, -⟩ := armPeriodic_cases h name delay period action m <;>
    rw [he] at ho <;> cases ho
  · rfl
  · exact filter_insert (decide_eq_false hne) _

omit [Board δ] in
/-- The registration's event is its only one, if there was none. -/
theorem eventsOf_withEvent {delay : Nat} {slots : Array PeriodicSlot} (hev : m.eventsOf g = []) :
    eventsOf g { m with timeline := m.withEvent g.name delay g.task, slots } =
      [⟨m.timeline.nextId, g.name, m.timeline.now, Timeline.wrap (m.timeline.now + delay),
        g.task⟩] := by
  refine List.perm_singleton.1 (((Event.perm_insert _ _).filter _).trans ?_)
  refine .of_eq ((List.filter_cons_of_pos ?_).trans (congrArg _ hev))
  exact decide_eq_true rfl

omit [Board δ] in
/-- The registration's own next event. -/
theorem armPeriodic_own {delay : Nat} (hev : m.eventsOf g = [])
    (ho : armPeriodic g.handle g.name delay g.period g.action m = .ok () m') :
    ∃ e, m'.eventsOf g = [e] ∧ e.triggerAt = Timeline.wrap (m.timeline.now + delay) := by
  obtain ⟨e, he⟩ | ⟨slots, he, -⟩ := armPeriodic_cases g.handle g.name delay g.period g.action m <;>
    rw [he] at ho <;> cases ho
  exact ⟨_, eventsOf_withEvent hev, rfl⟩

/-! ### Steps -/

omit [Board δ] in
/-- One more call, for the next deadline. -/
theorem OnGrid.snoc {t₀ late now : Nat} {calls : List (Nat × Nat)} {ls : List (Level δ α υ)}
    (hr : m.isRegistered g.handle = true)
    (hg : ∀ (i late now : Nat), calls[i]? = some (late, now) →
      now = t₀ + (i + 1) * g.period + late)
    (hn : now = t₀ + (calls.length + 1) * g.period + late)
    (hst : Stands g t₀ (calls.length + 1) ls m) : OnGrid g t₀ (calls ++ [(late, now)]) ls m := by
  refine ⟨hr, fun i late' now' hi => ?_, by rwa [List.length_append]⟩
  rw [List.getElem?_append] at hi
  split at hi
  · exact hg i late' now' hi
  · rename_i hlt
    obtain ⟨hz, hv⟩ := List.getElem?_eq_some_iff.1 hi
    obtain rfl : i = calls.length := by simp at hz; omega
    simp only [Nat.sub_self, List.getElem_cons_zero, Prod.mk.injEq] at hv
    obtain ⟨rfl, rfl⟩ := hv
    exact hn

section Stands

omit [Board δ]

variable {t₀ n target late : Nat} {ls : List (Level δ α υ)} {l l' : Level δ α υ} {c : Call δ α υ}
  {e : Event (Task α)} {t : Timeline (Task α)}

theorem Stands.congr (h : Stands g t₀ n ls m) (ht : SameTime m m')
    (he : m'.eventsOf g = m.eventsOf g) : Stands g t₀ n ls m' := by
  cases h with
  | waiting e hev htr hn hd hl =>
      exact .waiting e (he.trans hev) htr (ht ▸ hn) (fun hls => ht ▸ hd hls) hl
  | called c target late hev hn => exact .called c target late (he.trans hev) (ht.trans hn)
  | failed l hl hf => exact .failed l hl hf

/-- A registration that the only run is not calling waits. -/
theorem Stands.waits (h : Stands g t₀ n [l] m) (hl : l.doing.task? ≠ some g.task)
    (hf : l.doing ≠ .failing) : ∃ e, m.eventsOf g = [e] ∧ e.triggerAt = t₀ + (n + 1) * g.period ∧
      t₀ + n * g.period ≤ m.timeline.now := by
  cases h with
  | waiting e he ht hn => exact ⟨e, he, ht, hn⟩
  | called => exact absurd rfl hl
  | failed d hd hfd =>
      rw [List.mem_singleton.1 hd] at hfd
      exact absurd hfd hf

/-- A registration that the only run is catching up with is being called. -/
theorem Stands.calling (h : Stands g t₀ n [l] m) (hl : l.doing.task? = some g.task) :
    ∃ late, l.doing = .catching g.handle g.name g.period g.action (late / g.period) late ∧
      m.eventsOf g = [] ∧ m.timeline.now = t₀ + n * g.period + late := by
  cases h with
  | waiting e he ht hn hd hne => exact absurd hl (hne l (.head _))
  | called c target late he hn => exact ⟨late, rfl, he, hn⟩
  | failed d hd hfd =>
      rw [← List.mem_singleton.1 hd, hfd] at hl
      cases hl

/-- While it waits, the run may do something else, and the clock may go on. -/
theorem Stands.go (h : Stands g t₀ n [l] m) (hl : l.doing.task? ≠ some g.task)
    (hf : l.doing ≠ .failing) (hl' : l'.doing.task? ≠ some g.task)
    (hn : m.timeline.now ≤ m'.timeline.now) (he : m'.eventsOf g = m.eventsOf g) :
    Stands g t₀ n [l'] m' := by
  obtain ⟨e, hev, ht, hle⟩ := h.waits hl hf
  refine .waiting e (he.trans hev) ht (Nat.le_trans hle hn) nofun fun d hd => ?_
  rw [List.mem_singleton.1 hd]
  exact hl'

theorem Stands.aside (h : Stands g t₀ n [l] m) (hl : l.doing.task? ≠ some g.task)
    (hf : l.doing ≠ .failing) (hl' : l'.doing.task? ≠ some g.task) (hc : m.Coherent)
    (ha : Aside m m') : Stands g t₀ n [l'] m' :=
  h.go hl hf hl' (Nat.le_of_eq ha.now.symm) (eventsOf_congr (ha.periodicEvents hc))

/-- Its own event is taken out, and it is called as late as the deadline is past. -/
theorem Stands.fired (h : Stands g t₀ n [⟨c, target, .firing⟩] m) (hn : m.timeline.now = target)
    (hp : m.timeline.popDue target = some (e, t)) (he : e.task = g.task) :
    t.now = t₀ + (n + 1) * g.period + (target - e.triggerAt) ∧
      Stands g t₀ (n + 1) [⟨c, target, .catching g.handle g.name g.period g.action
        ((target - e.triggerAt) / g.period) (target - e.triggerAt)⟩] (Host.setTimeline t m) := by
  obtain ⟨e', hev, ht, -⟩ := h.waits nofun nofun
  rw [eventsOf_popped hp, if_pos he] at hev
  obtain ⟨rfl, hnil⟩ := List.cons.inj hev
  obtain ⟨-, hdue, hnow, -⟩ := Timeline.popDue_eq_some_iff.1 hp
  have hgrid : t.now = t₀ + (n + 1) * g.period + (target - e.triggerAt) := by
    rw [hnow, hn, ← ht]
    exact (Nat.add_sub_cancel' hdue).symm
  exact ⟨hgrid, .called c target _ hnil hgrid⟩

/-- It is called for one more deadline. -/
theorem Stands.next {left : Nat} (hpos : 0 < g.period) (h : Stands g t₀ n
      [⟨c, target, .catching g.handle g.name g.period g.action (left + 1) late⟩] m) :
    m.timeline.now = t₀ + (n + 1) * g.period + (late - g.period) ∧
      Stands g t₀ (n + 1)
        [⟨c, target, .catching g.handle g.name g.period g.action left (late - g.period)⟩] m := by
  obtain ⟨late', hd, hev, hnow⟩ := h.calling rfl
  obtain ⟨-, -, -, -, hleft, rfl⟩ := Doing.catching.inj hd
  have hle : g.period ≤ late := Nat.le_of_not_lt fun hlt => by
    rw [Nat.div_eq_of_lt hlt] at hleft
    cases hleft
  obtain rfl : left = (late - g.period) / g.period := by
    rw [Nat.div_eq_sub_div hpos hle] at hleft
    exact Nat.succ.inj hleft
  have hgrid : m.timeline.now = t₀ + (n + 1) * g.period + (late - g.period) := by
    rw [hnow, Nat.succ_mul]
    omega
  exact ⟨hgrid, .called c target _ hev hgrid⟩

/-- No more deadline has passed, and its next event is made. -/
theorem Stands.rearm {r : Except Fault Unit} (hpos : 0 < g.period)
    (hfit : g.Fits t₀ m.timeline.now)
    (h : Stands g t₀ n [⟨c, target, .catching g.handle g.name g.period g.action 0 late⟩] m)
    (ho : Op.outcome (armPeriodic g.handle g.name (g.period - late) g.period g.action m) =
      (r, m')) :
    Stands g t₀ n [⟨c, target, .after r⟩] m' := by
  obtain ⟨late', hd, hev, hnow⟩ := h.calling rfl
  obtain ⟨-, -, -, -, hleft, rfl⟩ := Doing.catching.inj hd
  cases r with
  | error e => exact .failed _ (.head _) rfl
  | ok =>
      obtain ⟨e, he, ht⟩ := armPeriodic_own hev (Op.outcome_eq_ok.1 ho)
      have hlt : late < g.period := Nat.lt_of_div_eq_zero hpos hleft.symm
      have hsum : m.timeline.now + (g.period - late) = t₀ + (n + 1) * g.period := by
        rw [hnow, Nat.succ_mul]
        omega
      have htr : e.triggerAt = t₀ + (n + 1) * g.period := by
        rw [ht, hsum, Timeline.wrap_of_lt (hfit.deadline_lt hpos (hnow ▸ Nat.le_add_right ..))]
      refine .waiting e he htr ?_ nofun fun l hl => ?_
      · rw [clock_armPeriodic.of_outcome ho, hnow]
        exact Nat.le_add_right ..
      · rw [List.mem_singleton.1 hl]
        exact nofun

/-- Nothing is due, and the run ends. -/
theorem Stands.rests (h : Stands g t₀ n [⟨c, target, .firing⟩] m) (hn : m.timeline.now = target)
    (hc : m.Coherent) (hp : m.timeline.popDue target = none) : Stands g t₀ n [] m := by
  obtain ⟨e, hev, ht, hle⟩ := h.waits nofun nofun
  have he : e ∈ m.timeline.events := (mem_eventsOf.1 (hev ▸ List.mem_singleton_self e)).1
  refine .waiting e hev ht hle (fun _ => ?_) (List.forall_mem_nil _)
  exact hn ▸ hc.wellFormed.not_due hp e he

end Stands

/-- **A move keeps the registration on its grid**, if it is in range, spares the registration, and
leaves the clock alone while a run is under way. -/
theorem Move.onGrid {t₀ : Nat} {ts : List (Option (Task α))} {calls : List (Nat × Nat)}
    {ls ls' : List (Level δ α υ)} {j : Journal δ α υ} (hpos : 0 < g.period)
    (h : Ticking g t₀ ts calls ls m) (hm : Move handler ls m j ls' m')
    (hq : ls ≠ [] → ∀ i ∈ j.head?, i.Stays) (hs : ∀ i ∈ j, i.Spares g)
    (hfit : g.Fits t₀ m.timeline.now) (hn : m.timeline.now ≤ m'.timeline.now) :
    OnGrid g t₀ (calls ++ callsOf g.task ts j) ls' m' := by
  obtain ⟨⟨hr, hg, hst⟩, hco, hmt, hat⟩ := h
  have silent : ∀ {ls : List (Level δ α υ)} {m : Machine δ α υ}, callsOf g.task ts j = [] →
      m.isRegistered g.handle = true → Stands g t₀ calls.length ls m →
      OnGrid g t₀ (calls ++ callsOf g.task ts j) ls m := fun hj hr hst => by
    rw [hj, List.append_nil]
    exact ⟨hr, hg, hst⟩
  cases hm with
  | call hc hp =>
      obtain ⟨ht, he, hr'⟩ := perform_spares hco hr hc hp (hs _ (by simp)) (hs _ (by simp))
      exact silent rfl hr' (hst.congr ht he)
  | idle => exact silent rfl hr hst
  | began hc =>
      cases hst with
      | waiting e he ht hle hd hl =>
          refine silent rfl hr (.waiting e he ht (Nat.le_trans hle hn) nofun ?_)
          exact List.forall_mem_cons.2 ⟨nofun, hl⟩
      | called => exact absurd (hq (by simp) _ rfl) hc.not_stays
      | failed l hl hf => exact silent rfl hr (.failed l (.tail _ hl) hf)
  | service hp he ho =>
      obtain ⟨rfl, -⟩ := hat.cons
      have ha := service_aside hp he ho
      exact silent rfl ((isRegistered_congr ha.slots).trans hr)
        (hst.aside nofun nofun (by simp) hco ha)
  | resume hp he ho =>
      obtain ⟨rfl, -⟩ := hat.cons
      have ha := resume_aside hp he ho
      exact silent rfl ((isRegistered_congr ha.slots).trans hr)
        (hst.aside nofun nofun (by simp) hco ha)
  | client hp he =>
      obtain ⟨rfl, -⟩ := hat.cons
      cases hmt with
      | cons _ hmt =>
          have ha := popDue_aside hp (by rw [he]; rfl)
          refine silent ?_ hr (hst.aside nofun nofun nofun hco ha)
          rw [callsOf_fired, he, if_neg nofun]
  | @periodic _ _ c target e t h name period action hp he =>
      obtain ⟨rfl, hat⟩ := hat.cons
      cases hmt with
      | cons _ hmt =>
          rw [callsOf_fired]
          by_cases heg : e.task = g.task
          · rw [if_pos heg]
            obtain ⟨rfl, rfl, rfl, rfl⟩ := Task.periodic.inj (he.symm.trans heg)
            obtain ⟨hgrid, hst⟩ := hst.fired hat hp heg
            exact .snoc hr hg hgrid hst
          · rw [if_neg heg, List.append_nil]
            have hev := (eventsOf_popped hp).trans (if_neg heg)
            have hnow := (Timeline.popDue_eq_some_iff.1 hp).2.2.1
            refine ⟨hr, hg, hst.go nofun nofun (fun h => heg ?_) (Nat.le_of_eq hnow.symm) hev.symm⟩
            exact he.trans (Option.some.inj h)
  | @next _ _ c target h name period action left late =>
      obtain ⟨rfl, -⟩ := hat.cons
      cases hmt with
      | @cons _ s _ _ hs hmt =>
          obtain rfl := hs _ rfl
          rw [callsOf_invoked]
          by_cases heg : .periodic h name period action = g.task
          · rw [if_pos heg]
            obtain ⟨rfl, rfl, rfl, rfl⟩ := Task.periodic.inj heg
            obtain ⟨hgrid, hst⟩ := hst.next hpos
            exact .snoc hr hg hgrid hst
          · rw [if_neg heg, List.append_nil]
            exact ⟨hr, hg, hst.go (fun h => heg (Option.some.inj h)) nofun
              (fun h => heg (Option.some.inj h)) (Nat.le_refl _) rfl⟩
  | @rearm _ _ _ c target h name period action late r _ ho =>
      obtain ⟨rfl, -⟩ := hat.cons
      have hr' := armPeriodic_registered hr h name (period - late) period action
      rw [ho] at hr'
      refine silent rfl hr' ?_
      by_cases heg : .periodic h name period action = g.task
      · obtain ⟨rfl, rfl, rfl, rfl⟩ := Task.periodic.inj heg
        exact hst.rearm hpos hfit ho
      · have hsame := clock_armPeriodic.of_outcome ho
        exact hst.go (fun h => heg (Option.some.inj h)) nofun (by simp) (Nat.le_of_eq hsame.symm)
          (armPeriodic_other ho heg)
  | lapsed hr' =>
      obtain ⟨rfl, -⟩ := hat.cons
      refine silent rfl hr (hst.go (fun h => ?_) nofun nofun (Nat.le_refl _) rfl)
      cases Option.some.inj h
      rw [hr] at hr'
      cases hr'
  | failed => exact silent rfl hr (.failed _ (.head _) rfl)
  | drained hp ht =>
      obtain ⟨rfl, -⟩ := hat.cons
      have hsl := congrArg (·.2.slots) ht
      have htl := congrArg (·.2.timeline) ht
      refine silent rfl ((isRegistered_congr hsl.symm).trans hr)
        (hst.go nofun nofun nofun hn ?_)
      exact congrArg (·.events.filter (·.task = g.task)) htl.symm
  | ended _ _ hp =>
      obtain ⟨rfl, hat⟩ := hat.cons
      exact silent rfl hr (hst.rests hat hco hp)
  | @aborted _ _ c _ hc e =>
      have hs := hs _ (.head _)
      cases c with
      | run | runToNext =>
          obtain ⟨_, ⟨⟩⟩ := hs
      | _ => exact hc.elim

/-- What spares the registration does not clear the machine. -/
theorem Move.clears_of_spares {ls ls' : List (Level δ α υ)} {j : Journal δ α υ}
    (hm : Move handler ls m j ls' m') (hs : ∀ i ∈ j, i.Spares g) : ∀ i ∈ j, i.clears = false := by
  intro i hi
  cases i with
  | began | fired | invoked => rfl
  | ended c r k =>
      cases c with
      | reset =>
          obtain ⟨before, after, rfl⟩ := List.append_of_mem hi
          obtain ⟨rfl, -⟩ := hm.of_ended id
          exact absurd (hs (.began .reset m) (by simp)) id
      | restore s =>
          cases r with
          | ok => exact absurd (hs _ hi) id
          | error => rfl
      | _ => rfl

/-- **A history after the registration** keeps it on its grid, as long as nothing wraps around. -/
theorem Moves.ticking {t₀ : Nat} {k j : Journal δ α υ} {ls ls' : List (Level δ α υ)}
    (hpos : 0 < g.period) (h : Ticking g t₀ (underway k) [] ls m) (hm : Moves handler ls m j ls' m')
    (hq : Quiet (k ++ j)) (hs : ∀ i ∈ j, i.Spares g) (ha : m.ahead < UInt64.size) (hr : InRange j)
    (hfit : g.Fits t₀ m'.timeline.now) :
    Ticking g t₀ (underway (k ++ j)) (callsOf g.task (underway k) j) ls' m' := by
  have kept := hm.preserves_inRange (h := [])
    (J := fun ls h m => m.timeline.WellFormed ∧ (Quiet (k ++ h) → (∀ i ∈ h, i.Spares g) →
      g.Fits t₀ m.timeline.now →
      Ticking g t₀ (underway (k ++ h)) (callsOf g.task (underway k) h) ls m))
    (fun {ls ls' h j m m'} ⟨hw, ih⟩ ha hj hm =>
      ⟨hm.turn.wellFormed hw, fun hq hs hfit => ?_⟩)
    ⟨h.coherent.wellFormed, fun _ _ _ => by simpa [callsOf] using h⟩ ha hr
  · exact kept.2 hq hs hfit
  · have hsj : ∀ i ∈ j, i.Spares g := fun i hi => hs i (List.mem_append_right _ hi)
    have hn := hm.now_le hw ha hj (hm.clears_of_spares hsj)
    rw [← List.append_assoc] at hq
    have h₀ := ih (Throughout.left hq) (fun i hi => hs i (List.mem_append_left _ hi))
      (hfit.mono hn)
    have hh : _ → ∀ i ∈ j.head?, i.Stays := fun hl i hi =>
      Throughout.head hq i hi (h₀.agrees.ne_nil hl)
    rw [← List.append_assoc, callsOf_append, ← underway_append, underway_append (k ++ h)]
    exact ⟨hm.onGrid hpos h₀ hh hsj (hfit.mono hn) hn, hm.coherent h₀.coherent,
      hm.matches h₀.agrees, hm.atTarget h₀.atTarget hh⟩

/-! ### A new registration -/

omit [DecidableEq α] in
/-- What is being fired was being fired before, or it was pending. -/
theorem Move.mem_under {ls ls' : List (Level δ α υ)} {j : Journal δ α υ}
    {ts : List (Option (Task α))} (hm : Move handler ls m j ls' m') {t : Task α}
    (ht : some t ∈ j.foldl Item.under ts) :
    some t ∈ ts ∨ ∃ e ∈ m.timeline.events, e.task = t := by
  have fired : ∀ {target : Nat} {e : Event (Task α)} {u : Timeline (Task α)},
      m.timeline.popDue target = some (e, u) →
      some t ∈ (Item.fired e (target - e.triggerAt) (Host.setTimeline u m)).under ts →
      some t ∈ ts ∨ ∃ e ∈ m.timeline.events, e.task = t := fun hp ht => by
    cases ts with
    | nil => cases ht
    | cons s ts =>
        rcases List.mem_cons.1 ht with he | ht
        · exact .inr ⟨_, (Timeline.popDue_eq_some_iff.1 hp).1 ▸ .head _, (Option.some.inj he).symm⟩
        · exact .inl (.tail _ ht)
  cases hm with
  | call =>
      rw [under_call] at ht
      exact .inl ht
  | began hc =>
      rw [List.foldl_cons, under_began hc] at ht
      exact .inl ((List.mem_cons.1 ht).resolve_left (by simp))
  | service hp | resume hp | client hp | periodic hp => exact fired hp ht
  | ended hc | aborted hc =>
      rw [List.foldl_cons, under_ended hc] at ht
      exact .inl (List.mem_of_mem_tail ht)
  | idle | next | rearm | lapsed | failed | drained => exact .inl ht

omit [DecidableEq α] in
/-- Only a call that moves the clock drops registrations. -/
theorem Move.of_clears {ls ls' : List (Level δ α υ)} {j : Journal δ α υ}
    (hm : Move handler ls m j ls' m') {i : Item δ α υ} (hi : i ∈ j) (hc : i.clears = true) :
    (∃ i ∈ j.head?, ¬i.Stays) ∧ ∀ ts, j.foldl Item.under ts = ts := by
  cases hm with
  | @call _ _ _ _ c r =>
      refine ⟨⟨_, rfl, fun hs => ?_⟩, fun ts => under_call c ts r m m'⟩
      rcases List.mem_pair.1 hi with rfl | rfl
      · cases hc
      · cases c <;> first | exact hs.elim | cases hc
  | @began _ _ c _ hf | @ended _ _ c _ hf | @aborted _ _ c _ hf =>
      obtain rfl := List.mem_singleton.1 hi
      cases c <;> first | exact hf.elim | cases hc
  | service | resume | next =>
      obtain rfl := List.mem_singleton.1 hi
      cases hc
  | client | periodic | idle => rcases List.mem_pair.1 hi with rfl | rfl <;> cases hc
  | rearm | lapsed | failed | drained => cases hi

omit [DecidableEq α] in
/-- **Nothing being fired is of a later generation than its slot**, if callbacks leave the clock
alone. -/
theorem Move.current_under {ls ls' : List (Level δ α υ)} {h j : Journal δ α υ}
    {ts : List (Option (Task α))} {s : Nat} (hd : Dated s h m) (hd' : Dated s (h ++ j) m')
    (hm : Move handler ls m j ls' m') (hq : ts ≠ [] → ∀ i ∈ j.head?, i.Stays)
    (ht : ∀ t, some t ∈ ts → m.Current s t) (t : Task α)
    (hj : some t ∈ j.foldl Item.under ts) : m'.Current s t := by
  by_cases hk : ∀ i ∈ j, i.clears = false
  · have hc : m.Current s t := by
      rcases hm.mem_under hj with hj | ⟨e, he, rfl⟩
      · exact ht t hj
      · cases hp : e.task.isPeriodic with
        | true => exact hd.current e (mem_periodicEvents.2 ⟨he, hp⟩)
        | false =>
            intro k hk
            cases hev : e.task <;> rw [hev] at hp hk <;> cases hp <;> cases hk
    exact hc.mono (hd.generation_le hd'.numbered hk)
  -- A reset is outside of all runs, and then nothing is being fired.
  · simp only [not_forall, Bool.not_eq_false] at hk
    obtain ⟨i, hi, hc⟩ := hk
    obtain ⟨⟨i', hi', hs⟩, hu⟩ := hm.of_clears hi hc
    rw [hu] at hj
    exact absurd (hq (List.ne_nil_of_mem hj) i' hi') hs

omit [DecidableEq α] in
/-- **So throughout a history** whose callbacks leave the clock alone. -/
theorem Moves.current_under {ls : List (Level δ α υ)} {j k : Journal δ α υ} {s : Nat}
    (hd : Dated s j m) (hm : Moves handler [] m k ls m') (hf : claimsOf s (j ++ k) < UInt32.size)
    (hq : Quiet k) : ∀ t, some t ∈ underway k → m'.Current s t := by
  have kept := hm.preserves (h := [])
    (J := fun _ h m => claimsOf s (j ++ h) < UInt32.size → Quiet h →
      Dated s (j ++ h) m ∧ ∀ t, some t ∈ underway h → m.Current s t)
    (fun {ls ls' h k m m'} ih hm hf hq => ?_) (fun _ _ => ⟨by simpa using hd, nofun⟩)
  · exact (kept hf hq).2
  · rw [← List.append_assoc] at hf ⊢
    obtain ⟨hd, hc⟩ := ih (countP_lt_left hf) (Throughout.left hq)
    have hd' := hm.dated hd hf
    refine ⟨hd', ?_⟩
    rw [underway_append]
    exact hm.current_under hd hd' (fun hne i hi => Throughout.head hq i hi hne) hc

/-- **The task of a registration is its own** when it is made, as long as its slot was not claimed
as often as there are generations: nothing is pending with it, and nothing being fired has it. -/
theorem Moves.task_unused {bound : Nat} {ls : List (Level δ α υ)} {j k : Journal δ α υ}
    {m₀ : Machine δ α υ} (hd : Dated g.handle.slot j m) (hm : Moves handler [] m k ls m')
    (hp : perform handler bound (.schedulePeriodic g.name g.period g.action) m' =
      some (.ok g.handle, m₀))
    (hf : claimsOf g.handle.slot
      (j ++ k ++ [.began (.schedulePeriodic g.name g.period g.action) m']) < UInt32.size)
    (hq : Quiet k) : m'.eventsOf g = [] ∧ some g.task ∉ underway k := by
  obtain ⟨hh, hclaim, -⟩ := perform_made (g := g) hp rfl
  have hd' : Dated g.handle.slot (j ++ k) m' := hm.dated hd (countP_lt_left hf)
  have fresh : ¬m'.Current g.handle.slot g.task := hd'.not_current hh (by
    rwa [claimsOf, List.countP_append, List.countP_singleton, if_pos hclaim] at hf)
  refine ⟨List.eq_nil_iff_forall_not_mem.2 fun e he => ?_,
    fun ht => fresh (hm.current_under hd (countP_lt_left hf) hq _ ht)⟩
  obtain ⟨he, ht⟩ := mem_eventsOf.1 he
  exact fresh (ht ▸ hd'.current e (mem_periodicEvents.2 ⟨he, by rw [ht]; rfl⟩))

/-- A registration begins on its grid. -/
theorem ticking_of_registered {bound : Nat} {ts : List (Option (Task α))} {ls : List (Level δ α υ)}
    (hp : perform handler bound (.schedulePeriodic g.name g.period g.action) m =
      some (.ok g.handle, m'))
    (hco : m.Coherent) (hmt : Matches ls ts) (hat : AtTarget ls m) (hev : m.eventsOf g = [])
    (hts : some g.task ∉ ts) (hfit : m'.timeline.now + g.period < UInt64.size) :
    0 < g.period ∧ Ticking g m'.timeline.now ts [] ls m' := by
  have hco' := perform_coherent hco id hp
  simp only [perform] at hp
  obtain ⟨-, e, he⟩ | ⟨hne, slots, ⟨⟨e, he⟩, -⟩ | ⟨he, hsl⟩⟩ :=
    schedulePeriodic_cases g.name g.period g.action m <;> rw [Op.toRun_apply, he] at hp
  · cases hp
  · cases hp
  · obtain ⟨hh, rfl⟩ := Prod.mk.inj (Option.some.inj hp)
    replace hh : m.nextHandle = g.handle := Except.ok.inj hh
    rw [hh] at hsl hco' ⊢
    have hpos := Nat.pos_of_ne_zero hne
    refine ⟨hpos, ⟨isRegistered_iff.2 ⟨m.timeline.nextId, ?_⟩, by simp, ?_⟩, hco', hmt,
      hat.sameTime rfl⟩
    · have hslot : g.handle.slot = m.freeSlot := (congrArg PeriodicHandle.slot hh).symm
      rw [hsl, if_pos hslot]
    · have htr : Timeline.wrap (m.timeline.now + g.period) = m.timeline.now + g.period :=
        Timeline.wrap_of_lt hfit
      refine .waiting _ (eventsOf_withEvent hev) ?_ ?_ (fun _ => ?_)
        fun l hl ht => hts (hmt.mem hl ht)
      · simp [withEvent, htr]
      · simp
      · show m.timeline.now < Timeline.wrap (m.timeline.now + g.period)
        rw [htr]
        exact Nat.lt_add_of_pos_right hpos

/-! ### The statement -/

omit [Board δ] in
/-- Between two deadlines the calls are those that have passed. -/
theorem OnGrid.passed {t₀ : Nat} {calls : List (Nat × Nat)} (h : OnGrid g t₀ calls [] m) :
    calls.length = (m.timeline.now - t₀) / g.period ∧
      ∃ e, m.eventsOf g = [e] ∧
        e.triggerAt = t₀ + ((m.timeline.now - t₀) / g.period + 1) * g.period := by
  cases h.stands with
  | failed _ hl => cases hl
  | waiting e he ht hn hd =>
      have hlt := hd rfl
      have hcount : calls.length = (m.timeline.now - t₀) / g.period := by
        refine (Nat.div_eq_of_lt_le ?_ ?_).symm
        · exact Nat.le_sub_of_add_le (Nat.add_comm .. ▸ hn)
        · exact Nat.sub_lt_left_of_lt_add (Nat.le_trans (Nat.le_add_right ..) hn) (ht ▸ hlt)
      exact ⟨hcount, e, he, hcount ▸ ht⟩

def tick : Registration Unit := ⟨⟨0, 1⟩, "tick", 100, ()⟩

/-- Charges the bus and runs twice. -/
def tickRuns : Script (interface BareBoard Unit Unit) Unit := do
  let _ ← Script.call (I := interface BareBoard Unit Unit) (.bus (.charge 7))
  let _ ← Script.call (I := interface BareBoard Unit Unit) (.run 250)
  let _ ← Script.call (I := interface BareBoard Unit Unit) (.run 130)
  return ()

def tickScript : Script (interface BareBoard Unit Unit) Unit := do
  let _ ← Script.call (I := interface BareBoard Unit Unit) (.schedulePeriodic "tick" 100 ())
  tickRuns

def tickHandler : Handler BareBoard Unit Unit := fun _ _ => .done ()

/-- The machine with the registration made. -/
def tickStart : Machine BareBoard Unit Unit where
  timeline := { nextId := 1, events := [⟨0, "tick", 0, 100, tick.task⟩] }
  bus := { board := ⟨⟩ }
  slots := #[⟨1, some 0⟩]
  memory := ()

def slow : Registration Unit := ⟨⟨0, 1⟩, "slow", 18446744073709551615, ()⟩

/-- Registers it, and runs for no cycle. -/
def slowScript : Script (interface BareBoard Unit Unit) Unit := do
  let _ ← Script.call (I := interface BareBoard Unit Unit) (.run 1)
  let _ ← Script.call (I := interface BareBoard Unit Unit)
    (.schedulePeriodic slow.name slow.period slow.action)
  Script.call (I := interface BareBoard Unit Unit) (.run 0)

end Machine

end DmaMachine
