import DmaMachine.Proofs.Machine.Callbacks
import DmaMachine.Proofs.Machine.Registry

/-!
# What moves the clock

Of all that a client can have a machine do, only running, resetting, and restoring a snapshot move
the clock (`Call.Stays`).  As long as callbacks do none of these, at most one run is under way, and
the clock shows the time up to which that run fires what is due (`AtTarget`).

* `perform_clock`: a call that fires nothing keeps the time, or it resets or restores.
* `Move.atTarget`, `Moves.atTarget`: **a move keeps a machine at its target**, and so does a history
  whose callbacks leave the clock alone.
* `run_settles`: after a run whose callbacks leave the clock alone nothing is due.
-/

namespace DmaMachine

namespace Machine

open Journal

variable {δ α υ β : Type} {m m' : Machine δ α υ}

/-- The clock shows the same time. -/
def SameTime (m m' : Machine δ α υ) : Prop := m'.timeline.now = m.timeline.now

/-! ### The bus -/

/-- Everything but the bus, the statistics and the client's memory is the same. -/
def Alike (m m' : Machine δ α υ) : Prop :=
  ∃ bus stats memory, m' = { m with bus, stats, memory }

theorem alike_chains : Chains (Alike (δ := δ) (α := α) (υ := υ)) where
  refl m := ⟨m.bus, m.stats, m.memory, rfl⟩
  trans := by
    rintro _ _ _ ⟨_, _, _, rfl⟩ ⟨bus, stats, memory, rfl⟩
    exact ⟨bus, stats, memory, rfl⟩

theorem alike_onBus (op : Op (Bus δ) β) : Op.Relates (Alike (α := α) (υ := υ)) (onBus op) := by
  intro m
  simp only [onBus]
  cases op m.bus <;> exact ⟨_, m.stats, m.memory, rfl⟩

theorem read_alike [Board δ] (w : Width) (a : UInt32) :
    Op.Relates (Alike (δ := δ) (α := α) (υ := υ)) (read w a) :=
  read_relates alike_chains (fun _ _ => alike_onBus _) w a

theorem writeLanes_alike [Board δ] (a v mask : UInt32) (lanes : List UInt32) :
    Op.Relates (Alike (δ := δ) (α := α) (υ := υ)) (writeLanes a v mask lanes) :=
  writeLanes_relates alike_chains (fun _ _ => alike_onBus _) (fun _ _ _ => alike_onBus _) a v mask
    lanes

/-! ### Calls -/

theorem clock_armPeriodic {h : PeriodicHandle} {name : String} {delay period : Nat} {action : α} :
    Op.Relates (SameTime (δ := δ) (υ := υ)) (armPeriodic h name delay period action) := by
  intro m
  obtain ⟨e, he⟩ | ⟨slots, he, -⟩ := armPeriodic_cases h name delay period action m <;>
    rw [he] <;> rfl

theorem clock_schedulePeriodic {name : String} {period : Nat} {action : α} :
    Op.Relates (SameTime (δ := δ) (υ := υ)) (schedulePeriodic name period action) := by
  intro m
  obtain ⟨-, e, he⟩ | ⟨-, slots, ⟨⟨e, he⟩, -⟩ | ⟨he, -⟩⟩ :=
    schedulePeriodic_cases name period action m <;> rw [he] <;> rfl

theorem clock_cancelPeriodic (h : PeriodicHandle) (m : Machine δ α υ) :
    SameTime m (m.cancelPeriodic h).2 := by
  obtain ⟨-, he⟩ | ⟨id, slots, -, he, -⟩ := cancelPeriodic_cases h m <;> rw [he] <;> rfl

/-- The calls that leave the clock alone. -/
def Call.Stays : Call δ α υ → Prop
  | .run _ | .runToNext | .reset | .restore _ => False
  | _ => True

theorem Call.Fires.not_stays {c : Call δ α υ} (hc : c.Fires) : ¬c.Stays := by
  cases c <;> first | exact id | exact hc.elim

/-- **Only running, resetting, and restoring move the clock.** -/
theorem perform_clock [Board δ] {handler : Handler δ α υ} {bound : Nat} {c : Call δ α υ}
    {r : Except Fault c.Answer} (hc : c.Stays) (hp : perform handler bound c m = some (r, m')) :
    SameTime m m' := by
  cases c with
  | read | write | writeMasked | request | takeEdge | schedule | capture | observe =>
      exact (perform_beside (by exact trivial) hp).now
  | bus c => exact (perform_bus_aside hp).now
  | schedulePeriodic name period action =>
      simp only [perform] at hp
      exact clock_schedulePeriodic.of_outcome (Option.some.inj hp)
  | cancelPeriodic h =>
      simp only [perform] at hp
      cases hp
      exact clock_cancelPeriodic h m
  | deschedule =>
      simp only [perform] at hp
      cases hp
      rfl
  | run | runToNext | reset | restore => cases hc

instance : DecidablePred (Call.Stays (δ := δ) (α := α) (υ := υ))
  | .run _ | .runToNext | .reset | .restore _ => .isFalse id
  | .read .. | .write .. | .writeMasked .. | .request _ | .takeEdge | .schedule ..
  | .deschedule _ | .schedulePeriodic .. | .cancelPeriodic _ | .capture .. | .bus _
  | .observe _ => .isTrue trivial

/-- The call that begins leaves the clock alone. -/
def Item.Stays : Item δ α υ → Prop
  | .began c _ => c.Stays
  | _ => True

instance : DecidablePred (Item.Stays (δ := δ) (α := α) (υ := υ))
  | .began c _ => inferInstanceAs (Decidable c.Stays)
  | .ended .. | .fired .. | .invoked .. => .isTrue trivial

/-- No call of the journal moves the clock. -/
def Calm (j : Journal δ α υ) : Prop := ∀ i ∈ j, i.Stays

instance (j : Journal δ α υ) : Decidable (Calm j) :=
  inferInstanceAs (Decidable (∀ i ∈ j, i.Stays))

/-! ### Runs -/

/-- What the callbacks of a history do leaves the clock alone. -/
def Quiet (j : Journal δ α υ) : Prop := Throughout (fun k i => underway k ≠ [] → i.Stays) j

instance (j : Journal δ α υ) : Decidable (Quiet j) :=
  inferInstanceAs (Decidable (Throughout (fun k i => underway k ≠ [] → i.Stays) j))

/-- At most one run is under way, and it is at the time up to which it fires what is due. -/
def AtTarget : List (Level δ α υ) → Machine δ α υ → Prop
  | [], _ => True
  | [l], m => m.timeline.now = l.target
  | _ :: _ :: _, _ => False

theorem AtTarget.sameTime {ls : List (Level δ α υ)} (h : AtTarget ls m) (ht : SameTime m m') :
    AtTarget ls m' := by
  match ls, h with
  | [], _ => exact trivial
  | [_], h => exact Eq.trans ht h

/-- Above the innermost run there is none. -/
theorem AtTarget.cons {l : Level δ α υ} {ls : List (Level δ α υ)} (h : AtTarget (l :: ls) m) :
    ls = [] ∧ m.timeline.now = l.target := by
  match ls, h with
  | [], h => exact ⟨rfl, h⟩

section Board

variable [Board δ] {handler : Handler δ α υ} {ls ls' : List (Level δ α υ)} {j : Journal δ α υ}

/-- **A move keeps a machine at its target**, if it leaves the clock alone while a run is under
way. -/
theorem Move.atTarget (h : AtTarget ls m) (hm : Move handler ls m j ls' m')
    (hq : ls ≠ [] → ∀ i ∈ j.head?, i.Stays) : AtTarget ls' m' := by
  have popped : ∀ {target : Nat} {e : Event (Task α)} {t : Timeline (Task α)},
      m.timeline.popDue target = some (e, t) → SameTime m (Host.setTimeline t m) := fun hp =>
    (Timeline.popDue_eq_some_iff.1 hp).2.2.1
  cases hm with
  | call hc hp =>
      match ls, h with
      | [], _ => exact trivial
      | [l], h => exact Eq.trans (perform_clock (hq (by simp) _ rfl) hp) h
  | began hc =>
      match ls, h with
      | [], _ => rfl
      | [l], _ => exact absurd (hq (by simp) _ rfl) hc.not_stays
  | idle => exact h
  | service hp _ ho =>
      obtain ⟨rfl, hn⟩ := h.cons
      exact ((serviceChannels_aside.of_outcome ho).now.trans (popped hp)).trans hn
  | resume hp _ ho =>
      obtain ⟨rfl, hn⟩ := h.cons
      exact (((resumeChannel_beside _ _).of_outcome ho).now.trans (popped hp)).trans hn
  | client hp | periodic hp =>
      obtain ⟨rfl, hn⟩ := h.cons
      exact Eq.trans (popped hp) hn
  | rearm _ ho =>
      obtain ⟨rfl, hn⟩ := h.cons
      exact Eq.trans (clock_armPeriodic.of_outcome ho) hn
  | next | lapsed | failed =>
      obtain ⟨rfl, hn⟩ := h.cons
      exact hn
  | drained =>
      obtain ⟨rfl, -⟩ := h.cons
      rfl
  | ended | aborted =>
      obtain ⟨rfl, -⟩ := h.cons
      exact trivial

/-- **A history whose callbacks leave the clock alone** keeps a machine at its target. -/
theorem Moves.atTarget (hm : Moves handler [] m j ls m') (hq : Quiet j) : AtTarget ls m' := by
  have kept : Matches ls (underway j) ∧ (Quiet j → AtTarget ls m') :=
    hm.preserves (h := []) (J := fun ls h m => Matches ls (underway h) ∧ (Quiet h → AtTarget ls m))
      (fun {ls ls' h j m m'} ⟨hmt, ha⟩ hm =>
        ⟨underway_append h j ▸ hm.matches hmt, fun hq =>
          hm.atTarget (ha (Throughout.left hq)) fun hl i hi =>
            Throughout.head hq i hi (hmt.ne_nil hl)⟩)
      ⟨.nil, fun _ => trivial⟩
  exact kept.2 hq

/-- After a run whose callbacks leave the clock alone nothing is due. -/
theorem run_settles {bound n : Nat} (h : perform handler bound (.run n) m = some (.ok (), m'))
    (hc : Calm (inside handler bound (.run n) m)) :
    m'.timeline.popDue m'.timeline.now = none := by
  have hj : journal handler bound (.run n) m =
      (.began (.run n) m :: inside handler bound (.run n) m) ++
        .ended (.run n) (.ok ()) m' :: [] := by
    rw [journal, enclosed, h]
    rfl
  have hq : Quiet (.began (.run n) m :: inside handler bound (.run n) m) := fun k i l hk hu => by
    rcases k with _ | ⟨i', k⟩
    · exact absurd rfl hu
    · obtain ⟨-, hk⟩ := List.cons.inj hk
      exact hc i (hk ▸ List.mem_append_right _ (.head _))
  obtain ⟨k, ls, m₁, before, after, ls₂, m₂, l, hm, hlast, -, hk, hl⟩ :=
    (perform_moves bound (.run n) [] m _ m' h).split hj
  obtain ⟨rfl, rfl⟩ := List.append_eq_nil_iff.1 hl.symm
  have ha := hm.atTarget (Throughout.left (hk ▸ hq))
  obtain ⟨rfl, target, rfl, hp⟩ := hlast.of_run_ended
  rw [ha.cons.2]
  exact hp

end Board

end Machine

end DmaMachine
