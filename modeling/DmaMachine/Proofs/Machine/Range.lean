import DmaMachine.Proofs.Machine.Changes

/-!
# Histories in range

The clock wraps around when it is moved past what 64 bits hold, and then it shows less than before.
A history is *in range* when this happens nowhere in it: the clock, with the cycles that a run
begins with, the cycles that are pending on the bus, and those that a service pass charges, stays
within 64 bits, and so do the identifiers of events.  Whether a history is in range can be read off
its journal.

* `Item.InRange`, `InRange`: the condition.
* `Moves.preserves_inRange`: what every move in range preserves holds throughout a history in range.
* `Move.now_le`: **in range the clock never goes back**, unless the machine is cleared.
-/

namespace DmaMachine

namespace Machine

open Journal Timeline

variable {δ α υ : Type} {m m' m₁ : Machine δ α υ} {j k : Journal δ α υ}

/-- What the clock comes to when it is moved on by the cycles that are pending on the bus. -/
def ahead (m : Machine δ α υ) : Nat := m.timeline.now + m.bus.pendingCycles

section Board

variable [Board δ]

/-- What the clock comes to with what begins at the item: a run with its cycles, or a service pass
with those that it charges. -/
def Item.ahead : Item δ α υ → Nat
  | .began c m => m.ahead + (c.cycles? m).getD 0
  | .fired e _ m =>
      match e.task with
      | .service => m.ahead + m.engine.charges m.bus
      | _ => m.ahead
  | i => i.machine.ahead

/-- The clock and the next identifier have 64 bits. -/
def Item.InRange (i : Item δ α υ) : Prop :=
  i.ahead < UInt64.size ∧ i.machine.timeline.nextId < UInt64.size

instance : DecidablePred (Item.InRange (δ := δ) (α := α) (υ := υ)) := fun i =>
  inferInstanceAs (Decidable (i.ahead < UInt64.size ∧ i.machine.timeline.nextId < UInt64.size))

/-- No clock of the history wraps around, and no identifier. -/
def InRange (j : Journal δ α υ) : Prop := ∀ i ∈ j, i.InRange

instance (j : Journal δ α υ) : Decidable (InRange j) :=
  inferInstanceAs (Decidable (∀ i ∈ j, i.InRange))

theorem InRange.left (h : InRange (j ++ k)) : InRange j := fun i hi =>
  h i (List.mem_append_left _ hi)

theorem InRange.right (h : InRange (j ++ k)) : InRange k := fun i hi =>
  h i (List.mem_append_right _ hi)

theorem Item.machine_ahead_le (i : Item δ α υ) : i.machine.ahead ≤ i.ahead := by
  cases i with
  | began => exact Nat.le_add_right ..
  | fired e late m =>
      rw [Item.ahead]
      split
      · exact Nat.le_add_right ..
      · exact Nat.le_refl _
  | ended | invoked => exact Nat.le_refl _

omit [Board δ] in
theorem initial_ahead (board : δ) (memory : υ) :
    (initial board memory : Machine δ α υ).ahead < UInt64.size := by
  show 0 < UInt64.size
  decide

/-! ### Moves of the clock -/

/-- The cycles that a run begins with do not carry. -/
theorem Item.InRange.cycles_lt {c : Call δ α υ} {n : Nat} (h : (Item.began c m).InRange)
    (hn : c.cycles? m = some n) : m.timeline.now + n < UInt64.size := by
  have ha : m.ahead + (c.cycles? m).getD 0 < UInt64.size := h.1
  rw [hn, Machine.ahead] at ha
  exact Nat.lt_of_le_of_lt (Nat.add_le_add_right (Nat.le_add_right ..) n) ha

omit [Board δ] in
/-- Nor do those that the engine took. -/
theorem stolen_lt {n : Nat} (h : m.ahead < UInt64.size) (ht : takeStolen m = (n + 1, m₁)) :
    m.timeline.now + (n + 1) < UInt64.size := by
  obtain ⟨hp, -⟩ := takeStolen_eq_succ ht
  rwa [ahead, hp] at h

omit [Board δ] in
theorem Beside.ahead (h : Beside m m') : m'.ahead = m.ahead := by
  rw [Machine.ahead, Machine.ahead, h.now, h.pendingCycles]

variable {handler : Handler δ α υ} {ls ls' : List (Level δ α υ)}

/-- **A move in range leaves the clock in range.** -/
theorem Move.ahead_lt (hm : Move handler ls m j ls' m') (ha : m.ahead < UInt64.size)
    (hj : InRange j) : m'.ahead < UInt64.size := by
  have last : ∀ i ∈ j, i.machine = m' → m'.ahead < UInt64.size := fun i hi he =>
    he ▸ Nat.lt_of_le_of_lt i.machine_ahead_le (hj i hi).1
  cases hm with
  | call => exact last _ (.tail _ (.head _)) rfl
  | began _ hn =>
      have hi := (hj _ (.head _)).1
      have hw := (hj _ (.head _)).cycles_lt hn
      rw [Item.ahead, hn, ahead] at hi
      show wrap _ + m.bus.pendingCycles < UInt64.size
      rw [wrap_of_lt hw]
      exact Nat.add_right_comm .. ▸ hi
  | @service _ _ _ _ _ e t _ hp he ho =>
      have hi := (hj _ (.head _)).1
      rw [Item.ahead, he] at hi
      -- The engine charges what the item says it does, and nothing after it charges any more.
      have hb := serviceChannels_beside (Host.setTimeline t m)
      rw [ho] at hb
      have hc : (Host.setTimeline t m).served.bus.pendingCycles = _ :=
        Engine.service_charges m.engine m.bus
      rw [hb.ahead, ahead, hc]
      exact Nat.add_assoc .. ▸ hi
  | resume hp _ ho =>
      rw [((resumeChannel_beside _ _).of_outcome ho).ahead]
      exact Nat.lt_of_le_of_lt (Item.fired _ _ (Host.setTimeline _ m)).machine_ahead_le
        (hj _ (.head _)).1
  | client | periodic => exact last _ (.head _) rfl
  | rearm _ ho =>
      obtain ⟨e, he⟩ | ⟨slots, he, -⟩ := armPeriodic_cases .. <;> rw [he] at ho <;> cases ho <;>
        exact ha
  | @drained _ _ m₁ _ _ _ _ ht =>
      obtain ⟨-, -, hb⟩ := takeStolen_eq_succ ht
      show wrap _ + m₁.bus.pendingCycles < UInt64.size
      rw [hb]
      exact wrap_lt _
  | idle | next | lapsed | failed | ended | aborted => exact ha

/-- **What every move in range preserves holds throughout** a history in range. -/
theorem Moves.preserves_inRange {J : List (Level δ α υ) → Journal δ α υ → Machine δ α υ → Prop}
    (hJ : ∀ {ls ls' h j m m'}, J ls h m → m.ahead < UInt64.size → InRange j →
      Move handler ls m j ls' m' → J ls' (h ++ j) m')
    (hm : Moves handler ls m j ls' m') {h : Journal δ α υ} (h₀ : J ls h m)
    (ha : m.ahead < UInt64.size) (hj : InRange j) : J ls' (h ++ j) m' := by
  induction hm generalizing h with
  | none => simpa using h₀
  | next hh _ ih =>
      rw [← List.append_assoc]
      exact ih (hJ h₀ ha hj.left hh) (hh.ahead_lt ha hj.left) hj.right

theorem Moves.ahead_lt (hm : Moves handler ls m j ls' m') (ha : m.ahead < UInt64.size)
    (hj : InRange j) : m'.ahead < UInt64.size :=
  hm.preserves_inRange (J := fun _ _ m => m.ahead < UInt64.size) (h := [])
    (fun ih _ hj hm => hm.ahead_lt ih hj) ha ha hj

/-- **In range the clock never goes back**, unless the machine is cleared. -/
theorem Move.now_le (hw : m.timeline.WellFormed) (ha : m.ahead < UInt64.size) (hj : InRange j)
    (hm : Move handler ls m j ls' m') (hc : ∀ i ∈ j, i.clears = false) :
    m.timeline.now ≤ m'.timeline.now := by
  have changed : ∀ {t : Timeline (Task α)}, t.WellFormed → m.timeline.now = t.now →
      (∃ h, Changes t h m'.timeline) → m.timeline.now ≤ m'.timeline.now := fun ht hn ⟨_, h⟩ =>
    Nat.le_of_eq (hn.trans (h.keeps ht).2.1.symm)
  have popped : ∀ {target : Nat} {e : Event (Task α)} {t : Timeline (Task α)},
      m.timeline.popDue target = some (e, t) → t.WellFormed ∧ m.timeline.now = t.now := fun hp =>
    ⟨(hw.popDue hp).1, (hw.popDue hp).2.1.symm⟩
  cases hm with
  | @call _ _ _ _ c r hcf hp =>
      obtain hch | ⟨hcl, -⟩ := perform_turn hcf hp
      · exact changed hw rfl hch
      · exact absurd ((hc (.ended c r m') (by simp)).symm.trans hcl) Bool.false_ne_true
  | began _ hn =>
      rw [wrap_of_lt ((hj _ (.head _)).cycles_lt hn)]
      exact Nat.le_add_right ..
  | drained _ ht =>
      rw [wrap_of_lt (stolen_lt ha ht)]
      exact Nat.le_add_right ..
  | service hp _ ho =>
      exact changed (popped hp).1 (popped hp).2 (serviceChannels_changing.of_outcome ho)
  | resume hp _ ho =>
      exact changed (popped hp).1 (popped hp).2 ((resumeChannel_changing _ _).of_outcome ho)
  | client hp | periodic hp => exact Nat.le_of_eq (popped hp).2
  | rearm _ ho => exact Nat.le_of_eq (clock_armPeriodic.of_outcome ho).symm
  | idle | next | lapsed | failed | ended | aborted => exact Nat.le_refl _

end Board

end Machine

end DmaMachine
