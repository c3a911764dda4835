import DmaMachine.Proofs.Machine.Registry

/-!
# Slots

Slots are made as they are needed, and one that was never claimed is as good as one that is new.  So
the slots of a machine can be taken as one for every index (`slotAt`).

* `freeSlot_spec`: **the next registration goes to the first slot without an owner.**
* `slotAt_claimed`, `slotAt_modify`: the slots after a claim, and after a change of one.
-/

namespace DmaMachine

namespace Machine

variable {δ α α' υ : Type}

/-- The slot at an index; one that was never claimed is as new. -/
def slotAt (slots : Array PeriodicSlot) (i : Nat) : PeriodicSlot := slots[i]?.getD {}

variable {slots : Array PeriodicSlot} {i : Nat}

theorem slotAt_of_some {slot : PeriodicSlot} (h : slots[i]? = some slot) :
    slotAt slots i = slot := by
  rw [slotAt, h, Option.getD_some]

theorem lt_size_of_event {id : Nat} (h : (slotAt slots i).event = some id) : i < slots.size := by
  by_contra hn
  rw [slotAt, Array.getElem?_eq_none (Nat.le_of_not_lt hn)] at h
  cases h

theorem slotAt_modify (h : i < slots.size) (f : PeriodicSlot → PeriodicSlot) (j : Nat) :
    slotAt (slots.modify i f) j = if j = i then f (slotAt slots i) else slotAt slots j := by
  rw [slotAt, slotAt, slotAt, Array.getElem?_modify]
  by_cases hj : j = i
  · subst hj
    rw [if_pos rfl, if_pos rfl, Array.getElem?_eq_getElem h]
    rfl
  · rw [if_neg (Ne.symm hj), if_neg hj]

theorem isRegistered_eq (m : Machine δ α υ) (h : PeriodicHandle) :
    m.isRegistered h =
      ((slotAt m.slots h.slot).generation == h.generation &&
        (slotAt m.slots h.slot).event.isSome) := by
  rw [isRegistered, slotAt]
  cases m.slots[h.slot]? with
  | none => simp
  | some slot => rfl

/-- **The next registration goes to the first slot without an owner**; one that was never claimed
has none. -/
theorem freeSlot_spec (m : Machine δ α υ) :
    (slotAt m.slots m.freeSlot).event = none ∧
      ∀ i < m.freeSlot, (slotAt m.slots i).event ≠ none := by
  constructor
  · obtain h | ⟨generation, h⟩ := m.slots_freeSlot
    · rw [slotAt, h]
      rfl
    · rw [slotAt_of_some h]
  · intro i hi
    have hs : i < m.slots.size := Nat.lt_of_lt_of_le hi m.freeSlot_le
    rw [slotAt_of_some (Array.getElem?_eq_getElem hs)]
    rw [freeSlot] at hi
    cases hf : m.slots.findIdx? (·.event.isNone) with
    | none =>
        have hn := Array.findIdx?_eq_none_iff.1 hf m.slots[i] (Array.getElem_mem hs)
        exact Option.isSome_iff_ne_none.1 (by simpa using hn)
    | some j =>
        rw [hf] at hi
        obtain ⟨_, -, hj⟩ := Array.findIdx?_eq_some_iff_getElem.1 hf
        simpa using hj i hi

/-- Machines whose slots have owners alike have the same free slot. -/
theorem freeSlot_congr {m : Machine δ α υ} {m' : Machine δ α' υ}
    (h : ∀ i, (slotAt m'.slots i).event = (slotAt m.slots i).event) : m'.freeSlot = m.freeSlot := by
  obtain ⟨hm, hl⟩ := m.freeSlot_spec
  obtain ⟨hm', hl'⟩ := m'.freeSlot_spec
  refine Nat.le_antisymm (Nat.le_of_not_lt fun hlt => ?_) (Nat.le_of_not_lt fun hlt => ?_)
  · exact hl' _ hlt ((h _).trans hm)
  · exact hl _ hlt ((h _).symm.trans hm')

theorem slotAt_claimed (m : Machine δ α υ) (i : Nat) :
    slotAt m.claimed.slots i =
      if i = m.freeSlot then ⟨m.nextHandle.generation, none⟩ else slotAt m.slots i := by
  rw [slotAt, slots_claimed]
  split <;> rfl

theorem freeSlot_lt_claimed (m : Machine δ α υ) : m.freeSlot < m.claimed.slots.size := by
  have h := m.slots_claimed m.freeSlot
  rw [if_pos rfl] at h
  exact (Array.getElem?_eq_some_iff.1 h).1

end Machine

end DmaMachine
