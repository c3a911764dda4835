import DmaMachine.Proofs.Machine.Force

/-!
# Generations of slots

A registration claims the first free slot and puts the slot in its next generation.  The slots go
when the machine is reset or a snapshot is restored, and their generations begin anew.  So the
generation of a slot is the number of its claims since then, as long as there are fewer of them than
generations.

* `perform_generations`, `Move.numbered`: **generations are counts of claims.**
* `Move.pending`: an event that is made for a registration is of the generation of its slot.
* `Move.dated`, `Moves.dated`: so **no pending event is of a later generation than its slot.**
-/

namespace DmaMachine

namespace Machine

open Journal

variable {δ α υ : Type} {m m' : Machine δ α υ}

/-! ### Counting -/

/-- How many items pass a test since the machine was last cleared, after one more item. -/
def Item.tally (q : Item δ α υ → Bool) (n : Nat) (x : Item δ α υ) : Nat :=
  if x.clears then 0 else if q x then n + 1 else n

/-- How many items pass a test since the machine was last cleared. -/
def countSince (q : Item δ α υ → Bool) (j : Journal δ α υ) : Nat := j.foldl (Item.tally q) 0

theorem foldl_tally_le (q : Item δ α υ → Bool) (j : Journal δ α υ) (n : Nat) :
    j.foldl (Item.tally q) n ≤ n + j.countP q := by
  induction j generalizing n with
  | nil => exact Nat.le_refl _
  | cons x j ih =>
      have hx : Item.tally q n x ≤ n + if q x then 1 else 0 := by
        rw [Item.tally]
        split
        · exact Nat.zero_le _
        · split <;> simp
      rw [List.countP_cons, List.foldl_cons]
      have := ih (Item.tally q n x)
      omega

theorem countSince_le (q : Item δ α υ → Bool) (j : Journal δ α υ) :
    countSince q j ≤ j.countP q := by
  simpa [countSince] using foldl_tally_le q j 0

theorem countSince_append (q : Item δ α υ → Bool) (j k : Journal δ α υ) :
    countSince q (j ++ k) = k.foldl (Item.tally q) (countSince q j) := List.foldl_append

theorem countSince_snoc (q : Item δ α υ → Bool) (j : Journal δ α υ) (x : Item δ α υ) :
    countSince q (j ++ [x]) =
      if x.clears then 0 else countSince q j + if q x then 1 else 0 := by
  rw [countSince_append, List.foldl_cons, List.foldl_nil, Item.tally]
  split
  · rfl
  · split <;> rfl

theorem countSince_silent (q : Item δ α υ → Bool) {j k : Journal δ α υ}
    (hk : ∀ x ∈ k, x.clears = false ∧ q x = false) : countSince q (j ++ k) = countSince q j := by
  rw [countSince_append]
  generalize countSince q j = n
  induction k with
  | nil => rfl
  | cons x k ih =>
      obtain ⟨hc, hq⟩ := hk x (.head _)
      rw [List.foldl_cons, Item.tally, hc, hq]
      exact ih fun y hy => hk y (.tail _ hy)

/-- Unless the machine is cleared, items only grow in number. -/
theorem countSince_le_append (q : Item δ α υ → Bool) {j k : Journal δ α υ}
    (hk : ∀ x ∈ k, x.clears = false) : countSince q j ≤ countSince q (j ++ k) := by
  induction k generalizing j with
  | nil => simp
  | cons x k ih =>
      have hx : countSince q j ≤ countSince q (j ++ [x]) := by
        rw [countSince_snoc, hk x (.head _)]
        exact Nat.le_add_right ..
      rw [List.append_cons]
      exact Nat.le_trans hx (ih fun y hy => hk y (.tail _ hy))

theorem countP_lt_left {q : Item δ α υ → Bool} {n : Nat} {j k : Journal δ α υ}
    (h : (j ++ k).countP q < n) : j.countP q < n := by
  rw [List.countP_append] at h
  exact Nat.lt_of_le_of_lt (Nat.le_add_right ..) h

/-! ### Claims -/

/-- Whether the item begins a registration that is put into the slot, though it may be refused for
want of room then. -/
def Item.claims (i : Nat) : Item δ α υ → Bool
  | .began (.schedulePeriodic _ period _) m => period ≠ 0 && m.freeSlot = i
  | _ => false

/-- How often a slot was claimed. -/
def claimsOf (i : Nat) (j : Journal δ α υ) : Nat := j.countP (Item.claims i)

/-- How often a slot was claimed since the slots were thrown away last. -/
def claimsSince (i : Nat) (j : Journal δ α υ) : Nat := countSince (Item.claims i) j

/-- The generation of a slot. -/
def generationAt (m : Machine δ α υ) (i : Nat) : UInt32 := (m.slots[i]?.getD {}).generation

theorem claimsSince_le (i : Nat) (j : Journal δ α υ) : claimsSince i j ≤ claimsOf i j :=
  countSince_le (Item.claims i) j

section Generations

variable [Board δ] {handler : Handler δ α υ} {ls ls' : List (Level δ α υ)} {j k : Journal δ α υ}
  {i : Nat}

/-- A call that fires nothing claims the first free slot, throws the slots away, or leaves their
generations alone. -/
theorem perform_generations {bound : Nat} {c : Call δ α υ} {r : Except Fault c.Answer}
    (hc : ¬c.Fires) (hp : perform handler bound c m = some (r, m')) (i : Nat) :
    (m'.generationAt i) =
      if (Item.ended c r m').clears then 0
      else if (Item.began c m).claims i then m.generationAt i + 1 else m.generationAt i := by
  have same : ∀ {k : Machine δ α υ}, k.slots = m.slots → k.generationAt i = m.generationAt i :=
    fun h => by rw [generationAt, generationAt, h]
  cases c with
  | read | write | writeMasked | request | takeEdge | schedule | capture | observe =>
      exact same (perform_beside (by exact trivial) hp).slots
  | bus => exact same (perform_bus_aside hp).slots
  | run | runToNext => exact absurd trivial hc
  | deschedule id =>
      simp only [perform] at hp
      cases hp
      exact same rfl
  | reset =>
      simp only [perform] at hp
      cases hp
      rfl
  | restore s =>
      simp only [perform] at hp
      obtain ⟨e, he⟩ | ⟨m₁, he, -, hs, -⟩ := restore_cases s m <;> rw [Op.toRun_apply, he] at hp <;>
        cases hp
      · exact same rfl
      · rw [generationAt, hs]
        rfl
  | cancelPeriodic h =>
      simp only [perform] at hp
      obtain ⟨-, he⟩ | ⟨id, slots, hid, he, hs⟩ := cancelPeriodic_cases h m <;> rw [he] at hp <;>
        cases hp
      · exact same rfl
      · show (slots[i]?.getD {}).generation = (m.slots[i]?.getD {}).generation
        rw [hs]
        split
        · rename_i heq
          rw [heq, hid]
          rfl
        · rfl
  | schedulePeriodic name period action =>
      simp only [perform] at hp
      obtain ⟨rfl, e, he⟩ | ⟨hne, slots, ⟨⟨e, he⟩, hs⟩ | ⟨he, hs⟩⟩ :=
        schedulePeriodic_cases name period action m <;> rw [Op.toRun_apply, he] at hp <;> cases hp
      · exact same rfl
      all_goals
        show (slots[i]?.getD {}).generation =
          if (decide (period ≠ 0) && decide (m.freeSlot = i)) = true then m.generationAt i + 1
          else m.generationAt i
        rw [hs]
        by_cases hi : i = m.freeSlot
        · subst hi
          simp [hne, nextHandle, generationAt]
        · simp [hi, Ne.symm hi, generationAt]

omit [Board δ] in
theorem claims_call (i : Nat) (j : Journal δ α υ) (c : Call δ α υ) (r : Except Fault c.Answer)
    (m m' : Machine δ α υ) : claimsSince i (j ++ [.began c m, .ended c r m']) =
      if (Item.ended c r m').clears then 0
      else if (Item.began c m).claims i then claimsSince i j + 1 else claimsSince i j :=
  countSince_append ..

/-- A call that makes a registration claims the slot of its handle. -/
theorem perform_made {bound : Nat} {c : Call δ α υ} {r : Except Fault c.Answer}
    {g : Registration α} (hp : perform handler bound c m = some (r, m'))
    (hg : (Item.ended c r m').made? = some g) :
    g.handle = m.nextHandle ∧ (Item.began c m).claims g.handle.slot = true ∧
      (Item.ended c r m').clears = false := by
  cases c with
  | schedulePeriodic name period action =>
      simp only [perform] at hp
      obtain ⟨-, e, he⟩ | ⟨hne, slots, ⟨⟨e, he⟩, -⟩ | ⟨he, -⟩⟩ :=
        schedulePeriodic_cases name period action m <;> rw [Op.toRun_apply, he] at hp <;>
        cases hp <;> cases hg
      refine ⟨rfl, ?_, rfl⟩
      show (decide (period ≠ 0) && decide (m.freeSlot = m.nextHandle.slot)) = true
      simp [hne, nextHandle]
  | _ => cases hg

/-- **A move keeps the generation of a slot in step with its claims**, as long as the generation
does not come round again. -/
theorem Move.numbered (h : (m.generationAt i).toNat = claimsSince i j)
    (hm : Move handler ls m k ls' m') (hf : claimsOf i (j ++ k) < UInt32.size) :
    (m'.generationAt i).toNat = claimsSince i (j ++ k) := by
  have hle := Nat.lt_of_le_of_lt (claimsSince_le i (j ++ k)) hf
  have silent : k.foldl (Item.tally (Item.claims i)) (claimsSince i j) = claimsSince i j →
      m'.generationAt i = m.generationAt i → (m'.generationAt i).toNat = claimsSince i (j ++ k) :=
    fun hk hg => by
      rw [hg, h, ← hk]
      exact (countSince_append ..).symm
  have aside : Aside m m' → m'.generationAt i = m.generationAt i := fun ha => by
    rw [generationAt, generationAt, ha.slots]
  cases hm with
  | call hc hp =>
      rw [claims_call] at hle ⊢
      rw [perform_generations hc hp i]
      split
      · rfl
      · rename_i hcl
        rw [if_neg hcl] at hle
        split
        · rename_i hclaim
          rw [if_pos hclaim, ← h] at hle
          rw [UInt32.toNat_add, ← h]
          exact Nat.mod_eq_of_lt hle
        · exact h
  | idle | client | periodic | next | lapsed | failed => exact silent rfl rfl
  | service hp he ho => exact silent rfl (aside (service_aside hp he ho))
  | resume hp he ho => exact silent rfl (aside (resume_aside hp he ho))
  | rearm _ ho =>
      refine silent rfl ?_
      obtain ⟨e, he⟩ | ⟨slots, he, hs⟩ := armPeriodic_cases .. <;> rw [he] at ho <;> cases ho
      · rfl
      · show (slots[i]?.getD {}).generation = (m.slots[i]?.getD {}).generation
        rw [hs]
        split
        · cases m.slots[i]? with
          | none => rfl
          | some slot =>
              simp only [Option.map_some, Option.getD_some]
              split <;> rfl
        · rfl
  | drained _ ht =>
      exact silent rfl (congrArg (fun x => (x.2.slots[i]?.getD {}).generation) ht).symm
  | @began _ _ c _ hc | @ended _ _ c _ hc | @aborted _ _ c _ hc =>
      cases c <;> first | exact hc.elim | exact silent rfl rfl

/-! ### Events and the generations of their slots -/

/-- The task is of no later generation than the slot, if it is of a registration in the slot. -/
def Current (i : Nat) (m : Machine δ α υ) (t : Task α) : Prop :=
  ∀ h, t.handle? = some h → h.slot = i → h.generation ≤ m.generationAt i

omit [Board δ] in
theorem Current.mono {t : Task α} (h : m.Current i t)
    (hg : m.generationAt i ≤ m'.generationAt i) : m'.Current i t :=
  fun k hk hs => UInt32.le_trans (h k hk hs) hg

omit [Board δ] in
/-- A registration in force is of the generation of its slot. -/
theorem current_of_registered {h : PeriodicHandle} {name : String} {period : Nat} {action : α}
    (hr : m.isRegistered h = true) : m.Current i (.periodic h name period action) := by
  rintro _ ⟨⟩ rfl
  obtain ⟨id, hid⟩ := isRegistered_iff.1 hr
  rw [generationAt, hid]
  exact UInt32.le_refl _

omit [Board δ] in
/-- What is pending after an event of a registration was made. -/
theorem mem_withEvent {name : String} {delay : Nat} {task : Task α} {slots : Array PeriodicSlot}
    {e : Event (Task α)}
    (he : e ∈ periodicEvents { m with timeline := m.withEvent name delay task, slots }) :
    e ∈ m.periodicEvents ∨ e.task = task := by
  obtain ⟨he, hp⟩ := mem_periodicEvents.1 he
  rcases Event.mem_insert.1 he with rfl | he
  · exact .inr rfl
  · exact .inl (mem_periodicEvents.2 ⟨he, hp⟩)

/-- What is pending for a registration was pending before, or it is of a registration in force. -/
theorem perform_pending {bound : Nat} {c : Call δ α υ} {r : Except Fault c.Answer}
    (h : m.Coherent) (hc : ¬c.Fires) (hp : perform handler bound c m = some (r, m'))
    {e : Event (Task α)} (he : e ∈ m'.periodicEvents) :
    (e ∈ m.periodicEvents ∧ (Item.ended c r m').clears = false) ∨ m'.Current i e.task := by
  cases c with
  | read | write | writeMasked | request | takeEdge | schedule | capture | observe =>
      rw [(perform_beside (by exact trivial) hp).toAside.periodicEvents h] at he
      exact .inl ⟨he, rfl⟩
  | bus =>
      rw [(perform_bus_aside hp).periodicEvents h] at he
      exact .inl ⟨he, rfl⟩
  | run | runToNext => exact absurd trivial hc
  | reset =>
      simp only [perform] at hp
      cases hp
      cases he
  | restore s =>
      simp only [perform] at hp
      obtain ⟨f, hf⟩ | ⟨m₁, hf, ht, -⟩ := restore_cases s m <;> rw [Op.toRun_apply, hf] at hp <;>
        cases hp
      · exact .inl ⟨he, rfl⟩
      · rw [periodicEvents, ht] at he
        cases he
  | deschedule id =>
      simp only [perform] at hp
      cases hp
      exact .inl ⟨((List.eraseP_sublist ..).filter _).subset he, rfl⟩
  | cancelPeriodic k =>
      simp only [perform] at hp
      obtain ⟨-, hf⟩ | ⟨id, slots, -, hf, -⟩ := cancelPeriodic_cases k m <;> rw [hf] at hp <;>
        cases hp
      · exact .inl ⟨he, rfl⟩
      · exact .inl ⟨((List.eraseP_sublist ..).filter _).subset he, rfl⟩
  | schedulePeriodic name period action =>
      simp only [perform] at hp
      obtain ⟨-, f, hf⟩ | ⟨-, slots, ⟨⟨f, hf⟩, -⟩ | ⟨hf, hs⟩⟩ :=
        schedulePeriodic_cases name period action m <;> rw [Op.toRun_apply, hf] at hp <;> cases hp
      · exact .inl ⟨he, rfl⟩
      · exact .inl ⟨he, rfl⟩
      · rcases mem_withEvent he with he | ht
        · exact .inl ⟨he, rfl⟩
        · rw [ht]
          refine .inr (current_of_registered (isRegistered_iff.2 ⟨m.timeline.nextId, ?_⟩))
          exact (hs _).trans (if_pos rfl)

/-- **What is pending for a registration** was pending before, or it is of a registration in
force. -/
theorem Move.pending (h : m.Coherent) (hm : Move handler ls m k ls' m') {e : Event (Task α)}
    (he : e ∈ m'.periodicEvents) :
    (e ∈ m.periodicEvents ∧ ∀ i ∈ k, i.clears = false) ∨ m'.Current i e.task := by
  have aside : Aside m m' → e ∈ m.periodicEvents := fun ha => ha.periodicEvents h ▸ he
  cases hm with
  | call hc hp =>
      refine (perform_pending h hc hp he).imp_left fun ⟨he, hcl⟩ => ⟨he, ?_⟩
      simpa using ⟨rfl, hcl⟩
  | service hp ht ho => exact .inl ⟨aside (service_aside hp ht ho), by simp [Item.clears]⟩
  | resume hp ht ho => exact .inl ⟨aside (resume_aside hp ht ho), by simp [Item.clears]⟩
  | client hp | periodic hp =>
      have hs : (Host.setTimeline _ m).periodicEvents.Sublist m.periodicEvents :=
        ((Timeline.popDue_eq_some_iff.1 hp).1 ▸ List.sublist_cons_self ..).filter _
      exact .inl ⟨hs.subset he, by simp [Item.clears]⟩
  | @rearm _ _ _ _ _ k name period action late r hr ho =>
      have hr' := armPeriodic_registered hr k name (period - late) period action
      obtain ⟨f, hf⟩ | ⟨slots, hf, -⟩ :=
          armPeriodic_cases k name (period - late) period action m <;>
        rw [hf] at ho hr' <;> cases ho
      · exact .inl ⟨he, List.forall_mem_nil _⟩
      · rcases mem_withEvent he with he | ht
        · exact .inl ⟨he, List.forall_mem_nil _⟩
        · rw [ht]
          exact .inr (current_of_registered hr')
  | drained _ ht =>
      have hev := congrArg (·.2.timeline.events.filter (·.task.isPeriodic)) ht
      exact .inl ⟨(congrArg (e ∈ ·) hev).mpr he, List.forall_mem_nil _⟩
  | idle | next | lapsed | failed => exact .inl ⟨he, by simp [Item.clears]⟩
  | @began _ _ c _ hc | @ended _ _ c _ hc | @aborted _ _ c _ hc =>
      refine .inl ⟨he, ?_⟩
      cases c <;> first | exact hc.elim | simp [Item.clears]

/-- The generation of the slot counts its claims, and nothing pending in the slot is of a later
one. -/
structure Dated (i : Nat) (j : Journal δ α υ) (m : Machine δ α υ) : Prop where
  coherent : m.Coherent
  numbered : (m.generationAt i).toNat = claimsSince i j
  current : ∀ e ∈ m.periodicEvents, m.Current i e.task

omit [Board δ] in
theorem Dated.generation_le (h : Dated i j m) (h' : (m'.generationAt i).toNat =
    claimsSince i (j ++ k)) (hk : ∀ x ∈ k, x.clears = false) :
    m.generationAt i ≤ m'.generationAt i := by
  rw [UInt32.le_iff_toNat_le, h.numbered, h']
  exact countSince_le_append (Item.claims i) hk

/-- **A move leaves nothing pending of a later generation than the slot**, as long as that does not
come round again. -/
theorem Move.dated (h : Dated i j m) (hm : Move handler ls m k ls' m')
    (hf : claimsOf i (j ++ k) < UInt32.size) : Dated i (j ++ k) m' := by
  have hn := hm.numbered h.numbered hf
  refine ⟨hm.coherent h.coherent, hn, fun e he => ?_⟩
  rcases hm.pending h.coherent he with ⟨he, hk⟩ | hc
  · exact (h.current e he).mono (h.generation_le hn hk)
  · exact hc

/-- **So does a history.** -/
theorem Moves.dated (h : Dated i j m) (hm : Moves handler ls m k ls' m')
    (hf : claimsOf i (j ++ k) < UInt32.size) : Dated i (j ++ k) m' :=
  hm.preserves (J := fun _ h m => claimsOf i h < UInt32.size → Dated i h m)
    (fun ih hm hf => hm.dated (ih (countP_lt_left hf)) hf) (fun _ => h) hf

omit [Board δ] in
/-- A handle that is given now is of a later generation than its slot was. -/
theorem Dated.not_current {g : Registration α} (h : Dated g.handle.slot j m)
    (hg : g.handle = m.nextHandle) (hf : claimsOf g.handle.slot j + 1 < UInt32.size) :
    ¬m.Current g.handle.slot g.task := fun hc => by
  have hgen : g.handle.generation = m.generationAt g.handle.slot + 1 := by
    rw [hg]
    rfl
  have hlt : (m.generationAt g.handle.slot).toNat + 1 < UInt32.size := by
    rw [h.numbered]
    exact Nat.lt_of_le_of_lt (Nat.succ_le_succ (claimsSince_le ..)) hf
  have hle := UInt32.le_iff_toNat_le.1 (hc g.handle rfl rfl)
  rw [hgen, UInt32.toNat_add, UInt32.toNat_one, Nat.mod_eq_of_lt hlt] at hle
  exact Nat.not_succ_le_self _ hle

omit [Board δ] in
theorem initial_dated (i : Nat) (board : δ) (memory : υ) :
    Dated i [] (initial board memory : Machine δ α υ) :=
  ⟨initial_coherent board memory, rfl, nofun⟩

end Generations

end Machine

end DmaMachine
