import DmaMachine.Proofs.Machine.Generations

/-!
# Handles of registrations

A handle names the slot of its registration and the slot's generation, which grows with every
registration that is put there.  So handles are told apart as long as the machine keeps its slots
and no generation comes round again.  A reset, and a snapshot that is restored, throw the slots
away: the next registration is in the first slot again, in its first generation, whoever may still
hold that handle.

A history is *faithful* when no handle is given twice, a cancellation answers true exactly when the
registration with the handle is in force and then ends that one alone, and no registration is called
once it has ended.

* `faithful_of_distinct`: a history that gives no handle twice is faithful.
* `handles_distinct`: handles are distinct when all registrations fall between two resets.
* `handles_never_confused`: **the two together**, and that this is exactly when, if no registration
  was refused for want of room.
-/

namespace DmaMachine

namespace Machine

open Journal

variable {δ α υ β : Type} {m m' : Machine δ α υ}

/-! ### Faithful histories -/

/-- An answer to a cancellation says whether a registration with the handle was in force; if so that
one is ended, and else nothing happens. -/
def Item.CancelsOwn (k : Journal δ α υ) : Item δ α υ → Prop
  | .ended (.cancelPeriodic h) r m => ∃ k₀ m₀, k = k₀ ++ [.began (.cancelPeriodic h) m₀] ∧
      ((r = .ok true ∧ (∃ g ∈ inForce k₀, g.handle = h) ∧ Stops h m₀ m) ∨
        (r = .ok false ∧ (¬∃ g ∈ inForce k₀, g.handle = h) ∧ m = m₀))
  | _ => True

/-- A registration is called while it is in force. -/
def Item.CallsInForce (k : Journal δ α υ) : Item δ α υ → Prop
  | .invoked .. => ∀ g : Registration α, (underway k).head? = some (some g.task) → g ∈ inForce k
  | _ => True

/-- Handles are never confused. -/
structure Faithful (j : Journal δ α υ) : Prop where
  distinct : ((registrations j).map Registration.handle).Nodup
  cancels : Throughout Item.CancelsOwn j
  calls : Throughout Item.CallsInForce j
  /-- What has ended never comes back. -/
  ended : ∀ k l, j = k ++ l → ∀ g ∈ registrations k, g ∉ inForce k → g ∉ inForce j

theorem Item.mem_force {gs : List (Registration α)} {g : Registration α} {i : Item δ α υ}
    (h : g ∈ i.force gs) : g ∈ gs ∨ i.made? = some g := by
  unfold Item.force at h
  split at h
  · rcases List.mem_cons.1 h with rfl | h
    · exact .inr rfl
    · exact .inl h
  · exact .inl (List.mem_of_mem_filter h)
  · cases h
  · cases h
  · exact .inl h

/-- A registration that has ended is not made again if handles are distinct. -/
theorem not_mem_inForce {l : Journal δ α υ} {g : Registration α} : ∀ {k : Journal δ α υ},
    ((registrations (k ++ l)).map Registration.handle).Nodup → g ∈ registrations k →
    g ∉ inForce k → g ∉ inForce (k ++ l) := by
  induction l with
  | nil =>
      intro k _ _ hk
      rwa [List.append_nil]
  | cons i l ih =>
      intro k hn hg hk
      rw [List.append_cons] at hn ⊢
      refine ih hn (registrations_append k [i] ▸ List.mem_append_left _ hg) fun hm => ?_
      rw [inForce_append] at hm
      rcases Item.mem_force hm with hm | hm
      · exact hk hm
      · rw [registrations_append, registrations_append, List.map_append, List.map_append] at hn
        have apart := (List.nodup_append.1 hn.of_append_left).2.2
        refine apart _ (List.mem_map_of_mem hg) g.handle ?_ rfl
        exact List.mem_map_of_mem (by simp [registrations, hm])

section Told

variable [Board δ] {handler : Handler δ α υ} {ls ls' : List (Level δ α υ)} {j k : Journal δ α υ}

/-- A machine with its history, all of whose items tell the truth about registrations. -/
structure Told (j : Journal δ α υ) (ls : List (Level δ α υ)) (m : Machine δ α υ) : Prop where
  owned : Owned (inForce j) (registrations j) ls m
  agrees : Matches ls (underway j)
  cancels : Throughout Item.CancelsOwn j
  calls : Throughout Item.CallsInForce j

/-- **A move keeps a history true** while no handle is given twice. -/
theorem Told.move (h : Told j ls m) (hm : Move handler ls m k ls' m')
    (hn : ((registrations (j ++ k)).map Registration.handle).Nodup) : Told (j ++ k) ls' m' := by
  have ho := hm.owned h.owned hn
  have ha : Matches ls' (underway (j ++ k)) := underway_append j k ▸ hm.matches h.agrees
  have hc := h.cancels
  have hs := h.calls
  have fired : ∀ {l : Level δ α υ} {ls : List (Level δ α υ)} {e : Event (Task α)} {late : Nat}
      {m : Machine δ α υ}, Matches (l :: ls) (underway j) →
      (underway (j ++ [.fired e late m])).head? = some (some e.task) := fun hmt => by
    rw [underway_append]
    generalize underway j = ts at hmt
    cases hmt with
    | cons => rfl
  refine ⟨ho, ha, ?_, ?_⟩
  · cases hm with
    | @call _ _ _ _ c r hf hp =>
        refine throughout_pair.2 ⟨hc, trivial, ?_⟩
        cases c with
        | cancelPeriodic handle =>
            simp only [perform] at hp
            cases hp
            refine ⟨j, m, rfl, ?_⟩
            obtain ⟨hg, hk, hst, -⟩ | ⟨hg, hk⟩ := h.owned.cancel handle
            · exact .inl ⟨congrArg Except.ok hk, hg, hst⟩
            · exact .inr ⟨congrArg (Except.ok ·.1) hk, hg, congrArg (·.2) hk⟩
        | _ => exact trivial
    | idle | client | periodic => exact throughout_pair.2 ⟨hc, trivial, trivial⟩
    | began | service | resume | next => exact throughout_snoc.2 ⟨hc, trivial⟩
    | rearm | lapsed | failed | drained => exact (List.append_nil j).symm ▸ hc
    | @ended _ _ c _ hf | @aborted _ _ c _ hf =>
        refine throughout_snoc.2 ⟨hc, ?_⟩
        cases c <;> first | exact hf.elim | exact trivial
  · cases hm with
    | call | idle => exact throughout_pair.2 ⟨hs, trivial, trivial⟩
    | @client _ _ _ target e t _ hp he =>
        refine throughout_pair.2 ⟨hs, trivial, fun g hg => ?_⟩
        rw [fired h.agrees, he] at hg
        cases Option.some.inj hg
    | @periodic _ _ _ target e t handle name period action hp he =>
        refine throughout_pair.2 ⟨hs, trivial, fun g hg => ?_⟩
        rw [fired h.agrees] at hg
        rw [inForce_append]
        exact (h.owned.popped hp (Option.some.inj (Option.some.inj hg))).1
    | @next _ _ _ _ handle name period action _ _ hr =>
        refine throughout_snoc.2 ⟨hs, fun g hg => ?_⟩
        rw [h.agrees.head rfl] at hg
        have ht := Option.some.inj (Option.some.inj hg)
        obtain ⟨g', hg', ht'⟩ := h.owned.calling _ (.head _)
        obtain rfl := Registration.task_inj (ht'.symm.trans ht)
        obtain ⟨rfl, rfl, rfl, rfl⟩ := Task.periodic.inj ht
        rw [registrations_append, List.map_append] at hn
        exact h.owned.of_isRegistered hn.of_append_left hg' hr
    | began | service | resume | ended | aborted => exact throughout_snoc.2 ⟨hs, trivial⟩
    | rearm | lapsed | failed | drained => exact (List.append_nil j).symm ▸ hs

/-- **A history from power-on that gives no handle twice is faithful.** -/
theorem faithful_of_distinct {board : δ} {memory : υ}
    (hm : Moves handler [] (initial board memory) j ls m)
    (hn : ((registrations j).map Registration.handle).Nodup) : Faithful j := by
  have told : Told j ls m := by
    refine hm.preserves (h := []) (J := fun ls h m =>
      ((registrations h).map Registration.handle).Nodup → Told h ls m)
      (fun {ls ls' h j m m'} ih hm hn => ?_) (fun _ => ?_) hn
    · have hn' := hn
      rw [registrations_append, List.map_append] at hn'
      exact (ih hn'.of_append_left).move hm hn
    · exact ⟨initial_owned board memory, .nil, throughout_nil _, throughout_nil _⟩
  exact ⟨hn, told.cancels, told.calls, fun k l hj g hg hk => by
    subst hj
    exact not_mem_inForce hn hg hk⟩

end Told

/-! ### Distinct handles -/

/-- No two registrations have a reset or a restored snapshot between them. -/
def OneEra (j : Journal δ α υ) : Prop :=
  ∀ k i l, j = k ++ i :: l → i.clears = true → registrations k = [] ∨ registrations l = []

section Distinct

variable [Board δ] {handler : Handler δ α υ} {ls ls' : List (Level δ α υ)} {j k : Journal δ α υ}

/-- The slots have been thrown away since some registration was made. -/
def Closed (j : Journal δ α υ) : Prop :=
  ∃ k i l, j = k ++ i :: l ∧ i.clears = true ∧ registrations k ≠ []

omit [Board δ] in
theorem Closed.append (h : Closed j) (k : Journal δ α υ) : Closed (j ++ k) := by
  obtain ⟨a, i, l, rfl, hi, ha⟩ := h
  exact ⟨a, i, l ++ k, by simp, hi, ha⟩

omit [Board δ] in
theorem OneEra.left (h : OneEra (j ++ k)) : OneEra j := fun a i l hj hi => by
  refine (h a i (l ++ k) (by simp [hj]) hi).imp_right fun hl => ?_
  rw [registrations_append] at hl
  exact (List.append_eq_nil_iff.1 hl).1

omit [Board δ] in
/-- Where registrations fall between two resets, none is made once slots with one were thrown
away. -/
theorem OneEra.not_closed (h : OneEra (j ++ k)) (hk : registrations k ≠ []) : ¬Closed j := by
  rintro ⟨a, i, l, rfl, hi, ha⟩
  refine (h a i (l ++ k) (by simp) hi).elim ha fun hl => hk ?_
  rw [registrations_append] at hl
  exact (List.append_eq_nil_iff.1 hl).2

/-- Handles so far are distinct, and those since the slots were thrown away last are of earlier
claims. -/
structure Counted (j : Journal δ α υ) : Prop where
  distinct : ((registrations j).map Registration.handle).Nodup
  counted : (∀ g ∈ registrations j,
    g.handle.generation.toNat ≤ claimsSince g.handle.slot j) ∨ Closed j

omit [Board δ] in
/-- Nothing is registered. -/
theorem Counted.same (h : Counted j) (hr : registrations k = [])
    (hc : (∀ i, claimsSince i j ≤ claimsSince i (j ++ k)) ∨ registrations j = [] ∨
      Closed (j ++ k)) : Counted (j ++ k) := by
  have hrs : registrations (j ++ k) = registrations j := by
    rw [registrations_append, hr, List.append_nil]
  refine ⟨hrs.symm ▸ h.distinct, ?_⟩
  rw [hrs]
  rcases hc with hle | hnil | hcl
  · exact h.counted.imp (fun hc g hg => Nat.le_trans (hc g hg) (hle _)) fun hcl => hcl.append k
  · rw [hnil]
    exact .inl nofun
  · exact .inr hcl

omit [Board δ] in
/-- A registration is made, of the generation that its claim is. -/
theorem Counted.made (h : Counted j) (hj : ¬Closed j) {g : Registration α}
    (hr : registrations k = [g]) (hc : ∀ i, claimsSince i j ≤ claimsSince i (j ++ k))
    (hg : g.handle.generation.toNat = claimsSince g.handle.slot j + 1)
    (hk : claimsSince g.handle.slot (j ++ k) = claimsSince g.handle.slot j + 1) :
    Counted (j ++ k) := by
  have hle := h.counted.resolve_right hj
  have hne : ∀ g' ∈ registrations j, g'.handle ≠ g.handle := fun g' hg' heq => by
    have := hle g' hg'
    rw [heq, hg] at this
    exact Nat.not_succ_le_self _ this
  refine ⟨?_, .inl fun g' hg' => ?_⟩
  · rw [registrations_append, hr, List.map_append, List.nodup_append]
    refine ⟨h.distinct, List.nodup_singleton _, fun x hx y hy hxy => ?_⟩
    obtain ⟨g', hg', rfl⟩ := List.mem_map.1 hx
    exact hne g' hg' (hxy.trans (List.mem_singleton.1 hy))
  · rw [registrations_append, hr] at hg'
    rcases List.mem_append.1 hg' with hg' | hg'
    · exact Nat.le_trans (hle g' hg') (hc _)
    · obtain rfl := List.mem_singleton.1 hg'
      exact Nat.le_of_eq (hg.trans hk.symm)

/-- **A move keeps handles distinct** while all registrations fall between two resets. -/
theorem Move.counted (h : Counted j) (hm : Move handler ls m k ls' m') (he : OneEra (j ++ k))
    (hn : ∀ i, (m.generationAt i).toNat = claimsSince i j)
    (hf : ∀ i, claimsOf i (j ++ k) < UInt32.size) : Counted (j ++ k) := by
  have silent : registrations k = [] →
      (∀ i, k.foldl (Item.tally (Item.claims i)) (claimsSince i j) = claimsSince i j) →
      Counted (j ++ k) := fun hr hs =>
    h.same hr (.inl fun i => Nat.le_of_eq ((hs i).symm.trans (countSince_append ..).symm))
  cases hm with
  | @call _ _ _ _ c r hc hp =>
      have mono : (Item.ended c r m').clears = false → ∀ i,
          claimsSince i j ≤ claimsSince i (j ++ [.began c m, .ended c r m']) := fun hcl i => by
        rw [claims_call, hcl, if_neg Bool.false_ne_true]
        split <;> omega
      cases hmade : (Item.ended c r m').made? with
      | none =>
          have hr := registrations_call c r m m'
          rw [hmade] at hr
          refine h.same hr ?_
          cases hcl : (Item.ended c r m').clears with
          | false => exact .inl (mono hcl)
          | true =>
              refine .inr (Classical.or_iff_not_imp_left.2 fun hne => ?_)
              refine ⟨j ++ [.began c m], .ended c r m', [], by simp, hcl, fun ha => hne ?_⟩
              rw [registrations_append] at ha
              exact (List.append_eq_nil_iff.1 ha).1
      | some g =>
          obtain ⟨hg, hclaim, hcl⟩ := perform_made hp hmade
          have hr : registrations [.began c m, .ended c r m'] = [g] := by
            rw [registrations_call, hmade]
            rfl
          -- The generation is the number of the claim.
          have hs : claimsSince g.handle.slot (j ++ [.began c m, .ended c r m']) =
              claimsSince g.handle.slot j + 1 := by
            rw [claims_call, hcl, if_neg Bool.false_ne_true, if_pos hclaim]
          have hgen : g.handle.generation.toNat = claimsSince g.handle.slot j + 1 := by
            have hlt := Nat.lt_of_le_of_lt (claimsSince_le g.handle.slot _) (hf g.handle.slot)
            rw [hs, ← hn] at hlt
            rw [← hn, hg]
            rw [hg] at hlt
            exact (UInt32.toNat_add ..).trans (Nat.mod_eq_of_lt hlt)
          exact h.made (he.not_closed (by simp [hr])) hr (mono hcl) hgen hs
  | idle | service | resume | client | periodic | next | rearm | lapsed | failed | drained =>
      exact silent rfl fun _ => rfl
  | @began _ _ c _ hc | @ended _ _ c _ hc | @aborted _ _ c _ hc =>
      cases c <;> first | exact hc.elim | exact silent rfl fun _ => rfl

/-- **All registrations between two resets have distinct handles.** -/
theorem handles_distinct {board : δ} {memory : υ}
    (hm : Moves handler [] (initial board memory) j ls m) (he : OneEra j)
    (hf : ∀ i, claimsOf i j < UInt32.size) : ((registrations j).map Registration.handle).Nodup := by
  have kept : (∀ i, (m.generationAt i).toNat = claimsSince i j) ∧ Counted j := by
    refine hm.preserves (h := []) (J := fun _ h m => OneEra h → (∀ i, claimsOf i h < UInt32.size) →
      (∀ i, (m.generationAt i).toNat = claimsSince i h) ∧ Counted h)
      (fun {_ _ h k m m'} ih hm he hf => ?_) (fun _ _ => ?_) he hf
    · obtain ⟨hn, hc⟩ := ih he.left fun i => countP_lt_left (hf i)
      exact ⟨fun i => hm.numbered (hn i) (hf i), hm.counted hc he hn hf⟩
    · exact ⟨fun i => rfl, List.nodup_nil, .inl nofun⟩
  exact kept.2.distinct

/-! ### The first handle -/

/-- A registration is refused for its period only. -/
def Item.Unrefused : Item δ α υ → Prop
  | .ended (.schedulePeriodic _ period _) (.error _) _ => period = 0
  | _ => True

/-- The first registration there is gets the first handle. -/
structure First (j : Journal δ α υ) (m : Machine δ α υ) : Prop where
  empty : registrations j = [] → m.slots.size = 0
  first : registrations j ≠ [] →
    (⟨0, 1⟩ : PeriodicHandle) ∈ (registrations j).map Registration.handle

omit [Board δ] in
theorem size_eq_zero_of_getElem? {slots : Array PeriodicSlot} (h : slots[0]? = none) :
    slots.size = 0 := Nat.le_zero.1 (Array.getElem?_eq_none_iff.1 h)

/-- Without slots there are none after a call that makes no registration. -/
theorem perform_empty {bound : Nat} {c : Call δ α υ} {r : Except Fault c.Answer}
    (hc : ¬c.Fires) (hp : perform handler bound c m = some (r, m'))
    (hu : (Item.ended c r m').Unrefused) (hm : (Item.ended c r m').made? = none)
    (h : m.slots.size = 0) : m'.slots.size = 0 := by
  have none : ∀ i, m.slots[i]? = none := fun i => Array.getElem?_eq_none_iff.2 (h ▸ Nat.zero_le i)
  cases c with
  | read | write | writeMasked | request | takeEdge | schedule | capture | observe =>
      rw [(perform_beside (by exact trivial) hp).slots, h]
  | bus => rw [(perform_bus_aside hp).slots, h]
  | run | runToNext => exact absurd trivial hc
  | deschedule | reset =>
      simp only [perform] at hp
      cases hp
      first | exact h | rfl
  | restore s =>
      simp only [perform] at hp
      obtain ⟨e, he⟩ | ⟨m₁, he, -, hs, -⟩ := restore_cases s m <;> rw [Op.toRun_apply, he] at hp <;>
        cases hp
      · exact h
      · rw [hs]
        rfl
  | cancelPeriodic k =>
      simp only [perform] at hp
      obtain ⟨-, he⟩ | ⟨id, slots, hid, -⟩ := cancelPeriodic_cases k m
      · rw [he] at hp
        cases hp
        exact h
      · rw [none] at hid
        cases hid
  | schedulePeriodic name period action =>
      simp only [perform] at hp
      obtain ⟨-, e, he⟩ | ⟨hne, slots, ⟨⟨e, he⟩, -⟩ | ⟨he, -⟩⟩ :=
        schedulePeriodic_cases name period action m <;> rw [Op.toRun_apply, he] at hp <;> cases hp
      · exact h
      · exact absurd hu hne
      · cases hm

theorem Move.first (h : First j m) (hm : Move handler ls m k ls' m')
    (hu : ∀ i ∈ k, i.Unrefused) : First (j ++ k) m' := by
  have silent : registrations k = [] → (m.slots.size = 0 → m'.slots.size = 0) →
      First (j ++ k) m' := fun hr hs => by
    have hrs : registrations (j ++ k) = registrations j := by
      rw [registrations_append, hr, List.append_nil]
    exact ⟨hrs.symm ▸ fun hj => hs (h.empty hj), hrs.symm ▸ h.first⟩
  have aside : Aside m m' → m.slots.size = 0 → m'.slots.size = 0 := fun ha hs => by
    rw [ha.slots, hs]
  cases hm with
  | @call _ _ _ _ c r hc hp =>
      have hr := registrations_call c r m m'
      cases hmade : (Item.ended c r m').made? with
      | none =>
          rw [hmade] at hr
          exact silent hr (perform_empty hc hp (hu _ (by simp)) hmade)
      | some g =>
          rw [hmade] at hr
          have hrs : registrations (j ++ [.began c m, .ended c r m']) = registrations j ++ [g] := by
            rw [registrations_append, hr]
            rfl
          refine ⟨fun hnil => by simp [hrs] at hnil, fun _ => ?_⟩
          rw [hrs, List.map_append]
          by_cases hj : registrations j = []
          · refine List.mem_append_right _ (List.mem_singleton.2 ?_)
            rw [(perform_made hp hmade).1, nextHandle_of_empty (h.empty hj)]
          · exact List.mem_append_left _ (h.first hj)
  | idle | client | periodic | next | lapsed | failed => exact silent rfl id
  | service hp he ho => exact silent rfl (aside (service_aside hp he ho))
  | resume hp he ho => exact silent rfl (aside (resume_aside hp he ho))
  | rearm _ ho =>
      refine silent rfl fun hs => ?_
      obtain ⟨e, he⟩ | ⟨slots, he, hsl⟩ := armPeriodic_cases .. <;> rw [he] at ho <;> cases ho
      · exact hs
      · refine size_eq_zero_of_getElem? ((hsl 0).trans ?_)
        rw [Array.getElem?_eq_none_iff.2 (hs ▸ Nat.zero_le 0)]
        split <;> rfl
  | drained _ ht => exact silent rfl fun hs => (congrArg (·.2.slots.size) ht).symm.trans hs
  | @began _ _ c _ hc | @ended _ _ c _ hc | @aborted _ _ c _ hc =>
      cases c <;> first | exact hc.elim | exact silent rfl id

theorem Moves.first (hm : Moves handler ls m j ls' m') (h : m.slots.size = 0)
    (hu : ∀ i ∈ j, i.Unrefused) : First j m' :=
  hm.preserves (h := []) (J := fun _ h m => (∀ i ∈ h, i.Unrefused) → First h m)
    (fun ih hm hu => hm.first (ih fun i hi => hu i (List.mem_append_left _ hi))
      fun i hi => hu i (List.mem_append_right _ hi))
    (fun _ => ⟨fun _ => h, fun hne => absurd rfl hne⟩) hu

/-- After the slots were thrown away there are none. -/
theorem perform_clears {bound : Nat} {c : Call δ α υ} {r : Except Fault c.Answer}
    (hp : perform handler bound c m = some (r, m')) (hc : (Item.ended c r m').clears = true) :
    m'.slots.size = 0 := by
  cases c with
  | reset =>
      simp only [perform] at hp
      cases hp
      rfl
  | restore s =>
      simp only [perform] at hp
      obtain ⟨e, he⟩ | ⟨m₁, he, -, hs, -⟩ := restore_cases s m <;> rw [Op.toRun_apply, he] at hp <;>
        cases hp
      · cases hc
      · rw [hs]
        rfl
  | _ => cases hc

/-- The first handle is given again after a reset. -/
theorem oneEra_of_distinct {board : δ} {memory : υ}
    (hm : Moves handler [] (initial board memory) j ls m) (hu : ∀ i ∈ j, i.Unrefused)
    (hn : ((registrations j).map Registration.handle).Nodup) : OneEra j := by
  intro k i l hj hi
  rw [Classical.or_iff_not_imp_left]
  intro hk
  by_contra hl
  obtain ⟨k₁, ls₁, m₁, before, after, ls₂, m₂, l₂, h₁, hmid, h₂, rfl, rfl⟩ := hm.split hj
  cases i with
  | began | fired | invoked => cases hi
  | ended c r m₃ =>
      have hc : ¬c.Fires := by
        cases c <;> first | exact id | cases hi
      obtain ⟨rfl, rfl, rfl, rfl, _, hp⟩ := hmid.of_ended hc
      have hreg : registrations (k₁ ++ [.began c m₁]) = registrations k₁ := by
        rw [registrations_append]
        exact List.append_nil _
      rw [hreg] at hk
      have before := (h₁.first rfl fun i hi => hu i (by simp [hj, hi])).first hk
      have after := (h₂.first (perform_clears hp hi) fun i hi => hu i (by simp [hj, hi])).first hl
      rw [hj, List.append_cons, registrations_append, registrations_append, hreg, List.map_append,
        List.nodup_append, List.map_append] at hn
      exact hn.2.2 _ (List.mem_append_left _ before) _ after rfl

/-! ### The statement -/

/-- **Handles are never confused**, in a history from power-on in which no slot is claimed as often
as there are generations, if all its registrations fall between two resets or restored snapshots.
If none of them was refused for want of room, only then. -/
theorem handles_never_confused {bound : Nat} {x : Script (interface δ α υ) β} {board : δ}
    {memory : υ} {r : Except Fault β}
    (hx : x.exec (perform handler bound) (initial board memory) = some (r, m))
    (hf : ∀ i, claimsOf i (chronicle handler bound x (initial board memory)) < UInt32.size) :
    (OneEra (chronicle handler bound x (initial board memory)) →
        Faithful (chronicle handler bound x (initial board memory))) ∧
      ((∀ i ∈ chronicle handler bound x (initial board memory), i.Unrefused) →
        Faithful (chronicle handler bound x (initial board memory)) →
        OneEra (chronicle handler bound x (initial board memory))) := by
  have hm := exec_moves bound x [] _ r m hx
  exact ⟨fun he => faithful_of_distinct hm (handles_distinct hm he hf),
    fun hu hfaith => oneEra_of_distinct hm hu hfaith.distinct⟩

end Distinct

/-! A registration is cancelled, another one put in its slot, and the first handle cancelled again;
and the same with a reset in place of the first cancellation. -/

/-- Registers, does what is given, registers again, and answers whether the first handle could be
cancelled then. -/
def staleScript (between : PeriodicHandle → Script (interface BareBoard Unit Unit) Unit) :
    Script (interface BareBoard Unit Unit) Bool := do
  let stale ← Script.call (I := interface BareBoard Unit Unit) (.schedulePeriodic "first" 50 ())
  between stale
  let _ ← Script.call (I := interface BareBoard Unit Unit) (.schedulePeriodic "second" 50 ())
  let answer ← Script.call (I := interface BareBoard Unit Unit) (.cancelPeriodic stale)
  Script.call (I := interface BareBoard Unit Unit) (.run 100)
  return answer

def cancelFirst (stale : PeriodicHandle) : Script (interface BareBoard Unit Unit) Unit := do
  let _ ← Script.call (I := interface BareBoard Unit Unit) (.cancelPeriodic stale)
  return ()

def resetFirst (_ : PeriodicHandle) : Script (interface BareBoard Unit Unit) Unit :=
  Script.call (I := interface BareBoard Unit Unit) .reset

def staleHandler : Handler BareBoard Unit Unit := fun _ _ => .done ()

/-- The handle of a cancelled registration is told from that of the slot's new owner. -/
theorem stale_handle_is_refused : ∃ m,
    (staleScript cancelFirst).exec (perform staleHandler 4) (initial ⟨⟩ ()) = some (.ok false, m) ∧
      Faithful (chronicle staleHandler 4 (staleScript cancelFirst) (initial ⟨⟩ ())) := by
  have hr : ((staleScript cancelFirst).exec (perform staleHandler 4) (initial ⟨⟩ ())).any
      (fun r => match r.1 with | .ok b => !b | .error _ => false) = true := by
    decide +kernel
  have hc : ∀ i ∈ chronicle staleHandler 4 (staleScript cancelFirst) (initial ⟨⟩ ()),
      i.clears = false := by
    decide +kernel
  have hlen : (chronicle staleHandler 4 (staleScript cancelFirst) (initial ⟨⟩ ())).length <
      UInt32.size := by
    decide +kernel
  obtain ⟨⟨r, m⟩, hx, hm⟩ := (Option.any_eq_true _ _).1 hr
  cases r with
  | error e => cases hm
  | ok b =>
      obtain rfl : b = false := by simpa using hm
      refine ⟨m, hx, (handles_never_confused hx fun i => ?_).1 fun k i l hj hi => ?_⟩
      · exact Nat.lt_of_le_of_lt List.countP_le_length hlen
      · rw [hc i (by simp [hj])] at hi
        cases hi

/-- After a reset the handle of the registration that was dropped is the slot's new owner's, and
cancels it. -/
theorem stale_handle_cancels_after_reset : ∃ m,
    (staleScript resetFirst).exec (perform staleHandler 4) (initial ⟨⟩ ()) = some (.ok true, m) ∧
      ¬Faithful (chronicle staleHandler 4 (staleScript resetFirst) (initial ⟨⟩ ())) := by
  have hr : ((staleScript resetFirst).exec (perform staleHandler 4) (initial ⟨⟩ ())).any
      (fun r => match r.1 with | .ok b => b | .error _ => false) = true := by
    decide +kernel
  have hh : (registrations (chronicle staleHandler 4 (staleScript resetFirst) (initial ⟨⟩ ()))).map
      Registration.handle = [⟨0, 1⟩, ⟨0, 1⟩] := by
    decide +kernel
  obtain ⟨⟨r, m⟩, hx, hm⟩ := (Option.any_eq_true _ _).1 hr
  cases r with
  | error e => cases hm
  | ok b =>
      obtain rfl : b = true := hm
      refine ⟨m, hx, fun hf => ?_⟩
      have hd := hf.distinct
      rw [hh] at hd
      exact absurd hd (by decide)

end Machine

end DmaMachine
