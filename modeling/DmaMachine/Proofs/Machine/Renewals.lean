import DmaMachine.Proofs.Engine.Channels
import DmaMachine.Proofs.Machine.Errands
import DmaMachine.Proofs.Machine.Generations

/-!
# Renewals of channels

What a client and the machine's own events do to a channel, outside the service passes, can be read
off the journal: a call that begins writes a register of the channel or requests it, and a resume
event that fires resumes it if it waits in the event's generation (`Item.deed?`).  A start, a
resumption or an abort among these *renews* the channel.

* `perform_next`: a call does to the channels what its item says, or clears the machine.
* `Stamped`: the generation of a channel is the number of its renewals since the machine was last
  cleared, and a pending resume event is of the present generation only while its channel waits.
* `Move.stamped`: **every move keeps the machine stamped.**
-/

namespace DmaMachine

namespace Machine

open Journal

variable {δ α υ β : Type} {m m' : Machine δ α υ}

/-! ### What an item does to a channel -/

/-- The write of a register of a channel that a masked write of the processor makes. -/
def registerDeed? (p : Peer) (a v mask : UInt32) : Option (Channel.Deed (Bus δ)) :=
  if inWindow (physical a) then
    (Register.ofPeer? p (physical a - windowStart)).map fun r => .write r v mask
  else none

/-- What the call does to a channel. -/
def Call.deed? (p : Peer) : Call δ α υ → Option (Channel.Deed (Bus δ))
  | .request q => if q = p then some .request else none
  | .writeMasked a v mask => registerDeed? p a v mask
  | .write w a v =>
      if w = .word then registerDeed? p a v 0xFFFFFFFF
      else if inWindow (physical a) then
        registerDeed? p (wordBase a) ((v &&& w.mask) <<< w.shift (physical a))
          (w.mask <<< w.shift (physical a))
      else none
  | _ => none

/-- The channel at the item. -/
def Item.channel (p : Peer) (i : Item δ α υ) : Channel := i.machine.engine.channel p

/-- What the item does to a channel. -/
def Item.deed? (p : Peer) : Item δ α υ → Option (Channel.Deed (Bus δ))
  | .began c _ => c.deed? p
  | .fired e _ m =>
      match e.task with
      | .resume q generation =>
          if q = p ∧ (m.engine.channel p).generation = generation ∧ (m.engine.channel p).Waits then
            some (.arm true)
          else none
      | _ => none
  | .ended .. | .invoked .. => none

theorem Call.deed?_outer {c : Call δ α υ} {p : Peer} {d : Channel.Deed (Bus δ)}
    (h : c.deed? p = some d) : d = .request ∨ ∃ r v mask, d = .write r v mask := by
  have register : ∀ {a v mask}, registerDeed? p a v mask = some d → d = .request ∨
      ∃ r v mask, d = .write r v mask := fun {a v mask} h => by
    rw [registerDeed?] at h
    split at h
    · obtain ⟨r, -, rfl⟩ := Option.map_eq_some_iff.1 h
      exact .inr ⟨r, _, _, rfl⟩
    · cases h
  cases c with
  | request q =>
      rw [deed?] at h
      split at h <;> cases h
      exact .inl rfl
  | writeMasked a v mask => exact register h
  | write w a v =>
      rw [deed?] at h
      split at h
      · exact register h
      · split at h
        · exact register h
        · cases h
  | _ => cases h

theorem Item.deed?_outer {i : Item δ α υ} {p : Peer} {d : Channel.Deed (Bus δ)}
    (h : i.deed? p = some d) : d.Outer (i.channel p) := by
  cases i with
  | began c m =>
      obtain rfl | ⟨r, v, mask, rfl⟩ := Call.deed?_outer h <;> exact trivial
  | fired e late m =>
      rw [deed?] at h
      split at h
      · split at h <;> cases h
        rename_i hw
        exact ⟨rfl, hw.2.2.2⟩
      · cases h
  | ended | invoked => cases h

section Board

variable [Board δ]

/-- The channel after what the item does to it. -/
def Item.next (p : Peer) (i : Item δ α υ) : Channel :=
  (i.deed? p).elim (i.channel p) (·.after p (i.channel p))

/-- Whether the item starts, resumes or aborts the channel. -/
def Item.renews (p : Peer) (i : Item δ α υ) : Bool := Channel.renewed (i.channel p) (i.next p)

/-- How often a channel was started, resumed or aborted. -/
def renewals (p : Peer) (j : Journal δ α υ) : Nat := j.countP (Item.renews p)

/-- How often a channel was started, resumed or aborted since the machine was last cleared. -/
def renewalsSince (p : Peer) (j : Journal δ α υ) : Nat := countSince (Item.renews p) j

theorem Item.next_of_deed?_eq_none {i : Item δ α υ} {p : Peer} (h : i.deed? p = none) :
    i.next p = i.channel p := by
  rw [next, h]
  rfl

theorem Item.renews_of_deed?_eq_none {i : Item δ α υ} {p : Peer} (h : i.deed? p = none) :
    i.renews p = false := by
  rw [renews, next_of_deed?_eq_none h, Channel.renewed_self]

/-- **The generation counts the renewals.** -/
theorem Item.next_renews (i : Item δ α υ) (p : Peer) :
    Channel.Renews (i.channel p) (i.next p) := by
  rw [next]
  cases h : i.deed? p with
  | none => exact .of_eq rfl rfl rfl
  | some d => exact (deed?_outer h).renews

theorem Item.next_intact {i : Item δ α υ} {p : Peer} (h : Channel.Intact p (i.channel p)) :
    Channel.Intact p (i.next p) := by
  rw [next]
  cases i.deed? p with
  | none => exact h
  | some d => exact h.after d

omit [Board δ] in
theorem Item.Idle.deed? {i : Item δ α υ} (h : i.Idle) (p : Peer) :
    i.clears = false ∧ i.deed? p = none := by
  cases i with
  | began c m | ended c r m => cases c <;> first | exact ⟨rfl, rfl⟩ | exact h.elim
  | invoked => exact ⟨rfl, rfl⟩
  | fired e late m =>
      refine ⟨rfl, ?_⟩
      rw [Item.deed?]
      cases ht : e.task with
      | resume => exact absurd ((congrArg Task.errand? ht).symm.trans h) (by simp [Task.errand?])
      | service | periodic | client => rfl

/-! ### Calls -/

theorem writeMasked_channel (a v mask : UInt32) (m : Machine δ α υ) (p : Peer) :
    (Op.outcome (writeMasked a v mask m)).2.engine.channel p =
      (registerDeed? p a v mask).elim (m.engine.channel p)
        fun d : Channel.Deed (Bus δ) => d.after p (m.engine.channel p) := by
  have alike : ∀ {op : Op (Machine δ α υ) Unit}, Op.Relates Alike op →
      (Op.outcome (op m)).2.engine = m.engine := fun h => by
    obtain ⟨_, _, _, he⟩ := h m
    rw [he]
  rw [registerDeed?, writeMasked]
  by_cases hw : inWindow (physical a) = true
  · rw [if_pos hw, if_pos hw, writeRegister_engine, Engine.channel_write]
    cases Register.ofPeer? p (physical a - windowStart) <;> rfl
  · rw [if_neg hw, if_neg hw]
    refine congrArg (Engine.channel · p) ?_
    repeat' split
    · exact alike (alike_onBus _)
    · exact alike (alike_onBus _)
    · exact alike (alike_onBus _)
    · exact alike (writeLanes_alike a v mask _)

theorem write_channel (w : Width) (a v : UInt32) (m : Machine δ α υ) (p : Peer) :
    (Op.outcome (write w a v m)).2.engine.channel p =
      ((Call.write w a v : Call δ α υ).deed? p).elim (m.engine.channel p)
        (·.after p (m.engine.channel p)) := by
  rw [write, Call.deed?]
  split
  · exact writeMasked_channel a v _ m p
  · split
    · exact writeMasked_channel _ _ _ m p
    · obtain ⟨_, _, _, he⟩ := alike_onBus (α := α) (υ := υ) (Bus.write w a v) m
      rw [he]
      rfl

/-- The channel is at rest in its first generation. -/
structure Resting (p : Peer) (c : Channel) : Prop where
  intact : Channel.Intact p c
  running : c.running = false
  generation : c.generation = 0

omit [Board δ] in
theorem resting_initial (p : Peer) : Resting p (({} : Engine).channel p) := by
  have h : ({} : Engine).channel p = Channel.initial p := by cases p <;> rfl
  rw [h]
  exact ⟨Channel.intact_initial p, rfl, rfl⟩

omit [Board δ] in
theorem resting_atRest (p : Peer) (base blocks control : UInt32) :
    Resting p (Channel.atRest p base blocks control) :=
  ⟨Channel.intact_atRest (Channel.proper_of_stored rfl rfl rfl rfl) rfl UInt32.and_le_right rfl rfl
    rfl (Channel.storedControl_storedBy p _) rfl, rfl, rfl⟩

/-- **A call does to the channels what its item says**, or it clears the machine. -/
theorem perform_next {handler : Handler δ α υ} {bound : Nat} {c : Call δ α υ}
    {r : Except Fault c.Answer} (hc : ¬c.Fires) (hp : perform handler bound c m = some (r, m')) :
    ((Item.ended c r m').clears = true ∧ m'.timeline.events = [] ∧
        ∀ p, Resting p (m'.engine.channel p)) ∨
      (Item.ended c r m').clears = false ∧
        ∀ p, m'.engine.channel p = (Item.began c m).next p := by
  have same : c.deed? = (fun _ => none : Peer → Option (Channel.Deed (Bus δ))) →
      (∀ p, m'.engine.channel p = m.engine.channel p) →
      ∀ p, m'.engine.channel p = (Item.began c m).next p := fun hd he p => by
    exact (he p).trans (Item.next_of_deed?_eq_none (i := .began c m) (congrFun hd p)).symm
  cases c with
  | read | bus | schedule | deschedule | schedulePeriodic | cancelPeriodic | capture | observe =>
      refine .inr ⟨rfl, same rfl fun p => ?_⟩
      rw [(perform_apart (by exact trivial) hp).1]
  | write w a v =>
      simp only [perform] at hp
      refine .inr ⟨rfl, fun p => ?_⟩
      have h := write_channel w a v m p
      rwa [Option.some.inj hp] at h
  | writeMasked a v mask =>
      simp only [perform] at hp
      refine .inr ⟨rfl, fun p => ?_⟩
      have h := writeMasked_channel a v mask m p
      rwa [Option.some.inj hp] at h
  | request q =>
      simp only [perform] at hp
      refine .inr ⟨rfl, fun p => ?_⟩
      have h := request_engine q m
      rw [Option.some.inj hp] at h
      replace h : m'.engine = (Op.outcome (Engine.request q m.engine)).2 := h
      rw [h, Engine.channel_request, Item.next, Item.deed?, Call.deed?]
      split <;> rfl
  | takeEdge =>
      simp only [perform] at hp
      cases hp
      exact .inr ⟨rfl, same rfl fun _ => rfl⟩
  | reset =>
      simp only [perform] at hp
      cases hp
      exact .inl ⟨rfl, rfl, resting_initial⟩
  | restore s =>
      simp only [perform] at hp
      rw [Op.toRun_apply] at hp
      cases hf : misfit? s with
      | some fault =>
          rw [restore_of_misfit hf m] at hp
          cases hp
          exact .inr ⟨rfl, same rfl fun _ => rfl⟩
      | none =>
          obtain ⟨ram, -, hr⟩ := restore_of_fit hf m
          rw [hr] at hp
          cases hp
          refine .inl ⟨rfl, rfl, fun p => ?_⟩
          exact restoredChannels_preserves p (resting_atRest p) Peer.all s.channels
            (resting_initial p)
  | run | runToNext => exact absurd trivial hc

/-! ### Stamps -/

/-- The generation of a channel is the number of its renewals since the machine was last cleared,
and a pending resume event is of the present one only while its channel waits. -/
structure Stamped (j : Journal δ α υ) (m : Machine δ α υ) : Prop where
  intact : ∀ p, Channel.Intact p (m.engine.channel p)
  generation : ∀ p, (m.engine.channel p).generation = UInt32.ofNat (renewalsSince p j)
  resumes : ∀ p, ∀ e ∈ m.eventsOn (.resume p), ∃ n ≤ renewalsSince p j,
    e.task = .resume p (UInt32.ofNat n) ∧
      (n = renewalsSince p j → (m.engine.channel p).Waits)

variable {handler : Handler δ α υ} {ls ls' : List (Level δ α υ)} {j k : Journal δ α υ}

/-- The channels are renewed as the journal says, and no resumption is planned. -/
theorem Stamped.next (h : Stamped j m) (hi : ∀ p, Channel.Intact p (m'.engine.channel p))
    (hr : ∀ p, Channel.Renews (m.engine.channel p) (m'.engine.channel p))
    (hk : ∀ p, renewalsSince p (j ++ k) = renewalsSince p j +
      if Channel.renewed (m.engine.channel p) (m'.engine.channel p) then 1 else 0)
    (ht : ∀ p, ∀ e ∈ m'.eventsOn (.resume p), e ∈ m.eventsOn (.resume p)) :
    Stamped (j ++ k) m' where
  intact := hi
  generation p := by
    rw [hr p, h.generation, hk]
    split
    · exact (UInt32.ofNat_add ..).symm
    · exact UInt32.add_zero _
  resumes p e he := by
    obtain ⟨n, hn, htask, hw⟩ := h.resumes p e (ht p e he)
    rw [hk]
    refine ⟨n, Nat.le_add_right_of_le hn, htask, fun heq => ?_⟩
    cases hc : Channel.renewed (m.engine.channel p) (m'.engine.channel p) with
    | true =>
        rw [hc, if_pos rfl] at heq
        omega
    | false =>
        rw [hc] at heq
        exact (hw heq).of_renewed_eq_false hc

/-- A service pass renews no channel, and plans resumptions for channels that wait. -/
theorem Stamped.pass (h : Stamped j m) (hk : ∀ p, renewalsSince p (j ++ k) = renewalsSince p j)
    (ho : Passed m m') : Stamped (j ++ k) m' where
  intact p := by
    rw [ho.engine]
    obtain ⟨-, hc⟩ | ⟨-, _, _, -, hc⟩ := Engine.service_channel p (m.engine, m.bus) <;> rw [hc]
    · exact h.intact p
    · exact Channel.step_intact (h.intact p)
  generation p := by
    rw [ho.engine, Engine.service_generation, h.generation, hk]
  resumes p e he := by
    rw [hk]
    rcases ho.resumes p e he with he | ⟨c, hc, ht, -⟩
    · obtain ⟨n, hn, ht, hw⟩ := h.resumes p e he
      refine ⟨n, hn, ht, fun heq => ?_⟩
      rw [ho.engine, (Engine.service_of_inactive (s := (m.engine, m.bus)) (hw heq).2).2]
      exact hw heq
    · obtain ⟨ha, hr, hna⟩ := Engine.service_chopped hc
      refine ⟨_, Nat.le_refl _, ?_, fun _ => ?_⟩
      · rw [ht, ho.engine, Engine.service_generation, h.generation]
      · rw [ho.engine]
        exact ⟨hr.trans ((h.intact p).running ha), hna⟩

/-- **Whatever a move is to the engine, it keeps the machine stamped.** -/
theorem Effect.stamped (h : Stamped j m) (he : Effect handler ls m k m') :
    Stamped (j ++ k) m' := by
  cases he with
  | @call bound c r _ hc hp =>
      obtain ⟨hcl, hev, hr⟩ | ⟨hcl, hn⟩ := perform_next hc hp
      · have hz : ∀ p, renewalsSince p (j ++ [.began c m, .ended c r m']) = 0 := fun p => by
          rw [List.append_cons, renewalsSince, countSince_snoc, if_pos hcl]
        refine ⟨fun p => (hr p).intact, fun p => ?_, fun p e hm => ?_⟩
        · rw [hz, (hr p).generation]
          rfl
        · rw [mem_eventsOn, hev] at hm
          exact absurd hm.1 List.not_mem_nil
      · refine h.next (fun p => ?_) (fun p => ?_) (fun p => ?_) (perform_tidy hc hp).resumes
        · rw [hn]
          exact Item.next_intact (h.intact p)
        · rw [hn]
          exact Item.next_renews (.began c m) p
        · have he : (Item.ended c r m').renews p = false := Item.renews_of_deed?_eq_none rfl
          rw [List.append_cons, renewalsSince, countSince_snoc, hcl, he, countSince_snoc, hn]
          rfl
  | @pass l e t _ hl hp he ho =>
      have ht := popped_tidy hp
      have h₁ : Stamped j (Host.setTimeline t m) :=
        ⟨h.intact, h.generation, fun p d hd => h.resumes p d (ht.resumes p d hd)⟩
      refine h₁.pass (fun p => countSince_silent _ ?_) ho
      rw [List.forall_mem_singleton]
      refine ⟨rfl, Item.renews_of_deed?_eq_none ?_⟩
      rw [Item.deed?, he]
  | @resume l e t q generation _ hl hp he ht hn ho =>
      have hnext : ∀ p, m'.engine.channel p = (Item.fired e (l.target - e.triggerAt)
          (Host.setTimeline t m)).next p := fun p => by
        rw [ho, Engine.channel_resume, Item.next, Item.deed?, he]
        show _ = Option.elim (if q = p ∧ (m.engine.channel p).generation = generation ∧
          (m.engine.channel p).Waits then _ else _) _ _
        split <;> rfl
      refine h.next (fun p => ?_) (fun p => ?_) (fun p => ?_) ht.resumes
      · rw [hnext]
        exact Item.next_intact (h.intact p)
      · rw [hnext]
        exact Item.next_renews _ p
      · rw [renewalsSince, countSince_snoc, hnext]
        rfl
  | none hj ht he =>
      refine h.next (fun p => he ▸ h.intact p) (fun p => he ▸ .of_eq rfl rfl rfl) (fun p => ?_)
        ht.resumes
      rw [he, Channel.renewed_self]
      exact countSince_silent _ fun i hi =>
        ⟨((hj i hi).deed? p).1, Item.renews_of_deed?_eq_none ((hj i hi).deed? p).2⟩

theorem initial_stamped (board : δ) (memory : υ) :
    Stamped [] (initial board memory : Machine δ α υ) where
  intact p := (resting_initial p).intact
  generation p := (resting_initial p).generation
  resumes _ _ he := absurd he List.not_mem_nil

/-- **A history keeps the machine stamped**, and remembering its own events. -/
theorem Moves.stamped {board : δ} {memory : υ}
    (hm : Moves handler [] (initial board memory) j ls m) : m.Remembers ∧ Stamped j m :=
  hm.preserves (h := []) (J := fun _ h m => m.Remembers ∧ Stamped h m)
    (fun ⟨hr, hs⟩ hm => ⟨hm.remembers hr, (hm.effect hr).stamped hs⟩)
    ⟨initial_remembers board memory, initial_stamped board memory⟩

end Board

end Machine

end DmaMachine
