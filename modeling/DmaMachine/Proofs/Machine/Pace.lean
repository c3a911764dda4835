import DmaMachine.Proofs.Machine.Renewals
import DmaMachine.Rack

/-!
# The pace of a chopped transfer

A burst that is chopped yields the bus after every window, for some cycles.  The machine plans a
resumption for when they are over, and ties it to the channel's generation, since until then much
may happen: the client may force the start or request the channel, abort the transfer, start another
one, or reset the machine, and each chop drops the resumption planned before.

* `Paced`: where a channel is on the way from the end of a window to the time when it may go on.
* `Effect.paced`: **whatever happens keeps it on that way.**
* `Outdated`: a resume event whose transfer has gone on or is over.  It stays so.
* `chopping_keeps_pace`: the statement.
* `late_burst_takes_no_pause`: pauses whose ends 64 bits do not hold, and a burst that takes none.
-/

namespace DmaMachine

/-- Whether the deed is a request of the peripheral. -/
def Channel.Deed.requests {β : Type} : Channel.Deed β → Bool
  | .request => true
  | _ => false

namespace Machine

open Journal Timeline

variable {δ α υ β : Type} {m m' : Machine δ α υ} {j k h : Journal δ α υ} {p : Peer} {d : Nat}

/-- No callback of the history resets the machine or restores a snapshot. -/
def Uncleared (j : Journal δ α υ) : Prop :=
  Throughout (fun k i => underway k ≠ [] → i.clears = false) j

instance (j : Journal δ α υ) : Decidable (Uncleared j) :=
  inferInstanceAs (Decidable (Throughout (fun k i => underway k ≠ [] → i.clears = false) j))

/-! ### Targets -/

/-- No run under way has a target past the time. -/
def NotAhead (ls : List (Level δ α υ)) (m : Machine δ α υ) : Prop :=
  ∀ l ∈ ls, l.target ≤ m.timeline.now

theorem NotAhead.cons {l : Level δ α υ} {ls : List (Level δ α υ)} (h : NotAhead ls m)
    (hl : l.target ≤ m'.timeline.now) (hn : m.timeline.now ≤ m'.timeline.now) :
    NotAhead (l :: ls) m' :=
  List.forall_mem_cons.2 ⟨hl, fun l' hl' => Nat.le_trans (h l' hl') hn⟩

/-- The innermost run goes on with what it does. -/
theorem NotAhead.onward {l l' : Level δ α υ} {ls : List (Level δ α υ)}
    (h : NotAhead (l :: ls) m) (hl : l'.target = l.target)
    (hn : m.timeline.now ≤ m'.timeline.now) : NotAhead (l' :: ls) m' := by
  obtain ⟨ht, hs⟩ := List.forall_mem_cons.1 h
  exact NotAhead.cons hs (hl ▸ Nat.le_trans ht hn) hn

section Board

variable [Board δ] {handler : Handler δ α υ} {ls ls' : List (Level δ α υ)}

/-- **A move in range leaves no target past the time**, if it clears the machine only while no run
is under way. -/
theorem Move.notAhead (h : NotAhead ls m) (hw : m.timeline.WellFormed) (ha : m.ahead < UInt64.size)
    (hj : InRange j) (hm : Move handler ls m j ls' m')
    (hq : ls ≠ [] → ∀ (c : Call δ α υ) (r : Except Fault c.Answer), ¬c.Fires →
      j = [.began c m, .ended c r m'] → (Item.ended c r m').clears = false) : NotAhead ls' m' := by
  have popped : ∀ {target : Nat} {e : Event (Task α)} {t : Timeline (Task α)},
      m.timeline.popDue target = some (e, t) →
        m.timeline.now ≤ (Host.setTimeline t m : Machine δ α υ).timeline.now := fun hp =>
    Nat.le_of_eq (popDue_eq_some_iff.1 hp).2.2.1.symm
  cases hm with
  | @call _ _ _ _ c r hc hp =>
      cases ls with
      | nil => exact List.forall_mem_nil _
      | cons l ls =>
          obtain ⟨_, hl⟩ | ⟨hcl, -⟩ := perform_turn hc hp
          · exact h.onward rfl (Nat.le_of_eq (hl.keeps hw).2.1.symm)
          · have hn := hq (List.cons_ne_nil _ _) c r hc rfl
            exact absurd (hn.symm.trans hcl) Bool.false_ne_true
  | idle => exact h
  | began _ hn =>
      rw [wrap_of_lt ((hj _ (.head _)).cycles_lt hn)]
      exact h.cons (Nat.le_refl _) (Nat.le_add_right ..)
  | drained _ ht =>
      rw [wrap_of_lt (stolen_lt ha ht)]
      exact NotAhead.cons (List.forall_mem_cons.1 h).2 (Nat.le_refl _) (Nat.le_add_right ..)
  | service hp he ho => exact h.onward rfl (Nat.le_of_eq (service_aside hp he ho).now.symm)
  | resume hp he ho => exact h.onward rfl (Nat.le_of_eq (resume_aside hp he ho).now.symm)
  | client hp | periodic hp => exact h.onward rfl (popped hp)
  | next | lapsed | failed => exact h.onward rfl (Nat.le_refl _)
  | rearm _ ho => exact h.onward rfl (Nat.le_of_eq (clock_armPeriodic.of_outcome ho).symm)
  | ended | aborted => exact (List.forall_mem_cons.1 h).2

omit [Board δ] in
theorem under_of_not_fires {c : Call δ α υ} (hc : ¬c.Fires) (us : List (Option (Task α)))
    (m : Machine δ α υ) : (Item.began c m).under us = us := by
  cases c <;> first | rfl | exact absurd trivial hc

theorem Moves.notAhead {board : δ} {memory : υ}
    (hm : Moves handler [] (initial board memory) j ls m) (hr : InRange j) (hq : Uncleared j) :
    NotAhead ls m := by
  have kept : (m.timeline.WellFormed ∧ Matches ls (underway j)) ∧ (Uncleared j → NotAhead ls m) :=
    hm.preserves_inRange (h := [])
      (J := fun ls h m => (m.timeline.WellFormed ∧ Matches ls (underway h)) ∧
        (Uncleared h → NotAhead ls m))
      (fun {ls ls' h j m m'} ⟨⟨hw, hmt⟩, hl⟩ ha hj hm =>
        ⟨⟨hm.turn.wellFormed hw, underway_append h j ▸ hm.matches hmt⟩, fun hq =>
          hm.notAhead (hl (Throughout.left hq)) hw ha hj fun hl c r hc hj => by
            subst hj
            refine hq (h ++ [.began c m]) _ [] (by simp) ?_
            rw [underway_append, List.foldl_cons, List.foldl_nil, under_of_not_fires hc]
            exact hmt.ne_nil hl⟩)
      ⟨⟨(initial_coherent board memory).wellFormed, .nil⟩, fun _ => List.forall_mem_nil _⟩
      (initial_ahead board memory) hr
  exact kept.2 hq

/-! ### What cuts a pause short -/

/-- Whether the item forces the start of the channel. -/
def Item.forces (p : Peer) (i : Item δ α υ) : Bool := (i.deed? p).any (·.forces p (i.channel p))

omit [Board δ] in
/-- Whether the item requests the channel. -/
def Item.requests (p : Peer) (i : Item δ α υ) : Bool := (i.deed? p).any (·.requests)

/-- Whether the item ends the channel's transfer: by an abort, or because it clears the machine. -/
def Item.aborts (p : Peer) (i : Item δ α υ) : Bool :=
  i.clears || ((i.channel p).running && !(i.next p).running)

/-- Whether the item starts a transfer of the channel. -/
def Item.starts (p : Peer) (i : Item δ α υ) : Bool :=
  !(i.channel p).running && (i.next p).running

/-- The channel was force-started or requested, or it was aborted and started again. -/
def CutShort (p : Peer) (h : Journal δ α υ) : Prop :=
  (∃ i ∈ h, i.forces p = true ∨ i.requests p = true) ∨
    ∃ k i l, h = k ++ i :: l ∧ i.aborts p = true ∧ ∃ i' ∈ l, i'.starts p = true

theorem CutShort.append (hc : CutShort p h) (k : Journal δ α υ) : CutShort p (h ++ k) := by
  obtain ⟨i, hi, hc⟩ | ⟨a, i, l, rfl, hi, i', hi', hs⟩ := hc
  · exact .inl ⟨i, List.mem_append_left _ hi, hc⟩
  · exact .inr ⟨a, i, l ++ k, by simp, hi, i', List.mem_append_left _ hi', hs⟩

theorem CutShort.of_aborted (ha : ∃ i ∈ h, i.aborts p = true) {i : Item δ α υ} (hi : i ∈ k)
    (hs : i.starts p = true) : CutShort p (h ++ k) := by
  obtain ⟨i', hi', ha⟩ := ha
  obtain ⟨a, l, rfl⟩ := List.append_of_mem hi'
  exact .inr ⟨a, i', l ++ k, by simp, ha, i, List.mem_append_right _ hi, hs⟩

/-- The item neither forces, requests nor aborts the channel. -/
def Item.spares (p : Peer) (i : Item δ α υ) : Bool :=
  !i.forces p && !i.requests p && !i.aborts p

theorem not_cutShort (hs : h.all (Item.spares p) = true) : ¬CutShort p h := by
  have spared : ∀ i ∈ h, (i.forces p = false ∧ i.requests p = false) ∧ i.aborts p = false :=
    fun i hi => by simpa [Item.spares] using List.all_eq_true.1 hs i hi
  rintro (⟨i, hi, hc | hc⟩ | ⟨k, i, l, rfl, ha, -⟩)
  · exact absurd ((spared i hi).1.1.symm.trans hc) Bool.false_ne_true
  · exact absurd ((spared i hi).1.2.symm.trans hc) Bool.false_ne_true
  · exact absurd ((spared i (by simp)).2.symm.trans ha) Bool.false_ne_true

/-- Where a channel is after the end of a window: the history since then cut its pause short, or the
pause is over, or the transfer was aborted, or it waits, and is to be resumed when the pause is
over. -/
inductive Paced (p : Peer) (d : Nat) (h : Journal δ α υ) (m : Machine δ α υ) : Prop where
  | cut (hc : CutShort p h)
  | elapsed (hd : d ≤ m.timeline.now)
  | aborted (ha : ∃ i ∈ h, i.aborts p = true) (hr : (m.engine.channel p).running = false)
  | waiting (hw : (m.engine.channel p).Waits)
      (he : ∀ e ∈ m.eventsOn (.resume p),
        e.task = .resume p (m.engine.channel p).generation → d ≤ e.triggerAt)

/-- Nothing happens to the channel. -/
theorem Paced.same (hp : Paced p d h m) (hc : m'.engine.channel p = m.engine.channel p)
    (hn : m.timeline.now ≤ m'.timeline.now)
    (ht : ∀ e ∈ m'.eventsOn (.resume p), e ∈ m.eventsOn (.resume p)) : Paced p d (h ++ k) m' := by
  cases hp with
  | cut hcut => exact .cut (hcut.append k)
  | elapsed hd => exact .elapsed (Nat.le_trans hd hn)
  | aborted ha hr =>
      obtain ⟨i, hi, ha⟩ := ha
      exact .aborted ⟨i, List.mem_append_left _ hi, ha⟩ (hc ▸ hr)
  | waiting hw he => exact .waiting (hc ▸ hw) fun e hm htask => he e (ht e hm) (hc ▸ htask)

/-- The item of a call does something to the channel. -/
theorem Paced.call (hp : Paced p d h m) (hi : Channel.Intact p (m.engine.channel p))
    {c : Call δ α υ} (hk : .began c m ∈ k)
    (hc : m'.engine.channel p = (Item.began c m).next p)
    (hn : m'.timeline.now = m.timeline.now)
    (ht : ∀ e ∈ m'.eventsOn (.resume p), e ∈ m.eventsOn (.resume p)) :
    Paced p d (h ++ k) m' := by
  cases hp with
  | cut hcut => exact .cut (hcut.append k)
  | elapsed hd => exact .elapsed (hn ▸ hd)
  | aborted ha hr =>
      cases hs : (m'.engine.channel p).running with
      | true =>
          refine .cut (.of_aborted ha hk ?_)
          have hrun : ((Item.began c m).channel p).running = false := hr
          rw [Item.starts, ← hc, hs, hrun]
          rfl
      | false =>
          obtain ⟨i, hi, ha⟩ := ha
          exact .aborted ⟨i, List.mem_append_left _ hi, ha⟩ hs
  | waiting hw he =>
      cases hd : c.deed? p with
      | none =>
          refine .same (.waiting hw he) (hc.trans ?_) (Nat.le_of_eq hn.symm) ht
          exact Item.next_of_deed?_eq_none (i := .began c m) hd
      | some deed =>
          have hnext : (Item.began c m).next p = deed.after p (m.engine.channel p) := by
            rw [Item.next, Item.deed?, hd]
            rfl
          obtain rfl | ⟨r, v, mask, rfl⟩ := Call.deed?_outer hd
          · refine .cut (.inl ⟨_, List.mem_append_right _ hk, .inr ?_⟩)
            rw [Item.requests, Item.deed?, hd]
            rfl
          · obtain hf | hr | ⟨hwn, hg⟩ := hw.write (β := Bus δ) hi r v mask
            · refine .cut (.inl ⟨_, List.mem_append_right _ hk, .inl ?_⟩)
              rw [Item.forces, Item.deed?, hd]
              exact hf
            · refine .aborted ⟨_, List.mem_append_right _ hk, ?_⟩ (by rw [hc, hnext, hr])
              rw [Item.aborts, hnext, hr]
              have hrun : (Item.began c m).channel p = m.engine.channel p := rfl
              rw [hrun, hw.1]
              rfl
            · rw [← hnext, ← hc] at hwn hg
              exact .waiting hwn fun e hm htask => he e (ht e hm) (hg ▸ htask)

variable {ls : List (Level δ α υ)}

/-- **Whatever a move is to the engine, it keeps a channel paced**, as long as the clock does not go
back. -/
theorem Effect.paced (hp : Paced p d h m) (hr : m.Remembers)
    (hi : Channel.Intact p (m.engine.channel p)) (hl : NotAhead ls m)
    (hn : (∀ i ∈ k, i.clears = false) → m.timeline.now ≤ m'.timeline.now)
    (he : Effect handler ls m k m') : Paced p d (h ++ k) m' := by
  cases he with
  | @call bound c r _ hc ho =>
      obtain ⟨hcl, -, hrest⟩ | ⟨hcl, hn⟩ := perform_next hc ho
      · refine .aborted ⟨.ended c r m', by simp, ?_⟩ (hrest p).running
        rw [Item.aborts, hcl]
        rfl
      · have hnow : m'.timeline.now = m.timeline.now := by
          obtain ⟨_, hch⟩ | ⟨hcl', -⟩ := perform_turn hc ho
          · exact (hch.keeps hr.wellFormed).2.1
          · exact absurd (hcl.symm.trans hcl') Bool.false_ne_true
        exact hp.call hi (.head _) (hn p) hnow ((perform_tidy hc ho).resumes p)
  | @pass l e t _ _ hpop he ho =>
      have hnow := (popDue_eq_some_iff.1 hpop).2.2.1
      have ht := (popped_tidy hpop).resumes p
      have hm' : m.timeline.now ≤ m'.timeline.now := by rw [ho.now]; exact Nat.le_of_eq hnow.symm
      -- A channel that is not active has no outcome, and so no resumption is planned for it.
      have idle : (m.engine.channel p).active = false →
          m'.engine.channel p = m.engine.channel p ∧
            ∀ e ∈ m'.eventsOn (.resume p), e ∈ m.eventsOn (.resume p) := fun ha => by
        obtain ⟨hnone, hc⟩ := Engine.service_of_inactive (p := p)
          (s := ((Host.setTimeline t m).engine, (Host.setTimeline t m).bus)) ha
        refine ⟨by rw [ho.engine]; exact hc, fun e hm => ?_⟩
        rcases ho.resumes p e hm with hm | ⟨c, hc, -⟩
        · exact ht e hm
        · exact absurd (hnone.symm.trans hc) (by simp)
      cases hp with
      | cut hcut => exact .cut (hcut.append _)
      | elapsed hd => exact .elapsed (Nat.le_trans hd hm')
      | aborted ha hrun =>
          obtain ⟨hc, hs⟩ := idle (hi.active_eq_false hrun)
          exact .same (.aborted ha hrun) hc hm' hs
      | waiting hw hev =>
          obtain ⟨hc, hs⟩ := idle hw.2
          exact .same (.waiting hw hev) hc hm' hs
  | @resume l e t q generation _ hmem hpop he ht hn ho =>
      have hc := Engine.channel_resume p q m.engine generation
      rw [← ho] at hc
      cases hp with
      | cut hcut => exact .cut (hcut.append _)
      | elapsed hd => exact .elapsed (hn ▸ hd)
      | aborted ha hrun =>
          refine .same (.aborted ha hrun) (hc.trans (if_neg ?_)) (Nat.le_of_eq hn.symm)
            (ht.resumes p)
          rintro ⟨-, -, hw, -⟩
          exact absurd (hrun.symm.trans hw) Bool.false_ne_true
      | waiting hw hev =>
          by_cases hq : q = p ∧ (m.engine.channel p).generation = generation
          -- The event was due at a target that is not past the time.
          · obtain ⟨rfl, rfl⟩ := hq
            obtain ⟨hevents, hdue, -⟩ := popDue_eq_some_iff.1 hpop
            have hon : e ∈ m.eventsOn (.resume q) :=
              mem_eventsOn.2 ⟨hevents ▸ .head _, by rw [he]; rfl⟩
            have hd := hev e hon he
            have hl := hl l hmem
            exact .elapsed (by omega)
          · refine .same (.waiting hw hev) (hc.trans (if_neg fun h => hq ⟨h.1, h.2.1⟩))
              (Nat.le_of_eq hn.symm) (ht.resumes p)
  | none hj ht heng =>
      exact hp.same (by rw [heng]) (hn fun i hi => (hj i hi).clears) (ht.resumes p)

theorem Moves.paced {board : δ} {memory : υ}
    (hb : Moves handler [] (initial board memory) j ls m) (hp : Paced p d [] m)
    (hm : Moves handler ls m h ls' m') (hin : InRange (j ++ h)) (hq : Uncleared (j ++ h)) :
    Paced p d h m' := by
  have kept : Moves handler [] (initial board memory) (j ++ h) ls' m' ∧
      (InRange (j ++ h) → Uncleared (j ++ h) → Paced p d h m') :=
    hm.preserves_inRange (h := [])
      (J := fun ls h m => Moves handler [] (initial board memory) (j ++ h) ls m ∧
        (InRange (j ++ h) → Uncleared (j ++ h) → Paced p d h m))
      (fun {ls ls' h k m m'} ⟨hb, hp⟩ ha hk hm => by
        rw [← List.append_assoc]
        refine ⟨hb.append hm.moves, fun hin hq => ?_⟩
        have hq := Throughout.left hq
        obtain ⟨hr, hs⟩ := hb.stamped
        exact (hm.effect hr).paced (hp hin.left hq) hr (hs.intact p) (hb.notAhead hin.left hq)
          (hm.now_le hr.wellFormed ha hk))
      ⟨by simpa using hb, fun _ _ => hp⟩ (hb.ahead_lt (initial_ahead board memory) hin.left)
      hin.right
  exact kept.2 hin hq

/-! ### Outdated events -/

/-- The event is not pending any more, or the channel was renewed since the generation that the
event is of. -/
structure Outdated (p : Peer) (e : Event (Task α)) (n : Nat) (j : Journal δ α υ)
    (m : Machine δ α υ) : Prop where
  handedOut : e.id < m.timeline.nextId
  passed : e ∉ m.timeline.events ∨ n < renewalsSince p j

/-- A move that clears the machine leaves no events. -/
theorem Effect.clears (he : Effect handler ls m k m') :
    (∀ i ∈ k, i.clears = false) ∨ m'.timeline.events = [] := by
  cases he with
  | call hc hp =>
      obtain ⟨-, hev, -⟩ | ⟨hcl, -⟩ := perform_next hc hp
      · exact .inr hev
      · exact .inl (by simpa using ⟨rfl, hcl⟩)
  | pass | resume => exact .inl (by simp [Item.clears])
  | none hj => exact .inl fun i hi => ((hj i hi).deed? .graphics).1

/-- **What is outdated stays so.** -/
theorem Move.outdated {e : Event (Task α)} {n : Nat} (h : Outdated p e n j m) (hr : m.Remembers)
    (hm : Move handler ls m k ls' m') : Outdated p e n (j ++ k) m' where
  handedOut := Nat.lt_of_lt_of_le h.handedOut (hm.turn.nextId_le hr.wellFormed)
  passed := by
    rcases h.passed with hgone | hn
    · refine .inl fun he => ?_
      rcases hm.turn.mem hr.wellFormed he with he | hid
      · exact hgone he
      · exact absurd h.handedOut (Nat.not_lt_of_le hid)
    · rcases (hm.effect hr).clears with hcl | hev
      · exact .inr (Nat.lt_of_lt_of_le hn (countSince_le_append _ hcl))
      · exact .inl (hev ▸ List.not_mem_nil)

theorem Moves.outdated {board : δ} {memory : υ} {e : Event (Task α)} {n : Nat}
    (hb : Moves handler [] (initial board memory) j ls m) (ho : Outdated p e n j m)
    (hm : Moves handler ls m h ls' m') : Outdated p e n (j ++ h) m' := by
  have kept : m'.Remembers ∧ Outdated p e n (j ++ h) m' :=
    hm.preserves (J := fun _ j m => m.Remembers ∧ Outdated p e n j m)
      (fun ⟨hr, ho⟩ hm => ⟨hm.remembers hr, hm.outdated ho hr⟩) ⟨hb.stamped.1, ho⟩
  exact kept.2

/-- A pending resume event whose channel does not wait in its generation is outdated. -/
theorem Stamped.outdated (hs : Stamped j m) (hr : m.Remembers) {e : Event (Task α)}
    {generation : UInt32} (he : e ∈ m.timeline.events) (ht : e.task = .resume p generation)
    (hw : ¬((m.engine.channel p).generation = generation ∧ (m.engine.channel p).Waits)) :
    ∃ n, generation = UInt32.ofNat n ∧ Outdated p e n j m := by
  obtain ⟨n, hn, htask, hwaits⟩ := hs.resumes p e (mem_eventsOn.2 ⟨he, by rw [ht]; rfl⟩)
  obtain ⟨-, rfl⟩ := Task.resume.inj (ht.symm.trans htask)
  refine ⟨n, rfl, hr.wellFormed.handedOut e he, .inr (Nat.lt_of_le_of_ne hn fun heq => hw ?_)⟩
  exact ⟨heq ▸ hs.generation p, hwaits heq⟩

/-- Generations of counts that are small enough are different. -/
theorem generation_ne {n n' : Nat} (h : n < n') (hn : n' < UInt32.size) :
    UInt32.ofNat n' ≠ UInt32.ofNat n := fun he => by
  have he := congrArg UInt32.toNat he
  rw [UInt32.toNat_ofNat_of_lt' hn, UInt32.toNat_ofNat_of_lt' (Nat.lt_trans h hn)] at he
  omega

/-! ### Items -/

/-- The items of a move show the engine before it, with no other events, or the machine after it. -/
theorem Move.framed (hm : Move handler ls m k ls' m') : ∀ i ∈ k,
    (i.machine.engine = m.engine ∧ i.machine.timeline.events.Sublist m.timeline.events) ∨
      i.machine = m' := by
  have same : ∀ {i : Item δ α υ}, i.machine = m → (i.machine.engine = m.engine ∧
      i.machine.timeline.events.Sublist m.timeline.events) ∨ i.machine = m' := fun h =>
    .inl ⟨by rw [h], by rw [h]⟩
  cases hm with
  | call =>
      simp only [List.mem_cons, List.not_mem_nil, or_false, forall_eq_or_imp, forall_eq]
      exact ⟨same rfl, .inr rfl⟩
  | idle =>
      simp only [List.mem_cons, List.not_mem_nil, or_false, forall_eq_or_imp, forall_eq]
      exact ⟨same rfl, same rfl⟩
  | began | next | ended | aborted =>
      simp only [List.mem_singleton, forall_eq]
      exact same rfl
  | service hp | resume hp =>
      simp only [List.mem_singleton, forall_eq]
      exact .inl ⟨rfl, popDue_sublist hp⟩
  | client hp | periodic hp =>
      simp only [List.mem_cons, List.not_mem_nil, or_false, forall_eq_or_imp, forall_eq]
      exact ⟨.inl ⟨rfl, popDue_sublist hp⟩, .inl ⟨rfl, popDue_sublist hp⟩⟩
  | rearm | lapsed | failed | drained => exact fun _ hi => absurd hi List.not_mem_nil

/-- The move of a service pass. -/
theorem Move.of_service {before after : Journal δ α υ} {e : Event (Task α)} {late : Nat}
    {m₁ : Machine δ α υ} (hm : Move handler ls m (before ++ .fired e late m₁ :: after) ls' m')
    (he : e.task = .service) : after = [] ∧ Passed m₁ m' := by
  generalize hj : before ++ .fired e late m₁ :: after = j at hm
  cases hm with
  | @service _ _ _ _ _ _ t r hp hs ho =>
      rcases before with _ | ⟨i, _ | ⟨i', before⟩⟩ <;> simp at hj
      obtain ⟨⟨rfl, rfl, rfl⟩, rfl⟩ := hj
      have hpass := serviceChannels_passed (Host.setTimeline t m : Machine δ α υ)
      rw [ho] at hpass
      exact ⟨rfl, hpass⟩
  | resume hp hs | client hp hs | periodic hp hs =>
      rcases before with _ | ⟨i, _ | ⟨i', before⟩⟩ <;> simp at hj
      obtain ⟨⟨rfl, -⟩, -⟩ := hj
      cases he.symm.trans hs
  | call | idle => rcases before with _ | ⟨i, _ | ⟨i', before⟩⟩ <;> simp at hj
  | _ => rcases before with _ | ⟨i, before⟩ <;> simp at hj

/-! ### The statement -/

/-- A pass that ends a window of a channel leaves the channel paced for as long as it yields. -/
theorem Stamped.paced (hs : Stamped j m) {m₁ : Machine δ α υ} (ho : Passed m₁ m')
    (hm : m₁.engine = m.engine) (ht : ∀ e ∈ m₁.eventsOn (.resume p), e ∈ m.eventsOn (.resume p))
    (hf : renewalsSince p j < UInt32.size) {c : Nat}
    (hfit : m₁.timeline.now + c < UInt64.size)
    (hc : Engine.outcome? p (m₁.engine, m₁.bus) = some (.ok (.chopped c))) :
    Paced p (m₁.timeline.now + c) [] m' := by
  obtain ⟨ha, hr, hna⟩ := Engine.service_chopped hc
  replace ha : (m.engine.channel p).active = true := hm ▸ ha
  refine .waiting ?_ fun e he htask => ?_
  · rw [ho.engine]
    exact ⟨hr.trans (hm ▸ (hs.intact p).running ha), hna⟩
  · rcases ho.resumes p e he with he | ⟨c', hc', -, hd⟩
    -- An older resume event is of an older generation, since the channel did not wait.
    · obtain ⟨n, hn, htask', hw⟩ := hs.resumes p e (ht e he)
      have hlt : n < renewalsSince p j := Nat.lt_of_le_of_ne hn fun heq =>
        absurd (ha.symm.trans (hw heq).2) Bool.false_ne_true.symm
      have hg := (Task.resume.inj (htask.symm.trans htask')).2
      rw [ho.engine, Engine.service_generation] at hg
      replace hg : (m.engine.channel p).generation = _ := hm ▸ hg
      exact absurd ((hs.generation p).symm.trans hg) (generation_ne hlt hf)
    · obtain ⟨⟩ := Option.some.inj (hc.symm.trans hc')
      exact Nat.le_of_eq (hd.trans (wrap_of_lt hfit)).symm

section History

variable {board : δ} {memory : υ} {i : Item δ α υ} {e e₁ : Event (Task α)} {late late₁ : Nat}
  {m₁ m₂ : Machine δ α υ} {l : Journal δ α υ}

/-- An item, and an event that is taken out later. -/
theorem Moves.split_fired (hm : Moves handler [] (initial board memory)
    (k ++ i :: (h ++ .fired e late m₂ :: l)) ls m) :
    ∃ k₁ ls₁ m₀ before after ls₂ m₁ l₁ ls₃ m₃ l' t,
      Moves handler [] (initial board memory) k₁ ls₁ m₀ ∧
        Move handler ls₁ m₀ (before ++ i :: after) ls₂ m₁ ∧ Moves handler ls₂ m₁ l₁ (l' :: ls₃) m₃ ∧
        k = k₁ ++ before ∧ h = after ++ l₁ ∧
        m₃.timeline.popDue l'.target = some (e, t) ∧ m₂ = Host.setTimeline t m₃ := by
  obtain ⟨k₃, ls₃, m₃, before, after, _, _, _, h₃, hfired, -, hk, -⟩ :=
    hm.split (i := .fired e late m₂) (k := k ++ i :: h) (l := l) (by simp)
  obtain ⟨rfl, c, target, ls₄, t, rfl, hpop, -, rfl⟩ := hfired.of_fired
  rw [List.append_nil] at hk
  obtain ⟨k₁, ls₁, m₀, before, after, ls₂, m₁, l₁, h₁, hi, h₂, rfl, rfl⟩ := h₃.split hk.symm
  exact ⟨k₁, ls₁, m₀, before, after, ls₂, m₁, l₁, ls₄, m₃, _, t, h₁, hi, h₂, rfl, rfl, hpop, rfl⟩

/-- After a window a channel has its turn when the pause is over, or is cut short. -/
theorem Moves.keeps_pace (hm : Moves handler [] (initial board memory)
      (k ++ .fired e₁ late₁ m₁ :: (h ++ .fired e late m₂ :: l)) ls m)
    (hin : InRange (k ++ .fired e₁ late₁ m₁ :: h))
    (hq : Uncleared (k ++ .fired e₁ late₁ m₁ :: (h ++ .fired e late m₂ :: l)))
    (hf : renewals p (k ++ .fired e₁ late₁ m₁ :: (h ++ .fired e late m₂ :: l)) < UInt32.size)
    (ht : e₁.task = .service) {c : Nat} (hfit : m₁.timeline.now + c < UInt64.size)
    (hc : Engine.outcome? p (m₁.engine, m₁.bus) = some (.ok (.chopped c)))
    (hne : Engine.outcome? p (m₂.engine, m₂.bus) ≠ Option.none) :
    m₁.timeline.now + c ≤ m₂.timeline.now ∨ CutShort p h := by
  obtain ⟨k₁, ls₁, m₀, before, after, ls₂, m₃, l₁, ls₃, m₄, l', u, h₁, hfirst, h₂, rfl, rfl, hpop,
    rfl⟩ := hm.split_fired
  obtain ⟨rfl, ho⟩ := hfirst.of_service ht
  obtain ⟨rfl, _, _, _, t, rfl, hpop₁, -, rfl⟩ := hfirst.of_fired
  rw [List.append_nil] at hq hf
  rw [List.nil_append] at hq hf ⊢
  have hstart : Paced p ((Host.setTimeline t m₀ : Machine δ α υ).timeline.now + c) [] m₃ :=
    h₁.stamped.2.paced ho rfl ((popped_tidy hpop₁).resumes p)
      (Nat.lt_of_le_of_lt (countSince_le _ _) (countP_lt_left hf)) hfit hc
  have h₃ := h₁.append hfirst.moves
  have hq' : Uncleared ((k₁ ++ [.fired e₁ late₁ (Host.setTimeline t m₀)]) ++ l₁) := by
    refine Throughout.left (k := .fired e late (Host.setTimeline u m₄) :: l) ?_
    simpa [Uncleared] using hq
  have hp := h₃.paced hstart h₂ (by simpa using hin) hq'
  have hi := (h₃.append h₂).stamped.2.intact p
  have hact : (m₄.engine.channel p).active = true := by
    by_contra ha
    exact hne (Engine.service_of_inactive (s := ((Host.setTimeline u m₄).engine, _))
      (Bool.not_eq_true _ ▸ ha)).1
  have hnow : (Host.setTimeline u m₄ : Machine δ α υ).timeline.now = m₄.timeline.now :=
    (popDue_eq_some_iff.1 hpop).2.2.1
  cases hp with
  | cut hcut => exact .inr hcut
  | elapsed hd => exact .inl (hnow ▸ hd)
  | aborted _ hr => exact absurd (hr.symm.trans (hi.running hact)) Bool.false_ne_true
  | waiting hw => exact absurd (hw.2.symm.trans hact) Bool.false_ne_true

/-- A resume event that was left over does nothing when it fires. -/
theorem Moves.resumes_nothing (hm : Moves handler [] (initial board memory)
      (k ++ i :: (h ++ .fired e late m₂ :: l)) ls m)
    (hf : renewals p (k ++ i :: (h ++ .fired e late m₂ :: l)) < UInt32.size)
    {generation : UInt32} (ht : e.task = .resume p generation)
    (he : e ∈ i.machine.timeline.events)
    (hw : ¬((i.channel p).generation = generation ∧ (i.channel p).Waits)) :
    Engine.resume p generation m₂.engine = .ok false m₂.engine := by
  obtain ⟨k₁, ls₁, m₀, before, after, ls₂, m₁, l₁, ls₃, m₃, l', u, h₁, hi, h₂, rfl, rfl, hpop,
    rfl⟩ := hm.split_fired
  have hb := h₁.append hi.moves
  -- The event is outdated when the move of the item is over.
  have hout : ∃ n, generation = UInt32.ofNat n ∧
      Outdated p e n (k₁ ++ (before ++ i :: after)) m₁ := by
    rcases hi.framed i (by simp) with ⟨heng, hs⟩ | rfl
    · rw [Item.channel, heng] at hw
      obtain ⟨hr, hst⟩ := h₁.stamped
      obtain ⟨n, hg, ho⟩ := hst.outdated hr (hs.subset he) ht hw
      exact ⟨n, hg, hi.outdated ho hr⟩
    · obtain ⟨hr, hst⟩ := hb.stamped
      exact hst.outdated hr he ht hw
  obtain ⟨n, rfl, ho⟩ := hout
  have hlast := hb.outdated ho h₂
  have hst := (hb.append h₂).stamped.2
  refine Engine.resume_of_not_waits p _ fun ⟨hg, _⟩ => ?_
  rcases hlast.passed with hgone | hn
  · exact hgone ((popDue_eq_some_iff.1 hpop).1 ▸ .head _)
  · refine generation_ne hn ?_ ((hst.generation p).symm.trans hg)
    refine Nat.lt_of_le_of_lt (countSince_le _ _) (countP_lt_left
      (k := .fired e late (Host.setTimeline u m₃) :: l) ?_)
    simpa [renewals] using hf

end History

end Board

/-! ### A burst that is aborted in its pause -/

/-- Starts a burst of four words, in windows of one word and pauses of eight cycles, lets it come to
its second pause, aborts it, and runs past the end of the pause. -/
def pausedScript : Script (interface Rack Unit Unit) Unit := do
  let _ ← Script.call (I := interface Rack Unit Unit) (.writeMasked 0x1F8010F0 0x800 0xF00)
  let _ ← Script.call (I := interface Rack Unit Unit) (.write .word 0x1F8010A4 4)
  let _ ← Script.call (I := interface Rack Unit Unit) (.write .word 0x1F8010A8 0x01300101)
  let _ ← Script.call (I := interface Rack Unit Unit) (.run 1)
  let _ ← Script.call (I := interface Rack Unit Unit) (.run 8)
  let _ ← Script.call (I := interface Rack Unit Unit) (.write .word 0x1F8010A8 0x00300101)
  Script.call (I := interface Rack Unit Unit) (.run 10)

/-- The client has no callbacks. -/
def silentHandler : Handler Rack Unit Unit := fun _ _ => .done ()

/-- The item is a service pass that ends a window of the channel, before a pause of so many cycles
whose end has 64 bits. -/
def Item.chops (p : Peer) (c : Nat) : Item Rack Unit Unit → Bool
  | .fired e _ m =>
      e.task = .service && m.timeline.now + c < UInt64.size &&
        match Engine.outcome? p (m.engine, m.bus) with
        | some (.ok (.chopped c')) => c' = c
        | _ => false
  | _ => false

theorem Item.of_chops {p : Peer} {c : Nat} {i : Item Rack Unit Unit} (h : i.chops p c = true) :
    ∃ e late m, i = .fired e late m ∧ e.task = .service ∧ m.timeline.now + c < UInt64.size ∧
      Engine.outcome? p (m.engine, m.bus) = some (.ok (.chopped c)) := by
  cases i with
  | fired e late m =>
      obtain ⟨ht, ho⟩ := (Bool.and_eq_true _ _ ▸ h : _ ∧ _)
      obtain ⟨ht, hfit⟩ := (Bool.and_eq_true _ _ ▸ ht : _ ∧ _)
      refine ⟨e, late, m, rfl, of_decide_eq_true ht, of_decide_eq_true hfit, ?_⟩
      split at ho
      · next hc => rw [hc, of_decide_eq_true ho]
      · cases ho
  | began | ended | invoked => cases h

deriving instance DecidableEq for Event

/-- The item fires an event that was to resume the channel, and was pending at the other item, where
the channel did not wait for it. -/
def Item.firesStale (p : Peer) (i i' : Item Rack Unit Unit) : Bool :=
  match i' with
  | .fired e _ _ =>
      match e.task with
      | .resume q generation =>
          q = p && e ∈ i.machine.timeline.events &&
            !decide ((i.channel p).generation = generation ∧ (i.channel p).Waits)
      | _ => false
  | _ => false

theorem Item.of_firesStale {p : Peer} {i i' : Item Rack Unit Unit} (h : i.firesStale p i' = true) :
    ∃ e late m generation, i' = .fired e late m ∧ e.task = .resume p generation ∧
      e ∈ i.machine.timeline.events ∧
      ¬((i.channel p).generation = generation ∧ (i.channel p).Waits) := by
  cases i' with
  | fired e late m =>
      rw [Item.firesStale] at h
      split at h
      · next q generation ht =>
          simp only [Bool.and_eq_true, decide_eq_true_eq, Bool.not_eq_true',
            decide_eq_false_iff_not] at h
          obtain ⟨⟨rfl, he⟩, hw⟩ := h
          exact ⟨e, late, m, generation, rfl, ht, he, hw⟩
      · cases h
  | began | ended | invoked => cases h

/-- Two items of a list, and what is before, between and after them. -/
theorem eq_append_of_getElem? {ε : Type} {l : List ε} {a n : Nat} {x y : ε} (hx : l[a]? = some x)
    (hy : l[a + 1 + n]? = some y) :
    l = l.take a ++ x :: ((l.drop (a + 1)).take n ++ y :: (l.drop (a + 1)).drop (n + 1)) := by
  have part : ∀ {l : List ε} {a : Nat} {x : ε}, l[a]? = some x →
      l = l.take a ++ x :: l.drop (a + 1) := fun {l a x} h => by
    obtain ⟨ha, rfl⟩ := List.getElem?_eq_some_iff.1 h
    rw [← List.drop_eq_getElem_cons ha, List.take_append_drop]
  rw [← part (List.getElem?_drop ▸ hy)]
  exact part hx

/-- Starts the burst, and runs for no cycle. -/
def lateScript : Script (interface Rack Unit Unit) Unit := do
  let _ ← Script.call (I := interface Rack Unit Unit) (.run 18446744073709551610)
  let _ ← Script.call (I := interface Rack Unit Unit) (.writeMasked 0x1F8010F0 0x800 0xF00)
  let _ ← Script.call (I := interface Rack Unit Unit) (.write .word 0x1F8010A4 4)
  let _ ← Script.call (I := interface Rack Unit Unit) (.write .word 0x1F8010A8 0x01300101)
  Script.call (I := interface Rack Unit Unit) (.run 0)

end Machine

end DmaMachine
