import DmaMachine.Proofs.Machine.Range

/-!
# Firing on time

A run fires what is due at its *target*, and tells every callback how far the target is past the
trigger.  When a run begins the clock is moved to its target, and a callback that makes and drops
events leaves it there.  Three things that a callback may do besides move the clock away:

* It runs the machine further.  If that ends well, all that is due at the outer target has been
  fired on the way, and what is made from then on is not due at it.
* It does so and the inner run fails.  Then the clock is past the outer target, and events that are
  due at it may still be pending.
* It resets the machine, or restores a snapshot.  Then the clock may be before the targets of all
  runs under way, and what is made from then on may be due at them.

What of this has happened to the runs under way can be read off the journal (`troubles`).  Besides,
a clock that wraps around is before the targets of outer runs, and a trigger that does is due at
them.

* `Move.steady`: **a run without such trouble** is at its target, or nothing is due at it but what
  wrapped around.
* `fired_on_time`: the statement.
* `event_fires_early`: an event that fires before its time.
-/

namespace DmaMachine

namespace Machine

open Journal Timeline

variable {δ α υ β : Type} {m m' : Machine δ α υ}

/-! ### Trouble -/

/-- What has happened to a run under way. -/
structure Trouble where
  /-- The machine was reset, or a snapshot restored, since the run began. -/
  cleared : Bool := false
  /-- A run that one of its callbacks made has failed. -/
  failed : Bool := false
deriving DecidableEq

def Trouble.clear (t : Trouble) : Trouble := { t with cleared := true }

/-- The innermost run learns that a run inside failed. -/
def Trouble.fail : List Trouble → List Trouble
  | [] => []
  | t :: ts => { t with failed := true } :: ts

/-- What has happened to the runs under way, after one more item. -/
def Item.trouble (ts : List Trouble) : Item δ α υ → List Trouble
  | .began (.run _) _ | .began .runToNext _ => {} :: ts
  | .ended (.run _) (.ok _) _ | .ended .runToNext (.ok _) _ => ts.tail
  | .ended (.run _) (.error _) _ | .ended .runToNext (.error _) _ => Trouble.fail ts.tail
  | .ended .reset _ _ | .ended (.restore _) (.ok _) _ => ts.map Trouble.clear
  | _ => ts

/-- What has happened to the runs under way, the innermost first. -/
def troubles (j : Journal δ α υ) : List Trouble := j.foldl Item.trouble []

theorem troubles_append (j k : Journal δ α υ) :
    troubles (j ++ k) = k.foldl Item.trouble (troubles j) := List.foldl_append

theorem trouble_began {c : Call δ α υ} (hc : c.Fires) (ts : List Trouble) (m : Machine δ α υ) :
    (Item.began c m).trouble ts = {} :: ts := by
  cases c <;> first | rfl | cases hc

theorem trouble_ended {c : Call δ α υ} (hc : c.Fires) (ts : List Trouble)
    (r : Except Fault c.Answer)
    (m : Machine δ α υ) :
    (Item.ended c r m).trouble ts = match r with
      | .ok _ => ts.tail
      | .error _ => Trouble.fail ts.tail := by
  cases c <;> first | (cases r <;> rfl) | cases hc

theorem trouble_call {c : Call δ α υ} (hc : ¬c.Fires) (ts : List Trouble)
    (r : Except Fault c.Answer)
    (m m' : Machine δ α υ) : [Item.began c m, .ended c r m'].foldl Item.trouble ts =
      if (Item.ended c r m').clears then ts.map Trouble.clear else ts := by
  cases c <;> first | exact absurd trivial hc | rfl | cases r <;> rfl

/-! ### Targets -/

/-- Runs that no reset has happened to have targets that are not past the time. -/
def NotPast (now : Nat) : List Nat → List Trouble → Prop :=
  List.Forall₂ fun target t => t.cleared = false → target ≤ now

/-- Nor past the targets of the runs inside them. -/
inductive Nested : List Nat → List Trouble → Prop where
  | nil : Nested [] []
  | cons {target : Nat} {targets : List Nat} {t : Trouble} {ts : List Trouble}
      (h : NotPast target targets ts) (hn : Nested targets ts) :
      Nested (target :: targets) (t :: ts)

/-- The innermost run without trouble is at its target, or nothing is due at it but events whose
triggers wrapped around. -/
def Settled (m : Machine δ α υ) : List Nat → List Trouble → Prop
  | target :: _, t :: _ => t.cleared = false → t.failed = false →
      m.timeline.now = target ∨ ∀ e ∈ m.timeline.events, e.Unwrapped → target < e.triggerAt
  | _, _ => True

/-- The targets of runs under way, as far as there is no trouble. -/
structure Steady (targets : List Nat) (ts : List Trouble) (m : Machine δ α υ) : Prop where
  wellFormed : m.timeline.WellFormed
  notPast : NotPast m.timeline.now targets ts
  nested : Nested targets ts
  settled : Settled m targets ts

theorem NotPast.mono {n n' : Nat} {targets : List Nat} {ts : List Trouble}
    (h : NotPast n targets ts) (hn : n ≤ n') : NotPast n' targets ts :=
  h.imp fun _ _ h hc => Nat.le_trans (h hc) hn

theorem NotPast.clear {n n' : Nat} {targets : List Nat} {ts : List Trouble}
    (h : NotPast n targets ts) : NotPast n' targets (ts.map Trouble.clear) :=
  List.forall₂_map_right_iff.2 (h.imp fun _ _ _ hc => nomatch hc)

theorem NotPast.fail {n : Nat} {targets : List Nat} {ts : List Trouble}
    (h : NotPast n targets ts) : NotPast n targets (Trouble.fail ts) := by
  cases h with
  | nil => exact .nil
  | cons h hs => exact .cons h hs

theorem Nested.clear {targets : List Nat} {ts : List Trouble} (h : Nested targets ts) :
    Nested targets (ts.map Trouble.clear) := by
  induction h with
  | nil => exact .nil
  | cons h _ ih => exact .cons h.clear ih

theorem Nested.fail {targets : List Nat} {ts : List Trouble} (h : Nested targets ts) :
    Nested targets (Trouble.fail ts) := by
  cases h with
  | nil => exact .nil
  | cons h hs => exact .cons h hs

/-- A reset is trouble for all runs under way. -/
theorem Steady.clear {targets : List Nat} {ts : List Trouble} (h : Steady targets ts m)
    (hw : m'.timeline.WellFormed) : Steady targets (ts.map Trouble.clear) m' where
  wellFormed := hw
  notPast := h.notPast.clear
  nested := h.nested.clear
  settled := by
    cases h.nested with
    | nil => exact trivial
    | cons => exact nofun

/-- The clock stands, and what is new was made now. -/
theorem Steady.onward {targets : List Nat} {ts : List Trouble} (h : Steady targets ts m)
    (hw : m'.timeline.WellFormed) (hn : m'.timeline.now = m.timeline.now)
    (he : ∀ e ∈ m'.timeline.events, e ∈ m.timeline.events ∨ e.registeredAt = m.timeline.now) :
    Steady targets ts m' where
  wellFormed := hw
  notPast := hn ▸ h.notPast
  nested := h.nested
  settled := by
    have hs := h.settled
    cases h.notPast with
    | nil => exact trivial
    | @cons target t _ _ ht =>
        intro hc hf
        rcases hs hc hf with hs | hs
        · exact .inl (hn.trans hs)
        -- A target that the clock has left behind is before everything that is new.
        · by_cases hnow : m.timeline.now = target
          · exact .inl (hn.trans hnow)
          · refine .inr fun e hm hun => (he e hm).elim (fun hm => hs e hm hun) fun hd => ?_
            exact Nat.lt_of_lt_of_le (Nat.lt_of_le_of_ne (ht hc) (Ne.symm hnow)) (hd ▸ hun)

/-- A run begins, with the clock moved on to its target. -/
theorem Steady.began {targets : List Nat} {ts : List Trouble} (h : Steady targets ts m) {now : Nat}
    (hn : m.timeline.now ≤ now) : Steady (now :: targets) ({} :: ts) (Host.setNow now m) where
  wellFormed := h.wellFormed.of_sublist (List.Sublist.refl _) (Nat.le_refl _)
  notPast := .cons (fun _ => Nat.le_refl _) (h.notPast.mono hn)
  nested := .cons (h.notPast.mono hn) h.nested
  settled := fun _ _ => .inl rfl

/-- A run goes on to a later target.  What is under way outside is not past the time, and so not
past the new target. -/
theorem Steady.drained {target : Nat} {targets : List Nat} {ts : List Trouble}
    (h : Steady (target :: targets) ts m) (ht : m'.timeline = m.timeline) {now : Nat}
    (hle : m.timeline.now ≤ now) : Steady (now :: targets) ts (Host.setNow now m') := by
  obtain ⟨hw, hn, hnest, -⟩ := h
  cases hnest with
  | cons hin hnest =>
      cases hn with
      | cons hg hn =>
          exact ⟨(ht ▸ hw).of_sublist (List.Sublist.refl _) (Nat.le_refl _),
            .cons (fun _ => Nat.le_refl _) (NotPast.mono hn hle), .cons (NotPast.mono hn hle) hnest,
            fun _ _ => .inl rfl⟩

/-- A run ends well.  All that was due at its target has fired, and the outer target is not past
it. -/
theorem Steady.ended {target : Nat} {targets : List Nat} {ts : List Trouble}
    (h : Steady (target :: targets) ts m) (hp : m.timeline.popDue target = none) :
    Steady targets ts.tail m := by
  obtain ⟨hw, hn, hnest, -⟩ := h
  have hlate := hw.not_due hp
  cases hnest with
  | cons hin hnest =>
      cases hn with
      | cons hg hn =>
          refine ⟨hw, hn, hnest, ?_⟩
          cases hin with
          | nil => exact trivial
          | cons hle =>
              exact fun hc _ => .inr fun e he _ => Nat.lt_of_le_of_lt (hle hc) (hlate e he)

/-- A run fails. -/
theorem Steady.aborted {target : Nat} {targets : List Nat} {ts : List Trouble}
    (h : Steady (target :: targets) ts m) : Steady targets (Trouble.fail ts.tail) m := by
  obtain ⟨hw, hn, hnest, -⟩ := h
  cases hnest with
  | cons hin hnest =>
      cases hn with
      | cons hg hn =>
          refine ⟨hw, NotPast.fail hn, hnest.fail, ?_⟩
          cases hin with
          | nil => exact trivial
          | cons => exact fun _ hf => nomatch hf

/-! ### Moves -/

/-- The targets of the runs under way, the innermost first. -/
def targets (ls : List (Level δ α υ)) : List Nat := ls.map (·.target)

section Moves

variable [Board δ] {handler : Handler δ α υ} {ls ls' : List (Level δ α υ)} {j : Journal δ α υ}
  {ts : List Trouble}

omit [Board δ] in
/-- An event is taken out, and what fires with it makes and drops events. -/
theorem Steady.popped (h : Steady (targets ls) ts m) {target : Nat} {e : Event (Task α)}
    {t : Timeline (Task α)} (hp : m.timeline.popDue target = some (e, t))
    (hc : Changing (Host.setTimeline t m) m') : Steady (targets ls) ts m' := by
  obtain ⟨hw, hn, -⟩ := h.wellFormed.popDue hp
  obtain ⟨l, hl⟩ := hc
  obtain ⟨hw', hn', -, -⟩ := hl.keeps hw
  refine h.onward hw' (hn'.trans hn) fun d hd => ?_
  exact (hl.mem hw hd).imp (fun hd => (popDue_sublist hp).subset hd) fun hd => hn ▸ hd.2

omit [Board δ] in
theorem Steady.changing (h : Steady (targets ls) ts m) (hc : Changing m m') :
    Steady (targets ls) ts m' := by
  obtain ⟨l, hl⟩ := hc
  obtain ⟨hw, hn, -, -⟩ := hl.keeps h.wellFormed
  exact h.onward hw hn fun d hd => (hl.mem h.wellFormed hd).imp_right And.right

/-- **After a move in range a run without trouble is at its target**, or nothing is due at it. -/
theorem Move.steady (h : Steady (targets ls) ts m) (ha : m.ahead < UInt64.size) (hj : InRange j)
    (hm : Move handler ls m j ls' m') : Steady (targets ls') (j.foldl Item.trouble ts) m' := by
  cases hm with
  | call hc hp =>
      rw [trouble_call hc]
      obtain hch | ⟨hcl, he, hn⟩ := perform_turn hc hp
      · split
        · exact h.clear (h.changing hch).wellFormed
        · exact h.changing hch
      · rw [if_pos hcl]
        exact h.clear (h.wellFormed.of_sublist (he ▸ List.nil_sublist _) hn)
  | began hc hn =>
      rw [List.foldl_cons, trouble_began hc, wrap_of_lt ((hj _ (.head _)).cycles_lt hn)]
      exact h.began (Nat.le_add_right ..)
  | service hp _ ho => exact h.popped hp (serviceChannels_changing.of_outcome ho)
  | resume hp _ ho => exact h.popped hp ((resumeChannel_changing _ _).of_outcome ho)
  | client hp | periodic hp => exact h.popped hp (changing_chains.refl _)
  | rearm _ ho => exact h.changing (Op.Relates.of_outcome (armPeriodic_changing _ _ _ _ _) ho)
  | drained _ ht =>
      rw [wrap_of_lt (stolen_lt ha ht)]
      exact h.drained (congrArg (·.2.timeline) ht).symm (Nat.le_add_right ..)
  | ended hc a hp =>
      rw [List.foldl_cons, trouble_ended hc]
      exact h.ended hp
  | aborted hc =>
      rw [List.foldl_cons, trouble_ended hc]
      exact h.aborted
  | idle | next | lapsed | failed => exact h

theorem Moves.steady {board : δ} {memory : υ} (hm : Moves handler [] (initial board memory) j ls m)
    (hj : InRange j) : Steady (targets ls) (troubles j) m :=
  hm.preserves_inRange (h := []) (J := fun ls h m => Steady (targets ls) (troubles h) m)
    (fun {_ _ h j _ _} hs ha hj hm => troubles_append h j ▸ hm.steady hs ha hj)
    ⟨(initial_coherent board memory).wellFormed, .nil, .nil, trivial⟩ (initial_ahead board memory)
    hj

omit [Board δ] in
theorem Trouble.length_fail (ts : List Trouble) : (Trouble.fail ts).length = ts.length := by
  cases ts <;> rfl

/-- Every run under way has its record. -/
theorem Move.length_troubles (h : ls.length = ts.length) (hm : Move handler ls m j ls' m') :
    ls'.length = (j.foldl Item.trouble ts).length := by
  cases hm with
  | call hc =>
      rw [trouble_call hc]
      split
      · rw [List.length_map, h]
      · exact h
  | began hc =>
      rw [List.foldl_cons, trouble_began hc]
      exact congrArg Nat.succ h
  | ended hc =>
      rw [List.foldl_cons, trouble_ended hc, List.foldl_nil, List.length_tail, ← h]
      rfl
  | aborted hc =>
      rw [List.foldl_cons, trouble_ended hc, List.foldl_nil, Trouble.length_fail, List.length_tail,
        ← h]
      rfl
  | idle | service | resume | client | periodic | next | rearm | lapsed | failed | drained =>
      exact h

theorem Moves.length_troubles (hm : Moves handler [] m j ls m') :
    ls.length = (troubles j).length :=
  hm.preserves (h := []) (J := fun ls h _ => ls.length = (troubles h).length)
    (fun {_ _ h j _ _} hl hm => troubles_append h j ▸ hm.length_troubles hl) rfl

/-! ### The statement -/

omit [Board δ] in
/-- The event's time has come, and its callback is told how far the clock is past it. -/
def OnTime (e : Event (Task α)) (late : Nat) (m : Machine δ α υ) : Prop :=
  e.triggerAt ≤ m.timeline.now ∧ late = m.timeline.now - e.triggerAt

/-- **When events fire on time.**  In every history from power-on, an event is taken out by the
innermost run under way, at whose target it is due, and its callback is told how far the target is
past its trigger.  So it fires on time exactly when the clock is at that target.  As long as no
clock has wrapped around, it never fires early unless the machine was reset or a snapshot restored
since that run began; and it fires on time unless that has happened, or a run made by a callback of
that run has failed, or its own trigger wrapped around. -/
theorem fired_on_time {bound : Nat} {x : Script (interface δ α υ) β} {board : δ} {memory : υ}
    {r : Except Fault β} (hx : x.exec (perform handler bound) (initial board memory) = some (r, m))
    {k l : Journal δ α υ} {e : Event (Task α)} {late : Nat} {m₁ : Machine δ α υ}
    (hj : chronicle handler bound x (initial board memory) = k ++ .fired e late m₁ :: l) :
    ∃ c target ls m₀ t ts,
      Moves handler [] (initial board memory) k (⟨c, target, .firing⟩ :: ls) m₀ ∧
        m₁.timeline.now = m₀.timeline.now ∧ troubles k = t :: ts ∧
        (e.triggerAt ≤ target ∧ late = target - e.triggerAt) ∧
        (OnTime e late m₁ ↔ m₁.timeline.now = target) ∧
        (InRange k → t.cleared = false →
          e.triggerAt ≤ m₁.timeline.now ∧ late ≤ m₁.timeline.now - e.triggerAt) ∧
        (InRange k → t.cleared = false → t.failed = false → e.Unwrapped → OnTime e late m₁) := by
  obtain ⟨k₀, ls₀, m₀, before, after, ls', m₂, l₂, hm, hf, -, rfl, -⟩ :=
    (exec_moves bound x [] _ r m hx).split hj
  obtain ⟨rfl, c, target, ls, u, rfl, hp, rfl, rfl⟩ := hf.of_fired
  rw [List.append_nil]
  obtain ⟨hev, hdue, hnow, -⟩ := popDue_eq_some_iff.1 hp
  have hu : (Host.setTimeline u m₀ : Machine δ α υ).timeline.now = m₀.timeline.now := hnow
  have iff : OnTime e (target - e.triggerAt) (Host.setTimeline u m₀) ↔
      (Host.setTimeline u m₀ : Machine δ α υ).timeline.now = target := by
    rw [OnTime, hu]
    omega
  obtain ⟨t, ts, hts⟩ : ∃ t ts, troubles k₀ = t :: ts :=
    List.exists_cons_of_length_eq_add_one hm.length_troubles.symm
  refine ⟨c, target, ls, m₀, t, ts, hm, hu, hts, ⟨hdue, rfl⟩, iff, fun hr hc => ?_,
    fun hr hc hf hun => ?_⟩
  · obtain ⟨-, hn, -, -⟩ := hm.steady hr
    rw [hts] at hn
    cases hn with
    | cons hle =>
        have hle : target ≤ m₀.timeline.now := hle hc
        rw [hu]
        omega
  -- The event that was taken out was due at the target, so the clock is there.
  · obtain ⟨-, -, -, hs⟩ := hm.steady hr
    rw [hts] at hs
    rw [iff, hu]
    rcases hs hc hf with hs | hs
    · exact hs
    · exact absurd hdue (Nat.not_le_of_lt (hs e (hev ▸ .head _) hun))

end Moves

/-! A callback resets the machine and makes an event five cycles on, while the run that fires it is
at time ten. -/

/-- Makes an event whose callback resets the machine, and runs past it. -/
def earlyScript : Script (interface BareBoard Bool Unit) Unit := do
  let _ ← Script.call (I := interface BareBoard Bool Unit) (.schedule "A" 5 true)
  Script.call (I := interface BareBoard Bool Unit) (.run 10)

def earlyHandler : Handler BareBoard Bool Unit
  | true, _ => do
      Script.call (I := interface BareBoard Bool Unit) .reset
      let _ ← Script.call (I := interface BareBoard Bool Unit) (.schedule "B" 5 false)
      return ()
  | false, _ => .done ()

/-- The item fires an event so many cycles late, and its trigger did not wrap around. -/
def Item.firedLate (n : Nat) : Item δ α υ → Bool
  | .fired e late _ => decide (late = n ∧ e.Unwrapped)
  | _ => false

/-- The first event fires before the reset, five cycles late and on time. -/
theorem first_fired_on_time : ∃ k e m l,
    chronicle earlyHandler 4 earlyScript (initial ⟨⟩ ()) = k ++ .fired e 5 m :: l ∧
      troubles k = [{}] ∧ OnTime e 5 m := by
  have hr : (earlyScript.exec (perform earlyHandler 4) (initial ⟨⟩ ())).isSome = true := by
    decide +kernel
  have hf : ((chronicle earlyHandler 4 earlyScript (initial ⟨⟩ ())).drop 3).head?.any
      (Item.firedLate 5) = true := by
    decide +kernel
  have ht : troubles ((chronicle earlyHandler 4 earlyScript (initial ⟨⟩ ())).take 3) = [{}] := by
    decide +kernel
  have hin : InRange ((chronicle earlyHandler 4 earlyScript (initial ⟨⟩ ())).take 3) := by
    decide +kernel
  obtain ⟨⟨r, m'⟩, hx⟩ := Option.isSome_iff_exists.1 hr
  have hj := (List.take_append_drop 3 (chronicle earlyHandler 4 earlyScript (initial ⟨⟩ ()))).symm
  obtain ⟨i, hi, hlate⟩ := (Option.any_eq_true _ _).1 hf
  obtain ⟨l, hl⟩ := List.head?_eq_some_iff.1 hi
  rw [hl] at hj
  cases i with
  | fired e late m =>
      obtain ⟨rfl, hun⟩ : late = 5 ∧ e.Unwrapped := of_decide_eq_true hlate
      obtain ⟨-, -, -, -, t, ts, -, -, hts, -, -, -, hon⟩ := fired_on_time hx hj
      obtain ⟨rfl, -⟩ := List.cons.inj (ht.symm.trans hts)
      exact ⟨_, e, m, l, hj, ht, hon hin rfl rfl hun⟩
  | began | ended | invoked => cases hlate

/-- The item fires an event before its time. -/
def Item.early : Item δ α υ → Bool
  | .fired e _ m => m.timeline.now < e.triggerAt
  | _ => false

/-- The event made after the reset fires at time zero, five cycles before its trigger. -/
theorem event_fires_early :
    ¬∀ e late m, .fired e late m ∈ chronicle earlyHandler 4 earlyScript (initial ⟨⟩ ()) →
      OnTime e late m := by
  have h : (chronicle earlyHandler 4 earlyScript (initial ⟨⟩ ())).any Item.early = true := by
    decide +kernel
  intro hall
  obtain ⟨i, hi, he⟩ := List.any_eq_true.1 h
  cases i with
  | fired e late m => exact absurd (hall e late m hi).1 (Nat.not_le_of_lt (of_decide_eq_true he))
  | began | ended | invoked => cases he

/-! A callback runs five cycles further, and takes no notice that this fails. -/

/-- Makes three events, and runs past them.  The first one's callback runs on, and there the second
one's fails. -/
def swallowScript : Script (interface BareBoard (Option Bool) Unit) Unit := do
  let _ ← Script.call (I := interface BareBoard (Option Bool) Unit) (.schedule "A" 5 (some true))
  let _ ← Script.call (I := interface BareBoard (Option Bool) Unit) (.schedule "B" 6 none)
  let _ ← Script.call (I := interface BareBoard (Option Bool) Unit) (.schedule "C" 7 (some false))
  Script.call (I := interface BareBoard (Option Bool) Unit) (.run 10)

def swallowHandler : Handler BareBoard (Option Bool) Unit
  | some true, _ => do
      let _ ← Script.attempt (I := interface BareBoard (Option Bool) Unit) (.run 5)
      return ()
  | some false, _ => .done ()
  | none, _ => .fail (.settings .malformed)

/-- The third event fires when the clock is eight cycles past its trigger, and its callback is told
three. -/
example : (chronicle swallowHandler 4 swallowScript (initial ⟨⟩ ())).any (fun
    | .fired e late m => late == 3 && m.timeline.now == e.triggerAt + 8
    | _ => false) = true := by
  decide +kernel

end Machine

end DmaMachine
