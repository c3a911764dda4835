import DmaMachine.Proofs.Machine.Journal
import DmaMachine.Proofs.Timeline.History

/-!
# The levels of a run

A run that is under way fires events; the callback of an event may run the machine further, and so
runs nest.  The *levels* of a machine are its runs under way, the innermost first: each with the
call that began it, the time up to which it fires what is due, and what it is doing.

`Move handler ls m j ls' m'` is one thing that happens to a machine with levels `ls`, and `j` is
what the journal says of it: a call that fires nothing, the beginning of a run with the move of the
clock, an event that is taken out with what the machine itself does then, one more deadline of a
registration that catches up, the making of its next event, the cycles that the engine took, and
the end of a run.  `Moves` is one after the other.

* `perform_moves`, `exec_moves`: **a call that comes to its end is made of moves, with its
  journal**, and so is a script.
* `Moves.preserves`: what every move preserves holds throughout.
-/

namespace DmaMachine

namespace Machine

open Journal Timeline

variable {δ α υ β : Type}

/-- The calls that fire events. -/
def Call.Fires : Call δ α υ → Prop
  | .run _ | .runToNext => True
  | _ => False

/-- The cycles that a run begins with; there are none when a run up to the next event finds no
event. -/
def Call.cycles? (m : Machine δ α υ) : Call δ α υ → Option Nat
  | .run n => some n
  | .runToNext => m.timeline.untilNext?
  | _ => none

/-- What a run is at. -/
inductive Doing (α : Type) where
  /-- It fires what is due, or the script of a client's event is carried out. -/
  | firing
  /-- The script of a registration is carried out, this late, and `left` more deadlines of it have
  passed. -/
  | catching (h : PeriodicHandle) (name : String) (period : Nat) (action : α) (left late : Nat)
  /-- Something failed. -/
  | failing

/-- What a run is at after a part of it. -/
def Doing.after : Except Fault β → Doing α
  | .ok _ => .firing
  | .error _ => .failing

/-- A run that is under way. -/
structure Level (δ α υ : Type) where
  call : Call δ α υ
  /-- What is due at this time is fired. -/
  target : Nat
  doing : Doing α

/-- One thing that happens to a machine with its levels, and what the journal says of it. -/
inductive Move [Board δ] (handler : Handler δ α υ) : List (Level δ α υ) → Machine δ α υ →
    Journal δ α υ → List (Level δ α υ) → Machine δ α υ → Prop where
  | call {ls : List (Level δ α υ)} {m m' : Machine δ α υ} {bound : Nat} {c : Call δ α υ}
      {r : Except Fault c.Answer} (hc : ¬c.Fires) (hp : perform handler bound c m = some (r, m')) :
      Move handler ls m [.began c m, .ended c r m'] ls m'
  /-- A run up to the next event when there is none. -/
  | idle {ls : List (Level δ α υ)} {m : Machine δ α υ} (hn : m.timeline.untilNext? = none) :
      Move handler ls m [.began .runToNext m, .ended .runToNext (.ok (0 : Nat)) m] ls m
  | began {ls : List (Level δ α υ)} {m : Machine δ α υ} {c : Call δ α υ} {n : Nat} (hc : c.Fires)
      (hn : c.cycles? m = some n) :
      Move handler ls m [.began c m] (⟨c, wrap (m.timeline.now + n), .firing⟩ :: ls)
        (Host.setNow (wrap (m.timeline.now + n)) m)
  | service {ls : List (Level δ α υ)} {m m' : Machine δ α υ} {c : Call δ α υ} {target : Nat}
      {e : Event (Task α)} {t : Timeline (Task α)} {r : Except Fault Unit}
      (hp : m.timeline.popDue target = some (e, t)) (he : e.task = .service)
      (ho : Op.outcome (serviceChannels (Host.setTimeline t m)) = (r, m')) :
      Move handler (⟨c, target, .firing⟩ :: ls) m
        [.fired e (target - e.triggerAt) (Host.setTimeline t m)]
        (⟨c, target, .after r⟩ :: ls) m'
  | resume {ls : List (Level δ α υ)} {m m' : Machine δ α υ} {c : Call δ α υ} {target : Nat}
      {e : Event (Task α)} {t : Timeline (Task α)} {p : Peer} {generation : UInt32}
      {r : Except Fault Unit} (hp : m.timeline.popDue target = some (e, t))
      (he : e.task = .resume p generation)
      (ho : Op.outcome (resumeChannel p generation (Host.setTimeline t m)) = (r, m')) :
      Move handler (⟨c, target, .firing⟩ :: ls) m
        [.fired e (target - e.triggerAt) (Host.setTimeline t m)]
        (⟨c, target, .after r⟩ :: ls) m'
  | client {ls : List (Level δ α υ)} {m : Machine δ α υ} {c : Call δ α υ} {target : Nat}
      {e : Event (Task α)} {t : Timeline (Task α)} {action : α}
      (hp : m.timeline.popDue target = some (e, t)) (he : e.task = .client action) :
      Move handler (⟨c, target, .firing⟩ :: ls) m
        [.fired e (target - e.triggerAt) (Host.setTimeline t m),
          .invoked action (target - e.triggerAt) (Host.setTimeline t m)]
        (⟨c, target, .firing⟩ :: ls) (Host.setTimeline t m)
  | periodic {ls : List (Level δ α υ)} {m : Machine δ α υ} {c : Call δ α υ} {target : Nat}
      {e : Event (Task α)} {t : Timeline (Task α)} {h : PeriodicHandle} {name : String}
      {period : Nat} {action : α} (hp : m.timeline.popDue target = some (e, t))
      (he : e.task = .periodic h name period action) :
      Move handler (⟨c, target, .firing⟩ :: ls) m
        [.fired e (target - e.triggerAt) (Host.setTimeline t m),
          .invoked action (target - e.triggerAt) (Host.setTimeline t m)]
        (⟨c, target, .catching h name period action ((target - e.triggerAt) / period)
          (target - e.triggerAt)⟩ :: ls) (Host.setTimeline t m)
  /-- One more deadline of the registration. -/
  | next {ls : List (Level δ α υ)} {m : Machine δ α υ} {c : Call δ α υ} {target : Nat}
      {h : PeriodicHandle} {name : String} {period : Nat} {action : α} {left late : Nat}
      (hr : m.isRegistered h = true) :
      Move handler (⟨c, target, .catching h name period action (left + 1) late⟩ :: ls) m
        [.invoked action (late - period) m]
        (⟨c, target, .catching h name period action left (late - period)⟩ :: ls) m
  /-- The next event of the registration is made. -/
  | rearm {ls : List (Level δ α υ)} {m m' : Machine δ α υ} {c : Call δ α υ} {target : Nat}
      {h : PeriodicHandle} {name : String} {period : Nat} {action : α} {late : Nat}
      {r : Except Fault Unit} (hr : m.isRegistered h = true)
      (ho : Op.outcome (armPeriodic h name (period - late) period action m) = (r, m')) :
      Move handler (⟨c, target, .catching h name period action 0 late⟩ :: ls) m []
        (⟨c, target, .after r⟩ :: ls) m'
  /-- The registration has ended meanwhile. -/
  | lapsed {ls : List (Level δ α υ)} {m : Machine δ α υ} {c : Call δ α υ} {target : Nat}
      {h : PeriodicHandle} {name : String} {period : Nat} {action : α} {left late : Nat}
      (hr : m.isRegistered h = false) :
      Move handler (⟨c, target, .catching h name period action left late⟩ :: ls) m []
        (⟨c, target, .firing⟩ :: ls) m
  /-- A script fails. -/
  | failed {ls : List (Level δ α υ)} {m : Machine δ α υ} {c : Call δ α υ} {target : Nat}
      {doing : Doing α} :
      Move handler (⟨c, target, doing⟩ :: ls) m [] (⟨c, target, .failing⟩ :: ls) m
  /-- Nothing is due any more, and the run goes on by the cycles that the engine took. -/
  | drained {ls : List (Level δ α υ)} {m m₁ : Machine δ α υ} {c : Call δ α υ} {target n : Nat}
      (hp : m.timeline.popDue target = none) (ht : takeStolen m = (n + 1, m₁)) :
      Move handler (⟨c, target, .firing⟩ :: ls) m []
        (⟨c, wrap (m.timeline.now + (n + 1)), .firing⟩ :: ls)
        (Host.setNow (wrap (m.timeline.now + (n + 1))) m₁)
  | ended {ls : List (Level δ α υ)} {m : Machine δ α υ} {c : Call δ α υ} {target : Nat}
      (hc : c.Fires) (a : c.Answer) (hp : m.timeline.popDue target = none)
      (hb : m.bus.pendingCycles = 0) :
      Move handler (⟨c, target, .firing⟩ :: ls) m [.ended c (.ok a) m] ls m
  | aborted {ls : List (Level δ α υ)} {m : Machine δ α υ} {c : Call δ α υ} {target : Nat}
      (hc : c.Fires) (e : Fault) :
      Move handler (⟨c, target, .failing⟩ :: ls) m [.ended c (.error e) m] ls m

/-- One move after the other. -/
inductive Moves [Board δ] (handler : Handler δ α υ) : List (Level δ α υ) → Machine δ α υ →
    Journal δ α υ → List (Level δ α υ) → Machine δ α υ → Prop where
  | none (ls : List (Level δ α υ)) (m : Machine δ α υ) : Moves handler ls m [] ls m
  | next {ls ls₁ ls' : List (Level δ α υ)} {m m₁ m' : Machine δ α υ} {j k : Journal δ α υ}
      (h : Move handler ls m j ls₁ m₁) (ht : Moves handler ls₁ m₁ k ls' m') :
      Moves handler ls m (j ++ k) ls' m'

section Moves

variable [Board δ] {handler : Handler δ α υ} {ls ls₁ ls' : List (Level δ α υ)}
  {m m₁ m' : Machine δ α υ} {j k : Journal δ α υ} {c : Call δ α υ}

theorem Moves.append (h : Moves handler ls m j ls₁ m₁) (h' : Moves handler ls₁ m₁ k ls' m') :
    Moves handler ls m (j ++ k) ls' m' := by
  induction h with
  | none => exact h'
  | next hh _ ih =>
      rw [List.append_assoc]
      exact .next hh (ih h')

theorem Move.moves (h : Move handler ls m j ls' m') : Moves handler ls m j ls' m' := by
  rw [← List.append_nil j]
  exact .next h (.none ls' m')

/-- **What every move preserves holds throughout.** -/
theorem Moves.preserves {J : List (Level δ α υ) → Journal δ α υ → Machine δ α υ → Prop}
    (hJ : ∀ {ls ls' h j m m'}, J ls h m → Move handler ls m j ls' m' → J ls' (h ++ j) m')
    (ht : Moves handler ls m j ls' m') {h : Journal δ α υ} (h₀ : J ls h m) :
    J ls' (h ++ j) m' := by
  induction ht generalizing h with
  | none => simpa using h₀
  | next hh _ ih =>
      rw [← List.append_assoc]
      exact ih (hJ h₀ hh)

/-- The move that an item of the journal is of, with the moves before it and after it. -/
theorem Moves.split (h : Moves handler ls m j ls' m') {i : Item δ α υ} :
    ∀ {k l : Journal δ α υ}, j = k ++ i :: l →
      ∃ k₁ ls₁ m₁ before after ls₂ m₂ l₂, Moves handler ls m k₁ ls₁ m₁ ∧
        Move handler ls₁ m₁ (before ++ i :: after) ls₂ m₂ ∧ Moves handler ls₂ m₂ l₂ ls' m' ∧
        k = k₁ ++ before ∧ l = after ++ l₂ := by
  induction h with
  | none => exact fun hj => absurd hj (by simp)
  | @next ls ls₁ ls' m m₁ m' j₁ j₂ hm ht ih =>
      intro k l hj
      -- The item is of the first move, or it is of one of those after it.
      rcases List.append_eq_append_iff.1 hj with ⟨k', rfl, hk⟩ | ⟨l', rfl, hl⟩
      · obtain ⟨k₁, ls₂, m₂, before, after, ls₃, m₃, l₂, h₁, h₂, h₃, rfl, rfl⟩ := ih hk
        exact ⟨_, _, _, before, after, _, _, l₂, .next hm h₁, h₂, h₃, by simp, rfl⟩
      · cases l' with
        | nil =>
            obtain ⟨k₁, ls₂, m₂, before, after, ls₃, m₃, l₂, h₁, h₂, h₃, hb, rfl⟩ :=
              ih (k := []) hl.symm
            obtain ⟨rfl, rfl⟩ := List.append_eq_nil_iff.1 hb.symm
            rw [List.append_nil] at hm
            exact ⟨k ++ [], _, _, [], after, _, _, l₂, .next hm h₁, h₂, h₃, by simp, rfl⟩
        | cons x after =>
            obtain ⟨rfl, rfl⟩ := List.cons.inj hl
            exact ⟨[], _, _, k, after, _, _, j₂, .none _ _, hm, ht, rfl, rfl⟩

/-- The move at whose end a call that fires nothing ends. -/
theorem Move.of_ended {c : Call δ α υ} {before after : Journal δ α υ} {r : Except Fault c.Answer}
    {k : Machine δ α υ} (hm : Move handler ls m (before ++ .ended c r k :: after) ls' m')
    (hc : ¬c.Fires) : before = [.began c m] ∧ after = [] ∧ k = m' ∧ ls' = ls ∧
      ∃ bound, perform handler bound c m = some (r, m') := by
  generalize hj : before ++ .ended c r k :: after = j at hm
  cases hm with
  | call hd hp =>
      rcases before with _ | ⟨i, _ | ⟨i', before⟩⟩ <;> simp at hj
      obtain ⟨rfl, ⟨rfl, hr, rfl⟩, rfl⟩ := hj
      cases eq_of_heq hr
      exact ⟨rfl, rfl, rfl, rfl, _, hp⟩
  | idle =>
      rcases before with _ | ⟨i, _ | ⟨i', before⟩⟩ <;> simp at hj
      obtain ⟨-, ⟨rfl, -⟩, -⟩ := hj
      exact absurd trivial hc
  | ended hd | aborted hd =>
      rcases before with _ | ⟨i, before⟩ <;> simp at hj
      obtain ⟨⟨rfl, -⟩, -⟩ := hj
      exact absurd hd hc
  | client | periodic =>
      rcases before with _ | ⟨i, _ | ⟨i', before⟩⟩ <;> simp at hj
  | _ => rcases before with _ | ⟨i, before⟩ <;> simp at hj

/-- The move that takes an event out to be fired. -/
theorem Move.of_fired {before after : Journal δ α υ} {e : Event (Task α)} {late : Nat}
    {k : Machine δ α υ} (hm : Move handler ls m (before ++ .fired e late k :: after) ls' m') :
    before = [] ∧ ∃ c target ls₀ t, ls = ⟨c, target, .firing⟩ :: ls₀ ∧
      m.timeline.popDue target = some (e, t) ∧ late = target - e.triggerAt ∧
      k = Host.setTimeline t m := by
  generalize hj : before ++ .fired e late k :: after = j at hm
  cases hm with
  | service hp | resume hp | client hp | periodic hp =>
      rcases before with _ | ⟨i, _ | ⟨i', before⟩⟩ <;> simp at hj
      obtain ⟨⟨rfl, rfl, rfl⟩, -⟩ := hj
      exact ⟨rfl, _, _, _, _, rfl, hp, rfl, rfl⟩
  | call | idle => rcases before with _ | ⟨i, _ | ⟨i', before⟩⟩ <;> simp at hj
  | _ => rcases before with _ | ⟨i, before⟩ <;> simp at hj

/-- The move with which a run ends well. -/
theorem Move.of_run_ended {n : Nat} {before after : Journal δ α υ} {k : Machine δ α υ}
    (hm : Move handler ls m (before ++ .ended (.run n) (.ok ()) k :: after) ls' m') :
    k = m ∧ ∃ target, ls = ⟨.run n, target, .firing⟩ :: ls' ∧
      m.timeline.popDue target = none := by
  generalize hj : before ++ .ended (.run n) (.ok ()) k :: after = j at hm
  cases hm with
  | call hd =>
      rcases before with _ | ⟨i, _ | ⟨i', before⟩⟩ <;> simp at hj
      obtain ⟨-, ⟨rfl, -⟩, -⟩ := hj
      exact absurd trivial hd
  | ended hc a hp =>
      rcases before with _ | ⟨i, before⟩ <;> simp at hj
      obtain ⟨⟨rfl, -, rfl⟩, -⟩ := hj
      exact ⟨rfl, _, rfl, hp⟩
  | aborted =>
      rcases before with _ | ⟨i, before⟩ <;> simp at hj
      obtain ⟨⟨rfl, hr, -⟩, -⟩ := hj
      cases hr
  | client | periodic | idle =>
      rcases before with _ | ⟨i, _ | ⟨i', before⟩⟩ <;> simp at hj
  | _ => rcases before with _ | ⟨i, before⟩ <;> simp at hj

/-! ### The parts of a run -/

/-- Whatever the levels, the run is made of moves, with the given journal. -/
def Moved (handler : Handler δ α υ) (x : Run (Machine δ α υ) β)
    (j : Machine δ α υ → Journal δ α υ) : Prop :=
  ∀ ls m r m', x m = some (r, m') → Moves handler ls m (j m) ls m'

/-- A script, when its calls are. -/
theorem ofScript_moved {I : Interface} {perform : (c : I.Call) → Run (Machine δ α υ) (I.Answer c)}
    {record : I.Call → Machine δ α υ → Journal δ α υ}
    (hp : ∀ c, Moved handler (perform c) (record c)) (x : Script I β) :
    Moved handler (x.exec perform) (ofScript perform record x) := by
  induction x with
  | done | fail =>
      intro ls m r m' h
      cases h
      exact .none _ _
  | ask c next ih =>
      intro ls m r m' h
      simp only [Script.exec] at h
      simp only [ofScript]
      split at h
      · cases h
      · rename_i answer m₁ he
        rw [he]
        exact (hp c _ _ _ _ he).append (ih answer _ _ _ _ h)

/-- A script that fails takes the run with it that carries it out. -/
theorem Moved.failing {x : Run (Machine δ α υ) Unit} {j : Machine δ α υ → Journal δ α υ}
    (hx : Moved handler x j) {e : Fault} {target : Nat} {doing : Doing α}
    (h : x m = some (.error e, m')) :
    Moves handler (⟨c, target, doing⟩ :: ls) m (j m) (⟨c, target, .failing⟩ :: ls) m' := by
  rw [← List.append_nil (j m)]
  exact (hx _ _ _ _ h).append Move.failed.moves

variable (ls c) in
/-- A registration that catches up, from its first invocation on. -/
theorem catchUp_moves {execute : Nat → Run (Machine δ α υ) Unit}
    {script : Nat → Machine δ α υ → Journal δ α υ}
    (hx : ∀ late, Moved handler (execute late) (script late)) {h : PeriodicHandle}
    {name : String} {period : Nat} {action : α} {target : Nat} :
    ∀ (n late : Nat) {m : Machine δ α υ} {r : Except Fault Unit},
      catchUp execute h name period action n late m = some (r, m') →
      ∃ k, ofCatchUp execute (fun late m => .invoked action late m :: script late m)
          h period n late m = .invoked action late m :: k ∧
        Moves handler (⟨c, target, .catching h name period action n late⟩ :: ls) m k
          (⟨c, target, .after r⟩ :: ls) m'
  | n, late, m, r, hc => by
      rw [catchUp.eq_def] at hc
      rw [ofCatchUp.eq_def]
      dsimp only at hc ⊢
      refine ⟨_, rfl, ?_⟩
      split at hc
      · cases hc
      · rename_i e m₁ he
        cases hc
        rw [after_of_error he]
        exact ((hx late).failing he).append (.none _ _)
      · rename_i m₁ he
        rw [after_of_ok he]
        refine (hx late _ _ _ _ he).append ?_
        -- The callback may have ended the registration; then there is nothing to catch up.
        cases hr : m₁.isRegistered h with
        | false =>
            rw [hr] at hc
            cases hc
            exact (Move.lapsed hr).moves
        | true =>
            rw [hr] at hc
            cases n with
            | zero => exact (Move.rearm hr (Option.some.inj hc)).moves
            | succ n =>
                obtain ⟨k, hk, hm⟩ := catchUp_moves hx n (late - period) hc
                simp only [if_true, hk]
                exact (Move.next hr).moves.append hm

/-- An event that is taken out, and what it does. -/
theorem ofTask_moves {execute : α → Nat → Run (Machine δ α υ) Unit}
    {script : α → Nat → Machine δ α υ → Journal δ α υ}
    (hx : ∀ action late, Moved handler (execute action late) (script action late))
    {target : Nat} {e : Event (Task α)} {t : Timeline (Task α)} {r : Except Fault Unit}
    (hp : m.timeline.popDue target = some (e, t))
    (h : fire execute e.task (target - e.triggerAt) (Host.setTimeline t m) = some (r, m')) :
    Moves handler (⟨c, target, .firing⟩ :: ls) m
      (.fired e (target - e.triggerAt) (Host.setTimeline t m) ::
        ofTask execute (fun action late m => .invoked action late m :: script action late m) e.task
          (target - e.triggerAt) (Host.setTimeline t m))
      (⟨c, target, .after r⟩ :: ls) m' := by
  cases ht : e.task with
  | service =>
      rw [ht] at h
      exact (Move.service hp ht (Option.some.inj h)).moves
  | resume p generation =>
      rw [ht] at h
      exact (Move.resume hp ht (Option.some.inj h)).moves
  | periodic handle name period action =>
      rw [ht] at h
      obtain ⟨k, hk, hm⟩ := catchUp_moves ls c (hx action) _ _ h
      rw [ofTask, hk]
      exact (Move.periodic hp ht).moves.append hm
  | client action =>
      rw [ht] at h
      refine (Move.client hp ht).moves.append ?_
      cases r with
      | ok => exact hx action _ _ _ _ _ h
      | error e => exact (hx action _).failing h

section Run

variable {fire : Task α → Nat → Run (Machine δ α υ) Unit}
  {callback : Task α → Nat → Machine δ α υ → Journal δ α υ}

/-- The tasks of events are made of moves, each from the table that its event was taken out of. -/
def TasksMoved (handler : Handler δ α υ) (fire : Task α → Nat → Run (Machine δ α υ) Unit)
    (callback : Task α → Nat → Machine δ α υ → Journal δ α υ) : Prop :=
  ∀ {ls : List (Level δ α υ)} {c : Call δ α υ} {m m' : Machine δ α υ} {target : Nat}
    {e : Event (Task α)} {t : Timeline (Task α)} {r : Except Fault Unit},
    m.timeline.popDue target = some (e, t) →
    fire e.task (target - e.triggerAt) (Host.setTimeline t m) = some (r, m') →
    Moves handler (⟨c, target, .firing⟩ :: ls) m
      (.fired e (target - e.triggerAt) (Host.setTimeline t m) ::
        callback e.task (target - e.triggerAt) (Host.setTimeline t m))
      (⟨c, target, .after r⟩ :: ls) m'

variable (ls c) in
/-- Firing what is due; when it ends well nothing is due. -/
theorem ofFireDue_moves (hf : TasksMoved handler fire callback) {target : Nat} :
    ∀ {bound : Nat} {m : Machine δ α υ} {r : Except Fault Unit},
      Host.fireDue fire target bound m = some (r, m') →
      Moves handler (⟨c, target, .firing⟩ :: ls) m (ofFireDue fire callback target bound m)
          (⟨c, target, .after r⟩ :: ls) m' ∧
        (r = .ok () → m'.timeline.popDue target = none)
  | 0, _, _, h => by cases h
  | bound + 1, m, r, h => by
      rw [ofFireDue]
      obtain ⟨hp, rfl, rfl⟩ | ⟨e, t, hp, ⟨fault, he, rfl⟩ | ⟨m₁, he, h⟩⟩ := Host.fireDue_cases h
      · replace hp : m'.timeline.popDue target = none := hp
        rw [hp]
        exact ⟨.none _ _, fun _ => rfl⟩
      · replace hp : m.timeline.popDue target = some (e, t) := hp
        rw [hp]
        dsimp only
        rw [after_of_error he, List.append_nil]
        exact ⟨hf hp he, nofun⟩
      · replace hp : m.timeline.popDue target = some (e, t) := hp
        rw [hp]
        dsimp only
        rw [after_of_ok he, ← List.cons_append]
        obtain ⟨hm, hn⟩ := ofFireDue_moves hf h
        exact ⟨(hf hp he).append hm, hn⟩

omit [Board δ] in
/-- Taking no cycles changes nothing. -/
theorem takeStolen_eq_zero (h : takeStolen m = (0, m₁)) : m₁ = m ∧ m.bus.pendingCycles = 0 := by
  obtain ⟨timeline, ⟨ram, board, exception, lastFault, pending⟩, engine, service, resumes, slots,
    stats, memory⟩ := m
  simp only [takeStolen, Bus.takeCycles, Prod.mk.injEq] at h
  obtain ⟨rfl, rfl⟩ := h
  exact ⟨rfl, rfl⟩

omit [Board δ] in
/-- The cycles that are taken were pending, and are counted. -/
theorem takeStolen_eq_succ {n : Nat} (h : takeStolen m = (n + 1, m₁)) :
    m.bus.pendingCycles = n + 1 ∧ m₁.stats.dmaCycles = wrap (m.stats.dmaCycles + (n + 1)) ∧
      m₁.bus.pendingCycles = 0 := by
  obtain ⟨timeline, ⟨ram, board, exception, lastFault, pending⟩, engine, service, resumes, slots,
    stats, memory⟩ := m
  simp only [takeStolen, Bus.takeCycles, Prod.mk.injEq] at h
  obtain ⟨rfl, rfl⟩ := h
  exact ⟨rfl, rfl, rfl⟩

omit [Board δ] in
theorem takeStolen_of_pendingCycles (h : m.bus.pendingCycles = 0) : takeStolen m = (0, m) := by
  obtain ⟨timeline, ⟨ram, board, exception, lastFault, pending⟩, engine, service, resumes, slots,
    stats, memory⟩ := m
  obtain rfl : pending = 0 := h
  rfl

variable (ls c) in
/-- Running on by the cycles that the engine takes; when it ends well nothing is due, and no cycle
is left. -/
theorem ofDrain_moves (hf : TasksMoved handler fire callback) {bound : Nat} :
    ∀ {n target : Nat} {m : Machine δ α υ} {r : Except Fault Unit},
      drain fire bound n m = some (r, m') → m.timeline.popDue target = none →
      ∃ target', Moves handler (⟨c, target, .firing⟩ :: ls) m (ofDrain fire callback bound n m)
          (⟨c, target', .after r⟩ :: ls) m' ∧
        (r = .ok () → m'.timeline.popDue target' = none ∧ m'.bus.pendingCycles = 0)
  | 0, _, _, _, h, _ => by cases h
  | n + 1, target, m, r, h, hp => by
      simp only [drain] at h
      rw [ofDrain]
      rcases ht : takeStolen m with ⟨_ | stolen, m₁⟩
      · rw [ht] at h
        obtain ⟨rfl, hb⟩ := takeStolen_eq_zero ht
        cases h
        exact ⟨target, .none _ _, fun _ => ⟨hp, hb⟩⟩
      · rw [ht] at h
        have hnow : m₁.timeline.now = m.timeline.now := congrArg (·.2.timeline.now) ht.symm
        have taken : Moves handler (⟨c, target, .firing⟩ :: ls) m [] _ _ :=
          (Move.drained hp ht).moves
        rw [← hnow] at taken
        dsimp only at h ⊢
        split at h
        · cases h
        · rename_i e m₂ he
          cases h
          rw [after_of_error he, List.append_nil]
          exact ⟨_, taken.append (ofFireDue_moves _ _ hf he).1, nofun⟩
        · rename_i m₂ he
          obtain ⟨hm, hn⟩ := ofFireDue_moves ls c hf he
          obtain ⟨target', hd, hq⟩ := ofDrain_moves hf h (hn rfl)
          rw [after_of_ok he]
          exact ⟨target', taken.append (hm.append hd), hq⟩

/-- A run, from the beginning of its call to the end; the answer goes with the outcome. -/
theorem ofRun_moves (hf : TasksMoved handler fire callback) {bound cycles : Nat}
    {r : Except Fault Unit} {answer : Except Fault c.Answer} (hc : c.Fires)
    (hn : c.cycles? m = some cycles) (h : run fire bound cycles m = some (r, m'))
    (hok : r = .ok () → ∃ a, answer = .ok a) (he : ∀ e, r = .error e → answer = .error e) :
    Moves handler ls m (.began c m :: (ofRun fire callback bound cycles m ++ [.ended c answer m']))
      ls m' := by
  have stop : ∀ {target e}, r = .error e →
      Moves handler (⟨c, target, .failing⟩ :: ls) m' [.ended c answer m'] ls m' := fun hr => by
    rw [he _ hr]
    exact (Move.aborted hc _).moves
  refine (Move.began hc hn).moves.append ?_
  simp only [run] at h
  rw [ofRun]
  split at h
  · cases h
  · rename_i e m₁ hx
    cases h
    rw [after_of_error hx, List.append_nil]
    exact (ofFireDue_moves _ _ hf hx).1.append (stop rfl)
  · rename_i m₁ hx
    obtain ⟨hm, hp⟩ := ofFireDue_moves ls c hf hx
    obtain ⟨target, hd, hq⟩ := ofDrain_moves ls c hf h (hp rfl)
    rw [after_of_ok hx]
    refine (hm.append hd).append ?_
    cases r with
    | error e => exact stop rfl
    | ok =>
        obtain ⟨a, rfl⟩ := hok rfl
        obtain ⟨hp, hb⟩ := hq rfl
        exact (Move.ended hc a hp hb).moves

end Run

/-! ### Calls and scripts -/

theorem inside_of_not_fires {c : Call δ α υ} (hc : ¬c.Fires) (bound : Nat)
    (m : Machine δ α υ) : inside handler bound c m = [] := by
  cases bound <;> cases c <;> first | rfl | exact absurd trivial hc

/-- A call that fires nothing. -/
theorem journal_moved_of_not_fires {c : Call δ α υ} (hc : ¬c.Fires) (bound : Nat) :
    Moved handler (perform handler bound c) (journal handler bound c) := by
  intro ls m r m' h
  rw [journal, enclosed, inside_of_not_fires hc, h]
  exact (Move.call hc h).moves

/-- **A call that comes to its end is made of moves, with its journal.** -/
theorem perform_moves : ∀ (bound : Nat) (c : Call δ α υ),
    Moved handler (perform handler bound c) (journal handler bound c)
  | 0, c => by
      by_cases hc : c.Fires
      · cases c with
        | run | runToNext => exact fun _ _ _ _ h => nomatch h
        | _ => cases hc
      · exact journal_moved_of_not_fires hc 0
  | bound + 1, c => by
      -- Callbacks make their calls under the smaller bound, and those calls are made of moves.
      have hf : TasksMoved handler (fire (execute handler bound))
          (ofTask (execute handler bound) (invocation handler bound)) := fun hp hx =>
        ofTask_moves (fun action late => ofScript_moved (I := interface δ α υ)
          (perform_moves bound) (handler action late)) hp hx
      by_cases hc : c.Fires
      · intro ls m r m' h
        rw [journal, enclosed, h]
        cases c with
        | run cycles =>
            exact ofRun_moves hf hc rfl h (fun hr => ⟨(), hr⟩) fun _ hr => hr
        | runToNext =>
            replace h : runToNext (fire (execute handler bound)) (bound + 1) m = some (r, m') := h
            show Moves handler ls m (.began .runToNext m ::
              (ofRunToNext (fire (execute handler bound)) _ (bound + 1) m ++ _)) ls m'
            rw [runToNext] at h
            rw [ofRunToNext]
            cases hn : m.timeline.untilNext? with
            | none =>
                rw [hn] at h
                cases h
                exact (Move.idle hn).moves
            | some cycles =>
                rw [hn] at h
                dsimp only at h ⊢
                split at h
                · cases h
                · rename_i e m₁ hr
                  cases h
                  exact ofRun_moves hf hc hn hr nofun fun _ he => by cases he; rfl
                · rename_i m₁ hr
                  cases h
                  exact ofRun_moves hf hc hn hr (fun _ => ⟨_, rfl⟩) nofun
        | _ => cases hc
      · exact journal_moved_of_not_fires hc (bound + 1)

/-- **A script that comes to its end is made of moves, with its journal.** -/
theorem exec_moves (bound : Nat) (x : Script (interface δ α υ) β) :
    Moved handler (x.exec (perform handler bound)) (chronicle handler bound x) :=
  ofScript_moved (perform_moves bound) x

end Moves

end Machine

end DmaMachine
