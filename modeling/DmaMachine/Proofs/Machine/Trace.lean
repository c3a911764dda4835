import DmaMachine.Proofs.Machine.Range

/-!
# Traces of a machine

Whatever a client has a machine do, however deep callbacks nest, is one happening after the other:
a call that fires nothing, the beginning or the end of one that does, a move of the clock, an event
that is taken out, the making of a registration's next event.

`Trace handler L W m j m'` says that such happenings lead from `m` to `m'`, and that `j` is what the
journal says of them.  A service pass, a resumption, or the making of an event may fail only where
`L` allows it, and the clock may go back only where `W` does.

* `Moves.trace`: **moves in range that leave no run failing are a trace**; when all calls of the
  journal succeed nothing in it fails.
* `perform_trace`, `exec_trace`: so a call that comes to its end is a trace with its journal, and a
  script is.
* `Trace.preserves`: what every happening preserves holds throughout.
-/

namespace DmaMachine

namespace Machine

open Journal

variable {δ α υ β : Type}

/-- A call that ends, ends well. -/
def Item.Succeeds : Item δ α υ → Prop
  | .ended _ r _ => ∃ a, r = .ok a
  | _ => True

instance : DecidablePred (Item.Succeeds (δ := δ) (α := α) (υ := υ))
  | .ended _ (.ok a) _ => .isTrue ⟨a, rfl⟩
  | .ended _ (.error _) _ => .isFalse fun ⟨_, h⟩ => nomatch h
  | .began .. | .fired .. | .invoked .. => .isTrue trivial

/-- One thing that happens to a machine, with what the journal says of it. -/
inductive Happens [Board δ] (handler : Handler δ α υ) (L W : Prop) :
    Machine δ α υ → Journal δ α υ → Machine δ α υ → Prop where
  | call {bound : Nat} {c : Call δ α υ} {m m' : Machine δ α υ} {r : Except Fault c.Answer}
      (hc : ¬c.Fires) (hp : perform handler bound c m = some (r, m')) :
      Happens handler L W m [.began c m, .ended c r m'] m'
  | began {c : Call δ α υ} (m : Machine δ α υ) (hc : c.Fires) :
      Happens handler L W m [.began c m] m
  | ended {c : Call δ α υ} (r : Except Fault c.Answer) (m : Machine δ α υ) (hc : c.Fires) :
      Happens handler L W m [.ended c r m] m
  | clock {now : Nat} (m : Machine δ α υ) (hn : W ∨ m.timeline.now ≤ now) :
      Happens handler L W m [] (Host.setNow now m)
  | stolen (m : Machine δ α υ) : Happens handler L W m [] (takeStolen m).2
  /-- A client's event, or one of a registration. -/
  | popped {m : Machine δ α υ} {target : Nat} {e : Event (Task α)} {t : Timeline (Task α)}
      (hp : m.timeline.popDue target = some (e, t)) (hs : e.task ≠ .service) :
      Happens handler L W m [.fired e (target - e.triggerAt) (Host.setTimeline t m)]
        (Host.setTimeline t m)
  | serviced {m m' : Machine δ α υ} {target : Nat} {e : Event (Task α)} {t : Timeline (Task α)}
      {r : Except Fault Unit} (hp : m.timeline.popDue target = some (e, t))
      (hs : e.task = .service)
      (ho : Op.outcome (serviceChannels (Host.setTimeline t m)) = (r, m')) (hr : L ∨ r = .ok ()) :
      Happens handler L W m [.fired e (target - e.triggerAt) (Host.setTimeline t m)] m'
  | resumed {m m' : Machine δ α υ} (p : Peer) (generation : UInt32) {r : Except Fault Unit}
      (ho : Op.outcome (resumeChannel p generation m) = (r, m')) (hr : L ∨ r = .ok ()) :
      Happens handler L W m [] m'
  | invoked (action : α) (late : Nat) (m : Machine δ α υ) :
      Happens handler L W m [.invoked action late m] m
  | armed {m m' : Machine δ α υ} (h : PeriodicHandle) (name : String) (delay period : Nat)
      (action : α) {r : Except Fault Unit}
      (ho : Op.outcome (armPeriodic h name delay period action m) = (r, m'))
      (hr : L ∨ r = .ok ()) : Happens handler L W m [] m'

/-- One happening after the other. -/
inductive Trace [Board δ] (handler : Handler δ α υ) (L W : Prop) :
    Machine δ α υ → Journal δ α υ → Machine δ α υ → Prop where
  | none (m : Machine δ α υ) : Trace handler L W m [] m
  | next {m m₁ m' : Machine δ α υ} {j k : Journal δ α υ} (h : Happens handler L W m j m₁)
      (ht : Trace handler L W m₁ k m') : Trace handler L W m (j ++ k) m'

/-- Nothing is said to fail, neither by the outcome nor by the journal; or `L` allows it. -/
def Smooth (L : Prop) (r : Except Fault β) (j : Journal δ α υ) : Prop :=
  L ∨ ((∃ b, r = .ok b) ∧ ∀ i ∈ j, i.Succeeds)

/-- Nothing in the journal wraps around, from a clock that does not; or `W` allows it. -/
def Ranged [Board δ] (W : Prop) (m : Machine δ α υ) (j : Journal δ α υ) : Prop :=
  W ∨ (m.ahead < UInt64.size ∧ InRange j)

theorem Smooth.right {r : Except Fault β} {L : Prop} {j k : Journal δ α υ}
    (h : Smooth L r (j ++ k)) : Smooth L r k :=
  h.imp_right fun h => ⟨h.1, fun i hi => h.2 i (List.mem_append_right _ hi)⟩

section Trace

variable [Board δ] {handler : Handler δ α υ} {L W : Prop} {m m₁ m' : Machine δ α υ}
  {j k : Journal δ α υ}

theorem Trace.append (h : Trace handler L W m j m₁) (h' : Trace handler L W m₁ k m') :
    Trace handler L W m (j ++ k) m' := by
  induction h with
  | none => exact h'
  | next hh _ ih =>
      rw [List.append_assoc]
      exact .next hh (ih h')

theorem Happens.trace (h : Happens handler L W m j m') : Trace handler L W m j m' := by
  rw [← List.append_nil j]
  exact .next h (.none m')

/-- **What every happening preserves holds throughout.** -/
theorem Trace.preserves {J : Journal δ α υ → Machine δ α υ → Prop}
    (hJ : ∀ {h j m m'}, J h m → Happens handler L W m j m' → J (h ++ j) m')
    (ht : Trace handler L W m j m') {h : Journal δ α υ} (h₀ : J h m) : J (h ++ j) m' := by
  induction ht generalizing h with
  | none => simpa using h₀
  | next hh _ ih =>
      rw [← List.append_assoc]
      exact ih (hJ h₀ hh)

/-! ### Moves -/

/-- No run is failing, and no call of the journal has failed; or `L` allows it. -/
def Sound (L : Prop) (ls : List (Level δ α υ)) (j : Journal δ α υ) : Prop :=
  L ∨ (∀ l ∈ ls, l.doing ≠ .failing) ∧ ∀ i ∈ j, i.Succeeds

omit [Board δ] in
theorem Sound.tail {l : Level δ α υ} {ls : List (Level δ α υ)} (h : Sound L (l :: ls) j) :
    Sound L ls [] := h.imp_right fun h => ⟨fun l hl => h.1 l (.tail _ hl), List.forall_mem_nil _⟩

omit [Board δ] in
/-- The innermost run was not failing before. -/
theorem Sound.before {l l' : Level δ α υ} {ls : List (Level δ α υ)} (h : Sound L (l' :: ls) j)
    (hl : l.doing ≠ .failing) : Sound L (l :: ls) [] :=
  h.imp_right fun h => ⟨List.forall_mem_cons.2 ⟨hl, fun l hl => h.1 l (.tail _ hl)⟩,
    List.forall_mem_nil _⟩

omit [Board δ] in
/-- What brought the innermost run where it is has not failed. -/
theorem Sound.after {c : Call δ α υ} {target : Nat} {r : Except Fault Unit}
    {ls : List (Level δ α υ)} (h : Sound L (⟨c, target, .after r⟩ :: ls) j) : L ∨ r = .ok () :=
  h.imp_right fun h => by
    cases r with
    | ok => rfl
    | error => exact absurd rfl (h.1 _ (.head _))

/-- **A move in range that leaves no run failing** finds none failing, and is a trace. -/
theorem Move.trace {ls ls' : List (Level δ α υ)} (hm : Move handler ls m j ls' m')
    (hs : Sound L ls' j) (hr : Ranged W m j) : Trace handler L W m j m' ∧ Sound L ls [] := by
  have same : Sound L ls' [] := hs.imp_right fun h => ⟨h.1, List.forall_mem_nil _⟩
  cases hm with
  | call hc hp => exact ⟨(Happens.call hc hp).trace, same⟩
  | idle =>
      have hc : (Call.runToNext : Call δ α υ).Fires := trivial
      exact ⟨(Happens.began m hc).trace.append (Happens.ended _ m hc).trace, same⟩
  | began hc hn =>
      refine ⟨(Happens.began m hc).trace.append (Happens.clock m ?_).trace, hs.tail⟩
      refine hr.imp_right fun ⟨_, hj⟩ => ?_
      rw [Timeline.wrap_of_lt ((hj _ (.head _)).cycles_lt hn)]
      exact Nat.le_add_right ..
  | service hp he ho => exact ⟨(Happens.serviced hp he ho hs.after).trace, hs.before nofun⟩
  | resume hp he ho =>
      refine ⟨?_, hs.before nofun⟩
      exact (Happens.popped hp (by simp [he])).trace.append (Happens.resumed _ _ ho hs.after).trace
  | client hp he | periodic hp he =>
      refine ⟨?_, hs.before nofun⟩
      exact (Happens.popped hp (by simp [he])).trace.append (Happens.invoked ..).trace
  | next => exact ⟨(Happens.invoked ..).trace, hs.before nofun⟩
  | rearm _ ho => exact ⟨(Happens.armed _ _ _ _ _ ho hs.after).trace, hs.before nofun⟩
  | lapsed => exact ⟨.none _, hs.before nofun⟩
  | failed =>
      -- What `L` allows may be failing before as well.
      refine ⟨.none _, .inl (hs.resolve_right fun h => ?_)⟩
      exact h.1 _ (.head _) rfl
  | @drained _ _ m₁ _ _ n _ ht =>
      have taken : Trace handler L W m [] (takeStolen m).2 := (Happens.stolen m).trace
      rw [ht] at taken
      refine ⟨taken.append (Happens.clock m₁ ?_).trace, hs.before nofun⟩
      refine hr.imp_right fun ⟨ha, _⟩ => ?_
      rw [Timeline.wrap_of_lt (stolen_lt ha ht), ← congrArg (·.2.timeline.now) ht]
      exact Nat.le_add_right ..
  | ended hc =>
      refine ⟨(Happens.ended _ m hc).trace, same.imp_right fun h => ?_⟩
      exact ⟨List.forall_mem_cons.2 ⟨nofun, h.1⟩, List.forall_mem_nil _⟩
  | aborted hc e =>
      refine ⟨(Happens.ended _ m hc).trace, .inl (hs.resolve_right fun h => ?_)⟩
      obtain ⟨_, ⟨⟩⟩ := h.2 _ (.head _)

/-- **Moves in range that leave no run failing are a trace.** -/
theorem Moves.trace {ls ls' : List (Level δ α υ)} (hm : Moves handler ls m j ls' m')
    (hs : Sound L ls' j) (hr : Ranged W m j) : Trace handler L W m j m' ∧ Sound L ls [] := by
  induction hm with
  | none ls m => exact ⟨.none m, hs⟩
  | @next ls ls₁ ls' m m₁ m' j k hh _ ih =>
      have hrj : Ranged W m j := hr.imp_right fun ⟨ha, h⟩ => ⟨ha, h.left⟩
      obtain ⟨ht, hl⟩ := ih (hs.imp_right fun h =>
        ⟨h.1, fun i hi => h.2 i (List.mem_append_right _ hi)⟩)
        (hr.imp_right fun ⟨ha, h⟩ => ⟨hh.ahead_lt ha h.left, h.right⟩)
      have hj : Sound L ls₁ j := by
        rcases hs with hL | h
        · exact .inl hL
        · exact hl.imp_right fun hl => ⟨hl.1, fun i hi => h.2 i (List.mem_append_left _ hi)⟩
      exact ⟨(hh.trace hj hrj).1.append ht, (hh.trace hj hrj).2⟩

/-! ### Calls and scripts -/

/-- **A call in range that comes to its end is a trace with its journal.** -/
theorem perform_trace (bound : Nat) (c : Call δ α υ) {r : Except Fault c.Answer}
    (h : perform handler bound c m = some (r, m'))
    (hs : Smooth (β := Unit) L (.ok ()) (journal handler bound c m))
    (hr : Ranged W m (journal handler bound c m)) :
    Trace handler L W m (journal handler bound c m) m' :=
  ((perform_moves bound c [] m r m' h).trace
    (hs.imp_right fun h => ⟨List.forall_mem_nil _, h.2⟩) hr).1

/-- **A script in range that comes to its end is a trace with its journal.** -/
theorem exec_trace {bound : Nat} {x : Script (interface δ α υ) β} {r : Except Fault β}
    (h : x.exec (perform handler bound) m = some (r, m'))
    (hs : Smooth (β := Unit) L (.ok ()) (chronicle handler bound x m))
    (hr : Ranged W m (chronicle handler bound x m)) :
    Trace handler L W m (chronicle handler bound x m) m' :=
  ((exec_moves bound x [] m r m' h).trace
    (hs.imp_right fun h => ⟨List.forall_mem_nil _, h.2⟩) hr).1

end Trace

end Machine

end DmaMachine
