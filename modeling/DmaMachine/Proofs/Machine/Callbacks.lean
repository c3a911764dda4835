import DmaMachine.Proofs.Machine.Levels

/-!
# Whose callback it is

The journal of a machine does not say what an action is invoked for, but it says which events were
taken out to be fired, and by which of the runs under way.  So the invocation of an action is a call
of the task that the innermost run fired last.

* `Registration`: a registration with all that its client gave.
* `underway`: what the runs under way fired last, the innermost first.
* `callsOf`: the calls of a task, each with how late it was and the time.
* `Move.matches`: **the levels of a machine and its journal agree** on what is being called.
-/

namespace DmaMachine

deriving instance DecidableEq for Task

namespace Machine

variable {δ α υ : Type} {m m' : Machine δ α υ}

/-- A registration: its handle, and what its client gave. -/
structure Registration (α : Type) where
  handle : PeriodicHandle
  name : String
  period : Nat
  action : α

/-- The task of the registration's events. -/
def Registration.task (g : Registration α) : Task α := .periodic g.handle g.name g.period g.action

/-- What the runs under way fired last, after one more item. -/
def Item.under (ts : List (Option (Task α))) : Item δ α υ → List (Option (Task α))
  | .began (.run _) _ | .began .runToNext _ => none :: ts
  | .ended (.run _) _ _ | .ended .runToNext _ _ => ts.tail
  | .fired e _ _ =>
      match ts with
      | [] => []
      | _ :: ts => some e.task :: ts
  | _ => ts

theorem under_began {c : Call δ α υ} (hc : c.Fires) (ts : List (Option (Task α)))
    (m : Machine δ α υ) : (Item.began c m).under ts = none :: ts := by
  cases c <;> first | rfl | cases hc

theorem under_ended {c : Call δ α υ} (hc : c.Fires) (ts : List (Option (Task α)))
    (r : Except Fault c.Answer) (m : Machine δ α υ) : (Item.ended c r m).under ts = ts.tail := by
  cases c <;> first | rfl | cases hc

theorem under_call (c : Call δ α υ) (ts : List (Option (Task α))) (r : Except Fault c.Answer)
    (m m' : Machine δ α υ) : [Item.began c m, .ended c r m'].foldl Item.under ts = ts := by
  cases c <;> rfl

/-- What the runs under way fired last, the innermost first. -/
def underway (j : Journal δ α υ) : List (Option (Task α)) := j.foldl Item.under []

theorem underway_append (j k : Journal δ α υ) :
    underway (j ++ k) = k.foldl Item.under (underway j) := List.foldl_append

/-- The registration that a run is catching up with. -/
def Doing.task? : Doing α → Option (Task α)
  | .catching h name period action _ _ => some (.periodic h name period action)
  | _ => none

@[simp] theorem Doing.task?_after {β : Type} (r : Except Fault β) :
    (Doing.after r : Doing α).task? = none := by
  cases r <;> rfl

/-- A run that catches up with a registration has fired its task last. -/
def Matches (ls : List (Level δ α υ)) (ts : List (Option (Task α))) : Prop :=
  List.Forall₂ (fun l t => ∀ s, l.doing.task? = some s → t = some s) ls ts

theorem Matches.ne_nil {ls : List (Level δ α υ)} {ts : List (Option (Task α))}
    (h : Matches ls ts) (hl : ls ≠ []) : ts ≠ [] := by
  cases h with
  | nil => exact absurd rfl hl
  | cons => exact List.cons_ne_nil _ _

theorem Matches.head {l : Level δ α υ} {ls : List (Level δ α υ)} {ts : List (Option (Task α))}
    (h : Matches (l :: ls) ts) {s : Task α} (hs : l.doing.task? = some s) :
    ts.head? = some (some s) := by
  cases h with
  | cons ht _ => rw [ht s hs]; rfl

/-- A run that catches up with a registration is under way with its task. -/
theorem Matches.mem {ls : List (Level δ α υ)} {ts : List (Option (Task α))} (h : Matches ls ts)
    {l : Level δ α υ} (hl : l ∈ ls) {s : Task α} (hs : l.doing.task? = some s) : some s ∈ ts := by
  induction h with
  | nil => cases hl
  | cons ht _ ih =>
      rcases List.mem_cons.1 hl with rfl | hl
      · rw [ht s hs]
        exact .head _
      · exact .tail _ (ih hl)

/-- **The levels of a machine and its journal agree** on what is being called. -/
theorem Move.matches [Board δ] {handler : Handler δ α υ} {ls ls' : List (Level δ α υ)}
    {j : Journal δ α υ} {ts : List (Option (Task α))} (h : Matches ls ts)
    (hm : Move handler ls m j ls' m') : Matches ls' (j.foldl Item.under ts) := by
  cases hm with
  | call =>
      rw [under_call]
      exact h
  | idle => exact h
  | began hc =>
      rw [List.foldl_cons, under_began hc]
      exact .cons nofun h
  | service | resume =>
      cases h with
      | cons _ h => exact .cons (by simp) h
  | client =>
      cases h with
      | cons _ h => exact .cons nofun h
  | periodic _ he =>
      cases h with
      | cons _ h =>
          refine .cons (fun s hs => ?_) h
          rw [he]
          exact hs
  | next =>
      cases h with
      | cons ht h => exact .cons ht h
  | rearm =>
      cases h with
      | cons _ h => exact .cons (by simp) h
  | lapsed | failed | drained =>
      cases h with
      | cons _ h => exact .cons nofun h
  | ended hc | aborted hc =>
      rw [List.foldl_cons, under_ended hc]
      cases h with
      | cons _ h => exact h

theorem Moves.matches [Board δ] {handler : Handler δ α υ} {ls : List (Level δ α υ)}
    {j : Journal δ α υ} (hm : Moves handler [] m j ls m') : Matches ls (underway j) :=
  hm.preserves (h := []) (J := fun ls h _ => Matches ls (underway h))
    (fun h hm => underway_append .. ▸ hm.matches h) .nil

section Calls

variable [DecidableEq α]

/-- The item as a call of a task, with how late it is and the time. -/
def Item.callOf (t : Task α) (ts : List (Option (Task α))) : Item δ α υ → List (Nat × Nat)
  | .invoked _ late m => if ts.head? = some (some t) then [(late, m.timeline.now)] else []
  | _ => []

/-- The calls of a task in a journal, given what the runs under way fired last before it. -/
def callsOf (t : Task α) : List (Option (Task α)) → Journal δ α υ → List (Nat × Nat)
  | _, [] => []
  | ts, i :: j => i.callOf t ts ++ callsOf t (i.under ts) j

theorem callsOf_append (t : Task α) (j k : Journal δ α υ) : ∀ ts,
    callsOf t ts (j ++ k) = callsOf t ts j ++ callsOf t (j.foldl Item.under ts) k := by
  induction j with
  | nil => exact fun _ => rfl
  | cons i j ih => simp [callsOf, ih]

theorem callsOf_invoked (t s : Task α) (ts : List (Option (Task α))) (action : α) (late : Nat)
    (m : Machine δ α υ) : callsOf t (some s :: ts) [.invoked action late m] =
      if s = t then [(late, m.timeline.now)] else [] := by
  simp [callsOf, Item.callOf]

theorem callsOf_fired (t : Task α) (s : Option (Task α)) (ts : List (Option (Task α)))
    (e : Event (Task α)) (late : Nat) (action : α) (m : Machine δ α υ) :
    callsOf t (s :: ts) [.fired e late m, .invoked action late m] =
      if e.task = t then [(late, m.timeline.now)] else [] := by
  simp [callsOf, Item.callOf, Item.under]

end Calls

end Machine

end DmaMachine
