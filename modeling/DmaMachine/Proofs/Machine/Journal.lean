import DmaMachine.Machine.Call

/-!
# Journals

The *journal* of a call lists, in order, what happens while it is carried out: the calls that
begin and end, those of callbacks included, the events that are taken out to be fired, and the
actions that are invoked, each with the machine at that moment.

A journal is computed along with the run: wherever a part has to be carried out to know what comes
next, it is the run's own part that is carried out.

* `Machine.journal`: the journal of a call.
* `Machine.chronicle`: the journal of a script.
-/

namespace DmaMachine

namespace Machine

variable {δ α υ β : Type}

/-- One entry of a journal, with the machine at that moment. -/
inductive Item (δ α υ : Type) where
  | began (c : Call δ α υ) (m : Machine δ α υ)
  | ended (c : Call δ α υ) (r : Except Fault c.Answer) (m : Machine δ α υ)
  /-- The event was taken out, and fires this late. -/
  | fired (e : Event (Task α)) (late : Nat) (m : Machine δ α υ)
  /-- The script of the action begins. -/
  | invoked (action : α) (late : Nat) (m : Machine δ α υ)

def Item.machine : Item δ α υ → Machine δ α υ
  | .began _ m | .ended _ _ m | .fired _ _ m | .invoked _ _ m => m

/-- The items of a journal. -/
abbrev Journal (δ α υ : Type) := List (Item δ α υ)

namespace Journal

/-- The property holds of every item, together with what came before it. -/
def Throughout (P : Journal δ α υ → Item δ α υ → Prop) (j : Journal δ α υ) : Prop :=
  ∀ k i l, j = k ++ i :: l → P k i

theorem throughout_nil (P : Journal δ α υ → Item δ α υ → Prop) : Throughout P [] :=
  fun _ _ _ h => by simp at h

theorem Throughout.left {P : Journal δ α υ → Item δ α υ → Prop} {j k : Journal δ α υ}
    (h : Throughout P (j ++ k)) : Throughout P j := fun a i l hj => h a i (l ++ k) (by simp [hj])

/-- The first item of what follows. -/
theorem Throughout.head {P : Journal δ α υ → Item δ α υ → Prop} {j k : Journal δ α υ}
    (h : Throughout P (j ++ k)) : ∀ i ∈ k.head?, P j i := by
  cases k with
  | nil => simp
  | cons x k =>
      intro i hi
      cases Option.some.inj hi
      exact h j x k rfl

theorem throughout_snoc {P : Journal δ α υ → Item δ α υ → Prop} {j : Journal δ α υ}
    {i : Item δ α υ} : Throughout P (j ++ [i]) ↔ Throughout P j ∧ P j i := by
  refine ⟨fun h => ⟨fun k x l hk => h k x (l ++ [i]) (by simp [hk]), h j i [] rfl⟩,
    fun ⟨hj, hi⟩ k x l hk => ?_⟩
  -- The item is the last one, or it is one of those before.
  rcases l.eq_nil_or_concat with rfl | ⟨l, y, rfl⟩
  · obtain ⟨rfl, hx⟩ := List.append_inj' hk rfl
    cases hx
    exact hi
  · rw [List.concat_eq_append, ← List.cons_append, ← List.append_assoc] at hk
    exact hj k x l (List.append_inj' hk rfl).1

theorem throughout_pair {P : Journal δ α υ → Item δ α υ → Prop} {j : Journal δ α υ}
    {i i' : Item δ α υ} :
    Throughout P (j ++ [i, i']) ↔ Throughout P j ∧ P j i ∧ P (j ++ [i]) i' := by
  rw [List.append_cons, throughout_snoc, throughout_snoc, and_assoc]

theorem throughout_iff {P : Journal δ α υ → Item δ α υ → Prop} {j : Journal δ α υ} :
    Throughout P j ↔ ∀ n, ∀ h : n < j.length, P (j.take n) j[n] := by
  refine ⟨fun h n hn => h _ _ (j.drop (n + 1)) ?_, fun h k i l hj => ?_⟩
  · rw [← List.drop_eq_getElem_cons hn, List.take_append_drop]
  · subst hj
    simpa using h k.length (by simp)

instance {P : Journal δ α υ → Item δ α υ → Prop} [∀ k i, Decidable (P k i)]
    (j : Journal δ α υ) : Decidable (Throughout P j) := decidable_of_iff _ throughout_iff.symm

/-- What comes after a run that succeeds. -/
def after (x : Run (Machine δ α υ) β) (k : β → Machine δ α υ → Journal δ α υ)
    (m : Machine δ α υ) : Journal δ α υ :=
  match x m with
  | some (.ok b, m) => k b m
  | _ => []

theorem after_of_ok {x : Run (Machine δ α υ) β} {k : β → Machine δ α υ → Journal δ α υ}
    {m m' : Machine δ α υ} {b : β} (h : x m = some (.ok b, m')) : after x k m = k b m' := by
  rw [after, h]

theorem after_of_error {x : Run (Machine δ α υ) β} {k : β → Machine δ α υ → Journal δ α υ}
    {m m' : Machine δ α υ} {e : Fault} (h : x m = some (.error e, m')) : after x k m = [] := by
  rw [after, h]

/-- A call, with what happens inside. -/
def enclosed (c : Call δ α υ) (x : Run (Machine δ α υ) c.Answer)
    (inside : Machine δ α υ → Journal δ α υ) (m : Machine δ α υ) : Journal δ α υ :=
  .began c m :: (inside m ++
    match x m with
    | none => []
    | some (r, m) => [.ended c r m])

/-- The calls of a script, each with its own journal. -/
def ofScript {I : Interface} (perform : (c : I.Call) → Run (Machine δ α υ) (I.Answer c))
    (record : I.Call → Machine δ α υ → Journal δ α υ) :
    Script I β → Machine δ α υ → Journal δ α υ
  | .done _, _ | .fail _, _ => []
  | .ask c next, m =>
      record c m ++
        match perform c m with
        | none => []
        | some (answer, m) => ofScript perform record (next answer) m

/-- The invocations of a registration that catches up. -/
def ofCatchUp (execute : Nat → Run (Machine δ α υ) Unit)
    (invocation : Nat → Machine δ α υ → Journal δ α υ) (h : PeriodicHandle) (period : Nat) :
    Nat → Nat → Machine δ α υ → Journal δ α υ
  | n, late, m =>
      invocation late m ++
        after (execute late) (fun _ m =>
          if m.isRegistered h then
            match n with
            | 0 => []
            | n + 1 => ofCatchUp execute invocation h period n (late - period) m
          else []) m

/-- What an event of the machine does. -/
def ofTask (execute : α → Nat → Run (Machine δ α υ) Unit)
    (invocation : α → Nat → Machine δ α υ → Journal δ α υ) :
    Task α → Nat → Machine δ α υ → Journal δ α υ
  | .service, _, _ | .resume .., _, _ => []
  | .periodic h _ period action, late, m =>
      ofCatchUp (execute action) (invocation action) h period (late / period) late m
  | .client action, late, m => invocation action late m

section Run

variable (fire : Task α → Nat → Run (Machine δ α υ) Unit)
  (callback : Task α → Nat → Machine δ α υ → Journal δ α υ)

/-- The events that are due, each with what it does. -/
def ofFireDue (target : Nat) : Nat → Machine δ α υ → Journal δ α υ
  | 0, _ => []
  | bound + 1, m =>
      match m.timeline.popDue target with
      | none => []
      | some (e, t) =>
          let late := target - e.triggerAt
          let m := Host.setTimeline t m
          .fired e late m :: (callback e.task late m ++
            after (fire e.task late) (fun _ m => ofFireDue target bound m) m)

def ofAdvance (bound n : Nat) (m : Machine δ α υ) : Journal δ α υ :=
  let target := Timeline.wrap (m.timeline.now + n)
  ofFireDue fire callback target bound (Host.setNow target m)

def ofDrain (bound : Nat) : Nat → Machine δ α υ → Journal δ α υ
  | 0, _ => []
  | n + 1, m =>
      match takeStolen m with
      | (0, _) => []
      | (stolen + 1, m) =>
          ofAdvance fire callback bound (stolen + 1) m ++
            after (Host.advance fire bound (stolen + 1)) (fun _ m => ofDrain bound n m) m

def ofRun (bound cycles : Nat) (m : Machine δ α υ) : Journal δ α υ :=
  ofAdvance fire callback bound cycles m ++
    after (Host.advance fire bound cycles) (fun _ m => ofDrain fire callback bound bound m) m

def ofRunToNext (bound : Nat) (m : Machine δ α υ) : Journal δ α υ :=
  match m.timeline.untilNext? with
  | none => []
  | some cycles => ofRun fire callback bound cycles m

end Run

end Journal

open Journal

/-- What a client's action does, under a bound. -/
def execute [Board δ] (handler : Handler δ α υ) (bound : Nat) (action : α) (late : Nat) :
    Run (Machine δ α υ) Unit :=
  (handler action late).exec (perform handler bound)

/-- What happens between the beginning and the end of a call. -/
def inside [Board δ] (handler : Handler δ α υ) :
    Nat → Call δ α υ → Machine δ α υ → Journal δ α υ
  | bound + 1, .run cycles =>
      ofRun (fire (execute handler bound))
        (ofTask (execute handler bound) fun action late m =>
          .invoked action late m :: ofScript (I := interface δ α υ) (perform handler bound)
            (fun c => enclosed c (perform handler bound c) (inside handler bound c))
            (handler action late) m)
        (bound + 1) cycles
  | bound + 1, .runToNext =>
      ofRunToNext (fire (execute handler bound))
        (ofTask (execute handler bound) fun action late m =>
          .invoked action late m :: ofScript (I := interface δ α υ) (perform handler bound)
            (fun c => enclosed c (perform handler bound c) (inside handler bound c))
            (handler action late) m)
        (bound + 1)
  | _, _ => fun _ => []

/-- The journal of a call. -/
def journal [Board δ] (handler : Handler δ α υ) (bound : Nat) (c : Call δ α υ) :
    Machine δ α υ → Journal δ α υ :=
  enclosed c (perform handler bound c) (inside handler bound c)

/-- The journal of a script. -/
def chronicle [Board δ] (handler : Handler δ α υ) (bound : Nat) :
    Script (interface δ α υ) β → Machine δ α υ → Journal δ α υ :=
  ofScript (I := interface δ α υ) (perform handler bound) (journal handler bound)

/-- The journal of a client's action. -/
def invocation [Board δ] (handler : Handler δ α υ) (bound : Nat) (action : α) (late : Nat)
    (m : Machine δ α υ) : Journal δ α υ :=
  .invoked action late m :: chronicle handler bound (handler action late) m

end Machine

end DmaMachine
