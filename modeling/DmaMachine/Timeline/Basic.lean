import DmaMachine.Op
import DmaMachine.Text.Quoted

/-!
# The timeline

One clock and one table of pending events keep every part of the machine in step.  An *event*
carries a *task*, and is due when the clock reaches its trigger.  The table is bounded, and it is
kept in firing order: by trigger, and among equal triggers by identifier, which grows with every
event made.

Times have 64 bits.  A sum of times is taken as it comes, without a look at its carry, so one that
does not fit *wraps* around (`Timeline.wrap`): an event that is made with a long enough delay
triggers before it was made, and a clock that is moved far enough shows less than before.  What is
proved of times says where it needs that none of this happens.

Identifiers have 64 bits in the machine as well, and are counted without a bound here.  The two
agree as long as the next identifier is below `UInt64.size`.

* `Timeline.schedule`, `Timeline.deschedule`, `Timeline.popDue`: the table's three changes.
* `Event.Before` is the firing order, and `Ordered` says that a table is in it; `ordered_insert`
  says that insertion keeps it.
* `Event.Unwrapped` says that an event does not trigger before it was made; `unwrapped_made_iff`
  says that this is so exactly if its trigger did not wrap around.
-/

namespace DmaMachine

/-- A pending event with its task.  Times are counted in processor cycles. -/
structure Event (τ : Type) where
  /-- The event's identifier, never used twice. -/
  id : Nat
  name : String
  /-- The clock when the event was made. -/
  registeredAt : Nat
  /-- The clock from which on the event is due. -/
  triggerAt : Nat
  task : τ

/-- The clock, the next identifier, and the pending events in firing order. -/
structure Timeline (τ : Type) where
  now : Nat := 0
  nextId : Nat := 0
  events : List (Event τ) := []

variable {τ : Type}

namespace Event

/-- The event does not trigger before it was made. -/
def Unwrapped (e : Event τ) : Prop := e.registeredAt ≤ e.triggerAt

instance (e : Event τ) : Decidable e.Unwrapped :=
  inferInstanceAs (Decidable (e.registeredAt ≤ e.triggerAt))

/-- Whether `d` fires before `e`. -/
def Before (d e : Event τ) : Prop :=
  d.triggerAt < e.triggerAt ∨ (d.triggerAt = e.triggerAt ∧ d.id < e.id)

/-- Puts an event in front of the first that triggers later. -/
def insert (e : Event τ) : List (Event τ) → List (Event τ)
  | [] => [e]
  | d :: ds => if e.triggerAt < d.triggerAt then e :: d :: ds else d :: insert e ds

theorem Before.trans {a b c : Event τ} (h : Before a b) (h' : Before b c) : Before a c := by
  unfold Before at *
  omega

/-! ### Insertion -/

theorem perm_insert (e : Event τ) (es : List (Event τ)) : (insert e es).Perm (e :: es) := by
  induction es with
  | nil => exact .refl _
  | cons d ds ih =>
      rw [insert]
      split
      · exact .refl _
      · exact (ih.cons d).trans (.swap e d ds)

@[simp] theorem mem_insert {d e : Event τ} {es : List (Event τ)} :
    d ∈ insert e es ↔ d = e ∨ d ∈ es :=
  (perm_insert e es).mem_iff.trans List.mem_cons

@[simp] theorem length_insert (e : Event τ) (es : List (Event τ)) :
    (insert e es).length = es.length + 1 := (perm_insert e es).length_eq

/-- A list in firing order. -/
def Ordered (es : List (Event τ)) : Prop := es.Pairwise Before

/-- **A new event keeps the firing order**: one whose identifier is above all others comes after
those with its trigger. -/
theorem ordered_insert {e : Event τ} {es : List (Event τ)} (h : Ordered es)
    (hid : ∀ d ∈ es, d.id < e.id) : Ordered (insert e es) := by
  induction es with
  | nil => exact List.pairwise_singleton _ _
  | cons d ds ih =>
      obtain ⟨hd, hds⟩ := List.pairwise_cons.1 h
      rw [insert]
      split
      · rename_i hlt
        exact List.pairwise_cons.2 ⟨fun x hx => by
          rcases List.mem_cons.1 hx with rfl | hx
          · exact .inl hlt
          · exact Before.trans (.inl hlt) (hd x hx), h⟩
      · rename_i hge
        refine List.pairwise_cons.2 ⟨fun x hx => ?_,
          ih hds fun x hx => hid x (List.mem_cons_of_mem _ hx)⟩
        rcases mem_insert.1 hx with rfl | hx
        · have := hid d List.mem_cons_self
          unfold Before
          omega
        · exact hd x hx

end Event

namespace Timeline

/-! ### Sums of times -/

/-- A sum of times as 64 bits hold it: a carry is lost. -/
def wrap (n : Nat) : Nat := n % UInt64.size

theorem wrap_of_lt {n : Nat} (h : n < UInt64.size) : wrap n = n := Nat.mod_eq_of_lt h

theorem wrap_lt (n : Nat) : wrap n < UInt64.size := Nat.mod_lt n (by decide)

theorem wrap_le (n : Nat) : wrap n ≤ n := Nat.mod_le ..

theorem wrap_eq_iff {n : Nat} : wrap n = n ↔ n < UInt64.size :=
  ⟨fun h => h ▸ wrap_lt n, wrap_of_lt⟩

@[simp] theorem wrap_wrap_add (a b : Nat) : wrap (wrap a + b) = wrap (a + b) := Nat.mod_add_mod ..

@[simp] theorem wrap_add_wrap (a b : Nat) : wrap (a + wrap b) = wrap (a + b) := Nat.add_mod_mod ..

/-- Adding to a time gives no earlier one exactly if the sum fits. -/
theorem le_wrap_add_iff {now delay : Nat} (hn : now < UInt64.size) (hd : delay < UInt64.size) :
    now ≤ wrap (now + delay) ↔ now + delay < UInt64.size := by
  by_cases h : now + delay < UInt64.size
  · simp [wrap_of_lt h, h]
  · have hw : wrap (now + delay) = now + delay - UInt64.size := by
      rw [wrap, Nat.mod_eq_sub_mod (Nat.le_of_not_lt h), Nat.mod_eq_of_lt (by omega)]
    omega

/-! ### The table -/

/-- The most events that can be pending. -/
def capacity : Nat := 60

def isFull (t : Timeline τ) : Bool := decide (capacity ≤ t.events.length)

/-- Makes an event that is due `delay` cycles from now, and gives its identifier.  The trigger may
wrap around. -/
def schedule (name : String) (delay : Nat) (task : τ) : Op (Timeline τ) Nat := fun t =>
  if t.isFull then .error (.tableFull capacity) t
  else
    .ok t.nextId { t with
      nextId := t.nextId + 1
      events := Event.insert ⟨t.nextId, name, t.now, wrap (t.now + delay), task⟩ t.events }

/-- Whether an event is pending. -/
def isScheduled (t : Timeline τ) (id : Nat) : Bool := t.events.any (·.id == id)

/-- Takes an event out of the table; says whether it was pending. -/
def deschedule (id : Nat) (t : Timeline τ) : Bool × Timeline τ :=
  (t.isScheduled id, { t with events := t.events.eraseP (·.id == id) })

/-- Takes out the first event that is due at `target`. -/
def popDue (target : Nat) (t : Timeline τ) : Option (Event τ × Timeline τ) :=
  match t.events with
  | [] => none
  | e :: es => if e.triggerAt ≤ target then some (e, { t with events := es }) else none

/-- Cycles until the first event is due. -/
def untilNext? (t : Timeline τ) : Option Nat := t.events.head?.map (·.triggerAt - t.now)

/-- Time zero and no events; identifiers go on. -/
def reset (t : Timeline τ) : Timeline τ := { t with now := 0, events := [] }

/-- Sets the clock and drops the events; identifiers go on from the higher of the two. -/
def restore (now : Nat) (nextId : Nat) (t : Timeline τ) : Timeline τ :=
  { now, nextId := max t.nextId nextId }

/-! ### Laws of the table -/

theorem schedule_of_full {t : Timeline τ} (h : capacity ≤ t.events.length) (name : String)
    (delay : Nat) (task : τ) :
    t.schedule name delay task = .error (.tableFull capacity) t := by
  simp [schedule, isFull, h]

theorem schedule_of_room {t : Timeline τ} (h : t.events.length < capacity) (name : String)
    (delay : Nat) (task : τ) :
    t.schedule name delay task = .ok t.nextId { t with
      nextId := t.nextId + 1
      events := Event.insert ⟨t.nextId, name, t.now, wrap (t.now + delay), task⟩ t.events } := by
  simp [schedule, isFull, Nat.not_le_of_lt h]

/-- **An event that is made triggers no earlier than it is made exactly if its trigger fits.** -/
theorem unwrapped_made_iff {now delay : Nat} (hn : now < UInt64.size) (hd : delay < UInt64.size)
    (id : Nat) (name : String) (task : τ) :
    (⟨id, name, now, wrap (now + delay), task⟩ : Event τ).Unwrapped ↔ now + delay < UInt64.size :=
  le_wrap_add_iff hn hd

theorem isScheduled_iff {t : Timeline τ} {id : Nat} :
    t.isScheduled id = true ↔ ∃ e ∈ t.events, e.id = id := by
  simp [isScheduled]

theorem popDue_eq_none_iff {target : Nat} {t : Timeline τ} :
    t.popDue target = none ↔ ∀ e, t.events.head? = some e → target < e.triggerAt := by
  unfold popDue
  cases t.events <;> simp

/-! ### The printed form -/

def describeEvent (e : Event τ) : String :=
  "Event \x7b id: " ++ toString e.id ++ ", name: " ++ Quoted.text e.name ++ ", registered_at: "
    ++ toString e.registeredAt ++ ", trigger_at: " ++ toString e.triggerAt ++ ", .. \x7d"

/-- The timeline on one line, its tasks left out. -/
def describe (t : Timeline τ) : String :=
  "Scheduler \x7b curr_timestamp: " ++ toString t.now ++ ", next_id: " ++ toString t.nextId
    ++ ", events: [" ++ ", ".intercalate (t.events.map describeEvent) ++ "] \x7d"

end Timeline

end DmaMachine
