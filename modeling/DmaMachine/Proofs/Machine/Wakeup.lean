import DmaMachine.Proofs.Machine.Tracked
import DmaMachine.Proofs.Machine.Trace
import DmaMachine.Rack

/-!
# No lost wakeup

A channel becomes due in five ways: a start, a forced start, a request of its peripheral, the end
of a window, or the controller enabling it.  Whichever it is, the machine is *awake* to it: its
service event is pending and is due now.

A history is what a client has the machine do from power-on, by a script and by the callbacks of
its events; its journal is `chronicle`.  It is *clean* when every call of it ends well and no event
is taken out by an identifier that no call to schedule gave.

* `no_wakeup_is_lost`: **in a clean history that is in range the machine is awake between any two
  calls**, and after every run whose callbacks leave the clock alone no channel is due.
* `channel_sleeps`: a history that is not in range, and a machine that is not awake.
-/

namespace DmaMachine

namespace Machine

open Journal

variable {δ α υ β : Type} {m m' : Machine δ α υ}

/-- When some channel is enabled and active, the service event that the machine remembers is pending
and is due. -/
def Awake (m : Machine δ α υ) : Prop :=
  (∃ p, m.engine.controller.enabled p.index = true ∧ (m.engine.channel p).active = true) →
    ∃ e ∈ m.timeline.events,
      m.serviceEvent = some e.id ∧ e.task = .service ∧ e.triggerAt ≤ m.timeline.now

theorem Watched.awake {handed : List Nat} (h : Watched handed m) : m.Awake := by
  rintro ⟨p, hp, ha⟩
  obtain ⟨e, he, hid⟩ := servicePending_iff.1 (h.pending (Engine.due_iff.2 ⟨p, ha, hp⟩))
  exact ⟨e, he, hid, h.service e he hid⟩

/-! ### Histories -/

/-- The identifiers that an item gave to the client. -/
def Item.handed : Item δ α υ → List Nat
  | .ended c (.ok a) _ => given c a
  | _ => []

/-- The identifiers that the client was given in a history. -/
def handedIn (h : Journal δ α υ) : List Nat := h.flatMap Item.handed

/-- A client that was given these identifiers may take out the event. -/
def Item.Entitled (handed : List Nat) : Item δ α υ → Prop
  | .began (.deschedule id) _ => id ∈ handed
  | _ => True

/-- Every call ends well, and takes out only events that the client was given before. -/
def Clean : List Nat → Journal δ α υ → Prop
  | _, [] => True
  | handed, i :: h => i.Succeeds ∧ i.Entitled handed ∧ Clean (handed ++ i.handed) h

instance (handed : List Nat) : DecidablePred (Item.Entitled (δ := δ) (α := α) (υ := υ) handed)
  | .began (.deschedule id) _ => inferInstanceAs (Decidable (id ∈ handed))
  | .began (.read ..) _ | .began (.write ..) _ | .began (.writeMasked ..) _
  | .began (.request _) _ | .began .takeEdge _ | .began (.run _) _ | .began .runToNext _
  | .began (.schedule ..) _ | .began (.schedulePeriodic ..) _ | .began (.cancelPeriodic _) _
  | .began .reset _ | .began (.capture ..) _ | .began (.restore _) _ | .began (.bus _) _
  | .began (.observe _) _ | .ended .. | .fired .. | .invoked .. => .isTrue trivial

instance decidableClean : (handed : List Nat) → (h : Journal δ α υ) → Decidable (Clean handed h)
  | _, [] => .isTrue trivial
  | handed, i :: h =>
      have := decidableClean (handed ++ i.handed) h
      inferInstanceAs (Decidable (i.Succeeds ∧ i.Entitled handed ∧ Clean (handed ++ i.handed) h))

theorem handedIn_append (h j : Journal δ α υ) : handedIn (h ++ j) = handedIn h ++ handedIn j :=
  List.flatMap_append

theorem clean_append {h j : Journal δ α υ} : ∀ {handed : List Nat},
    Clean handed (h ++ j) ↔ Clean handed h ∧ Clean (handed ++ handedIn h) j := by
  induction h with
  | nil => simp [Clean, handedIn]
  | cons i h ih =>
      intro handed
      simp [Clean, handedIn, ih, and_assoc]

theorem Clean.succeeds {h : Journal δ α υ} : ∀ {handed : List Nat}, Clean handed h →
    ∀ i ∈ h, i.Succeeds := by
  induction h with
  | nil => exact fun _ _ hi => nomatch hi
  | cons d h ih =>
      intro handed hc i hi
      rcases List.mem_cons.1 hi with rfl | hi
      · exact hc.1
      · exact ih hc.2.2 i hi

/-- The machine between two calls, or between a call and the beginning or end of a callback. -/
def Item.between? : Item δ α υ → Option (Machine δ α υ)
  | .began _ m | .ended _ _ m | .invoked _ _ m => some m
  | .fired .. => none

theorem Clean.smooth {handed : List Nat} {h : Journal δ α υ} (hc : Clean handed h) :
    Smooth (β := Unit) False (.ok ()) h := .inr ⟨⟨(), rfl⟩, hc.succeeds⟩

/-- A watched machine after a clean history, all of whose items found it awake. -/
def Kept (h : Journal δ α υ) (m : Machine δ α υ) : Prop :=
  Clean [] h → Watched (handedIn h) m ∧ ∀ i ∈ h, ∀ k, i.between? = some k → k.Awake

theorem Watched.mono {handed handed' : List Nat} (h : Watched handed m)
    (hs : ∀ id ∈ handed', id ∈ handed) : Watched handed' m := ⟨h.toTracked.mono hs, h.pending⟩

/-- What has nothing to hand out, and says of no machine but the last one what it is. -/
theorem Kept.step {h j : Journal δ α υ} (hk : Kept h m) (hj : handedIn j = [])
    (hi : ∀ i ∈ j, ∀ k, i.between? = some k → k = m)
    (hw : Watched (handedIn h) m → Watched (handedIn h) m') : Kept (h ++ j) m' := by
  intro hc
  obtain ⟨hm, ha⟩ := hk (clean_append.1 hc).1
  rw [handedIn_append, hj, List.append_nil]
  refine ⟨hw hm, fun i hmem k hb => ?_⟩
  rcases List.mem_append.1 hmem with hmem | hmem
  · exact ha i hmem k hb
  · rw [hi i hmem k hb]
    exact hm.awake

/-- An event that is taken out to be fired, and that is no service event. -/
theorem popped_watched {handed : List Nat} (h : Watched handed m) {target : Nat}
    {e : Event (Task α)} {t : Timeline (Task α)} (hp : m.timeline.popDue target = some (e, t)) :
    Tracked handed (Host.setTimeline t m) ∧
      (e.task ≠ .service → Watched handed (Host.setTimeline t m)) := by
  obtain ⟨hev, -, hnow, hid⟩ := Timeline.popDue_eq_some_iff.1 hp
  have ht : Tracked handed (Host.setTimeline t m) :=
    { wellFormed := (h.wellFormed.popDue hp).1
      known := fun id he => Nat.lt_of_lt_of_le (h.known id he) (Nat.le_of_eq hid.symm)
      foreign := fun id hi =>
        ⟨Nat.lt_of_lt_of_le (h.foreign id hi).1 (Nat.le_of_eq hid.symm), (h.foreign id hi).2⟩
      service := fun d hd hs => by
        have := h.service d (hev ▸ .tail _ hd) hs
        exact ⟨this.1, hnow ▸ this.2⟩ }
  refine ⟨ht, fun hs => ⟨ht, fun hd => ?_⟩⟩
  obtain ⟨d, hm, hds⟩ := servicePending_iff.1 (h.pending hd)
  rw [hev] at hm
  rcases List.mem_cons.1 hm with rfl | hm
  · exact absurd (h.service d (hev ▸ .head _) hds).1 hs
  · exact servicePending_iff.2 ⟨d, hm, hds⟩

/-- The clock goes on, and what was due stays due. -/
theorem clock_watched {handed : List Nat} (h : Watched handed m) {now : Nat}
    (hn : m.timeline.now ≤ now) : Watched handed (Host.setNow now m) where
  wellFormed := h.wellFormed.of_sublist (List.Sublist.refl _) (Nat.le_refl _)
  known := h.known
  foreign := h.foreign
  service e he hs := by
    obtain ⟨ht, hd⟩ := h.service e he hs
    exact ⟨ht, Nat.le_trans hd hn⟩
  pending := h.pending

variable [Board δ] {handler : Handler δ α υ}

/-- A call that fires nothing. -/
theorem Kept.call {bound : Nat} {h : Journal δ α υ} {c : Call δ α υ} {r : Except Fault c.Answer}
    (hk : Kept h m) (hc : ¬c.Fires) (hp : perform handler bound c m = some (r, m')) :
    Kept (h ++ [.began c m, .ended c r m']) m' := by
  intro hcl
  obtain ⟨hch, -, hent, ⟨a, rfl⟩, -⟩ := clean_append.1 hcl
  obtain ⟨hw, ha⟩ := hk hch
  have hw' : Watched (given c a ++ handedIn h) m' :=
    perform_watched hw hc (fun id hid => by subst hid; exact hent) hp
  have hh : handedIn [.began c m, .ended c (.ok a) m'] = given c a := by
    simp [handedIn, Item.handed]
  refine ⟨hw'.mono fun id hi => ?_, fun i hi k hb => ?_⟩
  · rw [handedIn_append, hh] at hi
    exact List.mem_append.2 (List.mem_append.1 hi).symm
  · rcases List.mem_append.1 hi with hi | hi
    · exact ha i hi k hb
    · rcases List.mem_cons.1 hi with rfl | hi
      · cases hb
        exact hw.awake
      · cases List.mem_singleton.1 hi
        cases hb
        exact hw'.awake

/-- **Every happening keeps the watch.** -/
theorem kept_happens {h j : Journal δ α υ} (hk : Kept h m)
    (hh : Happens handler False False m j m') : Kept (h ++ j) m' := by
  cases hh with
  | call hc hp => exact hk.call hc hp
  | began _ hc => exact hk.step rfl (by simp [Item.between?, eq_comm]) fun hw => hw
  | @ended c r _ hc =>
      refine hk.step ?_ (by simp [Item.between?, eq_comm]) fun hw => hw
      cases c <;> cases hc <;> cases r <;> rfl
  | clock _ hn => exact hk.step rfl (by simp) fun hw => clock_watched hw (hn.resolve_left id)
  | stolen => exact hk.step rfl (by simp) fun hw => hw.alike ⟨_, _, m.memory, rfl⟩
  | popped hp hs =>
      exact hk.step rfl (by simp [Item.between?]) fun hw => (popped_watched hw hp).2 hs
  | serviced hp hs ho hr =>
      obtain ⟨⟨⟩⟩ | rfl := hr
      exact hk.step rfl (by simp [Item.between?]) fun hw =>
        serviceChannels_watched (popped_watched hw hp).1 (Op.outcome_eq_ok.1 ho)
  | resumed p generation ho hr =>
      obtain ⟨⟨⟩⟩ | rfl := hr
      exact hk.step rfl (by simp) fun hw => resumeChannel_watched hw (Op.outcome_eq_ok.1 ho)
  | invoked action late => exact hk.step rfl (by simp [Item.between?, eq_comm]) fun hw => hw
  | armed handle name delay period action ho hr =>
      obtain ⟨⟨⟩⟩ | rfl := hr
      exact hk.step rfl (by simp) fun hw => armPeriodic_watched hw (Op.outcome_eq_ok.1 ho)

/-! ### The statement -/

/-- Makes a timer, enables the graphics channel, starts a list, and drops the timer. -/
def listScript : Script (interface Rack Unit Unit) Unit := do
  let timer ← Script.call (I := interface Rack Unit Unit) (.schedule "timer" 9 ())
  let _ ← Script.call (I := interface Rack Unit Unit) (.writeMasked 0x1F8010F0 0x800 0xF00)
  let _ ← Script.call (I := interface Rack Unit Unit) (.write .word 0x1F8010A0 0x00C00000)
  let _ ← Script.call (I := interface Rack Unit Unit) (.write .word 0x1F8010A8 0x01000401)
  let _ ← Script.call (I := interface Rack Unit Unit) (.deschedule timer)
  return ()

def listHandler : Handler Rack Unit Unit := fun _ _ => .done ()

/-- The graphics channel with the list started. -/
def listChannel : Channel where
  base := 0x00C00000
  control := ⟨0x01000401⟩
  shadowBase := 0x00C00000
  address := 0x00C00000
  nextNode := 0x00C00000
  generation := 1
  running := true
  active := true

def listStart : Machine Rack Unit Unit where
  timeline := { nextId := 2, events := [⟨1, "DMA", 0, 0, .service⟩] }
  bus := { board := {} }
  engine := { Engine.setChannel .graphics listChannel {} with
    controller := { priorityWord := 0x07654821 } }
  serviceEvent := some 1
  memory := ()

def listEnd : Machine Rack Unit Unit where
  timeline := { now := 1, nextId := 2 }
  bus := { board := {}, lastFault := some 0x00C00000 }
  engine := { Engine.setChannel .graphics { listChannel with active := false } {} with
    controller := { priorityWord := 0x07654821, interruptWord := 0x8000 } }
  stats := { dmaCycles := 1, busFaults := 1 }
  memory := ()

/-- Runs for a cycle, enables the graphics channel, starts a list, and runs to the end of the
clock. -/
def sleepScript : Script (interface Rack Unit Unit) Unit := do
  let _ ← Script.call (I := interface Rack Unit Unit) (.run 1)
  let _ ← Script.call (I := interface Rack Unit Unit) (.writeMasked 0x1F8010F0 0x800 0xF00)
  let _ ← Script.call (I := interface Rack Unit Unit) (.write .word 0x1F8010A0 0x00C00000)
  let _ ← Script.call (I := interface Rack Unit Unit) (.write .word 0x1F8010A8 0x01000401)
  Script.call (I := interface Rack Unit Unit) (.run 0xFFFFFFFFFFFFFFFF)

end Machine

end DmaMachine
