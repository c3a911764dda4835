import DmaMachine.Proofs.Machine.Lockstep
import DmaMachine.Proofs.Machine.Snapshots

/-!
# Machines that go on from a snapshot

A snapshot has not all of a machine in it: what channels hold besides their registers, generations,
slots, remembered identifiers and statistics are left out.  When the machine is *at rest*, with
nothing pending and no channel started, none of that matters any more.

* `AtRest`: the machine is at rest.
* `resumption`: how what belongs to the machine is rendered for one that is restored from its
  snapshot, where channels and slots count their generations from zero again.
* `mirrors_restored`: **a new machine that is restored from the snapshot of a machine at rest
  mirrors it.**
* `restored_resumes`: **whatever is done then comes to the same on both.**
-/

namespace DmaMachine

namespace Control

/-- A flag that is set to what it is. -/
theorem set_of_has {c : Control} {f : Flag} {on : Bool} (h : c.has f = on) : c.set f on = c :=
  ext_bits fun i hi => by
    rw [bit_set_eq c f on hi]
    split
    · rename_i hf
      rw [hf]
      exact h.symm
    · rfl

/-- A control word without a start is idle. -/
theorem idle_of_clear {c : Control} (hs : c.has .startBusy = false)
    (hf : c.has .forceStart = false) : c.idle = c := by
  rw [idle, set_of_has hs, set_of_has hf]

end Control

namespace Machine

variable {δ α α' υ : Type}

/-- Nothing is pending, no registration is in force, and no channel is started. -/
structure AtRest (m : Machine δ α υ) : Prop where
  events : m.timeline.events = []
  unregistered : ∀ h, m.isRegistered h = false
  stopped : ∀ p, (m.engine.channel p).running = false
  unstarted : ∀ p, (m.engine.channel p).control.has .startBusy = false
  unforced : ∀ p, (m.engine.channel p).control.has .forceStart = false
  pendingCycles : m.bus.pendingCycles = 0
  exception : m.bus.exception = false
  edge : m.engine.controller.edge = false

/-- How what belongs to a machine is rendered for one that goes on from its snapshot, given how its
client's actions are. -/
def resumption (action : α → α') (m : Machine δ α υ) : Rendering α α' where
  action := action
  channel p := (m.engine.channel p).generation
  slot i := (slotAt m.slots i).generation
  firstId := m.timeline.nextId

variable {m : Machine δ α υ}

/-- No slot has an owner. -/
theorem AtRest.slot (h : m.AtRest) (i : Nat) : (slotAt m.slots i).event = none := by
  have hr := h.unregistered ⟨i, (slotAt m.slots i).generation⟩
  rw [isRegistered_eq] at hr
  simpa using hr

variable [Board δ] {past : Handler δ α υ} {j : Journal δ α υ} {ls : List (Level δ α υ)} {board : δ}
  {memory : υ}

/-- **A new machine that is restored from the snapshot of a machine at rest mirrors it.** -/
theorem mirrors_restored (hm : Moves past [] (initial board memory) j ls m) (h : m.AtRest)
    (hnow : m.timeline.now < UInt64.size) (hid : m.timeline.nextId < UInt64.size)
    (action : α → α') (label : String) (taken : Timestamp) :
    ∃ t, restore (capture label taken m) (initial m.bus.board m.memory) = .ok () t ∧
      Mirrors (m.resumption action) m t := by
  obtain ⟨ram, hram, hr⟩ := restore_of_fit (capture_fits label taken m)
    (initial m.bus.board m.memory : Machine δ α' υ)
  obtain ⟨hrem, hst⟩ := hm.stamped
  have recalls : ∀ o, (m.resumption action).Recalls (m.eventOf o) none := fun o => by
    cases he : m.eventOf o with
    | none => exact .inl rfl
    | some id => exact .inr ⟨rfl, id, rfl, hrem.lt o id he⟩
  have hram' : ram = m.bus.ram := Ram.ext hram
  refine ⟨_, hr, {
    timeline := ?_
    fresh := fun e he => by
      rw [h.events] at he
      cases he
    firstId_le := Nat.le_refl _
    bus := ⟨none, ?_⟩
    engine := ⟨?_, fun p => ?_⟩
    serviceEvent := recalls .service
    resumeEvents := fun i hi => ?_
    slots := fun i => ?_
    memory := rfl }⟩
  · -- The table is empty, and clock and identifiers go on.
    have ht : m.timeline.map (m.resumption action).task =
        ⟨m.timeline.now, m.timeline.nextId, []⟩ := by
      rw [Timeline.map, h.events, List.map_nil]
    have hn : (capture label taken m).now.toNat = m.timeline.now := UInt64.toNat_ofNat_of_lt' hnow
    have hi : (capture label taken m).nextId.toNat = m.timeline.nextId :=
      UInt64.toNat_ofNat_of_lt' hid
    rw [ht, restored, Timeline.restore, hn, hi]
    exact congrArg (fun id => (⟨m.timeline.now, id, []⟩ : Timeline (Task α'))) (Nat.zero_max _)
  · show (⟨ram, m.bus.board, false, none, 0⟩ : Bus δ) = _
    rw [hram', ← h.exception, ← h.pendingCycles]
  · exact (Controller.ofWords_of_sound hm.sound).trans (by rw [← h.edge])
  · have hp := channel_restored (hst.intact p) label taken ram
      (initial m.bus.board m.memory : Machine δ α' υ)
    have ha : (m.engine.channel p).active = false := by
      have hr := (hst.intact p).running
      rw [h.stopped p] at hr
      simpa using hr
    rw [Control.idle_of_clear (h.unstarted p) (h.unforced p)] at hp
    rw [hp]
    exact ⟨Channel.resembles_of_idle rfl rfl rfl (UInt32.sub_self _).symm (h.stopped p) rfl ha.symm,
      hst.intact p⟩
  · obtain ⟨p, rfl⟩ := Controller.exists_peer hi
    show (m.resumption action).Recalls _ (Vector.replicate channelCount none)[p.index]
    rw [Vector.getElem_replicate]
    exact recalls (.resume p)
  · show ({} : PeriodicSlot) = ⟨_ - _, _⟩
    rw [h.slot i, resumption, UInt32.sub_self]

/-- **A machine that goes on from the snapshot of one at rest behaves like it.**  Whatever scripts
are carried out, with actions that do the same, both end alike: results correspond, faults are the
same, and so is what is seen of the machines, then and at every moment before; if the writes of the
processor keep the modes of running channels.  Handles correspond as long as they are of the same
registration. -/
theorem restored_resumes (hm : Moves past [] (initial board memory) j ls m) (h : m.AtRest)
    (hnow : m.timeline.now < UInt64.size) (hid : m.timeline.nextId < UInt64.size)
    (action : α → α') (label : String) (taken : Timestamp) :
    ∃ t, restore (capture label taken m) (initial m.bus.board m.memory) = .ok () t ∧
      t.view = m.view ∧
      ∀ {β γ : Type} {V : β → γ → Prop} (handler : Handler δ α υ) (handler' : Handler δ α' υ)
        (bound : Nat) (x : Script (interface δ α υ) β) (x' : Script (interface δ α' υ) γ),
        (∀ a late, ScriptTwins (m.resumption action) (· = ·) (handler a late)
          (handler' (action a) late)) →
        ScriptTwins (m.resumption action) V x x' →
        (∀ i ∈ chronicle handler bound x m, i.KeepsModes) →
        Option.Rel (Paired V fun s s' => s'.view = s.view) (x.exec (perform handler bound) m)
            (x'.exec (perform handler' bound) t) ∧
          List.Forall₂ (Item.Mirrors (m.resumption action)) (chronicle handler bound x m)
            (chronicle handler' bound x' t) := by
  obtain ⟨t, ht, hmt⟩ := mirrors_restored hm h hnow hid action label taken
  refine ⟨t, ht, hmt.view, fun handler handler' bound x x' hh hx hk => ?_⟩
  obtain ⟨hr, hj⟩ := exec_lockstep hh bound hx m t hmt hk
  exact ⟨Paired.rel_imp hr fun _ _ hp => ⟨hp.agree, hp.states.view⟩, hj⟩

/-! A list whose first node is at an unmapped address has ended with a bus error; a registration is
made and ended, and the list is given up.  A machine that is restored from a snapshot then knows
nothing of the registration, nor of the list; both are made again on both machines. -/

def quietScript : Script (interface Rack Unit Unit) Unit := do
  let tick ← Script.call (I := interface Rack Unit Unit) (.schedulePeriodic "tick" 9 ())
  let _ ← Script.call (I := interface Rack Unit Unit) (.cancelPeriodic tick)
  let _ ← Script.call (I := interface Rack Unit Unit) (.write .word 0x1F8010A8 0x00000401)
  return ()

/-- The machine at rest. -/
def listRest : Machine Rack Unit Unit where
  timeline := { now := 1, nextId := 3 }
  bus := { board := {}, lastFault := some 0x00C00000 }
  engine := { Engine.setChannel .graphics
      { listChannel with control := ⟨0x401⟩, generation := 2, running := false, active := false }
      {} with
    controller := { priorityWord := 0x07654821, interruptWord := 0x8000 } }
  slots := #[⟨1, none⟩]
  stats := { dmaCycles := 1, busFaults := 1 }
  memory := ()

/-- Registers again, runs the list again, and gives the interrupt word and whether the registration
was in force at the end. -/
def againScript : Script (interface Rack Unit Unit) (UInt32 × Bool) := do
  let tick ← Script.call (I := interface Rack Unit Unit) (.schedulePeriodic "tick" 2 ())
  let _ ← Script.call (I := interface Rack Unit Unit) (.write .word 0x1F8010A8 0x01000401)
  let _ ← Script.call (I := interface Rack Unit Unit) (.run 5)
  let interrupts ← Script.call (I := interface Rack Unit Unit) (.read .word 0x1F8010F4)
  let inForce ← Script.call (I := interface Rack Unit Unit) (.cancelPeriodic tick)
  return (interrupts, inForce)

/-- The script may be carried out on both machines: what it calls corresponds. -/
theorem againScript_twins (o : Rendering Unit Unit) :
    ScriptTwins (δ := Rack) (υ := Unit) o (· = ·) againScript againScript :=
  (Script.Twins.call (.schedulePeriodic "tick" 2 ())).bind fun tick _ ht =>
    (Script.Twins.call (.write .word 0x1F8010A8 0x01000401)).bind fun _ _ _ =>
      (Script.Twins.call (.run 5)).bind fun _ _ _ =>
        (Script.Twins.call (.read .word 0x1F8010F4)).bind fun interrupts _ hi =>
          (Script.Twins.call (ht ▸ .cancelPeriodic tick)).bind fun inForce _ hf => by
            cases hi
            cases hf
            exact .done rfl

/-- On the restored machine the list runs in another generation, and comes to the same. -/
theorem listRest_resumed :
    listRest.AtRest ∧ (∀ i ∈ chronicle listHandler 4 againScript listRest, i.KeepsModes) ∧
      ∃ t, restore (capture "rest" ⟨0, 0⟩ listRest) (initial {} ()) = .ok () t ∧
        t.view = listRest.view ∧
        (listRest.engine.channel .graphics).generation = 2 ∧
        (t.engine.channel .graphics).generation = 0 ∧
        ∃ s s', againScript.exec (perform listHandler 4) listRest = some (.ok (0x8000, true), s) ∧
          againScript.exec (perform listHandler 4) t = some (.ok (0x8000, true), s') ∧
          s'.view = s.view := by
  have hm : Moves listHandler [] (initial {} ())
      (chronicle listHandler 4 listScript (initial {} ()) ++
        (journal listHandler 4 (.run 0) listStart ++ chronicle listHandler 4 quietScript listEnd))
      [] listRest :=
    (exec_moves 4 listScript [] (initial {} ()) (.ok ()) listStart rfl).append
      ((perform_moves 4 (.run 0) [] listStart (.ok ()) listEnd (by with_unfolding_all rfl)).append
        (exec_moves 4 quietScript [] listEnd (.ok ()) listRest (by with_unfolding_all rfl)))
  have hrest : listRest.AtRest := {
    events := rfl
    unregistered := by
      rintro ⟨_ | slot, generation⟩
      · exact Bool.and_false _
      · rfl
    stopped := fun p => by cases p <;> rfl
    unstarted := fun p => by cases p <;> rfl
    unforced := fun p => by cases p <;> rfl
    pendingCycles := rfl
    exception := rfl
    edge := rfl }
  have hk : ∀ i ∈ chronicle listHandler 4 againScript listRest, i.KeepsModes := by decide +kernel
  obtain ⟨t, ht, hv, hb⟩ :=
    restored_resumes hm hrest (by decide) (by decide) (id : Unit → Unit) "rest" ⟨0, 0⟩
  obtain ⟨hr, -⟩ := hb listHandler listHandler 4 againScript againScript (fun _ _ => .done rfl)
    (againScript_twins _) hk
  have hg : (t.engine.channel .graphics).generation = 0 := by
    obtain ⟨ram, -, he⟩ := restore_of_fit (capture_fits "rest" ⟨0, 0⟩ listRest)
      (initial {} () : Machine Rack Unit Unit)
    cases ht.symm.trans he
    rfl
  have hs : (againScript.exec (perform listHandler 4) listRest).map (·.1) =
      some (.ok (0x8000, true)) := by decide +kernel
  refine ⟨hrest, hk, t, ht, hv, rfl, hg, ?_⟩
  generalize againScript.exec (perform listHandler 4) listRest = u at hr hs ⊢
  generalize againScript.exec (perform listHandler 4) t = v at hr ⊢
  cases hr with
  | none => cases hs
  | @some u v hp =>
      obtain ⟨_, s⟩ := u
      obtain ⟨r, s'⟩ := v
      obtain ⟨ha, hv⟩ := hp
      cases hs
      cases ha with
      | ok hb =>
          cases hb
          exact ⟨s, s', rfl, rfl, hv⟩

end Machine

end DmaMachine
