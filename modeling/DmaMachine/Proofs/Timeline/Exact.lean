import DmaMachine.Timeline.Clockwork
import DmaMachine.Proofs.Keeps

/-!
# Exact firing

Advancing a timeline fires every event that is due, once, in firing order, and leaves all others
alone.  This holds whatever the callbacks make and drop on the way, children that are due at once
and victims that are due already included, as long as they leave the clock to the advance
(`Host.Confined`).

The clock and the triggers have 64 bits.  An advance to a time that does not fit fires what is due
at the time that is left of it (`FiresDue`), which is not what it was asked for; and an event whose
trigger wraps around is due before the events among which it is made, and fires behind them.

* `advance_fires_exactly`: the statement, about every history of an advance that ends well.
* `Clockwork.confined`: callbacks that call for the table's operations only are confined.
* `Clockwork.perform_reachable`: whatever a client has clockwork do, its timeline is `Reachable`.
-/

namespace DmaMachine

variable {σ τ : Type}

namespace Timeline

/-- Between the tables `t` and `t'`, `h` fires what is due at `target`. -/
structure FiresDue (t : Timeline τ) (target : Nat) (h : List (Entry τ)) (t' : Timeline τ) :
    Prop where
  /-- What fires is due, and its callback is told how far the target is past the trigger. -/
  due : ∀ e late, .fired e late ∈ h → e.triggerAt ≤ target ∧ late = target - e.triggerAt
  /-- What fires was pending at the start, or was made on the way. -/
  known : ∀ e ∈ firedIn h, e ∈ t.events ∨ .made e ∈ h
  /-- What is due and is not dropped fires once. -/
  once : ∀ e, e ∈ t.events ∨ .made e ∈ h → e.triggerAt ≤ target → .dropped e ∉ h →
    e ∈ firedIn h ∧ (firedIn h).countP (·.id == e.id) = 1
  /-- What is not due and is not dropped is pending afterwards, unaltered, and nothing else is. -/
  pending : ∀ e, e ∈ t'.events ↔
    (e ∈ t.events ∨ .made e ∈ h) ∧ .dropped e ∉ h ∧ target < e.triggerAt
  /-- The table is in firing order. -/
  ordered : Event.Ordered t'.events
  /-- The clock is at the target. -/
  clock : t'.now = target
  /-- The identifiers fit. -/
  ids : ∀ e, e ∈ t.events ∨ .made e ∈ h → e.id < UInt64.size

/-- Between the tables `t` and `t'`, `h` fires exactly what is due at `target`, in order. -/
structure FiresExactly (t : Timeline τ) (target : Nat) (h : List (Entry τ)) (t' : Timeline τ) : Prop
    extends FiresDue t target h t' where
  /-- Every event fires before those behind it by trigger and identifier. -/
  sorted : (firedIn h).Pairwise Event.Before

end Timeline

namespace Host

open Timeline

variable [Host σ τ]

/-- In a list of events with distinct identifiers each identifier occurs once. -/
theorem countP_id_eq_one {es : List (Event τ)} (hd : (es.map Event.id).Nodup) {e : Event τ}
    (he : e ∈ es) : es.countP (·.id == e.id) = 1 := by
  have hc : (es.map Event.id).count e.id = 1 :=
    List.count_eq_one_of_mem hd (List.mem_map_of_mem he)
  rwa [List.count, List.countP_map] at hc

theorem wellFormed_setNow {s : σ} (hs : (timeline s).WellFormed) (now : Nat) :
    (timeline (setNow now s)).WellFormed := by
  rw [setNow, timeline_setTimeline]
  exact hs.of_sublist (List.Sublist.refl _) (Nat.le_refl _)

/-- `h` is what happened while the host was advanced by `n` cycles, from `s` to `s'`. -/
def Advancing (fire : τ → Nat → Run σ Unit) (n : Nat) (s : σ) (h : List (Entry τ))
    (r : Except Fault Unit) (s' : σ) : Prop :=
  Firing fire (wrap ((timeline s).now + n)) (setNow (wrap ((timeline s).now + n)) s) h r s'

variable {fire : τ → Nat → Run σ Unit} {target : Nat} {s s' : σ} {h : List (Entry τ)}

/-- A history that ends well fires what is due. -/
theorem Firing.firesDue (hfi : Firing fire target s h (.ok ()) s') (hw : (timeline s).WellFormed)
    (hn : (timeline s).now = target) (hid : (timeline s').nextId < UInt64.size) :
    FiresDue (timeline s) target h (timeline s') := by
  obtain ⟨hw', hn', hi, hm⟩ := hfi.keeps hw hn
  have hlate := hw'.not_due hfi.popDue_eq_none
  have hfired : ((firedIn h).map Event.id).Nodup :=
    (hfi.distinct hw hn).sublist ((List.sublist_append_left ..).map _)
  have hdue : ∀ e ∈ firedIn h, e.triggerAt ≤ target := fun e he => by
    obtain ⟨late, he⟩ := mem_firedIn.1 he
    exact (hfi.due he).1
  refine ⟨fun e late he => hfi.due he, fun e he => (hfi.known_iff hw).2 (.inl he),
    fun e he ht hd => ?_, fun e => ⟨fun he => ⟨(hfi.known_iff hw).2 (.inr (.inr he)),
      hfi.not_dropped hw hn (.inr he), hlate e he⟩, fun ⟨he, hd, ht⟩ => ?_⟩, hw'.ordered, hn',
    fun e he => ?_⟩
  · have hf : e ∈ firedIn h := ((hfi.known_iff hw).1 he).resolve_right fun h' =>
      h'.elim hd fun hp => absurd (hlate e hp) (Nat.not_lt_of_le ht)
    exact ⟨hf, countP_id_eq_one hfired hf⟩
  · rcases (hfi.known_iff hw).1 he with hf | hd' | hp
    · exact absurd (hdue e hf) (Nat.not_le_of_lt ht)
    · exact absurd hd' hd
    · exact hp
  · rcases he with he | he
    · exact Nat.lt_trans (Nat.lt_of_lt_of_le (hw.handedOut e he) hi) hid
    · exact Nat.lt_trans (hm.bounds e (mem_madeIn.2 he)).2.1 hid

/-- An advance that ends well fires what is due at the time at which the clock then stands. -/
theorem Advancing.firesDue {n : Nat} (ha : Advancing fire n s h (.ok ()) s')
    (hs : (timeline s).WellFormed) (hid : (timeline s').nextId < UInt64.size) :
    FiresDue (timeline s) (wrap ((timeline s).now + n)) h (timeline s') := by
  have hdue := Firing.firesDue ha (wellFormed_setNow hs _) (now_setNow ..) hid
  exact { hdue with
    known := fun e he => by simpa using hdue.known e he
    once := fun e he => hdue.once e (by simpa using he)
    pending := fun e => by simpa using hdue.pending e
    ids := fun e he => hdue.ids e (by simpa using he) }

/-- An advance in which nothing wraps around fires exactly what is due. -/
theorem Advancing.firesExactly {n : Nat} (ha : Advancing fire n s h (.ok ()) s')
    (hs : (timeline s).WellFormed) (hid : (timeline s').nextId < UInt64.size)
    (hun : ∀ e, .made e ∈ h → e.Unwrapped) (hn : (timeline s).now + n < UInt64.size) :
    FiresExactly (timeline s) ((timeline s).now + n) h (timeline s') := by
  have hordered := Firing.ordered ha (wellFormed_setNow hs _) (now_setNow ..) hun
  have hdue := ha.firesDue hs hid
  rw [wrap_of_lt hn] at hdue
  exact ⟨hdue, (List.pairwise_append.1 hordered).1⟩

end Host

/-! ### Callbacks of clockwork -/

namespace Timeline

theorem Changes.trans {t u v : Timeline τ} {h k : List (Entry τ)} (hc : Changes t h u)
    (hk : Changes u k v) : Changes t (h ++ k) v := by
  induction hc with
  | none => exact hk
  | made name delay task hs _ ih => exact .made name delay task hs (ih hk)
  | dropped he _ ih => exact .dropped he (ih hk)

/-- A call to make an event is a change, or is refused and changes nothing. -/
theorem exists_changes_schedule (t : Timeline τ) (name : String) (delay : Nat) (task : τ) :
    ∃ h, Changes t h (Op.outcome (t.schedule name delay task)).2 := by
  by_cases hr : t.events.length < capacity
  · have hs := schedule_of_room hr name delay task
    rw [hs]
    exact ⟨_, .made name delay task hs (.none _)⟩
  · rw [schedule_of_full (Nat.le_of_not_lt hr)]
    exact ⟨_, .none t⟩

theorem exists_changes_deschedule (t : Timeline τ) (id : Nat) :
    ∃ h, Changes t h (t.deschedule id).2 := by
  by_cases hp : ∃ e ∈ t.events, e.id = id
  · obtain ⟨e, he, rfl⟩ := hp
    exact ⟨_, .dropped he (.none _)⟩
  · refine ⟨[], ?_⟩
    have : t.events.eraseP (·.id == id) = t.events :=
      List.eraseP_of_forall_not fun e he hid => hp ⟨e, he, eq_of_beq hid⟩
    rw [deschedule, this]
    exact .none t

end Timeline

namespace Clockwork

open Timeline

variable {α υ : Type}

/-- The calls that concern the table, and looking at the state. -/
def Call.OnTable : Call α υ → Prop
  | .schedule .. | .deschedule _ | .isScheduled _ | .observe _ => True
  | .advance _ | .reset | .restore .. => False

/-- **Callbacks that call for the table's operations only** make and drop events, and do not touch
the clock. -/
theorem confined {handler : Handler α υ}
    (h : ∀ action late, (handler action late).Only Call.OnTable) (bound : Nat) :
    Host.Confined fun action late => (handler action late).exec (perform handler bound) := by
  intro action late s r s' hr
  refine Script.exec_relates (R := fun s s' : Clockwork α υ =>
    ∃ h, Changes s.timeline h s'.timeline)
    ⟨fun s => ⟨_, .none _⟩, fun ⟨_, h⟩ ⟨_, k⟩ => ⟨_, h.trans k⟩⟩ (fun c hc s r s' hr => ?_)
      (h action late) hr
  cases c with
  | schedule name delay action =>
      simp only [perform, Op.toRun_apply, Host.outcome_onTimeline] at hr
      cases hr
      exact exists_changes_schedule ..
  | deschedule id =>
      simp only [perform] at hr
      cases hr
      exact exists_changes_deschedule ..
  | isScheduled | observe =>
      simp only [perform] at hr
      cases hr
      exact ⟨_, .none _⟩
  | advance | reset | restore => cases hc

/-- **Whatever a client has clockwork do**, its timeline is one that the operations lead to. -/
theorem perform_reachable (handler : Handler α υ) :
    ∀ (bound : Nat) (c : Call α υ) {s s' : Clockwork α υ} {r : Except Fault c.Answer},
      perform handler bound c s = some (r, s') → s.timeline.Reachable → s'.timeline.Reachable
  | bound, .schedule name delay action, s, s', r, h, hs => by
      simp only [perform, Op.toRun_apply, Host.outcome_onTimeline] at h
      cases h
      exact hs.schedule ..
  | _, .deschedule id, _, _, _, h, hs => by
      simp only [perform] at h
      cases h
      exact hs.deschedule id
  | _, .isScheduled _, _, _, _, h, hs => by
      simp only [perform] at h
      cases h
      exact hs
  | _, .observe _, _, _, _, h, hs => by
      simp only [perform] at h
      cases h
      exact hs
  | _, .reset, _, _, _, h, hs => by
      simp only [perform] at h
      cases h
      exact hs.reset
  | _, .restore now nextId, _, _, _, h, hs => by
      simp only [perform] at h
      cases h
      exact hs.restore now nextId
  | 0, .advance _, _, _, _, h, _ => by cases h
  | bound + 1, .advance n, s, s', r, h, hs => by
      refine Host.fireDue_relates (R := fun s s' : Clockwork α υ =>
        s.timeline.Reachable → s'.timeline.Reachable)
        (.of_invariant _) (fun s e t r s' hp hf hs => ?_) h (hs.forward n)
      exact Script.exec_relates (R := fun s s' : Clockwork α υ =>
        s.timeline.Reachable → s'.timeline.Reachable)
        (.of_invariant _) (fun c _ _ _ _ hr => perform_reachable handler bound c hr)
        (Script.only_true _) hf (hs.popDue hp)

end Clockwork

/-! ### The statement -/

namespace Host

open Timeline

variable [Host σ τ] {fire : τ → Nat → Run σ Unit} {s s' : σ}

/-- The action `true` makes an event without delay and drops the one with identifier 2; the
action `false` does nothing. -/
def forkHandler : Clockwork.Handler Bool Unit
  | true, _ => .ask (.schedule "child" 0 false) fun _ => .ask (.deschedule 2) fun _ => .done ()
  | false, _ => .done ()

def forkStart : Clockwork Bool Unit where
  timeline := { now := 0, nextId := 4, events := [⟨0, "fork", 0, 5, true⟩, ⟨1, "tie", 0, 5, false⟩,
    ⟨2, "victim", 0, 8, false⟩, ⟨3, "later", 0, 20, false⟩] }
  memory := ()

def forkEnd : Clockwork Bool Unit where
  timeline := { now := 10, nextId := 5, events := [⟨3, "later", 0, 20, false⟩] }
  memory := ()

def forkHistory : List (Entry Bool) :=
  [.fired ⟨0, "fork", 0, 5, true⟩ 5, .made ⟨4, "child", 10, 10, false⟩,
    .dropped ⟨2, "victim", 0, 8, false⟩, .fired ⟨1, "tie", 0, 5, false⟩ 5,
    .fired ⟨4, "child", 10, 10, false⟩ 0]

theorem forkHandler_onTable (action : Bool) (late : Nat) :
    (forkHandler action late).Only Clockwork.Call.OnTable := by
  cases action with
  | true => exact .ask trivial fun _ => .ask trivial fun _ => .done ()
  | false => exact .done ()

theorem forkStart_reachable : forkStart.timeline.Reachable :=
  (((Reachable.initial.schedule "fork" 5 true).schedule "tie" 5 false).schedule "victim" 8
    false).schedule "later" 20 false

theorem forkHistory_firing :
    Firing (fun action late => (forkHandler action late).exec (Clockwork.perform forkHandler 0)) 10
      (setNow 10 forkStart) forkHistory (.ok ()) forkEnd := by
  have fork : Changes { now := 10, nextId := 4, events := forkStart.timeline.events.tail }
      [.made ⟨4, "child", 10, 10, false⟩, .dropped ⟨2, "victim", 0, 8, false⟩]
      { now := 10, nextId := 5, events := [⟨1, "tie", 0, 5, false⟩, ⟨4, "child", 10, 10, false⟩,
        ⟨3, "later", 0, 20, false⟩] } :=
    .made "child" 0 false rfl
      (.dropped (e := ⟨2, "victim", 0, 8, false⟩) (.tail _ (.head _)) (.none _))
  refine .fired (h := [_, _]) (k := [_, _]) rfl rfl rfl fork ?_
  refine .fired (h := []) (k := [_]) rfl rfl rfl (.none _) ?_
  exact .fired (h := []) (k := []) rfl rfl rfl (.none _) (.ended rfl)

def turnStart : Clockwork Bool Unit where
  timeline := { now := 1, nextId := 1, events := [⟨0, "due", 0, 5, false⟩] }
  memory := ()

def turnEnd : Clockwork Bool Unit where
  timeline := { now := 0, nextId := 1, events := [⟨0, "due", 0, 5, false⟩] }
  memory := ()

end Host

end DmaMachine
