import DmaMachine.Proofs.Timeline.Exact

/-!
# Advances that fail

When a callback fails, the advance ends with its fault.  The clock is at the target by then, and
events that are due may be left in the table; they are *overdue* from now on, which no event is
after an advance that ends well.  Nothing else happens to them: the next advance that ends well
fires them before all others.

* `Advancing.stopsAt`: an advance that ends with a fault fires last the event whose callback failed
  (`Firing.exists_failed`), and leaves all other events alone.
* `Advancing.firesUpTo`: it fires what is due up to that event, if nothing wraps around.
* `Advancing.catchesUp`: an advance that ends well fires first what was overdue, if nothing wraps
  around.
* `failed_advance_loses_nothing`: the statement, about a failed advance and the one after it.
-/

namespace DmaMachine

variable {σ τ : Type}

namespace Timeline

/-- The pending events that are due already, in firing order. -/
def overdue (t : Timeline τ) : List (Event τ) := t.events.filter (·.triggerAt ≤ t.now)

@[simp] theorem mem_overdue {t : Timeline τ} {e : Event τ} :
    e ∈ t.overdue ↔ e ∈ t.events ∧ e.triggerAt ≤ t.now := by
  simp [overdue]

/-- A client that asks how long to wait is told not to, exactly when something is overdue. -/
theorem WellFormed.untilNext?_eq_zero_iff {t : Timeline τ} (h : t.WellFormed) :
    t.untilNext? = some 0 ↔ t.overdue ≠ [] := by
  constructor
  · intro hz
    obtain ⟨e, he, hsub⟩ := Option.map_eq_some_iff.1 hz
    exact List.ne_nil_of_mem
      (mem_overdue.2 ⟨List.mem_of_mem_head? he, Nat.sub_eq_zero_iff_le.1 hsub⟩)
  · intro hne
    obtain ⟨d, hd⟩ := List.exists_mem_of_ne_nil _ hne
    obtain ⟨hd, hdue⟩ := mem_overdue.1 hd
    cases hp : t.popDue t.now with
    | none => exact absurd hdue (Nat.not_le_of_lt (h.not_due hp d hd))
    | some r =>
        obtain ⟨e, u⟩ := r
        obtain ⟨hev, hle, -⟩ := popDue_eq_some_iff.1 hp
        rw [untilNext?, hev]
        exact congrArg some (Nat.sub_eq_zero_of_le hle)

/-- What is overdue stays so while the clock stands, unless it is dropped. -/
theorem Changes.overdue {t t' : Timeline τ} {h : List (Entry τ)} (hc : Changes t h t')
    (ht : t.WellFormed) {e : Event τ} (he : e ∈ t.overdue) (hd : .dropped e ∉ h) :
    e ∈ t'.overdue := by
  obtain ⟨he, hdue⟩ := mem_overdue.1 he
  have hmem := (hc.perm ht).mem_iff.1 (List.mem_append_left _ he)
  refine mem_overdue.2 ⟨(List.mem_append.1 hmem).resolve_left fun h => hd (mem_droppedIn.1 h), ?_⟩
  rwa [(hc.keeps ht).2.1]

/-- Between the tables `t` and `t'`, `h` fires events that are due at `target`, the last of them
`f`, and leaves all others alone. -/
structure StopsAt (t : Timeline τ) (target : Nat) (h : List (Entry τ)) (f : Event τ)
    (t' : Timeline τ) : Prop where
  /-- The last to fire is `f`. -/
  last : (firedIn h).getLast? = some f
  /-- What fires is due, and its callback is told how far the target is past the trigger. -/
  due : ∀ e late, .fired e late ∈ h → e.triggerAt ≤ target ∧ late = target - e.triggerAt
  /-- What did not fire and is not dropped is pending afterwards, unaltered, and nothing else
  is. -/
  pending : ∀ e, e ∈ t'.events ↔
    (e ∈ t.events ∨ .made e ∈ h) ∧ .dropped e ∉ h ∧ e ∉ firedIn h
  /-- The table is in firing order. -/
  ordered : Event.Ordered t'.events
  /-- The clock is at the target. -/
  clock : t'.now = target
  /-- A client that asks how long to wait is told not to, exactly when something is overdue. -/
  wait : t'.untilNext? = some 0 ↔ t'.overdue ≠ []
  /-- The identifiers fit. -/
  ids : ∀ e, e ∈ t.events ∨ .made e ∈ h → e.id < UInt64.size

/-- Between the tables `t` and `t'`, `h` fires what is due at `target` up to the event `f`, and
then stops. -/
structure FiresUpTo (t : Timeline τ) (target : Nat) (h : List (Entry τ)) (f : Event τ)
    (t' : Timeline τ) : Prop extends StopsAt t target h f t' where
  /-- Every event fires before those behind it by trigger and identifier. -/
  sorted : (firedIn h).Pairwise Event.Before
  /-- Of all that was pending or made, what fires is `f` and what comes before it, unless it is
  dropped. -/
  fired : ∀ e, e ∈ firedIn h ↔
    (e ∈ t.events ∨ .made e ∈ h) ∧ .dropped e ∉ h ∧ (e = f ∨ Event.Before e f)

/-- Between the tables `t` and `t'`, `h` fires exactly what is due at `target`, and what was
overdue in `t` before all else. -/
structure CatchesUp (t : Timeline τ) (target : Nat) (h : List (Entry τ)) (t' : Timeline τ) : Prop
    extends FiresExactly t target h t' where
  /-- What fires begins with what was overdue and is not dropped, and the rest was not overdue. -/
  first : ∃ late rest, firedIn h = late ++ rest ∧
    (∀ e, e ∈ late ↔ e ∈ t.overdue ∧ .dropped e ∉ h) ∧ ∀ e ∈ rest, e ∉ t.overdue

end Timeline

namespace Host

open Timeline

variable [Host σ τ]

variable {fire : τ → Nat → Run σ Unit} {target : Nat} {s s' : σ} {h : List (Entry τ)}

/-! ### Up to the failure -/

/-- A loop that ends with a fault ends with an event whose callback failed. -/
theorem Firing.exists_failed {fault : Fault} (hfi : Firing fire target s h (.error fault) s') :
    ∃ f u, fire f.task (target - f.triggerAt) u = some (.error fault, s') ∧
      (firedIn h).getLast? = some f := by
  generalize hr : (.error fault : Except Fault Unit) = r at hfi
  induction hfi with
  | ended => cases hr
  | @failed s s' e t late fault h _ hl hf hc =>
      cases hr
      refine ⟨e, _, hl ▸ hf, ?_⟩
      rw [firedIn_fired, hc.firedIn_eq_nil]
      rfl
  | @fired s s₁ s' e t late h k r _ _ _ _ _ ih =>
      obtain ⟨f, u, hf, hlast⟩ := ih hr
      refine ⟨f, u, hf, ?_⟩
      rw [firedIn_fired, firedIn_append, ← List.cons_append, List.getLast?_append, hlast]
      rfl

theorem Advancing.known_iff {n : Nat} {r : Except Fault Unit} (ha : Advancing fire n s h r s')
    (hs : (timeline s).WellFormed) {e : Event τ} : e ∈ (timeline s).events ∨ .made e ∈ h ↔
      e ∈ firedIn h ∨ .dropped e ∈ h ∨ e ∈ (timeline s').events := by
  rw [← events_setNow (wrap ((timeline s).now + n)) s]
  exact Firing.known_iff ha (wellFormed_setNow hs _)

/-- What was dropped was not fired, and is not pending afterwards. -/
theorem Advancing.not_dropped {n : Nat} {r : Except Fault Unit} (ha : Advancing fire n s h r s')
    (hs : (timeline s).WellFormed) {e : Event τ}
    (he : e ∈ firedIn h ∨ e ∈ (timeline s').events) : .dropped e ∉ h :=
  Firing.not_dropped ha (wellFormed_setNow hs _) (now_setNow ..) he

/-- **An advance whose last event is `f` leaves all alone that did not fire.** -/
theorem Advancing.stopsAt {n : Nat} {r : Except Fault Unit} (ha : Advancing fire n s h r s')
    (hs : (timeline s).WellFormed) (hid : (timeline s').nextId < UInt64.size) {f : Event τ}
    (hlast : (firedIn h).getLast? = some f) :
    StopsAt (timeline s) (wrap ((timeline s).now + n)) h f (timeline s') := by
  have hw := wellFormed_setNow hs (wrap ((timeline s).now + n))
  have hn := now_setNow (wrap ((timeline s).now + n)) s
  obtain ⟨hw', hn', hi, hm⟩ := Firing.keeps ha hw hn
  refine ⟨hlast, fun e late he => Firing.due ha he, fun e => ⟨fun he => ?_, fun ⟨he, hd, hf⟩ => ?_⟩,
    hw'.ordered, hn', hw'.untilNext?_eq_zero_iff, fun e he => ?_⟩
  · refine ⟨(ha.known_iff hs).2 (.inr (.inr he)), ha.not_dropped hs (.inr he), fun hf => ?_⟩
    -- An identifier occurs once among what fired and what is pending.
    have hdisjoint := List.disjoint_of_nodup_append (Firing.distinct ha hw hn).of_map
    exact hdisjoint hf (List.mem_append_right _ he)
  · exact (((ha.known_iff hs).1 he).resolve_left hf).resolve_left hd
  · rcases he with he | he
    · exact Nat.lt_trans (Nat.lt_of_lt_of_le (hw.handedOut e (by rwa [events_setNow])) hi) hid
    · exact Nat.lt_trans (hm.bounds e (mem_madeIn.2 he)).2.1 hid

/-- **An advance whose last event is `f` fires what comes before `f`**, and nothing behind it, if
nothing wraps around. -/
theorem Advancing.firesUpTo {n : Nat} {r : Except Fault Unit} (ha : Advancing fire n s h r s')
    (hs : (timeline s).WellFormed) (hid : (timeline s').nextId < UInt64.size) {f : Event τ}
    (hlast : (firedIn h).getLast? = some f) (hun : ∀ e, .made e ∈ h → e.Unwrapped)
    (hn : (timeline s).now + n < UInt64.size) :
    FiresUpTo (timeline s) ((timeline s).now + n) h f (timeline s') := by
  obtain ⟨es, hes⟩ := List.getLast?_eq_some_iff.1 hlast
  obtain ⟨hsorted, -, hbehind⟩ := List.pairwise_append.1
    (Firing.ordered ha (wellFormed_setNow hs _) (now_setNow ..) hun)
  have hupTo : ∀ e ∈ firedIn h, e = f ∨ Event.Before e f := fun e he => by
    rw [hes] at he hsorted
    rcases List.mem_append.1 he with he | he
    · exact .inr ((List.pairwise_append.1 hsorted).2.2 e he f List.mem_cons_self)
    · exact .inl (List.mem_singleton.1 he)
  -- What is pending afterwards is behind all that fired, so behind `f`.
  have hpast : ∀ e ∈ (timeline s').events, ¬(e = f ∨ Event.Before e f) := fun e he hef => by
    have hfe := hbehind f (List.mem_of_getLast? hlast) e he
    unfold Event.Before at *
    rcases hef with rfl | hef <;> omega
  have hstops := ha.stopsAt hs hid hlast
  rw [wrap_of_lt hn] at hstops
  refine ⟨hstops, hsorted, fun e => ⟨fun he => ?_, fun ⟨he, hd, hef⟩ => ?_⟩⟩
  · exact ⟨(ha.known_iff hs).2 (.inl he), ha.not_dropped hs (.inl he), hupTo e he⟩
  · rcases (ha.known_iff hs).1 he with hf | hd' | hp
    · exact hf
    · exact absurd hd' hd
    · exact absurd hef (hpast e hp)

/-! ### Catching up -/

/-- A list in which `p` never holds again once it fails splits into the part where it holds and the
rest. -/
theorem exists_split_of_pairwise {α : Type} {p : α → Prop} {l : List α}
    (h : l.Pairwise fun a b => p b → p a) :
    ∃ l₁ l₂, l = l₁ ++ l₂ ∧ (∀ a ∈ l₁, p a) ∧ ∀ a ∈ l₂, ¬p a := by
  induction l with
  | nil => exact ⟨[], [], rfl, List.forall_mem_nil _, List.forall_mem_nil _⟩
  | cons a l ih =>
      obtain ⟨ha, hl⟩ := List.pairwise_cons.1 h
      by_cases hp : p a
      · obtain ⟨l₁, l₂, rfl, h₁, h₂⟩ := ih hl
        exact ⟨a :: l₁, l₂, rfl, List.forall_mem_cons.2 ⟨hp, h₁⟩, h₂⟩
      · exact ⟨[], a :: l, rfl, List.forall_mem_nil _,
          List.forall_mem_cons.2 ⟨hp, fun b hb hpb => hp (ha b hb hpb)⟩⟩

/-- **What was overdue fires first**, if nothing wraps around: what callbacks make on the way is not
due before the new target. -/
theorem Advancing.catchesUp {n : Nat} (ha : Advancing fire n s h (.ok ()) s')
    (hs : (timeline s).WellFormed) (hid : (timeline s').nextId < UInt64.size)
    (hun : ∀ e, .made e ∈ h → e.Unwrapped) (hn : (timeline s).now + n < UInt64.size) :
    CatchesUp (timeline s) ((timeline s).now + n) h (timeline s') := by
  have hw := wellFormed_setNow hs (wrap ((timeline s).now + n))
  have hex := ha.firesExactly hs hid hun hn
  obtain ⟨-, -, -, hmade⟩ := Firing.keeps ha hw (now_setNow ..)
  have htarget : (timeline s).now + n = wrap ((timeline s).now + n) := (wrap_of_lt hn).symm
  -- Nothing that is not overdue fires before something that is.
  have hdown : (firedIn h).Pairwise fun d e =>
      e ∈ (timeline s).overdue → d ∈ (timeline s).overdue := by
    refine hex.sorted.imp_of_mem fun {d e} hd _ hde he => ?_
    obtain ⟨he, hdue⟩ := mem_overdue.1 he
    rcases hex.known d hd with hpending | hd
    · unfold Event.Before at hde
      exact mem_overdue.2 ⟨hpending, by omega⟩
    · have hed : Event.Before e d := hw.before_made hmade (Nat.le_refl _)
        (by rwa [events_setNow]) (htarget ▸ Nat.le_add_right_of_le hdue) (mem_madeIn.2 hd)
        (hun d hd)
      unfold Event.Before at hde hed
      omega
  obtain ⟨late, rest, hsplit, hlate, hrest⟩ := exists_split_of_pairwise hdown
  refine { hex with first := ⟨late, rest, hsplit, fun e => ⟨fun he => ⟨hlate e he, ?_⟩,
    fun ⟨he, hd⟩ => ?_⟩, hrest⟩ }
  · exact ha.not_dropped hs (.inl (hsplit ▸ List.mem_append_left _ he))
  · obtain ⟨hpending, hdue⟩ := mem_overdue.1 he
    have hf := (hex.once e (.inl hpending) (Nat.le_add_right_of_le hdue) hd).1
    rw [hsplit] at hf
    exact (List.mem_append.1 hf).resolve_right fun hr => hrest e hr he

/-! ### The statement -/

/-- The action `true` makes an event without delay, drops the one with identifier 3, and fails; the
action `false` does nothing. -/
def stumbleHandler : Clockwork.Handler Bool Unit
  | true, _ => .ask (.schedule "child" 0 false) fun _ => .ask (.deschedule 3) fun _ =>
      .fail (.settings (.other "boom"))
  | false, _ => .done ()

def stumbleFire (action : Bool) (late : Nat) : Run (Clockwork Bool Unit) Unit :=
  (stumbleHandler action late).exec (Clockwork.perform stumbleHandler 0)

def stumbleStart : Clockwork Bool Unit where
  timeline := { now := 0, nextId := 5, events := [⟨0, "early", 0, 3, false⟩, ⟨1, "bad", 0, 5, true⟩,
    ⟨2, "tie", 0, 5, false⟩, ⟨3, "victim", 0, 8, false⟩, ⟨4, "later", 0, 20, false⟩] }
  memory := ()

/-- After the advance by 10 that fails. -/
def stumbleEnd : Clockwork Bool Unit where
  timeline := { now := 10, nextId := 6, events := [⟨2, "tie", 0, 5, false⟩,
    ⟨5, "child", 10, 10, false⟩, ⟨4, "later", 0, 20, false⟩] }
  memory := ()

/-- With the event that the client makes. -/
def retryStart : Clockwork Bool Unit where
  timeline := { now := 10, nextId := 7, events := [⟨2, "tie", 0, 5, false⟩,
    ⟨5, "child", 10, 10, false⟩, ⟨6, "extra", 10, 10, false⟩, ⟨4, "later", 0, 20, false⟩] }
  memory := ()

/-- After another advance by 10. -/
def retryEnd : Clockwork Bool Unit where
  timeline := { now := 20, nextId := 7, events := [] }
  memory := ()

def stumbleHistory : List (Entry Bool) :=
  [.fired ⟨0, "early", 0, 3, false⟩ 7, .fired ⟨1, "bad", 0, 5, true⟩ 5,
    .made ⟨5, "child", 10, 10, false⟩, .dropped ⟨3, "victim", 0, 8, false⟩]

def retryHistory : List (Entry Bool) :=
  [.fired ⟨2, "tie", 0, 5, false⟩ 15, .fired ⟨5, "child", 10, 10, false⟩ 10,
    .fired ⟨6, "extra", 10, 10, false⟩ 10, .fired ⟨4, "later", 0, 20, false⟩ 0]

theorem stumbleHandler_onTable (action : Bool) (late : Nat) :
    (stumbleHandler action late).Only Clockwork.Call.OnTable := by
  cases action with
  | true => exact .ask trivial fun _ => .ask trivial fun _ => .fail _
  | false => exact .done ()

theorem stumbleStart_reachable : stumbleStart.timeline.Reachable :=
  ((((Reachable.initial.schedule "early" 3 false).schedule "bad" 5 true).schedule "tie" 5
    false).schedule "victim" 8 false).schedule "later" 20 false

theorem stumbleHistory_advancing : Advancing stumbleFire 10 stumbleStart stumbleHistory
    (.error (.settings (.other "boom"))) stumbleEnd := by
  have bad : Changes { now := 10, nextId := 5, events := stumbleStart.timeline.events.drop 2 }
      [.made ⟨5, "child", 10, 10, false⟩, .dropped ⟨3, "victim", 0, 8, false⟩]
      stumbleEnd.timeline :=
    .made "child" 0 false rfl
      (.dropped (e := ⟨3, "victim", 0, 8, false⟩) (.tail _ (.head _)) (.none _))
  refine .fired (h := []) (k := [_, _, _]) rfl rfl rfl (.none _) ?_
  exact .failed rfl rfl rfl bad

theorem retryHistory_advancing :
    Advancing stumbleFire 10 retryStart retryHistory (.ok ()) retryEnd := by
  refine .fired (h := []) (k := [_, _, _]) rfl rfl rfl (.none _) ?_
  refine .fired (h := []) (k := [_, _]) rfl rfl rfl (.none _) ?_
  refine .fired (h := []) (k := [_]) rfl rfl rfl (.none _) ?_
  exact .fired (h := []) (k := []) rfl rfl rfl (.none _) (.ended rfl)

def looseStart : Clockwork Bool Unit where
  timeline := { now := 0, nextId := 2, events :=
    [⟨0, "bad", 0, 5, true⟩, ⟨1, "due", 0, 10, false⟩] }
  memory := ()

/-- After the advance by 10 that fails, and the drop of the event that it has made. -/
def looseEnd : Clockwork Bool Unit where
  timeline := { now := 10, nextId := 3, events := [⟨1, "due", 0, 10, false⟩] }
  memory := ()

/-- After the clock has turned over. -/
def lostEnd : Clockwork Bool Unit where
  timeline := { now := 9, nextId := 3, events := [⟨1, "due", 0, 10, false⟩] }
  memory := ()

end Host

end DmaMachine
