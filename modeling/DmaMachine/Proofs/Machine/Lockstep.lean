import DmaMachine.Proofs.Machine.Levels
import DmaMachine.Proofs.Machine.Views

/-!
# Machines in lockstep

Mirrored machines whose clients make calls that correspond stay mirrored, for as long as they run,
and whatever is seen of them on the way is the same.

* `Lockstep`: two runs end alike, and their journals correspond item by item.
* `perform_lockstep`: **calls that correspond are in lockstep**, with all that happens inside, if
  channels that go on running keep their modes.
* `exec_lockstep`: so are scripts.
-/

namespace DmaMachine

/-- A run goes on after a result, and stops at a fault. -/
theorem Run.bind_apply {σ α β : Type} (x : Run σ α) (f : α → Run σ β) (s : σ) :
    (x >>= f) s = match x s with
      | none => none
      | some (.error e, s) => some (.error e, s)
      | some (.ok a, s) => f a s := by
  show (x s).bind (fun y => ExceptT.bindCont f y.1 y.2) = _
  rcases x s with _ | ⟨_ | _, _⟩ <;> rfl

namespace Machine

open Journal

variable {δ α α' υ β γ ε ζ : Type}

/-! ### Runs as sequences -/

section

variable {fire : Task α → Nat → Run (Machine δ α υ) Unit}

theorem catchUp_eq (execute : Nat → Run (Machine δ α υ) Unit) (h : PeriodicHandle) (name : String)
    (period : Nat) (action : α) (n late : Nat) :
    catchUp execute h name period action n late = execute late >>= fun _ m =>
      if m.isRegistered h then
        match n with
        | 0 => (armPeriodic h name (period - late) period action).toRun m
        | n + 1 => catchUp execute h name period action n (late - period) m
      else some (.ok (), m) := by
  funext m
  rw [Run.bind_apply, catchUp]
  beta_reduce
  rcases execute late m with _ | ⟨_ | _, _⟩ <;> rfl

theorem fireDue_of_popDue {target : Nat} {m : Machine δ α υ} {e : Event (Task α)}
    {t : Timeline (Task α)} (hp : m.timeline.popDue target = some (e, t)) (bound : Nat) :
    Host.fireDue fire target (bound + 1) m =
      (fire e.task (target - e.triggerAt) >>= fun _ => Host.fireDue fire target bound)
        (Host.setTimeline t m) := by
  have ht : (Host.timeline m).popDue target = some (e, t) := hp
  rw [Run.bind_apply, Host.fireDue]
  beta_reduce
  rw [ht]
  dsimp only
  rcases fire e.task (target - e.triggerAt) (Host.setTimeline t m) with _ | ⟨_ | _, _⟩ <;> rfl

theorem drain_of_takeStolen {m m₁ : Machine δ α υ} {stolen : Nat}
    (ht : takeStolen m = (stolen + 1, m₁)) (bound n : Nat) :
    drain fire bound (n + 1) m =
      (Host.advance fire bound (stolen + 1) >>= fun _ => drain fire bound n) m₁ := by
  rw [Run.bind_apply, drain]
  beta_reduce
  rw [ht]
  dsimp only
  rcases Host.advance fire bound (stolen + 1) m₁ with _ | ⟨_ | _, _⟩ <;> rfl

theorem drain_of_takeStolen_ne_zero {m m₁ : Machine δ α υ} {stolen : Nat}
    (ht : takeStolen m = (stolen, m₁)) (hs : stolen ≠ 0) (bound n : Nat) :
    drain fire bound (n + 1) m =
      (Host.advance fire bound stolen >>= fun _ => drain fire bound n) m₁ := by
  obtain ⟨stolen, rfl⟩ := Nat.exists_eq_succ_of_ne_zero hs
  exact drain_of_takeStolen ht bound n

theorem drain_of_takeStolen_eq_zero {m m₁ : Machine δ α υ} (ht : takeStolen m = (0, m₁))
    (bound n : Nat) : drain fire bound (n + 1) m = some (.ok (), m₁) := by
  rw [drain]
  beta_reduce
  rw [ht]

theorem run_eq (bound cycles : Nat) :
    run fire bound cycles = Host.advance fire bound cycles >>= fun _ => drain fire bound bound := by
  funext m
  rw [Run.bind_apply, run]
  rcases Host.advance fire bound cycles m with _ | ⟨_ | _, _⟩ <;> rfl

end

/-! ### In lockstep -/

variable [Board δ]

/-- From mirrored machines, both runs are out of their bound or they end alike, and their journals
correspond; if channels that go on running keep their modes. -/
def Lockstep (o : Rendering α α') (V : β → γ → Prop) (x : Run (Machine δ α υ) β)
    (j : Machine δ α υ → Journal δ α υ) (x' : Run (Machine δ α' υ) γ)
    (j' : Machine δ α' υ → Journal δ α' υ) : Prop :=
  ∀ m m', Mirrors o m m' → (∀ i ∈ j m, i.KeepsModes) →
    Option.Rel (Paired V (Mirrors o)) (x m) (x' m') ∧ List.Forall₂ (Item.Mirrors o) (j m) (j' m')

variable {o : Rendering α α'} {V : β → γ → Prop} {W : ε → ζ → Prop} {x : Run (Machine δ α υ) β}
  {j : Machine δ α υ → Journal δ α υ} {x' : Run (Machine δ α' υ) γ}
  {j' : Machine δ α' υ → Journal δ α' υ}

theorem Lockstep.mono {W : β → γ → Prop} (h : Lockstep o V x j x' j') (hV : ∀ b c, V b c → W b c) :
    Lockstep o W x j x' j' := by
  intro m m' hm hk
  obtain ⟨hr, hj⟩ := h m m' hm hk
  exact ⟨Paired.rel_imp hr fun _ _ hp => hp.mono hV, hj⟩

/-- **One run after the other.** -/
theorem Lockstep.bind (hx : Lockstep o V x j x' j') {f : β → Run (Machine δ α υ) ε}
    {k : β → Machine δ α υ → Journal δ α υ} {f' : γ → Run (Machine δ α' υ) ζ}
    {k' : γ → Machine δ α' υ → Journal δ α' υ}
    (hf : ∀ b c, V b c → Lockstep o W (f b) (k b) (f' c) (k' c)) :
    Lockstep o W (x >>= f) (fun m => j m ++ after x k m) (x' >>= f')
      (fun m' => j' m' ++ after x' k' m') := by
  intro m m' h hk
  obtain ⟨hr, hj⟩ := hx m m' h fun i hi => hk i (List.mem_append_left _ hi)
  replace hk : ∀ i ∈ after x k m, i.KeepsModes := fun i hi => hk i (List.mem_append_right _ hi)
  rw [Run.bind_apply, Run.bind_apply]
  simp only [after] at hk ⊢
  generalize x m = u at hr hk
  generalize x' m' = v at hr
  cases hr with
  | none => exact ⟨.none, by simpa using hj⟩
  | @some u v hp =>
      obtain ⟨r, m₁⟩ := u
      obtain ⟨r', m₁'⟩ := v
      obtain ⟨ha, hm⟩ := hp
      cases ha with
      | error e => exact ⟨.some ⟨.error e, hm⟩, by simpa using hj⟩
      | ok hv =>
          obtain ⟨hr, hj'⟩ := hf _ _ hv m₁ m₁' hm hk
          exact ⟨hr, List.rel_append hj hj'⟩

/-! ### Scripts -/

theorem ofScript_lockstep {I J : Interface}
    {perform : (c : I.Call) → Run (Machine δ α υ) (I.Answer c)}
    {record : I.Call → Machine δ α υ → Journal δ α υ}
    {perform' : (d : J.Call) → Run (Machine δ α' υ) (J.Answer d)}
    {record' : J.Call → Machine δ α' υ → Journal δ α' υ} {C : I.Call → J.Call → Prop}
    {A : (c : I.Call) → (d : J.Call) → I.Answer c → J.Answer d → Prop}
    (hp : ∀ c d, C c d → Lockstep o (A c d) (perform c) (record c) (perform' d) (record' d))
    {s : Script I β} {s' : Script J γ} (hs : Script.Twins C A V s s') :
    Lockstep o V (s.exec perform) (ofScript perform record s) (s'.exec perform')
      (ofScript perform' record' s') := by
  induction hs with
  | done hv => exact fun m m' h _ => ⟨.some ⟨.ok hv, h⟩, .nil⟩
  | fail e => exact fun m m' h _ => ⟨.some ⟨.error e, h⟩, .nil⟩
  | @ask c d next next' hc _ ih =>
      intro m m' h hk
      simp only [ofScript] at hk ⊢
      obtain ⟨hr, hj⟩ := hp c d hc m m' h fun i hi => hk i (List.mem_append_left _ hi)
      replace hk := fun i hi => hk i (List.mem_append_right _ hi)
      simp only [Script.exec]
      generalize perform c m = u at hr hk
      generalize perform' d m' = v at hr
      cases hr with
      | none => exact ⟨.none, by simpa using hj⟩
      | @some u v hp =>
          obtain ⟨r, m₁⟩ := u
          obtain ⟨r', m₁'⟩ := v
          obtain ⟨ha, hm⟩ := hp
          obtain ⟨hr, hj'⟩ := ih r r' ha m₁ m₁' hm hk
          exact ⟨hr, List.rel_append hj hj'⟩

/-! ### Firing -/

/-- An operation, of which the journal says nothing. -/
theorem lockstep_toRun {x : Op (Machine δ α υ) β} {y : Op (Machine δ α' υ) γ}
    (h : Op.Twins V (Mirrors o) x y) :
    Lockstep o V x.toRun (fun _ => []) y.toRun (fun _ => []) :=
  fun m m' hm _ => ⟨.some (h m m' hm).paired, .nil⟩

/-- **Registrations catch up alike.** -/
theorem catchUp_lockstep {execute : Nat → Run (Machine δ α υ) Unit}
    {invocation : Nat → Machine δ α υ → Journal δ α υ}
    {execute' : Nat → Run (Machine δ α' υ) Unit}
    {invocation' : Nat → Machine δ α' υ → Journal δ α' υ}
    (hx : ∀ late, Lockstep o (· = ·) (execute late) (invocation late) (execute' late)
      (invocation' late)) (h : PeriodicHandle) (name : String) (period : Nat) (action : α) :
    ∀ n late, Lockstep o (· = ·) (catchUp execute h name period action n late)
      (ofCatchUp execute invocation h period n late)
      (catchUp execute' (o.handle h) name period (o.action action) n late)
      (ofCatchUp execute' invocation' (o.handle h) period n late) := by
  intro n
  induction n with
  | zero =>
      intro late
      rw [catchUp_eq, catchUp_eq]
      refine (hx late).bind fun _ _ _ m m' hm _ => ?_
      dsimp only
      rw [hm.isRegistered]
      split
      · rename_i hr
        obtain ⟨id, hs⟩ := isRegistered_iff.1 hr
        have hid : (slotAt m.slots h.slot).event = some id :=
          congrArg PeriodicSlot.event (slotAt_of_some hs)
        have ha := hm.armPeriodic (lt_size_of_event hid)
          (lt_size_of_event ((hm.event _).trans hid)) name (period - late) period action
        exact ⟨.some ha.paired, .nil⟩
      · exact ⟨.some ⟨.ok rfl, hm⟩, .nil⟩
  | succ n ih =>
      intro late
      rw [catchUp_eq, catchUp_eq]
      refine (hx late).bind fun _ _ _ m m' hm hk => ?_
      dsimp only at hk ⊢
      rw [hm.isRegistered]
      split at hk
      · rename_i hr
        rw [if_pos hr, if_pos hr, if_pos hr, if_pos hr]
        exact ih (late - period) m m' hm hk
      · rename_i hr
        rw [if_neg hr, if_neg hr, if_neg hr, if_neg hr]
        exact ⟨.some ⟨.ok rfl, hm⟩, .nil⟩

/-- **Events do the same.** -/
theorem ofTask_lockstep {execute : α → Nat → Run (Machine δ α υ) Unit}
    {invocation : α → Nat → Machine δ α υ → Journal δ α υ}
    {execute' : α' → Nat → Run (Machine δ α' υ) Unit}
    {invocation' : α' → Nat → Machine δ α' υ → Journal δ α' υ}
    (hx : ∀ action late, Lockstep o (· = ·) (execute action late) (invocation action late)
      (execute' (o.action action) late) (invocation' (o.action action) late)) (task : Task α)
    (late : Nat) :
    Lockstep o (· = ·) (fire execute task late) (ofTask execute invocation task late)
      (fire execute' (o.task task) late) (ofTask execute' invocation' (o.task task) late) := by
  cases task with
  | service => exact lockstep_toRun serviceChannels_twins
  | resume p generation => exact lockstep_toRun (resumeChannel_twins p generation)
  | periodic h name period action => exact catchUp_lockstep (hx action) h name period action _ late
  | client action => exact hx action late

section Run

variable {fire : Task α → Nat → Run (Machine δ α υ) Unit}
  {callback : Task α → Nat → Machine δ α υ → Journal δ α υ}
  {fire' : Task α' → Nat → Run (Machine δ α' υ) Unit}
  {callback' : Task α' → Nat → Machine δ α' υ → Journal δ α' υ}
  (hf : ∀ task late, Lockstep o (· = ·) (fire task late) (callback task late)
    (fire' (o.task task) late) (callback' (o.task task) late))

include hf

/-- **What is due is fired alike.** -/
theorem fireDue_lockstep (target : Nat) :
    ∀ bound, Lockstep o (· = ·) (Host.fireDue fire target bound)
      (ofFireDue fire callback target bound) (Host.fireDue fire' target bound)
      (ofFireDue fire' callback' target bound)
  | 0 => fun _ _ _ _ => ⟨.none, .nil⟩
  | bound + 1 => by
      intro m m' hm hk
      have hp' := hm.popDue target
      cases hp : m.timeline.popDue target with
      | none =>
          rw [hp, Option.map_none] at hp'
          rw [Host.fireDue_of_popDue_eq_none hp, Host.fireDue_of_popDue_eq_none hp', ofFireDue,
            ofFireDue, hp, hp']
          exact ⟨.some ⟨.ok rfl, hm⟩, .nil⟩
      | some x =>
          obtain ⟨e, t⟩ := x
          rw [hp, Option.map_some] at hp'
          rw [ofFireDue, hp] at hk
          rw [fireDue_of_popDue hp, fireDue_of_popDue hp', ofFireDue, ofFireDue, hp, hp']
          have hm' := hm.popped hp
          obtain ⟨hr, hj⟩ := (hf e.task (target - e.triggerAt)).bind
            (fun _ _ _ => fireDue_lockstep target bound) _ _ hm'
            fun i hi => hk i (List.mem_cons_of_mem _ hi)
          exact ⟨hr, .cons (.fired e _ hm'.view) hj⟩

theorem advance_lockstep (bound n : Nat) :
    Lockstep o (· = ·) (Host.advance fire bound n) (ofAdvance fire callback bound n)
      (Host.advance fire' bound n) (ofAdvance fire' callback' bound n) := by
  intro m m' hm hk
  have hn : m'.timeline.now + n = m.timeline.now + n := by rw [hm.timeline, Timeline.map]
  have hn' : (Host.timeline m').now + n = m.timeline.now + n := hn
  rw [Host.advance, Host.advance, ofAdvance, ofAdvance, hn, hn']
  exact fireDue_lockstep hf (Timeline.wrap (m.timeline.now + n)) bound _ _ (hm.setNow _) hk

theorem drain_lockstep (bound : Nat) :
    ∀ n, Lockstep o (· = ·) (drain fire bound n) (ofDrain fire callback bound n)
      (drain fire' bound n) (ofDrain fire' callback' bound n)
  | 0 => fun _ _ _ _ => ⟨.none, .nil⟩
  | n + 1 => by
      intro m m' hm hk
      obtain ⟨hs, ht⟩ := hm.takeStolen
      rw [ofDrain] at hk
      rw [ofDrain, ofDrain]
      rcases hu : takeStolen m with ⟨stolen, m₁⟩
      rcases hv : takeStolen m' with ⟨_, m₁'⟩
      rw [hu] at hs ht hk
      rw [hv] at hs ht
      cases hs
      cases stolen with
      | zero =>
          rw [drain, drain]
          beta_reduce
          rw [hu, hv]
          exact ⟨.some ⟨.ok rfl, ht⟩, .nil⟩
      | succ stolen =>
          rw [drain_of_takeStolen hu, drain_of_takeStolen hv]
          exact (advance_lockstep hf bound (stolen + 1)).bind
            (fun _ _ _ => drain_lockstep bound n) m₁ m₁' ht hk

/-- **Runs are in lockstep.** -/
theorem run_lockstep (bound cycles : Nat) :
    Lockstep o (· = ·) (run fire bound cycles) (ofRun fire callback bound cycles)
      (run fire' bound cycles) (ofRun fire' callback' bound cycles) := by
  rw [run_eq, run_eq]
  exact (advance_lockstep hf bound cycles).bind fun _ _ _ => drain_lockstep hf bound bound

theorem runToNext_lockstep (bound : Nat) :
    Lockstep o (· = ·) (runToNext fire bound) (ofRunToNext fire callback bound)
      (runToNext fire' bound) (ofRunToNext fire' callback' bound) := by
  intro m m' hm hk
  have hu : m'.timeline.untilNext? = m.timeline.untilNext? := by
    rw [hm.timeline, Timeline.untilNext?_map]
  simp only [runToNext, ofRunToNext, hu] at hk ⊢
  cases hn : m.timeline.untilNext? with
  | none => exact ⟨.some ⟨.ok rfl, hm⟩, .nil⟩
  | some cycles =>
      rw [hn] at hk
      obtain ⟨hr, hj⟩ := run_lockstep hf bound cycles m m' hm hk
      refine ⟨?_, hj⟩
      dsimp only
      generalize run fire bound cycles m = u at hr
      generalize run fire' bound cycles m' = v at hr
      cases hr with
      | none => exact .none
      | @some u v hp =>
          obtain ⟨r, m₁⟩ := u
          obtain ⟨r', m₁'⟩ := v
          obtain ⟨ha, hm⟩ := hp
          cases ha with
          | ok => exact .some ⟨.ok rfl, hm⟩
          | error e => exact .some ⟨.error e, hm⟩

end Run

/-! ### Calls -/

/-- A call with what happens inside of it. -/
theorem enclosed_lockstep {c : Call δ α υ} {d : Call δ α' υ} (hc : c.Corresponds o d)
    {x : Run (Machine δ α υ) c.Answer} {inside : Machine δ α υ → Journal δ α υ}
    {x' : Run (Machine δ α' υ) d.Answer} {inside' : Machine δ α' υ → Journal δ α' υ}
    (h : Lockstep o (c.Answers o d) x (fun m => .began c m :: inside m) x'
      (fun m' => .began d m' :: inside' m')) :
    Lockstep o (c.Answers o d) x (enclosed c x inside) x' (enclosed d x' inside') := by
  intro m m' hm hk
  simp only [enclosed, ← List.cons_append] at hk ⊢
  obtain ⟨hr, hj⟩ := h m m' hm fun i hi => hk i (List.mem_append_left _ hi)
  refine ⟨hr, List.rel_append hj ?_⟩
  generalize x m = u at hr
  generalize x' m' = v at hr
  cases hr with
  | none => exact .nil
  | @some u v hp => exact .cons (.ended hc hp.agree hp.states.view) .nil

/-- The beginning of the call comes first. -/
theorem Lockstep.opened {c : Call δ α υ} {d : Call δ α' υ} (hc : c.Corresponds o d)
    (h : Lockstep o V x j x' j') :
    Lockstep o V x (fun m => .began c m :: j m) x' (fun m' => .began d m' :: j' m') := by
  intro m m' hm hk
  obtain ⟨hr, hj⟩ := h m m' hm fun i hi => hk i (List.mem_cons_of_mem _ hi)
  exact ⟨hr, .cons (.began hc hm.view) hj⟩

variable {handler : Handler δ α υ} {handler' : Handler δ α' υ}

/-- Calls that fire nothing come to the same. -/
theorem perform_of_not_fires {c : Call δ α υ} {d : Call δ α' υ} (hc : c.Corresponds o d)
    (hf : ¬c.Fires) (bound : Nat) {m : Machine δ α υ} {m' : Machine δ α' υ} (hm : Mirrors o m m')
    (hk : Item.KeepsModes (.began c m)) :
    Option.Rel (Paired (c.Answers o d) (Mirrors o)) (perform handler bound c m)
      (perform handler' bound d m') := by
  have same : ∀ {ε : Type} {x : Except Fault ε × Machine δ α υ}
      {y : Except Fault ε × Machine δ α' υ},
      Paired (· = ·) (Mirrors o) x y → Paired (fun a b => HEq a b) (Mirrors o) x y := fun h =>
    h.mono fun _ _ he => heq_of_eq he
  cases hc with
  | read w a => cases bound <;> exact .some (same (read_twins w a m m' hm).paired)
  | write w a v => cases bound <;> exact .some (same (hm.write (hk _ rfl)).paired)
  | writeMasked a v mask => cases bound <;> exact .some (same (hm.writeMasked (hk _ rfl)).paired)
  | request p => cases bound <;> exact .some (same (request_twins p m m' hm).paired)
  | takeEdge => cases bound <;> exact .some (same (takeEdge_twins m m' hm).paired)
  | run cycles | runToNext => exact absurd trivial hf
  | schedule name delay action =>
      cases bound <;>
        exact .some (same (scheduleTask_twins name delay (.client action) m m' hm).paired)
  | deschedule id =>
      have h := hm.deschedule id
      cases bound <;> exact .some (same ⟨.ok h.1.symm, h.2⟩)
  | schedulePeriodic name period action =>
      cases bound <;> exact .some (schedulePeriodic_twins name period action m m' hm).paired
  | cancelPeriodic h =>
      have h := hm.cancelPeriodic h
      cases bound <;> exact .some (same ⟨.ok h.1.symm, h.2⟩)
  | capture label taken =>
      have h := hm.capture label taken
      cases bound <;> exact .some (same ⟨.ok h.symm, hm⟩)
  | bus c => cases bound <;> exact .some (same (onBus_twins (Bus.perform_twin c) m m' hm).paired)
  | observe look =>
      have hv : look m.view = look m'.view := by rw [hm.view]
      cases bound <;> exact .some (same ⟨.ok hv, { hm with memory := hv.symm }⟩)

theorem perform_lockstep_of_not_fires {c : Call δ α υ} {d : Call δ α' υ}
    (hc : c.Corresponds o d) (hf : ¬c.Fires) (bound : Nat) :
    Lockstep o (c.Answers o d) (perform handler bound c) (journal handler bound c)
      (perform handler' bound d) (journal handler' bound d) := by
  have hf' : ¬d.Fires := by cases hc <;> exact hf
  refine enclosed_lockstep hc fun m m' hm hk => ?_
  beta_reduce at hk ⊢
  rw [inside_of_not_fires hf] at hk ⊢
  rw [inside_of_not_fires hf']
  exact ⟨perform_of_not_fires hc hf bound hm (hk _ (List.mem_singleton_self _)),
    .cons (.began hc hm.view) .nil⟩

/-- **Calls that correspond are in lockstep**, with all that happens inside. -/
theorem perform_lockstep
    (hh : ∀ action late, ScriptTwins o (· = ·) (handler action late)
      (handler' (o.action action) late)) :
    ∀ (bound : Nat) {c : Call δ α υ} {d : Call δ α' υ}, c.Corresponds o d →
      Lockstep o (c.Answers o d) (perform handler bound c) (journal handler bound c)
        (perform handler' bound d) (journal handler' bound d)
  | 0, c, d, hc => by
      by_cases hf : c.Fires
      · cases hc with
        | run cycles =>
            exact enclosed_lockstep (.run cycles)
              (.opened (.run cycles) fun _ _ _ _ => ⟨.none, .nil⟩)
        | runToNext =>
            exact enclosed_lockstep .runToNext (.opened .runToNext fun _ _ _ _ => ⟨.none, .nil⟩)
        | _ => cases hf
      · exact perform_lockstep_of_not_fires hc hf 0
  | bound + 1, c, d, hc => by
      -- Callbacks make their calls under the smaller bound, and those calls are in lockstep.
      have hx : ∀ action late, Lockstep o (· = ·) (execute handler bound action late)
          (invocation handler bound action late) (execute handler' bound (o.action action) late)
          (invocation handler' bound (o.action action) late) := fun action late m m' hm hk => by
        obtain ⟨hr, hj⟩ := ofScript_lockstep (I := interface δ α υ) (J := interface δ α' υ)
          (fun _ _ hc => perform_lockstep hh bound hc) (hh action late) m m' hm
          fun i hi => hk i (List.mem_cons_of_mem _ hi)
        exact ⟨hr, .cons (.invoked action late hm.view) hj⟩
      have ht := ofTask_lockstep hx
      by_cases hf : c.Fires
      · cases hc with
        | run cycles =>
            exact enclosed_lockstep (.run cycles) (.opened (.run cycles)
              ((run_lockstep ht (bound + 1) cycles).mono fun _ _ h => heq_of_eq h))
        | runToNext =>
            exact enclosed_lockstep .runToNext (.opened .runToNext
              ((runToNext_lockstep ht (bound + 1)).mono fun _ _ h => heq_of_eq h))
        | _ => cases hf
      · exact perform_lockstep_of_not_fires hc hf (bound + 1)

/-- **Scripts that correspond are in lockstep.** -/
theorem exec_lockstep
    (hh : ∀ action late, ScriptTwins o (· = ·) (handler action late)
      (handler' (o.action action) late)) (bound : Nat) {x : Script (interface δ α υ) β}
    {x' : Script (interface δ α' υ) γ} (hx : ScriptTwins o V x x') :
    Lockstep o V (x.exec (perform handler bound)) (chronicle handler bound x)
      (x'.exec (perform handler' bound)) (chronicle handler' bound x') :=
  ofScript_lockstep (fun _ _ hc => perform_lockstep hh bound hc) hx

end Machine

end DmaMachine
