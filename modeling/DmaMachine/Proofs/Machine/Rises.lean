import DmaMachine.Proofs.Machine.Interrupts
import DmaMachine.Proofs.Machine.Trace

/-!
# The count of rises

A machine counts the rises of its interrupt line, by a comparison of the line before and after each
service pass.  A client that sees the journal can keep a *record* of every rise since power-on, or
since the last reset or restored snapshot, with its cause: it looks at the line at every item of the
journal, and in a service pass after the step of each channel.

A step never lowers the line (`Channel.line_step`), so within a pass the line rises once at most,
and the comparison misses nothing of it (`Engine.rises_levels`).  But a write of the processor
raises the line as well, when it sets the bus error or an enable whose flag is up, and then there
is no comparison.

* `rises_counted`: **the count is that of the rises in passes**, in every history.  Where no call
  fails it is that of all rises exactly if no write has raised the line.
* `written_rise_is_missed`: a write that raises the line.
-/

namespace DmaMachine

namespace Controller

/-! ### Steps do not lower the line -/

theorem Demanded.mono {w w' : UInt32} (h : Demanded w)
    (hw : ∀ i, bit w i = true → bit w' i = true) : Demanded w' := by
  obtain ⟨hm, hb | ⟨p, he, hf⟩⟩ := h
  · exact ⟨hw _ hm, .inl (hw _ hb)⟩
  · exact ⟨hw _ hm, .inr ⟨p, hw _ he, hw _ hf⟩⟩

theorem bit_request_of_bit {c : Controller} (n : Nat) {i : Nat}
    (h : bit c.interruptWord i = true) : bit (c.request n).interruptWord i = true := by
  rw [request]
  split
  · exact (bit_or ..).trans (by rw [h, Bool.true_or])
  · exact h

/-- A deed of a step clears no bit of the interrupt word. -/
theorem Deed.OfStep.bit_after {d : Deed} (hd : d.OfStep) {c : Controller} {i : Nat}
    (h : bit c.interruptWord i = true) : bit (d.after c).interruptWord i = true := by
  cases d with
  | complete p => exact bit_request_of_bit _ h
  | endBlock p =>
      rw [Deed.after, Controller.endBlock]
      split
      · exact bit_request_of_bit _ h
      · exact h
  | busError => exact (bit_or ..).trans (by rw [h, Bool.true_or])
  | _ => cases hd

/-- **A deed of a step does not lower the line.** -/
theorem Sound.line_of_step {c : Controller} (hc : c.Sound) {d : Deed} (hd : d.OfStep)
    (h : c.line = true) : (d.after c).line = true := by
  rw [hc.line, demanded_iff] at h
  rw [(hc.after d).line, demanded_iff]
  exact h.mono fun _ => hd.bit_after

end Controller

open Controller

namespace Channel

variable {β : Type} [Master β]

theorem line_step (p : Peer) {s : Stage β} (hs : s.controller.Sound)
    (h : s.controller.line = true) : (Op.outcome (step p s)).2.controller.line = true := by
  obtain he | ⟨d, hd, he⟩ := step_deed p s <;> rw [he]
  · exact h
  · exact hs.line_of_step hd h

end Channel

/-! ### Rises -/

/-- The number of rises in the levels that come after a level. -/
def rises : Bool → List Bool → Nat
  | _, [] => 0
  | before, level :: levels => (!before && level).toNat + rises level levels

/-- Levels that are never lowered end no lower than they begin. -/
theorem le_getLastD : ∀ {before : Bool} {levels : List Bool},
    List.IsChain (· ≤ ·) (before :: levels) → before ≤ levels.getLastD before
  | before, [], _ => Bool.le_refl before
  | before, level :: levels, h => by
      obtain ⟨hle, h⟩ := List.isChain_cons_cons.1 h
      rw [List.getLastD_cons]
      exact Bool.le_trans hle (le_getLastD h)

/-- **Levels that are never lowered** rise once at most. -/
theorem rises_of_isChain : ∀ {before : Bool} {levels : List Bool},
    List.IsChain (· ≤ ·) (before :: levels) →
      rises before levels = (!before && levels.getLastD before).toNat
  | before, [], _ => by cases before <;> rfl
  | before, level :: levels, h => by
      have hall : ∀ before level last : Bool, before ≤ level → level ≤ last →
          (!before && level).toNat + (!level && last).toNat = (!before && last).toNat := by decide
      obtain ⟨hle, h⟩ := List.isChain_cons_cons.1 h
      rw [rises, rises_of_isChain h, List.getLastD_cons]
      exact hall _ _ _ hle (le_getLastD h)

namespace Engine

variable {β : Type} [Master β]

/-- The levels of the line after the steps of the given channels, those that are active. -/
def levelsEach : List Peer → Engine × β → List Bool
  | [], _ => []
  | p :: ps, s =>
      if (s.1.channel p).active then
        match step p s with
        | .ok _ s => s.1.controller.line :: levelsEach ps s
        | .error _ s => [s.1.controller.line]
      else levelsEach ps s

/-- The levels of the line after the steps of a service pass. -/
def levels (s : Engine × β) : List Bool := levelsEach s.1.controller.order s

theorem sound_step (p : Peer) {s : Engine × β} (hs : s.1.controller.Sound) :
    (Op.outcome (step p s)).2.1.controller.Sound := by
  obtain ⟨ds, hds⟩ := step_leads p s
  exact hds ▸ hs.afterAll ds

theorem line_step (p : Peer) {s : Engine × β} (hs : s.1.controller.Sound) :
    s.1.controller.line ≤ (Op.outcome (step p s)).2.1.controller.line := by
  have hl := Channel.line_step p (s := ⟨s.1.channel p, s.1.controller, s.2⟩) hs
  rw [step_eq]
  split <;> rename_i he <;> rw [he] at hl <;> exact hl

theorem isChain_levelsEach : ∀ (ps : List Peer) {s : Engine × β}, s.1.controller.Sound →
    List.IsChain (· ≤ ·) (s.1.controller.line :: levelsEach ps s)
  | [], _, _ => .singleton _
  | p :: ps, s, hs => by
      have hst := sound_step p hs
      have hl := line_step p hs
      rw [levelsEach]
      split
      · cases he : step p s <;> rw [he] at hst hl
        · exact .cons_cons hl (isChain_levelsEach ps hst)
        · exact .cons_cons hl (.singleton _)
      · exact isChain_levelsEach ps hs

/-- The last step leaves the line as it is after the pass. -/
theorem getLastD_levelsEach : ∀ (ps : List Peer) (s : Engine × β),
    (levelsEach ps s).getLastD s.1.controller.line =
      (Op.outcome (serviceEach ps s)).2.1.controller.line
  | [], _ => rfl
  | p :: ps, s => by
      simp only [levelsEach, serviceEach]
      split
      · cases step p s with
        | error => rfl
        | ok status t =>
            have ht := getLastD_levelsEach ps t
            simp only [List.getLastD_cons, ht]
            cases serviceEach ps t <;> rfl
      · exact getLastD_levelsEach ps s

/-- **Within a service pass the line rises once at most**, and then it is high afterwards. -/
theorem rises_levels {s : Engine × β} (hs : s.1.controller.Sound) :
    rises s.1.controller.line (levels s) =
      (!s.1.controller.line && (Op.outcome (service s)).2.1.controller.line).toNat := by
  rw [levels, rises_of_isChain (isChain_levelsEach _ hs), getLastD_levelsEach]
  rfl

end Engine

namespace Machine

open Journal

variable {δ α υ β : Type} {m m' : Machine δ α υ}

/-! ### What leaves the count and the line alone -/

/-- The statistics and the controller are the same. -/
structure Unmoved (m m' : Machine δ α υ) : Prop where
  stats : m'.stats = m.stats
  controller : m'.engine.controller = m.engine.controller

theorem unmoved_chains : Chains (Unmoved (δ := δ) (α := α) (υ := υ)) where
  refl _ := ⟨rfl, rfl⟩
  trans h k := ⟨k.stats.trans h.stats, k.controller.trans h.controller⟩

theorem scheduleTask_unmoved (name : String) (delay : Nat) (task : Task α) :
    Op.Relates (Unmoved (δ := δ) (υ := υ)) (scheduleTask name delay task) := by
  intro m
  cases hs : scheduleTask name delay task m with
  | ok id m' =>
      obtain ⟨-, rfl⟩ := scheduleTask_eq_ok hs
      exact ⟨rfl, rfl⟩
  | error e m' =>
      obtain rfl := scheduleTask_eq_error hs
      exact unmoved_chains.refl _

theorem requestService_unmoved :
    Op.Relates (Unmoved (δ := δ) (α := α) (υ := υ)) requestService := by
  intro m
  have h := scheduleTask_unmoved "DMA" 0 .service m
  simp only [requestService]
  split
  · exact unmoved_chains.refl m
  · split <;> rename_i hs <;> rw [hs] at h
    · exact ⟨h.stats, h.controller⟩
    · exact h

theorem onBus_unmoved (op : Op (Bus δ) β) : Op.Relates (Unmoved (α := α) (υ := υ)) (onBus op) := by
  intro m
  simp only [onBus]
  cases op m.bus <;> exact ⟨rfl, rfl⟩

theorem sameStats_chains : Chains fun m m' : Machine δ α υ => m'.stats = m.stats :=
  ⟨fun _ => rfl, fun h k => k.trans h⟩

/-- An operation of the engine, and a request of service if it says so, leave the statistics
alone. -/
theorem onEngine_stats {op : Op Engine Bool} {γ : Type} {f : Bool → Op (Machine δ α υ) γ}
    (hf : ∀ b, Op.Relates Unmoved (f b)) (m : Machine δ α υ) :
    (Op.outcome ((onEngine op >>= f) m)).2.stats = m.stats := by
  refine Op.Relates.bind sameStats_chains (fun m => ?_) (fun b m => (hf b m).stats) m
  simp only [onEngine]
  cases op m.engine <;> rfl

theorem writeRegister_stats (offset v mask : UInt32) (m : Machine δ α υ) :
    (Op.outcome (writeRegister offset v mask m)).2.stats = m.stats := by
  refine onEngine_stats (fun b => ?_) m
  cases b with
  | true => exact requestService_unmoved
  | false => exact unmoved_chains.refl

theorem request_unmoved (p : Peer) (m : Machine δ α υ) :
    Unmoved m (Op.outcome (request p m)).2 := by
  refine ⟨onEngine_stats (fun b => ?_) m, ?_⟩
  · cases b with
    | true => exact .bind unmoved_chains requestService_unmoved fun _ => unmoved_chains.refl
    | false => exact unmoved_chains.refl
  · rw [request_engine, Engine.request_controller]

theorem resumeChannel_unmoved (p : Peer) (generation : UInt32) (m : Machine δ α υ) :
    Unmoved m (Op.outcome (resumeChannel p generation m)).2 := by
  refine ⟨onEngine_stats (m := { m with
    resumeEvents := m.resumeEvents.set p.index none p.index_lt }) (fun b => ?_), ?_⟩
  · cases b with
    | true => exact requestService_unmoved
    | false => exact unmoved_chains.refl
  · rw [resumeChannel_engine, Engine.resume_controller]

theorem armPeriodic_unmoved (h : PeriodicHandle) (name : String) (delay period : Nat) (action : α) :
    Op.Relates (Unmoved (δ := δ) (υ := υ)) (armPeriodic h name delay period action) := by
  intro m
  obtain ⟨e, he⟩ | ⟨slots, he, -⟩ := armPeriodic_cases h name delay period action m <;> rw [he] <;>
    exact ⟨rfl, rfl⟩

theorem scheduleResume_unmoved (p : Peer) (delay : Nat) :
    Op.Relates (Unmoved (δ := δ) (α := α) (υ := υ)) (scheduleResume p delay) := by
  intro m
  have hd : Unmoved m (m.dropResume p) := by
    have hp := p.index_lt
    rw [dropResume]
    cases m.resumeEvents[p.index] <;> exact ⟨rfl, rfl⟩
  have h := scheduleTask_unmoved "DMA resume" delay
    (.resume p ((m.dropResume p).engine.channel p).generation) (m.dropResume p)
  simp only [scheduleResume]
  split <;> rename_i hs <;> rw [hs] at h
  · exact unmoved_chains.trans hd ⟨h.stats, h.controller⟩
  · exact unmoved_chains.trans hd h

/-- The line is the same, and so is the count of its rises. -/
def SameCount (m m' : Machine δ α υ) : Prop :=
  m'.stats.dmaInterrupts = m.stats.dmaInterrupts ∧
    m'.engine.controller.line = m.engine.controller.line

theorem Unmoved.sameCount (h : Unmoved m m') : SameCount m m' :=
  ⟨congrArg Stats.dmaInterrupts h.stats, congrArg Controller.line h.controller⟩

theorem sameCount_chains : Chains (SameCount (δ := δ) (α := α) (υ := υ)) where
  refl _ := ⟨rfl, rfl⟩
  trans h k := ⟨k.1.trans h.1, k.2.trans h.2⟩

theorem noteOutcomes_sameCount : ∀ outcomes : List (Peer × Status),
    Op.Relates (SameCount (δ := δ) (α := α) (υ := υ)) (noteOutcomes outcomes)
  | [] => sameCount_chains.refl
  | (p, status) :: rest => by
      refine .bind sameCount_chains (fun m => ?_) fun _ => noteOutcomes_sameCount rest
      cases status with
      | chopped resumeIn =>
          have h := scheduleResume_unmoved p resumeIn { m with
            stats := { m.stats with choppedWindows := m.stats.choppedWindows + 1 } }
          exact h.sameCount
      | idle | completed | blockDone | faulted => exact ⟨rfl, rfl⟩

section Board

variable [Board δ] {handler : Handler δ α υ}

/-- The writes of the processor. -/
def Call.Writes : Call δ α υ → Bool
  | .write .. | .writeMasked .. => true
  | _ => false

theorem writeMasked_stats (a v mask : UInt32) (m : Machine δ α υ) :
    (Op.outcome (writeMasked a v mask m)).2.stats = m.stats :=
  writeMasked_relates sameStats_chains (fun _ _ m => (onBus_unmoved _ m).stats)
    (fun _ _ _ m => (onBus_unmoved _ m).stats) writeRegister_stats a v mask m

theorem write_stats (w : Width) (a v : UInt32) (m : Machine δ α υ) :
    (Op.outcome (write w a v m)).2.stats = m.stats :=
  write_relates sameStats_chains (fun _ _ m => (onBus_unmoved _ m).stats)
    (fun _ _ _ m => (onBus_unmoved _ m).stats) writeRegister_stats w a v m

/-- **A call that fires nothing** counts no rise, and none but a write moves the line; or it clears
the machine, and the count with it. -/
theorem perform_unmoved {bound : Nat} {c : Call δ α υ} {r : Except Fault c.Answer} (hc : ¬c.Fires)
    (hp : perform handler bound c m = some (r, m')) :
    ((Item.ended c r m').clears = true ∧ m'.stats = {}) ∨
      (Item.ended c r m').clears = false ∧ m'.stats = m.stats ∧
        (c.Writes = false → m'.engine.controller.line = m.engine.controller.line) := by
  have unmoved : ∀ {c : Call δ α υ} {r : Except Fault c.Answer} {m' : Machine δ α υ}, Unmoved m m' →
      (Item.ended c r m').clears = false → ((Item.ended c r m').clears = true ∧ m'.stats = {}) ∨
      (Item.ended c r m').clears = false ∧ m'.stats = m.stats ∧
        (c.Writes = false → m'.engine.controller.line = m.engine.controller.line) :=
    fun h hcl => .inr ⟨hcl, h.stats, fun _ => congrArg Controller.line h.controller⟩
  cases c with
  | write w a v =>
      simp only [perform] at hp
      exact .inr ⟨rfl, congrArg (·.2.stats) (Option.some.inj hp) ▸ write_stats w a v m,
        fun hw => absurd hw.symm Bool.false_ne_true⟩
  | writeMasked a v mask =>
      simp only [perform] at hp
      exact .inr ⟨rfl, congrArg (·.2.stats) (Option.some.inj hp) ▸ writeMasked_stats a v mask m,
        fun hw => absurd hw.symm Bool.false_ne_true⟩
  | read | bus | schedule | deschedule | schedulePeriodic | cancelPeriodic | capture | observe =>
      obtain ⟨he, hs⟩ := perform_apart (by exact trivial) hp
      exact unmoved ⟨hs, congrArg Engine.controller he⟩ rfl
  | request p =>
      simp only [perform] at hp
      exact unmoved (Op.Relates.of_outcome (request_unmoved p) (Option.some.inj hp)) rfl
  | takeEdge =>
      simp only [perform] at hp
      cases hp
      exact .inr ⟨rfl, rfl, fun _ => rfl⟩
  | reset =>
      simp only [perform] at hp
      cases hp
      exact .inl ⟨rfl, rfl⟩
  | restore s =>
      simp only [perform] at hp
      obtain ⟨e, he⟩ | ⟨m₁, he, -, -, -, hs, -⟩ := restore_cases s m <;>
        rw [Op.toRun_apply, he] at hp <;> cases hp
      · exact unmoved (unmoved_chains.refl m) rfl
      · exact .inl ⟨rfl, hs⟩
  | run | runToNext => exact absurd trivial hc

/-! ### Service passes -/

/-- A service pass fails, or counts a rise at its end. -/
theorem serviceChannels_cases (m : Machine δ α υ) :
    ∃ k : Machine δ α υ, k.stats.dmaInterrupts = m.stats.dmaInterrupts ∧
      k.engine.controller.line =
        (Op.outcome (Engine.service (m.engine, m.bus))).2.1.controller.line ∧
      ((∃ e, serviceChannels m = .error e k) ∨
        serviceChannels m = .ok () (k.noteRise m.engine.controller.line)) := by
  obtain ⟨timeline, bus, engine, service, resumes, slots, stats, memory⟩ := m
  simp only [serviceChannels]
  cases he : Engine.service (engine, bus) with
  | error e s => exact ⟨_, rfl, rfl, .inl ⟨e, rfl⟩⟩
  | ok outcomes s =>
      have hn := noteOutcomes_sameCount outcomes
        ⟨timeline, s.2, s.1, none, resumes, slots, stats, memory⟩
      dsimp only
      cases ho : noteOutcomes outcomes
        ⟨timeline, s.2, s.1, none, resumes, slots, stats, memory⟩ <;> rw [ho] at hn
      · exact ⟨_, hn.1, hn.2, .inr rfl⟩
      · exact ⟨_, hn.1, hn.2, .inl ⟨_, rfl⟩⟩

omit [Board δ] in
theorem noteRise_count (before : Bool) (m : Machine δ α υ) :
    (m.noteRise before).stats.dmaInterrupts =
        m.stats.dmaInterrupts + (!before && m.engine.controller.line).toNat ∧
      (m.noteRise before).engine = m.engine := by
  rw [noteRise]
  split <;> rename_i h
  · rw [h]
    exact ⟨rfl, rfl⟩
  · rw [Bool.eq_false_iff.2 h]
    exact ⟨rfl, rfl⟩

/-- **A service pass that ends well counts its rises**, and another one counts nothing. -/
theorem serviceChannels_count (hs : m.engine.controller.Sound) {r : Except Fault Unit}
    (ho : Op.outcome (serviceChannels m) = (r, m')) :
    m'.stats.dmaInterrupts = m.stats.dmaInterrupts +
      if r.isOk then rises m.engine.controller.line (Engine.levels (m.engine, m.bus)) else 0 := by
  rw [Engine.rises_levels (s := (m.engine, m.bus)) hs]
  obtain ⟨k, hc, hl, ⟨e, he⟩ | he⟩ := serviceChannels_cases m <;> rw [he] at ho <;> cases ho
  · exact hc
  · rw [(noteRise_count ..).1, hc, hl]
    rfl

/-! ### The record of a history -/

/-- What a rise of the line came of. -/
inductive Cause where
  /-- A service pass that ended well. -/
  | served
  /-- A service pass that failed. -/
  | failed
  /-- A write of the processor. -/
  | written
  | other
deriving DecidableEq

/-- What has been seen of the line since power-on, or since the last reset or restored snapshot. -/
structure LineRecord where
  /-- The level seen last. -/
  level : Bool := false
  /-- The causes of the rises, the latest first. -/
  rises : List Cause := []
deriving DecidableEq

namespace LineRecord

/-- Looks at the line, where a rise has this cause. -/
def look (cause : Cause) (r : LineRecord) (level : Bool) : LineRecord where
  level
  rises := if !r.level && level then cause :: r.rises else r.rises

/-- Looks at the line at an item of the journal, and in a service pass after each step. -/
def after (r : LineRecord) : Item δ α υ → LineRecord
  | .began _ m | .invoked _ _ m => r.look .other m.engine.controller.line
  | .ended c x m =>
      if (Item.ended c x m).clears then { level := m.engine.controller.line }
      else r.look (if c.Writes then .written else .other) m.engine.controller.line
  | .fired e _ m =>
      match e.task with
      | .service =>
          (Engine.levels (m.engine, m.bus)).foldl
            (look (if (Op.outcome (serviceChannels m)).1.isOk then .served else .failed))
            (r.look .other m.engine.controller.line)
      | _ => r.look .other m.engine.controller.line

omit [Board δ] in
theorem look_self (cause : Cause) (r : LineRecord) : r.look cause r.level = r := by
  obtain ⟨level, rises⟩ := r
  cases level <;> rfl

/-- Looks at one level after the other. -/
theorem foldl_look (cause : Cause) : ∀ (levels : List Bool) (r : LineRecord),
    levels.foldl (look cause) r =
      ⟨levels.getLastD r.level, List.replicate (DmaMachine.rises r.level levels) cause ++ r.rises⟩
  | [], _ => rfl
  | level :: levels, r => by
      have h : (r.look cause level).rises =
          List.replicate (!r.level && level).toNat cause ++ r.rises := by
        rw [look]
        cases !r.level && level <;> rfl
      rw [List.foldl_cons, foldl_look cause levels, List.getLastD_cons, h, ← List.append_assoc,
        List.replicate_append_replicate, DmaMachine.rises, Nat.add_comm]
      rfl

end LineRecord

/-- The record after a history. -/
def lineRecord (j : Journal δ α υ) : LineRecord := j.foldl LineRecord.after {}

/-- The record shows the level of the line, the machine has counted the rises in passes that ended
well, and there have been none but in passes and by writes. -/
structure Accurate (r : LineRecord) (m : Machine δ α υ) : Prop where
  level : r.level = m.engine.controller.line
  served : m.stats.dmaInterrupts = r.rises.count .served
  other : .other ∉ r.rises

/-- The record agrees with the machine at an item: before a call and when an event fires or an
action is invoked, and after a call that has ended. -/
def LineRecord.Agrees (r : LineRecord) : Item δ α υ → Prop
  | .began _ m | .fired _ _ m | .invoked _ _ m => Accurate r m
  | .ended c x m => Accurate (r.after (.ended c x m)) m

theorem lineRecord_snoc (j : Journal δ α υ) (i : Item δ α υ) :
    lineRecord (j ++ [i]) = (lineRecord j).after i := by
  rw [lineRecord, List.foldl_append]
  rfl

/-- What holds after a history: the record has agreed throughout and does so now, and without `L`
no pass has failed in which the line rose. -/
structure OnRecord (L : Prop) (j : Journal δ α υ) (m : Machine δ α υ) : Prop where
  sound : m.engine.controller.Sound
  agrees : Throughout (fun k i => (lineRecord k).Agrees i) j
  counted : Accurate (lineRecord j) m
  failed : L ∨ .failed ∉ (lineRecord j).rises

theorem OnRecord.snoc {L : Prop} {j : Journal δ α υ} (h : OnRecord L j m) {i : Item δ α υ}
    (hs : m'.engine.controller.Sound) (ha : (lineRecord j).Agrees i)
    (hc : Accurate ((lineRecord j).after i) m')
    (hf : L ∨ .failed ∉ ((lineRecord j).after i).rises) : OnRecord L (j ++ [i]) m' :=
  ⟨hs, throughout_snoc.2 ⟨h.agrees, ha⟩, by rwa [lineRecord_snoc], by rwa [lineRecord_snoc]⟩

/-- The machine looks the same on record. -/
theorem OnRecord.same {L : Prop} {j : Journal δ α υ} (h : OnRecord L j m) (hc : SameCount m m')
    (hl : Leads m m') : OnRecord L j m' where
  sound := by
    obtain ⟨ds, hds⟩ := hl
    exact hds ▸ h.sound.afterAll ds
  agrees := h.agrees
  counted := ⟨h.counted.level.trans hc.2.symm, hc.1.trans h.counted.served, h.counted.other⟩
  failed := h.failed

/-- The machine looks the same on record, and the journal says nothing. -/
theorem OnRecord.silent {L : Prop} {j : Journal δ α υ} (h : OnRecord L j m) (hc : SameCount m m')
    (hl : Leads m m') : OnRecord L (j ++ []) m' := by
  rw [List.append_nil]
  exact h.same hc hl

omit [Board δ] in
/-- The line is as it was seen last. -/
theorem Accurate.look {r : LineRecord} (h : Accurate r m) (cause : Cause) :
    r.look cause m.engine.controller.line = r := by
  rw [← h.level, LineRecord.look_self]

/-- An item at which nothing happens to the line. -/
theorem OnRecord.seen {L : Prop} {j : Journal δ α υ} (h : OnRecord L j m) {i : Item δ α υ}
    (ha : (lineRecord j).Agrees i) (hi : (lineRecord j).after i = lineRecord j) :
    OnRecord L (j ++ [i]) m :=
  h.snoc h.sound ha (by rw [hi]; exact h.counted) (by rw [hi]; exact h.failed)

theorem OnRecord.began {L : Prop} {j : Journal δ α υ} (h : OnRecord L j m) (c : Call δ α υ) :
    OnRecord L (j ++ [.began c m]) m := h.seen h.counted (h.counted.look _)

/-- **The end of a call.** -/
theorem OnRecord.ended {L : Prop} {j : Journal δ α υ} (h : OnRecord L j m) {c : Call δ α υ}
    {r : Except Fault c.Answer} (hs : m'.engine.controller.Sound)
    (hp : ((Item.ended c r m').clears = true ∧ m'.stats = {}) ∨
      (Item.ended c r m').clears = false ∧ m'.stats = m.stats ∧
        (c.Writes = false → m'.engine.controller.line = m.engine.controller.line)) :
    OnRecord L (j ++ [.ended c r m']) m' := by
  suffices hc : Accurate ((lineRecord j).after (.ended c r m')) m' ∧
      (L ∨ .failed ∉ ((lineRecord j).after (.ended c r m')).rises) from
    h.snoc hs hc.1 hc.1 hc.2
  simp only [LineRecord.after]
  obtain ⟨hcl, hst⟩ | ⟨hcl, hst, hl⟩ := hp <;> rw [hcl]
  · exact ⟨⟨rfl, by rw [hst]; rfl, List.not_mem_nil⟩, .inr List.not_mem_nil⟩
  · cases hw : c.Writes with
    | false =>
        have hm : Accurate (lineRecord j) m' :=
          ⟨h.counted.level.trans (hl hw).symm, hst ▸ h.counted.served, h.counted.other⟩
        simp only [Bool.false_eq_true, if_false, hm.look]
        exact ⟨hm, h.failed⟩
    | true =>
        simp only [if_true, Bool.false_eq_true, if_false, LineRecord.look]
        split
        · refine ⟨⟨rfl, ?_, ?_⟩, h.failed.imp_right fun hf => ?_⟩
          · rw [hst, h.counted.served]
            rfl
          · simpa using h.counted.other
          · simpa using hf
        · exact ⟨⟨rfl, hst ▸ h.counted.served, h.counted.other⟩, h.failed⟩

/-- The line after a pass is as its last step left it. -/
theorem line_serviceChannels {r : Except Fault Unit}
    (ho : Op.outcome (serviceChannels m) = (r, m')) :
    m'.engine.controller.line =
      (Engine.levels (m.engine, m.bus)).getLastD m.engine.controller.line := by
  have hp := (serviceChannels_passed m).engine
  rw [ho] at hp
  rw [hp]
  exact (Engine.getLastD_levelsEach _ (m.engine, m.bus)).symm

/-- **A service pass.** -/
theorem OnRecord.serviced {L : Prop} {j : Journal δ α υ} (h : OnRecord L j m)
    {e : Event (Task α)} {late : Nat} (he : e.task = .service) {r : Except Fault Unit}
    (ho : Op.outcome (serviceChannels m) = (r, m')) (hr : L ∨ r = .ok ()) :
    OnRecord L (j ++ [.fired e late m]) m' := by
  have hs : m'.engine.controller.Sound := by
    obtain ⟨ds, hds⟩ := Engine.service_leads (β := Bus δ) (m.engine, m.bus)
    have hp := (serviceChannels_passed m).engine
    rw [ho] at hp
    rw [hp, ← hds]
    exact h.sound.afterAll ds
  have hcount := serviceChannels_count h.sound ho
  have hafter : (lineRecord j).after (.fired e late m) =
      ⟨m'.engine.controller.line,
        List.replicate (rises m.engine.controller.line (Engine.levels (m.engine, m.bus)))
          (if r.isOk then .served else .failed) ++ (lineRecord j).rises⟩ := by
    simp only [LineRecord.after, he, ho, h.counted.look, LineRecord.foldl_look]
    rw [line_serviceChannels ho, h.counted.level]
  refine h.snoc hs h.counted ?_ ?_ <;> rw [hafter]
  · refine ⟨rfl, ?_, ?_⟩
    · rw [hcount, h.counted.served, List.count_append, List.count_replicate, Nat.add_comm]
      cases r <;> rfl
    · rintro hm
      obtain hm | hm := List.mem_append.1 hm
      · cases r <;> exact nomatch List.eq_of_mem_replicate hm
      · exact h.counted.other hm
  · obtain hL | rfl := hr
    · exact .inl hL
    · refine h.failed.imp_right fun hf hm => ?_
      obtain hm | hm := List.mem_append.1 hm
      · exact nomatch List.eq_of_mem_replicate hm
      · exact hf hm

variable {L : Prop}

/-- **Everything that happens is on record.** -/
theorem happens_onRecord {W : Prop} {h j : Journal δ α υ} (hk : OnRecord L h m)
    (hh : Happens handler L W m j m') : OnRecord L (h ++ j) m' := by
  have popped : ∀ t : Timeline (Task α), OnRecord L h (Host.setTimeline t m) := fun _ =>
    hk.same ⟨rfl, rfl⟩ (leads_of_engine rfl)
  cases hh with
  | @call bound c _ _ r hc hp =>
      rw [List.append_cons]
      obtain ⟨ds, hds⟩ := perform_leads hc hp
      exact (hk.began c).ended (hds ▸ hk.sound.afterAll ds) (perform_unmoved hc hp)
  | began _ hc => exact hk.began _
  | @ended c r _ hc =>
      refine hk.ended hk.sound (.inr ⟨?_, rfl, fun _ => rfl⟩)
      cases c <;> first | rfl | cases hc
  | clock => exact hk.silent ⟨rfl, rfl⟩ (leads_of_engine rfl)
  | stolen =>
      obtain ⟨timeline, bus, engine, service, resumes, slots, stats, memory⟩ := m
      refine hk.silent ⟨?_, rfl⟩ (leads_of_engine rfl)
      exact countStolen_dmaInterrupts stats bus.pendingCycles
  | @popped _ target e t hp hs =>
      refine (popped t).seen (popped t).counted ?_
      cases ht : e.task with
      | service => exact absurd ht hs
      | _ =>
          simp only [LineRecord.after, ht]
          exact (popped t).counted.look _
  | serviced hp hs ho hr => exact (popped _).serviced hs ho hr
  | resumed p generation ho hr =>
      have hs := Op.Relates.of_outcome (resumeChannel_unmoved p generation) ho
      exact hk.silent hs.sameCount (leads_of_controller hs.controller)
  | invoked action late => exact hk.seen hk.counted (hk.counted.look _)
  | armed handle name delay period action ho hr =>
      have hs := Op.Relates.of_outcome (armPeriodic_unmoved handle name delay period action) ho
      exact hk.silent hs.sameCount (leads_of_controller hs.controller)

/-- **The count is that of the rises in passes that end well**, throughout every history and at its
end, and the line rises by nothing else but passes that fail and writes.  Where no call fails no
such pass does, and then the count is that of all rises since power-on, or since the last reset or
restored snapshot, exactly if none of them was by a write. -/
theorem rises_counted {bound : Nat} {x : Script (interface δ α υ) β} {board : δ} {memory : υ}
    {r : Except Fault β}
    (hx : x.exec (perform handler bound) (initial board memory) = some (r, m)) :
    Throughout (fun k i => (lineRecord k).Agrees i)
        (chronicle handler bound x (initial board memory)) ∧
      Accurate (lineRecord (chronicle handler bound x (initial board memory))) m ∧
      ((∀ i ∈ chronicle handler bound x (initial board memory), i.Succeeds) →
        (m.stats.dmaInterrupts =
            (lineRecord (chronicle handler bound x (initial board memory))).rises.length ↔
          .written ∉ (lineRecord (chronicle handler bound x (initial board memory))).rises)) := by
  have onRecord : ∀ L : Prop,
      Smooth (β := Unit) L (.ok ()) (chronicle handler bound x (initial board memory)) →
      OnRecord L (chronicle handler bound x (initial board memory)) m := fun L hs =>
    (exec_trace hx hs (.inl trivial)).preserves (J := OnRecord L) (h := []) happens_onRecord
      ⟨sound_initial, throughout_nil _, ⟨rfl, rfl, List.not_mem_nil⟩, .inr List.not_mem_nil⟩
  have hk := onRecord True (.inl trivial)
  refine ⟨hk.agrees, hk.counted, fun hs => ?_⟩
  have hf := (onRecord False (.inr ⟨⟨(), rfl⟩, hs⟩)).failed.resolve_left id
  rw [hk.counted.served, List.count_eq_length]
  constructor
  · exact fun hall hw => nomatch hall _ hw
  · intro hw cause hm
    cases cause with
    | served => rfl
    | failed => exact absurd hm hf
    | written => exact absurd hm hw
    | other => exact absurd hm hk.counted.other

end Board

/-! A table of one entry is filled, and its channel interrupts.  A client may as well set the bus
error itself. -/

/-- Fills a table, with interrupts, and clears the flag. -/
def tableScript : Script (interface BareBoard Unit Unit) Unit := do
  let _ ← Script.call (I := interface BareBoard Unit Unit) (.write .word 0x1F8010F0 0x08000000)
  let _ ← Script.call (I := interface BareBoard Unit Unit) (.write .word 0x1F8010F4 0x00C00000)
  let _ ← Script.call (I := interface BareBoard Unit Unit) (.write .word 0x1F8010E4 1)
  let _ ← Script.call (I := interface BareBoard Unit Unit) (.write .word 0x1F8010E8 0x11000002)
  let _ ← Script.call (I := interface BareBoard Unit Unit) (.run 1)
  Script.call (I := interface BareBoard Unit Unit) (.write .word 0x1F8010F4 0x40C00000)

/-- Sets the master enable and the bus error. -/
def busErrorScript : Script (interface BareBoard Unit Unit) Unit :=
  Script.call (I := interface BareBoard Unit Unit) (.write .word 0x1F8010F4 0x00808000)

def idleHandler : Handler BareBoard Unit Unit := fun _ _ => .done ()

theorem table_rise_is_counted : ∃ m,
    tableScript.exec (perform idleHandler 4) (initial ⟨⟩ ()) = some (.ok (), m) ∧
      (∀ i ∈ chronicle idleHandler 4 tableScript (initial ⟨⟩ ()), i.Succeeds) ∧
      (lineRecord (chronicle idleHandler 4 tableScript (initial ⟨⟩ ()))).rises = [.served] ∧
      m.stats.dmaInterrupts = 1 := by
  have hs : ∀ i ∈ chronicle idleHandler 4 tableScript (initial ⟨⟩ ()), i.Succeeds := by
    decide +kernel
  have hj : (lineRecord (chronicle idleHandler 4 tableScript (initial ⟨⟩ ()))).rises =
      [.served] := by
    decide +kernel
  have hr : (tableScript.exec (perform idleHandler 4) (initial ⟨⟩ ())).any (·.1.isOk) = true := by
    decide +kernel
  obtain ⟨⟨r, m⟩, hx, hm⟩ := (Option.any_eq_true _ _).1 hr
  have hc := ((rises_counted hx).2.2 hs).2
  rw [hj] at hc
  cases r with
  | error e => cases hm
  | ok => exact ⟨m, hx, hs, hj, hc (by decide)⟩

/-- **A write raises the line and is not counted**, though no call fails. -/
theorem written_rise_is_missed : ∃ m,
    busErrorScript.exec (perform idleHandler 4) (initial ⟨⟩ ()) = some (.ok (), m) ∧
      (∀ i ∈ chronicle idleHandler 4 busErrorScript (initial ⟨⟩ ()), i.Succeeds) ∧
      (lineRecord (chronicle idleHandler 4 busErrorScript (initial ⟨⟩ ()))).rises = [.written] ∧
      m.stats.dmaInterrupts = 0 := by
  have hs : ∀ i ∈ chronicle idleHandler 4 busErrorScript (initial ⟨⟩ ()), i.Succeeds := by
    decide +kernel
  have hj : (lineRecord (chronicle idleHandler 4 busErrorScript (initial ⟨⟩ ()))).rises =
      [.written] := by
    decide +kernel
  have hr : (busErrorScript.exec (perform idleHandler 4) (initial ⟨⟩ ())).any (fun r =>
      r.1.isOk && r.2.stats.dmaInterrupts == 0) = true := by
    decide +kernel
  obtain ⟨⟨r, m⟩, hx, hm⟩ := (Option.any_eq_true _ _).1 hr
  obtain ⟨hok, hcount⟩ : r.isOk = true ∧ m.stats.dmaInterrupts = 0 := by simpa using hm
  cases r with
  | error e => cases hok
  | ok => exact ⟨m, hx, hs, hj, hcount⟩

end Machine

end DmaMachine
