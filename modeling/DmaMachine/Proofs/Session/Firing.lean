import DmaMachine.Proofs.Session.Duties

/-!
# The events of the program fire

* `View.Fires`: one event fires, as the view has it.
* `Shows.fires`: **the machine fires the event**, and has the view that comes of it.
* `Shows.fails`: so it does where a service pass is given up, for the table that it is to send.
* `Shows.advances`, `Shows.advance_fails`: an advance of the clock, with all that is due.
* `View.turns_submit`, `View.turns_begin`, `View.turns_submit_begin`, `View.turns_begin_submit`:
  what is due at an advance, and what comes of it.
-/

namespace DmaMachine

namespace Frames

open Channel

open DmaMachine.Machine (serviceChannels noteOutcomes takeStolen countStolen)

/-! ### Firing -/

/-- What an event of the machine does when it fires. -/
def firing (bound : Nat) : Task Job → Nat → Run Machine Unit :=
  DmaMachine.Machine.fire (DmaMachine.Machine.execute handler bound)

/-- One event fires when the clock is at `target`, and this comes of it. -/
inductive View.Fires (period target : Nat) : View → View → Prop where
  | begin {v : View} {t : Nat} {rest : List (Nat × Duty)} (agenda : v.agenda = (t, .begin) :: rest)
      (due : t ≤ target) (room : rest.length + 2 < Timeline.capacity) (free : v.clearing = false)
      (late : target - t < period) : Fires period target v
        ({ v with agenda := rest }.begun period (target - t))
  | submit {v : View} {t : Nat} {rest : List (Nat × Duty)}
      (agenda : v.agenda = (t, .submit) :: rest) (due : t ≤ target)
      (room : rest.length + 2 < Timeline.capacity) (free : v.drawing = false) :
      Fires period target v { v with agenda := rest }.submitted
  | service {v : View} {t : Nat} {rest : List (Nat × Duty)}
      (agenda : v.agenda = (t, .service) :: rest) (due : t ≤ target)
      (whole : v.drawing = true → v.table = .linked) :
      Fires period target v { v with agenda := rest, serviced := false }.passed

/-- So many events fire, one after the other. -/
inductive View.Turns (period target : Nat) : Nat → View → View → Prop where
  | refl (v : View) : Turns period target 0 v v
  | step {n : Nat} {u v w : View} (first : u.Fires period target v)
      (rest : Turns period target n v w) : Turns period target (n + 1) u w

namespace Shows

variable {period target : Nat} (bound : Nat) {v w : View} {m : Machine}

theorem begins_due (h : Shows period v m) (hc : v.clearing = false)
    (hr : v.agenda.length + 2 < Timeline.capacity) {late : Nat} (hl : late < period) :
    ∃ m', firing bound (Duty.begin.task period) late m = some (.ok (), m') ∧
      Shows period (v.begun period late) m' := by
  obtain ⟨m₁, hm, hs⟩ := h.begins bound hc (Nat.lt_of_succ_lt hr)
  have hlen : ∀ (n : Nat) (u : View), u.agenda.length ≤ v.agenda.length →
      (enter n .submit u.asked.agenda).length < Timeline.capacity := fun n u hu => by
    rw [length_enter]
    exact Nat.lt_of_le_of_lt (Nat.succ_le_succ (Nat.le_trans (length_asked u)
      (Nat.succ_le_succ hu))) hr
  obtain ⟨m', hm', hs'⟩ := hs.armed (hlen _ _ (Nat.le_refl _)) (period - late)
  refine ⟨m', ?_, hs'⟩
  have hx : DmaMachine.Machine.execute handler bound .begin late m = some (.ok (), m₁) := hm
  show DmaMachine.Machine.catchUp _ _ _ _ _ (late / period) late m = _
  rw [Nat.div_eq_of_lt hl, DmaMachine.Machine.catchUp_eq, Run.bind_apply, hx]
  dsimp only
  rw [if_pos hs.registered]
  exact Op.toRun_eq_ok.2 hm'

theorem submits_due (h : Shows period v m) (hd : v.drawing = false)
    (hr : v.agenda.length < Timeline.capacity) (late : Nat) :
    ∃ m', firing bound (Duty.submit.task period) late m = some (.ok (), m') ∧
      Shows period v.submitted m' := h.submits bound hd hr

/-- Transfers that are over are counted, and nothing else happens. -/
theorem noteOutcomes_completed : ∀ {outcomes : List (Peer × Status)},
    (∀ o ∈ outcomes, o.2 = .completed) → ∀ m : Machine, ∃ stats : Stats,
      noteOutcomes outcomes m = .ok () { m with stats } ∧ stats.dmaCycles = m.stats.dmaCycles ∧
        stats.busFaults = m.stats.busFaults
  | [], _, m => ⟨m.stats, rfl, rfl, rfl⟩
  | (p, status) :: rest, h, m => by
      obtain ⟨rfl, hr⟩ := List.forall_mem_cons.1 h
      obtain ⟨stats, hs, hd, hb⟩ := noteOutcomes_completed hr
        { m with stats := { m.stats with transfersCompleted := m.stats.transfersCompleted + 1 } }
      exact ⟨stats, hs, hd, hb⟩

theorem noteRise_stats (before : Bool) (m : Machine) : ∃ stats : Stats,
    m.noteRise before = { m with stats } ∧ stats.dmaCycles = m.stats.dmaCycles ∧
      stats.busFaults = m.stats.busFaults := by
  rw [DmaMachine.Machine.noteRise]
  split
  · exact ⟨_, rfl, rfl, rfl⟩
  · exact ⟨m.stats, rfl, rfl, rfl⟩

/-- **The channels are serviced.**  Which service event the machine remembers makes no
difference. -/
theorem serves (h : Shows period v { m with serviceEvent := none })
    (hl : v.drawing = true → v.table = .linked) :
    ∃ m', serviceChannels m = .ok () m' ∧ Shows period v.passed m' := by
  obtain ⟨timeline, bus, engine, service, resumes, slots, stats, memory⟩ := m
  obtain ⟨outcomes, ⟨e, b⟩, hs, ho, hw⟩ := h.works.service hl
  obtain ⟨stats₁, hn, hd₁, hb₁⟩ := noteOutcomes_completed ho
    ⟨timeline, b, e, none, resumes, slots, stats, memory⟩
  obtain ⟨stats₂, hrise, hd₂, hb₂⟩ := noteRise_stats engine.controller.line
    ⟨timeline, b, e, none, resumes, slots, stats₁, memory⟩
  refine ⟨⟨timeline, b, e, none, resumes, slots, stats₂, memory⟩, ?_, h.now, h.agenda, h.service,
    h.registered, h.frames, hd₂.trans (hd₁.trans h.taken), hb₂.trans (hb₁.trans h.faultless), hw⟩
  simp only [serviceChannels]
  rw [show Engine.service (engine, bus) = _ from hs]
  dsimp only
  rw [hn]
  dsimp only
  rw [hrise]

/-- **The first event that is due is taken out.** -/
theorem pops (h : Shows period v m) {t : Nat} {d : Duty} {rest : List (Nat × Duty)}
    (ha : v.agenda = (t, d) :: rest) (ht : t ≤ target) :
    ∃ e table, (Host.timeline m).popDue target = some (e, table) ∧ e.triggerAt = t ∧
      e.task = d.task period ∧
      (d ≠ .service → Shows period { v with agenda := rest } (Host.setTimeline table m)) ∧
      (d = .service → Shows period { v with agenda := rest, serviced := false }
        { Host.setTimeline table m with serviceEvent := none }) := by
  have hag := h.agenda
  rw [ha] at hag
  rcases htl : m.timeline with ⟨now, nextId, events⟩
  rw [htl] at hag
  cases hag with
  | cons he hes =>
    rename_i e es
    obtain ⟨hat, htask⟩ := he
    have hnow : now = v.now := by rw [← h.now, htl]
    refine ⟨e, ⟨now, nextId, es⟩, ?_, hat, htask, fun hd => ?_, fun hd => ?_⟩
    · show m.timeline.popDue target = _
      rw [htl]
      exact if_pos (by rw [hat]; exact ht)
    · refine ⟨hnow, hes, ?_, h.registered, h.frames, h.taken, h.faultless, h.works⟩
      have hs := h.service
      split
      · rename_i hv
        rw [if_pos hv, htl] at hs
        obtain ⟨e', he', hk, hid⟩ := hs
        refine ⟨e', (List.mem_cons.1 he').resolve_left ?_, hk, hid⟩
        rintro rfl
        rw [htask] at hk
        cases d <;> cases hk
        exact hd rfl
      · rename_i hv
        rw [if_neg hv] at hs
        exact hs
    · exact ⟨hnow, hes, rfl, h.registered, h.frames, h.taken, h.faultless, h.works⟩

/-- **The machine fires the event**, and has the view that comes of it. -/
theorem fires (h : Shows period v m) (hf : v.Fires period target w) :
    ∃ m', Shows period w m' ∧ ∀ n, Host.fireDue (firing bound) target (n + 1) m =
      Host.fireDue (firing bound) target n m' := by
  cases hf with
  | begin ha hd hr hc hl =>
      obtain ⟨e, table, hp, hat, htask, hw, -⟩ := h.pops ha hd
      obtain ⟨m', hm, hs⟩ := (hw nofun).begins_due bound hc hr hl
      exact ⟨m', hs, fun n => Host.fireDue_of_ok hp (by rw [hat, htask]; exact hm) n⟩
  | submit ha hd hr hc =>
      obtain ⟨e, table, hp, hat, htask, hw, -⟩ := h.pops ha hd
      obtain ⟨m', hm, hs⟩ := (hw nofun).submits_due bound hc
        (Nat.lt_of_le_of_lt (Nat.le_add_right ..) hr) (target - e.triggerAt)
      exact ⟨m', hs, fun n => Host.fireDue_of_ok hp (by rw [htask]; exact hm) n⟩
  | service ha hd hl =>
      obtain ⟨e, table, hp, -, htask, -, hw⟩ := h.pops ha hd
      obtain ⟨m', hm, hs⟩ := (hw rfl).serves hl
      exact ⟨m', hs, fun n => Host.fireDue_of_ok hp (by rw [htask]; exact Op.toRun_eq_ok.2 hm) n⟩

theorem turns {k : Nat} (h : Shows period v m) (ht : v.Turns period target k w) :
    ∃ m', Shows period w m' ∧ ∀ n, Host.fireDue (firing bound) target (n + k) m =
      Host.fireDue (firing bound) target n m' := by
  induction ht generalizing m with
  | refl => exact ⟨m, h, fun _ => rfl⟩
  | step hf _ ih =>
      obtain ⟨m₁, h₁, hn⟩ := h.fires bound hf
      obtain ⟨m', h', hn'⟩ := ih h₁
      exact ⟨m', h', fun n => (hn _).trans (hn' n)⟩

/-- **A service pass that has to send a looped table is given up**, and all that is due after it. -/
theorem fails (h : Shows period v m) {t : Nat} {rest : List (Nat × Duty)}
    (ha : v.agenda = (t, .service) :: rest) (ht : t ≤ target) (hd : v.drawing = true)
    (hl : v.table = .looped) :
    ∃ m', ∀ n, Host.fireDue (firing bound) target (n + 1) m =
      some (.error (overflow packetBase), m') := by
  obtain ⟨e, table, hp, -, htask, -, hw⟩ := h.pops ha ht
  obtain ⟨timeline, bus, engine, service, resumes, slots, stats, memory⟩ := m
  obtain ⟨⟨e', b'⟩, hs⟩ := (hw rfl).works.service_fails hd hl
  refine ⟨⟨table, b', e', none, resumes, slots, stats, memory⟩, fun n =>
    Host.fireDue_of_fault hp ?_ n⟩
  rw [htask]
  refine congrArg some (Op.outcome_eq_error.2 ?_)
  simp only [serviceChannels, Host.setTimeline]
  rw [show Engine.service (engine, bus) = _ from hs]

/-- Nothing is due. -/
theorem nothing_due (h : Shows period v m) (hn : ∀ x ∈ v.agenda.head?, target < x.1) (n : Nat) :
    Host.fireDue (firing bound) target (n + 1) m = some (.ok (), m) := by
  refine Host.fireDue_of_popDue_eq_none (Timeline.popDue_eq_none_iff.2 fun e he => ?_) n
  have hag := h.agenda
  replace he : m.timeline.events.head? = some e := he
  cases hev : m.timeline.events with
  | nil =>
      rw [hev] at he
      cases he
  | cons d ds =>
      rw [hev] at he hag
      cases he
      cases hv : v.agenda with
      | nil =>
          rw [hv] at hag
          cases hag
      | cons x xs =>
          rw [hv] at hag hn
          cases hag with
          | cons hx _ =>
              rw [hx.1]
              exact hn x rfl

/-- The clock moves. -/
theorem moved (h : Shows period v m) (now : Nat) :
    Shows period { v with now } (Host.setNow now m) :=
  ⟨rfl, h.agenda, h.service, h.registered, h.frames, h.taken, h.faultless, h.works⟩

theorem countStolen_of_fits {s : Stats} {n : Nat} (h : s.dmaCycles + n < UInt64.size) :
    countStolen s n = { s with dmaCycles := s.dmaCycles + n } := by
  cases n with
  | zero => rfl
  | succ n => rw [countStolen, Timeline.wrap_of_lt h]

/-- **The cycles that are owed are taken**, and counted. -/
theorem takes (h : Shows period v m) (hfit : v.taken + v.owed < UInt64.size) :
    ∃ m', takeStolen m = (v.owed, m') ∧
      Shows period { v with owed := 0, taken := v.taken + v.owed } m' := by
  obtain ⟨timeline, bus, engine, service, resumes, slots, stats, memory⟩ := m
  have ho : bus.pendingCycles = v.owed := h.works.owed
  have hd : stats.dmaCycles = v.taken := h.taken
  have hcount : countStolen stats bus.pendingCycles =
      { stats with dmaCycles := v.taken + v.owed } := by
    rw [countStolen_of_fits (by rwa [hd, ho]), hd, ho]
  refine ⟨⟨timeline, bus.takeCycles.2, engine, service, resumes, slots,
    { stats with dmaCycles := v.taken + v.owed }, memory⟩, ?_, h.now, h.agenda, h.service,
    h.registered, h.frames, rfl, h.faultless, ⟨h.works.graphics, h.works.orderingTable,
      h.works.others, h.works.priority, h.works.down, rfl, h.works.holds⟩⟩
  rw [← hcount, ← ho]
  rfl

end Shows

/-! ### Advances of the clock -/

namespace Shows

variable {period limit n k : Nat} (bound : Nat) {v w : View} {m : Machine}

/-- **The clock advances**, what is due fires, and nothing is due any more. -/
theorem advances (h : Shows period v m) (hfit : v.now + n < UInt64.size)
    (ht : View.Turns period (v.now + n) k { v with now := v.now + n } w)
    (hn : ∀ x ∈ w.agenda.head?, v.now + n < x.1) (hk : k < limit) :
    ∃ m', Host.advance (firing bound) limit n m = some (.ok (), m') ∧ Shows period w m' := by
  obtain ⟨m', hw, hf⟩ := (h.moved (v.now + n)).turns bound ht
  obtain ⟨r, rfl⟩ : ∃ r, limit = r + 1 + k := ⟨limit - 1 - k, by omega⟩
  refine ⟨m', ?_, hw⟩
  rw [Host.advance, show (Host.timeline m).now = v.now from h.now, Timeline.wrap_of_lt hfit]
  exact (hf _).trans (hw.nothing_due bound hn r)

/-- **The advance ends** with a service pass that is given up. -/
theorem advance_fails (h : Shows period v m) (hfit : v.now + n < UInt64.size)
    (ht : View.Turns period (v.now + n) k { v with now := v.now + n } w) {t : Nat}
    {rest : List (Nat × Duty)} (ha : w.agenda = (t, .service) :: rest) (hdue : t ≤ v.now + n)
    (hd : w.drawing = true) (hl : w.table = .looped) (hk : k < limit) :
    ∃ m', Host.advance (firing bound) limit n m = some (.error (overflow packetBase), m') := by
  obtain ⟨m₁, hw, hf⟩ := (h.moved (v.now + n)).turns bound ht
  obtain ⟨r, rfl⟩ : ∃ r, limit = r + 1 + k := ⟨limit - 1 - k, by omega⟩
  obtain ⟨m', hm⟩ := hw.fails bound ha hdue hd hl
  refine ⟨m', ?_⟩
  rw [Host.advance, show (Host.timeline m).now = v.now from h.now, Timeline.wrap_of_lt hfit]
  exact (hf _).trans (hm r)

end Shows

namespace View

/-- Nothing is started, and no service pass is asked for. -/
def idle (now : Nat) (agenda : List (Nat × Duty)) (table : Table) (frames taken owed : Nat) :
    View :=
  { now, agenda, table, frames, taken, owed }

variable {period target t u frames taken : Nat} {table : Table} {rest : List (Nat × Duty)}

theorem enter_front (h : ∀ x ∈ rest.head?, t < x.1) (d : Duty) :
    enter t d rest = (t, d) :: rest := by
  cases rest with
  | nil => rfl
  | cons x xs => exact if_pos (h x rfl)

theorem enter_behind (h : u ≤ t) (d e : Duty) : enter t d ((u, e) :: rest) =
    (u, e) :: enter t d rest := if_neg (Nat.not_lt_of_le h)

/-- Only a submission is due. -/
theorem turns_submit (hfit : target < UInt64.size) (ht : t ≤ target)
    (hr : ∀ x ∈ rest.head?, target < x.1) (hroom : rest.length + 2 < Timeline.capacity) :
    Turns period target 2 (idle target ((t, .submit) :: rest) .cleared frames taken 0)
      (idle target rest .linked frames taken (slots + 1 + packet.length)) := by
  have hp : enter (Timeline.wrap target) .service rest = (target, .service) :: rest := by
    rw [Timeline.wrap_of_lt hfit, enter_front hr]
  exact .step (.submit rfl ht hroom rfl)
    (.step (.service hp (Nat.le_refl _) fun _ => rfl) (.refl _))

/-- The triggers that the beginning of a frame makes do not wrap, if the submission and the next
frame fit. -/
theorem wrap_begun (hu : u ≤ target) (hl : target - u < period) (hnext : u + period < UInt64.size)
    (hsubmit : target + submitDelay < UInt64.size) :
    Timeline.wrap target = target ∧
      Timeline.wrap (target + submitDelay) = target + submitDelay ∧
      Timeline.wrap (target + (period - (target - u))) = u + period := by
  have hd : target + (period - (target - u)) = u + period := by omega
  refine ⟨Timeline.wrap_of_lt (Nat.lt_of_le_of_lt (Nat.le_add_right ..) hsubmit),
    Timeline.wrap_of_lt hsubmit, ?_⟩
  rw [hd, Timeline.wrap_of_lt hnext]

/-- Only the beginning of a frame is due. -/
theorem turns_begin (ht : t ≤ target) (hl : target - t < period) (hnext : t + period < UInt64.size)
    (hsubmit : target + submitDelay < UInt64.size) (hr : ∀ x ∈ rest.head?, target < x.1)
    (hroom : rest.length + 2 < Timeline.capacity) :
    Turns period target 2 (idle target ((t, .begin) :: rest) table frames taken 0)
      (idle target (enter (t + period) .begin (enter (target + submitDelay) .submit rest)) .cleared
        (frames + 1) taken slots) := by
  obtain ⟨hw, hws, hwn⟩ := wrap_begun ht hl hnext hsubmit
  have hp : enter (Timeline.wrap (target + (period - (target - t)))) .begin
      (enter (Timeline.wrap (target + submitDelay)) .submit
        (enter (Timeline.wrap target) .service rest)) = (target, .service) ::
          enter (t + period) .begin (enter (target + submitDelay) .submit rest) := by
    rw [hw, hws, hwn, enter_front hr, enter_behind (Nat.le_add_right ..), enter_behind (by omega)]
  exact .step (.begin rfl ht hroom rfl hl) (.step (.service hp (Nat.le_refl _) nofun) (.refl _))

/-- A submission is due, and then the beginning of a frame. -/
theorem turns_submit_begin (ht : t ≤ target) (hu : u ≤ target) (hl : target - u < period)
    (hnext : u + period < UInt64.size) (hsubmit : target + submitDelay < UInt64.size) :
    Turns period target 3 (idle target [(t, .submit), (u, .begin)] .cleared frames taken 0)
      (idle target (enter (u + period) .begin [(target + submitDelay, .submit)]) .cleared
        (frames + 1) taken (slots + 1 + packet.length + slots)) := by
  obtain ⟨hw, hws, hwn⟩ := wrap_begun hu hl hnext hsubmit
  have hasked : enter (Timeline.wrap target) .service [(u, .begin)] =
      [(u, .begin), (target, .service)] := by
    rw [hw, enter_behind hu]
    rfl
  have hp : enter (Timeline.wrap (target + (period - (target - u)))) .begin
      (enter (Timeline.wrap (target + submitDelay)) .submit [(target, .service)]) =
        (target, .service) :: enter (u + period) .begin [(target + submitDelay, .submit)] := by
    rw [hws, hwn, enter_behind (Nat.le_add_right ..), enter_behind (by omega)]
    rfl
  exact .step (.submit rfl ht (by simp [Timeline.capacity]) rfl)
    (.step (.begin hasked hu (by simp [Timeline.capacity]) rfl hl)
      (.step (.service hp (Nat.le_refl _) fun _ => rfl) (.refl _)))

/-- The beginning of a frame is due, and then a submission. -/
theorem turns_begin_submit (ht : t ≤ target) (hu : u ≤ target) (hl : target - u < period)
    (hnext : u + period < UInt64.size) (hsubmit : target + submitDelay < UInt64.size) :
    Turns period target 3 (idle target [(u, .begin), (t, .submit)] .cleared frames taken 0)
      (idle target (enter (u + period) .begin [(target + submitDelay, .submit)]) .cleared
        (frames + 1) taken (slots + 1 + packet.length + slots)) := by
  obtain ⟨hw, hws, hwn⟩ := wrap_begun hu hl hnext hsubmit
  have hp : enter (Timeline.wrap (target + (period - (target - u)))) .begin
      (enter (Timeline.wrap (target + submitDelay)) .submit
        (enter (Timeline.wrap target) .service [(t, .submit)])) =
          (t, .submit) :: (target, .service) ::
            enter (u + period) .begin [(target + submitDelay, .submit)] := by
    rw [hw, hws, hwn, enter_behind ht, enter_behind (by omega), enter_behind (by omega)]
    show (t, Duty.submit) :: enter _ _ (enter _ _ [(target, .service)]) = _
    rw [enter_behind (Nat.le_add_right ..), enter_behind (by omega)]
    rfl
  exact .step (.begin rfl hu (by simp [Timeline.capacity]) rfl hl)
    (.step (.submit hp ht (by simp [Timeline.capacity]) rfl)
      (.step (.service rfl (Nat.le_refl _) fun _ => rfl) (.refl _)))

end View

/-- The cycles that an idle machine owes are taken. -/
theorem Shows.takes_idle {period now frames taken owed : Nat} {agenda : List (Nat × Duty)}
    {table : Table} {m : Machine}
    (h : Shows period (.idle now agenda table frames taken owed) m)
    (hfit : taken + owed < UInt64.size) :
    ∃ m', takeStolen m = (owed, m') ∧
      Shows period (.idle now agenda table frames (taken + owed) 0) m' := h.takes hfit

end Frames

end DmaMachine
