import DmaMachine.Proofs.Session.Course
import DmaMachine.Proofs.Session.Firing

/-!
# Where a session ends

The machine keeps to the course of its session (`Course`), from one advance of the clock to the
next, until two frames collide.  The table is cleared for the later frame before it is sent for the
earlier, and so the packet is put in twice: it is linked to itself, and the table is a list without
an end.

* `Course.Sound.advances`: **without a collision the machine keeps to its course.**
* `Course.Sound.fails`: two frames that collide link the packet to itself, and the walk is given up.
* `Course.Follows`: what a run comes to, as the course has it.
* `session_ends`: **a session runs to its end, unless two frames collide somewhere on its course.**
-/

namespace DmaMachine

namespace Session

open Frames

namespace Course

variable {period total : Nat} {c d : Course}

/-! ### The machine on its course -/

/-- The events that are pending. -/
def pending (due : Nat) (submit : Option Nat) : List (Nat × Duty) :=
  enter due .begin (submit.toList.map fun t => (t, .submit))

/-- What the machine shows of the course, with the table as it stands. -/
def view (period : Nat) (c : Course) (table : Table) : View :=
  .idle c.now (pending (c.due period) c.submit) table c.frames c.taken c.owed

/-- What the machine shows when the clock has moved, and nothing has fired yet. -/
def moved (period : Nat) (c : Course) (table : Table) : View :=
  .idle (c.target period) (pending (c.due period) c.submit) table c.frames (c.taken + c.owed) 0

theorem view_next (c : Course) (table : Table) : (c.next period).view period table =
    .idle (c.target period)
      (pending (if c.begins period then c.due period + period else c.due period)
        (if c.begins period then some (c.target period + submitDelay)
          else if c.sends period then none
          else c.submit))
      table (if c.begins period then c.frames + 1 else c.frames) (c.taken + c.owed)
      ((if c.sends period then slots + 1 + packet.length else 0) +
        (if c.begins period then slots else 0)) := by
  rw [view, due_next]
  rfl

/-- How the table stands: it is cleared as long as it is to be sent. -/
def Stands (c : Course) (table : Table) : Prop := c.submit.isSome → table = .cleared

variable {table : Table}

/-- A frame begins, and the table is cleared for it when it was sent for the frame before. -/
theorem Sound.turns_of_begins (hp : 64 ≤ period) (h : c.Sound period total)
    (hfit : (c.next period).Fits period) (hc : c.collides period = false) (ht : c.Stands table)
    (hb : c.begins period = true) :
    ∃ k < 4, (c.moved period table).Turns period (c.target period) k
      ((c.next period).view period .cleared) := by
  have hstride := stride_le hp h
  have htarget : c.target period = c.now + c.stride period := rfl
  have hlt := h.now_lt
  have hlate : c.target period - c.due period < period := by omega
  have hdue := begins_iff.1 hb
  obtain ⟨hnext, hsubmit⟩ := hfit.of_begins hb
  simp only [moved, view_next, hb, if_true]
  cases hsub : c.submit with
  | none =>
      have hs : c.sends period = false := by simp [sends, hsub]
      simp only [hs, if_false, Bool.false_eq_true, Nat.zero_add]
      exact ⟨2, by omega, View.turns_begin hdue hlate hnext hsubmit (by simp)
        (by simp [Timeline.capacity])⟩
  | some t =>
      -- What is to be sent is sent now, or else the two frames collide.
      have hle : t ≤ c.target period := Nat.le_of_not_lt fun hl => by
        rw [(collides_of_submit hsub).2 ⟨hb, hl⟩] at hc
        cases hc
      have hs : c.sends period = true := (sends_of_submit hsub).2 hle
      obtain rfl := ht (by rw [hsub]; rfl)
      simp only [hs, if_true]
      refine ⟨3, by omega, ?_⟩
      by_cases hdt : c.due period < t
      · rw [show pending (c.due period) (some t) = _ from if_pos hdt]
        exact View.turns_begin_submit hle hdue hlate hnext hsubmit
      · rw [show pending (c.due period) (some t) = _ from if_neg hdt]
        exact View.turns_submit_begin hle hdue hlate hnext hsubmit

/-- No frame begins, and the table is sent if it is time. -/
theorem turns_of_not_begins (hfit : c.target period < UInt64.size) (ht : c.Stands table)
    (hb : c.begins period = false) :
    ∃ k < 4, ∃ table', (c.moved period table).Turns period (c.target period) k
      ((c.next period).view period table') ∧ (c.next period).Stands table' := by
  have hdue : c.target period < c.due period := Nat.lt_of_not_le fun hle => by
    rw [begins_iff.2 hle] at hb
    cases hb
  simp only [Stands, moved, view_next, hb, if_false, Bool.false_eq_true]
  cases hsub : c.submit with
  | none =>
      have hs : c.sends period = false := by simp [sends, hsub]
      simp only [hs, if_false, Bool.false_eq_true]
      exact ⟨0, by omega, table, .refl _, fun hx => by simp [Course.next, hb, hs, hsub] at hx⟩
  | some t =>
      obtain rfl := ht (by rw [hsub]; rfl)
      by_cases hle : t ≤ c.target period
      · have hs : c.sends period = true := (sends_of_submit hsub).2 hle
        have hdt : ¬c.due period < t := by omega
        simp only [hs, if_true]
        rw [show pending (c.due period) (some t) = _ from if_neg hdt]
        exact ⟨2, by omega, .linked, View.turns_submit hfit hle
          (by simpa [pending, enter] using hdue) (by simp [Timeline.capacity]),
          fun hx => by simp [Course.next, hb, hs] at hx⟩
      · have hs : c.sends period = false := Bool.eq_false_iff.2 fun hx =>
          hle ((sends_of_submit hsub).1 hx)
        simp only [hs, if_false, Bool.false_eq_true]
        exact ⟨0, by omega, .cleared, .refl _, fun _ => rfl⟩

/-- **Without a collision the events that are due lead on to the next advance.** -/
theorem Sound.turns (hp : 64 ≤ period) (h : c.Sound period total)
    (hfit : (c.next period).Fits period) (hc : c.collides period = false) (ht : c.Stands table) :
    ∃ k < 4, ∃ table', (c.moved period table).Turns period (c.target period) k
      ((c.next period).view period table') ∧ (c.next period).Stands table' := by
  cases hb : c.begins period with
  | true =>
      obtain ⟨k, hk, hturns⟩ := h.turns_of_begins hp hfit hc ht hb
      exact ⟨k, hk, .cleared, hturns, fun _ => rfl⟩
  | false => exact turns_of_not_begins ((h.next hp).now_fits hfit) ht hb

/-- Nothing is pending that was due before. -/
theorem pending_head {due n : Nat} {submit : Option Nat} (hd : n < due) (hs : ∀ t ∈ submit, n < t) :
    ∀ x ∈ (pending due submit).head?, n < x.1 := by
  cases submit with
  | none => simpa [pending, enter] using hd
  | some t =>
      have ht := hs t rfl
      rw [pending, Option.toList_some, List.map_cons, List.map_nil, enter]
      split <;> simpa

variable (bound : Nat) {limit : Nat} {m : Frames.Machine}

/-- What the machine shows when the cycles that are owed were taken. -/
def paid (period : Nat) (c : Course) (table : Table) : View :=
  .idle c.now (pending (c.due period) c.submit) table c.frames (c.taken + c.owed) 0

/-- **Without a collision the machine keeps to its course.** -/
theorem Sound.advances (hp : 64 ≤ period) (h : c.Sound period total)
    (hfit : (c.next period).Fits period) (hc : c.collides period = false) (ht : c.Stands table)
    (hm : Shows period (c.paid period table) m) (hl : 4 ≤ limit) :
    ∃ m' table', Host.advance (firing bound) limit (c.stride period) m =
      some (.ok (), m') ∧ Shows period ((c.next period).view period table') m' ∧
      (c.next period).Stands table' := by
  obtain ⟨k, hk, table', hturns, ht'⟩ := h.turns hp hfit hc ht
  have hn := h.next hp
  obtain ⟨m', ha, hs⟩ := hm.advances bound (n := c.stride period) (hn.now_fits hfit) hturns
    (pending_head hn.now_lt fun t hx => (hn.submit t hx).1) (Nat.lt_of_lt_of_le hk hl)
  exact ⟨m', table', ha, hs, ht'⟩

section Collision

variable {now t u w frames taken : Nat}

/-- A packet that is put in again is linked to itself, and the walk of the table is given up. -/
theorem drain_linked (hm : Shows period (.idle now [(u, .submit), (w, .begin)] .linked frames taken
      (slots + 1 + packet.length)) m) (hu : u ≤ now + (slots + 1 + packet.length))
    (hw : now + (slots + 1 + packet.length) < w) (hfit : w < UInt64.size)
    (htaken : taken + (slots + 1 + packet.length) < UInt64.size) (hl : 4 ≤ limit) (n : Nat) :
    ∃ m', Machine.drain (firing bound) limit (n + 1) m =
      some (.error (Channel.overflow packetBase), m') := by
  obtain ⟨m₁, ht₁, h₁⟩ := hm.takes_idle htaken
  let target := now + (slots + 1 + packet.length)
  have hturns : View.Turns period target 1 (.idle target [(u, .submit), (w, .begin)] .linked frames
      (taken + (slots + 1 + packet.length)) 0) _ :=
    .step (.submit rfl hu (by simp [Timeline.capacity]) rfl) (.refl _)
  have htarget : target < UInt64.size := Nat.lt_trans hw hfit
  have hfirst : enter (Timeline.wrap target) .service [(w, .begin)] =
      [(target, .service), (w, .begin)] := by
    rw [Timeline.wrap_of_lt htarget]
    exact View.enter_front (fun x hx => by cases hx; exact hw) _
  obtain ⟨m', ha⟩ := h₁.advance_fails bound (n := slots + 1 + packet.length) htarget hturns hfirst
    (Nat.le_refl _) rfl rfl (Nat.lt_of_lt_of_le (by decide) hl)
  refine ⟨m', ?_⟩
  rw [Machine.drain_of_takeStolen_ne_zero ht₁ (by decide), Run.bind_apply, ha]

/-- The first of two submissions puts the packet in, and the second does it again. -/
theorem drain_cleared (hm : Shows period (.idle now [(t, .submit), (u, .submit), (w, .begin)]
      .cleared frames taken slots) m) (ht : t ≤ now + slots) (hu : now + slots < u)
    (hu' : u ≤ now + slots + (slots + 1 + packet.length))
    (hw : now + slots + (slots + 1 + packet.length) < w) (hfit : w < UInt64.size)
    (htaken : taken + slots + (slots + 1 + packet.length) < UInt64.size) (hl : 4 ≤ limit)
    (n : Nat) :
    ∃ m', Machine.drain (firing bound) limit (n + 2) m =
      some (.error (Channel.overflow packetBase), m') := by
  obtain ⟨m₁, ht₁, h₁⟩ := hm.takes_idle (Nat.lt_of_le_of_lt (Nat.le_add_right ..) htaken)
  have htarget : now + slots < UInt64.size := by omega
  have hturns : View.Turns period (now + slots) 2
      (.idle (now + slots) [(t, .submit), (u, .submit), (w, .begin)] .cleared frames
        (taken + slots) 0) _ :=
    View.turns_submit htarget ht (fun x hx => by cases hx; exact hu) (by simp [Timeline.capacity])
  obtain ⟨m₂, ha, h₂⟩ := h₁.advances bound (n := slots) htarget hturns
    (fun x hx => by cases hx; exact hu) (Nat.lt_of_lt_of_le (by decide) hl)
  obtain ⟨m', hm'⟩ := drain_linked bound h₂ hu' hw hfit htaken hl n
  refine ⟨m', ?_⟩
  rw [Machine.drain_of_takeStolen_ne_zero ht₁ (by decide), Run.bind_apply, ha]
  exact hm'

end Collision

/-- **Two frames that collide** link the packet to itself. -/
theorem Sound.fails (hp : 64 ≤ period) (h : c.Sound period total)
    (hfit : (c.next period).Fits period) (hc : c.collides period = true) (ht : c.Stands table)
    (hm : Shows period (c.paid period table) m) (hl : 4 ≤ limit) (n : Nat) :
    ∃ m', (Host.advance (firing bound) limit (c.stride period) >>= fun _ =>
      Machine.drain (firing bound) limit (n + 2)) m =
        some (.error (Channel.overflow packetBase), m') := by
  have hstride := stride_le hp h
  have hcases := stride_cases period c
  have htarget : c.target period = c.now + c.stride period := rfl
  obtain ⟨t, hsub⟩ : ∃ t, c.submit = some t := by
    cases hsub : c.submit with
    | none => simp [collides, hsub] at hc
    | some t => exact ⟨t, rfl⟩
  obtain ⟨hb, hlt⟩ := (collides_of_submit hsub).1 hc
  have hdue := begins_iff.1 hb
  have hlt' := h.now_lt
  obtain ⟨hnext, hsubmit⟩ := hfit.of_begins hb
  have htaken := h.taken_le hp
  obtain ⟨-, hnear, hbefore⟩ := h.submit t hsub
  obtain rfl := ht (by rw [hsub]; rfl)
  have hdelay : submitDelay = 24 := rfl
  have hslots : slots = 16 := rfl
  have hpacket : packet.length = 3 := rfl
  have hlate : c.target period - c.due period < period := by omega
  have hlast : c.due period < t := Nat.lt_of_le_of_lt hdue hlt
  -- The frame begins, the table is cleared, and both submissions are pending.
  have hagenda : enter (c.due period + period) .begin (enter (c.target period + submitDelay) .submit
      [(t, .submit)]) = [(t, .submit), (c.target period + submitDelay, .submit),
        (c.due period + period, .begin)] := by
    rw [View.enter_behind (by omega), View.enter_behind (by omega)]
    show (t, Duty.submit) :: enter _ _ [_] = _
    rw [View.enter_behind (by omega)]
    rfl
  have hturns : View.Turns period (c.target period) 2
      (.idle (c.target period) [(c.due period, .begin), (t, .submit)] .cleared c.frames
        (c.taken + c.owed) 0) _ :=
    View.turns_begin hdue hlate hnext hsubmit (fun x hx => by cases hx; exact hlt)
      (by simp [Timeline.capacity])
  rw [hagenda] at hturns
  rw [paid, hsub, show pending (c.due period) (some t) = [(c.due period, .begin), (t, .submit)] from
    if_pos hlast] at hm
  obtain ⟨m₁, ha, h₁⟩ := hm.advances bound (n := c.stride period)
    (Nat.lt_of_le_of_lt (Nat.le_add_right ..) hsubmit) hturns
    (fun x hx => by cases hx; exact hlt) (Nat.lt_of_lt_of_le (by decide) hl)
  obtain ⟨m', hm'⟩ := drain_cleared bound h₁ (by omega) (by omega) (by omega) (by omega) hnext
    (by omega) hl n
  refine ⟨m', ?_⟩
  rw [Run.bind_apply, ha]
  exact hm'

/-! ### Runs on a course -/

/-- A run follows the course: it gives a result where the course passes to, or two frames collide
and it fails for that. -/
inductive Follows {β : Type} (period : Nat) (c : Course)
    (Q : Course → β → Frames.Machine → Prop) : Option (Except Fault β × Frames.Machine) → Prop where
  | ok {d : Course} {b : β} {m : Frames.Machine} (passes : c.Passes period d) (result : Q d b m) :
      Follows period c Q (some (.ok b, m))
  | error {m : Frames.Machine} (meets : c.Meets period) :
      Follows period c Q (some (.error (Channel.overflow packetBase), m))

section Follows

variable {bound} {β γ : Type} {Q : Course → β → Frames.Machine → Prop}
  {R : Course → γ → Frames.Machine → Prop}

theorem Follows.of_passes {r : Option (Except Fault β × Frames.Machine)} (h : c.Passes period d)
    (hf : Follows period d Q r) : Follows period c Q r := by
  cases hf with
  | ok hp hr => exact .ok (h.trans hp) hr
  | error hm => exact .error (h.meets_iff.2 hm)

/-- One part of a program after the other. -/
theorem Follows.bind_script {y : Program β} {f : β → Program γ}
    (h : Follows period c Q (y.exec (makes bound) m))
    (hf : ∀ d b m, Q d b m → Follows period d R ((f b).exec (makes bound) m)) :
    Follows period c R ((y.bind f).exec (makes bound) m) := by
  rw [Script.exec_bind]
  generalize y.exec (makes bound) m = r at h
  cases h with
  | ok hp hr => exact (hf _ _ _ hr).of_passes hp
  | error hm => exact .error hm

end Follows

/-- The machine is on a sound course, and in range. -/
structure On (period total : Nat) (c : Course) (m : Frames.Machine) : Prop where
  sound : c.Sound period total
  fits : c.Fits period
  inRange : c.InRange period
  shows_view : ∃ table, c.Stands table ∧ Shows period (c.view period table) m

/-- One advance, and what comes after it. -/
theorem follows_advance {Q : Course → Unit → Frames.Machine → Prop} (hp : 64 ≤ period)
    (h : c.Sound period total) (hrange : c.InRange period) (ht : c.Stands table)
    (hm : Shows period (c.paid period table) m)
    (hl : 4 ≤ limit) {n : Nat} (hn : c.collides period = true → 2 ≤ n)
    (hd : ∀ m', On period total (c.next period) m' →
      Follows period (c.next period) Q (Machine.drain (firing bound) limit n m')) :
    Follows period c Q ((Host.advance (firing bound) limit (c.stride period) >>= fun _ =>
      Machine.drain (firing bound) limit n) m) := by
  have hfit : (c.next period).Fits period := hrange c (.refl c)
  cases hc : c.collides period with
  | true =>
      obtain ⟨n, rfl⟩ := Nat.exists_eq_add_of_le' (hn hc)
      obtain ⟨m', hm'⟩ := h.fails bound hp hfit hc ht hm hl n
      rw [hm']
      exact .error ⟨0, hc⟩
  | false =>
      have hpass : c.Passes period (c.next period) := .step hc (.refl _)
      obtain ⟨m', table', ha, hs, ht'⟩ := h.advances bound hp hfit hc ht hm hl
      rw [Run.bind_apply, ha]
      exact (hd m' ⟨h.next hp, hfit, hrange.of_passes hpass, table', ht', hs⟩).of_passes hpass

/-- **The cycles that are owed are made up for.** -/
theorem follows_drain (hp : 64 ≤ period) (hl : 4 ≤ limit) : ∀ (n : Nat) {c : Course}
    {m : Frames.Machine}, On period total c m → c.load period < 448 * n →
      Follows period c (fun d _ m' => d.owed = 0 ∧ d.left = c.left ∧ On period total d m')
        (Machine.drain (firing bound) limit n m)
  | 0, c, m, h, hn => absurd hn (Nat.not_lt_zero _)
  | n + 1, c, m, ⟨h, hfit, hrange, table, ht, hm⟩, hn => by
      obtain ⟨m₁, hs, h₁⟩ := hm.takes_idle (h.taken_fits hp hfit)
      by_cases ho : c.owed = 0
      · rw [ho] at hs
        rw [Machine.drain_of_takeStolen_eq_zero hs]
        refine .ok (.refl c) ⟨ho, rfl, h, hfit, hrange, table, ht, ?_⟩
        rw [ho, Nat.add_zero] at h₁
        rw [view, ho]
        exact h₁
      · rw [Machine.drain_of_takeStolen_ne_zero hs ho,
          show c.owed = c.stride period from (if_neg ho).symm]
        have hload := h.load_next hp ho
        refine follows_advance bound hp h hrange ht h₁ hl (fun hc => ?_) fun m' hm' => ?_
        · -- Where two frames collide, the fuel is enough to see it.
          have hsome : c.submit.isSome = true := by
            cases hsub : c.submit with
            | none => simp [collides, hsub] at hc
            | some t => rfl
          have h16 : slots = 16 := rfl
          rw [load, if_pos hsome] at hn
          have := h.owed.resolve_left ho
          omega
        · have hf := follows_drain hp hl n hm' (by omega)
          rwa [show (c.next period).left = c.left from if_neg ho] at hf

/-- **The processor runs for a slice.** -/
theorem follows_run (hp : 64 ≤ period) (h : On period total c m) (ho : c.owed = 0)
    (hb : 3 ≤ bound) (hload : 3584 + 36 * period < 448 * (bound + 1)) :
    Follows period c (fun d _ m' => d.owed = 0 ∧ d.left = c.left - min c.left period ∧
      On period total d m') (Machine.perform handler (bound + 1) (.run (min c.left period)) m) := by
  obtain ⟨hs, -, hrange, table, ht, hm⟩ := h
  show Follows period c _ (Machine.run (firing bound) (bound + 1) (min c.left period) m)
  rw [Machine.run_eq, show min c.left period = c.stride period from (if_pos ho).symm]
  have hpaid : Shows period (c.paid period table) m := by
    rw [view, ho] at hm
    rw [paid, ho]
    exact hm
  refine follows_advance bound hp hs hrange ht hpaid (by omega) (fun _ => by omega) fun m' hm' => ?_
  have hf := follows_drain bound hp (show 4 ≤ bound + 1 by omega) (bound + 1) hm'
    (Nat.lt_of_le_of_lt hm'.sound.load_le hload)
  rwa [show (c.next period).left = c.left - c.stride period from if_pos ho] at hf

/-- **The processor runs all its slices.** -/
theorem follows_slices (hp : 64 ≤ period) (hb : 3 ≤ bound)
    (hload : 3584 + 36 * period < 448 * (bound + 1)) : ∀ (remaining acknowledged : Nat) {c : Course}
    {m : Frames.Machine}, On period total c m → c.owed = 0 → c.left = remaining →
      Follows period c (fun d _ m' => d.owed = 0 ∧ d.left = 0 ∧ On period total d m')
        ((slices period remaining acknowledged).exec (makes (bound + 1)) m) := by
  intro remaining
  induction remaining using Nat.strongRecOn with
  | ind remaining ih =>
      intro acknowledged c m h ho hleft
      rw [slices]
      split
      · rename_i hz
        exact .ok (.refl c) ⟨ho, by omega, h⟩
      · rename_i hz
        have hrun := follows_run bound hp h ho hb hload
        rw [hleft] at hrun
        refine Follows.bind_script (y := call (.run (min remaining period)))
          (exec_call (.run (min remaining period)) m ▸ hrun) ?_
        rintro d ⟨⟩ m₁ ⟨hdo, hdl, hd, hfit, hrange, table, ht, hm⟩
        obtain ⟨times, m₂, hack, hm'⟩ := hm.acknowledges (bound + 1)
        refine Follows.bind_script (y := acknowledge) (Q := fun e times' m' => e = d ∧ m' = m₂)
          (hack.symm ▸ .ok (.refl d) ⟨rfl, rfl⟩) ?_
        rintro e times' m' ⟨rfl, rfl⟩
        exact ih (remaining - min remaining period) (by omega) (acknowledged + times')
          ⟨hd, hfit, hrange, table, ht, hm'⟩ hdo hdl

end Course

/-! ### The beginning -/

/-- The machine at power-on with another controller. -/
def poweredOn (controller : Controller) : Frames.Machine :=
  { powerOn with engine := { powerOn.engine with controller } }

theorem works_poweredOn {controller : Controller} (hc : controller.priorityWord = priorities) :
    Works {} (poweredOn controller).engine (poweredOn controller).bus := by
  have hs : ∀ p : Peer, (Channel.storedControl p 0).has .startBusy = false := fun p => by
    cases p <;> decide
  have hr : ∀ p, ((poweredOn controller).engine.channel p).Rests := fun p => by
    cases p <;> exact ⟨rfl, rfl, hs _⟩
  exact ⟨hr _, hr _, fun p _ _ => (hr p).active, hc, rfl, rfl, trivial⟩

/-- **The frames are registered.** -/
theorem registers {period : Nat} (hp : period ≠ 0) (hfit : period < UInt64.size)
    {controller : Controller}
    (hc : controller.priorityWord = priorities) :
    ∃ m, Machine.schedulePeriodic "Frame" period Job.begin (poweredOn controller) =
      .ok ⟨0, 1⟩ m ∧ Shows period (.idle 0 [(period, .begin)] .stale 0 0 0) m := by
  have hsize : (poweredOn controller).slots.size = 0 := rfl
  have hnext : (poweredOn controller).nextHandle = ⟨0, 1⟩ := Machine.nextHandle_of_empty hsize
  have hslot : (poweredOn controller).claimed.slots[0]? = some ⟨1, none⟩ := by
    rw [Machine.slots_claimed, hnext]
    exact if_pos (congrArg PeriodicHandle.slot hnext).symm
  rw [Machine.schedulePeriodic_eq hp, hnext]
  obtain ⟨e, he⟩ | ⟨slots, ha, hs⟩ := Machine.armPeriodic_cases ⟨0, 1⟩ "Frame" period period
    Job.begin (poweredOn controller).claimed
  · simp only [Machine.armPeriodic] at he
    cases he
  · rw [ha]
    have htrigger : Timeline.wrap (0 + period) = period := by
      rw [Nat.zero_add, Timeline.wrap_of_lt hfit]
    refine ⟨_, rfl, rfl, .cons ⟨htrigger, rfl⟩ .nil, rfl, ?_, rfl, rfl, rfl, works_poweredOn hc⟩
    refine Machine.isRegistered_iff.2 ⟨0, ?_⟩
    have h0 := hs 0
    rw [if_pos rfl, hslot] at h0
    exact h0

/-- **A session begins** with its registers written and its frames registered. -/
theorem opens {s : Settings} (hw : s.priorityWord = priorities) (hp : s.framePeriod.toNat ≠ 0)
    (hrange : (start s).InRange s.framePeriod.toNat) (bound : Nat) :
    ∃ m, (program s).exec (makes bound) powerOn =
        (slices s.framePeriod.toNat s.runCycles.toNat 0).exec (makes bound) m ∧
      Course.On s.framePeriod.toNat s.runCycles.toNat (start s) m := by
  -- Writing the priorities leaves no channel to be serviced, since none is active yet.
  have hdue : ∀ k : Controller, (poweredOn k).engine.due = false := fun k => by
    have hactive : ∀ p, ((poweredOn k).engine.channel p).active = false := fun p => by
      cases p <;> rfl
    simp [Engine.due, hactive]
  let k₁ : Controller := ({} : Controller).putPriority s.priorityWord 0xFFFFFFFF
  let k₂ : Controller := k₁.putInterrupt s.interruptWord 0xFFFFFFFF
  have hk : k₂.priorityWord = priorities := by
    show merge 0x07654321 s.priorityWord 0xFFFFFFFF &&& Controller.priorityBits = priorities
    rw [merge_full, hw]
    decide
  have h₁ : Does bound (store (address .priority) s.priorityWord) powerOn () (poweredOn k₁) :=
    does_storeRegister false (congrArg (EStateM.Result.ok · _) (hdue k₁)) rfl
  have h₂ : Does bound (store (address .interrupt) s.interruptWord) (poweredOn k₁) ()
      (poweredOn k₂) := does_storeRegister false rfl rfl
  obtain ⟨m, hm, hs⟩ := registers hp s.framePeriod.toNat_lt hk
  have h₃ : Does bound (call (.schedulePeriodic "Frame" s.framePeriod.toNat .begin)) (poweredOn k₂)
      ⟨0, 1⟩ m := does_call (by cases bound <;> exact Op.toRun_eq_ok.2 hm)
  have hd : Course.due s.framePeriod.toNat (start s) = s.framePeriod.toNat := Nat.one_mul _
  have hfit : (start s).Fits s.framePeriod.toNat := by
    refine ⟨?_, fun t ht => by cases ht⟩
    rw [hd]
    exact s.framePeriod.toNat_lt
  refine ⟨m, ?_, sound_start hp, hfit, hrange, .stale, (fun h => by cases h), ?_⟩
  · exact (h₁.exec_bind _).trans ((h₂.exec_bind _).trans (h₃.exec_bind _))
  · rw [Course.view, hd]
    exact hs

/-- **A session follows its course**, to where nothing is left. -/
theorem follows_program {s : Settings} (hw : s.priorityWord = priorities)
    (hp : 64 ≤ s.framePeriod.toNat) (hrange : (start s).InRange s.framePeriod.toNat) :
    Course.Follows s.framePeriod.toNat (start s) (fun d _ m => d.owed = 0 ∧ d.left = 0 ∧
      Course.On s.framePeriod.toNat s.runCycles.toNat d m)
      ((program s).exec (Machine.perform handler bound) powerOn) := by
  obtain ⟨m, hopen, hon⟩ := opens hw (by omega) hrange bound
  have hperiod : s.framePeriod.toNat < 2 ^ 64 := s.framePeriod.toNat_lt
  have hf := Course.follows_slices (bound - 1) hp (by decide)
    (by simp only [bound]; omega) s.runCycles.toNat 0 hon rfl rfl
  rw [show bound - 1 + 1 = bound from rfl, ← hopen] at hf
  exact hf

/-- **A session runs to its end**, unless two frames collide somewhere on its course, or its clock
wraps around.

Then the clock has counted the cycles of the processor and those that the engine took from it,
frames began one to a period, and no transfer met a bus error.  Where two frames collide, the packet
of the second is linked to itself, and the session ends with the fault of too long a list. -/
theorem session_ends {s : Settings} (hw : s.priorityWord = priorities)
    (hp : 64 ≤ s.framePeriod.toNat) (hrange : (start s).InRange s.framePeriod.toNat) :
    (¬(start s).Meets s.framePeriod.toNat ∧ ∃ r m, run s = some (.ok r, m) ∧
        r.cycles = s.runCycles.toNat + r.stats.dmaCycles ∧
        r.frames = r.cycles / s.framePeriod.toNat ∧ r.stats.busFaults = 0) ∨
      ((start s).Meets s.framePeriod.toNat ∧ ∃ m,
        run s = some (.error (Channel.overflow packetBase), m)) := by
  have hf := follows_program hw hp hrange
  rw [run]
  generalize (program s).exec (Machine.perform handler bound) powerOn = r at hf
  cases hf with
  | ok hpass hr =>
      rename_i d times m
      obtain ⟨ho, hl, hd, -, -, table, -, hm⟩ := hr
      have hcycles : m.timeline.now = s.runCycles.toNat + m.stats.dmaCycles := by
        have hbalance := hd.balance
        rw [hm.now, hm.taken]
        simp only [Course.view, View.idle]
        omega
      have hframes : m.memory = m.timeline.now / s.framePeriod.toNat := by
        rw [hm.frames, hm.now]
        exact hd.frames_eq
      exact .inl ⟨fun hx => hd.not_meets ho hl (hpass.meets_iff.1 hx), _, _, rfl, hcycles, hframes,
        hm.faultless⟩
  | error hx => exact .inr ⟨hx, _, rfl⟩

/-- With the settings that nobody has changed, no two frames collide. -/
theorem usual_session_ends : 64 ≤ ({} : Settings).framePeriod.toNat ∧
    (start {}).InRange ({} : Settings).framePeriod.toNat ∧
    ∃ r m, run {} = some (.ok r, m) ∧ r.cycles = 100000 + r.stats.dmaCycles ∧
      r.frames = r.cycles / 33868 ∧ r.stats.busFaults = 0 := by
  have hs := sound_start (s := {}) (by decide)
  have hrange := Course.inRange_of_le (by decide) hs (by decide)
  refine ⟨by decide, hrange, ?_⟩
  obtain ⟨-, h⟩ | ⟨hx, -⟩ := session_ends (s := {}) rfl (by decide) hrange
  · exact h
  · rw [hs.meets_iff (by decide) (k := 6) (by decide) (by decide)] at hx
    exact absurd hx (by decide)

/-- Frames that begin every sixty-four cycles come to collide. -/
theorem crowded_session_fails : ∃ m, run { runCycles := 1000, framePeriod := 64 } =
    some (.error (.channel (.linkedListOverflow 2 4096 0x20000)), m) := by
  have hrange := Course.inRange_of_le (by decide)
    (sound_start (s := { runCycles := 1000, framePeriod := 64 }) (by decide)) (by decide)
  have hf := follows_program (s := { runCycles := 1000, framePeriod := 64 }) rfl (by decide) hrange
  rw [run]
  generalize (program _).exec (Machine.perform handler bound) powerOn = r at hf
  cases hf with
  | ok hpass hr =>
      obtain ⟨ho, hl, hd, -⟩ := hr
      exact absurd (hpass.meets_iff.1 ⟨15, by decide⟩) (hd.not_meets ho hl)
  | error => exact ⟨_, rfl⟩

end Session

end DmaMachine
