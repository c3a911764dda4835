import DmaMachine.Session.Basic
import Mathlib.Logic.Function.Iterate

/-!
# The course of a session

Between one advance of the clock and the next a session is told by a few numbers (`Course`), and how
they go on is arithmetic (`Course.next`).  A frame may begin before the table is sent for the frame
before, when that one began late.  Then the two *collide*.

* `Course.Sound`: what is true of a course from the beginning on.
* `Course.Sound.load_next`: **taking cycles leaves fewer to take.**
* `Course.Meets`: two frames collide somewhere on the course; `Course.Sound.meets_iff` says how far
  one has to look.
* `Course.InRange`: no clock of the course wraps around; `Course.inRange_of_le`: **a course of
  moderate length is in range.**
-/

namespace DmaMachine

namespace Session

open Frames

/-- How far a session has come, between one advance of the clock and the next. -/
structure Course where
  now : Nat := 0
  /-- Frames begun. -/
  frames : Nat := 0
  /-- The clock from which on a table is to be sent, if one still is. -/
  submit : Option Nat := none
  /-- Cycles that are to be taken from the processor. -/
  owed : Nat := 0
  /-- Cycles that were taken from the processor. -/
  taken : Nat := 0
  /-- Cycles that the processor is still to run. -/
  left : Nat
deriving DecidableEq

namespace Course

variable (period : Nat)

/-- How far the clock advances next. -/
def stride (c : Course) : Nat := if c.owed = 0 then min c.left period else c.owed

def target (c : Course) : Nat := c.now + c.stride period

/-- The clock from which on the next frame is due. -/
def due (c : Course) : Nat := (c.frames + 1) * period

/-- Whether a frame begins with the next advance. -/
def begins (c : Course) : Bool := decide (c.due period ≤ c.target period)

/-- Whether the table is sent with the next advance. -/
def sends (c : Course) : Bool := c.submit.any fun t => decide (t ≤ c.target period)

/-- Whether a frame begins with the next advance while the table is still to be sent for the frame
before. -/
def collides (c : Course) : Bool :=
  c.begins period && c.submit.any fun t => decide (c.target period < t)

/-- The next advance of the clock. -/
def next (c : Course) : Course where
  now := c.target period
  frames := if c.begins period then c.frames + 1 else c.frames
  submit :=
    if c.begins period then some (c.target period + submitDelay)
    else if c.sends period then none
    else c.submit
  owed :=
    (if c.sends period then slots + 1 + packet.length else 0) +
      (if c.begins period then slots else 0)
  taken := c.taken + c.owed
  left := if c.owed = 0 then c.left - c.stride period else c.left

variable {period} {total : Nat} {c d : Course}

/-- What is true of a course, from the beginning on. -/
structure Sound (period total : Nat) (c : Course) : Prop where
  now_lt : c.now < c.due period
  due_le : c.due period ≤ c.now + period
  submit : ∀ t ∈ c.submit, c.now < t ∧ t ≤ c.now + c.owed + 8 ∧ t < c.due period + submitDelay
  owed : c.owed = 0 ∨ slots ≤ c.owed
  owed_le : c.owed ≤ slots + 1 + packet.length + slots
  balance : c.now + c.left = total + c.taken
  /-- What a frame takes is counted, or owed, or it will be when the table is sent. -/
  spent : c.taken + c.owed + (if c.submit.isSome then slots + 1 + packet.length else 0) ≤
    36 * c.frames

theorem stride_le (hp : 64 ≤ period) (h : c.Sound period total) : c.stride period ≤ period := by
  have ho := h.owed_le
  simp only [slots, packet, List.length] at ho
  rw [stride]
  split
  · exact Nat.min_le_right ..
  · omega

variable (period) in
theorem due_next (c : Course) : (c.next period).due period =
    if c.begins period then c.due period + period else c.due period := by
  simp only [due, next]
  split
  · rw [Nat.succ_mul]
  · rfl

variable (period) in
theorem stride_cases (c : Course) : c.owed = 0 ∧ c.stride period ≤ c.left ∨
    c.owed ≠ 0 ∧ c.stride period = c.owed := by
  rw [stride]
  split
  · exact .inl ⟨‹_›, Nat.min_le_left ..⟩
  · exact .inr ⟨‹_›, rfl⟩

theorem begins_iff : c.begins period = true ↔ c.due period ≤ c.target period := decide_eq_true_iff

theorem sends_of_submit {t : Nat} (h : c.submit = some t) :
    c.sends period = true ↔ t ≤ c.target period := by
  rw [sends, h]
  exact decide_eq_true_iff

theorem collides_of_submit {t : Nat} (h : c.submit = some t) :
    c.collides period = true ↔ c.begins period = true ∧ c.target period < t := by
  simp [collides, h]

variable (period) in
/-- What is sent with an advance was still to be sent before. -/
theorem sent_add_unsent_le (c : Course) :
    (if c.sends period then slots + 1 + packet.length else 0) +
      (if c.sends period then 0 else if c.submit.isSome then slots + 1 + packet.length else 0) ≤
        if c.submit.isSome then slots + 1 + packet.length else 0 := by
  cases hsub : c.submit with
  | none => simp [sends, hsub]
  | some t => split <;> simp

variable (period) in
/-- A frame takes no more than it takes to clear the table and to send it. -/
theorem spent_next (h : c.taken + c.owed +
      (if c.submit.isSome then slots + 1 + packet.length else 0) ≤ 36 * c.frames) :
    (c.next period).taken + (c.next period).owed +
      (if (c.next period).submit.isSome then slots + 1 + packet.length else 0) ≤
        36 * (c.next period).frames := by
  have h16 : slots = 16 := rfl
  have h3 : packet.length = 3 := rfl
  have hsent := sent_add_unsent_le period c
  simp only [next]
  by_cases hbegins : c.begins period = true
  · simp only [hbegins, if_true, Option.isSome_some]
    omega
  · simp only [hbegins, if_false, Bool.false_eq_true]
    by_cases hsends : c.sends period = true
    · simp only [hsends, if_true, Option.isSome_none, Bool.false_eq_true, if_false] at hsent ⊢
      omega
    · simp only [hsends, if_false, Bool.false_eq_true] at hsent ⊢
      omega

/-- **A course goes on soundly.** -/
theorem Sound.next (hp : 64 ≤ period) (h : c.Sound period total) :
    (c.next period).Sound period total := by
  have hstride := stride_le hp h
  have hs := stride_cases period c
  have htarget : c.target period = c.now + c.stride period := rfl
  have hb : c.begins period = true ↔ c.due period ≤ c.target period := begins_iff
  obtain ⟨hlt, hle, hsub, ho, hol, hbal, hspent⟩ := h
  have hdue := due_next period c
  refine ⟨?_, ?_, fun t ht => ?_, ?_, ?_, ?_, spent_next period hspent⟩
  · show c.target period < _
    rw [hdue]
    split <;> rename_i hbegins <;> rw [hb] at hbegins <;> omega
  · show _ ≤ c.target period + period
    rw [hdue]
    split <;> rename_i hbegins <;> rw [hb] at hbegins <;> omega
  · rw [hdue]
    simp only [Course.next, Option.mem_def] at ht ⊢
    split at ht
    · obtain rfl := Option.some.inj ht
      rename_i hbegins
      simp only [hbegins, if_true, submitDelay, slots]
      omega
    · rename_i hbegins
      simp only [hbegins, Bool.false_eq_true, if_false] at ht ⊢
      split at ht
      · cases ht
      · rename_i hsends
        obtain ⟨h1, h2, h3⟩ := hsub t ht
        rw [sends_of_submit ht] at hsends
        simp only [(sends_of_submit ht).not.2 hsends, if_false, Bool.false_eq_true]
        omega
  · simp only [Course.next]
    split <;> split <;> simp [slots, packet]
  · simp only [Course.next]
    split <;> split <;> simp [slots, packet]
  · simp only [Course.next]
    split <;> omega

theorem Sound.iterate (hp : 64 ≤ period) (h : c.Sound period total) :
    ∀ k, ((Course.next period)^[k] c).Sound period total
  | 0 => h
  | k + 1 => by
      rw [Function.iterate_succ_apply']
      exact (h.iterate hp k).next hp

/-- A bound on the cycles that are still to be taken before the processor runs on. -/
def load (period : Nat) (c : Course) : Nat :=
  64 * (c.owed + if c.submit.isSome then slots + 1 + packet.length else 0) +
    36 * (c.now + period - c.due period)

/-- **Taking cycles leaves fewer to take.** -/
theorem Sound.load_next (hp : 64 ≤ period) (h : c.Sound period total) (ho : c.owed ≠ 0) :
    (c.next period).load period + 448 ≤ c.load period := by
  have h16 : slots = 16 := rfl
  have h3 : packet.length = 3 := rfl
  have hs : c.stride period = c.owed := if_neg ho
  have htarget : c.target period = c.now + c.stride period := rfl
  have hb : c.begins period = true ↔ c.due period ≤ c.target period := begins_iff
  obtain ⟨hlt, hle, -, hor, -, -, -⟩ := h
  rw [load, load, due_next]
  simp only [Course.next]
  -- A submission that is made with this advance costs what the one did that was to be made.
  have hsent := sent_add_unsent_le period c
  by_cases hbegins : c.begins period = true
  · have hdue := hb.1 hbegins
    simp only [hbegins, if_true, Option.isSome_some]
    omega
  · have hdue : ¬ c.due period ≤ c.target period := fun hd => hbegins (hb.2 hd)
    simp only [hbegins, if_false, Bool.false_eq_true]
    by_cases hsends : c.sends period = true
    · simp only [hsends, if_true, Option.isSome_none, Bool.false_eq_true, if_false] at hsent ⊢
      omega
    · simp only [hsends, if_false, Bool.false_eq_true]
      omega

theorem Sound.load_le (h : c.Sound period total) : c.load period ≤ 3584 + 36 * period := by
  have h16 : slots = 16 := rfl
  have h3 : packet.length = 3 := rfl
  obtain ⟨hlt, -, -, -, hol, -, -⟩ := h
  rw [load]
  split <;> omega

/-- A course with nothing left stands still. -/
theorem Sound.next_of_rest (h : c.Sound period total) (ho : c.owed = 0) (hl : c.left = 0) :
    c.next period = c := by
  obtain ⟨hlt, -, hsub, -, -, -, -⟩ := h
  obtain ⟨now, frames, submit, owed, taken, left⟩ := c
  obtain rfl : owed = 0 := ho
  obtain rfl : left = 0 := hl
  have hb : begins period ⟨now, frames, submit, 0, taken, 0⟩ = false := by
    simpa [begins, target, stride] using hlt
  have hs : sends period ⟨now, frames, submit, 0, taken, 0⟩ = false := by
    cases submit with
    | none => rfl
    | some t => simpa [sends, target, stride] using (hsub t rfl).1
  simp [Course.next, hb, hs, target, stride]

/-! ### Where a course leads -/

/-- Two frames collide somewhere on the course. -/
def Meets (period : Nat) (c : Course) : Prop :=
  ∃ k, ((Course.next period)^[k] c).collides period = true

/-- The course goes on to another, and no two frames collide on the way. -/
inductive Passes (period : Nat) : Course → Course → Prop where
  | refl (c : Course) : Passes period c c
  | step {c d : Course} (clear : c.collides period = false)
      (rest : Passes period (c.next period) d) : Passes period c d

theorem Passes.trans {e : Course} (h : Passes period c d) (h' : Passes period d e) :
    Passes period c e := by
  induction h with
  | refl => exact h'
  | step hc _ ih => exact .step hc (ih h')

theorem Passes.meets_iff (h : Passes period c d) : c.Meets period ↔ d.Meets period := by
  induction h with
  | refl => exact .rfl
  | step hc _ ih =>
      refine Iff.trans ⟨fun ⟨k, hk⟩ => ?_, fun ⟨k, hk⟩ => ⟨k + 1, hk⟩⟩ ih
      cases k with
      | zero =>
          rw [Function.iterate_zero, id, hc] at hk
          cases hk
      | succ k => exact ⟨k, hk⟩

/-- So many frames have begun as there were periods. -/
theorem Sound.frames_eq (h : c.Sound period total) : c.frames = c.now / period := by
  have hd : c.due period = c.frames * period + period := Nat.succ_mul ..
  have hlt := h.now_lt
  have hle := h.due_le
  exact (Nat.div_eq_of_lt_le (by omega) (by rw [Nat.succ_mul]; omega)).symm

/-- With nothing left no two frames collide. -/
theorem Sound.not_meets (h : c.Sound period total) (ho : c.owed = 0) (hl : c.left = 0) :
    ¬c.Meets period := by
  rintro ⟨k, hk⟩
  rw [Function.iterate_fixed (h.next_of_rest ho hl)] at hk
  have hb : c.begins period = false := by
    simpa [begins, target, stride, ho, hl] using h.now_lt
  rw [collides, hb] at hk
  cases hk

/-- **Whether two frames collide** is seen by following the course until nothing is left. -/
theorem Sound.meets_iff (hp : 64 ≤ period) (h : c.Sound period total) {k : Nat}
    (ho : ((Course.next period)^[k] c).owed = 0) (hl : ((Course.next period)^[k] c).left = 0) :
    c.Meets period ↔ ∃ j < k, ((Course.next period)^[j] c).collides period = true := by
  refine ⟨fun ⟨j, hj⟩ => ?_, fun ⟨j, _, hj⟩ => ⟨j, hj⟩⟩
  by_cases hjk : j < k
  · exact ⟨j, hjk, hj⟩
  · obtain ⟨i, rfl⟩ := Nat.exists_eq_add_of_le' (Nat.le_of_not_lt hjk)
    rw [Function.iterate_add_apply] at hj
    exact absurd ⟨i, hj⟩ ((h.iterate hp k).not_meets ho hl)

/-! ### Clocks of 64 bits -/

/-- The triggers of the next frame, and of the table if it is still to be sent, have 64 bits. -/
structure Fits (period : Nat) (c : Course) : Prop where
  due : c.due period < UInt64.size
  submit : ∀ t ∈ c.submit, t < UInt64.size

/-- What the beginning of a frame plans fits. -/
theorem Fits.of_begins (h : (c.next period).Fits period) (hb : c.begins period = true) :
    c.due period + period < UInt64.size ∧ c.target period + submitDelay < UInt64.size := by
  have hdue := h.due
  rw [due_next, if_pos hb] at hdue
  exact ⟨hdue, h.submit _ (if_pos hb)⟩

/-- **No sum of times wraps around on the course**, up to where two frames collide. -/
def InRange (period : Nat) (c : Course) : Prop :=
  ∀ d, c.Passes period d → (d.next period).Fits period

theorem InRange.of_passes (h : c.InRange period) (hp : c.Passes period d) : d.InRange period :=
  fun e he => h e (hp.trans he)

theorem Sound.now_fits (h : c.Sound period total) (hfit : c.Fits period) : c.now < UInt64.size :=
  Nat.lt_trans h.now_lt hfit.due

theorem Sound.taken_le (hp : 64 ≤ period) (h : c.Sound period total) :
    64 * (c.taken + c.owed) ≤ 36 * c.now := by
  have hspent : c.taken + c.owed ≤ 36 * c.frames := Nat.le_trans (Nat.le_add_right ..) h.spent
  have hd : c.due period = c.frames * period + period := Nat.succ_mul ..
  have hle := h.due_le
  have hframes : c.frames * 64 ≤ c.frames * period := Nat.mul_le_mul_left _ hp
  omega

theorem Sound.taken_fits (hp : 64 ≤ period) (h : c.Sound period total) (hfit : c.Fits period) :
    c.taken + c.owed < UInt64.size := by
  have htaken := h.taken_le hp
  have hnow := h.now_fits hfit
  omega

/-- The clock is less than two and a half times as far as the processor has run. -/
theorem Sound.now_le (hp : 64 ≤ period) (h : c.Sound period total) : 7 * c.now ≤ 16 * total := by
  have ht := h.taken_le hp
  have hb := h.balance
  omega

theorem Sound.passes (hp : 64 ≤ period) (hd : c.Passes period d) :
    c.Sound period total → d.Sound period total := by
  induction hd with
  | refl => exact id
  | step _ _ ih => exact fun h => ih (h.next hp)

theorem Sound.fits (hp : 64 ≤ period) (h : c.Sound period total)
    (hle : 16 * total + 7 * (period + submitDelay) ≤ 7 * UInt64.size) : c.Fits period := by
  have hnow := h.now_le hp
  have hdue := h.due_le
  refine ⟨?_, fun t ht => ?_⟩
  · simp only [submitDelay, slots] at hle
    omega
  · have hlt := (h.submit t ht).2.2
    omega

/-- **A course of moderate length is in range.** -/
theorem inRange_of_le (hp : 64 ≤ period) (h : c.Sound period total)
    (hle : 16 * total + 7 * (period + submitDelay) ≤ 7 * UInt64.size) : c.InRange period :=
  fun _ hd => ((h.passes hp hd).next hp).fits hp hle

end Course

/-- Where the course of a session begins. -/
def start (s : Settings) : Course := { left := s.runCycles.toNat }

theorem sound_start {s : Settings} (hp : s.framePeriod.toNat ≠ 0) :
    (start s).Sound s.framePeriod.toNat s.runCycles.toNat := by
  refine ⟨?_, ?_, nofun, .inl rfl, Nat.zero_le _, Nat.add_comm .., Nat.zero_le _⟩
  · show 0 < (0 + 1) * _
    omega
  · show (0 + 1) * _ ≤ 0 + _
    omega

end Session

end DmaMachine
