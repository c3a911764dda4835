import DmaMachine.Proofs.Channel.Projection

/-!
# The accesses of a step

A *recorder* is a bus that keeps a log of the accesses made to it.  A channel cannot tell a recorder
from the bus inside, so a step on a recorder is the step on the bus, with its accesses for all to
see.

* `step_projects`: **a step on a recorder is the step on the bus inside**, once the log is
  forgotten.
* `accesses`: the accesses of the step from a given stage, in order.
-/

namespace DmaMachine

/-- One access to a bus. -/
structure Touch where
  isWrite : Bool
  width : Width
  address : UInt32
  /-- What was read or written; zero for a read that failed. -/
  value : UInt32
deriving DecidableEq

/-- A bus with the accesses made to it, in order. -/
structure Recorder (β : Type) where
  bus : β
  log : List Touch := []

namespace Recorder

variable {β : Type} [Master β]

instance : Master (Recorder β) where
  read w a r :=
    match Master.read w a r.bus with
    | .ok v b => .ok v ⟨b, r.log ++ [⟨false, w, a, v⟩]⟩
    | .error e b => .error e ⟨b, r.log ++ [⟨false, w, a, 0⟩]⟩
  write w a v r :=
    match Master.write w a v r.bus with
    | .ok () b => .ok () ⟨b, r.log ++ [⟨true, w, a, v⟩]⟩
    | .error e b => .error e ⟨b, r.log ++ [⟨true, w, a, v⟩]⟩
  exception r := Master.exception r.bus
  takeException r := ((Master.takeException r.bus).1, ⟨(Master.takeException r.bus).2, r.log⟩)
  charge n r := ⟨Master.charge n r.bus, r.log⟩

theorem outcome_read (w : Width) (a : UInt32) (r : Recorder β) :
    ∃ v, (Op.outcome (Master.read w a r)).2 =
      ⟨(Op.outcome (Master.read w a r.bus)).2, r.log ++ [⟨false, w, a, v⟩]⟩ := by
  simp only [Master.read]
  cases Master.read w a r.bus <;> exact ⟨_, rfl⟩

theorem outcome_write (w : Width) (a v : UInt32) (r : Recorder β) :
    (Op.outcome (Master.write w a v r)).2 =
      ⟨(Op.outcome (Master.write w a v r.bus)).2, r.log ++ [⟨true, w, a, v⟩]⟩ := by
  simp only [Master.write]
  cases Master.write w a v r.bus <;> rfl

theorem read_projects (w : Width) (a : UInt32) :
    Op.Projects bus (Master.read (β := Recorder β) w a) (Master.read w a) := by
  intro r
  show Op.outcome (Master.read w a r.bus) = _
  simp only [Master.read]
  cases Master.read w a r.bus <;> rfl

theorem write_projects (w : Width) (a v : UInt32) :
    Op.Projects bus (Master.write (β := Recorder β) w a v) (Master.write w a v) := by
  intro r
  show Op.outcome (Master.write w a v r.bus) = _
  simp only [Master.write]
  cases Master.write w a v r.bus <;> rfl

/-- A channel cannot tell a recorder from the bus inside. -/
theorem transparent : Transparent (bus (β := β)) :=
  ⟨read_projects, write_projects, fun _ => rfl, fun _ => rfl, fun _ _ => rfl⟩

/-- The log has grown by accesses with a property. -/
def Logs (P : Touch → Prop) (r r' : Recorder β) : Prop :=
  ∃ k, r'.log = r.log ++ k ∧ ∀ x ∈ k, P x

omit [Master β] in
theorem logs_chains (P : Touch → Prop) : Chains (Logs (β := β) P) where
  refl r := ⟨[], by simp, by simp⟩
  trans := by
    rintro r s t ⟨k, hk, hp⟩ ⟨l, hl, hq⟩
    refine ⟨k ++ l, by rw [hl, hk, List.append_assoc], fun x hx => ?_⟩
    exact (List.mem_append.1 hx).elim (hp x) (hq x)

omit [Master β] in
theorem Logs.mono {P Q : Touch → Prop} {r r' : Recorder β} (h : Logs P r r')
    (hPQ : ∀ x, P x → Q x) : Logs Q r r' := by
  obtain ⟨k, hk, hp⟩ := h
  exact ⟨k, hk, fun x hx => hPQ x (hp x hx)⟩

theorem read_logs {P : Touch → Prop} {w : Width} {a : UInt32} (h : ∀ v, P ⟨false, w, a, v⟩) :
    Op.Relates (Logs (β := β) P) (Master.read w a) := by
  intro r
  obtain ⟨v, hv⟩ := outcome_read w a r
  rw [hv]
  exact ⟨_, rfl, by simpa using h v⟩

theorem write_logs {P : Touch → Prop} {w : Width} {a v : UInt32} (h : P ⟨true, w, a, v⟩) :
    Op.Relates (Logs (β := β) P) (Master.write w a v) := by
  intro r
  rw [outcome_write]
  exact ⟨_, rfl, by simpa using h⟩

end Recorder

namespace Stage

variable {β : Type}

/-- The stage without the log. -/
def plain (s : Stage (Recorder β)) : Stage β := ⟨s.channel, s.controller, s.bus.bus⟩

/-- The stage with an empty log. -/
def recorded (s : Stage β) : Stage (Recorder β) := ⟨s.channel, s.controller, ⟨s.bus, []⟩⟩

end Stage

namespace Channel

open Stage

variable {β : Type} [Master β]

/-- **A step on a recorder is the step on the bus inside**, once the log is forgotten. -/
theorem step_projects (p : Peer) : Op.Projects (plain (β := β)) (step p) (step p) :=
  Recorder.transparent.step p

/-! ### The accesses of attempts and steps -/

/-- The access is one that the attempt makes. -/
def Attempt.Makes (p : Peer) (c : Channel) (a : Attempt) (x : Touch) : Prop :=
  if x.isWrite then a.Writes p c x.width x.address else a.Reads p c x.width x.address

theorem Attempt.access_logs (a : Attempt) (p : Peer) (s : Stage (Recorder β)) :
    UnitFrame (Recorder.Logs (a.Makes p s.channel)) s (Op.outcome (a.access p s)).2 :=
  a.access_frame (Recorder.logs_chains _) (fun _ _ h => Recorder.read_logs fun _ => h)
    fun _ _ _ h => Recorder.write_logs h

/-- The accesses that the step from a stage makes, in order. -/
def accesses (p : Peer) (s : Stage β) : List Touch :=
  (Op.outcome (step p s.recorded)).2.bus.log

/-- A channel that is not active takes no step. -/
theorem step_of_inactive {p : Peer} {s : Stage β} (h : s.channel.active = false) :
    step p s = .ok .idle s := by
  show (if !s.channel.active then _ else _ : Op (Stage β) Status) s = _
  rw [h]
  rfl

theorem accesses_of_idle {p : Peer} {s : Stage β} (h : s.channel.active = false) :
    accesses p s = [] := by
  rw [accesses, step_of_inactive (s := s.recorded) h]
  rfl

theorem step_eq_ok {p : Peer} {s t : Stage β} {status : Status} :
    step p s = .ok status t ↔ ∃ u, step p s.recorded = .ok status u ∧ u.plain = t :=
  (step_projects p).eq_ok (s := s.recorded)

theorem step_eq_error {p : Peer} {s t : Stage β} {e : Fault} :
    step p s = .error e t ↔ ∃ u, step p s.recorded = .error e u ∧ u.plain = t :=
  (step_projects p).eq_error (s := s.recorded)

end Channel

end DmaMachine
