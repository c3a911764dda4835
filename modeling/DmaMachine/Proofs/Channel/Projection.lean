import DmaMachine.Proofs.Channel.Twins

/-!
# Buses that look alike

A channel knows of a bus only what it has as a master.  A function between buses is *transparent*
when every operation of a master comes to the same on both sides of it.  Then a channel cannot tell
the buses apart: what it does to the one is, seen through the function, what it does to the other.

* `Transparent.kindred`: a bus and what is seen of it are kindred.
* `Transparent.step`: **a step on a bus is the step on the bus seen through the function.**
-/

namespace DmaMachine

variable {β γ α : Type}

/-- Seen through the function, what a master does to the one bus is what it does to the other. -/
structure Transparent [Master β] [Master γ] (f : β → γ) : Prop where
  read : ∀ w a, Op.Projects f (Master.read w a) (Master.read w a)
  write : ∀ w a v, Op.Projects f (Master.write w a v) (Master.write w a v)
  exception : ∀ b, Master.exception (f b) = Master.exception b
  takeException : ∀ b,
    Master.takeException (f b) = ((Master.takeException b).1, f (Master.takeException b).2)
  charge : ∀ n b, Master.charge n (f b) = f (Master.charge n b)

/-- The stage with its bus seen through a function. -/
def Stage.map (f : β → γ) (s : Stage β) : Stage γ := ⟨s.channel, s.controller, f s.bus⟩

/-- Channels of one generation with the same header next are the same. -/
theorem Channel.akin_zero_iff {c d : Channel} : Akin True 0 c d ↔ d = c := by
  constructor
  · rintro ⟨n, hn, rfl⟩
    rw [hn trivial, UInt32.sub_zero]
    rfl
  · rintro rfl
    exact ⟨d.nextNode, fun _ => rfl, by rw [UInt32.sub_zero]; rfl⟩

namespace Transparent

variable [Master β] [Master γ] {f : β → γ} (h : Transparent f)
include h

/-- A bus and what is seen of it. -/
theorem kindred : Kindred fun b c => c = f b where
  read w a := Op.projects_iff.1 (h.read w a)
  write w a v := Op.projects_iff.1 (h.write w a v)
  exception := by
    rintro b _ rfl
    exact (h.exception b).symm
  takeException := by
    rintro b _ rfl
    rw [h.takeException]
    exact ⟨rfl, rfl⟩
  charge := by
    rintro n b _ rfl
    exact h.charge n b

theorem readPort (port : DataPort) : Op.Projects f port.read port.read :=
  Op.projects_iff.2 (h.kindred.readPort port)

theorem writePort (port : DataPort) (v : UInt32) : Op.Projects f (port.write v) (port.write v) :=
  Op.projects_iff.2 (h.kindred.writePort port v)

/-- **A step on a bus is the step on the bus seen through the function.** -/
theorem step (p : Peer) : Op.Projects (Stage.map f) (Channel.step p) (Channel.step p) := by
  refine Op.projects_iff.2 fun s t ht => ?_
  have hs : Stage.Akin True 0 (fun b c => c = f b) s t :=
    ⟨Channel.akin_zero_iff.2 (ht ▸ rfl), ht ▸ rfl, ht ▸ rfl⟩
  refine (h.kindred.step (Channel.akin_unseen True 0) (p := p) (fun _ => trivial) hs).imp
    fun u v hv => ?_
  obtain ⟨d, l, e⟩ := v
  obtain ⟨hc, hl, he⟩ := hv
  cases Channel.akin_zero_iff.1 hc
  cases hl
  cases he
  rfl

end Transparent

end DmaMachine
