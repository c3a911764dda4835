import DmaMachine.Engine.Basic
import DmaMachine.Proofs.Channel.Renewals

/-!
# The engine's channels

What an operation on the engine does to each of its channels: the one that it is for, and the others
that it leaves alone.

* `channel_write`, `channel_request`: the channel after a write and after a request.
* `channel_resume`: **a resumption makes its channel active if that waits in the generation**, and
  does nothing otherwise.
-/

namespace DmaMachine

/-- The register of a channel that stands at an offset of the window. -/
def Register.ofPeer? (p : Peer) (offset : UInt32) : Option Channel.Register :=
  match ofOffset offset with
  | .ok (.channel q r) => if q = p then some r else none
  | _ => none

namespace Engine

variable {α : Type} (p q : Peer) (e : Engine)

theorem channel_onChannel (op : Op Channel α) : (Op.outcome (onChannel q op e)).2.channel p =
    if q = p then (Channel.Deed.onChannel op (e.channel p)).2 else e.channel p := by
  have h := channel_setChannel q p
  rw [Channel.Deed.snd_onChannel]
  by_cases hqp : q = p
  · subst hqp
    rw [if_pos rfl, onChannel]
    cases op (e.channel q) <;> exact (h _ e).trans (if_pos rfl)
  · rw [if_neg hqp, onChannel]
    cases op (e.channel q) <;> exact (h _ e).trans (if_neg (Ne.symm hqp))

theorem channel_request : (Op.outcome (request q e)).2.channel p =
    if q = p then (Channel.Deed.onChannel (Channel.request p) (e.channel p)).2
    else e.channel p := by
  have h := channel_onChannel p q e (Channel.request q)
  rw [request]
  cases hr : onChannel q (Channel.request q) e <;> rw [hr] at h <;> refine h.trans ?_ <;> split <;>
    first | rfl | (rename_i hqp; subst hqp; rfl)

theorem channel_write (offset v mask : UInt32) :
    (Op.outcome (write offset v mask e)).2.channel p =
      (Register.ofPeer? p offset).elim (e.channel p) fun r =>
        (Channel.Deed.onChannel (Channel.write p r v mask) (e.channel p)).2 := by
  rw [write, Register.ofPeer?]
  rcases Register.ofOffset offset with fault | r
  · rfl
  · cases r with
    | channel q r =>
        have h := channel_onChannel p q e (Channel.write q r v mask)
        simp only [put]
        cases hw : onChannel q (Channel.write q r v mask) e <;> rw [hw] at h <;>
          refine h.trans ?_ <;> split <;> first | rfl | (rename_i hqp; subst hqp; rfl)
    | priority | interrupt | fixedLow | fixedHigh => rfl

/-- A resumption that comes too late is without effect. -/
theorem resume_of_not_waits {generation : UInt32}
    (h : ¬((e.channel p).generation = generation ∧ (e.channel p).Waits)) :
    resume p generation e = .ok false e := by
  refine if_pos ?_
  by_contra hn
  exact h (by simpa [Channel.Waits, and_assoc] using hn)

theorem channel_resume (generation : UInt32) :
    (Op.outcome (resume q generation e)).2.channel p =
      if q = p ∧ (e.channel p).generation = generation ∧ (e.channel p).Waits then
        (e.channel p).activate
      else e.channel p := by
  by_cases hw : (e.channel q).generation = generation ∧ (e.channel q).Waits
  · obtain ⟨hg, hr, ha⟩ := hw
    rw [resume, if_neg (by simp [hg, hr, ha])]
    refine (channel_setChannel ..).trans ?_
    by_cases hqp : q = p
    · subst hqp
      rw [if_pos rfl, if_pos ⟨rfl, hg, hr, ha⟩]
    · rw [if_neg (Ne.symm hqp), if_neg fun h => hqp h.1]
  · rw [resume_of_not_waits q e hw, if_neg]
    · rfl
    · rintro ⟨rfl, h⟩
      exact hw h

end Engine

end DmaMachine
