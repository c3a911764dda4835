import DmaMachine.Proofs.Channel.Starts
import DmaMachine.Proofs.Machine.Renewals

/-!
# Starts of channels

The processor starts a channel by a write of its control word, of any width and under any mask, and
the peripheral by a request.  Either way the start is validated before the channel has changed but
for that word.

* `Engine.write_fresh`, `Engine.request_fresh`: a start of a channel, on its engine.
* `Validated`: what a start comes to on the machine, by the channel as it is programmed then.
* `start_validated`: **a start is refused exactly for a wrong mode, else for a wrong direction**,
  and then nothing else in the machine is disturbed; otherwise it arms the transfer.
-/

namespace DmaMachine

namespace Engine

variable {p : Peer} {e : Engine} {c : Channel}

/-- What the start of a channel comes to on its engine, `c` being the channel as programmed.  Says
whether there is a channel to service. -/
def fresh (p : Peer) (c : Channel) : Op Engine Bool := fun e =>
  match Channel.fresh p c with
  | .ok active d => .ok (active && e.controller.enabled p.index) (e.setChannel p d)
  | .error fault d => .error fault (e.setChannel p d)

/-- A write that starts its channel. -/
theorem write_fresh {offset v mask : UInt32} {r : Channel.Register}
    (hr : Register.ofPeer? p offset = some r)
    (h : Channel.write p r v mask (e.channel p) = Channel.fresh p c) :
    write offset v mask e = fresh p c e := by
  have ho : Register.ofOffset offset = .ok (.channel p r) := by
    rw [Register.ofPeer?] at hr
    split at hr
    · rename_i q s ho
      split at hr
      · rename_i hq
        cases hr
        rw [ho, hq]
      · cases hr
    · cases hr
  rw [write, ho]
  simp only [put, onChannel, h, fresh]
  cases Channel.fresh p c <;> rfl

/-- A request that starts its channel. -/
theorem request_fresh (h : Channel.request p (e.channel p) = Channel.fresh p c) :
    request p e = fresh p c e := by
  simp only [request, onChannel, h, fresh]
  cases Channel.fresh p c <;> rfl

end Engine

namespace Machine

variable {δ α υ β : Type} {p : Peer} {m : Machine δ α υ} {c : Channel}

/-! ### Service that is seen to -/

/-- What seeing to a service event comes to: nothing happens to the engine or on the bus, and it
fails only when there is no room for the event. -/
structure Attended (m : Machine δ α υ) (y : Except Fault β × Machine δ α υ) : Prop where
  engine : y.2.engine = m.engine
  bus : y.2.bus = m.bus
  answer : (∃ b, y.1 = .ok b) ∨
    (m.timeline.isFull = true ∧ y.1 = .error (.tableFull Timeline.capacity))

theorem pure_attended (b : β) (m : Machine δ α υ) :
    Attended m (Op.outcome ((pure b : Op (Machine δ α υ) β) m)) := ⟨rfl, rfl, .inl ⟨b, rfl⟩⟩

theorem requestService_attended (m : Machine δ α υ) :
    Attended m (Op.outcome (requestService m)) := by
  simp only [requestService]
  split
  · exact ⟨rfl, rfl, .inl ⟨(), rfl⟩⟩
  · simp only [scheduleTask, Host.onTimeline, show Host.timeline m = m.timeline from rfl]
    cases hf : m.timeline.isFull with
    | true =>
        rw [Timeline.schedule_of_full (of_decide_eq_true hf)]
        exact ⟨rfl, rfl, .inr ⟨hf, rfl⟩⟩
    | false =>
        rw [Timeline.schedule_of_room (Nat.lt_of_not_le (of_decide_eq_false hf))]
        exact ⟨rfl, rfl, .inl ⟨(), rfl⟩⟩

theorem Attended.bind_pure {γ : Type} {op : Op (Machine δ α υ) γ}
    (h : Attended m (Op.outcome (op m))) (b : β) :
    Attended m (Op.outcome ((op >>= fun _ => pure b) m)) := by
  rw [Op.bind_apply]
  obtain ⟨he, hb, ha⟩ := h
  cases ho : op m with
  | ok _ m' =>
      rw [ho] at he hb
      exact ⟨he, hb, .inl ⟨b, rfl⟩⟩
  | error e m' =>
      rw [ho] at he hb ha
      obtain ⟨_, ha⟩ | ⟨hf, ha⟩ := ha
      · cases ha
      · cases ha
        exact ⟨he, hb, .inr ⟨hf, rfl⟩⟩

/-- A service event is seen to if there is a channel to service. -/
theorem attended_ite {op op' : Op (Machine δ α υ) β} (due : Bool)
    (h : Attended m (Op.outcome (op m))) (h' : Attended m (Op.outcome (op' m))) :
    Attended m (Op.outcome ((if due = true then op else op') m)) := by
  cases due with
  | true => exact h
  | false => exact h'

/-! ### Validation -/

/-- What the start of a channel comes to on the machine, `c` being the channel as programmed.  It is
refused with nothing but that programming done, or it arms the transfer and accesses nothing.  An
armed channel runs and is active, and shows its start bit, but not the one that forces a start. -/
structure Validated (p : Peer) (c : Channel) (m : Machine δ α υ)
    (y : Except Fault β × Machine δ α υ) : Prop where
  mode : y.1 = .error (c.modeFault p) ↔ c.WrongMode p
  direction : y.1 = .error (c.directionFault p) ↔ ¬ c.WrongMode p ∧ c.WrongDirection p
  refused : c.WrongMode p ∨ c.WrongDirection p →
    y.2 = { m with engine := m.engine.setChannel p c }
  armed : ¬ c.WrongMode p → ¬ c.WrongDirection p →
    Attended { m with engine := m.engine.setChannel p (c.load p).activate } y ∧
      (y.2.engine.channel p).running = true ∧ (y.2.engine.channel p).active = true ∧
      (y.2.engine.channel p).control.has .startBusy = true ∧
      (y.2.engine.channel p).control.has .forceStart = false

/-- A channel that was activated runs, and shows its start bit alone. -/
theorem Attended.shows_start {y : Except Fault β × Machine δ α υ} {e : Engine}
    (h : Attended m y) (he : m.engine = e.setChannel p c.activate) :
    (y.2.engine.channel p).running = true ∧ (y.2.engine.channel p).active = true ∧
      (y.2.engine.channel p).control.has .startBusy = true ∧
      (y.2.engine.channel p).control.has .forceStart = false := by
  have hc : y.2.engine.channel p = c.activate := by
    rw [h.engine, he, Engine.channel_setChannel, if_pos rfl]
  rw [hc]
  exact ⟨rfl, rfl, Channel.startBusy_activate c, Channel.forceStart_activate c⟩

theorem Attended.ne_channel {y : Except Fault β × Machine δ α υ} (h : Attended m y)
    (e : ChannelFault) : y.1 ≠ .error (.channel e) := by
  intro he
  obtain ⟨b, hb⟩ | ⟨-, hb⟩ := h.answer <;> cases he.symm.trans hb

/-- **A start on the engine is one on the machine**, where a service event may be seen to. -/
theorem validated_of_fresh {op : Op Engine Bool} {f : Bool → Op (Machine δ α υ) β}
    (hf : ∀ due m, Attended m (Op.outcome (f due m)))
    (h : op m.engine = Engine.fresh p c m.engine) :
    Validated p c m (Op.outcome ((onEngine op >>= f) m)) := by
  rw [Op.bind_apply, onEngine, h, Engine.fresh]
  obtain ⟨hm, hr⟩ | ⟨hm, hd, hr⟩ | ⟨hm, hd, hr⟩ := Channel.fresh_cases p c <;> rw [hr]
  · exact ⟨by simp [hm], by simp [hm, Channel.modeFault, Channel.directionFault], fun _ => rfl,
      fun hn => absurd hm hn⟩
  · exact ⟨by simp [hm, Channel.modeFault, Channel.directionFault], by simp [hm, hd],
      fun _ => rfl, fun _ hn => absurd hd hn⟩
  · have ha := hf (m.engine.controller.enabled p.index)
      { m with engine := m.engine.setChannel p (c.load p).activate }
    exact ⟨⟨fun he => absurd he (ha.ne_channel _), fun hw => absurd hw hm⟩,
      ⟨fun he => absurd he (ha.ne_channel _), fun hw => absurd hw.2 hd⟩,
      fun hw => (hw.elim hm hd).elim, fun _ _ => ⟨ha, ha.shows_start rfl⟩⟩

theorem request_validated (hc : Channel.Intact p (m.engine.channel p))
    (hn : (m.engine.channel p).running = false)
    (hb : (m.engine.channel p).control.has .startBusy = true) :
    Validated p (m.engine.channel p) m (Op.outcome (request p m)) :=
  validated_of_fresh
    (fun due m => attended_ite due ((requestService_attended m).bind_pure true)
      (pure_attended false m))
    (Engine.request_fresh (Channel.request_starts hn (hc.toProper.active_eq_false hn) hb))

section Starts

variable [Board δ] {d : Channel.Deed (Bus δ)}
  (hc : Channel.Intact p (m.engine.channel p)) (hn : (m.engine.channel p).running = false)
  (hs : Channel.Starts p (m.engine.channel p) d)
include hc hn hs

theorem writeMasked_validated {a v mask : UInt32} (hd : registerDeed? p a v mask = some d) :
    Validated p (d.programmed p (m.engine.channel p)) m
      (Op.outcome (writeMasked a v mask m)) := by
  rw [registerDeed?] at hd
  split at hd
  · rename_i hw
    obtain ⟨r, hr, rfl⟩ := Option.map_eq_some_iff.1 hd
    cases r with
    | base | blocks => cases hs
    | control =>
        rw [writeMasked, if_pos hw]
        exact validated_of_fresh
          (fun due m => attended_ite due (requestService_attended m) (pure_attended () m))
          (Engine.write_fresh hr
            (Channel.writeControl_rises hn (hc.toProper.active_eq_false hn) hs))
  · cases hd

theorem write_validated {w : Width} {a v : UInt32}
    (hd : (Call.write w a v : Call δ α υ).deed? p = some d) :
    Validated p (d.programmed p (m.engine.channel p)) m (Op.outcome (write w a v m)) := by
  rw [write]
  rw [Call.deed?] at hd
  by_cases hw : w = .word
  · rw [if_pos hw] at hd ⊢
    exact writeMasked_validated hc hn hs hd
  · rw [if_neg hw] at hd ⊢
    by_cases hi : inWindow (physical a) = true
    · rw [if_pos hi] at hd ⊢
      exact writeMasked_validated hc hn hs hd
    · rw [if_neg hi] at hd
      cases hd

/-- **A start of a channel that is not running is refused exactly for a wrong mode, else for a wrong
direction, and then disturbs nothing**: the machine is as it was, but for the control word of the
channel if that was written.  Otherwise the start arms the transfer, and the bus, the controller and
the other channels are as they were. -/
theorem start_validated {x : Call δ α υ} (hx : x.deed? p = some d) (handler : Handler δ α υ)
    (bound : Nat) :
    (∃ control, d.programmed p (m.engine.channel p) = { m.engine.channel p with control }) ∧
      ∃ y, perform handler bound x m = some y ∧
        Validated p (d.programmed p (m.engine.channel p)) m y := by
  refine ⟨d.programmed_eq p _, ?_⟩
  cases x with
  | write w a v => exact ⟨_, by rw [perform]; rfl, write_validated hc hn hs hx⟩
  | writeMasked a v mask =>
      exact ⟨_, by rw [perform]; rfl, writeMasked_validated hc hn hs hx⟩
  | request q =>
      rw [Call.deed?] at hx
      by_cases hq : q = p
      · rw [if_pos hq] at hx
        cases hx
        subst hq
        exact ⟨_, by rw [perform]; rfl, request_validated hc hn hs⟩
      · rw [if_neg hq] at hx
        cases hx
  | _ => cases hx

end Starts

/-- A burst out of the first decoder is refused, and nothing but its control word is stored; one
into it is armed. -/
theorem decoderIn_starts :
    let m : Machine BareBoard Unit Unit := initial ⟨⟩ ()
    let c := { m.engine.channel .decoderIn with control := ⟨0x01000000⟩ }
    perform (fun _ _ => pure ()) 0 (.write .word 0x1F801088 0x01000000) m =
        some (.error (.channel (.unsupportedDirection 0 "MDEC In" "to RAM")),
          { m with engine := m.engine.setChannel .decoderIn c }) ∧
      ∃ m', perform (fun _ _ => pure ()) 0 (.write .word 0x1F801088 0x01000001) m =
          some (.ok (), m') ∧ m'.bus = m.bus ∧
        (m'.engine.channel .decoderIn).running = true ∧
        (m'.engine.channel .decoderIn).active = true := by
  intro m c
  have hi : Channel.Intact .decoderIn (m.engine.channel .decoderIn) :=
    (resting_initial .decoderIn).intact
  have hs : ∀ v, v = 0x01000000 ∨ v = 0x01000001 → Channel.Starts (β := Bus BareBoard) .decoderIn
      (m.engine.channel .decoderIn) (.write .control v 0xFFFFFFFF) := by
    rintro v (rfl | rfl) <;> exact .inl ⟨by decide, by decide⟩
  constructor
  · obtain ⟨-, y, hy, hv⟩ := start_validated hi rfl (hs _ (.inl rfl))
      (x := .write .word 0x1F801088 0x01000000) rfl (fun _ _ => pure ()) 0
    rw [show Channel.Deed.programmed .decoderIn (m.engine.channel .decoderIn) _ = c by
      decide +kernel] at hv
    have hf : c.directionFault .decoderIn =
        .channel (.unsupportedDirection 0 "MDEC In" "to RAM") := by
      rw [Channel.directionFault, show c.control.direction = .toRam by decide]
      rfl
    have hd : c.WrongDirection .decoderIn := by decide
    have he := hv.direction.2 ⟨by decide, hd⟩
    rw [hf] at he
    rw [hy]
    exact congrArg some (Prod.ext he (hv.refused (.inr hd)))
  · obtain ⟨-, ⟨r, m'⟩, hy, hv⟩ := start_validated hi rfl (hs _ (.inr rfl))
      (x := .write .word 0x1F801088 0x01000001) rfl (fun _ _ => pure ()) 0
    obtain ⟨ha, hr, hact, -⟩ := hv.armed (by decide +kernel) (by decide +kernel)
    obtain ⟨⟨⟩, rfl⟩ | ⟨hfull, -⟩ := ha.answer
    · exact ⟨m', hy, ha.bus, hr, hact⟩
    · exact absurd hfull (by decide)

end Machine

end DmaMachine
