import DmaMachine.Proofs.Engine.Channels
import DmaMachine.Proofs.Engine.Meter

/-!
# Writes of live registers

The base address and the block word of a channel are *live*: the processor may write them while a
transfer runs, and the transfer itself rewrites them at the end of a block, and at the header of a
list node.  They are for the next start.  A transfer that runs goes by the shadows and counters that
its start loaded, so it cannot be disturbed by what is written to the live registers meanwhile.

An *act* is whatever may happen to a channel at work, to its controller or to its bus; what is
*seen* of an act are the accesses and the cycles of a step, whether an interrupt is asked for, the
answer, the controller afterwards, and the channel but for its live registers.

* `SameTransfer`: channels that differ in their live registers alone.
* `Act.seen_eq`: **an act on channels in the same transfer is seen the same**, as long as the
  transfer runs.
* `live_writes_unseen`: what is seen of a transfer, up to its end, does not depend on the writes of
  live registers among the acts.
-/

namespace DmaMachine

variable {α β : Type}

namespace Channel

/-! ### Channels in the same transfer -/

/-- The channels differ in their live registers alone. -/
def SameTransfer (c d : Channel) : Prop := ∃ base blocks, d = { c with base, blocks }

/-- The channel but for its live registers. -/
def transfer (c : Channel) : Channel := { c with base := 0, blocks := {} }

variable {c d : Channel} {p : Peer}

theorem SameTransfer.refl (c : Channel) : SameTransfer c c := ⟨c.base, c.blocks, rfl⟩

theorem SameTransfer.transfer (h : SameTransfer c d) : d.transfer = c.transfer := by
  obtain ⟨base, blocks, rfl⟩ := h
  rfl

theorem SameTransfer.running (h : SameTransfer c d) : d.running = c.running := by
  obtain ⟨base, blocks, rfl⟩ := h
  rfl

/-- **A step sees no live register.** -/
theorem sameTransfer_unseen (L : Prop) : Unseen L SameTransfer where
  core := by
    rintro c _ ⟨base, blocks, rfl⟩
    rfl
  change := by
    rintro g c _ hg ⟨base, blocks, rfl⟩
    cases hg <;> exact ⟨_, _, rfl⟩
  nextNode _ := by
    rintro c _ ⟨base, blocks, rfl⟩
    rfl
  enterNode _ := by
    rintro c _ header ⟨base, blocks, rfl⟩
    exact ⟨_, _, rfl⟩

/-- A channel that runs is resumed, and not started. -/
theorem SameTransfer.arm (h : SameTransfer c d) (hr : c.running = true) :
    Op.Meets (· = ·) SameTransfer
      (match Channel.arm p c.running c with
        | .ok () c => .ok true c
        | .error e c => .error e c)
      (match Channel.arm p d.running d with
        | .ok () d => .ok true d
        | .error e d => .error e d) := by
  obtain ⟨base, blocks, rfl⟩ := h
  simp only [hr, arm_resume]
  exact .ok rfl ⟨_, _, rfl⟩

/-- A request of the peripheral. -/
theorem SameTransfer.request (h : SameTransfer c d) (hr : c.running = true) :
    Op.Meets (· = ·) SameTransfer (Channel.request p c) (Channel.request p d) := by
  have ha := h.arm (p := p) hr
  obtain ⟨base, blocks, rfl⟩ := h
  simp only [Channel.request]
  split
  · exact .ok rfl ⟨_, _, rfl⟩
  · exact ha

/-- A control word is stored; the transfer is given up, or goes on, resumed or not. -/
theorem SameTransfer.writeControl (h : SameTransfer c d) (hr : c.running = true) (v : UInt32) :
    Op.Meets (· = ·) SameTransfer (Channel.writeControl p v c) (Channel.writeControl p v d) := by
  have ha := SameTransfer.arm (p := p) (c := { c with control := storedControl p v })
    (d := { d with control := storedControl p v }) (by
      obtain ⟨base, blocks, rfl⟩ := h
      exact ⟨_, _, rfl⟩) hr
  obtain ⟨base, blocks, rfl⟩ := h
  simp only [Channel.writeControl]
  split
  · exact .ok rfl ⟨_, _, rfl⟩
  · split
    · exact ha
    · exact .ok rfl ⟨_, _, rfl⟩

/-- **The write of a register comes to the same.** -/
theorem SameTransfer.write (h : SameTransfer c d) (hr : c.running = true) (r : Register)
    (v mask : UInt32) :
    Op.Meets (· = ·) SameTransfer (Channel.write p r v mask c) (Channel.write p r v mask d) := by
  cases r with
  | base | blocks =>
      obtain ⟨base, blocks, rfl⟩ := h
      exact .ok rfl ⟨_, _, rfl⟩
  | control =>
      have hc := h.writeControl (p := p) hr (merge c.control.bits v mask)
      obtain ⟨base, blocks, rfl⟩ := h
      exact hc

/-! ### Acts -/

/-- What may happen to a channel at work, to its controller and to its bus. -/
inductive Act (β : Type) where
  | write (r : Register) (v mask : UInt32)
  /-- A request of the peripheral. -/
  | request
  /-- A resumption, planned in a generation. -/
  | resume (generation : UInt32)
  | step
  /-- The end of the transfer, or of a block, from outside a step. -/
  | finish (last : Bool)
  | reset
  /-- The registers of a saved channel are loaded. -/
  | load (base blocks control : UInt32)
  /-- Whatever others do to the controller and to the bus: the processor, the other channels and the
  devices. -/
  | others (f : Controller × β → Controller × β)

/-- What an act is answered with. -/
inductive Reply where
  | done
  /-- Whether the channel became active. -/
  | active (b : Bool)
  | status (s : Status)
deriving DecidableEq

/-- The act writes a live register. -/
def Act.isLive : Act β → Bool
  | write .base .. | write .blocks .. => true
  | _ => false

/-- An operation on the channel of a stage. -/
def onStage (op : Op Channel Bool) : Op (Stage β) Reply := fun ⟨channel, controller, bus⟩ =>
  match op channel with
  | .ok b channel => .ok (.active b) ⟨channel, controller, bus⟩
  | .error e channel => .error e ⟨channel, controller, bus⟩

/-- The resumption of a channel, if it waits in the generation. -/
def resume (generation : UInt32) : Op Channel Bool := fun c =>
  if c.generation = generation ∧ c.Waits then .ok true c.activate else .ok false c

/-- It is what the engine's resumption does to the channel. -/
theorem resume_of_engine (p : Peer) (generation : UInt32) (e : Engine) :
    (Op.outcome (Engine.resume p generation e)).2.channel p =
      (Op.outcome (resume generation (e.channel p))).2 := by
  rw [Engine.channel_resume, resume]
  by_cases h : (e.channel p).generation = generation ∧ (e.channel p).Waits
  · rw [if_pos ⟨rfl, h⟩, if_pos h]
    rfl
  · rw [if_neg fun k => h k.2, if_neg h]
    rfl

theorem SameTransfer.resume (h : SameTransfer c d) {generation : UInt32} :
    Op.Meets (· = ·) SameTransfer (Channel.resume generation c)
      (Channel.resume generation d) := by
  obtain ⟨base, blocks, rfl⟩ := h
  have hd : (c.generation = generation ∧ c.Waits) ↔
      ({ c with base, blocks } : Channel).generation = generation ∧
        ({ c with base, blocks } : Channel).Waits := Iff.rfl
  simp only [Channel.resume]
  by_cases hw : c.generation = generation ∧ c.Waits
  · rw [if_pos hw, if_pos (hd.1 hw)]
    exact .ok rfl ⟨_, _, rfl⟩
  · rw [if_neg hw, if_neg (mt hd.2 hw)]
    exact .ok rfl ⟨_, _, rfl⟩

variable [Master β]

/-- Carries out an act. -/
def Act.perform (p : Peer) : Act β → Op (Stage β) Reply
  | write r v mask => onStage (Channel.write p r v mask)
  | request => onStage (Channel.request p)
  | resume generation => onStage (Channel.resume generation)
  | step => do return .status (← Channel.step p)
  | finish last => do
      Channel.finish p last
      return .done
  | reset => do
      Stage.onChannel fun _ => initial p
      return .done
  | load base blocks control => do
      Stage.onChannel fun _ => atRest p base blocks control
      return .done
  | others f => fun ⟨channel, controller, bus⟩ =>
      .ok .done ⟨channel, (f (controller, bus)).1, (f (controller, bus)).2⟩

/-- The stage after an act. -/
def Act.after (p : Peer) (a : Act β) (s : Stage β) : Stage β := (Op.outcome (a.perform p s)).2

/-- The cycles that the step from a stage charges. -/
def cycles (p : Peer) (s : Stage β) : Nat :=
  (Op.outcome (Channel.step p ⟨s.channel, s.controller, (⟨s.bus, 0⟩ : Meter β)⟩)).2.bus.charged

/-- The accesses of the act to the bus; nothing but a step makes any. -/
def Act.touches (p : Peer) (s : Stage β) : Act β → List Touch
  | step => accesses p s
  | _ => []

/-- The cycles that the act charges; nothing but a step charges any. -/
def Act.cycles (p : Peer) (s : Stage β) : Act β → Nat
  | step => Channel.cycles p s
  | _ => 0

/-- Whether the act asks for an interrupt: at the end of a transfer, and of a block if blocks do. -/
def Act.requests (p : Peer) (s : Stage β) : Act β → Bool
  | step =>
      match (Op.outcome (Channel.step p s)).1 with
      | .ok .completed => true
      | .ok .blockDone => s.controller.blockInterrupt p.index
      | _ => false
  | finish last => last || s.controller.blockInterrupt p.index
  | _ => false

/-- What is seen of an act. -/
structure Sight where
  touches : List Touch
  cycles : Nat
  requests : Bool
  answer : Except Fault Reply
  /-- The channel afterwards, but for its live registers. -/
  channel : Channel
  /-- The controller afterwards, which hears of ends and of bus errors. -/
  controller : Controller

def Act.seen (p : Peer) (a : Act β) (s : Stage β) : Sight where
  touches := a.touches p s
  cycles := a.cycles p s
  requests := a.requests p s
  answer := (Op.outcome (a.perform p s)).1
  channel := (a.after p s).channel.transfer
  controller := (a.after p s).controller

/-- What is seen of one act after the other, up to the end of the transfer, but for the writes of
live registers. -/
def sights (p : Peer) : List (Act β) → Stage β → List Sight
  | [], _ => []
  | a :: as, s =>
      if a.isLive then sights p as (a.after p s)
      else a.seen p s ::
        if (a.after p s).channel.running then sights p as (a.after p s) else []

/-! ### Acts on channels in the same transfer -/

variable {s t : Stage β}

omit [Master β] in
/-- An operation on the channels. -/
theorem onStage_meets {op : Op Channel Bool} (hs : Stage.Alike SameTransfer (· = ·) s t)
    (h : Op.Meets (· = ·) SameTransfer (op s.channel) (op t.channel)) :
    Op.Meets (· = ·) (Stage.Alike SameTransfer (· = ·)) (onStage op s) (onStage op t) := by
  obtain ⟨c, k, b⟩ := s
  obtain ⟨d, l, b'⟩ := t
  obtain ⟨-, hk, hb⟩ := hs
  simp only [onStage]
  generalize op c = u at h
  generalize op d = v at h
  cases h with
  | ok h hc => exact .ok (by rw [h]) ⟨hc, hk, hb⟩
  | error e hc => exact .error e ⟨hc, hk, hb⟩

/-- **A step on channels in the same transfer** comes to the same, on whatever bus. -/
theorem step_meets (hs : Stage.Alike SameTransfer (· = ·) s t) :
    Op.Meets (· = ·) (Stage.Alike SameTransfer (· = ·)) (step p s) (step p t) :=
  kindred_eq.step (sameTransfer_unseen True) (fun _ => trivial) hs

/-- **An act on channels in the same transfer comes to the same.** -/
theorem Act.perform_meets (a : Act β) (hs : Stage.Alike SameTransfer (· = ·) s t)
    (hr : s.channel.running = true) :
    Op.Meets (· = ·) (Stage.Alike SameTransfer (· = ·)) (a.perform p s) (a.perform p t) := by
  have hU := sameTransfer_unseen True
  cases a with
  | write r v mask => exact onStage_meets hs (hs.channel.write hr r v mask)
  | request => exact onStage_meets hs (hs.channel.request hr)
  | resume generation => exact onStage_meets hs hs.channel.resume
  | step => exact (step_meets hs).bind fun _ h hs => .ok (congrArg Reply.status h) hs
  | finish last =>
      refine Op.Meets.bind (V := (· = ·)) (R := Stage.Alike SameTransfer (· = ·)) ?_
        fun _ _ hs => .ok rfl hs
      cases last with
      | true => exact Channel.complete_twins hU p s t hs
      | false => exact Channel.endBlock_twins hU p s t hs
  | reset | load => exact .ok rfl ⟨.refl _, hs.controller, hs.bus⟩
  | others f =>
      have he : (t.controller, t.bus) = (s.controller, s.bus) := by rw [hs.controller, hs.bus]
      exact .ok rfl ⟨hs.channel, congrArg (fun x => (f x).1) he,
        congrArg (fun x => (f x).2) he.symm⟩

/-- A step comes to the same on buses that record it, so its accesses are the same. -/
theorem Act.touches_eq (a : Act β) (hs : Stage.Alike SameTransfer (· = ·) s t) :
    a.touches p t = a.touches p s := by
  cases a with
  | step =>
      have h : Stage.Alike SameTransfer (· = ·) s.recorded t.recorded :=
        ⟨hs.channel, hs.controller, congrArg (Recorder.mk · []) hs.bus⟩
      exact congrArg Recorder.log (step_meets (p := p) h).paired.states.bus.symm
  | _ => rfl

/-- So are its cycles. -/
theorem Act.cycles_eq (a : Act β) (hs : Stage.Alike SameTransfer (· = ·) s t) :
    a.cycles p t = a.cycles p s := by
  cases a with
  | step =>
      have h : Stage.Alike SameTransfer (· = ·)
          (⟨s.channel, s.controller, ⟨s.bus, 0⟩⟩ : Stage (Meter β))
          ⟨t.channel, t.controller, ⟨t.bus, 0⟩⟩ :=
        ⟨hs.channel, hs.controller, congrArg (Meter.mk · 0) hs.bus⟩
      exact congrArg Meter.charged (step_meets (p := p) h).paired.states.bus.symm
  | _ => rfl

/-- And so is whether an interrupt is asked for. -/
theorem Act.requests_eq (a : Act β) (hs : Stage.Alike SameTransfer (· = ·) s t) :
    a.requests p t = a.requests p s := by
  cases a with
  | step => rw [requests, requests, hs.controller, (step_meets hs).paired.agree.eq]
  | finish last => rw [requests, requests, hs.controller]
  | _ => rfl

/-- **An act is seen the same, and leaves channels in the same transfer.** -/
theorem Act.seen_eq (a : Act β) (hs : Stage.Alike SameTransfer (· = ·) s t)
    (hr : s.channel.running = true) :
    a.seen p t = a.seen p s ∧ Stage.Alike SameTransfer (· = ·) (a.after p s) (a.after p t) := by
  have hm := (a.perform_meets (p := p) hs hr).paired
  refine ⟨?_, hm.states⟩
  have ha : (Op.outcome (a.perform p t)).1 = (Op.outcome (a.perform p s)).1 := hm.agree.eq.symm
  have hc : (a.after p t).channel.transfer = (a.after p s).channel.transfer :=
    hm.states.channel.transfer
  have hk : (a.after p t).controller = (a.after p s).controller := hm.states.controller
  rw [Act.seen, Act.seen, a.touches_eq hs, a.cycles_eq hs, a.requests_eq hs, ha, hc, hk]

/-- The write of a live register leaves the channel in its transfer. -/
theorem Act.after_of_isLive {a : Act β} (h : a.isLive = true)
    (hs : Stage.Alike SameTransfer (· = ·) s t) :
    Stage.Alike SameTransfer (· = ·) (a.after p s) t := by
  obtain ⟨base, blocks, hd⟩ := hs.channel
  cases a with
  | write r v mask =>
      cases r with
      | base | blocks => exact ⟨⟨base, blocks, hd⟩, hs.controller, hs.bus⟩
      | control => cases h
  | _ => cases h

/-- What is seen without the writes of live registers. -/
theorem sights_eq_filter : ∀ (as : List (Act β)) {s t : Stage β},
    Stage.Alike SameTransfer (· = ·) s t → s.channel.running = true →
      sights p as s = sights p (as.filter (!·.isLive)) t
  | [], _, _, _, _ => rfl
  | a :: as, s, t, hs, hr => by
      rw [sights]
      cases ha : a.isLive with
      | true =>
          have hs' := Act.after_of_isLive (p := p) ha hs
          rw [if_pos rfl, List.filter_cons_of_neg (by simp [ha])]
          have hr' : t.channel.running = true := hs.channel.running.trans hr
          exact sights_eq_filter as hs' (hs'.channel.running.symm.trans hr')
      | false =>
          obtain ⟨hseen, hs'⟩ := a.seen_eq (p := p) hs hr
          rw [List.filter_cons_of_pos (by simp [ha]), sights, ha, hseen, hs'.channel.running]
          simp only [Bool.false_eq_true, if_false]
          split
          · rename_i hr'
            rw [sights_eq_filter as hs' hr']
          · rfl

/-- **Writes of live registers are not seen by the transfer that runs.**  Whatever a channel, its
controller and its bus, two lists of acts that differ in such writes only show the same accesses,
answers, cycles and states of the controller, up to and with the act that ends the transfer. -/
theorem live_writes_unseen {as bs : List (Act β)} (hr : s.channel.running = true)
    (h : as.filter (!·.isLive) = bs.filter (!·.isLive)) : sights p as s = sights p bs s := by
  have hs : Stage.Alike SameTransfer (· = ·) s s := ⟨.refl _, rfl, rfl⟩
  rw [sights_eq_filter as hs hr, sights_eq_filter bs hs hr, h]

/-! Two words go to a peripheral, chopped after each of them.  While the channel yields, its live
registers are written. -/

/-- A transfer of two words that has just been started. -/
def pairStage : Stage (Bus BareBoard) :=
  ⟨(Channel.load .graphics { base := 0x100, blocks := ⟨2⟩, control := ⟨0x101⟩ }).activate, {},
    { board := ⟨⟩ }⟩

/-- The acts of a burst that yields once, with the writes of live registers in between. -/
def pairActs (writes : List (Act (Bus BareBoard))) : List (Act (Bus BareBoard)) :=
  [.step] ++ writes ++ [.resume 1, .step]

theorem pair_undisturbed :
    sights .graphics (pairActs [.write .base 0x200 0xFFFFFFFF, .write .blocks 7 0xFFFF])
        pairStage = sights .graphics (pairActs []) pairStage ∧
      (sights .graphics (pairActs []) pairStage).map
          (fun x => (x.touches.map Touch.address, x.cycles, x.requests, x.answer.toOption)) =
        [([0x100, 0x1F801810], 1, false, some (.status (.chopped 1))),
          ([], 0, false, some (.active true)),
          ([0x104, 0x1F801810], 1, true, some (.status .completed))] :=
  ⟨live_writes_unseen rfl rfl, by decide +kernel⟩

end Channel

end DmaMachine
