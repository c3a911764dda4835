import DmaMachine.Proofs.Channel.Step
import DmaMachine.Proofs.Twins

/-!
# Twin channels

A step of a channel reads neither the live registers, the base address and the block word, nor the
channel's generation nor, unless it walks a list, the header that would be next; and a channel knows
of a bus only what it has as a master.

* `Channel.Change`: what a step does to its channel.
* `Channel.Unseen`: channels may differ so, and a step does not see it.
* `Channel.Akin`: two channels that differ in their generations and in the header that is next.
* `Kindred`: two buses on which a master comes to the same.
* `Kindred.step`: **steps of channels whose difference is not seen, on kindred buses, are twins.**
-/

namespace DmaMachine

variable {β γ α : Type}

namespace Channel

/-- The channel in another generation, with another header next. -/
def marked (generation nextNode : UInt32) (c : Channel) : Channel := { c with generation, nextNode }

/-- The channels are the same, but that the one is `k` generations ahead, and for the header that is
next where `L` does not say that it is the same. -/
def Akin (L : Prop) (k : UInt32) (c d : Channel) : Prop :=
  ∃ n, (L → n = c.nextNode) ∧ d = c.marked (c.generation - k) n

/-- The function neither reads nor changes the two fields. -/
def Unmarked (g : Channel → Channel) : Prop :=
  ∀ (c : Channel) (generation nextNode : UInt32),
    g (c.marked generation nextNode) = (g c).marked generation nextNode

theorem Unmarked.generation {g : Channel → Channel} (hg : Unmarked g) (c : Channel) :
    (g c).generation = c.generation := by
  have h := congrArg Channel.generation (hg c c.generation c.nextNode)
  exact h

theorem Unmarked.nextNode {g : Channel → Channel} (hg : Unmarked g) (c : Channel) :
    (g c).nextNode = c.nextNode := by
  have h := congrArg Channel.nextNode (hg c c.generation c.nextNode)
  exact h

variable {L : Prop} {k : UInt32} {c d : Channel}

theorem Akin.apply {g : Channel → Channel} (hg : Unmarked g) (h : Akin L k c d) :
    Akin L k (g c) (g d) := by
  obtain ⟨n, hn, rfl⟩ := h
  exact ⟨n, fun hL => (hn hL).trans (hg.nextNode c).symm, by rw [hg, hg.generation]⟩

theorem Akin.enterNode (header : UInt32) (hL : L) (h : Akin L k c d) :
    Akin L k (c.enterNode header) (d.enterNode header) := by
  obtain ⟨n, hn, rfl⟩ := h
  obtain rfl := hn hL
  exact ⟨_, fun _ => rfl, rfl⟩

/-! ### What a step sees -/

/-- All that a step sees of its channel, but for the header that is next. -/
def core (c : Channel) : Channel :=
  { c with base := 0, blocks := {}, generation := 0, nextNode := 0 }

/-- What a step does to its channel, but for entering a node. -/
inductive Change : (Channel → Channel) → Prop where
  | halted : Change halted
  | held (v : Option UInt32) : Change fun c => { c with held := v }
  | retired (p : Peer) : Change (retire p)
  | completed (p : Peer) : Change (completed p)
  | blockEnded : Change blockEnded
  | countBlock : Change countBlock
  /-- An entry of an ordering table was written. -/
  | entry (n : Nat) : Change fun c => { c with address := below c.address, wordsLeft := n }

/-- Channels may differ so and a step does not see it, the header that is next being the same where
`L` says so. -/
structure Unseen (L : Prop) (C : Channel → Channel → Prop) : Prop where
  core : ∀ {c d}, C c d → d.core = c.core
  change : ∀ {g c d}, Change g → C c d → C (g c) (g d)
  nextNode : L → ∀ {c d}, C c d → d.nextNode = c.nextNode
  enterNode : L → ∀ {c d} (header : UInt32), C c d → C (c.enterNode header) (d.enterNode header)

theorem akin_unseen (L : Prop) (k : UInt32) : Unseen L (Akin L k) where
  core := by
    rintro c _ ⟨n, -, rfl⟩
    rfl
  change {g _ _} hg h := by
    have hu : Unmarked g := by cases hg <;> exact fun _ _ _ => rfl
    exact h.apply hu
  nextNode hL := by
    rintro c _ ⟨n, hn, rfl⟩
    exact hn hL
  enterNode hL _ _ header h := h.enterNode header hL

end Channel

/-- The stages are the same to a step. -/
structure Stage.Alike (C : Channel → Channel → Prop) (B : β → γ → Prop) (s : Stage β)
    (t : Stage γ) : Prop where
  channel : C s.channel t.channel
  controller : t.controller = s.controller
  bus : B s.bus t.bus

abbrev Stage.Akin (L : Prop) (k : UInt32) (B : β → γ → Prop) : Stage β → Stage γ → Prop :=
  Stage.Alike (Channel.Akin L k) B

/-- What a master does to the buses comes to the same. -/
structure Kindred [Master β] [Master γ] (B : β → γ → Prop) : Prop where
  read : ∀ w a, Op.Twins (· = ·) B (Master.read (β := β) w a) (Master.read (β := γ) w a)
  write : ∀ w a v, Op.Twins (· = ·) B (Master.write (β := β) w a v) (Master.write (β := γ) w a v)
  exception : ∀ {b c}, B b c → Master.exception b = Master.exception c
  takeException : ∀ {b c}, B b c → (Master.takeException b).1 = (Master.takeException c).1 ∧
    B (Master.takeException b).2 (Master.takeException c).2
  charge : ∀ n {b c}, B b c → B (Master.charge n b) (Master.charge n c)

/-- A bus and itself. -/
theorem kindred_eq [Master β] : Kindred (β := β) (γ := β) (· = ·) where
  read _ _ := .refl _
  write _ _ _ := .refl _
  exception := congrArg _
  takeException := by
    rintro b _ rfl
    exact ⟨rfl, rfl⟩
  charge _ _ _ := congrArg _

/-- Operations on the stages are twins and give the same. -/
abbrev Stage.Twins (C : Channel → Channel → Prop) (B : β → γ → Prop) (x : Op (Stage β) α)
    (y : Op (Stage γ) α) : Prop := Op.Twins (· = ·) (Stage.Alike C B) x y

section Unseen

variable {L : Prop} {C : Channel → Channel → Prop} (hC : Channel.Unseen L C) {B : β → γ → Prop}

namespace Stage

theorem onBus_twins {x : Op β α} {y : Op γ α} (h : Op.Twins (· = ·) B x y) :
    Twins C B (onBus x) (onBus y) := by
  rintro ⟨c, q, b⟩ ⟨d, q', b'⟩ ⟨hc, hq, hb⟩
  have hm := h b b' hb
  simp only [onBus]
  generalize x b = u at hm
  generalize y b' = v at hm
  cases hm with
  | ok h hb => exact .ok h ⟨hc, hq, hb⟩
  | error e hb => exact .error e ⟨hc, hq, hb⟩

theorem onController_twins (g : Controller → Controller) :
    Twins C B (onController g) (onController g) :=
  fun _ _ hs => .ok rfl ⟨hs.channel, congrArg g hs.controller, hs.bus⟩

include hC

theorem onChannel_twins {g : Channel → Channel} (hg : Channel.Change g) :
    Twins C B (onChannel g) (onChannel g) :=
  fun _ _ hs => .ok rfl ⟨hC.change hg hs.channel, hs.controller, hs.bus⟩

theorem Alike.channelOf_eq {s : Stage β} {t : Stage γ} (hs : Alike C B s t) {f : Channel → α}
    (hf : ∀ c : Channel, f c.core = f c) : f t.channel = f s.channel := by
  rw [← hf, hC.core hs.channel, hf]

theorem channelOf_twins {f : Channel → α} (hf : ∀ c : Channel, f c.core = f c) :
    Twins C B (channelOf f) (channelOf f) :=
  fun _ _ hs => .ok (hs.channelOf_eq hC hf).symm hs

/-- The header that is next is the same where a list is walked. -/
theorem nextNode_twins (hL : L) :
    Twins C B (channelOf (·.nextNode)) (channelOf (·.nextNode)) :=
  fun _ _ hs => .ok (hC.nextNode hL hs.channel).symm hs

theorem Alike.channelOf_bind {δ : Type} {s : Stage β} {t : Stage γ} (hs : Alike C B s t)
    {f : Channel → α} (hf : ∀ c : Channel, f c.core = f c)
    {x : α → Op (Stage β) δ} {y : α → Op (Stage γ) δ}
    (h : Op.Meets (· = ·) (Alike C B) (x (f s.channel) s) (y (f s.channel) t)) :
    Op.Meets (· = ·) (Alike C B) ((channelOf f >>= x) s) ((channelOf f >>= y) t) := by
  show Op.Meets _ _ (x (f s.channel) s) (y (f t.channel) t)
  rwa [hs.channelOf_eq hC hf]

end Stage

namespace Channel

open Stage

include hC

theorem stop_twins : Twins C B stop stop :=
  .seq (onController_twins _) fun _ => onChannel_twins hC .halted

theorem complete_twins (p : Peer) : Twins C B (complete p) (complete p) :=
  .seq (onChannel_twins hC (.completed p)) fun _ => onController_twins _

theorem endBlock_twins (p : Peer) : Twins C B (endBlock p) (endBlock p) :=
  .seq (onChannel_twins hC .blockEnded) fun _ => onController_twins _

end Channel

namespace Kindred

open Stage Channel

variable [Master β] [Master γ] (h : Kindred B)
include h

/-! ### Ports -/

theorem readPort (port : DataPort) : Op.Twins (· = ·) B port.read port.read := by
  obtain ⟨w, a⟩ := port
  cases w with
  | word => exact h.read .word a
  | half => exact .seq (h.read .half a) fun _ => .seq (h.read .half a) fun _ => .pure rfl
  | byte =>
      exact .seq (h.read .byte a) fun _ => .seq (h.read .byte a) fun _ =>
        .seq (h.read .byte a) fun _ => .seq (h.read .byte a) fun _ => .pure rfl

theorem writePort (port : DataPort) (v : UInt32) :
    Op.Twins (· = ·) B (port.write v) (port.write v) := by
  obtain ⟨w, a⟩ := port
  cases w with
  | word => exact h.write .word a v
  | half => exact .seq (h.write .half a _) fun _ => h.write .half a _
  | byte =>
      exact .seq (h.write .byte a _) fun _ => .seq (h.write .byte a _) fun _ =>
        .seq (h.write .byte a _) fun _ => h.write .byte a _

theorem exceptionOf : Twins C B Stage.exception Stage.exception :=
  fun _ _ hs => .ok (h.exception hs.bus) hs

theorem chargeOf : Twins C B Stage.charge Stage.charge := fun _ _ hs =>
  have ht := h.takeException (h.charge 1 hs.bus)
  .ok ht.1 ⟨hs.channel, hs.controller, ht.2⟩

/-! ### Units -/

include hC

omit hC in
theorem unitFromRam (port : DataPort) (a : UInt32) :
    Twins C B (unitFromRam port a) (unitFromRam port a) :=
  .seq (onBus_twins (h.read .word a)) fun v =>
    .seq h.exceptionOf fun _ => .ite (.pure rfl)
      (.seq (onBus_twins (h.writePort port v)) fun _ =>
        .seq h.exceptionOf fun _ => .pure rfl)

theorem takeUnit (port : DataPort) : Twins C B (takeUnit port) (takeUnit port) := by
  refine .seq (channelOf_twins hC fun _ => rfl) fun held => ?_
  cases held with
  | some v => exact .seq (onChannel_twins hC (.held none)) fun _ => .pure rfl
  | none =>
      exact .seq (onBus_twins (h.readPort port)) fun _ =>
        .seq h.exceptionOf fun _ => .ite (.pure rfl) (.pure rfl)

theorem storeUnit (a v : UInt32) : Twins C B (storeUnit a v) (storeUnit a v) :=
  .seq (onBus_twins (h.write .word a v)) fun _ =>
    .seq h.exceptionOf fun _ =>
      .ite (.seq (onChannel_twins hC (.held (some v))) fun _ => .pure rfl) (.pure rfl)

theorem unitToRam (port : DataPort) (a : UInt32) :
    Twins C B (unitToRam port a) (unitToRam port a) := by
  refine .seq (h.takeUnit hC port) fun taken => ?_
  cases taken with
  | none => exact .pure rfl
  | some v => exact h.storeUnit hC a v

theorem transferUnit (p : Peer) : Twins C B (transferUnit p) (transferUnit p) := by
  refine .seq (channelOf_twins hC fun _ => rfl) fun ⟨a, direction⟩ => ?_
  cases p.port? with
  | none => exact .throw _
  | some port =>
      cases direction with
      | fromRam => exact h.unitFromRam port a
      | toRam => exact h.unitToRam hC port a

theorem moveUnit (p : Peer) : Twins C B (moveUnit p) (moveUnit p) :=
  .seq (h.transferUnit hC p) fun _ => .seq h.chargeOf fun _ =>
    .ite (.seq (stop_twins hC) fun _ => .pure rfl)
      (.seq (onChannel_twins hC (.retired p)) fun _ => .pure rfl)

theorem moveUnits (p : Peer) (n : Nat) : Twins C B (moveUnits p n) (moveUnits p n) := by
  induction n with
  | zero => exact .pure rfl
  | succ n ih => exact .seq (h.moveUnit hC p) fun _ => .ite ih (.pure rfl)

/-! ### Steps -/

theorem stepBurst (p : Peer) : Twins C B (stepBurst p) (stepBurst p) :=
  .seq (channelOf_twins hC fun _ => rfl) fun (_, _) => .seq (h.moveUnits hC p _) fun _ =>
    .ite
      (.ite (.seq (complete_twins hC p) fun _ => .pure rfl)
        (.seq (onChannel_twins hC .halted) fun _ => .pure rfl))
      (.pure rfl)

theorem stepSlice (p : Peer) : Twins C B (stepSlice p) (stepSlice p) :=
  .seq (channelOf_twins hC fun _ => rfl) fun _ => .seq (h.moveUnits hC p _) fun _ =>
    .ite
      (.seq (onChannel_twins hC .countBlock) fun _ =>
        .seq (channelOf_twins hC fun _ => rfl) fun _ =>
          .ite (.seq (complete_twins hC p) fun _ => .pure rfl)
            (.seq (endBlock_twins hC p) fun _ => .pure rfl))
      (.pure rfl)

theorem visitNode (hL : L) : Twins C B visitNode visitNode :=
  .seq (nextNode_twins hC hL) fun a => .seq (onBus_twins (h.read .word a))
    fun header => .seq h.chargeOf fun _ =>
      .ite (.seq (stop_twins hC) fun _ => .pure rfl)
        (.seq (fun _ _ hs => .ok rfl ⟨hC.enterNode hL header hs.channel,
          hs.controller, hs.bus⟩)
          fun _ => .pure rfl)

/-- What a walk does at the end of a node, when it knows how to go on. -/
theorem walk (hL : L) (p : Peer) (n : Nat) : Twins C B (walk p n) (walk p n) := by
  induction n with
  | zero =>
      exact .seq (channelOf_twins hC fun _ => rfl) fun _ => .seq (h.moveUnits hC p _) fun _ =>
        .ite (.seq (channelOf_twins hC fun _ => rfl) fun _ =>
          .ite (.seq (complete_twins hC p) fun _ => .pure rfl)
            (.seq (nextNode_twins hC hL) fun _ => .throw _)) (.pure rfl)
  | succ n ih =>
      exact .seq (channelOf_twins hC fun _ => rfl) fun _ => .seq (h.moveUnits hC p _) fun _ =>
        .ite (.seq (channelOf_twins hC fun _ => rfl) fun _ =>
          .ite (.seq (complete_twins hC p) fun _ => .pure rfl)
            (.seq (h.visitNode hC hL) fun _ => .ite ih (.pure rfl))) (.pure rfl)

theorem writeEntry (n : Nat) : Twins C B (writeEntry n) (writeEntry n) :=
  .seq (channelOf_twins hC fun _ => rfl) fun a => .seq (onBus_twins (h.write .word a _))
    fun _ => .seq h.chargeOf fun _ =>
      .ite (.seq (stop_twins hC) fun _ => .pure rfl)
        (.seq (onChannel_twins hC (.entry n)) fun _ => .pure rfl)

theorem fillTable (p : Peer) (n : Nat) : Twins C B (fillTable p n) (fillTable p n) := by
  induction n with
  | zero => exact .seq (complete_twins hC p) fun _ => .pure rfl
  | succ n ih => exact .seq (h.writeEntry hC n) fun _ => .ite ih (.pure rfl)

/-- **Steps of channels whose difference is not seen, on kindred buses, are twins**, if the header
that is next is the same where a list is walked. -/
theorem step {p : Peer} {s : Stage β} {t : Stage γ} (hL : s.channel.mode p = .linkedList → L)
    (hs : Stage.Alike C B s t) : Op.Meets (· = ·) (Stage.Alike C B) (step p s) (step p t) := by
  refine hs.channelOf_bind hC (fun _ => rfl) ?_
  cases s.channel.active with
  | false => exact .ok rfl hs
  | true =>
      by_cases hp : p = .orderingTable
      · simp only [Bool.not_true, Bool.false_eq_true, if_false, if_pos hp]
        exact (Op.Twins.seq (channelOf_twins hC fun _ => rfl) fun _ => h.fillTable hC p _) s t hs
      · simp only [Bool.not_true, Bool.false_eq_true, if_false, if_neg hp]
        refine hs.channelOf_bind hC (fun _ => rfl) ?_
        have hm : s.channel.mode p = s.channel.control.syncMode := if_neg hp
        generalize s.channel.control.syncMode = mode at hm
        cases mode with
        | burst => exact h.stepBurst hC p s t hs
        | slice => exact h.stepSlice hC p s t hs
        | linkedList =>
            exact (Op.Twins.seq (channelOf_twins hC fun _ => rfl)
              fun _ => h.walk hC (hL hm) p _) s t hs
        | reserved =>
            exact (Op.Twins.seq (channelOf_twins hC fun _ => rfl) fun _ => .throw _) s t hs

end Kindred

end Unseen

end DmaMachine
