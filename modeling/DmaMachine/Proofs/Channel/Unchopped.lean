import DmaMachine.Proofs.Channel.Units

/-!
# What does not depend on chopping

The control word says whether a burst is chopped and how long its windows are.  These bits say when
a step ends, and nothing about the units that it moves: two channels that differ in them alone move
the same units, to the same end.

* `Control.bit_set_eq`: the bits of a control word with a flag set or cleared.
* `Channel.unchopped`: a channel without the bits, and without its generation.
* `moveUnits_unchopped`: **moving units is the same without them.**
-/

namespace DmaMachine

/-- A field depends on its bits alone. -/
theorem shiftRight_and_congr {a b n m : UInt32} (hn : n.toNat < 32)
    (h : ∀ i < 32, bit m i = true → bit a (n.toNat + i) = bit b (n.toNat + i)) :
    (a >>> n) &&& m = (b >>> n) &&& m := by
  refine word_ext fun i hi => ?_
  rw [bit_and, bit_and, bit_shiftRight a hn, bit_shiftRight b hn]
  cases hm : bit m i
  · rw [Bool.and_false, Bool.and_false]
  · rw [h i hi hm]

/-! ### Control words without the bits -/

namespace Control

/-- The bits that say how a burst is chopped: whether it is, and the two windows. -/
def chopBits : UInt32 := 0x00770100

/-- The control word without the bits that say how a burst is chopped. -/
def unchopped (c : Control) : Control := ⟨c.bits &&& ~~~chopBits⟩

theorem ext_bits {c d : Control} (h : ∀ i < 32, bit c.bits i = bit d.bits i) : c = d := by
  cases c
  cases d
  exact congrArg Control.mk (word_ext h)

theorem bit_set_eq (c : Control) (f : Flag) (on : Bool) {i : Nat} (hi : i < 32) :
    bit (c.set f on).bits i = if i = f.position then on else bit c.bits i := by
  split
  · rename_i h
    rw [h]
    exact (c.has_set f f on).trans (if_pos rfl)
  · exact c.bit_set f on hi ‹_›

theorem bit_unchopped (c : Control) {i : Nat} (hi : i < 32) :
    bit c.unchopped.bits i = (bit c.bits i && !bit chopBits i) := by
  simp [unchopped, bit_not, hi]

theorem bit_chopBits_position {f : Flag} (hf : f ≠ .chopping) :
    bit chopBits f.position = false := by
  cases f <;> first | decide | exact absurd rfl hf

variable (c : Control) {f : Flag}

theorem has_unchopped (hf : f ≠ .chopping) : c.unchopped.has f = c.has f := by
  rw [has, c.bit_unchopped f.position_lt, bit_chopBits_position hf, Bool.not_false, Bool.and_true]
  rfl

@[simp] theorem direction_unchopped : c.unchopped.direction = c.direction := by
  rw [direction, direction, c.has_unchopped (by decide)]

@[simp] theorem syncMode_unchopped : c.unchopped.syncMode = c.syncMode := by
  have h3 : ∀ i < 32, bit 3 i = true → i < 2 := by decide
  have hm : ∀ i < 2, bit chopBits (9 + i) = false := by decide
  have h : (c.unchopped.bits >>> 9) &&& (3 : UInt32) = (c.bits >>> 9) &&& 3 :=
    shiftRight_and_congr (by decide) fun i hi hb => by
      have hi := h3 i hi hb
      show bit c.unchopped.bits (9 + i) = bit c.bits (9 + i)
      rw [c.bit_unchopped (by omega), hm i hi, Bool.not_false, Bool.and_true]
  rw [syncMode, syncMode, SyncMode.ofBits, SyncMode.ofBits, h]

theorem set_unchopped (hf : f ≠ .chopping) (on : Bool) :
    c.unchopped.set f on = (c.set f on).unchopped := by
  refine ext_bits fun i hi => ?_
  rw [bit_set_eq _ _ _ hi, bit_unchopped _ hi, bit_unchopped _ hi, bit_set_eq _ _ _ hi]
  split
  · rename_i h
    rw [h, bit_chopBits_position hf, Bool.not_false, Bool.and_true]
  · rfl

@[simp] theorem unchopped_unchopped : c.unchopped.unchopped = c.unchopped := by
  rw [unchopped, unchopped, UInt32.and_assoc, UInt32.and_self]

/-- No flag stands among the bits of the window. -/
@[simp] theorem busWindow_set (f : Flag) (on : Bool) : (c.set f on).busWindow = c.busWindow := by
  have h7 : ∀ i < 32, bit 7 i = true → i < 3 := by decide
  have h : ((c.set f on).bits >>> 16) &&& (7 : UInt32) = (c.bits >>> 16) &&& 7 :=
    shiftRight_and_congr (by decide) fun i hi hb => by
      have hi := h7 i hi hb
      refine c.bit_set f on (show 16 + i < 32 by omega) ?_
      show 16 + i ≠ f.position
      cases f <;> simp only [Flag.position] <;> omega
  rw [busWindow, busWindow, h]

end Control

namespace Channel

/-! ### Channels without the bits -/

/-- The channel without the bits that say how a burst is chopped, and without its generation. -/
def unchopped (c : Channel) : Channel := { c with control := c.control.unchopped, generation := 0 }

section

variable (p : Peer) (c : Channel)

@[simp] theorem mode_unchopped : c.unchopped.mode p = c.mode p := by
  rw [mode, mode]
  simp [unchopped]

theorem refusal?_unchopped : c.unchopped.refusal? p = c.refusal? p :=
  refusal?_congr (c.control.direction_unchopped) (c.control.syncMode_unchopped)

theorem retire_unchopped : c.unchopped.retire p = (c.retire p).unchopped := by
  have ha : c.unchopped.nextAddress p = c.nextAddress p := by
    rw [nextAddress, nextAddress, mode_unchopped]
    simp [unchopped, c.control.has_unchopped (show Control.Flag.decrement ≠ .chopping by decide)]
  rw [retire, retire, ha]
  rfl

theorem completed_unchopped : c.unchopped.completed p = (c.completed p).unchopped := by
  rw [completed, completed, mode_unchopped, unchopped, unchopped]
  simp only [c.control.set_unchopped (show Control.Flag.startBusy ≠ .chopping by decide)]

theorem activate_unchopped : c.unchopped.activate.unchopped = c.activate.unchopped := by
  simp only [activate, unchopped, Control.unchopped_unchopped,
    Control.set_unchopped _ (show Control.Flag.startBusy ≠ .chopping by decide),
    Control.set_unchopped _ (show Control.Flag.forceStart ≠ .chopping by decide)]

theorem load_unchopped : c.unchopped.load p = (c.load p).unchopped := by
  have hm := c.mode_unchopped p
  simp only [mode] at hm
  rw [load, load]
  simp only [mode, hm]
  split <;> rfl

end

end Channel

/-! ### Stages without the bits -/

namespace Stage

variable {α β : Type}

/-- The stage with its channel unchopped. -/
def unchopped (s : Stage β) : Stage β := ⟨s.channel.unchopped, s.controller, s.bus⟩

theorem onBus_unchopped (x : Op β α) : Op.Projects unchopped (onBus x) (onBus x) := by
  intro s
  rw [outcome_onBus, outcome_onBus]
  rfl

theorem onChannel_unchopped {f : Channel → Channel} (h : ∀ c, f c.unchopped = (f c).unchopped) :
    Op.Projects unchopped (onChannel (β := β) f) (onChannel f) := fun s => by
  simp only [onChannel, unchopped, Op.outcome_ok, h]

theorem channelOf_unchopped {f : Channel → α} (h : ∀ c, f c.unchopped = f c) :
    Op.Projects unchopped (channelOf (β := β) f) (channelOf f) := fun s => by
  simp only [channelOf, unchopped, Op.outcome_ok, h]

theorem onController_unchopped (f : Controller → Controller) :
    Op.Projects unchopped (onController (β := β) f) (onController f) := fun _ => rfl

theorem throw_unchopped (e : Fault) :
    Op.Projects unchopped (throw e : Op (Stage β) α) (throw e) := fun _ => rfl

variable [Master β]

theorem exception_unchopped : Op.Projects unchopped (exception (β := β)) exception := fun _ => rfl

theorem charge_unchopped : Op.Projects unchopped (charge (β := β)) charge := fun _ => rfl

end Stage

namespace Channel

open Stage

variable {β : Type}

theorem stop_unchopped : Op.Projects Stage.unchopped (stop (β := β)) stop :=
  .bind (onController_unchopped _) fun _ => onChannel_unchopped fun _ => rfl

theorem complete_unchopped (p : Peer) :
    Op.Projects Stage.unchopped (complete (β := β) p) (complete p) :=
  .bind (onChannel_unchopped (completed_unchopped p)) fun _ => onController_unchopped _

variable [Master β]

theorem unitFromRam_unchopped (port : DataPort) (a : UInt32) :
    Op.Projects Stage.unchopped (unitFromRam (β := β) port a) (unitFromRam port a) := by
  refine .bind (onBus_unchopped _) fun v => .bind exception_unchopped fun up => ?_
  cases up with
  | true => exact .pure _
  | false => exact .bind (onBus_unchopped _) fun _ => .bind exception_unchopped fun _ => .pure _

theorem takeUnit_unchopped (port : DataPort) :
    Op.Projects Stage.unchopped (takeUnit (β := β) port) (takeUnit port) := by
  refine .bind (channelOf_unchopped fun _ => rfl) fun held => ?_
  cases held with
  | some v => exact .bind (onChannel_unchopped fun _ => rfl) fun _ => .pure _
  | none =>
      refine .bind (onBus_unchopped _) fun v => .bind exception_unchopped fun up => ?_
      cases up <;> exact .pure _

theorem storeUnit_unchopped (a v : UInt32) :
    Op.Projects Stage.unchopped (storeUnit (β := β) a v) (storeUnit a v) := by
  refine .bind (onBus_unchopped _) fun _ => .bind exception_unchopped fun up => ?_
  cases up with
  | true => exact .bind (onChannel_unchopped fun _ => rfl) fun _ => .pure _
  | false => exact .pure _

theorem unitToRam_unchopped (port : DataPort) (a : UInt32) :
    Op.Projects Stage.unchopped (unitToRam (β := β) port a) (unitToRam port a) := by
  refine .bind (takeUnit_unchopped port) fun taken => ?_
  cases taken with
  | none => exact .pure _
  | some v => exact storeUnit_unchopped a v

theorem transferUnit_unchopped (p : Peer) :
    Op.Projects Stage.unchopped (transferUnit (β := β) p) (transferUnit p) := by
  refine .bind (channelOf_unchopped fun c => ?_) fun ⟨a, direction⟩ => ?_
  · simp [Channel.unchopped]
  · cases p.port? with
    | none => exact throw_unchopped _
    | some port =>
        cases direction with
        | fromRam => exact unitFromRam_unchopped port a
        | toRam => exact unitToRam_unchopped port a

theorem moveUnit_unchopped (p : Peer) :
    Op.Projects Stage.unchopped (moveUnit (β := β) p) (moveUnit p) := by
  refine .bind (transferUnit_unchopped p) fun through => .bind charge_unchopped fun up => ?_
  cases up || !through with
  | true => exact .bind stop_unchopped fun _ => .pure _
  | false => exact .bind (onChannel_unchopped (retire_unchopped p)) fun _ => .pure _

/-- **Moving units does not depend on chopping.** -/
theorem moveUnits_unchopped (p : Peer) (n : Nat) :
    Op.Projects Stage.unchopped (moveUnits (β := β) p n) (moveUnits p n) := by
  induction n with
  | zero => exact .pure _
  | succ n ih =>
      refine .bind (moveUnit_unchopped p) fun through => ?_
      cases through with
      | true => exact ih
      | false => exact .pure _

end Channel

end DmaMachine
