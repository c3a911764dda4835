import DmaMachine.Bus.Master
import DmaMachine.Channel.Peer

/-!
# What fails

An operation that is made of parts fails with what a part fails with.  On the bus the parts are
accesses, and of these an aligned one fails when a device does.

* `Op.FailsBy`: the faults that an operation can fail with, and the states that it can fail in.
* `Bus.read_failsBy`, `Bus.write_failsBy`: **an aligned access fails when a device does**, and
  leaves the board as the device left it.
* `DataPort.read_failsBy`, `DataPort.write_failsBy`: so does a unit, at an aligned port, as all
  ports are.
-/

namespace DmaMachine

variable {σ α β δ : Type}

/-! ### What an operation fails with -/

/-- The operation fails with no fault, and in no state, but these. -/
def Op.FailsBy (E : Fault → σ → Prop) (op : Op σ α) : Prop := ∀ ⦃s e t⦄, op s = .error e t → E e t

section FailsBy

variable {E : Fault → σ → Prop} {x : Op σ α} {f : α → Op σ β}

theorem Op.fails_of_bind {s : σ} (hx : ∀ ⦃e t⦄, x s = .error e t → E e t)
    (hf : ∀ a, FailsBy E (f a)) ⦃e : Fault⦄ ⦃t : σ⦄ (h : (x >>= f) s = .error e t) : E e t := by
  rw [bind_apply] at h
  cases hs : x s with
  | ok a u =>
      rw [hs] at h
      exact hf a h
  | error e' u =>
      rw [hs] at h
      cases h
      exact hx hs

theorem Op.FailsBy.bind (hx : FailsBy E x) (hf : ∀ a, FailsBy E (f a)) : FailsBy E (x >>= f) :=
  fun _ => fails_of_bind (@hx _) hf

theorem Op.FailsBy.pure (a : α) : FailsBy E (Pure.pure a : Op σ α) := by
  rintro s e t ⟨⟩

end FailsBy

/-! ### Devices that fail -/

section Devices

variable [Board δ]

/-- The device in the slot has refused an access with this fault, and left the board so. -/
def Slot.Refuses (s : Slot) (e : Fault) (board : δ) : Prop :=
  ∃ before : δ, (∃ w a, Board.read s w a before = .error e board) ∨
    ∃ w a v, Board.write s w a v before = .error e board

/-- A device that is attached to the bus has failed. -/
def DeviceFails (e : Fault) (b : Bus δ) : Prop :=
  ∃ (board : δ) (a : UInt32) (s : Slot), Board.slotAt board a = some s ∧ s.Refuses e b.board

theorem Slot.read_failsBy (s : Slot) (w : Width) (a : UInt32) :
    Op.FailsBy s.Refuses (s.read w a : Op δ UInt32) := by
  have hr : ∀ w a, Op.FailsBy s.Refuses (Board.read s w a : Op δ UInt32) :=
    fun w a before e board h => ⟨before, .inl ⟨w, a, h⟩⟩
  unfold Slot.read
  split
  · exact .bind (hr w a) fun _ => .pure _
  · exact .bind (hr .word _) fun _ => .pure _

theorem Slot.write_failsBy (s : Slot) (w : Width) (a v : UInt32) :
    Op.FailsBy s.Refuses (s.write w a v : Op δ Unit) := by
  have hw : ∀ w a v, Op.FailsBy s.Refuses (Board.write s w a v : Op δ Unit) :=
    fun w a v before e board h => ⟨before, .inr ⟨w, a, v, h⟩⟩
  unfold Slot.write
  split
  · exact hw w a _
  · exact .bind (fun before e board h => ⟨before, .inl ⟨_, _, h⟩⟩) fun _ => hw .word _ _

omit [Board δ] in
theorem Bus.onBoard_eq_error {op : Op δ α} {b b' : Bus δ} {e : Fault}
    (h : Bus.onBoard op b = .error e b') : op b.board = .error e b'.board := by
  obtain ⟨ram, board, ex, last, pending⟩ := b
  simp only [Bus.onBoard] at h
  show op board = _
  cases ho : op board <;> rw [ho] at h <;> cases h
  rfl

/-- **An aligned access fails when a device does.** -/
theorem Bus.read_failsBy {w : Width} {a : UInt32} (ha : w.aligned a = true) :
    Op.FailsBy DeviceFails (Bus.read (δ := δ) w a) := by
  intro b e b' h
  rw [Bus.read, ha, if_neg (by simp)] at h
  split at h
  · cases h
  · cases h
  all_goals
    split at h
    · cases h
    · exact ⟨_, _, _, ‹_›, Slot.read_failsBy _ _ _ (Bus.onBoard_eq_error h)⟩

theorem Bus.write_failsBy {w : Width} {a : UInt32} (ha : w.aligned a = true) (v : UInt32) :
    Op.FailsBy DeviceFails (Bus.write (δ := δ) w a v) := by
  intro b e b' h
  rw [Bus.write, ha, if_neg (by simp)] at h
  split at h
  · cases h
  · cases h
  all_goals
    split at h
    · cases h
    · exact ⟨_, _, _, ‹_›, Slot.write_failsBy _ _ _ _ (Bus.onBoard_eq_error h)⟩

theorem DataPort.read_failsBy {port : DataPort} (ha : port.width.aligned port.address = true) :
    Op.FailsBy DeviceFails (port.read (β := Bus δ)) := by
  obtain ⟨w, a⟩ := port
  have hr : Op.FailsBy DeviceFails (Bus.read (δ := δ) w a) := Bus.read_failsBy ha
  cases w with
  | word => exact hr
  | half => exact .bind hr fun _ => .bind hr fun _ => .pure _
  | byte => exact .bind hr fun _ => .bind hr fun _ => .bind hr fun _ => .bind hr fun _ => .pure _

theorem DataPort.write_failsBy {port : DataPort} (ha : port.width.aligned port.address = true)
    (v : UInt32) : Op.FailsBy DeviceFails (port.write (β := Bus δ) v) := by
  obtain ⟨w, a⟩ := port
  have hw : ∀ v, Op.FailsBy DeviceFails (Bus.write (δ := δ) w a v) := Bus.write_failsBy ha
  cases w with
  | word => exact hw v
  | half => exact .bind (hw _) fun _ => hw _
  | byte => exact .bind (hw _) fun _ => .bind (hw _) fun _ => .bind (hw _) fun _ => hw _

theorem Peer.port_aligned {p : Peer} {port : DataPort} (h : p.port? = some port) :
    port.width.aligned port.address = true := by
  cases p <;> cases h <;> rfl

end Devices

end DmaMachine
