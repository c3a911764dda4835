import DmaMachine.Proofs.Channel.Delivery
import DmaMachine.Proofs.Engine.Meter
import DmaMachine.Proofs.Memory

/-!
# Carrying units

Carrying a unit is reading it at the one end, memory or the port, and writing it at the other, and
nothing else.  `DataPort.carryAll` does so for one address after the other: it knows no channel, no
exception flag and no cycles, and it fails only if a device does.

* `Bus.BoardOnly`: what an access to the board, and so to a port, may change.
* `carryAll_fromRam`: **units out of memory** are the words there, put into the port.
* `carryAll_toRam`: **units into memory** are those that come out of the port, stored there.
* `Recorder.carryAll_ok`: **the accesses that carry units**, in order, and the exception flag after
  them.
* `Transparent.carryAll`, `Bus.charge_transparent`: what carrying cannot see, the cycles that are
  pending among it.
-/

namespace DmaMachine

namespace DataPort

/-! ### Carrying -/

section Carry

variable {β : Type} [Master β]

/-- Carries a unit between memory at an address and the port. -/
def carry (port : DataPort) (d : Direction) (a : UInt32) : Op β UInt32 :=
  match d with
  | .fromRam => do
      let v ← Master.read .word a
      port.write v
      return v
  | .toRam => do
      let v ← port.read
      Master.write .word a v
      return v

/-- Carries a unit for each address, and gives the units. -/
def carryAll (port : DataPort) (d : Direction) : List UInt32 → Op β (List UInt32)
  | [] => pure []
  | a :: as => do
      let v ← port.carry d a
      let vs ← port.carryAll d as
      return v :: vs

/-- Puts units into the port, one after the other. -/
def writeAll (port : DataPort) : List UInt32 → Op β Unit
  | [] => pure ()
  | v :: vs => do
      port.write v
      port.writeAll vs

/-- Takes units out of the port, one after the other. -/
def readAll (port : DataPort) : Nat → Op β (List UInt32)
  | 0 => pure []
  | n + 1 => do
      let v ← port.read
      let vs ← port.readAll n
      return v :: vs

theorem writeAll_append (port : DataPort) (vs ws : List UInt32) :
    (port.writeAll (vs ++ ws) : Op β Unit) = port.writeAll vs >>= fun _ => port.writeAll ws := by
  induction vs with
  | nil => rfl
  | cons v vs ih => rw [List.cons_append, writeAll, writeAll, ih, bind_assoc]

theorem length_readAll {port : DataPort} : ∀ {n : Nat} {vs : List UInt32} {b b' : β},
    port.readAll n b = .ok vs b' → vs.length = n
  | 0, _, _, _, h => by
      cases h
      rfl
  | n + 1, _, _, _, h => by
      obtain ⟨_, _, -, h⟩ := Op.bind_eq_ok.1 h
      obtain ⟨_, _, hn, h⟩ := Op.bind_eq_ok.1 h
      cases h
      exact congrArg (· + 1) (length_readAll hn)

/-- The last unit is taken when the others have been. -/
theorem readAll_succ {port : DataPort} : ∀ {n : Nat} {vs : List UInt32} {b b' : β},
    port.readAll (n + 1) b = .ok vs b' →
      ∃ ws v t, vs = ws ++ [v] ∧ port.readAll n b = .ok ws t ∧ port.read t = .ok v b'
  | 0, _, b, _, h => by
      obtain ⟨v, t, hv, h⟩ := Op.bind_eq_ok.1 h
      cases h
      exact ⟨[], v, b, rfl, rfl, hv⟩
  | n + 1, _, _, _, h => by
      obtain ⟨v, t, hv, h⟩ := Op.bind_eq_ok.1 h
      obtain ⟨_, u, hn, h⟩ := Op.bind_eq_ok.1 h
      cases h
      obtain ⟨ws, w, u', rfl, hws, hw⟩ := readAll_succ hn
      exact ⟨v :: ws, w, u', rfl,
        Op.bind_eq_ok.2 ⟨v, t, hv, Op.bind_eq_ok.2 ⟨ws, u', hws, rfl⟩⟩, hw⟩

/-- What is seen of the reads that a port is made of is seen of the port. -/
theorem read_projects {γ : Type} [Master γ] {f : β → γ} {port : DataPort}
    (h : Op.Projects f (Master.read port.width port.address)
      (Master.read port.width port.address)) : Op.Projects f port.read port.read := by
  obtain ⟨w, a⟩ := port
  cases w with
  | word => exact h
  | half => exact .bind h fun _ => .bind h fun _ => .pure _
  | byte => exact .bind h fun _ => .bind h fun _ => .bind h fun _ => .bind h fun _ => .pure _

end Carry

/-- The parts by which a unit passes through a port, lowest first. -/
def parts : Width → UInt32 → List UInt32
  | .word, v => [v]
  | .half, v => [v &&& 0xFFFF, v >>> 16]
  | .byte, v => [v &&& 0xFF, (v >>> 8) &&& 0xFF, (v >>> 16) &&& 0xFF, v >>> 24]

/-- The accesses by which a unit passes through the port. -/
def passes (port : DataPort) (isWrite : Bool) (v : UInt32) : List Touch :=
  (parts port.width v).map fun x => ⟨isWrite, port.width, port.address, x⟩

/-- The accesses that carry a unit. -/
def touches (port : DataPort) (d : Direction) (a v : UInt32) : List Touch :=
  match d with
  | .fromRam => ⟨false, .word, a, v⟩ :: port.passes true v
  | .toRam => port.passes false v ++ [⟨true, .word, a, v⟩]

/-- The accesses that carry units, one for each address. -/
def touchesAll (port : DataPort) (d : Direction) (as vs : List UInt32) : List Touch :=
  (as.zip vs).flatMap fun x => port.touches d x.1 x.2

/-! ### Parts -/

theorem bit_of_masked {w : Width} {v : UInt32} (h : v &&& w.mask = v) {i : Nat}
    (hi : 8 * w.bytes ≤ i) : bit v i = false := by
  have hm : ∀ i < 32, 8 * w.bytes ≤ i → bit w.mask i = false := by cases w <;> decide
  by_cases hl : i < 32
  · rw [← h, bit_and, hm i hl hi, Bool.and_false]
  · exact bit_of_ge v (Nat.le_of_not_lt hl)

/-- Two half words are the parts of the unit that they make up. -/
theorem parts_half {low high : UInt32} (hl : low &&& Width.half.mask = low)
    (hh : high &&& Width.half.mask = high) : parts .half (low ||| high <<< 16) = [low, high] := by
  have h16 : (16 : UInt32).toNat < 32 := by decide
  have hm : ∀ i < 32, bit 0xFFFF i = decide (i < 16) := by decide
  have bl : ∀ i, 16 ≤ i → bit low i = false := fun i => bit_of_masked hl
  have bh : ∀ i, 16 ≤ i → bit high i = false := fun i => bit_of_masked hh
  simp only [parts, List.cons.injEq, and_true]
  refine ⟨?_, ?_⟩ <;> refine word_ext fun i hi => ?_ <;>
    simp only [bit_and, bit_or, bit_shiftLeft _ h16, bit_shiftRight _ h16, hm i hi,
      UInt32.reduceToNat] <;>
    grind

/-- Four bytes are the parts of the unit that they make up. -/
theorem parts_byte {b₀ b₁ b₂ b₃ : UInt32} (h₀ : b₀ &&& Width.byte.mask = b₀)
    (h₁ : b₁ &&& Width.byte.mask = b₁) (h₂ : b₂ &&& Width.byte.mask = b₂)
    (h₃ : b₃ &&& Width.byte.mask = b₃) :
    parts .byte (b₀ ||| b₁ <<< 8 ||| b₂ <<< 16 ||| b₃ <<< 24) = [b₀, b₁, b₂, b₃] := by
  have h8 : (8 : UInt32).toNat < 32 := by decide
  have h16 : (16 : UInt32).toNat < 32 := by decide
  have h24 : (24 : UInt32).toNat < 32 := by decide
  have hm : ∀ i < 32, bit 0xFF i = decide (i < 8) := by decide
  have c₀ : ∀ i, 8 ≤ i → bit b₀ i = false := fun i => bit_of_masked h₀
  have c₁ : ∀ i, 8 ≤ i → bit b₁ i = false := fun i => bit_of_masked h₁
  have c₂ : ∀ i, 8 ≤ i → bit b₂ i = false := fun i => bit_of_masked h₂
  have c₃ : ∀ i, 8 ≤ i → bit b₃ i = false := fun i => bit_of_masked h₃
  simp only [parts, List.cons.injEq, and_true]
  refine ⟨?_, ?_, ?_, ?_⟩ <;> refine word_ext fun i hi => ?_ <;>
    simp only [bit_and, bit_or, bit_shiftLeft _ h8, bit_shiftLeft _ h16, bit_shiftLeft _ h24,
      bit_shiftRight _ h8, bit_shiftRight _ h16, bit_shiftRight _ h24, hm i hi,
      UInt32.reduceToNat] <;>
    grind

/-- The port is on the board. -/
def OnBoard (port : DataPort) : Prop :=
  regionOf port.address = .io ∨ regionOf port.address = .expansion

theorem onBoard_of_port {p : Peer} {port : DataPort} (hp : p.port? = some port) :
    port.OnBoard := by
  unfold OnBoard
  cases p <;> cases hp <;> decide

end DataPort

/-! ### Accesses to the board -/

section Board

variable {δ : Type}

theorem Slot.read_masked [Board δ] {s : Slot} {w : Width} {offset v : UInt32} {d d' : δ}
    (h : s.read w offset d = .ok v d') : v &&& w.mask = v := by
  rw [Slot.read] at h
  split at h <;> obtain ⟨x, t, -, h⟩ := Op.bind_eq_ok.1 h <;> cases h
  · rw [UInt32.and_assoc, UInt32.and_self]
  · rw [Width.lane, UInt32.and_assoc, UInt32.and_self]

namespace Bus

/-- Nothing but the board may differ. -/
def BoardOnly (b b' : Bus δ) : Prop := ∃ board, b' = { b with board }

theorem BoardOnly.exception {b b' : Bus δ} (h : BoardOnly b b') : b'.exception = b.exception := by
  obtain ⟨_, rfl⟩ := h
  rfl

theorem BoardOnly.ram {b b' : Bus δ} (h : BoardOnly b b') : b'.ram = b.ram := by
  obtain ⟨_, rfl⟩ := h
  rfl

theorem BoardOnly.pendingCycles {b b' : Bus δ} (h : BoardOnly b b') :
    b'.pendingCycles = b.pendingCycles := by
  obtain ⟨_, rfl⟩ := h
  rfl

theorem boardOnly_chains : Chains (BoardOnly (δ := δ)) where
  refl b := ⟨b.board, rfl⟩
  trans := by
    rintro b _ _ ⟨board, rfl⟩ ⟨board', rfl⟩
    exact ⟨board', rfl⟩

theorem onBoard_boardOnly {α : Type} (op : Op δ α) : Op.Relates BoardOnly (onBoard op) := by
  rintro ⟨ram, board, exception, lastFault, pendingCycles⟩
  simp only [onBoard]
  cases op board <;> exact ⟨_, rfl⟩

variable [Board δ] {w : Width} {a : UInt32}

theorem read_boardOnly (hr : regionOf a = .io ∨ regionOf a = .expansion) :
    Op.Relates BoardOnly (Bus.read (δ := δ) w a) := by
  intro b
  simp only [Bus.read]
  split
  · exact boardOnly_chains.refl b
  · obtain hr | hr := hr <;> simp only [hr] <;> split <;>
      first | exact boardOnly_chains.refl b | exact onBoard_boardOnly _ b

theorem write_boardOnly (hr : regionOf a = .io ∨ regionOf a = .expansion) (v : UInt32) :
    Op.Relates BoardOnly (Bus.write (δ := δ) w a v) := by
  intro b
  simp only [Bus.write]
  split
  · exact boardOnly_chains.refl b
  · obtain hr | hr := hr <;> simp only [hr] <;> split <;>
      first | exact boardOnly_chains.refl b | exact onBoard_boardOnly _ b

/-- What the board gives is no wider than what it was asked for. -/
theorem read_masked {v : UInt32} {b b' : Bus δ}
    (hr : regionOf a = .io ∨ regionOf a = .expansion) (h : Bus.read w a b = .ok v b') :
    v &&& w.mask = v := by
  have ho : ∀ {op : Op δ UInt32}, onBoard op b = .ok v b' → op b.board = .ok v b'.board := by
    intro op h
    obtain ⟨ram, board, exception, lastFault, pendingCycles⟩ := b
    simp only [onBoard] at h
    cases hb : op board <;> rw [hb] at h <;> cases h
    rfl
  simp only [Bus.read] at h
  split at h
  · cases h
  · obtain hr | hr := hr <;> simp only [hr] at h <;> split at h <;>
      first
        | (cases h; exact UInt32.and_self)
        | exact Slot.read_masked (ho h)

/-- An access of memory fails only where it is misaligned. -/
theorem read_error {w : Width} {a : UInt32} (ha : a ≤ addressMask) {e : Fault} {b b' : Bus δ}
    (h : Bus.read w a b = .error e b') : e = .unaligned a w.bytes := by
  have hr := Channel.regionOf_of_le ha
  cases hw : w.aligned a with
  | false =>
      rw [read_of_unaligned hw] at h
      cases h
      rfl
  | true =>
      by_cases hu : regionOf a = .unmapped
      · rw [read_unmapped hw hu] at h
        cases h
      · rw [read_ram hw (hr hu)] at h
        cases h

variable {port : DataPort}

theorem readPort_boardOnly (hp : port.OnBoard) : Op.Relates BoardOnly (port.read (β := Bus δ)) :=
  Channel.read_port boardOnly_chains (read_boardOnly hp)

theorem writePort_boardOnly (hp : port.OnBoard) (v : UInt32) :
    Op.Relates BoardOnly (port.write (β := Bus δ) v) :=
  Channel.write_port boardOnly_chains (write_boardOnly hp) v

end Bus

end Board

/-! ### What carrying keeps, and what it can be seen through -/

namespace DataPort

section

variable {β : Type} [Master β] {Q : β → β → Prop} (hQ : Chains Q)
  (hr : ∀ w a, Op.Relates Q (Master.read w a)) (hw : ∀ w a v, Op.Relates Q (Master.write w a v))
include hQ hr hw

theorem carry_relates (port : DataPort) (d : Direction) (a : UInt32) :
    Op.Relates Q (port.carry d a) := by
  cases d with
  | fromRam =>
      exact .bind hQ (hr _ _) fun v =>
        .bind hQ (Channel.write_port hQ (hw _ _) v) fun _ => hQ.refl
  | toRam =>
      exact .bind hQ (Channel.read_port hQ (hr _ _)) fun v => .bind hQ (hw _ _ v) fun _ => hQ.refl

theorem carryAll_relates (port : DataPort) (d : Direction) (as : List UInt32) :
    Op.Relates Q (port.carryAll d as) := by
  induction as with
  | nil => exact hQ.refl
  | cons a as ih =>
      exact .bind hQ (carry_relates hQ hr hw port d a) fun _ => .bind hQ ih fun _ => hQ.refl

end

/-- Carrying charges nothing. -/
theorem carryAll_cycles {δ : Type} [Board δ] (port : DataPort) {d : Direction}
    {as vs : List UInt32} {b b' : Bus δ} (h : port.carryAll d as b = .ok vs b') :
    b'.pendingCycles = b.pendingCycles :=
  (carryAll_relates (Q := fun b b' : Bus δ => b'.pendingCycles = b.pendingCycles)
    ⟨fun _ => rfl, fun h k => k.trans h⟩ (fun w a => Bus.pendingCycles_read w a)
    (fun w a v => Bus.pendingCycles_write w a v) port d as).of_ok h

end DataPort

namespace Transparent

variable {β γ : Type} [Master β] [Master γ] {f : β → γ} (h : Transparent f)
include h

theorem carry (port : DataPort) (d : Direction) (a : UInt32) :
    Op.Projects f (port.carry d a) (port.carry d a) := by
  cases d with
  | fromRam => exact .bind (h.read .word a) fun v => .bind (h.writePort port v) fun _ => .pure _
  | toRam => exact .bind (h.readPort port) fun v => .bind (h.write .word a v) fun _ => .pure _

theorem carryAll (port : DataPort) (d : Direction) (as : List UInt32) :
    Op.Projects f (port.carryAll d as) (port.carryAll d as) := by
  induction as with
  | nil => exact .pure _
  | cons a as ih => exact .bind (h.carry port d a) fun _ => .bind ih fun _ => .pure _

theorem writeAll (port : DataPort) (vs : List UInt32) :
    Op.Projects f (port.writeAll vs) (port.writeAll vs) := by
  induction vs with
  | nil => exact .pure _
  | cons v vs ih => exact .bind (h.writePort port v) fun _ => ih

/-- What cannot be told apart cannot be told apart in a recorder. -/
theorem recorder : Transparent fun r : Recorder β => (⟨f r.bus, r.log⟩ : Recorder γ) where
  read w a := by
    intro r
    have hb := h.read w a r.bus
    simp only [Master.read] at hb ⊢
    cases he : Master.read w a r.bus with
    | ok v b =>
        rw [he] at hb
        rw [Op.outcome_eq_ok.1 hb]
        rfl
    | error e b =>
        rw [he] at hb
        rw [Op.outcome_eq_error.1 hb]
        rfl
  write w a v := by
    intro r
    have hb := h.write w a v r.bus
    simp only [Master.write] at hb ⊢
    cases he : Master.write w a v r.bus with
    | ok u b =>
        rw [he] at hb
        rw [Op.outcome_eq_ok.1 hb]
        rfl
    | error e b =>
        rw [he] at hb
        rw [Op.outcome_eq_error.1 hb]
        rfl
  exception r := h.exception r.bus
  takeException r := by
    have ht := h.takeException r.bus
    simp only [Master.takeException] at ht ⊢
    rw [ht]
  charge n r := by
    have hc := h.charge n r.bus
    simp only [Master.charge] at hc ⊢
    rw [hc]

end Transparent

namespace Bus

variable {δ : Type}

theorem charge_charge (m n : Nat) (b : Bus δ) : (b.charge m).charge n = b.charge (m + n) := by
  simp only [charge, Nat.add_assoc]

theorem charge_onBoard {α : Type} (op : Op δ α) (n : Nat) :
    Op.Projects (charge n) (onBoard op) (onBoard op) := by
  rintro ⟨ram, board, exception, lastFault, pendingCycles⟩
  simp only [onBoard, charge]
  cases op board <;> rfl

variable [Board δ]

theorem read_charge (n : Nat) (w : Width) (a : UInt32) :
    Op.Projects (charge n) (Bus.read (δ := δ) w a) (Bus.read w a) := by
  intro b
  simp only [Bus.read]
  split
  · rfl
  · cases regionOf a with
    | ram | unmapped => rfl
    | io | expansion =>
        simp only [show (b.charge n).board = b.board from rfl]
        cases Board.slotAt b.board (physical a) with
        | none => rfl
        | some slot => exact charge_onBoard _ n b

theorem write_charge (n : Nat) (w : Width) (a v : UInt32) :
    Op.Projects (charge n) (Bus.write (δ := δ) w a v) (Bus.write w a v) := by
  intro b
  simp only [Bus.write]
  split
  · rfl
  · cases regionOf a with
    | ram | unmapped => rfl
    | io | expansion =>
        simp only [show (b.charge n).board = b.board from rfl]
        cases Board.slotAt b.board (physical a) with
        | none => rfl
        | some slot => exact charge_onBoard _ n b

/-- A channel cannot tell what cycles are pending. -/
theorem charge_transparent (n : Nat) : Transparent (charge (δ := δ) n) where
  read := read_charge n
  write := write_charge n
  exception _ := rfl
  takeException _ := rfl
  charge m b := by
    show (b.charge n).charge m = (b.charge m).charge n
    rw [charge_charge, charge_charge, Nat.add_comm]

end Bus

theorem Recorder.charge_charge {δ : Type} [Board δ] (m n : Nat) (r : Recorder (Bus δ)) :
    Master.charge n (Master.charge m r) = Master.charge (m + n) r :=
  congrArg (Recorder.mk · r.log) (Bus.charge_charge m n r.bus)

/-! ### The accesses of units -/

namespace Recorder

section

variable {β : Type} [Master β] {r r' : Recorder β} {w : Width} {a v : UInt32}

theorem read_log (h : Master.read w a r = .ok v r') :
    r'.log = r.log ++ [⟨false, w, a, v⟩] ∧ Master.read w a r.bus = .ok v r'.bus := by
  simp only [Master.read] at h
  cases hb : Master.read w a r.bus <;> rw [hb] at h <;> cases h
  exact ⟨rfl, rfl⟩

theorem write_log {u : Unit} (h : Master.write w a v r = .ok u r') :
    r'.log = r.log ++ [⟨true, w, a, v⟩] ∧ Master.write w a v r.bus = .ok u r'.bus := by
  simp only [Master.write] at h
  cases hb : Master.write w a v r.bus <;> rw [hb] at h <;> cases h
  exact ⟨rfl, rfl⟩

theorem read_recorded {b b' : β} (h : Master.read w a b = .ok v b') (l : List Touch) :
    Master.read w a (Recorder.mk b l) = .ok v ⟨b', l ++ [⟨false, w, a, v⟩]⟩ := by
  simp only [Master.read] at h ⊢
  rw [h]

theorem write_recorded {b b' : β} (h : Master.write w a v b = .ok () b') (l : List Touch) :
    Master.write w a v (Recorder.mk b l) = .ok () ⟨b', l ++ [⟨true, w, a, v⟩]⟩ := by
  simp only [Master.write] at h ⊢
  rw [h]

theorem writePort_log {port : DataPort} {u : Unit} (h : port.write v r = .ok u r') :
    r'.log = r.log ++ port.passes true v := by
  obtain ⟨w, a⟩ := port
  cases w with
  | word => exact (write_log h).1
  | half =>
      obtain ⟨_, s, h₀, h₁⟩ := Op.bind_eq_ok.1 h
      rw [(write_log h₁).1, (write_log h₀).1, List.append_assoc]
      rfl
  | byte =>
      obtain ⟨_, s₀, h₀, h⟩ := Op.bind_eq_ok.1 h
      obtain ⟨_, s₁, h₁, h⟩ := Op.bind_eq_ok.1 h
      obtain ⟨_, s₂, h₂, h₃⟩ := Op.bind_eq_ok.1 h
      rw [(write_log h₃).1, (write_log h₂).1, (write_log h₁).1, (write_log h₀).1]
      simp [DataPort.passes, DataPort.parts]

end

variable {δ : Type} [Board δ] {r r' : Recorder (Bus δ)} {port : DataPort} {d : Direction}
  {a v : UInt32}

theorem readPort_log (hp : port.OnBoard) (h : port.read r = .ok v r') :
    r'.log = r.log ++ port.passes false v := by
  have hm : ∀ {w : Width} {v : UInt32} {r r' : Recorder (Bus δ)},
      Master.read w port.address r = .ok v r' → v &&& w.mask = v := fun h =>
    Bus.read_masked hp (read_log h).2
  obtain ⟨w, a⟩ := port
  cases w with
  | word => exact (read_log h).1
  | half =>
      obtain ⟨low, s, h₀, h⟩ := Op.bind_eq_ok.1 h
      obtain ⟨high, t, h₁, h⟩ := Op.bind_eq_ok.1 h
      cases h
      rw [(read_log h₁).1, (read_log h₀).1, DataPort.passes, DataPort.parts_half (hm h₀) (hm h₁),
        List.append_assoc]
      rfl
  | byte =>
      obtain ⟨b₀, s₀, h₀, h⟩ := Op.bind_eq_ok.1 h
      obtain ⟨b₁, s₁, h₁, h⟩ := Op.bind_eq_ok.1 h
      obtain ⟨b₂, s₂, h₂, h⟩ := Op.bind_eq_ok.1 h
      obtain ⟨b₃, s₃, h₃, h⟩ := Op.bind_eq_ok.1 h
      cases h
      rw [(read_log h₃).1, (read_log h₂).1, (read_log h₁).1, (read_log h₀).1, DataPort.passes,
        DataPort.parts_byte (hm h₀) (hm h₁) (hm h₂) (hm h₃)]
      simp

theorem readPort_flag (hp : port.OnBoard) (h : port.read r = .ok v r') :
    r'.bus.exception = r.bus.exception :=
  ((Bus.readPort_boardOnly hp).of_ok
    ((transparent.readPort port).eq_ok.2 ⟨r', h, rfl⟩)).exception

theorem writePort_flag (hp : port.OnBoard) {u : Unit} (h : port.write v r = .ok u r') :
    r'.bus.exception = r.bus.exception :=
  ((Bus.writePort_boardOnly hp v).of_ok
    ((transparent.writePort port v).eq_ok.2 ⟨r', h, rfl⟩)).exception

/-- After a read the flag is down when it was down before and the address is mapped. -/
theorem read_down {w : Width} (h : Master.read w a r = .ok v r') :
    r'.bus.exception = false ↔ r.bus.exception = false ∧ regionOf a ≠ .unmapped := by
  have hf := Bus.exception_read w a r.bus
  have hw : w.aligned a = true := by
    by_contra hw
    simp only [Master.read, Bus.read_of_unaligned (by simpa using hw)] at h
    cases h
  have hb : Bus.read w a r.bus = .ok v r'.bus := (read_log h).2
  rw [hb] at hf
  rw [← Bool.not_eq_true, show r'.bus.exception = true ↔ _ from hf]
  simp [hw]

theorem write_down {w : Width} {u : Unit} (h : Master.write w a v r = .ok u r') :
    r'.bus.exception = false ↔ r.bus.exception = false ∧ regionOf a ≠ .unmapped := by
  rw [← Bool.not_eq_true, (write_ok h).2, not_or, Bool.not_eq_true]

/-- **A unit that is carried** leaves its accesses in the log, and the flag down when it was down
before and the address is mapped. -/
theorem carry_ok (hp : port.OnBoard) (h : port.carry d a r = .ok v r') :
    r'.log = r.log ++ port.touches d a v ∧
      (r'.bus.exception = false ↔ r.bus.exception = false ∧ regionOf a ≠ .unmapped) := by
  cases d with
  | fromRam =>
      obtain ⟨_, s, h₀, h⟩ := Op.bind_eq_ok.1 h
      obtain ⟨_, t, h₁, h⟩ := Op.bind_eq_ok.1 h
      cases h
      rw [writePort_log h₁, writePort_flag hp h₁, (read_log h₀).1, List.append_assoc]
      exact ⟨rfl, read_down h₀⟩
  | toRam =>
      obtain ⟨_, s, h₀, h⟩ := Op.bind_eq_ok.1 h
      obtain ⟨_, t, h₁, h⟩ := Op.bind_eq_ok.1 h
      cases h
      rw [(write_log h₁).1, readPort_log hp h₀, List.append_assoc, write_down h₁,
        readPort_flag hp h₀]
      exact ⟨rfl, Iff.rfl⟩

/-- **Units that are carried** leave their accesses in the log, and the flag down when it was down
before and all their addresses are mapped. -/
theorem carryAll_ok (hp : port.OnBoard) : ∀ {as vs : List UInt32} {r r' : Recorder (Bus δ)},
    port.carryAll d as r = .ok vs r' →
      r'.log = r.log ++ port.touchesAll d as vs ∧ vs.length = as.length ∧
        (r'.bus.exception = false ↔
          r.bus.exception = false ∧ ∀ a ∈ as, regionOf a ≠ .unmapped)
  | [], _, _, _, h => by
      cases h
      exact ⟨(List.append_nil _).symm, rfl, by simp⟩
  | a :: as, _, _, _, h => by
      obtain ⟨v, s, h₀, h⟩ := Op.bind_eq_ok.1 h
      obtain ⟨vs, t, h₁, h⟩ := Op.bind_eq_ok.1 h
      cases h
      obtain ⟨hl, hf⟩ := carry_ok hp h₀
      obtain ⟨kl, kv, kf⟩ := carryAll_ok hp h₁
      refine ⟨?_, congrArg (· + 1) kv, ?_⟩
      · rw [kl, hl, List.append_assoc]
        rfl
      · rw [kf, hf, List.forall_mem_cons, and_assoc]

end Recorder

/-! ### Units out of memory and into it -/

namespace Bus

variable {δ : Type}

/-- The bus with other contents of memory. -/
def withRam (m : Ram) (b : Bus δ) : Bus δ := { b with ram := m }

theorem onBoard_withRam {α : Type} (m : Ram) (op : Op δ α) :
    Op.Projects (withRam m) (onBoard op) (onBoard op) := by
  rintro ⟨ram, board, exception, lastFault, pendingCycles⟩
  simp only [onBoard, withRam]
  cases op board <;> rfl

variable [Board δ]

/-- The board does not see memory. -/
theorem read_withRam (m : Ram) {w : Width} {a : UInt32}
    (hr : regionOf a = .io ∨ regionOf a = .expansion) :
    Op.Projects (withRam m) (Bus.read (δ := δ) w a) (Bus.read w a) := by
  intro b
  simp only [Bus.read]
  split
  · rfl
  · obtain hr | hr := hr <;> simp only [hr, show (b.withRam m).board = b.board from rfl] <;>
      cases Board.slotAt b.board (physical a) with
      | none => rfl
      | some slot => exact onBoard_withRam m _ b

end Bus

namespace DataPort

variable {δ : Type} [Board δ] {port : DataPort}

/-- What goes through the port is between the port and the board. -/
theorem writeAll_boardOnly (hp : port.OnBoard) (vs : List UInt32) :
    Op.Relates Bus.BoardOnly (port.writeAll (β := Bus δ) vs) := by
  induction vs with
  | nil => exact Bus.boardOnly_chains.refl
  | cons v vs ih => exact .bind Bus.boardOnly_chains (Bus.writePort_boardOnly hp v) fun _ => ih

/-- **Units carried out of memory** are the words there, put into the port. -/
theorem carryAll_fromRam (hp : port.OnBoard) : ∀ {as vs : List UInt32} {b b' : Bus δ},
    (∀ a ∈ as, regionOf a = .ram ∧ Width.word.aligned a = true) →
      (port.carryAll .fromRam as b = .ok vs b' ↔
        vs = as.map b.ram.word ∧ port.writeAll vs b = .ok () b')
  | [], _, b, b', _ => by
      show EStateM.Result.ok [] b = _ ↔ _
      constructor
      · rintro ⟨⟩
        exact ⟨rfl, rfl⟩
      · rintro ⟨rfl, h⟩
        cases h
        rfl
  | a :: as, vs, b, b', ha => by
      obtain ⟨⟨hr, hw⟩, ha⟩ := List.forall_mem_cons.1 ha
      have hread : Master.read .word a b = .ok (b.ram.word a) b := Bus.read_ram hw hr b
      constructor
      · intro h
        obtain ⟨v, t, h₀, h⟩ := Op.bind_eq_ok.1 h
        obtain ⟨_, b₀, hv, h₀⟩ := Op.bind_eq_ok.1 h₀
        rw [hread] at hv
        cases hv
        obtain ⟨_, t, hp', h₀⟩ := Op.bind_eq_ok.1 h₀
        cases h₀
        obtain ⟨ws, u, h₁, h⟩ := Op.bind_eq_ok.1 h
        cases h
        obtain ⟨rfl, hs⟩ := (carryAll_fromRam hp ha).1 h₁
        rw [((Bus.writePort_boardOnly hp _).of_ok hp').ram] at hs ⊢
        exact ⟨rfl, Op.bind_eq_ok.2 ⟨(), t, hp', hs⟩⟩
      · rintro ⟨rfl, h⟩
        obtain ⟨_, t, hp', h⟩ := Op.bind_eq_ok.1 h
        refine Op.bind_eq_ok.2 ⟨b.ram.word a, t, Op.bind_eq_ok.2 ⟨_, b, hread,
          Op.bind_eq_ok.2 ⟨(), t, hp', rfl⟩⟩, ?_⟩
        refine Op.bind_eq_ok.2 ⟨as.map b.ram.word, b', (carryAll_fromRam hp ha).2 ⟨?_, h⟩, rfl⟩
        rw [((Bus.writePort_boardOnly hp _).of_ok hp').ram]

theorem readAll_boardOnly (hp : port.OnBoard) (n : Nat) :
    Op.Relates Bus.BoardOnly (port.readAll (β := Bus δ) n) := by
  have hc := Bus.boardOnly_chains (δ := δ)
  induction n with
  | zero => exact hc.refl
  | succ n ih =>
      exact .bind hc (Bus.readPort_boardOnly hp) fun _ => .bind hc ih fun _ => hc.refl

theorem readPort_withRam (hp : port.OnBoard) (m : Ram) :
    Op.Projects (Bus.withRam m) (port.read (β := Bus δ)) port.read :=
  read_projects (Bus.read_withRam m hp)

/-- The port gives a unit whatever is in memory and however many cycles are pending. -/
theorem readPort_anyhow (hp : port.OnBoard) (m : Ram) (n : Nat) {v : UInt32} {b b' : Bus δ}
    (h : port.read b = .ok v b') :
    port.read ((b.withRam m).charge n) = .ok v ((b'.withRam m).charge n) :=
  ((Bus.charge_transparent n).readPort port).eq_ok.2
    ⟨_, (readPort_withRam hp m).eq_ok.2 ⟨b', h, rfl⟩, rfl⟩

theorem readAll_withRam (hp : port.OnBoard) (m : Ram) (n : Nat) :
    Op.Projects (Bus.withRam m) (port.readAll (β := Bus δ) n) (port.readAll n) := by
  induction n with
  | zero => exact .pure _
  | succ n ih => exact .bind (readPort_withRam hp m) fun _ => .bind ih fun _ => .pure _

/-- **Units carried into memory** are those that come out of the port, stored one after the
other. -/
theorem carryAll_toRam (hp : port.OnBoard) : ∀ {as vs : List UInt32} {b b' : Bus δ},
    (∀ a ∈ as, regionOf a = .ram ∧ Width.word.aligned a = true) →
      port.readAll as.length b = .ok vs b' →
        port.carryAll .toRam as b = .ok vs (b'.withRam (Ram.storeAll (as.zip vs) b.ram))
  | [], _, b, _, _, h => by
      cases h
      rfl
  | a :: as, _, b, b', ha, h => by
      obtain ⟨⟨hr, hw⟩, ha⟩ := List.forall_mem_cons.1 ha
      obtain ⟨v, t, hv, h⟩ := Op.bind_eq_ok.1 h
      obtain ⟨vs, _, hvs, h⟩ := Op.bind_eq_ok.1 h
      cases h
      have ht : t.ram = b.ram := ((Bus.readPort_boardOnly hp).of_ok hv).ram
      have hwrite : Master.write .word a v t =
          .ok () (t.withRam (b.ram.write .word (physical a) v)) := by
        rw [← ht]
        exact Bus.write_ram hw hr v t
      -- The port gives the other units all the same after the first one was stored.
      have hvs' := (readAll_withRam hp (b.ram.write .word (physical a) v) as.length).eq_ok.2
        ⟨b', hvs, rfl⟩
      exact Op.bind_eq_ok.2 ⟨v, _, Op.bind_eq_ok.2 ⟨v, t, hv, Op.bind_eq_ok.2 ⟨(), _, hwrite, rfl⟩⟩,
        Op.bind_eq_ok.2 ⟨vs, _, carryAll_toRam hp ha hvs', rfl⟩⟩

/-- The port of the graphics channel. -/
def graphics : DataPort := ⟨.word, 0x1F801810⟩

theorem onBoard_graphics : graphics.OnBoard := .inl (by decide)

/-- A bare board takes every unit that is put into the graphics port, and nothing comes of it. -/
theorem writeAll_bare : ∀ (vs : List UInt32) (b : Bus BareBoard), graphics.writeAll vs b = .ok () b
  | [], _ => rfl
  | _ :: vs, b => Op.bind_eq_ok.2 ⟨(), b, rfl, writeAll_bare vs b⟩

end DataPort

/-- Empty memory, and no devices. -/
def bareBus : Bus BareBoard := { board := ⟨⟩ }

end DmaMachine
