import DmaMachine.Proofs.Channel.Attribution
import DmaMachine.Proofs.Channel.Programming

/-!
# Units on their way to memory

A unit that goes to memory is taken out of the port, part by part, and then written.  If the write
went through the unit is *retired*; if not, the channel holds the unit, and the next attempt begins
with the write.  So the units taken out of the port are those retired and one that may be held.

There is one way to lose a unit.  An attempt with nothing held takes a unit out of the port, and
only then looks at the exception flag.  If somebody else raised the flag before the attempt, the
unit is neither written nor held.

* `Carried`: what attempts at units going to memory come to, one constructor for each end.
* `moveUnits_carried`, `step_carried`, `Carries.carried`: **units, steps and deeds come to that.**
* `Carried.conserved`, `Carried.dropped`: no unit is lost, unless the flag was up at the beginning
  and nothing was held.
* `conserved_iff`: the runs of a transfer in which the units taken are those retired and the one
  held: those where no step with nothing held takes a unit while the flag is up.  In every run the
  units retired stand at consecutive addresses in memory, and a held unit is written before
  anything else is accessed.
-/

namespace DmaMachine

/-! ### Units out of a port -/

namespace DataPort

/-- The units that parts make up, lowest part first.  Parts over are left out. -/
def gather : Width → List UInt32 → List UInt32
  | .word, vs => vs
  | .half, low :: high :: vs => (low ||| high <<< 16) :: gather .half vs
  | .byte, b₀ :: b₁ :: b₂ :: b₃ :: vs =>
      (b₀ ||| b₁ <<< 8 ||| b₂ <<< 16 ||| b₃ <<< 24) :: gather .byte vs
  | _, _ => []

/-- The parts that accesses read at the port. -/
def partsRead (port : DataPort) (log : List Touch) : List UInt32 :=
  (log.filter fun x => !x.isWrite && x.address == port.address).map (·.value)

/-- The units that accesses take out of the port, in order. -/
def taken (port : DataPort) (log : List Touch) : List UInt32 :=
  gather port.width (port.partsRead log)

/-- The accesses take one unit out of the port. -/
structure Fetches (port : DataPort) (k : List Touch) (v : UInt32) : Prop where
  reads : ∀ x ∈ k, x.isWrite = false
  taken_append : ∀ l, port.taken (k ++ l) = v :: port.taken l

@[simp] theorem taken_nil (port : DataPort) : port.taken [] = [] := by
  obtain ⟨w, a⟩ := port
  cases w <;> rfl

/-- A write takes nothing. -/
@[simp] theorem taken_write (port : DataPort) (w : Width) (a v : UInt32) (l : List Touch) :
    port.taken (⟨true, w, a, v⟩ :: l) = port.taken l := rfl

/-- No port is unmapped. -/
theorem regionOf_port {p : Peer} {port : DataPort} (hp : p.port? = some port) :
    regionOf port.address ≠ .unmapped := by
  cases p <;> cases hp <;> decide

end DataPort

namespace Recorder

variable {δ : Type} [Board δ] {r r' : Recorder (Bus δ)}

/-- A read at a mapped address leaves the flag. -/
theorem read_ok {w : Width} {a v : UInt32} (h : Master.read w a r = .ok v r')
    (ha : regionOf a ≠ .unmapped) :
    r'.log = r.log ++ [⟨false, w, a, v⟩] ∧ r'.bus.exception = r.bus.exception := by
  have hf := Bus.exception_read w a r.bus
  simp only [Master.read] at h
  cases hb : Bus.read w a r.bus with
  | error e b => rw [hb] at h; cases h
  | ok u b =>
      rw [hb] at h hf
      cases h
      exact ⟨rfl, Bool.eq_iff_iff.2 (by simpa [ha] using hf)⟩

/-- A write raises the flag when its address is unmapped. -/
theorem write_ok {w : Width} {a v : UInt32} {u : Unit} (h : Master.write w a v r = .ok u r') :
    r'.log = r.log ++ [⟨true, w, a, v⟩] ∧
      (r'.bus.exception = true ↔ r.bus.exception = true ∨ regionOf a = .unmapped) := by
  have hf := Bus.exception_write w a v r.bus
  have hw : w.aligned a = true := by
    by_contra hw
    simp only [Master.write, Bus.write_of_unaligned (by simpa using hw)] at h
    cases h
  simp only [Master.write] at h
  cases hb : Bus.write w a v r.bus with
  | error e b => rw [hb] at h; cases h
  | ok u b =>
      rw [hb] at h hf
      cases h
      exact ⟨rfl, by simpa [hw] using hf⟩

/-- **A read of a port takes one unit**, and leaves the flag. -/
theorem readPort_ok {port : DataPort} (hp : regionOf port.address ≠ .unmapped) {v : UInt32}
    (h : port.read r = .ok v r') :
    ∃ k, r'.log = r.log ++ k ∧ port.Fetches k v ∧ r'.bus.exception = r.bus.exception := by
  obtain ⟨w, a⟩ := port
  cases w with
  | word =>
      obtain ⟨hl, hf⟩ := read_ok h hp
      exact ⟨_, hl, ⟨by simp, fun l => by simp [DataPort.taken, DataPort.partsRead,
        DataPort.gather]⟩, hf⟩
  | half =>
      obtain ⟨low, s, h₀, h⟩ := Op.bind_eq_ok.1 h
      obtain ⟨high, t, h₁, h⟩ := Op.bind_eq_ok.1 h
      cases h
      obtain ⟨hl₀, hf₀⟩ := read_ok h₀ hp
      obtain ⟨hl₁, hf₁⟩ := read_ok h₁ hp
      refine ⟨[⟨false, .half, a, low⟩, ⟨false, .half, a, high⟩], by simp [hl₁, hl₀],
        ⟨by simp, fun l => ?_⟩, hf₁.trans hf₀⟩
      simp [DataPort.taken, DataPort.partsRead, DataPort.gather]
  | byte =>
      obtain ⟨b₀, s₀, h₀, h⟩ := Op.bind_eq_ok.1 h
      obtain ⟨b₁, s₁, h₁, h⟩ := Op.bind_eq_ok.1 h
      obtain ⟨b₂, s₂, h₂, h⟩ := Op.bind_eq_ok.1 h
      obtain ⟨b₃, s₃, h₃, h⟩ := Op.bind_eq_ok.1 h
      cases h
      obtain ⟨hl₀, hf₀⟩ := read_ok h₀ hp
      obtain ⟨hl₁, hf₁⟩ := read_ok h₁ hp
      obtain ⟨hl₂, hf₂⟩ := read_ok h₂ hp
      obtain ⟨hl₃, hf₃⟩ := read_ok h₃ hp
      refine ⟨[⟨false, .byte, a, b₀⟩, ⟨false, .byte, a, b₁⟩, ⟨false, .byte, a, b₂⟩,
        ⟨false, .byte, a, b₃⟩], by simp [hl₃, hl₂, hl₁, hl₀], ⟨by simp, fun l => ?_⟩,
        hf₃.trans (hf₂.trans (hf₁.trans hf₀))⟩
      simp [DataPort.taken, DataPort.partsRead, DataPort.gather]

end Recorder

namespace Channel

variable {δ : Type} {p : Peer} {port : DataPort}

/-! ### What attempts come to -/

/-- The unit to store is the held one, or the accesses take it out of the port. -/
def Supplies (port : DataPort) (c : Channel) (k : List Touch) (v : UInt32) : Prop :=
  (c.held = some v ∧ k = []) ∨ (c.held = none ∧ port.Fetches k v)

/-- What attempts at units going to memory come to: whether the flag was up before them, the channel
before them, their accesses, the writes of the units they retire, and the channel after them. -/
inductive Carried (p : Peer) (port : DataPort) :
    Bool → Channel → List Touch → List Touch → Channel → Prop where
  | idle (up : Bool) (c : Channel) : Carried p port up c [] [] c
  | retired {c d : Channel} {k l rs : List Touch} {v : UInt32} (hk : Supplies port c k v)
      (hn : 0 < c.wordsLeft) (hr : regionOf c.address ≠ .unmapped)
      (h : Carried p port false (retire p { c with held := none }) l rs d) :
      Carried p port false c (k ++ ⟨true, .word, c.address, v⟩ :: l)
        (⟨true, .word, c.address, v⟩ :: rs) d
  /-- Memory did not accept the unit.  Under a raised flag no unit gets that far but a held one. -/
  | held {up : Bool} {c : Channel} {k : List Touch} {v : UInt32} (hk : Supplies port c k v)
      (hup : up = true → c.held ≠ none) :
      Carried p port up c (k ++ [⟨true, .word, c.address, v⟩]) [] (halted { c with held := some v })
  /-- The unit was taken, and the flag was up. -/
  | lost {c : Channel} {k : List Touch} {v : UInt32} (hc : c.held = none) (hk : port.Fetches k v) :
      Carried p port true c k [] (halted c)

section Attempts

variable [Board δ] {s t : Stage (Recorder (Bus δ))}

omit [Board δ] in
theorem onBus_ok {α β : Type} {op : Op β α} {s t : Stage β} {a : α}
    (h : Stage.onBus op s = .ok a t) : t.channel = s.channel ∧ op s.bus = .ok a t.bus := by
  have ho := Stage.outcome_onBus op s
  rw [h] at ho
  cases hb : op s.bus <;> rw [hb] at ho <;> cases ho
  exact ⟨rfl, rfl⟩

theorem takeUnit_ok (hp : regionOf port.address ≠ .unmapped) {taken : Option UInt32}
    (h : takeUnit port s = .ok taken t) :
    ∃ k, t.bus.log = s.bus.log ++ k ∧ t.bus.bus.exception = s.bus.bus.exception ∧
      ((∃ v, taken = some v ∧ Supplies port s.channel k v ∧
          t.channel = { s.channel with held := none } ∧
            (s.bus.bus.exception = true → s.channel.held ≠ none)) ∨
        (taken = none ∧ s.channel.held = none ∧ s.bus.bus.exception = true ∧
          (∃ v, port.Fetches k v) ∧ t.channel = s.channel)) := by
  cases hc : s.channel.held with
  | some v =>
      rw [takeUnit_of_held hc] at h
      cases h
      exact ⟨[], by simp, rfl, .inl ⟨v, rfl, .inl ⟨hc, rfl⟩, rfl, by simp⟩⟩
  | none =>
      rw [takeUnit_of_empty hc] at h
      obtain ⟨v, u, hv, h⟩ := Op.bind_eq_ok.1 h
      obtain ⟨hc', hb⟩ := onBus_ok hv
      obtain ⟨k, hl, hk, hf⟩ := Recorder.readPort_ok hp hb
      rw [exception_bind] at h
      cases he : Master.exception u.bus with
      | true =>
          rw [he] at h
          cases h
          exact ⟨k, hl, hf, .inr ⟨rfl, rfl, hf.symm.trans he, ⟨v, hk⟩, hc'⟩⟩
      | false =>
          rw [he] at h
          cases h
          refine ⟨k, hl, hf, .inl ⟨v, rfl, .inr ⟨hc, hk⟩, by rw [hc', ← hc], fun hup => ?_⟩⟩
          exact absurd (he.symm.trans (hf.trans hup)) Bool.false_ne_true

theorem storeUnit_ok {a v : UInt32} {through : Bool} (h : storeUnit a v s = .ok through t) :
    t.bus.log = s.bus.log ++ [⟨true, .word, a, v⟩] ∧
      ((through = true ∧ t.channel = s.channel ∧ s.bus.bus.exception = false ∧
          regionOf a ≠ .unmapped) ∨
        (through = false ∧ t.channel = { s.channel with held := some v })) := by
  obtain ⟨_, u, hu, h⟩ := Op.bind_eq_ok.1 h
  obtain ⟨hc, hb⟩ := onBus_ok hu
  obtain ⟨hl, hf⟩ := Recorder.write_ok hb
  rw [exception_bind] at h
  cases he : Master.exception u.bus with
  | true =>
      rw [he] at h
      cases h
      exact ⟨hl, .inr ⟨rfl, by simp [hc]⟩⟩
  | false =>
      rw [he] at h
      cases h
      have hd : ¬ (s.bus.bus.exception = true ∨ regionOf a = .unmapped) := fun hup =>
        absurd (he.symm.trans (hf.2 hup)) Bool.false_ne_true
      exact ⟨hl, .inl ⟨rfl, hc, by simpa using fun hs => hd (.inl hs), fun hr => hd (.inr hr)⟩⟩

/-- What one unit comes to. -/
theorem unitToRam_ok (hp : regionOf port.address ≠ .unmapped) {through : Bool}
    (h : unitToRam port s.channel.address s = .ok through t) :
    ∃ k, t.bus.log = s.bus.log ++ k ∧
      ((through = true ∧ s.bus.bus.exception = false ∧ regionOf s.channel.address ≠ .unmapped ∧
          t.channel = { s.channel with held := none } ∧
            ∃ l v, Supplies port s.channel l v ∧
              k = l ++ [⟨true, .word, s.channel.address, v⟩]) ∨
        (through = false ∧
          Carried p port s.bus.bus.exception s.channel k [] t.channel.halted)) := by
  obtain ⟨taken, u, hu, h⟩ := Op.bind_eq_ok.1 h
  obtain ⟨l, hl, hf, ⟨v, rfl, hv, hc, hup⟩ | ⟨rfl, hn, hup, ⟨v, hv⟩, hc⟩⟩ := takeUnit_ok hp hu
  · obtain ⟨hk, ⟨rfl, hd, hs, hr⟩ | ⟨rfl, hd⟩⟩ := storeUnit_ok h
    · exact ⟨_, by rw [hk, hl, List.append_assoc],
        .inl ⟨rfl, hf.symm.trans hs, hr, hd.trans hc, l, v, hv, rfl⟩⟩
    · refine ⟨_, by rw [hk, hl, List.append_assoc], .inr ⟨rfl, ?_⟩⟩
      rw [hd, hc]
      exact .held hv hup
  · cases h
    refine ⟨l, hl, .inr ⟨rfl, ?_⟩⟩
    rw [hc, hup]
    exact .lost hn hv

variable (hp : p.port? = some port)
include hp

/-- **A unit going to memory** is retired under a lowered flag, or it is held or lost. -/
theorem moveUnit_carried (hd : s.channel.control.direction = .toRam)
    {through : Bool} (h : moveUnit p s = .ok through t) :
    ∃ k, t.bus.log = s.bus.log ++ k ∧
      ((through = true ∧ s.bus.bus.exception = false ∧ t.bus.bus.exception = false ∧
          regionOf s.channel.address ≠ .unmapped ∧
          t.channel = retire p { s.channel with held := none } ∧
            ∃ l v, Supplies port s.channel l v ∧
              k = l ++ [⟨true, .word, s.channel.address, v⟩]) ∨
        (through = false ∧ Carried p port s.bus.bus.exception s.channel k [] t.channel)) := by
  have hm := DataPort.regionOf_port hp
  have hu : ∀ {f : Option (Channel → Channel)} {u}, Attempt.unit.access p s = .ok f u →
      ∃ b, unitToRam port s.channel.address s = .ok b u ∧
        f = if b then some (retire p) else none := by
    intro f u ha
    obtain ⟨b, v, hb, ha⟩ := Op.bind_eq_ok.1 ha
    rw [transferUnit_of_toRam hp hd] at hb
    cases ha
    exact ⟨b, hb, rfl⟩
  obtain ⟨f, u, ha, hr, he⟩ | ⟨f, u, ha, hr, he⟩ | ⟨_, _, -, he⟩ :=
    Attempt.perform_cases (a := .unit) h
  · cases he
    obtain ⟨b, hb, hf⟩ := hu ha
    cases b <;> cases hf
    obtain ⟨k, hk, ⟨-, hs, hg, hc, hl⟩ | ⟨hf, -⟩⟩ := unitToRam_ok (p := p) hm hb
    · exact ⟨k, hk, .inl ⟨rfl, hs, rfl, hg, congrArg (retire p) hc, hl⟩⟩
    · cases hf
  · cases he
    obtain ⟨b, hb, hf⟩ := hu ha
    obtain ⟨k, hk, ⟨rfl, -⟩ | ⟨rfl, hc⟩⟩ := unitToRam_ok (p := p) hm hb
    · -- A unit that got through found the flag down, and so did the cycle after it.
      have ht : true = !u.bus.bus.exception := by
        rw [← transferUnit_of_toRam hp hd] at hb
        exact transferUnit_flag hb
      cases hf
      obtain hr | hr := hr
      · cases hr
      · rw [show u.bus.bus.exception = true from hr] at ht
        cases ht
    · exact ⟨k, hk, .inr ⟨rfl, hc⟩⟩
  · cases he

theorem moveUnits_carried : ∀ {n : Nat} {s : Stage (Recorder (Bus δ))} {through : Bool},
    s.channel.control.direction = .toRam → n ≤ s.channel.wordsLeft →
      moveUnits p n s = .ok through t → ∃ k rs, t.bus.log = s.bus.log ++ k ∧
        Carried p port s.bus.bus.exception s.channel k rs t.channel
  | 0, s, _, _, _, h => by
      cases h
      exact ⟨[], [], by simp, .idle _ _⟩
  | n + 1, s, _, hd, hn, h => by
      obtain ⟨b, u, hu, h⟩ := Op.bind_eq_ok.1 h
      obtain ⟨k, hk, ⟨rfl, hs, hf, hr, hc, l, v, hv, rfl⟩ | ⟨rfl, hc⟩⟩ :=
        moveUnit_carried hp hd hu
      · have hw : u.channel.wordsLeft = s.channel.wordsLeft - 1 := by rw [hc]; rfl
        have hdu : u.channel.control.direction = .toRam := by rw [hc]; exact hd
        obtain ⟨k', rs, hk', hcs⟩ := moveUnits_carried hdu (by omega) h
        rw [hf, hc] at hcs
        rw [hs]
        exact ⟨_, _, by rw [hk', hk]; simp, .retired hv (by omega) hr hcs⟩
      · cases h
        exact ⟨k, [], hk, hc⟩

/-! ### Steps -/

/-- What a transfer has on its way: the held unit, the address to go on at, the words left. -/
def cargo (c : Channel) : Option UInt32 × UInt32 × Nat := (c.held, c.address, c.wordsLeft)

/-- Units, and then an end of the step that makes no access and leaves the cargo alone. -/
theorem carried_of_moveUnits {n : Nat} {y : Op (Stage (Recorder (Bus δ))) Status}
    {status : Status} (hd : s.channel.control.direction = .toRam) (hn : n ≤ s.channel.wordsLeft)
    (hy : ∀ {u status t}, y u = .ok status t → t.bus = u.bus ∧ t.channel.cargo = u.channel.cargo)
    (h : (moveUnits p n >>= fun b => if b then y else pure .faulted) s = .ok status t) :
    ∃ k rs e, t.bus.log = s.bus.log ++ k ∧
      Carried p port s.bus.bus.exception s.channel k rs e ∧ t.channel.cargo = e.cargo := by
  obtain ⟨b, u, hu, h⟩ := Op.bind_eq_ok.1 h
  obtain ⟨k, rs, hk, hc⟩ := moveUnits_carried hp hd hn hu
  cases b with
  | true =>
      obtain ⟨hb, ht⟩ := hy h
      exact ⟨k, rs, _, by rw [hb, hk], hc, ht⟩
  | false =>
      cases h
      exact ⟨k, rs, _, hk, hc, rfl⟩

theorem stepBurst_carried (hd : s.channel.control.direction = .toRam) {status : Status}
    (h : stepBurst p s = .ok status t) :
    ∃ k rs e, t.bus.log = s.bus.log ++ k ∧
      Carried p port s.bus.bus.exception s.channel k rs e ∧ t.channel.cargo = e.cargo := by
  have hn : (if s.channel.control.has .chopping
      then min s.channel.control.busWindow s.channel.wordsLeft
      else s.channel.wordsLeft) ≤ s.channel.wordsLeft := by
    split
    · exact Nat.min_le_right _ _
    · exact Nat.le_refl _
  rw [stepBurst, Op.bind_apply] at h
  refine carried_of_moveUnits hp hd hn (fun {u status t} hy => ?_) h
  by_cases hw : (if s.channel.control.has .chopping
      then min s.channel.control.busWindow s.channel.wordsLeft
      else s.channel.wordsLeft) = s.channel.wordsLeft
  · rw [if_pos hw] at hy
    cases hy
    exact ⟨rfl, rfl⟩
  · rw [if_neg hw] at hy
    cases hy
    exact ⟨rfl, rfl⟩

theorem stepSlice_carried (hd : s.channel.control.direction = .toRam) {status : Status}
    (h : stepSlice p s = .ok status t) :
    ∃ k rs e, t.bus.log = s.bus.log ++ k ∧
      Carried p port s.bus.bus.exception s.channel k rs e ∧ t.channel.cargo = e.cargo := by
  rw [stepSlice, Op.bind_apply] at h
  refine carried_of_moveUnits hp hd (Nat.sub_le _ _) (fun {u status t} hy => ?_) h
  change (if u.channel.countBlock.blocksLeft = 0 then _ else _ : Op (Stage _) Status)
    ⟨u.channel.countBlock, u.controller, u.bus⟩ = _ at hy
  by_cases hb : u.channel.countBlock.blocksLeft = 0
  · rw [if_pos hb] at hy
    cases hy
    exact ⟨rfl, rfl⟩
  · rw [if_neg hb] at hy
    cases hy
    exact ⟨rfl, rfl⟩

/-- An active channel moves units to memory in bursts or slices. -/
def Delivers (c : Channel) : Prop :=
  c.active = true → c.control.direction = .toRam ∧
    (c.control.syncMode = .burst ∨ c.control.syncMode = .slice)

instance (c : Channel) : Decidable c.Delivers :=
  inferInstanceAs (Decidable (c.active = true → c.control.direction = .toRam ∧
    (c.control.syncMode = .burst ∨ c.control.syncMode = .slice)))

/-- **A step of a channel that delivers** comes to attempts at units going to memory. -/
theorem step_carried (hs : s.channel.Delivers) {status : Status} (h : step p s = .ok status t) :
    ∃ k rs e, t.bus.log = s.bus.log ++ k ∧
      Carried p port s.bus.bus.exception s.channel k rs e ∧ t.channel.cargo = e.cargo := by
  have hne : p ≠ .orderingTable := fun hq => by
    rw [Peer.port?_eq_none_iff.2 hq] at hp
    cases hp
  change (if !s.channel.active then _ else _ : Op (Stage (Recorder (Bus δ))) Status) s = _ at h
  cases ha : s.channel.active with
  | false =>
      rw [ha] at h
      cases h
      exact ⟨[], [], _, by simp, .idle _ _, rfl⟩
  | true =>
      obtain ⟨hd, hm⟩ := hs ha
      rw [ha, if_neg (by simp), if_neg hne, Op.bind_apply] at h
      obtain hm | hm := hm <;> simp only [Stage.channelOf, hm] at h
      · exact stepBurst_carried hp hd h
      · exact stepSlice_carried hp hd h

end Attempts

/-! ### What attempts retire, and what they drop -/

section Units

variable {c d : Channel} {up : Bool} {k rs : List Touch}

/-- The addresses of the next `n` units. -/
def unitAddresses (p : Peer) : Channel → Nat → List UInt32
  | _, 0 => []
  | c, n + 1 => c.address :: unitAddresses p (c.retire p) n

theorem unitAddresses_congr (hk : d.control = c.control) (ha : d.address = c.address) (n : Nat) :
    unitAddresses p d n = unitAddresses p c n := by
  induction n generalizing c d with
  | zero => rfl
  | succ n ih =>
      have hn : d.nextAddress p = c.nextAddress p := by
        rw [nextAddress, nextAddress, mode_congr hk, hk, ha]
      rw [unitAddresses, unitAddresses, ha, ih (c := c.retire p) (d := d.retire p) hk hn]

/-- The units retired are the first that were written, and each is counted down. -/
theorem Carried.counted (h : Carried p port up c k rs d) :
    rs.length + d.wordsLeft = c.wordsLeft ∧
      (k.filter (·.isWrite)).take (c.wordsLeft - d.wordsLeft) = rs := by
  induction h with
  | idle => simp
  | held | lost => simp [halted]
  | @retired c d k l rs v hk hn _ _ ih =>
      obtain ⟨hl, ht⟩ := ih
      change rs.length + d.wordsLeft = c.wordsLeft - 1 at hl
      change (l.filter (·.isWrite)).take (c.wordsLeft - 1 - d.wordsLeft) = rs at ht
      have hr : k.filter (·.isWrite) = [] := by
        obtain ⟨-, rfl⟩ | ⟨-, hf⟩ := hk
        · rfl
        · simpa using hf.reads
      have hs : c.wordsLeft - d.wordsLeft = (c.wordsLeft - 1 - d.wordsLeft) + 1 := by omega
      refine ⟨by simp only [List.length_cons]; omega, ?_⟩
      rw [List.filter_append, hr, hs]
      simp [ht]

/-- **The units retired stand one after the other**, and the next one follows them. -/
theorem Carried.consecutive (h : Carried p port up c k rs d) :
    rs.map (·.address) ++ [d.address] = unitAddresses p c (rs.length + 1) := by
  induction h with
  | idle | held | lost => rfl
  | @retired c d k l rs v _ _ _ _ ih =>
      have hc : unitAddresses p (retire p { c with held := none }) (rs.length + 1) =
          unitAddresses p (c.retire p) (rs.length + 1) := by
        refine unitAddresses_congr ?_ ?_ _ <;> rfl
      rw [List.map_cons, List.cons_append, ih, hc]
      rfl

/-- What a channel can address is memory, or nothing is there. -/
theorem regionOf_of_le {a : UInt32} (ha : a ≤ addressMask) (hr : regionOf a ≠ .unmapped) :
    regionOf a = .ram := by
  have hp : physical a ≤ addressMask := Nat.le_trans UInt32.and_le_left ha
  have he : ¬ 0x1F000000 ≤ physical a := fun h => absurd (Nat.le_trans h hp) (by decide)
  have hi : ¬ 0x1F801000 ≤ physical a := fun h => absurd (Nat.le_trans h hp) (by decide)
  simp only [regionOf, he, hi, false_and, if_false] at hr ⊢
  split at hr
  · rename_i h
    rw [if_pos h]
  · exact absurd rfl hr

/-- **The units retired are in memory.** -/
theorem Carried.stored (h : Carried p port up c k rs d) (ha : c.address ≤ addressMask) :
    (∀ x ∈ rs, x.width = .word ∧ regionOf x.address = .ram) ∧ d.address ≤ addressMask := by
  induction h with
  | idle | held | lost => exact ⟨by simp, ha⟩
  | retired _ _ hr _ ih =>
      obtain ⟨hs, hd⟩ := ih UInt32.and_le_right
      exact ⟨by simpa using ⟨regionOf_of_le ha hr, hs⟩, hd⟩

/-- **A held unit is written before anything else is accessed.** -/
theorem Carried.first (h : Carried p port up c k rs d) {v : UInt32} (hv : c.held = some v)
    (hk : k ≠ []) : k.head? = some ⟨true, .word, c.address, v⟩ := by
  have hs : ∀ {k w}, Supplies port c k w → k = [] ∧ w = v := by
    rintro k w (⟨hw, rfl⟩ | ⟨hn, -⟩)
    · exact ⟨rfl, Option.some.inj (hw.symm.trans hv)⟩
    · exact absurd (hn.symm.trans hv) (by simp)
  cases h with
  | idle => exact absurd rfl hk
  | retired ht | held ht =>
      obtain ⟨rfl, rfl⟩ := hs ht
      rfl
  | lost hc => exact absurd (hc.symm.trans hv) (by simp)

/-- The unit that an attempt stores is the held one, or it was taken. -/
theorem Supplies.taken {v : UInt32} (h : Supplies port c k v) (l : List Touch) :
    c.held.toList ++ port.taken (k ++ l) = v :: port.taken l := by
  obtain ⟨hv, rfl⟩ | ⟨hv, hk⟩ := h
  · simp [hv]
  · simp [hv, hk.taken_append]

theorem taken_ne_nil {v : UInt32} (h : port.Fetches k v) : port.taken k ≠ [] := by
  have hk := h.taken_append []
  rw [List.append_nil] at hk
  simp [hk]

/-- **No unit is lost or duplicated**, unless attempts with nothing held begin under a raised
flag. -/
theorem Carried.conserved (h : Carried p port up c k rs d)
    (hup : up = true → c.held = none → k = []) :
    c.held.toList ++ port.taken k = rs.map (·.value) ++ d.held.toList := by
  induction h with
  | idle => simp
  | retired ht _ _ _ ih =>
      rw [ht.taken, DataPort.taken_write]
      exact congrArg _ (ih (by simp))
  | held ht => rw [ht.taken]; simp [halted]
  | lost hc hf =>
      have hk := hup rfl hc
      exact absurd (by rw [hk]; simp) (taken_ne_nil hf)

/-- **Under a raised flag a unit is taken, and neither retired nor held.** -/
theorem Carried.dropped (h : Carried p port true c k rs d) (hc : c.held = none) (hk : k ≠ []) :
    port.taken k ≠ [] ∧ rs = [] ∧ d.held = none := by
  cases h with
  | idle => exact absurd rfl hk
  | held _ hup => exact absurd hc (hup rfl)
  | lost _ hf => exact ⟨taken_ne_nil hf, rfl, hc⟩

end Units

/-! ### Deeds -/

section Deeds

variable [Board δ] {c : Channel} {d : Deed (Bus δ)}

/-- The deed is a step that begins with the flag up. -/
def Deed.raised : Deed (Bus δ) → Bool
  | .step _ bus => bus.exception
  | _ => false

/-- The deed goes on with a transfer to memory: it does not start another one nor give this one up,
and if it is a step, the channel delivers, and no device fails. -/
def Carries (p : Peer) (c : Channel) : Deed (Bus δ) → Prop
  | .step controller bus => c.Delivers ∧ (Deed.step controller bus).answer p c = .ok ()
  | .write r v mask => ((.write r v mask : Deed (Bus δ)).after p c).running = c.running
  | .request => ((.request : Deed (Bus δ)).after p c).running = c.running
  | .arm resume => resume = true ∨ c.refusal? p ≠ none
  | .finish .. => True
  | .reset | .load .. => False

instance (p : Peer) (c : Channel) : ∀ d : Deed (Bus δ), Decidable (Carries p c d)
  | .step controller bus => inferInstanceAs (Decidable (c.Delivers ∧
      (Deed.step controller bus).answer p c = .ok ()))
  | .write r v mask => inferInstanceAs (Decidable
      (((.write r v mask : Deed (Bus δ)).after p c).running = c.running))
  | .request => inferInstanceAs (Decidable
      (((.request : Deed (Bus δ)).after p c).running = c.running))
  | .arm resume => inferInstanceAs (Decidable (resume = true ∨ c.refusal? p ≠ none))
  | .finish .. => .isTrue trivial
  | .reset | .load .. => .isFalse id

/-- The accesses of the deed that wrote the units it retired. -/
def retired (p : Peer) (c : Channel) (d : Deed (Bus δ)) : List Touch :=
  ((d.touches p c).filter (·.isWrite)).take (c.wordsLeft - (d.after p c).wordsLeft)

/-- A transfer that goes on keeps its cargo. -/
theorem cargo_arm (h : (Deed.onChannel (arm p c.running) c).2.running = c.running) :
    (Deed.onChannel (arm p c.running) c).2.cargo = c.cargo := by
  obtain ⟨-, ha⟩ | ⟨hr, -, ha⟩ | ⟨_, -, -, ha⟩ := arm_cases p c.running c
  · rw [ha]
    rfl
  · rw [ha, hr] at h
    cases h
  · rw [ha]

theorem Carries.cargo_write {r : Register} {v mask : UInt32}
    (h : Carries p c (.write r v mask : Deed (Bus δ))) :
    ((.write r v mask : Deed (Bus δ)).after p c).cargo = c.cargo := by
  cases r with
  | base | blocks => rfl
  | control =>
      rw [Carries, Deed.after_writeControl] at h
      rw [Deed.after_writeControl]
      obtain ⟨hr, -, ha⟩ | ⟨-, ⟨-, -, ha⟩ | ⟨-, ha⟩⟩ :=
        writeControl_cases p (merge c.control.bits v mask) c <;> rw [ha] at h ⊢
      · rw [hr] at h
        cases h
      · exact cargo_arm (c := { c with control := storedControl p (merge c.control.bits v mask) }) h
      · rfl

theorem Carries.cargo_request (h : Carries p c (.request : Deed (Bus δ))) :
    ((.request : Deed (Bus δ)).after p c).cargo = c.cargo := by
  rw [Carries, Deed.after_request] at h
  rw [Deed.after_request]
  obtain ⟨-, -, ha⟩ | ⟨-, ha⟩ := request_cases p c
  · rw [ha] at h ⊢
    exact cargo_arm h
  · rw [ha]

/-- **A deed that goes on with a transfer** comes to attempts at units, and leaves the cargo alone
but for them. -/
theorem Carries.carried (hp : p.port? = some port) (h : Carries p c d) :
    ∃ e, Carried p port d.raised c (d.touches p c) (retired p c d) e ∧
      (d.after p c).cargo = e.cargo := by
  have hk : ∃ rs e, Carried p port d.raised c (d.touches p c) rs e ∧
      (d.after p c).cargo = e.cargo := by
    cases d with
    | step controller bus =>
        obtain ⟨hs, ha⟩ := h
        obtain ⟨status, t, ht⟩ :
            ∃ status t, Channel.step p ⟨c, controller, bus⟩ = .ok status t := by
          cases ht : Channel.step p ⟨c, controller, bus⟩ with
          | ok status t => exact ⟨status, t, rfl⟩
          | error e t =>
              change (Deed.onStage (Channel.step p) controller bus c).1 = _ at ha
              rw [Deed.onStage, ht] at ha
              cases ha
        obtain ⟨u, hu, rfl⟩ := step_eq_ok.1 ht
        obtain ⟨k, rs, e, hk, hc, he⟩ := step_carried hp hs hu
        have hl : (Deed.step controller bus).touches p c = k := by
          rw [Deed.touches, accesses, hu]
          exact hk
        rw [Deed.after_step, ht, hl]
        exact ⟨rs, e, hc, he⟩
    | write r v mask => exact ⟨[], c, .idle _ _, h.cargo_write⟩
    | request => exact ⟨[], c, .idle _ _, h.cargo_request⟩
    | arm resume =>
        refine ⟨[], c, .idle _ _, ?_⟩
        show (Deed.onChannel (Channel.arm p resume) c).2.cargo = _
        obtain ⟨-, ha⟩ | ⟨hr, hn, -⟩ | ⟨_, -, -, ha⟩ := arm_cases p resume c
        · rw [ha]; rfl
        · obtain rfl | hf := h
          · cases hr
          · exact absurd hn hf
        · rw [ha]
    | finish last controller bus =>
        refine ⟨[], c, .idle _ _, ?_⟩
        rw [Deed.after_finish]
        cases last <;> rfl
    | reset | load => exact h.elim
  obtain ⟨rs, e, hc, he⟩ := hk
  have hw : (d.after p c).wordsLeft = e.wordsLeft := congrArg (·.2.2) he
  have hr : retired p c d = rs := by
    rw [retired, hw]
    exact hc.counted.2
  exact ⟨e, hr ▸ hc, he⟩

/-! ### Runs -/

/-- The deed takes no unit for nobody: it makes no access under a raised flag with nothing held. -/
def Timely (p : Peer) (c : Channel) (d : Deed (Bus δ)) : Prop :=
  d.raised = true → c.held = none → d.touches p c = []

/-- What the deed retires goes to memory in order, and what is held goes first. -/
structure Orderly (p : Peer) (c : Channel) (d : Deed (Bus δ)) : Prop where
  /-- Every unit retired is one of the words left. -/
  counted : (retired p c d).length + (d.after p c).wordsLeft = c.wordsLeft
  /-- The units retired stand one after the other, and the next one follows them. -/
  consecutive : (retired p c d).map (·.address) ++ [(d.after p c).address] =
    unitAddresses p c ((retired p c d).length + 1)
  stored : ∀ x ∈ retired p c d, x.width = .word ∧ regionOf x.address = .ram
  /-- A held unit is written before anything else is accessed. -/
  first : ∀ v, c.held = some v → d.touches p c ≠ [] →
    (d.touches p c).head? = some ⟨true, .word, c.address, v⟩

theorem Carries.orderly (hp : p.port? = some port) (h : Carries p c d)
    (ha : c.address ≤ addressMask) : Orderly p c d ∧ (d.after p c).address ≤ addressMask := by
  obtain ⟨e, hc, he⟩ := h.carried hp
  have hd : (d.after p c).address = e.address := congrArg (·.2.1) he
  have hw : (d.after p c).wordsLeft = e.wordsLeft := congrArg (·.2.2) he
  obtain ⟨hs, hl⟩ := hc.stored ha
  exact ⟨⟨by rw [hw]; exact hc.counted.1, by rw [hd]; exact hc.consecutive, hs,
    fun v hv hk => hc.first hv hk⟩, by rwa [hd]⟩

/-- **A deed hands on every unit**, or there is one more taken than retired or held. -/
theorem Carries.balance (hp : p.port? = some port) (h : Carries p c d) :
    (Timely p c d → c.held.toList ++ port.taken (d.touches p c) =
        (retired p c d).map (·.value) ++ (d.after p c).held.toList) ∧
      (¬ Timely p c d → (retired p c d).length + (d.after p c).held.toList.length <
        c.held.toList.length + (port.taken (d.touches p c)).length) := by
  obtain ⟨e, hc, he⟩ := h.carried hp
  have hh : (d.after p c).held = e.held := congrArg (·.1) he
  rw [hh]
  refine ⟨hc.conserved, fun ht => ?_⟩
  simp only [Timely, Classical.not_imp] at ht
  obtain ⟨hup, hn, hk⟩ := ht
  rw [hup] at hc
  obtain ⟨ht, hr, he⟩ := hc.dropped hn hk
  rw [hr, he, hn]
  simpa using List.length_pos_iff.2 ht

/-- The channel after the deeds. -/
def afterAll (p : Peer) : Channel → List (Deed (Bus δ)) → Channel
  | c, [] => c
  | c, d :: ds => afterAll p (d.after p c) ds

/-- The units that the deeds take out of the port. -/
def takenIn (p : Peer) (port : DataPort) : Channel → List (Deed (Bus δ)) → List UInt32
  | _, [] => []
  | c, d :: ds => port.taken (d.touches p c) ++ takenIn p port (d.after p c) ds

/-- The units that the deeds retire. -/
def retiredIn (p : Peer) : Channel → List (Deed (Bus δ)) → List UInt32
  | _, [] => []
  | c, d :: ds => (retired p c d).map (·.value) ++ retiredIn p (d.after p c) ds

/-- The units taken are, in order, those retired and one that may be held. -/
def Conserved (p : Peer) (port : DataPort) (c : Channel) (ds : List (Deed (Bus δ))) : Prop :=
  takenIn p port c ds = retiredIn p c ds ++ (afterAll p c ds).held.toList

/-- **In timely runs every unit is handed on.** -/
theorem taken_eq (hp : p.port? = some port) : ∀ {c : Channel} {ds : List (Deed (Bus δ))},
    Always p (Carries p) c ds → Always p (Timely p) c ds →
      c.held.toList ++ takenIn p port c ds =
        retiredIn p c ds ++ (afterAll p c ds).held.toList
  | c, [], _, _ => by simp [takenIn, retiredIn, afterAll]
  | c, d :: ds, ⟨hc, h⟩, ⟨ht, k⟩ => by
      calc c.held.toList ++ takenIn p port c (d :: ds)
          = (c.held.toList ++ port.taken (d.touches p c)) ++ takenIn p port (d.after p c) ds := by
            rw [takenIn, List.append_assoc]
        _ = (retired p c d).map (·.value) ++
              ((d.after p c).held.toList ++ takenIn p port (d.after p c) ds) := by
            rw [(hc.balance hp).1 ht, List.append_assoc]
        _ = retiredIn p c (d :: ds) ++ (afterAll p c (d :: ds)).held.toList := by
            rw [taken_eq hp h k, retiredIn, afterAll, List.append_assoc]

/-- Every deed takes as many units as it hands on, or more; if all of them together take as many,
each of them is timely. -/
theorem retired_le (hp : p.port? = some port) : ∀ {c : Channel} {ds : List (Deed (Bus δ))},
    Always p (Carries p) c ds →
      (retiredIn p c ds).length + (afterAll p c ds).held.toList.length ≤
          c.held.toList.length + (takenIn p port c ds).length ∧
        ((retiredIn p c ds).length + (afterAll p c ds).held.toList.length =
          c.held.toList.length + (takenIn p port c ds).length → Always p (Timely p) c ds)
  | c, [], _ => ⟨by simp [takenIn, retiredIn, afterAll], fun _ => trivial⟩
  | c, d :: ds, ⟨hc, h⟩ => by
      obtain ⟨hle, heq⟩ := retired_le hp h
      obtain ⟨ht, hf⟩ := hc.balance hp
      simp only [takenIn, retiredIn, afterAll, List.length_append, List.length_map]
      by_cases hd : Timely p c d
      · have hl := congrArg List.length (ht hd)
        simp only [List.length_append, List.length_map] at hl
        exact ⟨by omega, fun he => ⟨hd, heq (by omega)⟩⟩
      · have hl := hf hd
        exact ⟨by omega, fun he => by omega⟩

theorem held_load (p : Peer) (c : Channel) : (c.load p).held = none := by
  rw [load]
  dsimp only
  split <;> rfl

theorem address_load (p : Peer) (c : Channel) : (c.load p).address ≤ addressMask := by
  rw [load]
  dsimp only
  split <;> exact word_and_le _

/-- **From a fresh start on, the units taken out of the port are those retired and one that may be
held**, exactly in the runs where no step with nothing held accesses anything while the flag is up.
In every run the units retired stand at consecutive addresses in memory, each counted down, and a
held unit is written before anything else is accessed. -/
theorem conserved_iff (hp : p.port? = some port) (c : Channel) {ds : List (Deed (Bus δ))}
    (h : Always p (Carries p) (c.load p).activate ds) :
    (Conserved p port (c.load p).activate ds ↔ Always p (Timely p) (c.load p).activate ds) ∧
      Always p (Orderly p) (c.load p).activate ds := by
  have hh : (c.load p).activate.held = none := held_load p c
  refine ⟨⟨fun hc => ?_, fun ht => ?_⟩, ?_⟩
  · -- The two sides are as long as each other, and so no deed takes more than it hands on.
    refine (retired_le hp h).2 ?_
    rw [hh, hc]
    simp
  · have hk := taken_eq hp h ht
    rwa [hh] at hk
  · exact Always.imp (I := fun c => c.address ≤ addressMask)
      (fun c d ha hd => (hd.orderly hp ha).2) (fun c d ha hd => (hd.orderly hp ha).1)
      (address_load p c) h

/-- A burst of two units, the second of them to where memory ends. -/
def edgeBurst : Channel := { base := 0x7FFFFC, blocks := ⟨2⟩ }

/-- The burst stops for a bus error, and the forced start tries again. -/
def edgeHistory : List (Deed (Bus BareBoard)) :=
  [.step {} { board := ⟨⟩ }, .write .control 0x11000000 0xFFFFFFFF, .step {} { board := ⟨⟩ }]

theorem edgeHistory_conserved :
    Always .graphics (Carries .graphics) (edgeBurst.load .graphics).activate edgeHistory ∧
      Conserved .graphics ⟨.word, 0x1F801810⟩ (edgeBurst.load .graphics).activate edgeHistory ∧
        Always .graphics (Orderly .graphics) (edgeBurst.load .graphics).activate edgeHistory := by
  have h : Always .graphics (Carries .graphics) (edgeBurst.load .graphics).activate
      edgeHistory := by
    decide +kernel
  have ht : Always .graphics (Timely .graphics) (edgeBurst.load .graphics).activate edgeHistory :=
    ⟨nofun, nofun, nofun, trivial⟩
  obtain ⟨hc, ho⟩ := conserved_iff (p := .graphics) rfl edgeBurst h
  exact ⟨h, hc.2 ht, ho⟩

/-- Somebody else raised the flag: the unit taken is neither in memory nor held. -/
theorem raised_flag_drops_unit :
    let c := (edgeBurst.load .graphics).activate
    let ds : List (Deed (Bus BareBoard)) := [.step {} { board := ⟨⟩, exception := true }]
    Always .graphics (Carries .graphics) c ds ∧
      ¬ Conserved .graphics ⟨.word, 0x1F801810⟩ c ds := by
  refine ⟨by decide +kernel, fun h => ?_⟩
  have ht := congrArg List.length h
  revert ht
  decide +kernel

end Deeds

end Channel

end DmaMachine
