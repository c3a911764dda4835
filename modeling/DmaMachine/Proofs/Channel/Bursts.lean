import DmaMachine.Proofs.Channel.Blocks
import DmaMachine.Proofs.Channel.Windows
import DmaMachine.Proofs.Controller.Interrupts

/-!
# Bursts from end to end

A burst that is not chopped moves all its words in one step.  Its addresses go up or down from the
base address, around at the end of the 24 bits, and memory ends before they do: the first word that
has no memory is a bus error, and the burst waits there.

What passes through the port is `burstTraffic`.  It mentions no channel's step: out of memory, the
words that the addresses name are put into the port; into memory, as many units are taken, and one
more if there is one that memory has no room for, which the channel then holds.

* `burstAddress`, `burstReach`: the addresses of a burst, and how many of them come before the first
  one without memory.
* `unitLost_fromRam`, `unitLost_toRam`, `unitLost_held`: what becomes of a unit without memory.
* `burst_end_to_end`: **a burst moves the units that memory has room for**, completes if those are
  all, and else stops at the first that it has no room for.
-/

namespace DmaMachine

namespace Channel

variable {p : Peer} {c : Channel}

/-! ### Addresses of a burst -/

/-- The address of unit `i` of a burst. -/
def burstAddress (c : Channel) : Nat → UInt32
  | 0 => c.base &&& wordAddressMask
  | i + 1 => (if c.control.has .decrement then c.burstAddress i - 4 else c.burstAddress i + 4) &&&
      addressMask

/-- How many units come before the first one that is above memory, if there is one. -/
def burstReach (c : Channel) : Nat :=
  (List.range c.blocks.wordCount).findIdx fun i => 0x800000 ≤ c.burstAddress i

/-- The addresses of these units. -/
def burstAddresses (c : Channel) : List UInt32 := (List.range c.burstReach).map c.burstAddress

theorem stride_of_burst (p : Peer) (hm : c.control.syncMode = .burst) :
    c.stride p = if c.control.has .decrement then -4 else 4 := by
  have hn : (SyncMode.burst != .linkedList) = true := rfl
  rw [stride, mode_of_burst p hm, hn, Bool.and_true]

/-- **The addresses of a burst stand one stride apart.** -/
theorem burstAddress_eq (p : Peer) (hm : c.control.syncMode = .burst) (i : Nat) :
    c.burstAddress i = along (c.stride p) (c.base &&& wordAddressMask) i := by
  induction i with
  | zero => exact (along_zero (word_and_le _)).symm
  | succ i ih =>
      rw [burstAddress, ← along_along i 1, ← ih, along, stride_of_burst p hm]
      split <;> simp [UInt32.sub_eq_add_neg]

theorem burstAddress_le (c : Channel) : ∀ i, c.burstAddress i ≤ addressMask
  | 0 => word_and_le _
  | _ + 1 => UInt32.and_le_right

/-- Above memory there is none. -/
theorem burstReach_eq (c : Channel) :
    c.burstReach = ramReach c.blocks.wordCount c.burstAddress := by
  refine congrArg (List.findIdx · _) (funext fun i => decide_eq_decide.2 ?_)
  rw [ne_eq, regionOf_eq_ram_iff (c.burstAddress_le i), Nat.not_lt]
  exact UInt32.le_iff_toNat_le

theorem burstReach_le (c : Channel) : c.burstReach ≤ c.blocks.wordCount :=
  c.burstReach_eq ▸ ramReach_le ..

theorem aligned_burstAddress (hm : c.control.syncMode = .burst) (i : Nat) :
    Width.word.aligned (c.burstAddress i) = true := by
  -- The stride does not depend on the peer of a burst.
  rw [burstAddress_eq .graphics hm, stride_of_burst .graphics hm]
  exact aligned_along (by split <;> rfl) (aligned_wordAddress _) i

theorem length_burstAddresses (c : Channel) : c.burstAddresses.length = c.burstReach := by
  rw [burstAddresses, List.length_map, List.length_range]

/-- **The units before the reach have memory.** -/
theorem ram_of_mem_burstAddresses (hm : c.control.syncMode = .burst) {a : UInt32}
    (ha : a ∈ c.burstAddresses) : regionOf a = .ram ∧ Width.word.aligned a = true := by
  obtain ⟨i, hi, rfl⟩ := List.mem_map.1 ha
  rw [burstReach_eq, List.mem_range] at hi
  exact ⟨ram_of_lt_ramReach hi, aligned_burstAddress hm i⟩

theorem unmapped_of_burstReach_lt (h : c.burstReach < c.blocks.wordCount) :
    regionOf (c.burstAddress c.burstReach) = .unmapped := by
  rw [burstReach_eq] at h ⊢
  by_contra hr
  exact ne_ram_of_ramReach_lt h (regionOf_of_le (c.burstAddress_le _) hr)

/-- **No two units have one place in memory.** -/
theorem pairwise_burstAddresses (hm : c.control.syncMode = .burst) :
    c.burstAddresses.Pairwise fun a b => Ram.offset (physical a) ≠ Ram.offset (physical b) := by
  refine List.pairwise_map.2 (List.pairwise_lt_range.imp_of_mem fun _ hj hij => ?_)
  have hj := List.mem_range.1 hj
  have hr := c.burstReach_le
  have hn : c.blocks.wordCount ≤ 0x10000 := c.blocks.blockSize_le.1
  rw [burstAddress_eq .graphics hm, burstAddress_eq .graphics hm]
  refine Ram.offset_along_ne ?_ _ hij (by omega)
  rw [stride_of_burst .graphics hm]
  split
  · exact .inr rfl
  · exact .inl rfl

/-! ### Units without memory -/

section Lost

variable {δ : Type} [Board δ] {port : DataPort} {b b' : Bus δ} {v : UInt32}

/-- The unit at hand has no memory.  Its accesses take the first bus to the second one and raise the
flag, and then it is held or not. -/
def UnitLost (p : Peer) (c : Channel) (b b' : Bus δ) (held : Option UInt32) (stray : List Touch) :
    Prop :=
  ∀ (k : Controller) (l : List Touch), transferUnit p (Stage.mk c k (Recorder.mk b l)) =
    .ok false ⟨{ c with held }, k, ⟨b'.raise c.address, l ++ stray⟩⟩

/-- **A unit that memory does not have** is not put into the port. -/
theorem unitLost_fromRam (hp : p.port? = some port) (hd : c.control.direction = .fromRam)
    (ha : Width.word.aligned c.address = true) (hr : regionOf c.address = .unmapped) (b : Bus δ) :
    UnitLost p c b b c.held [⟨false, .word, c.address, 0xFFFFFFFF⟩] := by
  intro k l
  have hread : Master.read .word c.address b = .ok 0xFFFFFFFF (b.raise c.address) :=
    Bus.read_unmapped ha hr b
  have hread := Recorder.read_recorded hread l
  rw [transferUnit_of_fromRam (s := Stage.mk c k (Recorder.mk b l)) hp hd]
  exact Op.bind_eq_ok.2 ⟨_, _, Stage.onBus_eq_ok.2 ⟨_, hread, rfl⟩, rfl⟩

/-- **A unit that memory has no room for** is taken out of the port, and held. -/
theorem unitLost_toRam (hp : p.port? = some port) (hd : c.control.direction = .toRam)
    (hh : c.held = none) (ha : Width.word.aligned c.address = true)
    (hr : regionOf c.address = .unmapped) (hv : port.read b = .ok v b')
    (hb : b.exception = false) :
    UnitLost p c b b' (some v) (port.touches .toRam c.address v) := by
  intro k l
  have hport := DataPort.onBoard_of_port hp
  obtain ⟨⟨t, l'⟩, hv', ht⟩ := (Recorder.transparent.readPort port).eq_ok.1
    (show port.read (Recorder.bus ⟨b, l⟩) = .ok v b' from hv)
  obtain rfl : t = b' := ht
  obtain rfl : l' = l ++ port.passes false v := Recorder.readPort_log hport hv'
  have hdown : t.exception = false :=
    ((Bus.readPort_boardOnly hport).of_ok hv).exception.trans hb
  have hwrite : Master.write .word c.address v t = .ok () (t.raise c.address) :=
    Bus.write_unmapped ha hr v t
  have hwrite := Recorder.write_recorded hwrite (l ++ port.passes false v)
  rw [transferUnit_of_toRam (s := Stage.mk c k (Recorder.mk b l)) hp hd, DataPort.touches,
    ← List.append_assoc]
  exact Op.bind_eq_ok.2 ⟨some v, _, (takeUnit_eq_ok_iff hh).2 ⟨_, hv', hdown, rfl⟩,
    Op.bind_eq_ok.2 ⟨(), _, Stage.onBus_eq_ok.2 ⟨_, hwrite, rfl⟩, rfl⟩⟩

/-- If it is held already, it stays so, and nothing is taken. -/
theorem unitLost_held (hp : p.port? = some port) (hd : c.control.direction = .toRam)
    (hh : c.held = some v) (ha : Width.word.aligned c.address = true)
    (hr : regionOf c.address = .unmapped) (b : Bus δ) :
    UnitLost p c b b (some v) [⟨true, .word, c.address, v⟩] := by
  intro k l
  have hwrite : Master.write .word c.address v b = .ok () (b.raise c.address) :=
    Bus.write_unmapped ha hr v b
  have hwrite := Recorder.write_recorded hwrite l
  rw [transferUnit_of_toRam (s := Stage.mk c k (Recorder.mk b l)) hp hd]
  exact Op.bind_eq_ok.2 ⟨some v, _, takeUnit_of_held hh,
    Op.bind_eq_ok.2 ⟨(), _, Stage.onBus_eq_ok.2 ⟨_, hwrite, rfl⟩, rfl⟩⟩

/-- **A unit without memory stops the channel**, for a cycle. -/
theorem UnitLost.moveUnit_eq {held : Option UInt32} {stray : List Touch}
    (h : UnitLost p c b b' held stray) (k : Controller) (l : List Touch) :
    moveUnit p (Stage.mk c k (Recorder.mk b l)) =
      .ok false ⟨halted { c with held }, k.signalBusError,
        ⟨{ b'.charge 1 with exception := false, lastFault := some c.address }, l ++ stray⟩⟩ := by
  have hu := Attempt.unit.perform_eq p (Stage.mk c k (Recorder.mk b l))
  rw [show Attempt.unit.access p (Stage.mk c k (Recorder.mk b l)) = .ok none _ from
    Op.bind_eq_ok.2 ⟨false, _, h k l, rfl⟩] at hu
  exact hu

end Lost

/-! ### The step of a burst -/

/-- The second channel is about to move the burst that the first one is programmed for. -/
structure BurstArmed (p : Peer) (c d : Channel) : Prop extends Bursting d where
  base : d.base = c.base
  blocks : d.blocks = c.blocks
  direction : d.control.direction = c.control.direction
  chopping : d.control.has .chopping = false
  stride : d.stride p = c.stride p
  address : d.address = c.base &&& wordAddressMask
  wordsLeft : d.wordsLeft = c.blocks.wordCount

theorem BurstArmed.start (p : Peer) (hm : c.control.syncMode = .burst)
    (hc : c.control.has .chopping = false) : BurstArmed p c (c.load p).activate := by
  have hl := load_of_burst p hm
  refine ⟨.start p hm, ?_, ?_, ?_, ?_, ?_, ?_, ?_⟩
  · rw [hl]
    rfl
  · rw [hl]
    rfl
  · rw [direction_activate, control_load]
  · simp [activate, hc]
  · rw [stride_activate, stride_congr (control_load p c)]
  · rw [hl]
    rfl
  · rw [hl]
    rfl

section Step

variable {δ : Type} [Board δ] {port : DataPort} {d : Channel} {b b' : Bus δ} {vs : List UInt32}

theorem BurstArmed.addresses (h : BurstArmed p c d) (hm : c.control.syncMode = .burst) :
    unitAddresses p d c.burstReach = c.burstAddresses := by
  rw [unitAddresses_eq p h.address_le, h.stride, h.address, burstAddresses]
  exact List.map_congr_left fun i _ => (burstAddress_eq p hm i).symm

theorem BurstArmed.address_advance (h : BurstArmed p c d) (hm : c.control.syncMode = .burst)
    (n : Nat) : (d.advance p n).address = c.burstAddress n := by
  rw [burstAddress_eq p hm, ← h.address, ← h.stride]
  rfl

theorem BurstArmed.lost (h : BurstArmed p c d) (hm : c.control.syncMode = .burst)
    (hn : c.burstReach < c.blocks.wordCount) :
    Width.word.aligned (d.advance p c.burstReach).address = true ∧
      regionOf (d.advance p c.burstReach).address = .unmapped := by
  rw [h.address_advance hm]
  exact ⟨aligned_burstAddress hm _, unmapped_of_burstReach_lt hn⟩

/-- What a burst that got through leaves behind. -/
structure BurstCompleted (c : Channel) (b : Bus δ) (status : Status) (t : Stage (Bus δ)) :
    Prop where
  status : status = .completed
  cycles : t.bus.pendingCycles = b.pendingCycles + c.blocks.wordCount
  startBusy : t.channel.control.has .startBusy = false
  base : t.channel.read .base = c.read .base
  blocks : t.channel.read .blocks = c.read .blocks

/-- What a burst leaves behind that came to the end of memory. -/
structure BurstFaulted (c : Channel) (b : Bus δ) (held : Option UInt32) (status : Status)
    (t : Stage (Bus δ)) : Prop where
  status : status = .faulted
  held : t.channel.held = held
  wordsLeft : t.channel.wordsLeft = c.blocks.wordCount - c.burstReach
  address : t.channel.address = c.burstAddress c.burstReach
  lastFault : t.bus.lastFault = some (c.burstAddress c.burstReach)
  cycles : t.bus.pendingCycles = b.pendingCycles + (c.burstReach + 1)
  busError : bit t.controller.readInterrupt 15 = true

section Carried

variable (h : BurstArmed p c d) (hp : p.port? = some port) (hm : c.control.syncMode = .burst)
  (hb : b.exception = false)
  (hv : port.carryAll c.control.direction c.burstAddresses b = .ok vs b') (k : Controller)
include h hp hm hb hv

/-- The units before the reach are moved. -/
theorem BurstArmed.moved : moveUnits p c.burstReach (Stage.mk d k (Recorder.mk b [])) = .ok true
    ⟨d.advance p c.burstReach, k, ⟨b'.charge c.burstReach,
      port.touchesAll c.control.direction c.burstAddresses vs⟩⟩ := by
  rw [← h.addresses hm, ← h.direction] at hv ⊢
  refine moved_of_carried hp h.held h.address_le k [] hb (fun a ha => ?_) hv
  rw [h.addresses hm] at ha
  exact (ram_of_mem_burstAddresses hm ha).1

/-- The step moves the units before the reach, and then the others. -/
theorem BurstArmed.step_eq : step p (Stage.mk d k b).recorded =
    (moveUnits p (c.blocks.wordCount - c.burstReach) >>= endBurst p)
      ⟨d.advance p c.burstReach, k, ⟨b'.charge c.burstReach,
        port.touchesAll c.control.direction c.burstAddresses vs⟩⟩ := by
  have hs := step_whole (s := (Stage.mk d k b).recorded) (ne_orderingTable hp) h.toBursting
    fun hc => absurd (h.chopping.symm.trans hc) Bool.false_ne_true
  have hw : (Stage.mk d k b).recorded.channel.wordsLeft =
      c.burstReach + (c.blocks.wordCount - c.burstReach) := by
    rw [Nat.add_sub_of_le c.burstReach_le]
    exact h.wordsLeft
  rw [hs, hw, moveUnits_add, bind_assoc, Op.bind_apply]
  simp only [Stage.recorded, h.moved hp hm hb hv k]
  rfl

/-- **The burst completes** when memory has room for all of it. -/
theorem BurstArmed.completes (hn : c.burstReach = c.blocks.wordCount) :
    accesses p ⟨d, k, b⟩ =
        port.touchesAll c.control.direction c.burstAddresses vs ∧
      ∃ t, step p ⟨d, k, b⟩ = .ok .completed t ∧ t.bus = b'.charge c.burstReach ∧
        BurstCompleted c b .completed t := by
  have hs := h.step_eq hp hm hb hv k
  have hd : (d.advance p c.burstReach).mode p ≠ .slice := by
    rw [mode_of_burst p (h.advance c.burstReach).syncMode]
    nofun
  rw [hn, Nat.sub_self, ← hn] at hs
  refine ⟨accesses_of_step hs, _, step_eq_ok.2 ⟨_, hs, rfl⟩, rfl, rfl, ?_, ?_, ?_, ?_⟩
  · exact congrArg₂ (· + ·) (port.carryAll_cycles hv) hn
  · simp [completed, Stage.plain]
  · show (completed p (d.advance p c.burstReach)).base = _
    rw [completed, if_neg hd]
    exact h.base
  · exact congrArg Blocks.bits h.blocks

/-- **The burst faults** at the first unit without memory. -/
theorem BurstArmed.faults (hn : c.burstReach < c.blocks.wordCount) {held : Option UInt32}
    {b₂ : Bus δ} {stray : List Touch}
    (hu : UnitLost p (d.advance p c.burstReach) (b'.charge c.burstReach) b₂ held stray)
    (hc : b₂.pendingCycles = (b'.charge c.burstReach).pendingCycles) :
    accesses p ⟨d, k, b⟩ =
        port.touchesAll c.control.direction c.burstAddresses vs ++ stray ∧
      ∃ t, step p ⟨d, k, b⟩ = .ok .faulted t ∧ t.bus.ram = b₂.ram ∧ t.bus.board = b₂.board ∧
        BurstFaulted c b held .faulted t := by
  have ha := h.address_advance hm c.burstReach
  have hs := h.step_eq hp hm hb hv k
  obtain ⟨n, hn⟩ : ∃ n, c.blocks.wordCount - c.burstReach = n + 1 :=
    ⟨c.blocks.wordCount - c.burstReach - 1, by omega⟩
  rw [hn, moveUnits, bind_assoc, Op.bind_apply, hu.moveUnit_eq] at hs
  refine ⟨accesses_of_step hs, _, step_eq_ok.2 ⟨_, hs, rfl⟩, rfl, rfl, rfl, rfl, ?_, ha, ?_, ?_, ?_⟩
  · exact congrArg (· - _) h.wordsLeft
  · exact congrArg some ha
  · show b₂.pendingCycles + 1 = _
    rw [hc, ← port.carryAll_cycles hv, ← Nat.add_assoc]
    rfl
  · rw [Controller.bit_readInterrupt _ (by decide)]
    have hbit : bit 0x8000 15 = true := by decide
    exact (bit_or _ _ _).trans (by rw [hbit, Bool.or_true])

end Carried

end Step

/-! ### The burst from end to end -/

section Bursts

variable {δ : Type} [Board δ] {port : DataPort} {b b' : Bus δ} {vs : List UInt32}

/-- What passes through the port: the words in memory are put into it, or units are taken out of it,
one more than memory has room for if the burst is longer than that. -/
def burstTraffic (port : DataPort) (c : Channel) (m : Ram) : Op (Bus δ) (List UInt32) :=
  match c.control.direction with
  | .fromRam => do
      port.writeAll (c.burstAddresses.map m.word)
      return c.burstAddresses.map m.word
  | .toRam => port.readAll (min (c.burstReach + 1) c.blocks.wordCount)

/-- The accesses of the unit without memory, if there is one. -/
def burstStray (port : DataPort) (c : Channel) (vs : List UInt32) : List Touch :=
  match c.control.direction with
  | .fromRam =>
      if c.burstReach < c.blocks.wordCount then
        [⟨false, .word, c.burstAddress c.burstReach, 0xFFFFFFFF⟩]
      else []
  | .toRam => (vs.drop c.burstReach).flatMap (port.touches .toRam (c.burstAddress c.burstReach))

/-- The units are in memory at their addresses, and nothing else in it has changed. -/
structure BurstStored (c : Channel) (vs : List UInt32) (m m' : Ram) : Prop where
  words : ∀ i < c.burstReach, vs[i]? = some (m'.word (c.burstAddress i))
  fromRam : c.control.direction = .fromRam → m' = m
  others : ∀ a, (∀ i < c.burstReach, Ram.offset a / 4 ≠ Ram.offset (c.burstAddress i) / 4) →
    m'.byte a = m.byte a

/-- The words that are put into the port stay where they are. -/
theorem burstStored_fromRam (c : Channel) (m : Ram) :
    BurstStored c (c.burstAddresses.map m.word) m m := by
  refine ⟨fun i hi => ?_, fun _ => rfl, fun _ _ => rfl⟩
  simp [burstAddresses, hi]

/-- The units that are taken out of the port can be read back. -/
theorem burstStored_toRam (hm : c.control.syncMode = .burst) (hd : c.control.direction = .toRam)
    (hl : c.burstReach ≤ vs.length) (m : Ram) :
    BurstStored c vs m (Ram.storeAll (c.burstAddresses.zip vs) m) := by
  have hx : ∀ x ∈ c.burstAddresses.zip vs, ∃ i < c.burstReach,
      physical x.1 = c.burstAddress i := fun x hx => by
    obtain ⟨i, hi, ha⟩ := List.mem_map.1 (List.of_mem_zip hx).1
    exact ⟨i, List.mem_range.1 hi, by rw [← ha, physical_of_le (c.burstAddress_le i)]⟩
  have ha : ∀ x ∈ c.burstAddresses.zip vs,
      Width.word.aligned (physical x.1) = true := fun x h => by
    obtain ⟨i, -, hi⟩ := hx x h
    rw [hi]
    exact aligned_burstAddress hm i
  refine ⟨fun i hi => ?_, fun h => absurd (h.symm.trans hd) nofun, fun b hb => ?_⟩
  · have hi' : i < vs.length := by omega
    have hmem : (c.burstAddress i, vs[i]) ∈ c.burstAddresses.zip vs :=
      List.mem_iff_getElem.2 ⟨i, by rw [List.length_zip, length_burstAddresses]; omega,
        by simp [burstAddresses]⟩
    have hf : (c.burstAddresses.zip vs).map Prod.fst = c.burstAddresses :=
      List.map_fst_zip (by rwa [length_burstAddresses])
    have hd := pairwise_burstAddresses hm
    rw [← hf] at hd
    have hd := List.pairwise_map.1 hd
    rw [List.getElem?_eq_getElem hi', Ram.word_storeAll m ha hd hmem]
  · refine Ram.byte_storeAll m ha fun x h => ?_
    obtain ⟨i, hi, he⟩ := hx x h
    rw [he]
    exact hb i hi

/-- What a burst has done. -/
structure BurstDone (port : DataPort) (c : Channel) (b b' : Bus δ) (vs : List UInt32)
    (log : List Touch) (status : Status) (t : Stage (Bus δ)) : Prop where
  accesses : log = port.touchesAll c.control.direction c.burstAddresses vs ++
    c.burstStray port vs
  board : t.bus.board = b'.board
  stored : BurstStored c vs b.ram t.bus.ram
  completed : c.burstReach = c.blocks.wordCount → BurstCompleted c b status t
  faulted : c.burstReach < c.blocks.wordCount → BurstFaulted c b vs[c.burstReach]? status t

section Directions

variable {d : Channel} (h : BurstArmed p c d) (hp : p.port? = some port)
  (hm : c.control.syncMode = .burst) (hb : b.exception = false) (k : Controller)
include h hp hm hb

/-- The words of a burst out of memory. -/
theorem BurstArmed.done_fromRam (hd : c.control.direction = .fromRam)
    (hw : port.writeAll (c.burstAddresses.map b.ram.word) b = .ok () b') :
    ∃ status t, step p ⟨d, k, b⟩ = .ok status t ∧
      BurstDone port c b b' (c.burstAddresses.map b.ram.word) (accesses p ⟨d, k, b⟩) status t := by
  have hport := DataPort.onBoard_of_port hp
  have hv : port.carryAll c.control.direction c.burstAddresses b =
      .ok (c.burstAddresses.map b.ram.word) b' := by
    rw [hd]
    exact (DataPort.carryAll_fromRam hport fun a => ram_of_mem_burstAddresses hm).2 ⟨rfl, hw⟩
  have hram : b'.ram = b.ram := ((DataPort.writeAll_boardOnly hport _).of_ok hw).ram
  have hstored := c.burstStored_fromRam b.ram
  obtain hn | hn := Nat.eq_or_lt_of_le c.burstReach_le
  · obtain ⟨ha, t, ht, hbus, hc⟩ := h.completes hp hm hb hv k hn
    refine ⟨_, t, ht, ?_, ?_, ?_, fun _ => hc, fun hl => absurd hn (Nat.ne_of_lt hl)⟩
    · rw [ha, burstStray, hd, hn]
      simp
    · rw [hbus]
      rfl
    · rw [hbus]
      exact hram ▸ hstored
  · obtain ⟨ha, hr⟩ := h.lost hm hn
    have hu := unitLost_fromRam (c := d.advance p c.burstReach) hp (h.direction.trans hd) ha hr
      (b'.charge c.burstReach)
    rw [h.address_advance hm] at hu
    obtain ⟨ha, t, ht, htr, htb, hf⟩ := h.faults hp hm hb hv k hn hu rfl
    refine ⟨_, t, ht, ?_, htb, ?_, fun he => absurd he (Nat.ne_of_lt hn), fun _ => ?_⟩
    · rw [ha, burstStray, hd]
      simp only [if_pos hn]
    · rw [htr]
      exact hram ▸ hstored
    · rw [List.getElem?_eq_none (by simp [length_burstAddresses])]
      exact (show (d.advance p c.burstReach).held = none from h.held) ▸ hf

/-- The units of a burst into memory. -/
theorem BurstArmed.done_toRam (hd : c.control.direction = .toRam)
    (hr : port.readAll (min (c.burstReach + 1) c.blocks.wordCount) b = .ok vs b') :
    ∃ status t, step p ⟨d, k, b⟩ = .ok status t ∧
      BurstDone port c b b' vs (accesses p ⟨d, k, b⟩) status t := by
  have hport := DataPort.onBoard_of_port hp
  -- The units before the reach are stored as they come.
  have hv : ∀ {vs : List UInt32} {t : Bus δ}, port.readAll c.burstReach b = .ok vs t →
      port.carryAll c.control.direction c.burstAddresses b =
        .ok vs (t.withRam (Ram.storeAll (c.burstAddresses.zip vs) b.ram)) := by
    rw [← c.length_burstAddresses, hd]
    exact DataPort.carryAll_toRam hport fun a => ram_of_mem_burstAddresses hm
  obtain hn | hn := Nat.eq_or_lt_of_le c.burstReach_le
  · rw [hn, Nat.min_eq_right (Nat.le_succ _), ← hn] at hr
    have hl := DataPort.length_readAll hr
    obtain ⟨ha, t, ht, hbus, hc⟩ := h.completes hp hm hb (hv hr) k hn
    refine ⟨_, t, ht, ?_, ?_, ?_, fun _ => hc, fun hl => absurd hn (Nat.ne_of_lt hl)⟩
    · rw [ha, burstStray, hd]
      simp [← hl]
    · rw [hbus]
      rfl
    · rw [hbus]
      exact burstStored_toRam hm hd (Nat.le_of_eq hl.symm) b.ram
  · rw [Nat.min_eq_left hn] at hr
    obtain ⟨ws, v, u, rfl, hws, hr⟩ := DataPort.readAll_succ hr
    have hl := DataPort.length_readAll hws
    obtain ⟨ha, hunmapped⟩ := h.lost hm hn
    have hz : c.burstAddresses.zip (ws ++ [v]) = c.burstAddresses.zip ws := by
      have hz : (c.burstAddresses ++ []).zip (ws ++ [v]) = _ :=
        List.zip_append (c.length_burstAddresses.trans hl.symm)
      simpa using hz
    have hr := DataPort.readPort_anyhow hport (Ram.storeAll (c.burstAddresses.zip ws) b.ram)
      c.burstReach hr
    have hdown : u.exception = false :=
      ((DataPort.readAll_boardOnly hport _).of_ok hws).exception.trans hb
    have hu := unitLost_toRam (c := d.advance p c.burstReach) hp (h.direction.trans hd) h.held ha
      hunmapped hr hdown
    rw [h.address_advance hm] at hu
    obtain ⟨ha, t, ht, htr, htb, hf⟩ := h.faults hp hm hb (hv hws) k hn hu
      ((Bus.readPort_boardOnly hport).of_ok hr).pendingCycles
    refine ⟨_, t, ht, ?_, htb, ?_, fun he => absurd he (Nat.ne_of_lt hn), fun _ => ?_⟩
    · rw [ha, burstStray, hd, DataPort.touchesAll, DataPort.touchesAll, hz]
      simp [← hl]
    · rw [htr, ← hz]
      exact burstStored_toRam hm hd (by simp [hl]) b.ram
    · rw [← hl]
      simpa using hf

end Directions

/-- **A burst from end to end.**  On every channel with a port and in every direction that it moves
data, a burst that is not chopped starts, and its step moves the units that memory has room for, in
order, each between its address and the port: they are in memory afterwards, nothing else in memory
has changed, and the accesses are those that carry them.  If these are all units the burst
completes, for a cycle each, with its start bit clear and its other registers as they were.  Else
it faults at the first unit without memory, for a cycle more, with the address of that unit noted
and the rest of the burst left to move. -/
theorem burst_end_to_end (hp : p.port? = some port) (hs : p.supports c.control.direction = true)
    (hm : c.control.syncMode = .burst) (hc : c.control.has .chopping = false)
    (hb : b.exception = false) (hv : c.burstTraffic port b.ram b = .ok vs b') (k : Controller) :
    ∃ d status t, arm p false c = .ok () d ∧ step p ⟨d, k, b⟩ = .ok status t ∧
      BurstDone port c b b' vs (accesses p ⟨d, k, b⟩) status t := by
  have hr : c.refusal? p = none := by
    have hmode := mode_of_burst p hm
    exact refusal?_eq_none_iff.2 ⟨by simp [hmode], hs, by simp [hmode]⟩
  have h := BurstArmed.start p hm hc
  have hdone : ∃ status t, step p ⟨(c.load p).activate, k, b⟩ = .ok status t ∧
      BurstDone port c b b' vs (accesses p ⟨(c.load p).activate, k, b⟩) status t := by
    rw [burstTraffic] at hv
    cases hd : c.control.direction with
    | fromRam =>
        simp only [hd] at hv
        obtain ⟨_, _, hw, hv⟩ := Op.bind_eq_ok.1 hv
        cases hv
        exact h.done_fromRam hp hm hb k hd hw
    | toRam =>
        simp only [hd] at hv
        exact h.done_toRam hp hm hb k hd hv
  obtain ⟨status, t, ht, hdone⟩ := hdone
  exact ⟨_, status, t, arm_of_accepted hr, ht, hdone⟩

/-- Three words into memory, from the second word of it downwards. -/
def burstOverTheEdge : Channel := { base := 4, blocks := ⟨3⟩, control := ⟨2⟩ }

/-- Two of them are stored.  The third would be at the end of the addresses, and is held. -/
theorem burstOverTheEdge_faults : ∃ d t, arm .sound false burstOverTheEdge = .ok () d ∧
    step .sound ⟨d, {}, bareBus⟩ = .ok .faulted t ∧
      (∀ i < 2, t.bus.ram.word (burstOverTheEdge.burstAddress i) = 0xFFFFFFFF) ∧
        t.channel.address = 0xFFFFFC ∧ t.channel.wordsLeft = 1 ∧
          t.channel.held = some 0xFFFFFFFF ∧ t.bus.pendingCycles = 3 := by
  have hr : burstOverTheEdge.burstReach = 2 := by decide
  have hn : burstOverTheEdge.blocks.wordCount = 3 := by decide
  have hv : burstOverTheEdge.burstTraffic ⟨.half, 0x1F801DA8⟩ bareBus.ram bareBus =
      .ok [0xFFFFFFFF, 0xFFFFFFFF, 0xFFFFFFFF] bareBus := by
    show DataPort.readAll _ _ _ = _
    rw [hr, hn]
    rfl
  obtain ⟨d, status, t, hd, ht, hdone⟩ :=
    burst_end_to_end (p := .sound) rfl rfl (by decide) (by decide) rfl hv {}
  have hf := hdone.faulted (by rw [hr, hn]; decide)
  rw [hr] at hf
  obtain ⟨rfl, hheld, hleft, haddress, -, hcycles, -⟩ := hf
  refine ⟨d, t, hd, ht, fun i hi => ?_, ?_, by rw [hleft, hn, hr], hheld, ?_⟩
  · have hw := hdone.stored.words i (by rwa [hr])
    obtain rfl | rfl : i = 0 ∨ i = 1 := by omega
    · exact (Option.some.inj hw).symm
    · exact (Option.some.inj hw).symm
  · rw [haddress, hr]
    rfl
  · rw [hcycles, hr]
    rfl

end Bursts

end Channel

end DmaMachine
