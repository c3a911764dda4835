import DmaMachine.Proofs.Channel.Blocks
import DmaMachine.Proofs.Channel.Units

/-!
# The blocks of a slice transfer

A slice transfer moves one block for each step, and waits for a request of the peripheral between
one block and the next.  How far it has come is in two counters, of words and of blocks, and in the
registers, which name the rest of the transfer after every block.

The counter of words holds every transfer but one.  Where both halves of the block word are zero,
the words are `2^32` together, and the counter starts at one less: the first block is a word short.

* `BlockState`: what is true of a channel before a block.
* `BlockState.next`: **a block leaves the channel ready for the next one.**
* `slice_moves_blocks`: every block is moved, at its addresses and for its cycles.
-/

namespace DmaMachine

namespace Channel

variable {p : Peer} {c d : Channel} {k : Nat}

/-! ### Before a block -/

/-- The addresses of block `k` of the transfer that the channel is programmed for. -/
def blockAddresses (p : Peer) (c : Channel) (k : Nat) : List UInt32 :=
  (List.range (c.blocks.blockWords k)).map fun i =>
    along (c.stride p) (c.base &&& wordAddressMask) (c.blocks.wordsBefore k + i)

/-- The second channel is about to move block `k` of the transfer that the first one is programmed
for. -/
structure BlockState (p : Peer) (c : Channel) (k : Nat) (d : Channel) : Prop where
  active : d.active = true
  running : d.running = true
  busy : d.control.has .startBusy = true
  syncMode : d.control.syncMode = .slice
  direction : d.control.direction = c.control.direction
  stride : d.stride p = c.stride p
  held : d.held = none
  address : d.address = along (c.stride p) (c.base &&& wordAddressMask) (c.blocks.wordsBefore k)
  wordsLeft : d.wordsLeft + c.blocks.wordsBefore k = c.blocks.wordsBefore c.blocks.blockCount
  blocksLeft : d.blocksLeft + k = c.blocks.blockCount
  block_lt : k < c.blocks.blockCount
  blockSize : d.shadowBlocks.blockSize = c.blocks.blockSize

theorem BlockState.start (hp : p ≠ .orderingTable) (hs : c.control.syncMode = .slice) :
    BlockState p c 0 (c.load p).activate := by
  have hm : c.mode p = .slice := (if_neg hp).trans hs
  have hl : c.load p = { c with
      shadowBase := c.base, shadowBlocks := c.blocks, address := c.base &&& wordAddressMask
      nodeCount := 0, lastNode := false, held := none
      wordsLeft := min (c.blocks.blockSize * c.blocks.blockCount) maxWords
      blocksLeft := c.blocks.blockCount } := by
    rw [load]
    simp only [mode] at hm ⊢
    simp only [hm]
  have hr : (c.load p).stride p = c.stride p := stride_congr (control_load p c)
  constructor
  · rfl
  · rfl
  · exact startBusy_activate _
  · simp [activate, hs]
  · rw [direction_activate, control_load]
  · rw [stride_activate, hr]
  · exact held_load p c
  · rw [Blocks.wordsBefore_zero, along_zero (word_and_le _), hl]
    rfl
  · rw [Blocks.wordsBefore_zero, ← c.blocks.wordsBefore_blockCount, hl]
    rfl
  · rw [hl]
    rfl
  · exact c.blocks.blockCount_pos
  · rw [hl]
    rfl

/-- The words that the step moves are those of the block. -/
theorem BlockState.blockWords_eq (h : BlockState p c k d) :
    d.wordsLeft - (d.blocksLeft - 1) * d.shadowBlocks.blockSize = c.blocks.blockWords k := by
  have hb := h.blocksLeft
  have hk := h.block_lt
  rw [h.blockSize]
  exact c.blocks.blockWords_eq hb (by omega) h.wordsLeft

/-- **A block leaves the channel ready for the next one**, once it is active again. -/
theorem BlockState.next (h : BlockState p c k d) (hk : k + 1 < c.blocks.blockCount) :
    BlockState p c (k + 1)
      (d.advance p (c.blocks.blockWords k)).countBlock.blockEnded.activate := by
  have hw := h.wordsLeft
  have hb := h.blocksLeft
  have hs := c.blocks.wordsBefore_succ k
  have hn := h.blockWords_eq
  constructor
  · rfl
  · rfl
  · exact startBusy_activate _
  · simp [activate, blockEnded, countBlock, advance, h.syncMode]
  · rw [direction_activate]
    exact h.direction
  · rw [stride_activate]
    exact (stride_congr rfl).trans h.stride
  · exact h.held
  · show along (d.stride p) d.address _ = _
    rw [h.stride, h.address, along_along, hs]
  · show d.wordsLeft - c.blocks.blockWords k + _ = _
    omega
  · show d.blocksLeft - 1 + _ = _
    omega
  · exact hk
  · show (Blocks.withBlockCount _ _).blockSize = _
    rw [Blocks.blockSize_withBlockCount]
    exact h.blockSize

/-! ### Moving a block -/

/-- What a step that moves block `k` answers. -/
def blockStatus (c : Channel) (k : Nat) : Status :=
  if k + 1 = c.blocks.blockCount then .completed else .blockDone

/-- The channel after block `k`. -/
def afterBlock (p : Peer) (c : Channel) (k : Nat) (d : Channel) : Channel :=
  let d := (d.advance p (c.blocks.blockWords k)).countBlock
  if k + 1 = c.blocks.blockCount then completed p d else d.blockEnded

section Step

variable {β : Type} [Master β] {s t u : Stage β}

/-- A step moves the units of the block, and then counts it. -/
theorem BlockState.step_eq (hp : p ≠ .orderingTable) (h : BlockState p c k s.channel) :
    step p s = (moveUnits p (c.blocks.blockWords k) >>= fun through =>
      if through then do
        Stage.onChannel countBlock
        if (← Stage.channelOf (·.blocksLeft)) = 0 then
          complete p
          return .completed
        else
          endBlock p
          return .blockDone
      else return .faulted) s := by
  rw [step_of_active hp h.active h.syncMode, stepIn, stepSlice, Op.bind_apply]
  simp only [Stage.channelOf, h.blockWords_eq]

/-- When the units of the block get through, the block is over. -/
theorem BlockState.step_of_moved (hp : p ≠ .orderingTable) (h : BlockState p c k s.channel)
    (hu : moveUnits p (c.blocks.blockWords k) s = .ok true u)
    (hc : u.channel = s.channel.advance p (c.blocks.blockWords k)) :
    ∃ controller,
      step p s = .ok (c.blockStatus k) ⟨afterBlock p c k s.channel, controller, u.bus⟩ := by
  have hb := h.blocksLeft
  have hk := h.block_lt
  have hl : u.channel.countBlock.blocksLeft = s.channel.blocksLeft - 1 := by rw [hc]; rfl
  rw [h.step_eq hp, Op.bind_apply, hu, blockStatus, afterBlock, ← hc]
  show ∃ controller, (if u.channel.countBlock.blocksLeft = 0 then _ else _ : Op (Stage β) Status)
    ⟨u.channel.countBlock, u.controller, u.bus⟩ = _
  by_cases hn : k + 1 = c.blocks.blockCount
  · rw [if_pos (by omega), if_pos hn, if_pos hn]
    exact ⟨_, rfl⟩
  · rw [if_neg (by omega), if_neg hn, if_neg hn]
    exact ⟨_, rfl⟩

theorem BlockState.moved_of_step (hp : p ≠ .orderingTable) (h : BlockState p c k s.channel)
    (ht : step p s = .ok .blockDone t) :
    ∃ u, moveUnits p (c.blocks.blockWords k) s = .ok true u := by
  rw [h.step_eq hp] at ht
  obtain ⟨through, u, hu, ht⟩ := Op.bind_eq_ok.1 ht
  cases through with
  | true => exact ⟨u, hu⟩
  | false => cases ht

end Step

section Runs

variable {δ : Type} [Board δ] {port : DataPort}

/-- The second channel is active at block `k` of the transfer that the first one is programmed for.
A start brings it there, and after every block that is not the last one a request does. -/
inductive Armed (p : Peer) (c : Channel) : Nat → Channel → Prop where
  | start {d : Channel} (h : arm p false c = .ok () d) : Armed p c 0 d
  | requested {k : Nat} {d e : Channel} {controller : Controller} {b : Bus δ} {t : Stage (Bus δ)}
      (h : Armed p c k d) (ht : step p ⟨d, controller, b⟩ = .ok .blockDone t)
      (hr : request p t.channel = .ok true e) : Armed p c (k + 1) e

theorem BlockState.address_le (h : BlockState p c k d) : d.address ≤ addressMask := by
  rw [h.address]
  exact along_le _ _ _

theorem BlockState.addresses (h : BlockState p c k d) :
    unitAddresses p d (c.blocks.blockWords k) = blockAddresses p c k := by
  rw [unitAddresses_eq p h.address_le, blockAddresses, h.stride, h.address]
  exact List.map_congr_left fun i _ => along_along _ _

theorem request_afterBlock (h : BlockState p c k d) (hk : k + 1 ≠ c.blocks.blockCount) :
    request p (afterBlock p c k d) = .ok true (afterBlock p c k d).activate := by
  have ha : afterBlock p c k d =
      (d.advance p (c.blocks.blockWords k)).countBlock.blockEnded := if_neg hk
  have hb : (afterBlock p c k d).control.has .startBusy = true := by
    rw [ha]
    exact h.busy
  have hr : (afterBlock p c k d).running = true := by
    rw [ha]
    exact h.running
  have hn : (afterBlock p c k d).active = false := by
    rw [ha]
    rfl
  rw [request, hn, hb, hr]
  rfl

/-- **An armed channel is about to move its block.** -/
theorem Armed.state (hp : p.port? = some port) (hs : c.control.syncMode = .slice)
    (h : Armed (δ := δ) p c k d) : BlockState p c k d := by
  have hne := ne_orderingTable hp
  induction h with
  | start h =>
      obtain ⟨-, rfl⟩ := arm_eq_ok h
      exact .start hne hs
  | @requested k d e controller b t _ ht hr ih =>
      obtain ⟨u, hu, rfl⟩ := step_eq_ok.1 ht
      obtain ⟨v, hv⟩ := ih.moved_of_step (s := (Stage.mk d controller b).recorded) hne hu
      obtain ⟨-, -, _, _, -, rfl⟩ := (moveUnits_eq_ok_iff hp _ ih.held ih.address_le).1 hv
      obtain ⟨_, hw⟩ :=
        ih.step_of_moved (s := (Stage.mk d controller b).recorded) hne hv rfl
      have he := hu.symm.trans hw
      have hk : k + 1 ≠ c.blocks.blockCount := fun hk => by
        rw [blockStatus, if_pos hk] at he
        cases he
      have hu : u.channel = afterBlock p c k d := by
        rw [blockStatus, if_neg hk] at he
        cases he
        rfl
      have hr : request p u.channel = .ok true e := hr
      rw [hu, request_afterBlock ih hk] at hr
      cases hr
      have hlt := ih.block_lt
      rw [afterBlock, if_neg hk]
      exact ih.next (by omega)

/-- **A block is moved** when its units can be carried. -/
theorem BlockState.step_carries (hp : p.port? = some port) (h : BlockState p c k d)
    (controller : Controller) {b b' : Bus δ} {vs : List UInt32} (hb : b.exception = false)
    (hr : ∀ a ∈ blockAddresses p c k, regionOf a = .ram)
    (hv : port.carryAll c.control.direction (blockAddresses p c k) b = .ok vs b') :
    accesses p ⟨d, controller, b⟩ =
        port.touchesAll c.control.direction (blockAddresses p c k) vs ∧
      ∃ controller', step p ⟨d, controller, b⟩ = .ok (c.blockStatus k)
        ⟨afterBlock p c k d, controller', b'.charge (c.blocks.blockWords k)⟩ := by
  rw [← h.direction, ← h.addresses] at hv ⊢
  rw [← h.addresses] at hr
  have hu := moved_of_carried hp h.held h.address_le controller [] hb hr hv
  obtain ⟨controller', ht⟩ := h.step_of_moved (s := (Stage.mk d controller b).recorded)
    (ne_orderingTable hp) hu rfl
  refine ⟨?_, controller', step_eq_ok.2 ⟨_, ht, rfl⟩⟩
  rw [accesses, ht]
  rfl

/-- **Every block of a slice transfer is moved, at its addresses and for its cycles**, as long as
its words are in memory and no device fails.  The transfer is over with the last one; after the
others the channel waits for a request, and its registers name the rest. -/
theorem slice_moves_blocks (hp : p.port? = some port) (hs : c.control.syncMode = .slice)
    (h : Armed (δ := δ) p c k d) (controller : Controller) {b b' : Bus δ} {vs : List UInt32}
    (hb : b.exception = false) (hr : ∀ a ∈ blockAddresses p c k, regionOf a = .ram)
    (hv : port.carryAll c.control.direction (blockAddresses p c k) b = .ok vs b') :
    k < c.blocks.blockCount ∧
      accesses p ⟨d, controller, b⟩ =
          port.touchesAll c.control.direction (blockAddresses p c k) vs ∧
        ∃ t, step p ⟨d, controller, b⟩ = .ok (c.blockStatus k) t ∧
          t.bus = b'.charge (c.blocks.blockWords k) ∧
            t.bus.pendingCycles = b.pendingCycles + c.blocks.blockWords k ∧
              (k + 1 < c.blocks.blockCount →
                t.channel.running = true ∧ t.channel.active = false ∧
                  t.channel.read .base = along (c.stride p) (c.base &&& wordAddressMask)
                    (c.blocks.wordsBefore (k + 1)) ∧
                  (t.channel.read .blocks >>> 16).toNat = c.blocks.blockCount - (k + 1) ∧
                    request p t.channel = .ok true t.channel.activate) := by
  have hd := h.state hp hs
  obtain ⟨ha, controller', ht⟩ := hd.step_carries hp controller hb hr hv
  refine ⟨hd.block_lt, ha, _, ht, rfl, ?_, fun hk => ?_⟩
  · exact congrArg (· + _) (port.carryAll_cycles hv)
  · have hl := hd.blocksLeft
    have hn := c.blocks.blockCount_le.1
    have hb : afterBlock p c k d = (d.advance p (c.blocks.blockWords k)).countBlock.blockEnded :=
      if_neg (by omega)
    refine ⟨?_, ?_, ?_, ?_, request_afterBlock hd (by omega)⟩
    · rw [hb]
      exact hd.running
    · rw [hb]
      rfl
    · rw [hb, c.blocks.wordsBefore_succ, ← along_along, ← hd.address, ← hd.stride]
      rfl
    · rw [hb]
      show ((Blocks.withBlockCount _ (UInt32.ofNat (d.blocksLeft - 1))).bits >>> 16).toNat = _
      have ho : (UInt32.ofNat (d.blocksLeft - 1)).toNat = (d.blocksLeft - 1) % 2 ^ 32 :=
        UInt32.toNat_ofNat'
      rw [Blocks.withBlockCount_shiftRight, Blocks.toNat_lowHalf, ho]
      omega

/-- Two blocks of a word each, out of memory. -/
def twoBlocks : Channel := { base := 0x100, blocks := ⟨0x00020001⟩, control := ⟨0x201⟩ }

theorem twoBlocks_moved :
    ∃ d, Armed (δ := BareBoard) .graphics twoBlocks 1 d ∧
      ∃ t, step .graphics ⟨d, {}, bareBus⟩ = .ok .completed t ∧
        t.bus.pendingCycles = 1 := by
  have hm : ∀ {as : List UInt32} {x : UInt32}, as = [x] → regionOf x = .ram →
      ∀ a ∈ as, regionOf a = .ram := fun h hx a ha => by
    rw [h, List.mem_singleton] at ha
    rw [ha, hx]
  have hp : Peer.graphics.port? = some .graphics := rfl
  have hv₀ : DataPort.graphics.carryAll .fromRam [0x100] bareBus =
    .ok [bareBus.ram.word 0x100] bareBus := rfl
  have hv₁ : DataPort.graphics.carryAll .fromRam [0x104] bareBus =
    .ok [bareBus.ram.word 0x104] bareBus := rfl
  have h₀ : Armed (δ := BareBoard) .graphics twoBlocks 0 (twoBlocks.load .graphics).activate :=
    .start rfl
  have hb₀ : blockAddresses .graphics twoBlocks 0 = [0x100] := by decide
  have hb₁ : blockAddresses .graphics twoBlocks 1 = [0x104] := by decide
  obtain ⟨-, -, t, ht, -, -, hn⟩ := slice_moves_blocks hp (by decide) h₀ {} rfl
    (hm hb₀ (by decide)) (hb₀ ▸ hv₀)
  obtain ⟨-, -, -, -, hr⟩ := hn (by decide)
  have h₁ : Armed (δ := BareBoard) .graphics twoBlocks 1 t.channel.activate := .requested h₀ ht hr
  obtain ⟨-, -, u, hu, -, hc, -⟩ := slice_moves_blocks hp (by decide) h₁ {} rfl
    (hm hb₁ (by decide)) (hb₁ ▸ hv₁)
  exact ⟨_, h₁, u, hu, hc⟩

/-- Where both halves of the block word are zero, the first block is a word short. -/
theorem zero_block_word_is_short :
    let c : Channel := { control := ⟨0x201⟩ }
    c.blocks.blockSize = 0x10000 ∧
      ∃ t, step .graphics ⟨(c.load .graphics).activate, {}, bareBus⟩ = .ok .blockDone t ∧
        t.bus.pendingCycles = 0xFFFF ∧ t.channel.read .base = 0x3FFFC := by
  intro c
  have hd : BlockState .graphics c 0 (c.load .graphics).activate := .start nofun (by decide)
  have hw : c.blocks.blockWords 0 = 0xFFFF := by decide
  have hs : c.stride .graphics = 4 := by decide
  have hc : c.control.direction = .fromRam := by decide
  have ha : ∀ a ∈ blockAddresses .graphics c 0,
      regionOf a = .ram ∧ Width.word.aligned a = true := fun a h => by
    obtain ⟨i, hi, rfl⟩ := List.mem_map.1 h
    rw [hw, List.mem_range] at hi
    refine ⟨(regionOf_eq_ram_iff (along_le _ _ _)).2 ?_,
      aligned_along (by rw [hs]; decide) (by decide) _⟩
    have h0 : (c.base &&& wordAddressMask).toNat = 0 := by decide
    have h4 : (4 : UInt32).toNat = 4 := by decide
    rw [toNat_along, hs, h0, h4, Blocks.wordsBefore_zero]
    omega
  have hv := (DataPort.carryAll_fromRam DataPort.onBoard_graphics ha).2
    ⟨rfl, DataPort.writeAll_bare _ bareBus⟩
  rw [← hc] at hv
  obtain ⟨-, k, ht⟩ := hd.step_carries rfl {} (show bareBus.exception = false from rfl)
    (fun a h => (ha a h).1) hv
  rw [show c.blockStatus 0 = .blockDone by decide] at ht
  refine ⟨by decide, _, ht, ?_, ?_⟩
  · show 0 + c.blocks.blockWords 0 = 0xFFFF
    rw [hw]
  · show ((afterBlock .graphics c 0 (c.load .graphics).activate)).read .base = 0x3FFFC
    decide

end Runs

end Channel

end DmaMachine
