import DmaMachine.Proofs.Channel.Tables
import DmaMachine.Session.Frames
import Mathlib.Algebra.GroupWithZero.Nat

/-!
# The table of a frame

The program's ordering table in memory, and the list that it is when a packet has been put behind
its middle slot.

* `Ram.Chain`: the first nodes of a list whose headers are known, and where they stand.
* `Cleared`, `Linked`, `Looped`: the table as the engine clears it, with the packet linked into it,
  and with the packet linked to itself.
* `step_clears`, `step_sends`: **a table is cleared in a cycle for every slot**, and sent in a cycle
  for every slot and one for every word of the packet and its header.
* `step_loops`: **a packet that is linked to itself** is sent again and again, up to the limit.
-/

namespace DmaMachine

/-! ### Lists whose headers are known -/

namespace Ram

/-- The list that begins at `a` has these nodes with these headers, as far as `n` of them.  They are
in memory with their words, and none but the last of them is marked as the end. -/
structure Chain (m : Ram) (a : UInt32) (nodes headers : Nat → UInt32) (n : Nat) : Prop where
  first : a &&& wordAddressMask = nodes 0
  word : ∀ i < n, m.word (nodes i) = headers i
  next : ∀ i, i + 1 < n → headers i &&& wordAddressMask = nodes (i + 1)
  inMemory : ∀ i < n, regionOf (nodes i) = .ram ∧
    ∀ j < (headers i >>> 24).toNat, regionOf (along 4 (nodes i) (j + 1)) = .ram
  unended : ∀ i, i + 1 < n → bit (headers i) 23 = false

variable {m : Ram} {a : UInt32} {nodes headers : Nat → UInt32} {n : Nat}

theorem Chain.node (h : m.Chain a nodes headers n) : ∀ i < n, m.node a i = nodes i
  | 0, _ => h.first
  | i + 1, hi => by
      rw [Ram.node, h.node i (by omega), h.word i (by omega), h.next i hi]

theorem Chain.header (h : m.Chain a nodes headers n) {i : Nat} (hi : i < n) :
    m.header a i = headers i := by
  rw [Ram.header, h.node i hi, h.word i hi]

theorem Chain.hasNode (h : m.Chain a nodes headers n) {i : Nat} (hi : i < n) : m.HasNode a i := by
  obtain ⟨hr, hw⟩ := h.inMemory i hi
  refine ⟨by rwa [h.node i hi], fun x hx => ?_⟩
  obtain ⟨j, hj, rfl⟩ := List.mem_map.1 hx
  rw [nodeWords, h.header hi, List.mem_range] at hj
  rw [h.node i hi]
  exact hw j hj

/-- The words of the nodes are as many as the headers say. -/
theorem Chain.length_payloads (h : m.Chain a nodes headers n) : ∀ k ≤ n,
    (m.payloads a k).length = ((List.range k).map fun i => (headers i >>> 24).toNat).sum
  | 0, _ => rfl
  | k + 1, hk => by
      rw [payloads_succ, List.length_append, length_payload, nodeWords, h.header hk,
        h.length_payloads k (by omega), List.range_succ, List.map_append, List.sum_append]
      simp

end Ram

/-- The drawing port takes every word. -/
theorem Sink.writeAll_ok : ∀ (ws : List UInt32) (b : Bus Sink),
    DataPort.graphics.writeAll ws b = .ok () { b with board := ⟨b.board.words + ws.length⟩ }
  | [], _ => rfl
  | _ :: ws, b => Op.bind_eq_ok.2 ⟨(), { b with board := ⟨b.board.words + 1⟩ }, rfl, by
      rw [Sink.writeAll_ok ws, List.length_cons, Nat.add_comm ws.length, ← Nat.add_assoc]⟩

theorem Ram.Chain.walkable {b : Bus Sink} {a : UInt32} {nodes headers : Nat → UInt32} {n : Nat}
    (h : b.ram.Chain a nodes headers n) (hb : b.exception = false) :
    Channel.Walkable b a n { b with board := ⟨b.board.words + (b.ram.payloads a n).length⟩ } where
  down := hb
  inMemory i hi := h.hasNode hi
  unended i hi := by
    rw [Ram.ends, h.header (by omega)]
    exact h.unended i hi
  taken := Sink.writeAll_ok _ b

/-! ### Channels at rest -/

namespace Channel

/-- No transfer is under way, and none waits for a request. -/
structure Rests (c : Channel) : Prop where
  running : c.running = false
  active : c.active = false
  startBusy : c.control.has .startBusy = false

theorem rests_completed (p : Peer) (c : Channel) : (completed p c).Rests :=
  ⟨rfl, rfl, by simp [completed]⟩

section Build

variable {s : Stage (Bus Sink)} {h : UInt32} {n j : Nat}

/-- With the exception flag down an entry takes a cycle, and the flag stays down. -/
theorem writeEntry_down (hb : s.bus.exception = false)
    (hr : regionOf s.channel.address = .ram) (ha : Width.word.aligned s.channel.address = true) :
    ∃ t, writeEntry j s = .ok true t ∧ t.bus.exception = false ∧
      t.bus.pendingCycles = s.bus.pendingCycles + 1 := by
  have hw := Bus.write_ram ha hr (if j = 0 then endMark else below s.channel.address) s.bus
  have hx : (Attempt.entry j).access .orderingTable s = _ :=
    Op.bind_eq_ok.2 ⟨_, _, rfl, Op.bind_eq_ok.2 ⟨(), _, Stage.onBus_eq_ok.2 ⟨_, hw, rfl⟩, rfl⟩⟩
  exact ⟨_, ((Attempt.entry j).perform_of_access hx).trans (if_neg (ne_true_of_eq_false hb)), rfl,
    rfl⟩

/-- **With the flag down the rest of a table is built**, in a cycle for every entry. -/
theorem fillTable_down (hn : n ≤ 0x10000) (hm : ∀ i < n, regionOf (entryAddress h i) = .ram) :
    ∀ (r : Nat) {s : Stage (Bus Sink)} {j : Nat}, AtEntry h n j s.channel s.bus.ram → r + j = n →
      s.bus.exception = false →
        ∃ t, fillTable .orderingTable r s = .ok .completed t ∧ Filled t.bus.ram h n n ∧
          t.channel.Rests ∧ t.bus.exception = false ∧
          t.bus.pendingCycles = s.bus.pendingCycles + r
  | 0, s, j, hs, hj, hb => by
      obtain rfl : j = n := by omega
      exact ⟨_, rfl, hs.filled, rests_completed _ _, hb, rfl⟩
  | r + 1, s, j, hs, hj, hb => by
      have hj' := hm j (by omega)
      obtain ⟨t, ht, hd, hc⟩ := writeEntry_down (j := r) hb (by rw [hs.address]; exact hj')
        (by rw [hs.address]; exact aligned_entryAddress h j)
      obtain ⟨u, hu, hk⟩ | ⟨u, hu, -⟩ := writeEntry_writes hs hj hn hj'
      · obtain rfl : u = t := by
          rw [ht] at hu
          cases hu
          rfl
        obtain ⟨v, hv, hf, hrest, hd', hc'⟩ := fillTable_down hn hm r hk (by omega) hd
        refine ⟨v, ?_, hf, hrest, hd', by omega⟩
        rw [fillTable, Op.bind_apply, ht]
        exact hv
      · rw [ht] at hu
        cases hu

end Build

end Channel

namespace Frames

open Channel

/-! ### The table in memory -/

/-- The address of a slot, counted from the head. -/
def slot (i : Nat) : UInt32 := entryAddress tableHead i

/-- The table as the engine clears it. -/
def Cleared (m : Ram) : Prop := Filled m tableHead slots slots

/-- The slots down to the middle one link one to the next, the middle one links to the packet, and
the packet links to `next`. -/
structure Hooked (m : Ram) (next : UInt32) : Prop where
  upper : ∀ i < 7, m.word (slot i) = slot (i + 1)
  middle : m.word (slot 7) = packetBase
  header : m.word packetBase = UInt32.ofNat packet.length <<< 24 ||| next

/-- The packet links to what the middle slot did. -/
structure Linked (m : Ram) : Prop extends Hooked m (slot 8) where
  lower : ∀ i < slots, 8 ≤ i → m.word (slot i) = tableEntry tableHead slots i

/-- The packet links to itself. -/
def Looped (m : Ram) : Prop := Hooked m packetBase

/-- Where the nodes of the linked table stand. -/
def linkedNode (i : Nat) : UInt32 :=
  if i < 8 then slot i else if i = 8 then packetBase else slot (i - 1)

def linkedHeader (i : Nat) : UInt32 :=
  if i < 7 then slot (i + 1) else if i = 7 then packetBase
  else if i = 8 then UInt32.ofNat packet.length <<< 24 ||| slot 8
  else tableEntry tableHead slots (i - 1)

theorem Linked.chain {m : Ram} (h : Linked m) :
    m.Chain tableHead linkedNode linkedHeader (slots + 1) where
  first := by decide
  word i hi := by
    rw [linkedNode, linkedHeader]
    by_cases h7 : i < 7
    · rw [if_pos (by omega), if_pos h7, h.upper i h7]
    · obtain rfl | rfl | h9 : i = 7 ∨ i = 8 ∨ 9 ≤ i := by omega
      · exact h.middle
      · exact h.header
      · rw [if_neg (by omega), if_neg (by omega), if_neg h7, if_neg (by omega), if_neg (by omega)]
        exact h.lower (i - 1) (by omega) (by omega)
  next i hi := by
    have hn : ∀ i < slots, linkedHeader i &&& wordAddressMask = linkedNode (i + 1) := by decide
    exact hn i (Nat.lt_of_succ_lt_succ hi)
  inMemory := by decide
  unended i hi := by
    have he : ∀ i < slots, bit (linkedHeader i) 23 = false := by decide
    exact he i (Nat.lt_of_succ_lt_succ hi)

/-- Where the nodes of the looped table stand. -/
def loopedNode (i : Nat) : UInt32 := if i < 8 then slot i else packetBase

def loopedHeader (i : Nat) : UInt32 :=
  if i < 7 then slot (i + 1) else if i = 7 then packetBase
  else UInt32.ofNat packet.length <<< 24 ||| packetBase

theorem Looped.chain {m : Ram} (h : Looped m) (n : Nat) :
    m.Chain tableHead loopedNode loopedHeader n := by
  have node_eq : ∀ i, 8 ≤ i → loopedNode i = packetBase := fun i hi => if_neg (by omega)
  have header_eq : ∀ i, 8 ≤ i →
      loopedHeader i = UInt32.ofNat packet.length <<< 24 ||| packetBase := fun i hi => by
    rw [loopedHeader, if_neg (by omega), if_neg (by omega)]
  have hnext : ∀ i < 8, loopedHeader i &&& wordAddressMask = loopedNode (i + 1) := by decide
  have hmem : ∀ i < 9, regionOf (loopedNode i) = .ram ∧
      ∀ j < (loopedHeader i >>> 24).toNat, regionOf (along 4 (loopedNode i) (j + 1)) = .ram := by
    decide
  have hend : ∀ i < 9, bit (loopedHeader i) 23 = false := by decide
  refine ⟨by decide, fun i _ => ?_, fun i _ => ?_, fun i _ => ?_, fun i _ => ?_⟩ <;>
    obtain hi | hi := Nat.lt_or_ge i 8
  · rw [loopedNode, if_pos hi, loopedHeader]
    obtain h7 | rfl : i < 7 ∨ i = 7 := by omega
    · rw [if_pos h7, h.upper i h7]
    · exact h.middle
  · rw [node_eq i hi, header_eq i hi, h.header]
  · exact hnext i hi
  · rw [header_eq i hi, node_eq (i + 1) (by omega)]
    decide
  · exact hmem i (by omega)
  · rw [node_eq i hi, header_eq i hi]
    exact hmem 8 (by decide)
  · exact hend i (by omega)
  · rw [header_eq i hi]
    exact hend 8 (by decide)

/-! ### The packet is put in -/

/-- Memory after words are stored one behind the other. -/
def stored (a : UInt32) : List UInt32 → Ram → Ram
  | [], m => m
  | w :: ws, m => stored (a + 4) ws (m.write .word (physical a) w)

/-- Memory after the packet is put behind the middle slot. -/
def hooked (m : Ram) : Ram :=
  (stored (packetBase + 4) packet (m.write .word (physical packetBase)
    (UInt32.ofNat packet.length <<< 24 ||| m.word middleSlot &&& 0xFFFFFF))).write .word
      (physical middleSlot) packetBase

variable {m : Ram}

/-- Where the words are stored. -/
def packetPlaces : List Nat :=
  [packetBase, packetBase + 4, packetBase + 4 + 4, packetBase + 4 + 4 + 4, middleSlot].map fun a =>
    Ram.offset (physical a)

/-- Words elsewhere are left alone. -/
theorem word_hooked {x : UInt32} (hx : Width.word.aligned (physical x) = true)
    (hne : Ram.offset (physical x) ∉ packetPlaces) :
    (hooked m).word x = m.word x := by
  simp only [packetPlaces, List.map_cons, List.mem_cons, not_or] at hne
  obtain ⟨h0, h1, h2, h3, h4, -⟩ := hne
  simp only [hooked, stored, packet]
  rw [Ram.word_write _ (by decide) hx, if_neg h4, Ram.word_write _ (by decide) hx, if_neg h3,
    Ram.word_write _ (by decide) hx, if_neg h2, Ram.word_write _ (by decide) hx, if_neg h1,
    Ram.word_write _ (by decide) hx, if_neg h0]

theorem word_hooked_slot {i : Nat} (hi : i < slots) (h7 : i ≠ 7) :
    (hooked m).word (slot i) = m.word (slot i) := by
  have hx : ∀ i < slots, Width.word.aligned (physical (slot i)) = true := by decide
  have hne : ∀ i < slots, i ≠ 7 → Ram.offset (physical (slot i)) ∉ packetPlaces := by decide
  exact word_hooked (hx i hi) (hne i hi h7)

/-- **The packet links to what the middle slot did.** -/
theorem hooked_hooked {next : UInt32} (hu : ∀ i < 7, m.word (slot i) = slot (i + 1))
    (hs : m.word (slot 7) = next) (hn : next &&& 0xFFFFFF = next) : Hooked (hooked m) next where
  upper i hi := by
    rw [word_hooked_slot (Nat.lt_trans hi (by decide)) (Nat.ne_of_lt hi), hu i hi]
  middle := by
    rw [hooked, Ram.word_write _ (by decide) (by decide), if_pos (by decide)]
  header := by
    have hm : m.word middleSlot = next := hs
    simp only [hooked, stored, packet]
    rw [Ram.word_write _ (by decide) (by decide), if_neg (by decide),
      Ram.word_write _ (by decide) (by decide), if_neg (by decide),
      Ram.word_write _ (by decide) (by decide), if_neg (by decide),
      Ram.word_write _ (by decide) (by decide), if_neg (by decide),
      Ram.word_write _ (by decide) (by decide), if_pos (by decide), hm, hn]

/-- A cleared table is linked, and only once. -/
theorem Cleared.hooked (h : Cleared m) : Linked (hooked m) where
  toHooked := by
    have he : ∀ i < 8, tableEntry tableHead slots i = slot (i + 1) := by decide
    refine hooked_hooked (fun i hi => ?_) ?_ (by decide)
    · exact (h i (Nat.lt_trans hi (by decide))).trans (he i (Nat.lt_succ_of_lt hi))
    · exact (h 7 (by decide)).trans (he 7 (by decide))
  lower i hi h8 := (word_hooked_slot hi (by omega)).trans (h i hi)

/-- A packet that is put in once more links to itself. -/
theorem Linked.hooked (h : Linked m) : Looped (hooked m) :=
  hooked_hooked h.upper h.middle (by decide)

/-! ### Steps -/

section Steps

variable {c d : Channel} {b : Bus Sink} (controller : Controller)

/-- **A table is cleared**, in a cycle for every slot. -/
theorem step_clears (h : arm .orderingTable false c = .ok () d) (ha : c.base = tableHead)
    (hw : c.blocks.wordCount = slots) (hb : b.exception = false) :
    ∃ t, step .orderingTable ⟨d, controller, b⟩ = .ok .completed t ∧ Cleared t.bus.ram ∧
      t.channel.Rests ∧ t.bus.exception = false ∧
      t.bus.pendingCycles = b.pendingCycles + slots := by
  obtain ⟨-, rfl⟩ := arm_eq_ok h
  have hs : AtEntry tableHead slots 0 (c.load .orderingTable).activate b.ram := by
    rw [← ha, ← hw]
    exact ⟨(along_zero (word_and_le _)).symm, rfl, nofun⟩
  have hm : ∀ i < slots, regionOf (entryAddress tableHead i) = .ram := by decide
  rw [step_table rfl]
  have hwl : (c.load .orderingTable).activate.wordsLeft = slots := hs.wordsLeft
  dsimp only
  rw [hwl]
  exact fillTable_down (by decide) hm slots (s := ⟨_, _, _⟩) hs rfl hb

/-- **A table with the packet in it is sent**, in a cycle for every slot, for the header of the
packet and for each of its words. -/
theorem step_sends (h : arm .graphics false c = .ok () d) (ha : c.base = tableHead)
    (hl : c.control.syncMode = .linkedList) (hm : Linked b.ram) (hb : b.exception = false) :
    ∃ t, step .graphics ⟨d, controller, b⟩ = .ok .completed t ∧ t.bus.ram = b.ram ∧
      t.channel.Rests ∧ t.bus.exception = false ∧
      t.bus.pendingCycles = b.pendingCycles + (slots + 1 + packet.length) := by
  have hchain := hm.chain
  rw [← ha] at hchain
  have hw := hchain.walkable hb
  have he : b.ram.ends c.base slots = true := by
    rw [Ram.ends, hchain.header (by decide)]
    decide
  have hs := hw.completes controller [] hl h (by decide) he
  have hp : (b.ram.payloads c.base (slots + 1)).length = packet.length := by
    rw [hchain.length_payloads _ (Nat.le_refl _)]
    decide
  refine ⟨_, step_eq_ok.2 ⟨_, hs, rfl⟩, rfl, rests_completed _ _, hb, ?_⟩
  show b.pendingCycles + (slots + 1 + (b.ram.payloads c.base (slots + 1)).length) = _
  rw [hp]

/-- **A packet that is linked to itself** is sent up to the limit, and then given up. -/
theorem step_loops (h : arm .graphics false c = .ok () d) (ha : c.base = tableHead)
    (hl : c.control.syncMode = .linkedList) (hm : Looped b.ram) (hb : b.exception = false) :
    ∃ t, step .graphics ⟨d, controller, b⟩ = .error (overflow packetBase) t := by
  have hchain := hm.chain (nodeLimit + 1)
  rw [← ha] at hchain
  have he : ∀ i < nodeLimit, b.ram.ends c.base i = false := fun i hi => by
    rw [Ram.ends, hchain.header (by omega)]
    exact hchain.unended i (by omega)
  have hchain' := hm.chain nodeLimit
  rw [← ha] at hchain'
  have hs := (hchain'.walkable hb).overflows controller [] hl h he
  rw [hchain.node nodeLimit (by omega)] at hs
  exact ⟨_, step_eq_error.2 ⟨_, hs, rfl⟩⟩

end Steps

end Frames

end DmaMachine
