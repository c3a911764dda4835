import DmaMachine.Proofs.Channel.Blocks
import DmaMachine.Proofs.Channel.Lists

/-!
# Ordering tables are lists

An ordering table is built downwards from its head: each entry holds the address of the one below
it, and the lowest holds the end mark.  Read as a list, every entry is a node without words.

A step that builds a table may be stopped by a bus error and resumed.  The entry at hand is then
written once more, with the same word.

* `fillTable_fills`: **what a step leaves of a table**, from whatever entry it goes on.
* `Building.atEntry`: what is true of a table that is being built.
* `Filled.node`, `Filled.ends`: the list that a table is.
* `table_walked_iff`: **a table is walked from its head to its end mark**, exactly when the step
  finds the exception flag down.
-/

namespace DmaMachine

/-! ### Tables in memory -/

/-- The address of entry `i` of the ordering table that is built from `h`. -/
def entryAddress (h : UInt32) (i : Nat) : UInt32 := along (-4) (h &&& wordAddressMask) i

/-- Entry `i` of the ordering table of `n` entries that is built from `h`. -/
def tableEntry (h : UInt32) (n i : Nat) : UInt32 :=
  if i + 1 = n then Channel.endMark else entryAddress h (i + 1)

/-- The first `j` entries of the table are in memory. -/
def Filled (m : Ram) (h : UInt32) (n j : Nat) : Prop :=
  ∀ i < j, m.word (entryAddress h i) = tableEntry h n i

section Entries

variable {m : Ram} {h : UInt32} {n i j : Nat}

theorem entryAddress_le (h : UInt32) (i : Nat) : entryAddress h i ≤ addressMask := along_le _ _ _

theorem aligned_entryAddress (h : UInt32) (i : Nat) :
    Width.word.aligned (entryAddress h i) = true :=
  aligned_along (by decide) (aligned_wordAddress h) i

theorem below_entryAddress (h : UInt32) (i : Nat) :
    Channel.below (entryAddress h i) = entryAddress h (i + 1) := by
  have hb : Channel.below (entryAddress h i) = along (-4) (entryAddress h i) 1 := by
    rw [Channel.below, along]
    simp [UInt32.sub_eq_add_neg]
  rw [hb]
  exact along_along i 1

theorem tableEntry_le (h : UInt32) (n i : Nat) : tableEntry h n i ≤ addressMask := by
  rw [tableEntry]
  split
  · decide
  · exact entryAddress_le h _

/-- A table is too short to come around to an entry of its own. -/
theorem offset_entryAddress_ne (h : UInt32) (hij : i < j) (hj : j < 0x10000) :
    Ram.offset (physical (entryAddress h i)) ≠ Ram.offset (physical (entryAddress h j)) :=
  Ram.offset_along_ne (.inr rfl) _ hij (Nat.lt_trans hj (by decide))

/-- **One more entry** stands in memory once it is written. -/
theorem Filled.write (hf : Filled m h n j) (hj : j < 0x10000) :
    Filled (m.write .word (physical (entryAddress h j)) (tableEntry h n j)) h n (j + 1) := by
  have ha : ∀ i, Width.word.aligned (physical (entryAddress h i)) = true := fun i => by
    rw [physical_of_le (entryAddress_le h i)]
    exact aligned_entryAddress h i
  intro i hi
  rw [Ram.word_write m (ha j) (ha i)]
  by_cases hij : i = j
  · rw [hij, if_pos rfl]
  · rw [if_neg (offset_entryAddress_ne h (by omega) hj)]
    exact hf i (by omega)

/-! ### The list that a table is -/

/-- **The nodes of the list** are the entries of the table. -/
theorem Filled.node (hf : Filled m h n n) : ∀ i < n, m.node h i = entryAddress h i
  | 0, _ => (along_zero (Channel.word_and_le h)).symm
  | i + 1, hi => by
      rw [Ram.node, hf.node i (by omega), hf i (by omega), tableEntry, if_neg (by omega),
        and_wordAddressMask (aligned_entryAddress h _), and_addressMask_of_le (entryAddress_le h _)]

theorem Filled.header (hf : Filled m h n n) (hi : i < n) : m.header h i = tableEntry h n i := by
  rw [Ram.header, hf.node i hi, hf i hi]

/-- No entry has words. -/
theorem Filled.nodeWords (hf : Filled m h n n) (hi : i < n) : m.nodeWords h i = 0 := by
  have hl : (tableEntry h n i).toNat ≤ 0xFFFFFF := tableEntry_le h n i
  rw [Ram.nodeWords, hf.header hi, UInt32.toNat_shiftRight, Nat.shiftRight_eq_div_pow]
  exact Nat.div_eq_of_lt (by show _ < 2 ^ 24; omega)

theorem Filled.wordAddresses (hf : Filled m h n n) (hi : i < n) : m.wordAddresses h i = [] := by
  rw [Ram.wordAddresses, hf.nodeWords hi]
  rfl

theorem Filled.payloads (hf : Filled m h n n) {k : Nat} (hk : k ≤ n) : m.payloads h k = [] := by
  refine List.flatMap_eq_nil_iff.2 fun i hi => ?_
  rw [Ram.payload, hf.wordAddresses (Nat.lt_of_lt_of_le (List.mem_range.1 hi) hk)]
  rfl

/-- **The end mark ends the list**, and no address in memory does. -/
theorem Filled.ends (hf : Filled m h n n) (hr : ∀ i < n, regionOf (entryAddress h i) = .ram)
    (hi : i < n) : m.ends h i = decide (i + 1 = n) := by
  rw [Ram.ends, hf.header hi, tableEntry]
  by_cases hl : i + 1 = n
  · rw [if_pos hl]
    simp [hl, show bit Channel.endMark 23 = true by decide]
  · -- RAM lies below the address whose only bit is the end mark's.
    have hm := (regionOf_eq_ram_iff (entryAddress_le h (i + 1))).1 (hr (i + 1) (by omega))
    rw [if_neg hl, decide_eq_false hl]
    exact Nat.testBit_lt_two_pow hm

theorem Filled.hasNode (hf : Filled m h n n) (hr : ∀ i < n, regionOf (entryAddress h i) = .ram)
    (hi : i < n) : m.HasNode h i := by
  refine ⟨?_, ?_⟩
  · rw [hf.node i hi]
    exact hr i hi
  · rw [hf.wordAddresses hi]
    exact nofun

end Entries

namespace Channel

/-- The accesses that read the first `k` entries of a table, and nothing else. -/
def tableTouches (h : UInt32) (n k : Nat) : List Touch :=
  (List.range k).map fun i => ⟨false, .word, entryAddress h i, tableEntry h n i⟩

theorem listTouches_eq {m : Ram} {h : UInt32} {n k : Nat} (hf : Filled m h n n) (hk : k ≤ n) :
    listTouches m h k = tableTouches h n k := by
  rw [listTouches, tableTouches, List.map_eq_flatMap]
  refine List.flatMap_congr fun i hi => ?_
  have hi : i < n := Nat.lt_of_lt_of_le (List.mem_range.1 hi) hk
  rw [nodeTouches, hf.wordAddresses hi, hf.node i hi, hf.header hi]
  rfl

/-! ### Building a table -/

/-- Entry `j` of the table is at hand, and those above it are in memory. -/
structure AtEntry (h : UInt32) (n j : Nat) (c : Channel) (m : Ram) : Prop where
  address : c.address = entryAddress h j
  wordsLeft : c.wordsLeft + j = n
  filled : Filled m h n j

section Build

variable {δ : Type} [Board δ] {s t : Stage (Bus δ)} {h : UInt32} {n j : Nat}

/-- What is written at an entry above `r` more is that entry of the table. -/
theorem link_eq_tableEntry {r : Nat} (hr : r + 1 + j = n) :
    (if r = 0 then endMark else below (entryAddress h j)) = tableEntry h n j := by
  rw [below_entryAddress, tableEntry]
  exact if_congr (by omega) rfl rfl

/-- **An entry is written**, and the channel goes on to the one below it or stops. -/
theorem writeEntry_writes (hs : AtEntry h n j s.channel s.bus.ram) {r : Nat} (hr : r + 1 + j = n)
    (hn : n ≤ 0x10000) (hm : regionOf (entryAddress h j) = .ram) :
    (∃ t, writeEntry r s = .ok true t ∧ AtEntry h n (j + 1) t.channel t.bus.ram) ∨
      ∃ t, writeEntry r s = .ok false t ∧ AtEntry h n j t.channel t.bus.ram := by
  have hw : Master.write .word s.channel.address
      (if r = 0 then endMark else below s.channel.address) s.bus = .ok () { s.bus with
        ram := s.bus.ram.write .word (physical (entryAddress h j)) (tableEntry h n j) } := by
    rw [hs.address, link_eq_tableEntry hr]
    exact Bus.write_ram (aligned_entryAddress h j) hm _ s.bus
  have hf := hs.filled.write (show j < 0x10000 by omega)
  have he := (Attempt.entry r).perform_of_access
    (Attempt.access_entry (p := .orderingTable) hw)
  -- The entry is in memory either way.  Under a raised flag the channel stays at it.
  cases hb : s.bus.exception with
  | true =>
      exact .inr ⟨_, he.trans (if_pos hb), hs.address, hs.wordsLeft, fun i hi => hf i (by omega)⟩
  | false =>
      refine .inl ⟨_, he.trans (if_neg (ne_true_of_eq_false hb)), ?_, ?_, hf⟩
      · show below s.channel.address = _
        rw [hs.address, below_entryAddress]
      · show r + (j + 1) = n
        omega

/-- **What a step leaves of a table**: all of it, or the rest from some entry on. -/
theorem fillTable_fills (hn : n ≤ 0x10000) (hm : ∀ i < n, regionOf (entryAddress h i) = .ram) :
    ∀ (r : Nat) {s : Stage (Bus δ)} {j : Nat}, AtEntry h n j s.channel s.bus.ram → r + j = n →
      (∃ t, fillTable .orderingTable r s = .ok .completed t ∧ Filled t.bus.ram h n n) ∨
        ∃ t i, fillTable .orderingTable r s = .ok .faulted t ∧ AtEntry h n i t.channel t.bus.ram
  | 0, s, j, hs, hj => by
      obtain rfl : j = n := by omega
      exact .inl ⟨_, rfl, hs.filled⟩
  | r + 1, s, j, hs, hj => by
      rw [fillTable, Op.bind_apply]
      obtain ⟨t, ht, hk⟩ | ⟨t, ht, hk⟩ := writeEntry_writes hs hj hn (hm j (by omega)) <;> rw [ht]
      · exact fillTable_fills hn hm r hk (by omega)
      · exact .inr ⟨t, j, rfl, hk⟩

theorem step_table {β : Type} [Master β] {s : Stage β} (ha : s.channel.active = true) :
    step .orderingTable s = fillTable .orderingTable s.channel.wordsLeft s := by
  show (if !s.channel.active then _ else _ : Op (Stage β) Status) s = _
  rw [ha, if_neg (by simp), if_pos rfl]
  rfl

/-- The second channel is about to build what is left of the table that the first one is programmed
for, over the given memory.  A start brings it there, and after every bus error somebody makes it
active again and may have programmed the registers anew. -/
inductive Building (c : Channel) : Channel → Ram → Prop where
  | start {d : Channel} (m : Ram) (h : arm .orderingTable false c = .ok () d) : Building c d m
  | resumed {d : Channel} {controller : Controller} {b : Bus δ} {t : Stage (Bus δ)}
      {base : UInt32} {blocks : Blocks} {control : Control} (h : Building c d b.ram)
      (ht : step .orderingTable ⟨d, controller, b⟩ = .ok .faulted t) :
      Building c { t.channel with base, blocks, control }.activate t.bus.ram

variable {c d : Channel} {m : Ram}

/-- What a step comes to that builds a table. -/
theorem step_fills (ha : s.channel.active = true) (hn : n ≤ 0x10000)
    (hm : ∀ i < n, regionOf (entryAddress h i) = .ram)
    (hs : AtEntry h n j s.channel s.bus.ram) :
    (∃ t, step .orderingTable s = .ok .completed t ∧ Filled t.bus.ram h n n) ∨
      ∃ t i, step .orderingTable s = .ok .faulted t ∧ AtEntry h n i t.channel t.bus.ram := by
  rw [step_table ha]
  exact fillTable_fills hn hm _ hs hs.wordsLeft

/-- **A table that is being built** is in memory down to the entry at hand. -/
theorem Building.atEntry
    (hm : ∀ i < c.blocks.wordCount, regionOf (entryAddress c.base i) = .ram)
    (h : Building (δ := δ) c d m) :
    d.active = true ∧ ∃ j, AtEntry c.base c.blocks.wordCount j d m := by
  induction h with
  | @start d m h =>
      obtain ⟨-, rfl⟩ := arm_eq_ok h
      exact ⟨rfl, 0, (along_zero (word_and_le _)).symm, rfl, nofun⟩
  | resumed h ht ih =>
      obtain ⟨ha, j, hj⟩ := ih
      obtain ⟨u, hu, -⟩ | ⟨u, i, hu, hi⟩ :=
        step_fills (s := ⟨_, _, _⟩) ha c.blocks.blockSize_le.1 hm hj
      · rw [ht] at hu
        cases hu
      · rw [ht] at hu
        cases hu
        exact ⟨rfl, i, hi.address, hi.wordsLeft, hi.filled⟩

/-- **A table is in memory** once it is built. -/
theorem Building.filled
    (hm : ∀ i < c.blocks.wordCount, regionOf (entryAddress c.base i) = .ram)
    {controller : Controller} {b : Bus δ} (h : Building (δ := δ) c d b.ram)
    (ht : step .orderingTable ⟨d, controller, b⟩ = .ok .completed t) :
    Filled t.bus.ram c.base c.blocks.wordCount c.blocks.wordCount := by
  obtain ⟨ha, j, hj⟩ := h.atEntry hm
  obtain ⟨u, hu, hf⟩ | ⟨u, i, hu, -⟩ :=
    step_fills (s := ⟨d, controller, b⟩) ha c.blocks.blockSize_le.1 hm hj
  · rw [ht] at hu
    cases hu
    exact hf
  · rw [ht] at hu
    cases hu

end Build

/-! ### Walking a table -/

section Walk

variable {δ : Type} [Board δ] {c d e : Channel} {h : UInt32} {n : Nat}

/-- A step of a list walks the table: it reads the entries from the head to the end mark, or as many
as a list may have nodes, and puts nothing into the port. -/
structure WalksTable (h : UInt32) (n : Nat) (s : Stage (Bus δ)) : Prop where
  reads : accesses .graphics s = tableTouches h n (min n nodeLimit)
  completes : n ≤ nodeLimit → ∃ t, step .graphics s = .ok .completed t ∧
    t.bus.pendingCycles = s.bus.pendingCycles + n ∧ t.channel.nodeCount = n ∧
      t.channel.read .base = endMark
  overflows : nodeLimit < n → ∃ x t, step .graphics s = .error (overflow x) t

theorem walkable_of_filled {b : Bus δ} {k : Nat} (hf : Filled b.ram h n n)
    (hr : ∀ i < n, regionOf (entryAddress h i) = .ram) (hb : b.exception = false) (hk : k ≤ n) :
    Walkable b h k b where
  down := hb
  inMemory i hi := hf.hasNode hr (by omega)
  unended i hi := by
    rw [hf.ends hr (by omega)]
    exact decide_eq_false (by omega)
  taken := by
    rw [hf.payloads hk]
    rfl

/-- **A table in memory is walked**, with the flag down. -/
theorem walks_of_filled {b : Bus δ} (hf : Filled b.ram c.base n n) (hn : 0 < n)
    (hr : ∀ i < n, regionOf (entryAddress c.base i) = .ram) (hb : b.exception = false)
    (hl : c.control.syncMode = .linkedList) (h : arm .graphics false c = .ok () d)
    (controller : Controller) : WalksTable c.base n ⟨d, controller, b⟩ := by
  by_cases hle : n ≤ nodeLimit
  · obtain ⟨k, rfl⟩ : ∃ k, n = k + 1 := ⟨n - 1, by omega⟩
    have he : b.ram.ends c.base k = true := by
      rw [hf.ends hr (by omega)]
      exact decide_eq_true rfl
    have ht := (walkable_of_filled hf hr hb (Nat.le_refl _)).completes controller [] hl h hle he
    have hs := ((armed_list hl h).2.2.2 b.ram).afterNodes (k + 1)
    refine ⟨?_, fun _ => ⟨_, step_eq_ok.2 ⟨_, ht, rfl⟩, ?_, hs.nodeCount, ?_⟩, fun hlt => by omega⟩
    · rw [Nat.min_eq_left hle, ← listTouches_eq hf (Nat.le_refl _)]
      exact (accesses_of_step (s := ⟨d, controller, b⟩) ht).trans (List.nil_append _)
    · show b.pendingCycles + (k + 1 + (b.ram.payloads c.base (k + 1)).length) = _
      rw [hf.payloads (Nat.le_refl _)]
      rfl
    · have hm : (afterNodes b.ram c.base d (k + 1)).mode .graphics = .linkedList := hs.syncMode
      show (if (afterNodes b.ram c.base d (k + 1)).mode .graphics = .slice then _ else _) = _
      rw [hm, if_neg nofun]
      show b.ram.header c.base k &&& addressMask = _
      rw [hf.header (by omega), tableEntry, if_pos rfl]
      decide
  · have he : ∀ i < nodeLimit, b.ram.ends c.base i = false := fun i hi => by
      rw [hf.ends hr (by omega)]
      exact decide_eq_false (by omega)
    have ht := (walkable_of_filled hf hr hb (Nat.le_of_not_le hle)).overflows controller [] hl h he
    refine ⟨?_, fun hle' => absurd hle' hle, fun _ => ⟨_, _, step_eq_error.2 ⟨_, ht, rfl⟩⟩⟩
    rw [Nat.min_eq_right (Nat.le_of_not_le hle), ← listTouches_eq hf (Nat.le_of_not_le hle)]
    exact (accesses_of_step (s := ⟨d, controller, b⟩) ht).trans (List.nil_append _)

/-- **A table that was built is walked as a list from its head to its end mark**, exactly when the
exception flag is down.  Somebody else may have raised it, and the walk then stops at the head. -/
theorem table_walked_iff
    (hm : ∀ i < c.blocks.wordCount, regionOf (entryAddress c.base i) = .ram)
    {controller : Controller} {b : Bus δ} {t : Stage (Bus δ)} (hc : Building (δ := δ) c e b.ram)
    (ht : step .orderingTable ⟨e, controller, b⟩ = .ok .completed t)
    {c' d : Channel} (hl : c'.control.syncMode = .linkedList) (ha : c'.base = c.base)
    (h : arm .graphics false c' = .ok () d) (controller' : Controller) (b' : Bus δ)
    (hb : b'.ram = t.bus.ram) :
    WalksTable c.base c.blocks.wordCount ⟨d, controller', b'⟩ ↔ b'.exception = false := by
  have hn := c.blocks.wordCount_pos
  have hf := hc.filled hm ht
  rw [← hb, ← ha] at hf
  rw [← ha] at hm ⊢
  refine ⟨fun hw => ?_, fun hd => walks_of_filled hf hn hm hd hl h controller'⟩
  by_contra hu
  obtain ⟨u, hs⟩ := step_raised controller' hl h (eq_true_of_ne_false hu) (hf.hasNode hm hn).1
  by_cases hle : c.blocks.wordCount ≤ nodeLimit
  · obtain ⟨v, hv, -⟩ := hw.completes hle
    rw [hs] at hv
    cases hv
  · obtain ⟨x, v, hv⟩ := hw.overflows (Nat.lt_of_not_le hle)
    rw [hs] at hv
    cases hv

/-- A channel programmed for a table of two entries, and one for the list that this is. -/
def twoEntries : Channel := { base := 0x104, blocks := ⟨2⟩ }

def listAt104 : Channel := { base := 0x104, control := ⟨0x401⟩ }

theorem twoEntries_walked :
    ∃ t, step .orderingTable ⟨(twoEntries.load .orderingTable).activate, {}, bareBus⟩ =
        .ok .completed t ∧
      WalksTable 0x104 2
        ⟨(listAt104.load .graphics).activate, {}, { bareBus with ram := t.bus.ram }⟩ := by
  obtain ⟨t, ht⟩ : ∃ t, step .orderingTable
      ⟨(twoEntries.load .orderingTable).activate, {}, bareBus⟩ = .ok .completed t := ⟨_, rfl⟩
  have hm : ∀ i < twoEntries.blocks.wordCount,
      regionOf (entryAddress twoEntries.base i) = .ram := by decide
  have hl : listAt104.control.syncMode = .linkedList := by decide
  exact ⟨t, ht, (table_walked_iff hm (.start _ rfl) ht hl rfl rfl {}
    { bareBus with ram := t.bus.ram } rfl).2 rfl⟩

end Walk

end Channel

end DmaMachine
