import DmaMachine.Proofs.Channel.Intact
import DmaMachine.Proofs.Channel.Tables
import DmaMachine.Proofs.Controller.Interrupts

/-!
# Ordering tables from end to end

A start of an ordering table is never refused, and one step builds the table: its entries stand one
below the other, around at the end of the 24 bits, and an entry without memory is a bus error, where
the table waits.

* `tableWords`, `tableWrites`: the first entries of a table, as words of memory and as accesses.
* `entryStage`: where a step has come to when it is at an entry; `fillTable_reach`: **it comes to
  every entry down to the first one without memory.**
* `table_end_to_end`: **what is in memory then, what was accessed, and how the step ends**, for
  every start of a channel that can be reached.
-/

namespace DmaMachine

/-! ### Entries that have memory -/

/-- The first `j` entries of the table, with their addresses. -/
def tableWords (h : UInt32) (n j : Nat) : List (UInt32 × UInt32) :=
  (List.range j).map fun i => (entryAddress h i, tableEntry h n i)

/-- The accesses that write the first `j` entries of the table. -/
def tableWrites (h : UInt32) (n j : Nat) : List Touch :=
  (List.range j).map fun i => ⟨true, .word, entryAddress h i, tableEntry h n i⟩

section Reach

variable {h : UInt32} {n j : Nat}

theorem unmapped_of_reach_lt (hr : ramReach n (entryAddress h) < n) :
    regionOf (entryAddress h (ramReach n (entryAddress h))) = .unmapped :=
  by_contra fun hm =>
    ne_ram_of_ramReach_lt hr (Channel.regionOf_of_le (entryAddress_le h _) hm)

theorem tableWords_succ (h : UInt32) (n j : Nat) :
    tableWords h n (j + 1) = tableWords h n j ++ [(entryAddress h j, tableEntry h n j)] := by
  rw [tableWords, List.range_succ, List.map_append]
  rfl

theorem tableWrites_succ (h : UInt32) (n j : Nat) :
    tableWrites h n (j + 1) =
      tableWrites h n j ++ [⟨true, .word, entryAddress h j, tableEntry h n j⟩] := by
  rw [tableWrites, List.range_succ, List.map_append]
  rfl

theorem physical_entryAddress (h : UInt32) (i : Nat) :
    physical (entryAddress h i) = entryAddress h i := physical_of_le (entryAddress_le h i)

theorem aligned_of_mem_tableWords {x : UInt32 × UInt32} (hx : x ∈ tableWords h n j) :
    Width.word.aligned (physical x.1) = true := by
  obtain ⟨i, -, rfl⟩ := List.mem_map.1 hx
  rw [physical_entryAddress]
  exact aligned_entryAddress h i

/-- **Entries that are stored** can be read back, -/
theorem filled_storeAll (hj : j ≤ 0x10000) (m : Ram) :
    Filled (Ram.storeAll (tableWords h n j) m) h n j := by
  intro i hi
  refine Ram.word_storeAll m (fun x => aligned_of_mem_tableWords) ?_
    (List.mem_map.2 ⟨i, List.mem_range.2 hi, rfl⟩)
  refine List.pairwise_map.2 (List.pairwise_lt_range.imp_of_mem fun _ hk hik => ?_)
  have hk := List.mem_range.1 hk
  exact offset_entryAddress_ne h hik (by omega)

/-- and no other byte of memory changes. -/
theorem byte_storeEntries (m : Ram) {a : UInt32}
    (ha : ∀ i < j, Ram.offset a / 4 ≠ Ram.offset (entryAddress h i) / 4) :
    (Ram.storeAll (tableWords h n j) m).byte a = m.byte a := by
  refine Ram.byte_storeAll m (fun x => aligned_of_mem_tableWords) fun x hx => ?_
  obtain ⟨i, hi, rfl⟩ := List.mem_map.1 hx
  rw [physical_entryAddress]
  exact ha i (List.mem_range.1 hi)

end Reach

namespace Channel

section Build

variable {δ : Type} [Board δ] {c : Channel} {h : UInt32} {n j r : Nat}

/-- The stage at entry `j` of the table, with those above it stored. -/
def entryStage (h : UInt32) (n : Nat) (c : Channel) (k : Controller) (b : Bus δ) (j : Nat) :
    Stage (Recorder (Bus δ)) :=
  ⟨{ c with address := entryAddress h j, wordsLeft := n - j }, k,
    ⟨(b.withRam (Ram.storeAll (tableWords h n j) b.ram)).charge j, tableWrites h n j⟩⟩

section Entry

variable (k : Controller) {b : Bus δ} (hb : b.exception = false) (hj : r + 1 + j = n)
include hb hj

/-- **An entry that has memory is written**, and the one below it is next. -/
theorem writeEntry_ram (hm : regionOf (entryAddress h j) = .ram) :
    writeEntry r (entryStage h n c k b j) = .ok true (entryStage h n c k b (j + 1)) := by
  have hwrite : Master.write .word (entryAddress h j) (tableEntry h n j)
      (entryStage h n c k b j).bus.bus =
        .ok () ((b.withRam (Ram.storeAll (tableWords h n (j + 1)) b.ram)).charge j) := by
    rw [tableWords_succ, Ram.storeAll_append]
    exact Bus.write_ram (aligned_entryAddress h j) hm _ _
  have hwrite := Recorder.write_recorded hwrite (tableWrites h n j)
  rw [← tableWrites_succ] at hwrite
  have ha := Attempt.access_entry (s := entryStage h n c k b j) (p := .orderingTable) (n := r)
    ((congrArg (Master.write .word _ · _) (link_eq_tableEntry hj)).trans hwrite)
  have he : writeEntry r (entryStage h n c k b j) = _ := Attempt.goes_through ha hb
  have hr : n - (j + 1) = r := by omega
  rw [he, entryStage, entryStage, hr, ← below_entryAddress]
  rfl

/-- **An entry without memory stops the channel**, for a cycle. -/
theorem writeEntry_unmapped (hm : regionOf (entryAddress h j) = .unmapped) :
    writeEntry r (entryStage h n c k b j) = .ok false
      ⟨(entryStage h n c k b j).channel.halted, k.signalBusError,
        ⟨{ (entryStage h n c k b j).bus.bus.charge 1 with
            lastFault := some (entryAddress h j) }, tableWrites h n (j + 1)⟩⟩ := by
  have hwrite : Master.write .word (entryAddress h j) (tableEntry h n j)
      (entryStage h n c k b j).bus.bus =
        .ok () ((entryStage h n c k b j).bus.bus.raise (entryAddress h j)) :=
    Bus.write_unmapped (aligned_entryAddress h j) hm _ _
  have hwrite := Recorder.write_recorded hwrite (tableWrites h n j)
  rw [← tableWrites_succ] at hwrite
  have ha := Attempt.access_entry (s := entryStage h n c k b j) (p := .orderingTable) (n := r)
    ((congrArg (Master.write .word _ · _) (link_eq_tableEntry hj)).trans hwrite)
  have he : writeEntry r (entryStage h n c k b j) = _ := (Attempt.entry r).perform_of_access ha
  rw [he]
  obtain ⟨ram, board, exception, lastFault, pendingCycles⟩ := b
  obtain rfl : exception = false := hb
  rfl

end Entry

/-- **The entries that have memory are filled in**, and the rest of the table is still to build. -/
theorem fillTable_reach (k : Controller) {b : Bus δ} (hb : b.exception = false) :
    ∀ {j : Nat}, j ≤ ramReach n (entryAddress h) →
      fillTable .orderingTable n (entryStage h n c k b 0) =
        fillTable .orderingTable (n - j) (entryStage h n c k b j)
  | 0, _ => rfl
  | j + 1, hj => by
      have hle := ramReach_le n (entryAddress h)
      have hr : n - j = (n - (j + 1)) + 1 := by omega
      rw [fillTable_reach k hb (Nat.le_of_succ_le hj), hr, fillTable, Op.bind_apply,
        writeEntry_ram k hb (by omega) (ram_of_lt_ramReach hj)]
      rfl

end Build

/-! ### The table from end to end -/

section Tables

variable {δ : Type} [Board δ] {c d : Channel} {b : Bus δ}

/-- How many entries of the table come before the first one without memory, if there is one. -/
def tableReach (c : Channel) : Nat := ramReach c.blocks.wordCount (entryAddress c.base)

/-- What a table that was built leaves behind. -/
structure TableCompleted (c : Channel) (b : Bus δ) (status : Status) (t : Stage (Bus δ)) :
    Prop where
  status : status = .completed
  cycles : t.bus.pendingCycles = b.pendingCycles + c.blocks.wordCount
  running : t.channel.running = false
  startBusy : t.channel.control.has .startBusy = false
  base : t.channel.read .base = c.read .base
  blocks : t.channel.read .blocks = c.read .blocks

/-- What a table leaves behind that came to the end of memory. -/
structure TableFaulted (c : Channel) (b : Bus δ) (status : Status) (t : Stage (Bus δ)) :
    Prop where
  status : status = .faulted
  wordsLeft : t.channel.wordsLeft = c.blocks.wordCount - c.tableReach
  address : t.channel.address = entryAddress c.base c.tableReach
  lastFault : t.bus.lastFault = some (entryAddress c.base c.tableReach)
  cycles : t.bus.pendingCycles = b.pendingCycles + (c.tableReach + 1)
  busError : bit t.controller.readInterrupt 15 = true

/-- What the step of the table has done that the channel is programmed for. -/
structure TableDone (c : Channel) (b : Bus δ) (log : List Touch) (status : Status)
    (t : Stage (Bus δ)) : Prop where
  accesses : log =
    tableWrites c.base c.blocks.wordCount (min (c.tableReach + 1) c.blocks.wordCount)
  words : ∀ i < c.tableReach,
    t.bus.ram.word (entryAddress c.base i) = tableEntry c.base c.blocks.wordCount i
  others : ∀ a, (∀ i < c.tableReach,
    Ram.offset a / 4 ≠ Ram.offset (entryAddress c.base i) / 4) → t.bus.ram.byte a = b.ram.byte a
  board : t.bus.board = b.board
  completed : c.tableReach = c.blocks.wordCount → TableCompleted c b status t
  faulted : c.tableReach < c.blocks.wordCount → TableFaulted c b status t

/-- The second channel is about to build the table that the first one is programmed for. -/
structure TableArmed (c d : Channel) : Prop where
  active : d.active = true
  base : d.base = c.base
  blocks : d.blocks = c.blocks
  address : d.address = c.base &&& wordAddressMask
  wordsLeft : d.wordsLeft = c.blocks.wordCount

section Armed

variable (h : TableArmed c d) (k : Controller) (hb : b.exception = false)
include h hb

/-- The step is at the first entry without memory once the others are filled in. -/
theorem TableArmed.step_eq : step .orderingTable (Stage.mk d k b).recorded =
    fillTable .orderingTable (c.blocks.wordCount - c.tableReach)
      (entryStage c.base c.blocks.wordCount d k b c.tableReach) := by
  have h0 : (Stage.mk d k b).recorded = entryStage c.base c.blocks.wordCount d k b 0 := by
    have hd : d = { d with address := entryAddress c.base 0, wordsLeft := c.blocks.wordCount } := by
      rw [entryAddress, along_zero (word_and_le _), ← h.address, ← h.wordsLeft]
    exact congrArg (fun d => Stage.mk d k (Recorder.mk b [])) hd
  calc step .orderingTable (Stage.mk d k b).recorded
      = fillTable .orderingTable d.wordsLeft (Stage.mk d k b).recorded := step_table h.active
    _ = fillTable .orderingTable c.blocks.wordCount
          (entryStage c.base c.blocks.wordCount d k b 0) := by rw [h0, h.wordsLeft]
    _ = _ := fillTable_reach k hb (Nat.le_refl _)

/-- **A table is built** as far as memory goes. -/
theorem TableArmed.done : ∃ status t, step .orderingTable ⟨d, k, b⟩ = .ok status t ∧
    TableDone c b (accesses .orderingTable ⟨d, k, b⟩) status t := by
  have hs := h.step_eq k hb
  have hle : c.tableReach ≤ c.blocks.wordCount := ramReach_le _ _
  have hn : c.blocks.wordCount ≤ 0x10000 := c.blocks.blockSize_le.1
  have hwords := filled_storeAll (h := c.base) (n := c.blocks.wordCount) (Nat.le_trans hle hn) b.ram
  have hothers := fun a => byte_storeEntries (h := c.base) (n := c.blocks.wordCount)
    (j := c.tableReach) b.ram (a := a)
  obtain hr | hr := Nat.eq_or_lt_of_le hle
  · rw [show c.blocks.wordCount - c.tableReach = 0 by omega] at hs
    refine ⟨_, _, step_eq_ok.2 ⟨_, hs, rfl⟩, ?_, hwords, hothers, rfl, fun _ => ?_,
      fun hl => absurd hr (Nat.ne_of_lt hl)⟩
    · rw [accesses_of_step hs, Nat.min_eq_right (by omega), ← hr]
      rfl
    · refine ⟨rfl, congrArg (b.pendingCycles + ·) hr, rfl, ?_, h.base,
        congrArg Blocks.bits h.blocks⟩
      simp [completed, Stage.plain]
  · obtain ⟨r, hn⟩ : ∃ r, c.blocks.wordCount - c.tableReach = r + 1 :=
      ⟨c.blocks.wordCount - c.tableReach - 1, by omega⟩
    rw [hn, fillTable, Op.bind_apply, writeEntry_unmapped (j := c.tableReach) k hb (by omega)
      (unmapped_of_reach_lt hr)] at hs
    refine ⟨_, _, step_eq_ok.2 ⟨_, hs, rfl⟩, ?_, hwords, hothers, rfl,
      fun he => absurd he (Nat.ne_of_lt hr), fun _ => ⟨rfl, rfl, rfl, rfl, rfl, ?_⟩⟩
    · rw [accesses_of_step hs, Nat.min_eq_left hr]
      rfl
    · rw [Controller.bit_readInterrupt _ (by decide)]
      have hbit : bit 0x8000 15 = true := by decide
      exact (bit_or _ _ _).trans (by rw [hbit, Bool.or_true])

end Armed

/-- A start of a table is accepted, however the channel is programmed. -/
theorem TableArmed.start (hd : c.control.direction = .toRam) :
    c.refusal? .orderingTable = none ∧ TableArmed c (c.load .orderingTable).activate := by
  refine ⟨refusal?_eq_none_iff.2 ⟨nofun, ?_, nofun⟩, rfl, rfl, rfl, rfl, rfl⟩
  rw [hd]
  rfl

/-- **An ordering table from end to end.**  On every channel that can be reached, whatever its
registers and whatever is in memory, a start of an ordering table is accepted, and its step writes
the entries in order, each the address of the one below it and the lowest the end mark, down to the
first that has no memory: they are in memory afterwards, and nothing else in memory or on the board
has changed.  If all entries have memory the table completes, for a cycle each.  Else it faults at
the first without memory, for a cycle more, with the address of that entry at hand and the rest of
the table left to build. -/
theorem table_end_to_end (hc : Reached .orderingTable c) (hn : c.running = false)
    {e : Deed (Bus δ)} (he : Starts .orderingTable c e) (hb : b.exception = false)
    (k : Controller) :
    e.answer .orderingTable c = .ok () ∧
      ∃ status t, step .orderingTable ⟨e.after .orderingTable c, k, b⟩ = .ok status t ∧
        TableDone c b (accesses .orderingTable ⟨e.after .orderingTable c, k, b⟩) status t := by
  have hp := hc.intact.toProper
  -- Only the control word may be another when the transfer starts.
  obtain ⟨control, hprog⟩ := e.programmed_eq .orderingTable c
  have hd := (hp.programmed e).table_toRam rfl
  rw [hprog] at hd
  obtain ⟨hr, harmed⟩ := TableArmed.start (c := { c with control }) hd
  have hperform := hp.perform_start hn he
  rw [hprog, Deed.onChannel, arm_of_accepted hr] at hperform
  rw [Deed.answer, Deed.after, hperform]
  have harmed : TableArmed c _ :=
    ⟨rfl, harmed.base, harmed.blocks, harmed.address, harmed.wordsLeft⟩
  exact ⟨rfl, harmed.done k hb⟩

/-- A table of three entries, from the second word of memory downwards. -/
def tableOverTheEdge : Channel :=
  Deed.after .orderingTable (.write .blocks 3 0xFFFFFFFF : Deed (Bus BareBoard))
    (Deed.after .orderingTable (.write .base 4 0xFFFFFFFF : Deed (Bus BareBoard))
      (initial .orderingTable))

/-- Two entries are written.  The third would be at the end of the addresses. -/
theorem tableOverTheEdge_faults :
    ∃ t, step .orderingTable ⟨Deed.after .orderingTable
          (.write .control 0x11000002 0xFFFFFFFF : Deed (Bus BareBoard)) tableOverTheEdge, {},
        bareBus⟩ = .ok .faulted t ∧
      t.bus.ram.word 4 = 0 ∧ t.bus.ram.word 0 = 0xFFFFFC ∧ t.channel.wordsLeft = 1 ∧
        t.channel.address = 0xFFFFFC ∧ t.bus.pendingCycles = 3 := by
  have hreach : tableOverTheEdge.tableReach = 2 := by decide
  have hcount : tableOverTheEdge.blocks.wordCount = 3 := by decide
  have hc : Reached .orderingTable tableOverTheEdge := .deed _ (.deed _ .initial)
  obtain ⟨-, status, t, ht, hdone⟩ := table_end_to_end hc (by decide)
    (e := (.write .control 0x11000002 0xFFFFFFFF : Deed (Bus BareBoard)))
    (by unfold Starts Rises; decide) (b := bareBus) rfl {}
  have hf := hdone.faulted (by rw [hreach, hcount]; decide)
  obtain ⟨rfl, hleft, haddress, -, hcycles, -⟩ := hf
  rw [hreach] at hleft haddress hcycles
  exact ⟨t, ht, hdone.words 0 (by rw [hreach]; decide), hdone.words 1 (by rw [hreach]; decide),
    by rw [hleft, hcount], haddress, hcycles⟩

end Tables

end Channel

end DmaMachine
