import DmaMachine.Proofs.Channel.Unchopped
import DmaMachine.Proofs.Machine.Interrupts
import DmaMachine.Proofs.Machine.Renewals
import DmaMachine.Proofs.Machine.Wakeup

/-!
# Restored machines

Restoring does not copy registers, it loads them: base addresses and control words through masks,
and the interrupt word with a line that is settled anew.  A machine that was powered on has words
that all of this leaves alone (`Channel.atRest_of_intact`, `Controller.ofWords_of_sound`), so what
was captured is what is restored, but for transfers under way.

* `Restored`: how a machine stands to the one that its snapshot was taken of.
* `restore_capture`: **a snapshot of a machine that was powered on restores it**, into any machine,
  and a snapshot is refused just when it has the wrong shape, before anything has changed.
-/

namespace DmaMachine

/-! ### Words that are loaded again -/

/-- The control word with no start in it. -/
def Control.idle (c : Control) : Control := (c.set .startBusy false).set .forceStart false

/-- The record of a channel with no start in its control word. -/
def ChannelRecord.idle (r : ChannelRecord) : ChannelRecord :=
  { r with control := (Control.idle ⟨r.control⟩).bits }

namespace Channel

theorem and_addressMask_of_le {a : UInt32} (h : a ≤ addressMask) : a &&& addressMask = a := by
  have hlt : a.toNat < 0x1000000 := Nat.lt_succ_of_le (UInt32.le_iff_toNat_le.1 h)
  rw [← UInt32.toNat_inj, toNat_and_addressMask, Nat.mod_eq_of_lt hlt]

/-- A control word that the channel stores is stored again as it is. -/
theorem storedControl_of_storedBy {p : Peer} {k : Control} (h : k.StoredBy p) :
    storedControl p k.bits = k := by
  by_cases hp : p = .orderingTable
  · have hm : ∀ i < 32, bit p.storable i = true → i ≠ Control.Flag.decrement.position →
        bit 0x51000000 i = true := by
      subst hp
      decide
    rw [storedControl, if_pos hp]
    refine Control.ext_bits fun i hi => ?_
    by_cases hd : i = Control.Flag.decrement.position
    · have hset : (Control.set ⟨k.bits &&& 0x51000000⟩ .decrement true).has .decrement = true := by
        simp
      rw [hd]
      exact hset.trans (h.decrement hp).symm
    · rw [Control.bit_set _ _ _ hi hd, bit_and]
      cases hb : bit k.bits i with
      | false => rfl
      | true => exact hm i hi (h.bits i hi hb) hd
  · rw [storedControl, if_neg hp]
    refine Control.ext_bits fun i hi => ?_
    rw [bit_and]
    cases hb : bit k.bits i with
    | false => rfl
    | true =>
        have hs := h.bits i hi hb
        rwa [Peer.storable, if_neg hp] at hs

/-- **What was captured of an intact channel is what a channel at rest is given.** -/
theorem atRest_of_intact {p : Peer} {c : Channel} (h : Intact p c) :
    atRest p c.base c.blocks.bits c.control.bits =
      { base := c.base, blocks := c.blocks, control := c.control.idle } := by
  have hk : c.control.idle.StoredBy p :=
    (h.stored.set p.storable_startBusy (by decide)).set p.storable_forceStart (by decide)
  have hc : storedControl p (c.control.bits &&& ~~~Control.Flag.startBusy.mask &&&
      ~~~Control.Flag.forceStart.mask) = c.control.idle := storedControl_of_storedBy hk
  rw [atRest, and_addressMask_of_le h.base_le, hc]

end Channel

/-- **The words of a sound controller make the same controller**, but for the latch. -/
theorem Controller.ofWords_of_sound {c : Controller} (h : c.Sound) :
    ofWords c.priorityWord c.readInterrupt = { c with edge := false } := by
  have hw : c.readInterrupt &&& (settingBits ||| flagBits) = c.interruptWord := by
    refine word_ext fun i hi => ?_
    rw [← h.interruptWord, bit_and, bit_and]
    by_cases hlt : i < 31
    · rw [c.bit_readInterrupt hlt]
    · obtain rfl : i = 31 := by omega
      rw [show bit (settingBits ||| flagBits) 31 = false by decide, Bool.and_false, Bool.and_false]
  have hl : demanded { priorityWord := c.priorityWord, interruptWord := c.interruptWord } =
      c.line := h.line.symm
  simp only [ofWords, Controller.settle, h.priorityWord, hw, hl]

/-! ### Machines -/

namespace Machine

variable {δ α υ δ' α' υ' : Type}

/-- Channels are restored by the record of their place. -/
theorem channel_restoredChannels (f : Peer → ChannelRecord) (e : Engine) (p : Peer) :
    (restoredChannels Peer.all (Peer.all.map f) e).channel p =
      Channel.atRest p (f p).base (f p).blocks (f p).control := by
  cases p <;> simp [Peer.all, restoredChannels, Engine.channel_setChannel]

/-- How a machine that was restored into, which was `t`, stands to the one that was captured. -/
structure Restored (m : Machine δ α υ) (t t' : Machine δ' α' υ') : Prop where
  ram : t'.bus.ram = m.bus.ram
  base : ∀ p, (t'.engine.channel p).base = (m.engine.channel p).base
  blocks : ∀ p, (t'.engine.channel p).blocks = (m.engine.channel p).blocks
  /-- The start bits are cleared, and nothing else. -/
  control : ∀ p, (t'.engine.channel p).control = (m.engine.channel p).control.idle
  priorityWord : t'.engine.controller.priorityWord = m.engine.controller.priorityWord
  /-- With the line on top. -/
  interruptWord : t'.engine.controller.readInterrupt = m.engine.controller.readInterrupt
  line : t'.engine.controller.line = m.engine.controller.line
  now : t'.timeline.now = m.timeline.now
  nextId : t'.timeline.nextId = max t.timeline.nextId m.timeline.nextId
  idle : ∀ p, (t'.engine.channel p).running = false ∧ (t'.engine.channel p).active = false
  events : t'.timeline.events = []
  edge : t'.engine.controller.edge = false
  pendingCycles : t'.bus.pendingCycles = 0
  exception : t'.bus.exception = false
  board : t'.bus.board = t.bus.board

theorem channel_restored {m : Machine δ α υ} {p : Peer}
    (h : Channel.Intact p (m.engine.channel p)) (label : String) (taken : Timestamp) (ram : Ram)
    (t : Machine δ' α' υ') :
    (restored (capture label taken m) ram t).engine.channel p =
      { base := (m.engine.channel p).base, blocks := (m.engine.channel p).blocks
        control := (m.engine.channel p).control.idle } :=
  (channel_restoredChannels (fun p => channelRecord p (m.engine.channel p)) {} p).trans
    (Channel.atRest_of_intact h)

theorem capture_fits (label : String) (taken : Timestamp) (m : Machine δ α υ) :
    misfit? (capture label taken m) = none :=
  misfit?_eq_none_iff.2 ⟨rfl, m.bus.ram.size_bytes⟩

section Restore

variable [Board δ] {handler : Handler δ α υ} {ls : List (Level δ α υ)} {j : Journal δ α υ}
  {board : δ} {memory : υ} {m : Machine δ α υ}

/-- What was captured of a machine restores any machine to what it was, at rest. -/
theorem Moves.restored (hm : Moves handler [] (initial board memory) j ls m)
    (hnow : m.timeline.now < UInt64.size) (hid : m.timeline.nextId < UInt64.size)
    (label : String) (taken : Timestamp) (t : Machine δ' α' υ') :
    ∃ t', restore (capture label taken m) t = .ok () t' ∧ Restored m t t' := by
  obtain ⟨ram, hram, hr⟩ := restore_of_fit (capture_fits label taken m) t
  have hc := fun p => channel_restored (hm.stamped.2.intact p) label taken ram t
  have hw : (Machine.restored (capture label taken m) ram t).engine.controller =
      { m.engine.controller with edge := false } := Controller.ofWords_of_sound hm.sound
  refine ⟨_, hr, {
    ram := Ram.ext hram
    base := fun p => by rw [hc]
    blocks := fun p => by rw [hc]
    control := fun p => by rw [hc]
    priorityWord := by rw [hw]
    interruptWord := by
      rw [hw]
      rfl
    line := by rw [hw]
    now := UInt64.toNat_ofNat_of_lt' hnow
    nextId := congrArg (max t.timeline.nextId) (UInt64.toNat_ofNat_of_lt' hid)
    idle := fun p => by simp [hc]
    events := rfl
    edge := by rw [hw]
    pendingCycles := rfl
    exception := rfl
    board := rfl }⟩

omit [Board δ] in
/-- What is captured of a restored machine is what it was restored from, but for the start bits,
the next identifier, and what the image says of itself. -/
theorem Restored.capture_eq {t t' : Machine δ' α' υ'} (h : Restored m t t') (label label' : String)
    (taken taken' : Timestamp) :
    capture label' taken' t' = { capture label taken m with
      label := label', taken := taken'
      nextId := UInt64.ofNat (max t.timeline.nextId m.timeline.nextId)
      channels := (capture label taken m).channels.map ChannelRecord.idle } := by
  have hc : ∀ p, channelRecord p (t'.engine.channel p) =
      (channelRecord p (m.engine.channel p)).idle := fun p => by
    simp only [channelRecord, ChannelRecord.idle, h.base, h.blocks, h.control]
  simp only [capture, h.now, h.nextId, h.priorityWord, h.interruptWord, h.ram, List.map_map, hc]
  rfl

/-- **A snapshot of a machine that was powered on restores any machine to it**, at any moment, also
with transfers under way: the registers are as they were but for the start bits, nothing is pending,
and what is captured then is what was captured, but for those bits and the next identifier.

**Restoring is all or nothing**: a snapshot is refused just when it has not as many channels as
there are, or not as many bytes as RAM, and then the machine stays as it was. -/
theorem restore_capture (hm : Moves handler [] (initial board memory) j ls m)
    (hnow : m.timeline.now < UInt64.size) (hid : m.timeline.nextId < UInt64.size) :
    (∀ (label : String) (taken : Timestamp) (t : Machine δ' α' υ'), ∃ t',
      restore (capture label taken m) t = .ok () t' ∧ Restored m t t' ∧
        ∀ (label' : String) (taken' : Timestamp),
          capture label' taken' t' = { capture label taken m with
            label := label', taken := taken'
            nextId := UInt64.ofNat (max t.timeline.nextId m.timeline.nextId)
            channels := (capture label taken m).channels.map ChannelRecord.idle }) ∧
    ∀ (s : Snapshot) (t : Machine δ' α' υ'),
      ((∃ fault t', restore s t = .error (.snapshot fault) t') ↔
        s.channels.length ≠ channelCount ∨ s.ram.size ≠ Ram.size) ∧
      ∀ e t', restore s t = .error e t' → t' = t := by
  refine ⟨fun label taken t => ?_, fun s t => ?_⟩
  · obtain ⟨t', hr, ht⟩ := hm.restored hnow hid label taken t
    exact ⟨t', hr, ht, fun label' taken' => ht.capture_eq label label' taken taken'⟩
  · rw [← not_and_or, ← misfit?_eq_none_iff]
    cases hf : misfit? s with
    | some fault =>
        have hr := restore_of_misfit hf t
        refine ⟨iff_of_true ⟨fault, t, hr⟩ nofun, fun e t' he => ?_⟩
        rw [hr] at he
        cases he
        rfl
    | none =>
        obtain ⟨ram, -, hr⟩ := restore_of_fit hf t
        have hne : ∀ e t', restore s t ≠ .error e t' := fun e t' he => by
          rw [hr] at he
          cases he
        exact ⟨iff_of_false (fun ⟨fault, t', he⟩ => hne _ t' he) (· rfl), fun e t' he =>
          absurd he (hne e t')⟩

end Restore

/-- A list that is under way when the snapshot is taken does not go on where it is restored. -/
theorem restore_capture_listStart :
    (listStart.engine.channel .graphics).active = true ∧
      ∃ t', restore (capture "list" ⟨0, 0⟩ listStart) listEnd = .ok () t' ∧
        Restored listStart listEnd t' ∧
          (capture "again" ⟨1, 0⟩ t').channels =
            (capture "list" ⟨0, 0⟩ listStart).channels.map ChannelRecord.idle := by
  have hm : Moves listHandler [] (initial {} ())
      (chronicle listHandler 4 listScript (initial {} ())) [] listStart :=
    exec_moves 4 listScript [] (initial {} ()) (.ok ()) listStart rfl
  obtain ⟨t', he, ht, hc⟩ :=
    (restore_capture hm (by decide) (by decide)).1 "list" ⟨0, 0⟩ listEnd
  exact ⟨rfl, t', he, ht, congrArg Snapshot.channels (hc "again" ⟨1, 0⟩)⟩

end Machine

end DmaMachine
