import DmaMachine.Proofs.Lanes
import DmaMachine.Proofs.Channel.Programming
import DmaMachine.Proofs.Engine.Tokens
import DmaMachine.Proofs.Machine.Interrupts

/-!
# The register file

The window of an engine has a word for each of its registers, and a gap behind the three words of
every channel.  Writes through a mask are the same for all registers; what becomes of a bit that is
written is not.  Some bits are not there, the ordering table steps down whatever is written, a start
sets one bit of the control word and clears another, a flag of the interrupt word goes down where a
1 is written, and the top bit of that word is the line.

`Register.ReadsBack` says for each register what it reads after a write, in terms of what it read
before.

* `ofOffset_of_at`, `ofOffset_of_gap`: what stands at an offset of the window.
* `get_put_of_ne`: **a write changes no other register**, also when it is answered with a fault.
* `readsBack_put`: **a write that gives a result reads back.**
* `acknowledge_all`: writing back what the interrupt word reads, without its top bit.
* `register_file`: all of this, for every engine that can be reached.
-/

namespace DmaMachine

/-! ### The window -/

namespace Register

/-- The offset is one of the four of the register's word. -/
def At (r : Register) (o : UInt32) : Prop := wordBase o = r.offset

instance (r : Register) : DecidablePred r.At := fun _ => inferInstanceAs (Decidable (_ = _))

/-- The offset is one of the four behind the registers of a channel. -/
def Gap (p : Peer) (o : UInt32) : Prop := wordBase o = UInt32.ofNat (16 * p.index + 12)

/-- The registers of the window in their order. -/
def all : List Register :=
  (Peer.all.flatMap fun p => [channel p .base, channel p .blocks, channel p .control]) ++
    [priority, interrupt, fixedLow, fixedHigh]

/-- Decoding looks at whole words only. -/
theorem ofOffset_wordBase (o : UInt32) : ofOffset (wordBase o) = ofOffset o := by
  have hw : wordBase (wordBase o) = wordBase o := by
    rw [wordBase, wordBase, UInt32.and_assoc, UInt32.and_self]
  have hp : wordBase o &&& (0xC : UInt32) = o &&& 0xC := by
    rw [wordBase, UInt32.and_assoc, show (~~~3 : UInt32) &&& (0xC : UInt32) = 0xC from rfl]
  have hi : (wordBase o >>> 4) &&& (7 : UInt32) = (o >>> 4) &&& 7 := by
    refine word_ext fun i hi => ?_
    have hm : ∀ i < 32, bit (7 : UInt32) i = true → bit (~~~3 : UInt32) (4 + i) = true := by decide
    rw [bit_and, bit_and, bit_shiftRight _ (by decide), bit_shiftRight _ (by decide), wordBase,
      bit_and]
    cases h7 : bit (7 : UInt32) i with
    | false => simp
    | true => simp [hm i hi h7]
  rw [ofOffset, ofOffset, hw, hp, hi]

theorem ofOffset_of_at {r : Register} {o : UInt32} (h : r.At o) : ofOffset o = .ok r := by
  rw [← ofOffset_wordBase, h, ofOffset_offset]

theorem ofOffset_of_gap {p : Peer} {o : UInt32} (h : Gap p o) :
    ofOffset o = .error (.channel (.invalidRegister p.index 12)) := by
  rw [← ofOffset_wordBase, h]
  cases p <;> rfl

/-- Every offset of the window is one of a register, or in the gap of a channel. -/
theorem at_or_gap {o : UInt32} (ho : o < 0x80) : (∃ r : Register, r.At o) ∨ ∃ p, Gap p o := by
  have hall : ∀ n < 32, (∃ r ∈ all, UInt32.ofNat (4 * n) = r.offset) ∨
      ∃ p ∈ Peer.all, UInt32.ofNat (4 * n) = UInt32.ofNat (16 * p.index + 12) := by decide
  have hlt : o.toNat < 0x80 := ho
  have hn : wordBase o = UInt32.ofNat (4 * (o.toNat / 4)) := by
    refine UInt32.toNat_inj.1 ?_
    rw [toNat_wordBase, UInt32.toNat_ofNat_of_lt' (by simp only [UInt32.size]; omega)]
    omega
  refine (hall (o.toNat / 4) (by omega)).imp ?_ ?_
  · exact fun ⟨r, _, hr⟩ => ⟨r, hn.trans hr⟩
  · exact fun ⟨p, _, hp⟩ => ⟨p, hn.trans hp⟩

/-- What the register reads after a write of the bits of `v` where `mask` is set, when it read `old`
before; `starts` says whether the write has started or resumed a transfer. -/
def ReadsBack (starts : Bool) (old v mask new : UInt32) : Register → Prop
  | channel _ .base => new = merge old v mask &&& 0x00FFFFFF
  | channel _ .blocks => new = merge old v mask
  | channel p .control =>
      let stored :=
        if p = .orderingTable then (merge old v mask &&& 0x51000000) ||| 0x00000002
        else merge old v mask &&& 0x71770703
      new = if starts then (stored ||| 0x01000000) &&& ~~~0x10000000 else stored
  | priority => new = merge old v mask &&& 0x7FFFFFFF
  | interrupt =>
      new &&& 0x7FFFFFFF =
          (merge old v mask &&& 0x00FF807F) ||| (old &&& ~~~(v &&& mask) &&& 0x7F000000) ∧
        (bit new 31 = true ↔ Controller.Demanded new)
  | fixedLow | fixedHigh => new = old

end Register

/-! ### Channels -/

namespace Channel

variable {p : Peer} {c d : Channel} {b : Bool}

/-- What a start or a resumption does not touch. -/
theorem read_arm_of_ne {r : Register} (hr : r ≠ .control) (resume : Bool) :
    (Op.outcome (arm p resume c)).2.read r = c.read r := by
  have hl : (c.load p).read r = c.read r := by
    rw [load]
    cases r with
    | control => exact absurd rfl hr
    | base | blocks => dsimp only; split <;> rfl
  have ha : ∀ d : Channel, d.activate.read r = d.read r := fun d => by
    cases r with
    | control => exact absurd rfl hr
    | base | blocks => rfl
  cases resume with
  | true => exact ha c
  | false =>
      cases hc : c.refusal? p with
      | none => rw [arm_of_accepted hc]; exact (ha _).trans hl
      | some fault => rw [arm_of_refusal hc]; rfl

/-- **A write changes no other register of the channel.** -/
theorem read_write_of_ne {r q : Register} (hq : q ≠ r) (v mask : UInt32) :
    (Op.outcome (write p r v mask c)).2.read q = c.read q := by
  cases r with
  | base | blocks => cases q <;> first | rfl | exact absurd rfl hq
  | control =>
      have hw : write p .control v mask c = writeControl p (merge c.control.bits v mask) c := by
        rw [write]
      rw [hw, ← Deed.snd_onChannel]
      obtain ⟨-, -, h⟩ | ⟨-, ⟨-, -, h⟩ | ⟨-, h⟩⟩ := writeControl_cases p
        (merge c.control.bits v mask) c <;> rw [h]
      · cases q <;> first | rfl | exact absurd rfl hq
      · rw [Deed.snd_onChannel, read_arm_of_ne hq]
        cases q <;> first | rfl | exact absurd rfl hq
      · cases q <;> first | rfl | exact absurd rfl hq

/-- The bits that the channel stores of its control word. -/
theorem bits_storedControl (p : Peer) (v : UInt32) : (storedControl p v).bits =
    if p = .orderingTable then (v &&& 0x51000000) ||| 0x00000002 else v &&& 0x71770703 := by
  rw [storedControl]
  split <;> rfl

theorem bits_activate (c : Channel) :
    c.activate.control.bits = (c.control.bits ||| 0x01000000) &&& ~~~0x10000000 := rfl

theorem active_activate (c : Channel) : c.activate.active = true := rfl

/-- **A write that gives a result reads back.** -/
theorem readsBack_write {r : Register} {v mask : UInt32} (h : write p r v mask c = .ok b d) :
    (DmaMachine.Register.channel p r).ReadsBack
      (!c.active && d.active) (c.read r) v mask (d.read r) := by
  cases r with
  | base | blocks =>
      cases h
      rfl
  | control =>
      rw [write] at h
      have hd : Deed.onChannel (writeControl p (merge c.control.bits v mask)) c = (.ok (), d) := by
        rw [Deed.onChannel, h]
      simp only [DmaMachine.Register.ReadsBack, read, ← bits_storedControl]
      obtain ⟨-, -, hw⟩ | ⟨-, ⟨-, ha, hw⟩ | ⟨hn, hw⟩⟩ := writeControl_cases p
        (merge c.control.bits v mask) c <;> rw [hw] at hd
      · cases hd
        simp [abort]
      · obtain ⟨-, hr⟩ | ⟨-, -, hr⟩ | ⟨_, -, -, hr⟩ := arm_cases p c.running
          { c with control := storedControl p (merge c.control.bits v mask) } <;> rw [hr] at hd <;>
          cases hd
        · simp [ha, bits_activate, active_activate]
        · simp [ha, bits_activate, active_activate]
      · cases hd
        simp

end Channel

namespace Controller

theorem interruptWord_writeInterrupt (v : UInt32) (c : Controller) :
    (c.writeInterrupt v).interruptWord =
      (v &&& settingBits) ||| (c.interruptWord &&& flagBits &&& ~~~v) := rfl

/-- The bits of the mask of all bits but the top one. -/
theorem bit_belowTop (i : Nat) : bit (0x7FFFFFFF : UInt32) i = decide (i < 31) := by
  by_cases hi : i < 32
  · revert i
    decide
  · rw [bit_of_ge _ (Nat.le_of_not_lt hi)]
    exact (decide_eq_false (by omega)).symm

/-- Below the line, the interrupt word reads as it is kept. -/
theorem readInterrupt_and (c : Controller) :
    c.readInterrupt &&& 0x7FFFFFFF = c.interruptWord &&& 0x7FFFFFFF := by
  refine word_ext fun i _ => ?_
  rw [bit_and, bit_and, bit_belowTop]
  by_cases hi : i < 31
  · rw [c.bit_readInterrupt hi]
  · rw [decide_eq_false hi, Bool.and_false, Bool.and_false]

/-- The settings of the interrupt word are replaced where the mask is set, a flag stays but for a
1 that is written to it, and the line is as demanded. -/
theorem Sound.readsBack_write {c : Controller} (hc : c.Sound) (v mask : UInt32) :
    Register.interrupt.ReadsBack false c.readInterrupt v mask
      (c.putInterrupt v mask).readInterrupt := by
  constructor
  · -- The settings lie in the part of the word that the write begins with, and the flags outside.
    have hb : ∀ i < 32, (bit settingBits i = true → bit (0x00FFFFFF : UInt32) i = true ∧ i < 31) ∧
        (bit flagBits i = true → bit (0x00FFFFFF : UInt32) i = false ∧ i < 31) := by decide
    rw [readInterrupt_and]
    refine word_ext fun i hi => ?_
    obtain ⟨hs, hf⟩ := hb i hi
    have hr : i < 31 → bit c.readInterrupt i = bit c.interruptWord i := c.bit_readInterrupt
    have ht : bit (0x7FFFFFFF : UInt32) i = decide (i < 31) := bit_belowTop i
    simp only [putInterrupt, interruptWord_writeInterrupt, bit_and, bit_or, bit_not, bit_merge, ht]
    change _ = ((_ && bit settingBits i) || (_ && bit flagBits i))
    grind
  · have hs : (c.putInterrupt v mask).Sound := hc.after (.writeInterrupt v mask)
    rw [hs.bit_top, hs.line, demanded_readInterrupt, demanded_iff]

end Controller

namespace Engine

variable {e e' : Engine} {r q : Register} {o v mask : UInt32} {due : Bool}

/-! ### Engines -/

theorem read_at (h : r.At o) (e : Engine) : read o e = .ok (e.get r) := by
  rw [read, Register.ofOffset_of_at h]

theorem write_at (h : r.At o) (v mask : UInt32) (e : Engine) :
    write o v mask e = put r v mask e := by
  rw [write, Register.ofOffset_of_at h]

/-- What a write to a channel is answered with, and the engine after it. -/
theorem outcome_put_channel (p : Peer) (r : Channel.Register) (v mask : UInt32) (e : Engine) :
    Op.outcome (put (.channel p r) v mask e) =
      ((Op.outcome (Channel.write p r v mask (e.channel p))).1.map
          (· && e.controller.enabled p.index),
        e.setChannel p (Op.outcome (Channel.write p r v mask (e.channel p))).2) := by
  simp only [put, onChannel]
  cases Channel.write p r v mask (e.channel p) <;> rfl

/-- **A write changes no other register**, whether it gives a result or a fault. -/
theorem get_put_of_ne (hq : q ≠ r) (v mask : UInt32) (e : Engine) :
    (Op.outcome (put r v mask e)).2.get q = e.get q := by
  cases r with
  | channel p r =>
      rw [outcome_put_channel]
      cases q with
      | channel p' q =>
          show ((e.setChannel p _).channel p').read q = (e.channel p').read q
          rw [channel_setChannel]
          split
          · rename_i hp
            subst hp
            exact Channel.read_write_of_ne (fun h => hq (congrArg _ h)) v mask
          · rfl
      | priority | interrupt | fixedLow | fixedHigh => rfl
  | priority => cases q <;> first | rfl | exact absurd rfl hq
  | interrupt =>
      cases q <;> first | rfl | exact absurd rfl hq
  | fixedLow | fixedHigh => rfl

/-- Whether the channel that the register is of is active in `e'` and was not in `e`. -/
def activates (e e' : Engine) : Register → Bool
  | .channel p _ => !(e.channel p).active && (e'.channel p).active
  | _ => false

/-- **A write that gives a result reads back.** -/
theorem readsBack_put (hs : e.controller.Sound) (h : put r v mask e = .ok due e') :
    r.ReadsBack (activates e e' r) (e.get r) v mask (e'.get r) := by
  cases r with
  | channel p r =>
      have ho := outcome_put_channel p r v mask e
      rw [h] at ho
      cases hw : Channel.write p r v mask (e.channel p) with
      | error => rw [hw] at ho; cases ho
      | ok b c =>
          rw [hw] at ho
          obtain rfl : e' = e.setChannel p c := congrArg Prod.snd ho
          have hc : (e.setChannel p c).channel p = c := by rw [channel_setChannel, if_pos rfl]
          simpa only [get, activates, hc] using Channel.readsBack_write hw
  | priority =>
      cases h
      rfl
  | interrupt =>
      cases h
      exact hs.readsBack_write v mask
  | fixedLow | fixedHigh =>
      cases h
      rfl

/-- Every write to another register than a control word gives a result. -/
theorem put_ok (hr : ∀ p, r ≠ .channel p .control) (v mask : UInt32) (e : Engine) :
    ∃ due e', put r v mask e = .ok due e' := by
  cases r with
  | channel p r =>
      cases r with
      | base | blocks => exact ⟨_, _, rfl⟩
      | control => exact absurd rfl (hr p)
  | priority | interrupt | fixedLow | fixedHigh => exact ⟨_, _, rfl⟩

/-- **Writing back what the interrupt word reads, without its top bit**, clears all flags, and
changes no other bit that is stored. -/
theorem acknowledge_all (hs : e.controller.Sound) :
    ∃ e', put .interrupt (e.get .interrupt &&& 0x7FFFFFFF) 0xFFFFFFFF e = .ok false e' ∧
      e'.get .interrupt &&& 0x7FFFFFFF = e.get .interrupt &&& 0x00FFFFFF := by
  refine ⟨_, rfl, (hs.readsBack_write _ 0xFFFFFFFF).1.trans ?_⟩
  -- Of the bits below the flags, only those of the settings are ever set.
  have hb : ∀ i < 32, bit (0xFFFFFFFF : UInt32) i = true ∧
      (bit (0x00FFFFFF : UInt32) i = true → bit Controller.flagBits i = false ∧ i < 31) ∧
      (bit Controller.settingBits i = true → bit (0x00FFFFFF : UInt32) i = true) ∧
      (bit Controller.flagBits i = true → i < 31) := by decide
  refine word_ext fun i hi => ?_
  obtain ⟨hm, hl, hset, hf⟩ := hb i hi
  have hr : i < 31 → bit e.controller.readInterrupt i = bit e.controller.interruptWord i :=
    e.controller.bit_readInterrupt
  have hw := fun h : bit e.controller.interruptWord i = true => hs.within h
  have ht : bit (0x7FFFFFFF : UInt32) i = decide (i < 31) := Controller.bit_belowTop i
  simp only [bit_or] at hw
  simp only [get, bit_and, bit_or, bit_not, bit_merge, ht, hm, if_true]
  change ((_ && bit Controller.settingBits i) || (_ && bit Controller.flagBits i)) = _
  grind

/-! ### Engines that can be reached -/

/-- The engine comes about from power-on.  Every service pass may be on another bus, with other
devices. -/
inductive Reached : Engine → Prop where
  | powerOn : Reached {}
  | act {e : Engine} {δ : Type} [Board δ] (a : Act (Bus δ)) (h : Reached e) : Reached (a.after e)
  /-- The registers of a saved engine are loaded. -/
  | restore (records : List ChannelRecord) (priorityWord interruptWord : UInt32) :
      Reached { Machine.restoredChannels Peer.all records {} with
        controller := .ofWords priorityWord interruptWord }

/-- Every act comes to deeds at the controller. -/
theorem Act.leads {β : Type} [Master β] (a : Act β) (e : Engine) :
    e.controller.Leads (a.after e).controller := by
  cases a with
  | write offset v mask => exact write_leads offset v mask e
  | request p =>
      show e.controller.Leads (Op.outcome (Engine.request p e)).2.controller
      rw [request_controller]
      exact Controller.leads_chains.refl _
  | resume p generation =>
      show e.controller.Leads (Op.outcome (Engine.resume p generation e)).2.controller
      rw [resume_controller]
      exact Controller.leads_chains.refl _
  | service bus => exact service_leads (e, bus)
  | step p bus => exact step_leads p (e, bus)
  | takeEdge => exact Controller.Deed.takeEdge.leads _
  | reset => exact Controller.Deed.reset.leads _

theorem Reached.sound (h : Reached e) : e.controller.Sound := by
  induction h with
  | powerOn => exact Controller.sound_initial
  | act a _ ih =>
      obtain ⟨ds, hds⟩ := a.leads _
      exact hds ▸ ih.afterAll ds
  | restore _ priorityWord interruptWord =>
      exact Controller.sound_initial.after (.restore priorityWord interruptWord)

/-- **The register file.**  Whatever is written where a register stands, and through whichever mask:
a write that gives a result reads back as the register stores it; no other register reads otherwise
than before, also when the write is answered with a fault, which only writes to a control word are.
The two words of fixed contents read as ever.  An offset without a register is answered with a
fault, and nothing is changed.  When what the interrupt word reads is written back without its top
bit, all flags are cleared, and no other bit that is stored changes. -/
theorem register_file (h : Reached e) :
    (∀ (r : Register) (o v mask : UInt32), r.At o →
      (∀ due e', write o v mask e = .ok due e' →
        ∃ old new, read o e = .ok old ∧ read o e' = .ok new ∧
          r.ReadsBack (activates e e' r) old v mask new) ∧
      ((∀ p, r ≠ .channel p .control) → ∃ due e', write o v mask e = .ok due e') ∧
      ∀ (q : Register) (o' : UInt32), q ≠ r → q.At o' →
        read o' (Op.outcome (write o v mask e)).2 = read o' e) ∧
    (∀ o, (Register.fixedLow.At o → read o e = .ok 0x7FFAC68B) ∧
      (Register.fixedHigh.At o → read o e = .ok 0x00FFFFF7)) ∧
    (∀ o < 0x80, (∀ r : Register, ¬r.At o) → ∃ fault, read o e = .error fault ∧
      ∀ v mask, write o v mask e = .error fault e) ∧
    ∀ o, Register.interrupt.At o → ∃ old new e', read o e = .ok old ∧
      write o (old &&& 0x7FFFFFFF) 0xFFFFFFFF e = .ok false e' ∧ read o e' = .ok new ∧
        new &&& 0x7FFFFFFF = old &&& 0x00FFFFFF := by
  refine ⟨fun r o v mask hr => ⟨fun due e' hw => ?_, fun hc => ?_, fun q o' hq ho => ?_⟩,
    fun o => ⟨fun ho => read_at ho e, fun ho => read_at ho e⟩, fun o ho hn => ?_, fun o ho => ?_⟩
  · rw [write_at hr] at hw
    exact ⟨_, _, read_at hr e, read_at hr e', readsBack_put h.sound hw⟩
  · rw [write_at hr]
    exact put_ok hc v mask e
  · rw [write_at hr, read_at ho, read_at ho, get_put_of_ne hq]
  · obtain ⟨r, hr⟩ | ⟨p, hp⟩ := Register.at_or_gap ho
    · exact absurd hr (hn r)
    · have hf := Register.ofOffset_of_gap hp
      exact ⟨_, by rw [read, hf], fun v mask => by rw [write, hf]⟩
  · obtain ⟨e', hw, hk⟩ := acknowledge_all h.sound
    exact ⟨_, _, e', read_at ho e, (write_at ho _ _ e).trans hw, read_at ho e', hk⟩

/-- An engine that was restored with a bus error and an interrupt of the graphics. -/
def errored : Engine :=
  { Machine.restoredChannels Peer.all [] {} with controller := .ofWords 0x07654321 0x04848000 }

/-- On it a forced start of the graphics reads back as a start, the block word is left alone, and
the flag is acknowledged while the bus error stays. -/
theorem register_file_errored :
    read 0x74 errored = .ok 0x84848000 ∧
      (∃ e', write 0x28 0x11000201 0xFFFFFFFF errored = .ok false e' ∧
        read 0x28 e' = .ok 0x01000201 ∧ read 0x24 e' = .ok 0) ∧
      ∃ e' new, write 0x74 0x04848000 0xFFFFFFFF errored = .ok false e' ∧
        read 0x74 e' = .ok new ∧ new &&& 0x7FFFFFFF = 0x00848000 := by
  have h : Reached errored := .restore [] 0x07654321 0x04848000
  have hr : read 0x74 errored = .ok 0x84848000 := by rfl
  obtain ⟨hw, -, -, hk⟩ := register_file h
  refine ⟨hr, ?_, ?_⟩
  · have ha : Register.At (.channel .graphics .control) 0x28 := by rfl
    obtain ⟨hb, -, hn⟩ := hw _ 0x28 0x11000201 0xFFFFFFFF ha
    obtain ⟨e', he⟩ : ∃ e', write 0x28 0x11000201 0xFFFFFFFF errored = .ok false e' := ⟨_, rfl⟩
    obtain ⟨old, new, ho, hnew, hback⟩ := hb _ _ he
    refine ⟨e', he, ?_, ?_⟩
    · cases ho
      cases he
      rw [hnew]
      exact congrArg Except.ok hback
    · have hq := hn (.channel .graphics .blocks) 0x24 (by decide) (by rfl)
      rw [he] at hq
      exact hq.trans rfl
  · obtain ⟨old, new, e', ho, hwrite, hnew, hkept⟩ := hk 0x74 (by rfl)
    rw [hr] at ho
    cases ho
    exact ⟨e', new, hwrite, hnew, hkept⟩

end Engine

end DmaMachine
