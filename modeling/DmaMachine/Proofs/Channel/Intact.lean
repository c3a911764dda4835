import DmaMachine.Proofs.Channel.Regular
import DmaMachine.Proofs.Channel.Programming
import DmaMachine.Proofs.Failing
import DmaMachine.Proofs.Memory

/-!
# Intact channels

A dozen operations change overlapping parts of a channel, and its control word may be rewritten in
the middle of a transfer, so that the loop of one mode runs on counters that another has set up.
What is true of a channel between any two of them is that it is *intact*: an active channel is
running and a running one shows its start bit; what it has of addresses lies in their 24 bits, and
it accesses whole words; its control word has no bit that it does not store; and it has not visited
more nodes than a list may have.

A step of an intact channel can fail for three reasons: a device does, a list has too many nodes, or
the channel was programmed for the reserved mode.

* `Intact.after`: **every deed keeps a channel intact.**
* `Attempt.perform_fails`: an attempt of an intact channel fails when a device does.
* `reached_intact`: the statement, for every channel that can be reached from power-on.
-/

namespace DmaMachine

variable {α β δ : Type}

/-! ### Control words -/

/-- The bits that the control word of a channel may have. -/
def Peer.storable (p : Peer) : UInt32 :=
  if p = .orderingTable then 0x51000002 else Control.storable

/-- The control word is one that the channel stores. -/
structure Control.StoredBy (p : Peer) (k : Control) : Prop where
  bits : ∀ i < 32, bit k.bits i = true → bit p.storable i = true
  decrement : p = .orderingTable → k.has .decrement = true

theorem Control.StoredBy.set {p : Peer} {k : Control} (h : k.StoredBy p) {f : Flag} {on : Bool}
    (hf : bit p.storable f.position = true) (hd : f ≠ .decrement) : (k.set f on).StoredBy p where
  bits i hi hb := by
    by_cases he : i = f.position
    · rwa [he]
    · exact h.bits i hi (k.bit_set f on hi he ▸ hb)
  decrement hp := by simp [Ne.symm hd, h.decrement hp]

theorem Peer.storable_startBusy (p : Peer) :
    bit p.storable Control.Flag.startBusy.position = true := by
  cases p <;> decide

theorem Peer.storable_forceStart (p : Peer) :
    bit p.storable Control.Flag.forceStart.position = true := by
  cases p <;> decide

namespace Channel

variable {p : Peer} {c d : Channel}

theorem storedControl_storedBy (p : Peer) (v : UInt32) : (storedControl p v).StoredBy p := by
  by_cases hp : p = .orderingTable
  · have hm : ∀ i < 32, bit 0x51000000 i = true → bit p.storable i = true := by
      subst hp
      decide
    rw [storedControl, if_pos hp]
    refine ⟨fun i hi hb => ?_, fun _ => by simp⟩
    by_cases he : i = Control.Flag.decrement.position
    · subst hp
      rw [he]
      decide
    · rw [Control.bit_set _ _ _ hi he, bit_and, Bool.and_eq_true] at hb
      exact hm i hi hb.2
  · rw [storedControl, if_neg hp]
    refine ⟨fun i _ hb => ?_, fun h => absurd h hp⟩
    rw [bit_and, Bool.and_eq_true] at hb
    rw [Peer.storable, if_neg hp]
    exact hb.2

/-! ### Addresses -/

theorem aligned_and_addressMask {a : UInt32} (h : Width.word.aligned a = true) :
    Width.word.aligned (a &&& addressMask) = true := by
  rw [← and_wordAddressMask h]
  exact aligned_wordAddress a

theorem aligned_add_four {a : UInt32} (h : Width.word.aligned a = true) :
    Width.word.aligned ((a + 4) &&& addressMask) = true := by
  refine aligned_and_addressMask (aligned_word_iff.2 ?_)
  have h4 := aligned_word_iff.1 h
  rw [UInt32.toNat_add, show (4 : UInt32).toNat = 4 from rfl]
  omega

theorem aligned_below {a : UInt32} (h : Width.word.aligned a = true) :
    Width.word.aligned (below a) = true := by
  refine aligned_and_addressMask (aligned_word_iff.2 ?_)
  have h4 := aligned_word_iff.1 h
  rw [UInt32.toNat_sub, show (4 : UInt32).toNat = 4 from rfl]
  omega

theorem aligned_nextAddress (h : Width.word.aligned c.address = true) :
    Width.word.aligned (c.nextAddress p) = true := by
  rw [nextAddress]
  split
  · exact aligned_below h
  · exact aligned_add_four h

/-! ### Intact channels -/

/-- What is true of a channel between any two operations. -/
structure Intact (p : Peer) (c : Channel) : Prop extends Proper p c where
  started : c.running = true → c.control.has .startBusy = true
  base_le : c.base ≤ addressMask
  shadowBase_le : c.shadowBase ≤ addressMask
  aligned_address : Width.word.aligned c.address = true
  aligned_nextNode : Width.word.aligned c.nextNode = true
  stored : c.control.StoredBy p
  nodeCount_le : c.nodeCount ≤ nodeLimit

theorem Intact.held (hc : Intact p c) (held : Option UInt32) : Intact p { c with held } :=
  { hc with toProper := hc.toProper.held held }

theorem Intact.halted (hc : Intact p c) : Intact p c.halted :=
  { hc with toProper := hc.toProper.halted }

/-- The transfer is over: the start bit is down, and the address may have become the base. -/
theorem Intact.completed (hc : Intact p c) : Intact p (completed p c) :=
  { hc with
    toProper := hc.toProper.of_eq rfl rfl nofun (Control.direction_set _ (by decide) _)
    started := nofun
    base_le := by
      show (if _ then _ else _ : UInt32) ≤ _
      split
      · exact hc.address_le
      · exact hc.base_le
    stored := hc.stored.set p.storable_startBusy (by decide) }

theorem Intact.blockEnded (hc : Intact p c) : Intact p c.blockEnded :=
  { hc with
    toProper := hc.toProper.of_eq rfl rfl nofun rfl
    base_le := hc.address_le
    shadowBase_le := hc.address_le }

theorem Intact.countBlock (hc : Intact p c) : Intact p c.countBlock := { hc with }

section Steps

variable [Master β] {s t u : Stage β}

/-- **An attempt that is due and goes through keeps the channel intact.**  A header is due when the
list may have another node. -/
theorem Attempt.access_intact {a : Attempt} {f : Channel → Channel}
    (h : a.access p s = .ok (some f) t) (hd : a.Due c) (hc : Intact p c) : Intact p (f c) := by
  have hp := access_proper h hc.toProper
  have ht := access_takes h
  cases a with
  | unit =>
      cases ht
      exact { hc with toProper := hp, aligned_address := aligned_nextAddress hc.aligned_address }
  | header =>
      obtain ⟨header, rfl⟩ := ht
      exact { hc with
        toProper := hp
        base_le := UInt32.and_le_right
        aligned_address := aligned_add_four hc.aligned_nextNode
        aligned_nextNode := aligned_wordAddress _
        nodeCount_le := hd.2.2 }
  | entry n =>
      cases ht
      exact { hc with toProper := hp, aligned_address := aligned_below hc.aligned_address }

theorem Attempt.perform_intact {a : Attempt} (hd : a.Due s.channel) (hc : Intact p s.channel) :
    Intact p (Op.outcome (a.perform p s)).2.channel := by
  obtain ⟨held, h | h | ⟨f, t, ha, h⟩⟩ := a.perform_channel p s <;> rw [h]
  · exact hc.held held
  · exact (hc.held held).halted
  · have hd : a.Due { s.channel with held } := by cases a <;> exact hd
    exact access_intact ha hd (hc.held held)

theorem InTurn.intact (h : InTurn p s u) (hc : Intact p s.channel) : Intact p u.channel := by
  induction h with
  | none => exact hc
  | next a hf hd ha _ ih =>
      have ht := Attempt.perform_intact hd hc
      rw [ha] at ht
      exact ih ht

theorem Ends.intact {status : Status} (h : Ends p c status d) (hc : Intact p c) : Intact p d := by
  cases h with
  | idle => exact hc
  | completed => exact hc.completed
  | lastBlock => exact hc.countBlock.completed
  | blockDone => exact hc.countBlock.blockEnded
  | chopped => exact hc.halted

/-- **Every step keeps a channel intact**, also one that fails. -/
theorem step_intact (hc : Intact p s.channel) :
    Intact p (Op.outcome (step p s)).2.channel := by
  have hr := step_regular p s
  generalize step p s = r at hr
  cases hr with
  | ended h ht => exact ht.intact (h.intact hc)
  | faulted a h hf hd ha | failed a h hf hd ha =>
      have ht := Attempt.perform_intact hd (h.intact hc)
      rw [ha] at ht
      exact ht
  | overflowed h => exact h.intact hc
  | reserved => exact hc

end Steps

/-! ### What every deed keeps -/

/-- A channel at rest is intact. -/
theorem intact_atRest (hp : Proper p c) (hr : c.running = false) (hb : c.base ≤ addressMask)
    (hs : c.shadowBase = 0) (ha : c.address = 0) (hn : c.nextNode = 0) (hk : c.control.StoredBy p)
    (hl : c.nodeCount = 0) : Intact p c where
  toProper := hp
  started h := absurd (hr.symm.trans h) Bool.false_ne_true
  base_le := hb
  shadowBase_le := by
    rw [hs]
    decide
  aligned_address := by
    rw [ha]
    decide
  aligned_nextNode := by
    rw [hn]
    decide
  stored := hk
  nodeCount_le := hl ▸ Nat.zero_le _

theorem intact_initial (p : Peer) : Intact p (initial p) :=
  intact_atRest (proper_initial p) rfl (by show (0 : UInt32) ≤ _; decide) rfl rfl rfl
    (storedControl_storedBy p _) rfl

theorem Intact.activate (hc : Intact p c) : Intact p c.activate :=
  { hc with
    toProper := hc.toProper.activate
    started := fun _ => startBusy_activate c
    stored := (hc.stored.set p.storable_startBusy (by decide)).set p.storable_forceStart
      (by decide) }

theorem Intact.load (hc : Intact p c) : Intact p (c.load p) := by
  have hp := hc.toProper.load
  have hw : Width.word.aligned (c.base &&& wordAddressMask) = true := aligned_wordAddress _
  rw [Channel.load] at hp ⊢
  dsimp only at hp ⊢
  split at hp
  all_goals
    exact { hc with
      toProper := hp, shadowBase_le := hc.base_le, aligned_address := hw
      aligned_nextNode := by first | exact hw | exact hc.aligned_nextNode
      nodeCount_le := Nat.zero_le _ }

theorem Intact.arm (hc : Intact p c) (resume : Bool) :
    Intact p (Deed.onChannel (arm p resume) c).2 := by
  obtain ⟨-, h⟩ | ⟨-, -, h⟩ | ⟨_, -, -, h⟩ := arm_cases p resume c <;> rw [h]
  · exact hc.activate
  · exact hc.load.activate
  · exact hc

theorem Intact.abort (hc : Intact p c) : Intact p c.abort :=
  { hc with toProper := hc.toProper.of_eq rfl rfl nofun rfl, started := nofun }

theorem Intact.writeControl (hc : Intact p c) (v : UInt32) :
    Intact p (Deed.onChannel (writeControl p v) c).2 := by
  have hp := hc.toProper.stored v
  have hk := storedControl_storedBy p v
  obtain ⟨-, -, h⟩ | ⟨hb, h⟩ := writeControl_cases p v c
  · rw [h]
    have hd : Intact p { c with control := storedControl p v, running := false, active := false } :=
      { hc with toProper := hp.of_eq rfl rfl nofun rfl, started := nofun, stored := hk }
    exact hd.abort
  -- A running transfer goes on under the new word, which shows its start bit.
  · have hd : Intact p { c with control := storedControl p v } :=
      { hc with toProper := hp, started := hb, stored := hk }
    obtain ⟨-, -, h⟩ | ⟨-, h⟩ := h <;> rw [h]
    · exact hd.arm c.running
    · exact hd

/-- **Every deed keeps a channel intact.** -/
theorem Intact.after [Master β] (hc : Intact p c) (d : Deed β) : Intact p (d.after p c) := by
  cases d with
  | write r v mask =>
      cases r with
      | base => exact { hc with toProper := hc.toProper.of_eq rfl rfl hc.running rfl
                                base_le := UInt32.and_le_right }
      | blocks => exact { hc with toProper := hc.toProper.of_eq rfl rfl hc.running rfl }
      | control =>
          rw [Deed.after_writeControl]
          exact hc.writeControl _
  | request =>
      rw [Deed.after_request]
      obtain ⟨-, -, h⟩ | ⟨-, h⟩ := request_cases p c <;> rw [h]
      · exact hc.arm c.running
      · exact hc
  | arm resume => exact hc.arm resume
  | step controller bus =>
      rw [Deed.after_step]
      exact step_intact hc
  | finish last controller bus =>
      rw [Deed.after_finish]
      cases last with
      | true => exact hc.completed
      | false => exact hc.blockEnded
  | reset => exact intact_initial p
  | load base blocks control =>
      exact intact_atRest (proper_of_stored rfl rfl rfl rfl) rfl UInt32.and_le_right rfl rfl rfl
        (storedControl_storedBy p _) rfl

/-! ### Attempts that fail -/

section Fails

variable [Board δ] {s t : Stage (Bus δ)} {e : Fault}

/-- The fault is a device's, and the bus as that device left it. -/
def StageFails (e : Fault) (s : Stage (Bus δ)) : Prop := DeviceFails e s.bus

theorem onBus_failsBy {op : Op (Bus δ) α} (h : Op.FailsBy DeviceFails op) :
    Op.FailsBy StageFails (Stage.onBus op) := by
  intro s e t ht
  rw [← Op.outcome_eq_error, Stage.outcome_onBus, Prod.mk.injEq] at ht
  obtain ⟨he, rfl⟩ := ht
  exact h (Op.outcome_eq_error.1 (Prod.ext he rfl))

theorem exception_failsBy : Op.FailsBy StageFails (Stage.exception (β := Bus δ)) := by
  rintro s e t ⟨⟩

theorem channelOf_failsBy (f : Channel → α) :
    Op.FailsBy StageFails (Stage.channelOf (β := Bus δ) f) := by
  rintro s e t ⟨⟩

theorem onChannel_failsBy (f : Channel → Channel) :
    Op.FailsBy StageFails (Stage.onChannel (β := Bus δ) f) := by
  rintro s e t ⟨⟩

theorem unitFromRam_failsBy {port : DataPort} (hp : p.port? = some port) {a : UInt32}
    (ha : Width.word.aligned a = true) :
    Op.FailsBy StageFails (unitFromRam (β := Bus δ) port a) := by
  refine .bind (onBus_failsBy (Bus.read_failsBy ha)) fun v => .bind exception_failsBy fun up => ?_
  cases up with
  | true => exact .pure _
  | false =>
      exact .bind (onBus_failsBy (DataPort.write_failsBy (Peer.port_aligned hp) v)) fun _ =>
        .bind exception_failsBy fun _ => .pure _

theorem takeUnit_failsBy {port : DataPort} (hp : p.port? = some port) :
    Op.FailsBy StageFails (takeUnit (β := Bus δ) port) := by
  refine .bind (channelOf_failsBy _) fun held => ?_
  cases held with
  | some v => exact .bind (onChannel_failsBy _) fun _ => .pure _
  | none =>
      refine .bind (onBus_failsBy (DataPort.read_failsBy (Peer.port_aligned hp))) fun v =>
        .bind exception_failsBy fun up => ?_
      cases up <;> exact .pure _

theorem unitToRam_failsBy {port : DataPort} (hp : p.port? = some port) {a : UInt32}
    (ha : Width.word.aligned a = true) :
    Op.FailsBy StageFails (unitToRam (β := Bus δ) port a) := by
  refine .bind (takeUnit_failsBy hp) fun taken => ?_
  cases taken with
  | none => exact .pure _
  | some v =>
      refine .bind (onBus_failsBy (Bus.write_failsBy ha v)) fun _ =>
        .bind exception_failsBy fun up => ?_
      cases up with
      | true => exact .bind (onChannel_failsBy _) fun _ => .pure _
      | false => exact .pure _

theorem transferUnit_fails (hp : p ≠ .orderingTable) (hc : Intact p s.channel)
    (h : transferUnit p s = .error e t) : StageFails e t := by
  obtain ⟨port, hport⟩ := Option.ne_none_iff_exists'.1 (mt Peer.port?_eq_none_iff.1 hp)
  cases hd : s.channel.control.direction with
  | fromRam =>
      rw [transferUnit_of_fromRam hport hd] at h
      exact unitFromRam_failsBy hport hc.aligned_address h
  | toRam =>
      rw [transferUnit_of_toRam hport hd] at h
      exact unitToRam_failsBy hport hc.aligned_address h

/-- **An attempt of an intact channel fails when a device does.**  It goes through a port that is
there, and all its accesses are aligned. -/
theorem Attempt.perform_fails {a : Attempt} (hf : a.Fits p s.channel) (hc : Intact p s.channel)
    (h : a.perform p s = .error e t) : StageFails e t := by
  obtain ⟨_, _, -, -, hr⟩ | ⟨_, _, -, -, hr⟩ | ⟨_, _, ha, hr⟩ := perform_cases h <;> cases hr
  cases a with
  | unit => exact Op.fails_of_bind (fun _ _ => transferUnit_fails hf.1 hc) (fun _ => .pure _) ha
  | header =>
      exact Op.fails_of_bind (@onBus_failsBy _ _ _ _ (Bus.read_failsBy hc.aligned_nextNode) s)
        (fun _ => .pure _) ha
  | entry n =>
      exact Op.fails_of_bind (@onBus_failsBy _ _ _ _ (Bus.write_failsBy hc.aligned_address _) s)
        (fun _ => .pure _) ha

end Fails

/-! ### Channels that can be reached -/

/-- The channel comes about from power-on.  A write may be to any offset, and every step may be on
another bus, with other devices. -/
inductive Reached (p : Peer) : Channel → Prop where
  | initial : Reached p (initial p)
  | writeAt {c : Channel} (offset v mask : UInt32) (h : Reached p c) :
      Reached p (Op.outcome (writeAt p offset v mask c)).2
  | deed {c : Channel} {δ : Type} [Board δ] (d : Deed (Bus δ)) (h : Reached p c) :
      Reached p (d.after p c)

theorem Intact.write (hc : Intact p c) (r : Register) (v mask : UInt32) :
    Intact p (Op.outcome (Channel.write p r v mask c)).2 :=
  Deed.snd_onChannel (Channel.write p r v mask) c ▸
    hc.after (.write r v mask : Deed (Bus BareBoard))

theorem Intact.request (hc : Intact p c) : Intact p (Op.outcome (Channel.request p c)).2 :=
  Deed.snd_onChannel (Channel.request p) c ▸ hc.after (.request : Deed (Bus BareBoard))

theorem Intact.writeAt (hc : Intact p c) (offset v mask : UInt32) :
    Intact p (Op.outcome (writeAt p offset v mask c)).2 := by
  rw [Channel.writeAt]
  cases Register.ofOffset? offset with
  | none => exact hc
  | some r => exact hc.write r v mask

theorem Reached.intact (h : Reached p c) : Intact p c := by
  induction h with
  | initial => exact intact_initial p
  | writeAt offset v mask _ ih => exact ih.writeAt offset v mask
  | deed d _ ih => exact ih.after d

/-- **Every channel that can be reached is intact.**  So a step of it takes no counter below zero
and visits no node past the limit, since every attempt is made where it is due; and it fails only
when a device fails, when a list has all the nodes that it may have and goes on, or, before anything
is done, when the reserved mode is programmed. -/
theorem reached_intact (h : Reached p c) :
    Intact p c ∧ ∀ {δ : Type} [Board δ] (k : Controller) (b : Bus δ),
      Regular p ⟨c, k, b⟩ (step p ⟨c, k, b⟩) ∧
        ∀ e t, step p ⟨c, k, b⟩ = .error e t →
          DeviceFails e t.bus ∨
            (t.channel.nodeCount = nodeLimit ∧
              e = .channel (.linkedListOverflow p.index nodeLimit t.channel.nextNode)) ∨
            (c.mode p = .reserved ∧ t = ⟨c, k, b⟩ ∧
              e = .channel (.unsupportedSyncMode p.index p.name 3)) := by
  have hc := h.intact
  refine ⟨hc, fun k b => ⟨step_regular p _, fun e t he => ?_⟩⟩
  have ho := step_regular p ⟨c, k, b⟩
  rw [he] at ho
  cases ho with
  | failed a hu hf hd ha => exact .inl (Attempt.perform_fails hf (hu.intact hc) ha)
  | overflowed hu hl hn =>
      exact .inr (.inl ⟨Nat.le_antisymm (hu.intact hc).nodeCount_le hn, rfl⟩)
  | reserved hm =>
      refine .inr (.inr ⟨hm, rfl, ?_⟩)
      have hp : p ≠ .orderingTable := by
        rintro rfl
        cases hm
      have hs : c.control.syncMode = .reserved := (if_neg hp).symm.trans hm
      show c.modeFault p = _
      rw [modeFault, hs]
      rfl

/-- A burst of the graphics that is programmed for the reserved mode once it has started. -/
def misprogrammed : Channel :=
  (Op.outcome (writeAt .graphics 8 0x01000601 0xFFFFFFFF
    (Op.outcome (writeAt .graphics 8 0x01000001 0xFFFFFFFF (initial .graphics))).2)).2

/-- It is active and intact, and its next step is refused. -/
theorem misprogrammed_intact :
    misprogrammed.active = true ∧ Intact .graphics misprogrammed ∧
      ∃ t, step .graphics ⟨misprogrammed, {}, { board := BareBoard.mk : Bus BareBoard }⟩ =
          .error (.channel (.unsupportedSyncMode 2 "GPU" 3)) t ∧
        t.channel = misprogrammed := by
  have hr : Reached .graphics misprogrammed := .writeAt _ _ _ (.writeAt _ _ _ .initial)
  exact ⟨by decide +kernel, (reached_intact hr).1, _, rfl, rfl⟩

end Channel

end DmaMachine
