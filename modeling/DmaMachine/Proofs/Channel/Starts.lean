import DmaMachine.Proofs.Channel.Intact
import DmaMachine.Proofs.Channel.Delivery

/-!
# Starts that are heard

A start of a channel at rest is asked for by an edge: a write of the control word that raises the
start bit or the forced-start bit, or a request of the peripheral while the start bit stands.  What
is programmed is then validated, the mode before the direction.

So that no start is missed, a channel at rest should show neither bit.  They come down in different
places.  A start takes down the forced-start bit, and the end of a transfer the start bit; but a
word that is written to an active channel, or that ends a transfer, is stored with its forced-start
bit, which then stands when the channel is at rest.  The next forced start is no edge, and is
ignored.

* `fresh_cases`: **a start is refused for a mode that is not one of the peer's, else for a direction
  that is not, and arms the transfer otherwise.**
* `heard_iff`: which writes a channel at rest hears that does not show its start bit.
* `turn_after`: what a deed that is not answered with a fault does to the two bits.
* `starts_heard_iff`: **in every history without faults a channel at rest does not show its start
  bit**, and hears every start when the forced-start bit is down as well; that bit never stands
  exactly in the histories where no write latches it.
-/

namespace DmaMachine

namespace Channel

section Words

variable {p : Peer} {c : Channel} {v mask : UInt32}

/-! ### What a start comes to -/

/-- What a start comes to under the programming at hand.  Says that the channel became active. -/
def fresh (p : Peer) : Op Channel Bool := fun c =>
  match c.refusal? p with
  | some fault => .error fault c
  | none => .ok true (c.load p).activate

/-- The mode is not one of the peer's.  An ordering table has no use for the mode. -/
def WrongMode (p : Peer) (c : Channel) : Prop :=
  p ≠ .orderingTable ∧ (c.control.syncMode = .reserved ∨
    (c.control.syncMode = .linkedList ∧ p ≠ .graphics))

/-- The direction is not one of the peer's, or a list is to go towards memory. -/
def WrongDirection (p : Peer) (c : Channel) : Prop :=
  p.supports c.control.direction = false ∨
    (c.mode p = .linkedList ∧ c.control.direction = .toRam)

instance (p : Peer) (c : Channel) : Decidable (WrongMode p c) :=
  inferInstanceAs (Decidable (_ ∧ (_ ∨ _)))

instance (p : Peer) (c : Channel) : Decidable (WrongDirection p c) :=
  inferInstanceAs (Decidable (_ ∨ _))

theorem wrongMode_iff : WrongMode p c ↔
    c.mode p = .reserved ∨ (c.mode p = .linkedList ∧ p.walksLists = false) := by
  have hw : p.walksLists = false ↔ p ≠ .graphics := by cases p <;> simp [Peer.walksLists]
  rw [WrongMode, mode, hw]
  by_cases hp : p = .orderingTable
  · simp [hp]
  · simp [hp]

/-- **A start is refused for the mode, else for the direction**, and with nothing but the control
word changed; otherwise it arms the transfer. -/
theorem fresh_cases (p : Peer) (c : Channel) :
    (WrongMode p c ∧ fresh p c = .error (c.modeFault p) c) ∨
      (¬ WrongMode p c ∧ WrongDirection p c ∧ fresh p c = .error (c.directionFault p) c) ∨
      (¬ WrongMode p c ∧ ¬ WrongDirection p c ∧ fresh p c = .ok true (c.load p).activate) := by
  rw [fresh, refusal?]
  by_cases hm : WrongMode p c
  · exact .inl ⟨hm, by rw [if_pos (wrongMode_iff.1 hm)]⟩
  · rw [if_neg (mt wrongMode_iff.2 hm)]
    by_cases hd : WrongDirection p c
    · refine .inr (.inl ⟨hm, hd, ?_⟩)
      rw [WrongDirection] at hd
      rw [if_pos hd]
    · refine .inr (.inr ⟨hm, hd, ?_⟩)
      rw [WrongDirection] at hd
      rw [if_neg hd]

theorem fresh_eq_arm (p : Peer) (c : Channel) : fresh p c = match arm p false c with
    | .ok () c => .ok true c
    | .error e c => .error e c := by
  rw [fresh]
  cases hf : c.refusal? p with
  | some fault => rw [arm_of_refusal hf]
  | none => rw [arm_of_accepted hf]

/-- A rising bit starts a transfer. -/
theorem writeControl_rises (hn : c.running = false) (ha : c.active = false)
    (h : Rises c.control (storedControl p v)) :
    writeControl p v c = fresh p { c with control := storedControl p v } := by
  have hr : (((storedControl p v).has .startBusy && !c.control.has .startBusy ||
      (storedControl p v).has .forceStart && !c.control.has .forceStart) && !c.active) = true := by
    simpa [ha, Rises] using h
  have hf : ¬ (c.running && !(storedControl p v).has .startBusy) = true := by simp [hn]
  rw [fresh_eq_arm, ← hn]
  exact (if_neg hf).trans (if_pos hr)

/-- Without one the word is stored, and that is all. -/
theorem writeControl_steady (hn : c.running = false)
    (h : ¬ Rises c.control (storedControl p v)) :
    writeControl p v c = .ok false { c with control := storedControl p v } := by
  have hr : ¬ (((storedControl p v).has .startBusy && !c.control.has .startBusy ||
      (storedControl p v).has .forceStart && !c.control.has .forceStart) && !c.active) = true := by
    intro hr
    refine h ?_
    simp only [Bool.and_eq_true, Bool.or_eq_true, Bool.not_eq_true'] at hr
    exact hr.1
  have hf : ¬ (c.running && !(storedControl p v).has .startBusy) = true := by simp [hn]
  exact (if_neg hf).trans (if_neg hr)

/-- A request starts a transfer while the start bit stands. -/
theorem request_starts (hn : c.running = false) (ha : c.active = false)
    (h : c.control.has .startBusy = true) : request p c = fresh p c := by
  have hf : ¬ (c.active || !c.control.has .startBusy) = true := by simp [ha, h]
  rw [fresh_eq_arm, ← hn]
  exact if_neg hf

/-! ### Writes that ask for a start -/

/-- Every channel stores the two bits that ask for a start. -/
theorem has_storedControl {f : Control.Flag} (hf : f = .startBusy ∨ f = .forceStart) (p : Peer)
    (v : UInt32) : (storedControl p v).has f = (⟨v⟩ : Control).has f := by
  have hd : f ≠ .decrement := by rintro rfl; obtain h | h := hf <;> cases h
  have ht : bit 0x51000000 f.position = true := by obtain rfl | rfl := hf <;> decide
  have hs : bit Control.storable f.position = true := by obtain rfl | rfl := hf <;> decide
  rw [storedControl]
  split
  · rw [Control.has_set, if_neg hd, Control.has, bit_and, ht, Bool.and_true]
    rfl
  · rw [Control.has, bit_and, hs, Bool.and_true]
    rfl

/-- The control word after the write, as far as the channel stores it. -/
def rewritten (p : Peer) (c : Channel) (v mask : UInt32) : Control :=
  storedControl p (merge c.control.bits v mask)

/-- The write of the control word asks for a start. -/
def Asks (c : Channel) (v mask : UInt32) : Prop :=
  (⟨merge c.control.bits v mask⟩ : Control).has .startBusy = true ∨
    (⟨merge c.control.bits v mask⟩ : Control).has .forceStart = true

/-- The write of the control word arms a transfer, or the programming is refused. -/
def Heard (p : Peer) (c : Channel) (v mask : UInt32) : Prop :=
  (∃ d, write p .control v mask c = .ok true d ∧ d.running = true ∧ d.active = true ∧
      d.control.has .startBusy = true ∧ d.control.has .forceStart = false) ∨
    ∃ fault d, write p .control v mask c = .error fault d ∧ d.refusal? p = some fault

/-- Every write of the control word that asks for a start is heard. -/
def Responsive (p : Peer) (c : Channel) : Prop := ∀ v mask, Asks c v mask → Heard p c v mask

/-- **A write that asks for a start is heard when a bit of it rises.** -/
theorem heard_iff_rises (hn : c.running = false) (ha : c.active = false) :
    Heard p c v mask ↔ Rises c.control (rewritten p c v mask) := by
  constructor
  · intro h
    by_contra hr
    have hw : write p .control v mask c = .ok false _ := writeControl_steady hn hr
    obtain ⟨d, hd, -⟩ | ⟨fault, d, hd, -⟩ := h <;> rw [hw] at hd <;> cases hd
  · intro h
    have hw : write p .control v mask c = fresh p { c with control := rewritten p c v mask } :=
      writeControl_rises hn ha h
    rw [fresh] at hw
    split at hw
    · exact .inr ⟨_, _, hw, by assumption⟩
    · exact .inl ⟨_, hw, rfl, rfl, startBusy_activate _, forceStart_activate _⟩

/-- On a channel at rest without its start bit, a write that sets the start bit is heard, and one
that forces a start is heard unless the channel shows that bit already. -/
theorem heard_iff (hn : c.running = false) (ha : c.active = false)
    (hb : c.control.has .startBusy = false) (h : Asks c v mask) :
    Heard p c v mask ↔ (⟨merge c.control.bits v mask⟩ : Control).has .startBusy = true ∨
      c.control.has .forceStart = false := by
  rw [heard_iff_rises hn ha, Rises, rewritten, has_storedControl (.inl rfl),
    has_storedControl (.inr rfl)]
  obtain h | h := h <;> simp [h, hb]

/-- All are heard when the channel does not show the forced-start bit. -/
theorem responsive_iff (hn : c.running = false) (ha : c.active = false)
    (hb : c.control.has .startBusy = false) :
    Responsive p c ↔ c.control.has .forceStart = false := by
  constructor
  · intro h
    -- The write of nothing but the forced-start bit.
    have hm : merge c.control.bits Control.Flag.forceStart.mask 0xFFFFFFFF = _ := merge_full _ _
    have hs : (⟨Control.Flag.forceStart.mask⟩ : Control).has .startBusy = false := by decide
    have ha' : Asks c Control.Flag.forceStart.mask 0xFFFFFFFF := by
      rw [Asks, hm]
      exact .inr (by decide)
    have hk := (heard_iff hn ha hb ha').1 (h _ _ ha')
    rw [hm, hs] at hk
    exact hk.resolve_left Bool.false_ne_true
  · intro hf v mask h
    exact (heard_iff hn ha hb h).2 (.inr hf)

end Words

section Deeds

variable {β : Type} [Master β] {p : Peer} {c e : Channel} {d : Deed β}

/-! ### What an accepted deed does to the two bits -/

/-- The deed is not answered with a fault. -/
def Accepted (p : Peer) (c : Channel) (d : Deed β) : Prop := d.answer p c = .ok ()

instance (c : Channel) (d : Deed β) : Decidable (Accepted p c d) :=
  decidable_of_iff ((d.answer p c).isOk = true) (by
    rw [Accepted]
    cases d.answer p c <;> simp [Except.isOk, Except.toBool])

/-- The deed stores the forced-start bit without a start: it writes the bit while the channel is
active, or together with the end of a transfer. -/
def Latches (p : Peer) (c : Channel) : Deed β → Prop
  | .write .control v mask =>
      (rewritten p c v mask).has .forceStart = true ∧
        (c.active = true ∨ (c.running = true ∧ (rewritten p c v mask).has .startBusy = false))
  | _ => False

/-- What an accepted deed leaves of the control word, and whether it leaves the channel running. -/
inductive Turn (p : Peer) (c : Channel) : Deed β → Channel → Prop where
  | activated {d : Deed β} {e : Channel} (hl : ¬ Latches p c d) : Turn p c d e.activate
  | kept {d : Deed β} {e : Channel} (hl : ¬ Latches p c d) (hr : e.running = c.running)
      (hk : e.control = c.control) : Turn p c d e
  /-- The transfer is over. -/
  | ended {d : Deed β} {e : Channel} (hl : ¬ Latches p c d) (hr : e.running = false)
      (hk : e.control = c.control.set .startBusy false) : Turn p c d e
  /-- The channel begins anew, with neither bit. -/
  | renewed {d : Deed β} {e : Channel} (hl : ¬ Latches p c d) (hr : e.running = false)
      (hb : e.control.has .startBusy = false) (hf : e.control.has .forceStart = false) :
      Turn p c d e
  | aborted {v mask : UInt32} {e : Channel} (hr : c.running = true) (he : e.running = false)
      (hb : (rewritten p c v mask).has .startBusy = false)
      (hk : e.control = rewritten p c v mask) : Turn p c (.write .control v mask) e
  /-- The word is stored, and there is no edge, or the channel is active. -/
  | stored {v mask : UInt32} {e : Channel} (hr : e.running = c.running)
      (hb : c.running = true → (rewritten p c v mask).has .startBusy = true)
      (hn : ¬ (Rises c.control (rewritten p c v mask) ∧ c.active = false))
      (hk : e.control = rewritten p c v mask) : Turn p c (.write .control v mask) e

omit [Master β] in
theorem turn_arm {resume : Bool} {b : Channel} (hl : ¬ Latches p c d)
    (h : (Deed.onChannel (arm p resume) b).1 = .ok ()) :
    Turn p c d (Deed.onChannel (arm p resume) b).2 := by
  obtain ⟨-, ha⟩ | ⟨-, -, ha⟩ | ⟨_, -, -, ha⟩ := arm_cases p resume b <;> rw [ha] at h ⊢
  · exact .activated hl
  · exact .activated hl
  · cases h

/-- A channel at power-on shows neither bit, -/
theorem has_initial (p : Peer) :
    (initial p).control.has .startBusy = false ∧ (initial p).control.has .forceStart = false :=
  ⟨(has_storedControl (.inl rfl) p 0).trans (bit_zero _),
    (has_storedControl (.inr rfl) p 0).trans (bit_zero _)⟩

/-- and the registers of a saved one are loaded without them. -/
theorem has_atRest (p : Peer) (base blocks control : UInt32) :
    (atRest p base blocks control).control.has .startBusy = false ∧
      (atRest p base blocks control).control.has .forceStart = false := by
  have hs : ∀ {f}, f = .startBusy ∨ f = .forceStart →
      (atRest p base blocks control).control.has f = _ := fun hf => has_storedControl hf p _
  rw [hs (.inl rfl), hs (.inr rfl)]
  constructor
  all_goals
    simp only [Control.has, bit_and, bit_not, Control.Flag.bit_mask _ (Control.Flag.position_lt _)]
    simp [Control.Flag.position]

/-- **An accepted deed makes one of these turns.** -/
theorem turn_after (h : Accepted p c d) : Turn p c d (d.after p c) := by
  rw [Accepted, Deed.answer] at h
  cases d with
  | write r v mask =>
      cases r with
      | base | blocks => exact .kept id rfl rfl
      | control =>
          rw [Deed.perform_writeControl] at h
          rw [Deed.after_writeControl]
          obtain ⟨hr, hb, hw⟩ | ⟨hb, ⟨hs, ha, hw⟩ | ⟨hn, hw⟩⟩ :=
            writeControl_cases p (merge c.control.bits v mask) c <;> rw [hw] at h ⊢
          · exact .aborted hr rfl hb rfl
          · refine turn_arm ?_ h
            rintro ⟨-, hc | ⟨hr, hf⟩⟩
            · exact absurd (ha.symm.trans hc) Bool.false_ne_true
            · exact absurd (hf.symm.trans (hb hr)) Bool.false_ne_true
          · exact .stored rfl hb hn rfl
  | request =>
      rw [Deed.after_request]
      change (Deed.onChannel (Channel.request p) c).1 = _ at h
      obtain ⟨-, -, hw⟩ | ⟨-, hw⟩ := request_cases p c <;> rw [hw] at h ⊢
      · exact turn_arm id h
      · exact .kept id rfl rfl
  | arm resume => exact turn_arm id h
  | step controller bus =>
      rw [Deed.after_step]
      obtain ⟨hr, hk⟩ | ⟨hr, hk⟩ := step_ends p ⟨c, controller, bus⟩
      · exact .kept id hr hk
      · exact .ended id hr hk
  | finish last controller bus =>
      rw [Deed.after_finish]
      cases last with
      | true => exact .ended id rfl rfl
      | false => exact .kept id rfl rfl
  | reset =>
      obtain ⟨hb, hf⟩ := has_initial p
      exact .renewed id rfl hb hf
  | load base blocks control =>
      obtain ⟨hb, hf⟩ := has_atRest p base blocks control
      exact .renewed id rfl hb hf

/-- A channel at rest does not show its start bit. -/
def Quiet (c : Channel) : Prop := c.running = false → c.control.has .startBusy = false

/-- **An accepted deed leaves no channel at rest with its start bit.** -/
theorem Quiet.after (hc : Quiet c) (ha : c.active = true → c.running = true)
    (h : Accepted p c d) : Quiet (d.after p c) := by
  intro hn
  have ht := turn_after h
  generalize d.after p c = e at ht hn
  cases ht with
  | activated => cases hn
  | kept _ hr hk => rw [hk]; exact hc (hr ▸ hn)
  | ended _ _ hk => simp [hk]
  | renewed _ _ hb => exact hb
  | aborted _ _ hb hk => rw [hk]; exact hb
  | stored hr _ hs hk =>
      -- The start bit was down, and it did not rise.
      have hn : c.running = false := hr ▸ hn
      have hd : c.active = false := by
        by_contra hd
        exact absurd (hn.symm.trans (ha (by simpa using hd))) Bool.false_ne_true
      rw [hk]
      by_contra hb
      exact hs ⟨.inl ⟨by simpa using hb, hc hn⟩, hd⟩

/-- **The forced-start bit comes to stand by a write that latches it**, and by nothing else. -/
theorem forceStart_after (hc : c.control.has .forceStart = false) (h : Accepted p c d) :
    (d.after p c).control.has .forceStart = true ↔ Latches p c d := by
  have ht := turn_after h
  generalize d.after p c = e at ht
  cases ht with
  | activated hl => simp [hl]
  | kept hl _ hk => simp [hl, hk, hc]
  | ended hl _ hk => simp [hl, hk, hc]
  | renewed hl _ _ hf => simp [hl, hf]
  | @aborted v mask _ hr _ hb hk =>
      rw [hk]
      exact ⟨fun hf => ⟨hf, .inr ⟨hr, hb⟩⟩, And.left⟩
  | @stored v mask _ _ hb hs hk =>
      rw [hk]
      refine ⟨fun hf => ⟨hf, .inl ?_⟩, And.left⟩
      by_contra ha
      exact hs ⟨.inr ⟨hf, hc⟩, by simpa using ha⟩

end Deeds

/-! ### Histories without faults -/

section Histories

variable {δ : Type} [Board δ] {p : Peer} {c : Channel} {ds : List (Deed (Bus δ))}

/-- An invariant that every deed of a history keeps is true at the end. -/
theorem Always.afterAll {P : Channel → Deed (Bus δ) → Prop} {I : Channel → Prop}
    (hI : ∀ c d, I c → P c d → I (d.after p c)) :
    ∀ {ds : List (Deed (Bus δ))} {c : Channel}, I c → Always p P c ds → I (afterAll p c ds)
  | [], _, hc, _ => hc
  | d :: _, c, hc, ⟨hd, h⟩ => by
      rw [Channel.afterAll]
      exact Always.afterAll hI (hI c d hc hd) h

/-- The deed leaves the forced-start bit down. -/
def Unforced (p : Peer) (c : Channel) (d : Deed (Bus δ)) : Prop :=
  (d.after p c).control.has .forceStart = false

theorem unforced_iff (hc : c.control.has .forceStart = false) {d : Deed (Bus δ)}
    (h : Accepted p c d) : Unforced p c d ↔ ¬ Latches p c d := by
  rw [← forceStart_after hc h, Unforced, Bool.not_eq_true]

/-- The two ways to say that no deed lets the forced-start bit stand. -/
theorem always_unforced_iff : ∀ {ds : List (Deed (Bus δ))} {c : Channel},
    c.control.has .forceStart = false → Always p (Accepted p) c ds →
      (Always p (Unforced p) c ds ↔ Always p (fun c d => ¬ Latches p c d) c ds)
  | [], _, _, _ => Iff.rfl
  | d :: _, c, hc, ⟨ha, h⟩ => by
      have hd := unforced_iff hc ha
      constructor
      · rintro ⟨hu, hs⟩
        exact ⟨hd.1 hu, (always_unforced_iff hu h).1 hs⟩
      · rintro ⟨hl, hs⟩
        exact ⟨hd.2 hl, (always_unforced_iff (hd.2 hl) h).2 hs⟩

/-- **In every history without faults a channel at rest does not show its start bit, and a write
that asks for a start is heard unless all it asks with is a forced-start bit that stands already.**
So all are heard where that bit is down; and it is down all the time exactly in the histories where
no write latches it, neither on an active channel nor together with the end of a transfer. -/
theorem starts_heard_iff (h : Always p (Accepted p) (initial p) ds) :
    (Always p (Unforced p) (initial p) ds ↔
        Always p (fun c d => ¬ Latches p c d) (initial p) ds) ∧
      (Always p (Unforced p) (initial p) ds →
        (afterAll p (initial p) ds).control.has .forceStart = false) ∧
      ((afterAll p (initial p) ds).running = false →
        (afterAll p (initial p) ds).control.has .startBusy = false ∧
        (∀ v mask, Asks (afterAll p (initial p) ds) v mask →
          (Heard p (afterAll p (initial p) ds) v mask ↔
            (⟨merge (afterAll p (initial p) ds).control.bits v mask⟩ : Control).has .startBusy =
                true ∨
              (afterAll p (initial p) ds).control.has .forceStart = false)) ∧
        (Responsive p (afterAll p (initial p) ds) ↔
          (afterAll p (initial p) ds).control.has .forceStart = false)) := by
  have hi : (afterAll p (initial p) ds).Quiet ∧ Proper p (afterAll p (initial p) ds) :=
    Always.afterAll (I := fun c => c.Quiet ∧ Proper p c)
      (fun c d hc hd => ⟨hc.1.after hc.2.running hd, hc.2.after d⟩)
      ⟨fun _ => (has_initial p).1, proper_initial p⟩ h
  refine ⟨always_unforced_iff (has_initial p).2 h, fun hu => ?_, fun hn => ?_⟩
  · exact Always.afterAll (I := fun c => c.control.has .forceStart = false)
      (fun _ _ _ hd => hd) (has_initial p).2 hu
  · have ha := hi.2.active_eq_false hn
    have hb := hi.1 hn
    exact ⟨hb, fun v mask hk => heard_iff hn ha hb hk, responsive_iff hn ha hb⟩

/-- A burst of one unit that is programmed, started by force, and done. -/
def forcedBurst : List (Deed (Bus BareBoard)) :=
  [.write .blocks 1 0xFFFFFFFF, .write .control 0x10000001 0xFFFFFFFF, .step {} { board := ⟨⟩ }]

/-- The channel is at rest after it, and another forced start is heard. -/
theorem forcedBurst_heard :
    Always .graphics (Accepted .graphics) (initial .graphics) forcedBurst ∧
      Responsive .graphics (afterAll .graphics (initial .graphics) forcedBurst) := by
  have h : Always .graphics (Accepted .graphics) (initial .graphics) forcedBurst := by
    decide +kernel
  obtain ⟨-, -, hr⟩ := starts_heard_iff h
  exact ⟨h, (hr (by decide +kernel)).2.2.2 (by decide +kernel)⟩

/-- The forced start is written while the channel is active. -/
def latchedBurst : List (Deed (Bus BareBoard)) :=
  [.write .blocks 1 0xFFFFFFFF, .write .control 0x01000001 0xFFFFFFFF,
    .write .control 0x11000001 0xFFFFFFFF, .step {} { board := ⟨⟩ }]

/-- It stands when the transfer is over, and the next forced start is ignored. -/
theorem latchedBurst_ignores :
    let c := afterAll .graphics (initial .graphics) latchedBurst
    Always .graphics (Accepted .graphics) (initial .graphics) latchedBurst ∧
      c.running = false ∧ c.control.bits = 0x10000001 ∧ Asks c 0x10000001 0xFFFFFFFF ∧
      write .graphics .control 0x10000001 0xFFFFFFFF c = .ok false c ∧
      ¬ Heard .graphics c 0x10000001 0xFFFFFFFF := by
  intro c
  have hn : c.running = false := by decide +kernel
  have hk : c.control.bits = 0x10000001 := by decide +kernel
  have hm : merge c.control.bits 0x10000001 0xFFFFFFFF = 0x10000001 := merge_full _ _
  have ha : Asks c 0x10000001 0xFFFFFFFF := by
    rw [Asks, hm]
    decide
  have hc : c.active = false := by decide +kernel
  have hb : c.control.has .startBusy = false := by decide +kernel
  have hf : ¬ ((⟨0x10000001⟩ : Control).has .startBusy = true ∨
      c.control.has .forceStart = false) := by
    decide +kernel
  have hs : storedControl .graphics 0x10000001 = c.control := by decide +kernel
  have hh : ¬ Heard .graphics c 0x10000001 0xFFFFFFFF := by
    rwa [heard_iff hn hc hb ha, hm]
  have hw : write .graphics .control 0x10000001 0xFFFFFFFF c = .ok false _ :=
    writeControl_steady hn (mt (heard_iff_rises hn hc).2 hh)
  rw [hm, hs] at hw
  exact ⟨by decide +kernel, hn, hk, ha, hw, hh⟩

end Histories

end Channel

end DmaMachine
