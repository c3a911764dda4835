import DmaMachine.Controller
import Mathlib.Data.List.Induction

/-!
# The history of the interrupt line

What can happen to a controller, whatever the cause, are *deeds*: its two words are written through
a mask, a channel ends a transfer or a block, a transfer meets a bus error, the edge is taken, and
the controller is reset or given the words of a snapshot.

The line is kept and not computed, so every deed that touches what it depends on has to bring it up
to date.  That it is up to date is part of what every deed keeps (`Sound`), with the words having no
bits but those that mean something.

* `bit_after`: what a deed makes of the flag of a channel.
* `edge_after`: what a deed makes of the latch.
* `interrupt_history`: **after every history** the line is as the settings and flags demand, a flag
  goes up for a request of a channel that may interrupt and down for a 1 that is written to it, and
  an edge is there to take when the line has risen since the latch was last cleared.
-/

namespace DmaMachine

namespace Controller

/-- What happens to a controller. -/
inductive Deed where
  /-- Bits of the priority word are written where the mask is set. -/
  | writePriority (v mask : UInt32)
  /-- Bits of the interrupt word are written where the mask is set. -/
  | writeInterrupt (v mask : UInt32)
  /-- The transfer of a channel ends. -/
  | complete (p : Peer)
  /-- A block of a channel ends that is not the last. -/
  | endBlock (p : Peer)
  | busError
  | takeEdge
  /-- The words of a snapshot are restored. -/
  | restore (priorityWord interruptWord : UInt32)
  | reset

namespace Deed

/-- The controller after a deed, as the engine, the steps of channels and the machine have it. -/
def after : Deed → Controller → Controller
  | writePriority v mask, c => c.putPriority v mask
  | writeInterrupt v mask, c => c.putInterrupt v mask
  | complete p, c => c.request p.index
  | endBlock p, c => c.endBlock p.index
  | busError, c => c.signalBusError
  | takeEdge, c => c.takeEdge.2
  | restore priorityWord interruptWord, _ => ofWords priorityWord interruptWord
  | reset, _ => {}

/-- Whether the deed asks for an interrupt of a channel, when the interrupt word reads `w`. -/
def requests (p : Peer) (w : UInt32) : Deed → Bool
  | complete q => q = p
  | endBlock q => q = p && bit w p.index
  | _ => false

/-- Whether the deed writes a 1 to the flag of a channel, through a mask that selects it. -/
def acknowledges (p : Peer) : Deed → Bool
  | writeInterrupt v mask => bit v (24 + p.index) && bit mask (24 + p.index)
  | _ => false

/-- The flag of a channel after the deed, when the interrupt word read `w` before it. -/
def flagAfter (p : Peer) (w : UInt32) : Deed → Bool
  | restore _ interruptWord => bit interruptWord (24 + p.index)
  | reset => false
  | d => (bit w (24 + p.index) && !d.acknowledges p) || (d.requests p w && bit w (16 + p.index))

/-- Whether the deed clears the latch of the edge. -/
def unlatches : Deed → Bool
  | takeEdge | restore .. | reset => true
  | _ => false

end Deed

/-- The controller after one deed after the other. -/
def afterAll (ds : List Deed) (c : Controller) : Controller := ds.foldl (fun c d => d.after c) c

@[simp] theorem afterAll_concat (ds : List Deed) (d : Deed) (c : Controller) :
    afterAll (ds ++ [d]) c = d.after (afterAll ds c) := by simp [afterAll]

theorem afterAll_append (ds es : List Deed) (c : Controller) :
    afterAll (ds ++ es) c = afterAll es (afterAll ds c) := by simp [afterAll]

/-! ### Bits of the interrupt word -/

/-- Whether the line has to be high when the interrupt word reads `w`. -/
def Demanded (w : UInt32) : Prop :=
  bit w 23 = true ∧ (bit w 15 = true ∨
    ∃ p : Peer, bit w (16 + p.index) = true ∧ bit w (24 + p.index) = true)

theorem exists_peer {n : Nat} (h : n < channelCount) : ∃ p : Peer, p.index = n := by
  have hall : ∀ n < channelCount, ∃ p ∈ Peer.all, p.index = n := by decide
  obtain ⟨p, -, hp⟩ := hall n h
  exact ⟨p, hp⟩

theorem demanded_iff (c : Controller) : c.demanded = true ↔ Demanded c.interruptWord := by
  simp only [demanded, masterEnable, busError, Bool.and_eq_true, Bool.or_eq_true, Demanded,
    List.any_eq_true, List.mem_range, mayInterrupt, interrupted, decide_eq_true_eq]
  refine and_congr_right fun _ => or_congr_right ⟨?_, ?_⟩
  · rintro ⟨n, hn, ⟨-, hm⟩, -, hi⟩
    obtain ⟨p, rfl⟩ := exists_peer hn
    exact ⟨p, hm, hi⟩
  · rintro ⟨p, hm, hi⟩
    exact ⟨p.index, p.index_lt, ⟨p.index_lt, hm⟩, p.index_lt, hi⟩

theorem mayInterrupt_index (c : Controller) (p : Peer) :
    c.mayInterrupt p.index = bit c.interruptWord (16 + p.index) := by
  simp [mayInterrupt, p.index_lt]

theorem blockInterrupt_index (c : Controller) (p : Peer) :
    c.blockInterrupt p.index = bit c.interruptWord p.index := by
  simp [blockInterrupt, p.index_lt]

/-- The bit that stands for an interrupt of a channel. -/
theorem bit_flag (p : Peer) (i : Nat) :
    bit (1 <<< UInt32.ofNat (24 + p.index)) i = decide (i = 24 + p.index) := by
  by_cases hi : i < 32
  · have hall : ∀ p ∈ Peer.all, ∀ i < 32,
        bit (1 <<< UInt32.ofNat (24 + p.index)) i = decide (i = 24 + p.index) := by decide
    exact hall p (Peer.mem_all p) i hi
  · have := p.index_lt
    rw [bit_of_ge _ (by omega)]
    exact (decide_eq_false (by simp only [channelCount] at this; omega)).symm

theorem settle_settle (c : Controller) : c.settle.settle = c.settle := by
  show { c.settle with
    line := c.settle.demanded, edge := c.settle.edge || (c.settle.demanded && !c.settle.line) } = _
  rw [line_settle, demanded_settle, Bool.and_not_self, Bool.or_false]
  rfl

/-- **A bus error that is noted already** is not noted again. -/
theorem signalBusError_signalBusError (c : Controller) :
    c.signalBusError.signalBusError = c.signalBusError := by
  have hw : (c.interruptWord ||| 0x8000) ||| 0x8000 = c.interruptWord ||| 0x8000 := by
    rw [UInt32.or_assoc, UInt32.or_self]
  show settle
    { c.signalBusError with interruptWord := (c.interruptWord ||| 0x8000) ||| 0x8000 } = _
  rw [hw]
  exact settle_settle { c with interruptWord := c.interruptWord ||| 0x8000 }

/-- Below the line, the interrupt word reads as it is kept. -/
theorem bit_readInterrupt (c : Controller) {i : Nat} (h : i < 31) :
    bit c.readInterrupt i = bit c.interruptWord i := by
  have htop : ∀ i < 31, bit 0x80000000 i = false := by decide
  rw [readInterrupt, bit_or]
  split
  · rw [htop i h, Bool.or_false]
  · rw [bit_zero, Bool.or_false]

theorem demanded_readInterrupt (c : Controller) :
    Demanded c.readInterrupt ↔ Demanded c.interruptWord := by
  have h : ∀ p : Peer, bit c.readInterrupt (16 + p.index) = bit c.interruptWord (16 + p.index) ∧
      bit c.readInterrupt (24 + p.index) = bit c.interruptWord (24 + p.index) := fun p => by
    have := p.index_lt
    simp only [channelCount] at this
    exact ⟨c.bit_readInterrupt (by omega), c.bit_readInterrupt (by omega)⟩
  simp only [Demanded, bit_readInterrupt c (show 23 < 31 by decide),
    bit_readInterrupt c (show 15 < 31 by decide), fun p => (h p).1, fun p => (h p).2]

/-! ### What every deed keeps -/

/-- A word has no bits but those of another one. -/
theorem and_eq_left_iff {w m : UInt32} :
    w &&& m = w ↔ ∀ i, bit w i = true → bit m i = true := by
  constructor
  · intro h i hi
    rw [← h, bit_and, Bool.and_eq_true] at hi
    exact hi.2
  · intro h
    refine word_ext fun i _ => ?_
    rw [bit_and]
    cases hw : bit w i with
    | false => rfl
    | true => exact h i hw

/-- The words have no bits but those that mean something, and the line is at its level. -/
structure Sound (c : Controller) : Prop where
  priorityWord : c.priorityWord &&& priorityBits = c.priorityWord
  interruptWord : c.interruptWord &&& (settingBits ||| flagBits) = c.interruptWord
  line : c.line = c.demanded

theorem sound_initial : Sound {} := ⟨by decide, by decide, by decide⟩

theorem Sound.bit_top {c : Controller} (h : c.Sound) : bit c.readInterrupt 31 = c.line := by
  have hw : bit c.interruptWord 31 = false := by
    rw [← h.interruptWord, bit_and, show bit (settingBits ||| flagBits) 31 = false by decide,
      Bool.and_false]
  rw [readInterrupt, bit_or, hw, Bool.false_or]
  cases c.line <;> decide

/-- New bits of the interrupt word that mean something, and the line settled. -/
theorem Sound.settle {c : Controller} (h : c.Sound) {w : UInt32}
    (hw : ∀ i, bit w i = true → bit (settingBits ||| flagBits) i = true) :
    Sound (Controller.settle { c with interruptWord := w }) :=
  ⟨h.priorityWord, and_eq_left_iff.2 hw, rfl⟩

theorem Sound.within {c : Controller} (h : c.Sound) {i : Nat} (hi : bit c.interruptWord i = true) :
    bit (settingBits ||| flagBits) i = true := and_eq_left_iff.1 h.interruptWord i hi

theorem Sound.request {c : Controller} (h : c.Sound) (p : Peer) : (c.request p.index).Sound := by
  have hall : ∀ p ∈ Peer.all, bit (settingBits ||| flagBits) (24 + p.index) = true := by decide
  rw [Controller.request]
  split
  · refine h.settle fun i hi => ?_
    rw [bit_or, bit_flag, Bool.or_eq_true, decide_eq_true_eq] at hi
    rcases hi with hi | rfl
    · exact h.within hi
    · exact hall p (Peer.mem_all p)
  · exact h.settle fun i => h.within

/-- **Every deed keeps a controller sound.** -/
theorem Sound.after {c : Controller} (h : c.Sound) (d : Deed) : (d.after c).Sound := by
  cases d with
  | writePriority v mask =>
      exact ⟨by simp [Deed.after, putPriority, Controller.writePriority, UInt32.and_assoc],
        h.interruptWord, h.line⟩
  | writeInterrupt v mask =>
      refine h.settle fun i hi => ?_
      simp only [bit_or, bit_and, Bool.or_eq_true, Bool.and_eq_true] at hi ⊢
      exact hi.imp And.right fun hi => hi.1.2
  | complete p => exact h.request p
  | endBlock p =>
      rw [Deed.after, Controller.endBlock]
      split
      · exact h.request p
      · exact h
  | busError =>
      have hall : ∀ i < 32, bit 0x8000 i = true → bit (settingBits ||| flagBits) i = true := by
        decide
      refine h.settle fun i hi => ?_
      rw [bit_or, Bool.or_eq_true] at hi
      rcases hi with hi | hi
      · exact h.within hi
      · by_cases hlt : i < 32
        · exact hall i hlt hi
        · rw [bit_of_ge _ (Nat.le_of_not_lt hlt)] at hi
          cases hi
  | takeEdge => exact ⟨h.priorityWord, h.interruptWord, h.line⟩
  | restore priorityWord interruptWord =>
      refine ⟨?_, ?_, rfl⟩ <;>
        simp only [Deed.after, ofWords, Controller.settle, UInt32.and_assoc, UInt32.and_self]
  | reset => exact sound_initial

theorem Sound.afterAll {c : Controller} (h : c.Sound) (ds : List Deed) : (afterAll ds c).Sound := by
  induction ds generalizing c with
  | nil => exact h
  | cons d ds ih => exact ih (h.after d)

/-! ### The flag of a channel -/

theorem bit_request (c : Controller) (p q : Peer) :
    bit (c.request q.index).interruptWord (24 + p.index) =
      (bit c.interruptWord (24 + p.index) ||
        (decide (q = p) && bit c.interruptWord (16 + p.index))) := by
  have hi : q ≠ p → decide (24 + p.index = 24 + q.index) = false := fun hq =>
    decide_eq_false fun h => hq (Peer.index_inj (by omega))
  simp only [Controller.request, mayInterrupt_index]
  split <;> rename_i hm
  · show bit (c.interruptWord ||| _) _ = _
    rw [bit_or, bit_flag]
    by_cases hq : q = p
    · subst hq
      simp [hm]
    · rw [hi hq, Bool.or_false, decide_eq_false hq, Bool.false_and, Bool.or_false]
  · show bit c.interruptWord _ = _
    by_cases hq : q = p
    · subst hq
      simp [hm]
    · simp [hq]

/-- **What a deed makes of the flag of a channel.** -/
theorem bit_after (c : Controller) (d : Deed) (p : Peer) :
    bit (d.after c).interruptWord (24 + p.index) = d.flagAfter p c.interruptWord := by
  have hset : ∀ p ∈ Peer.all, bit settingBits (24 + p.index) = false ∧
      bit flagBits (24 + p.index) = true ∧ bit 0x00FFFFFF (24 + p.index) = false ∧
      bit 0x8000 (24 + p.index) = false ∧ 24 + p.index < 32 := by decide
  obtain ⟨hs, hf, hk, he, hlt⟩ := hset p (Peer.mem_all p)
  cases d with
  | writeInterrupt v mask =>
      simp only [Deed.after, putInterrupt, Controller.writeInterrupt, Controller.settle, bit_or,
        bit_and, bit_not, bit_merge, hs, hf, hk, Deed.flagAfter, Deed.acknowledges, Deed.requests]
      cases bit mask (24 + p.index) <;> simp [hlt]
  | complete q =>
      simpa [Deed.after, Deed.flagAfter, Deed.acknowledges, Deed.requests] using c.bit_request p q
  | endBlock q =>
      simp only [Deed.after, Controller.endBlock, Deed.flagAfter, Deed.acknowledges, Deed.requests]
      rw [blockInterrupt_index]
      by_cases hq : q = p
      · subst hq
        cases hb : bit c.interruptWord q.index <;> simp [c.bit_request]
      · cases bit c.interruptWord q.index <;> simp [c.bit_request, hq]
  | busError =>
      show bit (c.interruptWord ||| 0x8000) _ = _
      simp [he, Deed.flagAfter, Deed.acknowledges, Deed.requests]
  | restore priorityWord interruptWord =>
      show bit (interruptWord &&& (settingBits ||| flagBits)) _ = _
      simp [hf, Deed.flagAfter]
  | reset => simp [Deed.after, Deed.flagAfter]
  | writePriority | takeEdge =>
      simp [Deed.after, putPriority, Controller.writePriority, Controller.takeEdge, Deed.flagAfter,
        Deed.acknowledges, Deed.requests]

/-! ### The latch -/

theorem edge_request (c : Controller) (n : Nat) :
    (c.request n).edge = (c.edge || (!c.line && (c.request n).line)) := by
  rw [Controller.request]
  split <;> simp [Controller.settle, Bool.and_comm]

/-- **What a deed makes of the latch**: a rise sets it. -/
theorem edge_after (c : Controller) (d : Deed) :
    (d.after c).edge = (!d.unlatches && (c.edge || (!c.line && (d.after c).line))) := by
  cases d with
  | writePriority v mask =>
      simp [Deed.after, putPriority, Controller.writePriority, Deed.unlatches]
  | writeInterrupt v mask | busError =>
      simp [Deed.after, putInterrupt, Controller.writeInterrupt, Controller.signalBusError,
        Controller.settle, Deed.unlatches, Bool.and_comm]
  | complete p => simpa [Deed.after, Deed.unlatches] using c.edge_request p.index
  | endBlock p =>
      rw [Deed.after, Controller.endBlock]
      split
      · simpa [Deed.unlatches] using c.edge_request p.index
      · simp [Deed.unlatches]
  | takeEdge | restore | reset => rfl

/-- The line rose in the history, and nothing has cleared the latch since. -/
def RoseSince (ds : List Deed) : Prop :=
  ∃ before d later, ds = before ++ d :: later ∧ (∀ x ∈ d :: later, x.unlatches = false) ∧
    (afterAll before {}).line = false ∧ (afterAll (before ++ [d]) {}).line = true

theorem roseSince_concat (ds : List Deed) (d : Deed) :
    RoseSince (ds ++ [d]) ↔ d.unlatches = false ∧
      (RoseSince ds ∨ (afterAll ds {}).line = false ∧ (afterAll (ds ++ [d]) {}).line = true) := by
  constructor
  · rintro ⟨before, x, later, he, hu, hlow, hhigh⟩
    rcases List.eq_nil_or_concat later with rfl | ⟨later, y, rfl⟩
    · obtain ⟨rfl, hx⟩ := List.append_inj' he rfl
      cases hx
      exact ⟨hu d (List.mem_singleton_self d), .inr ⟨hlow, hhigh⟩⟩
    · rw [List.concat_eq_append, ← List.cons_append, ← List.append_assoc] at he
      obtain ⟨rfl, hy⟩ := List.append_inj' he rfl
      cases hy
      refine ⟨hu d (by simp), .inl ⟨before, x, later, rfl, fun z hz => hu z ?_, hlow, hhigh⟩⟩
      rcases List.mem_cons.1 hz with rfl | hz <;> simp [*]
  · rintro ⟨hd, ⟨before, x, later, rfl, hu, hlow, hhigh⟩ | ⟨hlow, hhigh⟩⟩
    · refine ⟨before, x, later ++ [d], by simp, fun z hz => ?_, hlow, hhigh⟩
      rw [← List.cons_append] at hz
      rcases List.mem_append.1 hz with hz | hz
      · exact hu z hz
      · rwa [List.mem_singleton.1 hz]
    · exact ⟨ds, d, [], rfl, fun z hz => by rwa [List.mem_singleton.1 hz], hlow, hhigh⟩

/-- **The latch is set when the line has risen** since it was last cleared. -/
theorem edge_iff (ds : List Deed) : (afterAll ds {}).edge = true ↔ RoseSince ds := by
  induction ds using List.reverseRecOn with
  | nil =>
      refine iff_of_false Bool.false_ne_true ?_
      rintro ⟨before, d, later, he, -⟩
      exact absurd he (by simp)
  | append_singleton ds d ih =>
      rw [roseSince_concat, ← ih, afterAll_concat, edge_after]
      simp

/-! ### The history -/

/-- **The interrupt line and its edge, after every history.**  The line, which is also the top bit
of the interrupt word, is high when the master enable is set and either the bus error is, or both
the enable and the flag of some channel.  A flag goes up when an interrupt is asked for while the
enable is set, goes down when a 1 is written to it through the mask, and else stays, but for a
restored snapshot, which brings its own, and a reset.  An edge is there to take exactly when the
line has risen since it was last taken, reset or restored. -/
theorem interrupt_history (ds : List Deed) :
    (((afterAll ds {}).line = true ↔ Demanded (afterAll ds {}).readInterrupt) ∧
      bit (afterAll ds {}).readInterrupt 31 = (afterAll ds {}).line) ∧
    (∀ d p, bit (afterAll (ds ++ [d]) {}).readInterrupt (24 + p.index) =
      d.flagAfter p (afterAll ds {}).readInterrupt) ∧
    ((afterAll ds {}).takeEdge.1 = true ↔ RoseSince ds) := by
  have hs : (afterAll ds {}).Sound := sound_initial.afterAll ds
  refine ⟨⟨?_, hs.bit_top⟩, fun d p => ?_, edge_iff ds⟩
  · rw [hs.line, demanded_iff, demanded_readInterrupt]
  · have := p.index_lt
    simp only [channelCount] at this
    rw [bit_readInterrupt _ (by omega), afterAll_concat, bit_after]
    cases d <;> simp only [Deed.flagAfter, Deed.requests,
      bit_readInterrupt _ (show 24 + p.index < 31 by omega),
      bit_readInterrupt _ (show 16 + p.index < 31 by omega),
      bit_readInterrupt _ (show p.index < 31 by omega)]

end Controller

end DmaMachine
