import DmaMachine.Proofs.Channel.Step

/-!
# Attempts in their turn

The loops of a step count down from what the channel's counters say when the loop begins.  An
attempt is *due* where the counters at that moment call for it: a unit while words are left, a
header while the list may have another node, an entry of an ordering table when it is the one that
is counted.

* `step_regular`: **every attempt of a step is made where it is due**, whichever loop makes it and
  whoever has set the counters.  So no counter is taken below zero, and no node is visited past the
  limit.  What else may end a step with a fault is a list at its limit, or the reserved mode.
-/

namespace DmaMachine

namespace Channel

variable {β : Type} [Master β] {p : Peer} {s t u : Stage β}

/-! ### What an attempt makes of the channel -/

/-- The counters call for the attempt. -/
def Attempt.Due (c : Channel) : Attempt → Prop
  | unit => 0 < c.wordsLeft
  | header => c.wordsLeft = 0 ∧ c.lastNode = false ∧ c.nodeCount < nodeLimit
  | entry n => c.wordsLeft = n + 1

/-- The function takes the channel further as the attempt does. -/
def Attempt.Takes (p : Peer) (f : Channel → Channel) : Attempt → Prop
  | unit => f = retire p
  | header => ∃ header, f = enterNode header
  | entry n => f = fun c => { c with address := below c.address, wordsLeft := n }

theorem Attempt.access_takes {a : Attempt} {f : Channel → Channel}
    (h : a.access p s = .ok (some f) t) : a.Takes p f := by
  cases a with
  | unit =>
      obtain ⟨through, _, -, h⟩ := Op.bind_eq_ok.1 h
      cases through <;> cases h
      rfl
  | header =>
      obtain ⟨_, _, -, h⟩ := Op.bind_eq_ok.1 h
      obtain ⟨header, _, -, h⟩ := Op.bind_eq_ok.1 h
      cases h
      exact ⟨header, rfl⟩
  | entry n =>
      obtain ⟨_, _, -, h⟩ := Op.bind_eq_ok.1 h
      obtain ⟨_, _, -, h⟩ := Op.bind_eq_ok.1 h
      cases h
      rfl

/-- An attempt that goes through takes the channel further, but for the held unit. -/
theorem Attempt.perform_takes {a : Attempt} (h : a.perform p s = .ok true t) :
    ∃ f held, a.Takes p f ∧ t.channel = f { s.channel with held } := by
  obtain ⟨f, v, ha, -, hr⟩ | ⟨_, _, -, -, hr⟩ | ⟨_, _, -, hr⟩ := perform_cases h <;> cases hr
  obtain ⟨-, held, hv⟩ := access_keeps_rest ha
  exact ⟨f, held, access_takes ha, congrArg f hv⟩

/-! ### Regular steps -/

/-- Attempts that the channel makes where they are due, and that all go through. -/
inductive InTurn (p : Peer) : Stage β → Stage β → Prop where
  | none (s : Stage β) : InTurn p s s
  | next {s t u : Stage β} (a : Attempt) (hf : a.Fits p s.channel) (hd : a.Due s.channel)
      (ha : a.perform p s = .ok true t) (h : InTurn p t u) : InTurn p s u

/-- How a step leaves the channel after its last attempt went through. -/
inductive Ends (p : Peer) (c : Channel) : Status → Channel → Prop where
  | idle (h : c.active = false) : Ends p c .idle c
  | completed : Ends p c .completed (completed p c)
  | lastBlock : Ends p c .completed (Channel.completed p c.countBlock)
  | blockDone : Ends p c .blockDone c.countBlock.blockEnded
  | chopped (window : Nat) : Ends p c (.chopped window) c.halted

/-- What the step from `s` can come to. -/
inductive Regular (p : Peer) (s : Stage β) : EStateM.Result Fault (Stage β) Status → Prop where
  | ended {u t : Stage β} {status : Status} (h : InTurn p s u)
      (ht : Ends p u.channel status t.channel) : Regular p s (.ok status t)
  | faulted {u t : Stage β} (a : Attempt) (h : InTurn p s u) (hf : a.Fits p u.channel)
      (hd : a.Due u.channel) (ha : a.perform p u = .ok false t) : Regular p s (.ok .faulted t)
  | failed {u t : Stage β} {e : Fault} (a : Attempt) (h : InTurn p s u) (hf : a.Fits p u.channel)
      (hd : a.Due u.channel) (ha : a.perform p u = .error e t) : Regular p s (.error e t)
  /-- A list goes on, and has all the nodes that it may have. -/
  | overflowed {u : Stage β} (h : InTurn p s u) (hl : u.channel.lastNode = false)
      (hn : nodeLimit ≤ u.channel.nodeCount) :
      Regular p s (.error
        (.channel (.linkedListOverflow p.index nodeLimit u.channel.nextNode)) u)
  | reserved (hm : s.channel.mode p = .reserved) : Regular p s (.error (s.channel.modeFault p) s)

theorem InTurn.trans (h : InTurn p s t) (k : InTurn p t u) : InTurn p s u := by
  induction h with
  | none => exact k
  | next a hf hd ha _ ih => exact .next a hf hd ha (ih k)

theorem InTurn.through (h : InTurn p s u) : Through p s u := by
  induction h with
  | none s => exact .none s
  | next a hf _ ha _ ih => exact .next a hf ha ih

/-- What several attempts come to.  If all of them go through, the channel is as `Q` says. -/
inductive Tallied (p : Peer) (s : Stage β) (Q : Channel → Prop) :
    EStateM.Result Fault (Stage β) Bool → Prop where
  | through {u : Stage β} (h : InTurn p s u) (hq : Q u.channel) : Tallied p s Q (.ok true u)
  | stopped {u t : Stage β} (a : Attempt) (h : InTurn p s u) (hf : a.Fits p u.channel)
      (hd : a.Due u.channel) (ha : a.perform p u = .ok false t) : Tallied p s Q (.ok false t)
  | failed {u t : Stage β} {e : Fault} (a : Attempt) (h : InTurn p s u) (hf : a.Fits p u.channel)
      (hd : a.Due u.channel) (ha : a.perform p u = .error e t) : Tallied p s Q (.error e t)

variable {Q R : Channel → Prop}

theorem InTurn.tallied (h : InTurn p s u) (hq : ∀ c, Q c → R c)
    {r : EStateM.Result Fault (Stage β) Bool} (hr : Tallied p u Q r) : Tallied p s R r := by
  cases hr with
  | through k hk => exact .through (h.trans k) (hq _ hk)
  | stopped a k hf hd ha => exact .stopped a (h.trans k) hf hd ha
  | failed a k hf hd ha => exact .failed a (h.trans k) hf hd ha

theorem Attempt.tallied {a : Attempt} (hf : a.Fits p s.channel) (hd : a.Due s.channel)
    (hq : ∀ f held, a.Takes p f → Q (f { s.channel with held })) :
    Tallied p s Q (a.perform p s) := by
  cases ha : a.perform p s with
  | error e t => exact .failed a (.none s) hf hd ha
  | ok through t =>
      cases through with
      | true =>
          obtain ⟨f, held, hf', ht⟩ := perform_takes ha
          exact .through (.next a hf hd ha (.none t)) (ht ▸ hq f held hf')
      | false => exact .stopped a (.none s) hf hd ha

/-- After attempts that go through, a channel takes up its course.  The reserved mode makes none. -/
theorem InTurn.regular (h : InTurn p s u) (hm : s.channel.mode p ≠ .reserved)
    {r : EStateM.Result Fault (Stage β) Status} (hr : Regular p u r) : Regular p s r := by
  cases hr with
  | ended k ht => exact .ended (h.trans k) ht
  | faulted a k hf hd ha => exact .faulted a (h.trans k) hf hd ha
  | failed a k hf hd ha => exact .failed a (h.trans k) hf hd ha
  | overflowed k hl hn => exact .overflowed (h.trans k) hl hn
  | reserved hu => exact absurd ((mode_congr h.through.keeps.2.1).symm.trans hu) hm

/-- Attempts, and then what follows if all of them went through. -/
theorem Tallied.regular {x : Op (Stage β) Bool} {y : Op (Stage β) Status}
    (hx : Tallied p s Q (x s)) (hy : ∀ u, InTurn p s u → Q u.channel → Regular p s (y u)) :
    Regular p s ((x >>= fun b => if b then y else pure .faulted) s) := by
  rw [Op.bind_apply]
  generalize x s = r at hx
  cases hx with
  | through h hq => exact hy _ h hq
  | stopped a h hf hd ha => exact .faulted a h hf hd ha
  | failed a h hf hd ha => exact .failed a h hf hd ha

/-! ### The loops -/

/-- The channel after `n` units, as far as the counters go. -/
def Spent (n : Nat) (c d : Channel) : Prop :=
  d.wordsLeft + n = c.wordsLeft ∧ d.nodeCount = c.nodeCount

theorem moveUnits_tallied : ∀ (n : Nat) {s : Stage β}, Attempt.unit.Fits p s.channel →
    n ≤ s.channel.wordsLeft → Tallied p s (Spent n s.channel) (moveUnits p n s)
  | 0, s, _, _ => .through (.none s) ⟨rfl, rfl⟩
  | n + 1, s, hf, hn => by
      have ht : Tallied p s (Spent 1 s.channel) (moveUnit p s) := by
        refine Attempt.tallied hf (Nat.lt_of_lt_of_le n.succ_pos hn) ?_
        rintro _ held rfl
        exact ⟨Nat.sub_add_cancel (Nat.le_trans n.succ_pos hn), rfl⟩
      rw [moveUnits, Op.bind_apply]
      generalize moveUnit p s = r at ht
      cases ht with
      | @through u h hq =>
          obtain ⟨hw, hc⟩ := hq
          have hu := moveUnits_tallied n (hf.congr h.through.keeps.2.1) (by omega)
          exact h.tallied (fun d hd => ⟨by have := hd.1; omega, hd.2.trans hc⟩) hu
      | stopped a h hf hd ha => exact .stopped a h hf hd ha
      | failed a h hf hd ha => exact .failed a h hf hd ha

theorem stepBurst_regular (hf : Attempt.unit.Fits p s.channel) : Regular p s (stepBurst p s) := by
  have hle : (if s.channel.control.has .chopping
      then min s.channel.control.busWindow s.channel.wordsLeft
      else s.channel.wordsLeft) ≤ s.channel.wordsLeft := by
    split
    · exact Nat.min_le_right ..
    · exact Nat.le_refl _
  rw [stepBurst, Op.bind_apply]
  refine (moveUnits_tallied _ hf hle).regular fun u h _ => ?_
  by_cases hn : (if s.channel.control.has .chopping
      then min s.channel.control.busWindow s.channel.wordsLeft
      else s.channel.wordsLeft) = s.channel.wordsLeft
  · rw [if_pos hn]
    exact .ended h .completed
  · rw [if_neg hn]
    exact .ended h (.chopped _)

theorem stepSlice_regular (hf : Attempt.unit.Fits p s.channel) : Regular p s (stepSlice p s) := by
  rw [stepSlice, Op.bind_apply]
  refine (moveUnits_tallied _ hf (Nat.sub_le ..)).regular fun u h _ => ?_
  show Regular p s ((if u.channel.countBlock.blocksLeft = 0 then _ else _ : Op (Stage β) Status)
    ⟨u.channel.countBlock, u.controller, u.bus⟩)
  by_cases hn : u.channel.countBlock.blocksLeft = 0
  · rw [if_pos hn]
    exact .ended h .lastBlock
  · rw [if_neg hn]
    exact .ended h .blockDone

/-- A walk that may visit as many nodes as the limit leaves. -/
theorem walk_regular : ∀ (n : Nat) {s : Stage β}, s.channel.mode p = .linkedList →
    nodeLimit - s.channel.nodeCount = n → Regular p s (walk p n s)
  | n, s, hm, hn => by
      have hp : p ≠ .orderingTable := by
        rintro rfl
        cases hm
      rw [walk.eq_def, Op.bind_apply]
      refine (moveUnits_tallied _ ⟨hp, by simp [hm]⟩ (Nat.le_refl _)).regular fun u h hq => ?_
      -- No word of the node is left, and no node was visited meanwhile.
      obtain ⟨hw, hc⟩ := hq
      have hw : u.channel.wordsLeft = 0 := by omega
      have hmu : u.channel.mode p = .linkedList := (mode_congr h.through.keeps.2.1).trans hm
      show Regular p s ((if u.channel.lastNode then _ else _ : Op (Stage β) Status) u)
      by_cases hl : u.channel.lastNode = true
      · rw [if_pos hl]
        exact .ended h .completed
      · rw [if_neg hl]
        have hl : u.channel.lastNode = false := by simpa using hl
        cases n with
        | zero => exact .overflowed h hl (by omega)
        | succ n =>
            have hv : Tallied p u (fun d => d.nodeCount = u.channel.nodeCount + 1)
                (visitNode u) := by
              refine Attempt.tallied (a := .header) hmu ⟨hw, hl, by omega⟩ ?_
              rintro _ held ⟨header, rfl⟩
              rfl
            refine h.regular (by simp [hm]) (hv.regular fun v k hk => ?_)
            have hmv := (mode_congr (p := p) k.through.keeps.2.1).trans hmu
            exact k.regular (by simp [hmu]) (walk_regular n hmv (by omega))

theorem fillTable_regular (hp : p = .orderingTable) : ∀ (n : Nat) {s : Stage β},
    s.channel.wordsLeft = n → Regular p s (fillTable p n s)
  | 0, s, _ => .ended (.none s) .completed
  | n + 1, s, hn => by
      have hw : Tallied p s (fun d => d.wordsLeft = n) (writeEntry n s) := by
        refine Attempt.tallied (a := .entry n) hp hn ?_
        rintro _ held rfl
        rfl
      refine hw.regular fun u h hu => h.regular ?_ (fillTable_regular hp n hu)
      simp [mode, hp]

/-- **Every attempt of a step is made where it is due.** -/
theorem step_regular (p : Peer) (s : Stage β) : Regular p s (step p s) := by
  show Regular p s ((if !s.channel.active then _ else _ : Op (Stage β) Status) s)
  cases ha : s.channel.active with
  | false => exact .ended (.none s) (.idle ha)
  | true =>
      rw [if_neg (by simp)]
      by_cases hp : p = .orderingTable
      · rw [if_pos hp]
        exact fillTable_regular hp _ rfl
      · rw [if_neg hp, Op.bind_apply]
        have hm : s.channel.mode p = s.channel.control.syncMode := if_neg hp
        cases hs : s.channel.control.syncMode <;> simp only [Stage.channelOf, hs]
        case burst => exact stepBurst_regular ⟨hp, by simp [hm, hs]⟩
        case slice => exact stepSlice_regular ⟨hp, by simp [hm, hs]⟩
        case linkedList => exact walk_regular _ (hm.trans hs) rfl
        case reserved => exact .reserved (hm.trans hs)

end Channel

end DmaMachine
