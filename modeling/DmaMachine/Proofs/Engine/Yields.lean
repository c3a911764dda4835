import DmaMachine.Proofs.Channel.Mirrors
import DmaMachine.Proofs.Engine.Passes
import Mathlib.Algebra.GroupWithZero.Nat

/-!
# How often channels yield

A chopped burst yields the bus when a window of it is used up, and by then it has moved a word at
least.  Nothing that a service pass does gives words back to a burst.  So the words that are left to
the bursts of all channels bound the number of yields that are still to come.

* `Channel.step_yields`: **a step that yields** is one of a burst, and leaves fewer words.
* `Engine.service_burstWords`: in a service pass the words that are left to all bursts fall by one
  for every channel that yields.
-/

namespace DmaMachine

/-- A step that ended with its window, before its transfer did. -/
def Status.yields : Status → Bool
  | .chopped _ => true
  | _ => false

namespace Channel

variable {α β : Type} {p : Peer}

/-- The words that are left to a burst; none, if the channel makes no bursts. -/
def burstWords (p : Peer) (c : Channel) : Nat := if c.mode p = .burst then c.wordsLeft else 0

theorem burstWords_le_of_mode {c d : Channel} (hm : d.mode p = c.mode p)
    (hw : c.mode p = .burst → d.wordsLeft ≤ c.wordsLeft) : d.burstWords p ≤ c.burstWords p := by
  rw [burstWords, burstWords, hm]
  split
  · rename_i hb
    exact hw hb
  · exact Nat.le_refl 0

theorem burstWords_activate (c : Channel) : c.activate.burstWords p = c.burstWords p := by
  rw [burstWords, mode_activate]
  rfl

variable [Master β] {s t u : Stage β}

/-! ### No words come back -/

/-- An attempt that is due gives no word back to a burst, whatever it comes to. -/
theorem Attempt.perform_burstWords {a : Attempt} (hf : a.Fits p s.channel)
    (hd : a.Due s.channel) :
    (Op.outcome (a.perform p s)).2.channel.burstWords p ≤ s.channel.burstWords p := by
  refine burstWords_le_of_mode (mode_congr (a.perform_control p s)) fun hb => ?_
  obtain ⟨held, h | h | ⟨f, t, ha, h⟩⟩ := a.perform_channel p s
  · exact h ▸ Nat.le_refl _
  · exact h ▸ Nat.le_refl _
  · rw [h]
    have ht := access_takes ha
    cases a with
    | unit =>
        cases ht
        exact Nat.sub_le ..
    | header => exact absurd (hf.symm.trans hb) (by decide)
    | entry n =>
        cases ht
        exact Nat.le_of_lt (Nat.lt_of_lt_of_eq n.lt_succ_self hd.symm)

theorem InTurn.burstWords_le (h : InTurn p s u) :
    u.channel.burstWords p ≤ s.channel.burstWords p := by
  induction h with
  | none => exact Nat.le_refl _
  | next a hf hd ha _ ih =>
      have ht := Attempt.perform_burstWords hf hd
      rw [ha] at ht
      exact Nat.le_trans ih ht

theorem Ends.burstWords_le {c d : Channel} {status : Status} (h : Ends p c status d) :
    d.burstWords p ≤ c.burstWords p := by
  cases h with
  | idle | blockDone | chopped => exact Nat.le_refl _
  | completed | lastBlock =>
      exact burstWords_le_of_mode (by simp [mode, Channel.completed, countBlock])
        fun _ => Nat.le_refl _

/-- **No step gives a word back to a burst.** -/
theorem step_burstWords (p : Peer) (s : Stage β) :
    (Op.outcome (step p s)).2.channel.burstWords p ≤ s.channel.burstWords p := by
  have hr := step_regular p s
  generalize step p s = r at hr
  cases hr with
  | ended h ht => exact Nat.le_trans ht.burstWords_le h.burstWords_le
  | faulted a h hf hd ha | failed a h hf hd ha =>
      have ht := Attempt.perform_burstWords hf hd
      rw [ha] at ht
      exact Nat.le_trans ht h.burstWords_le
  | overflowed h => exact h.burstWords_le
  | reserved => exact Nat.le_refl _

/-! ### Steps that yield -/

/-- Whenever the operation gives a result, the channel does not yield. -/
def NeverYields (x : Op (Stage β) Status) : Prop := ∀ s, ∀ status t, x s = .ok status t →
  status.yields = false

omit [Master β] in
theorem NeverYields.pure {status : Status} (h : status.yields = false) :
    NeverYields (β := β) (pure status) := by
  rintro s _ _ ⟨⟩
  exact h

omit [Master β] in
theorem NeverYields.bind {f : α → Op (Stage β) Status} (h : ∀ a, NeverYields (f a))
    (x : Op (Stage β) α) : NeverYields (x >>= f) := by
  intro s status t hs
  obtain ⟨a, u, -, hu⟩ := Op.bind_eq_ok.1 hs
  exact h a u status t hu

omit [Master β] in
theorem NeverYields.ite {c : Prop} [Decidable c] {x y : Op (Stage β) Status}
    (hx : NeverYields x) (hy : NeverYields y) : NeverYields (if c then x else y) := by
  split
  · exact hx
  · exact hy

omit [Master β] in
theorem NeverYields.throw (fault : Fault) :
    NeverYields (β := β) (throw fault) := by
  rintro s status t ⟨⟩

omit [Master β] in
theorem complete_neverYields :
    NeverYields (β := β) (do
      complete p
      return .completed) := .bind (fun _ => .pure rfl) _

theorem stepSlice_neverYields : NeverYields (β := β) (stepSlice p) :=
  .bind (fun _ => .bind (fun _ => .ite
    (.bind (fun _ => .bind (fun _ => .ite complete_neverYields (.bind (fun _ => .pure rfl) _)) _) _)
    (.pure rfl)) _) _

/-- The words of a node, and then the end of the list or the rest of it. -/
theorem node_neverYields {rest : Op (Stage β) Status} (h : NeverYields rest) :
    NeverYields (do
      if ← moveUnits p (← Stage.channelOf (·.wordsLeft)) then
        if ← Stage.channelOf (·.lastNode) then
          complete p
          return .completed
        else rest
      else return .faulted) :=
  .bind (fun _ => .bind (fun _ => .ite (.bind (fun _ => .ite complete_neverYields h) _)
    (.pure rfl)) _) _

theorem walk_neverYields : ∀ n : Nat, NeverYields (β := β) (walk p n)
  | 0 => by
      rw [walk.eq_def]
      exact node_neverYields (.bind (fun _ => .throw _) _)
  | n + 1 => by
      rw [walk.eq_def]
      exact node_neverYields (.bind (fun _ => .ite (walk_neverYields n) (.pure rfl)) _)

theorem fillTable_neverYields : ∀ n : Nat, NeverYields (β := β) (fillTable p n)
  | 0 => complete_neverYields
  | n + 1 => .bind (fun _ => .ite (fillTable_neverYields n) (.pure rfl)) _

/-- A window has a word at least. -/
theorem stepBurst_yields {status : Status} (hf : Attempt.unit.Fits p s.channel)
    (h : stepBurst p s = .ok status t) (hy : status.yields = true) :
    t.channel.wordsLeft < s.channel.wordsLeft := by
  rw [stepBurst, Op.bind_apply] at h
  dsimp only [Stage.channelOf] at h
  generalize hn : (if s.channel.control.has .chopping = true
    then min s.channel.control.busWindow s.channel.wordsLeft
    else s.channel.wordsLeft) = n at h
  obtain ⟨through, u, hu, h⟩ := Op.bind_eq_ok.1 h
  cases through with
  | false =>
      cases h
      cases hy
  | true =>
      rw [if_pos rfl] at h
      split at h
      · exact absurd ((complete_neverYields u status t h).symm.trans hy) Bool.false_ne_true
      · rename_i hne
        cases h
        show u.channel.wordsLeft < _
        -- Not all words went through, so the burst is chopped, and a whole window did.
        have hpos := s.channel.control.busWindow_pos
        have hlt : 0 < n ∧ n ≤ s.channel.wordsLeft := by
          split at hn <;> omega
        have ht := moveUnits_tallied (s := s) n hf hlt.2
        rw [hu] at ht
        cases ht with
        | through _ hq =>
            have := hq.1
            omega

/-- **A step that yields** is one of a burst, and leaves fewer words. -/
theorem step_yields {status : Status} (h : step p s = .ok status t) (hy : status.yields = true) :
    t.channel.burstWords p < s.channel.burstWords p := by
  have hmt := step_mode p s
  rw [h] at hmt
  replace hmt : t.channel.mode p = s.channel.mode p := hmt
  have never : ∀ {x : Op (Stage β) Status}, NeverYields x → x s ≠ .ok status t := fun hx hs =>
    Bool.false_ne_true ((hx s status t hs).symm.trans hy)
  replace h : (if !s.channel.active then _ else _ : Op (Stage β) Status) s = .ok status t := h
  cases ha : s.channel.active with
  | false =>
      rw [if_pos (by simp [ha])] at h
      exact absurd h (never (.pure rfl))
  | true =>
      rw [if_neg (by simp [ha])] at h
      by_cases hp : p = .orderingTable
      · rw [if_pos hp] at h
        exact absurd h (never (.bind (fun _ => fillTable_neverYields _) _))
      · rw [if_neg hp, Op.bind_apply] at h
        have hm : s.channel.mode p = s.channel.control.syncMode := if_neg hp
        cases hs : s.channel.control.syncMode <;> simp only [Stage.channelOf, hs] at h
        case burst =>
          have hb : s.channel.mode p = .burst := hm.trans hs
          rw [burstWords, if_pos (hmt.trans hb), burstWords, if_pos hb]
          exact stepBurst_yields ⟨hp, by simp [hb]⟩ h hy
        case slice => exact absurd h (never stepSlice_neverYields)
        case linkedList => exact absurd h (never (.bind (fun _ => walk_neverYields _) _))
        case reserved => exact absurd h (never (.bind (fun _ => .throw _) _))

end Channel

namespace Engine

/-- The words that are left to the bursts of all channels. -/
def burstWords (e : Engine) : Nat := (Peer.all.map fun p => (e.channel p).burstWords p).sum

theorem burstWords_setChannel (p : Peer) (c : Channel) (e : Engine) :
    (e.setChannel p c).burstWords + (e.channel p).burstWords p =
      e.burstWords + c.burstWords p := by
  simp only [burstWords, Peer.all, channel_setChannel]
  cases p <;> simp <;> omega

theorem resume_burstWords (p : Peer) (generation : UInt32) (e : Engine) :
    (Op.outcome (resume p generation e)).2.burstWords = e.burstWords := by
  simp only [resume]
  split
  · rfl
  · have h := burstWords_setChannel p (e.channel p).activate e
    rw [Channel.burstWords_activate] at h
    exact Nat.add_right_cancel h

section Service

variable {β : Type} [Master β]

/-- How many channels have yielded. -/
def yields (outcomes : List (Peer × Status)) : Nat := outcomes.countP (·.2.yields)

theorem step_burstWords {p : Peer} {s t : Engine × β} {status : Status}
    (h : step p s = .ok status t) :
    t.1.burstWords + status.yields.toNat ≤ s.1.burstWords := by
  have hc := Channel.step_burstWords p ⟨s.1.channel p, s.1.controller, s.2⟩
  rw [step_eq] at h
  split at h
  · rename_i status' u hs
    cases h
    have hset := burstWords_setChannel p u.channel s.1
    show (s.1.setChannel p u.channel).burstWords + _ ≤ _
    rw [hs] at hc
    dsimp only [Op.outcome_ok] at hc
    cases hy : status.yields with
    | false =>
        rw [Bool.toNat_false]
        omega
    | true =>
        have := Channel.step_yields hs hy
        dsimp only at this
        rw [Bool.toNat_true]
        omega
  · cases h

/-- **In a service pass** the words that are left to all bursts fall by one for every channel that
yields. -/
theorem serviceEach_burstWords : ∀ {ps : List Peer} {s t : Engine × β}
    {outcomes : List (Peer × Status)}, serviceEach ps s = .ok outcomes t →
      t.1.burstWords + yields outcomes ≤ s.1.burstWords
  | [], s, t, outcomes, h => by
      cases h
      exact Nat.le_refl _
  | p :: ps, s, t, outcomes, h => by
      rw [serviceEach_cons] at h
      by_cases ha : (s.1.channel p).active = true
      · rw [if_pos ha] at h
        obtain ⟨status, u, hs, h⟩ := Op.bind_eq_ok.1 h
        obtain ⟨rest, v, hv, h⟩ := Op.bind_eq_ok.1 h
        cases h
        have hu := step_burstWords hs
        have ht := serviceEach_burstWords hv
        rw [yields, List.countP_cons, ← yields]
        cases hy : status.yields <;> rw [hy] at hu <;> simp at hu ⊢ <;> omega
      · rw [if_neg ha] at h
        exact serviceEach_burstWords h

theorem service_burstWords {s t : Engine × β} {outcomes : List (Peer × Status)}
    (h : service s = .ok outcomes t) : t.1.burstWords + yields outcomes ≤ s.1.burstWords :=
  serviceEach_burstWords h

end Service

end Engine

end DmaMachine
