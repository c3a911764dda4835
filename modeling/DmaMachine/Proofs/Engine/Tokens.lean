import DmaMachine.Proofs.Channel.Carry
import DmaMachine.Proofs.Engine.Channels
import DmaMachine.Proofs.Engine.Passes

/-!
# Tokens of resumption

When a step ends a window, the generation of its channel is a *token*: with it the transfer can be
resumed once the window of the processor is over.  A token should be good for that transfer at that
pause only, so a late resumption must not find another transfer in the same generation.

A generation counts the starts, resumptions and aborts of the channel, its *renewals*, since the
engine was last reset.  As long as the engine is not reset and no generation comes round again, the
count tells the pauses apart.  A reset begins the count anew.

* `run_generation`: **the generation counts the renewals since the last reset.**
* `pausesThrough_iff`: a pause lasts while the engine is not reset and the channel is not renewed.
* `token_singleUse_iff`: **a token is good for its own pause and no other**, unless the engine is
  reset and the new count comes to the same number in another pause.
-/

namespace DmaMachine

/-! ### Channels -/

namespace Channel

variable {β : Type} [Master β] {p : Peer}

/-- A step that ends a window found the channel active, and leaves it waiting. -/
theorem step_waits {s t : Stage β} {resumeIn : Nat} (hc : Intact p s.channel)
    (h : step p s = .ok (.chopped resumeIn) t) : t.channel.Waits := by
  obtain ⟨hr, ha⟩ := step_paused h
  refine ⟨hr.trans (hc.running ?_), ha⟩
  by_contra hn
  rw [step_of_inactive (Bool.eq_false_iff.2 hn)] at h
  cases h

end Channel

namespace Engine

open Channel (renewed Intact)

variable {β : Type}

/-! ### What is done to an engine -/

/-- What may be done to an engine.  Between two acts anything may happen to the bus, so that each
brings its own. -/
inductive Act (β : Type) where
  | write (offset v mask : UInt32)
  /-- A request of a peripheral. -/
  | request (p : Peer)
  | resume (p : Peer) (generation : UInt32)
  | service (bus : β)
  | step (p : Peer) (bus : β)
  /-- The latched edge of the interrupt line is taken. -/
  | takeEdge
  | reset

variable [Master β] {p : Peer} {e e' : Engine} {a : Act β} {acts : List (Act β)}

/-- The engine after the act, whether it is answered with a fault or not. -/
def Act.after : Act β → Engine → Engine
  | write offset v mask, e => (Op.outcome (Engine.write offset v mask e)).2
  | request q, e => (Op.outcome (Engine.request q e)).2
  | resume q generation, e => (Op.outcome (Engine.resume q generation e)).2
  | service bus, e => (Op.outcome (Engine.service (e, bus))).2.1
  | step q bus, e => (Op.outcome (Engine.step q (e, bus))).2.1
  | takeEdge, e => { e with controller := e.controller.takeEdge.2 }
  | reset, _ => {}

/-- The engine after the acts. -/
def run (acts : List (Act β)) (e : Engine) : Engine := acts.foldl (fun e a => a.after e) e

/-- The act ends a window of the channel, in a service pass or in a step of its own. -/
def Act.Yields (p : Peer) (e : Engine) : Act β → Prop
  | service bus => ∃ n, outcome? p (e, bus) = some (.ok (.chopped n))
  | step q bus => q = p ∧ ∃ n t, Engine.step q (e, bus) = .ok (.chopped n) t
  | _ => False

/-- Whether the act starts, resumes or aborts the channel. -/
def Act.renews (p : Peer) (e : Engine) (a : Act β) : Bool :=
  match a with
  | write .. | request _ | resume .. => renewed (e.channel p) ((a.after e).channel p)
  | service _ | step .. | takeEdge | reset => false

/-- How often the acts start, resume or abort the channel. -/
def renewals (p : Peer) : List (Act β) → Engine → Nat
  | [], _ => 0
  | a :: acts, e => (a.renews p e).toNat + renewals p acts (a.after e)

/-- How often the channel was started, resumed or aborted since the last reset, when before the acts
it was so `n` times. -/
def renewalsSince (p : Peer) : List (Act β) → Engine → Nat → Nat
  | [], _, n => n
  | .reset :: acts, _, _ => renewalsSince p acts {} 0
  | a :: acts, e, n => renewalsSince p acts (a.after e) (n + (a.renews p e).toNat)

theorem run_append (acts more : List (Act β)) (e : Engine) :
    run (acts ++ more) e = run more (run acts e) := List.foldl_append ..

theorem renewals_append (p : Peer) : ∀ (acts more : List (Act β)) (e : Engine),
    renewals p (acts ++ more) e = renewals p acts e + renewals p more (run acts e)
  | [], more, e => (Nat.zero_add _).symm
  | a :: acts, more, e => by
      rw [List.cons_append, renewals, renewals_append p acts more, ← Nat.add_assoc]
      rfl

theorem renewalsSince_append (p : Peer) : ∀ (acts more : List (Act β)) (e : Engine) (n : Nat),
    renewalsSince p (acts ++ more) e n =
      renewalsSince p more (run acts e) (renewalsSince p acts e n)
  | [], _, _, _ => rfl
  | a :: acts, more, e, n => by
      cases a <;> exact renewalsSince_append p acts more _ _

theorem renewalsSince_le (p : Peer) : ∀ (acts : List (Act β)) (e : Engine) (n : Nat),
    renewalsSince p acts e n ≤ n + renewals p acts e
  | [], _, _ => Nat.le_refl _
  | a :: acts, e, n => by
      cases a with
      | reset =>
          refine Nat.le_trans (renewalsSince_le p acts {} 0) ?_
          show 0 + renewals p acts {} ≤ n + (0 + renewals p acts {})
          omega
      | _ => exact Nat.le_trans (renewalsSince_le p acts _ _) (Nat.le_of_eq (Nat.add_assoc ..))

/-- Without a reset all renewals count. -/
theorem renewalsSince_of_no_reset (p : Peer) : ∀ {acts : List (Act β)} (e : Engine) (n : Nat),
    Act.reset ∉ acts → renewalsSince p acts e n = n + renewals p acts e
  | [], _, _, _ => rfl
  | a :: acts, e, n, h => by
      rw [List.mem_cons, not_or] at h
      cases a with
      | reset => exact absurd rfl h.1
      | _ => exact (renewalsSince_of_no_reset p _ _ h.2).trans (Nat.add_assoc ..)

/-! ### What an act does to a channel -/

theorem channel_powerOn (p : Peer) : ({} : Engine).channel p = .initial p := by cases p <;> rfl

/-- What an act other than a reset makes of a channel. -/
inductive Act.Makes (p : Peer) (e : Engine) (a : Act β) : Channel → Prop where
  | nothing (hr : a.renews p e = false) : Makes p e a (e.channel p)
  | outer {d : Channel.Deed β} (hd : d.Outer (e.channel p))
      (hr : a.renews p e = renewed (e.channel p) (d.after p (e.channel p))) :
      Makes p e a (d.after p (e.channel p))
  | step (k : Controller) (bus : β) (ha : (e.channel p).active = true)
      (hr : a.renews p e = false) : Makes p e a ((Channel.Deed.step k bus).after p (e.channel p))

/-- An act whose renewals are told by the flags of the channel, which it leaves alone. -/
theorem Act.Makes.same (hc : (a.after e).channel p = e.channel p)
    (hr : a.renews p e = renewed (e.channel p) ((a.after e).channel p)) :
    a.Makes p e ((a.after e).channel p) := by
  rw [hc] at hr ⊢
  exact .nothing (hr.trans (Channel.renewed_self _))

/-- An act whose renewals are told by the flags of the channel, and that does a deed to it. -/
theorem Act.Makes.deed {d : Channel.Deed β} (hd : d.Outer (e.channel p))
    (hc : (a.after e).channel p = d.after p (e.channel p))
    (hr : a.renews p e = renewed (e.channel p) ((a.after e).channel p)) :
    a.Makes p e ((a.after e).channel p) := by
  rw [hc] at hr ⊢
  exact .outer hd hr

/-- **Every act but a reset makes one of these of a channel.** -/
theorem Act.makes (ha : a ≠ .reset) (p : Peer) (e : Engine) :
    a.Makes p e ((a.after e).channel p) := by
  cases a with
  | write offset v mask =>
      have hc := channel_write p e offset v mask
      cases ho : Register.ofPeer? p offset with
      | none => exact .same (by rw [ho] at hc; exact hc) rfl
      | some r => exact .deed (d := .write r v mask) trivial (by rw [ho] at hc; exact hc) rfl
  | request q =>
      have hc := channel_request p q e
      split at hc
      · exact .deed (d := .request) trivial hc rfl
      · exact .same hc rfl
  | resume q generation =>
      have hc := channel_resume p q e generation
      split at hc
      · rename_i hw
        exact .deed (d := .arm true) ⟨rfl, hw.2.2.2⟩ hc rfl
      · exact .same hc rfl
  | service bus =>
      show Makes p e _ ((Op.outcome (Engine.service (e, bus))).2.1.channel p)
      obtain ⟨-, h⟩ | ⟨ha, k, b, -, h⟩ := service_channel p (e, bus) <;> rw [h]
      · exact .nothing rfl
      · rw [← Channel.Deed.after_step]
        exact .step k b ha rfl
  | step q bus =>
      show Makes p e _ ((Op.outcome (Engine.step q (e, bus))).2.1.channel p)
      rw [channel_step]
      split
      · rename_i h
        subst h
        cases ha : (e.channel p).active with
        | true =>
            rw [← Channel.Deed.after_step]
            exact .step e.controller bus ha rfl
        | false =>
            rw [Channel.step_of_inactive ha]
            exact .nothing rfl
      · exact .nothing rfl
  | takeEdge => exact .nothing rfl
  | reset => exact absurd rfl ha

theorem Act.intact (h : Intact p (e.channel p)) (a : Act β) :
    Intact p ((a.after e).channel p) := by
  by_cases ha : a = .reset
  · subst ha
    exact (channel_powerOn p).symm ▸ Channel.intact_initial p
  · have hm := a.makes ha p e
    generalize (a.after e).channel p = c at hm
    cases hm with
    | nothing => exact h
    | outer | step => exact h.after _

theorem run_intact : ∀ (acts : List (Act β)) {e : Engine}, Intact p (e.channel p) →
    Intact p ((run acts e).channel p)
  | [], _, h => h
  | a :: acts, _, h => run_intact acts (Act.intact h a)

/-! ### Generations -/

/-- An act other than a reset puts the channel in its next generation exactly when it renews it. -/
theorem Act.generation (ha : a ≠ .reset) : ((a.after e).channel p).generation =
    (e.channel p).generation + if a.renews p e then 1 else 0 := by
  have hm := a.makes ha p e
  generalize (a.after e).channel p = c at hm
  cases hm with
  | nothing hr => simp [hr]
  | outer hd hr =>
      rw [hr]
      exact hd.renews
  | step k b _ hr =>
      rw [hr, Channel.Deed.after_step]
      exact (Channel.step_generation p _).trans (UInt32.add_zero _).symm

/-- **The generation counts the renewals since the last reset.** -/
theorem run_generation : ∀ (acts : List (Act β)) {e : Engine} {n : Nat},
    (e.channel p).generation = UInt32.ofNat n →
      ((run acts e).channel p).generation = UInt32.ofNat (renewalsSince p acts e n)
  | [], _, _, h => h
  | a :: acts, e, n, h => by
      have hs : a ≠ .reset → ((a.after e).channel p).generation =
          UInt32.ofNat (n + (a.renews p e).toNat) := fun ha => by
        rw [Act.generation ha, h, UInt32.ofNat_add]
        cases a.renews p e <;> rfl
      cases a with
      | reset =>
          exact run_generation acts (e := {}) (congrArg Channel.generation (channel_powerOn p))
      | _ => exact run_generation acts (hs nofun)

/-! ### Pauses -/

/-- A pause of the channel begins with the engine `e` and lasts through the acts. -/
def PausesThrough (p : Peer) (e : Engine) (acts : List (Act β)) : Prop :=
  ∀ l, l <+: acts → ((run l e).channel p).Waits

theorem pausesThrough_cons :
    PausesThrough p e (a :: acts) ↔ (e.channel p).Waits ∧ PausesThrough p (a.after e) acts := by
  constructor
  · exact fun h =>
      ⟨h [] List.nil_prefix, fun l hl => h (a :: l) (List.cons_prefix_cons.2 ⟨rfl, hl⟩)⟩
  · rintro ⟨hw, h⟩ l hl
    obtain rfl | ⟨k, rfl, hk⟩ := List.prefix_cons_iff.1 hl
    · exact hw
    · exact h k hk

/-- A channel waits on unless it is started, resumed or aborted, or the engine reset. -/
theorem Act.waits_iff (h : (e.channel p).Waits) (a : Act β) :
    ((a.after e).channel p).Waits ↔ a ≠ .reset ∧ a.renews p e = false := by
  by_cases ha : a = .reset
  · subst ha
    refine iff_of_false (fun hw => ?_) fun hn => hn.1 rfl
    rw [Act.after, channel_powerOn] at hw
    exact Bool.false_ne_true hw.1
  · have hm := a.makes ha p e
    generalize (a.after e).channel p = c at hm
    cases hm with
    | nothing hr => exact iff_of_true h ⟨ha, hr⟩
    | outer hd hr => rw [hr, h.renewed_eq_false_iff, and_iff_right ha]
    | step k b hs => exact absurd (hs.symm.trans h.2) Bool.false_ne_true.symm

/-- **A pause lasts** while the engine is not reset and the channel not renewed. -/
theorem pausesThrough_iff : ∀ {acts : List (Act β)} {e : Engine}, (e.channel p).Waits →
    (PausesThrough p e acts ↔ .reset ∉ acts ∧ renewals p acts e = 0)
  | [], e, h => iff_of_true (fun l hl => List.prefix_nil.1 hl ▸ h) ⟨List.not_mem_nil, rfl⟩
  | a :: acts, e, h => by
      rw [pausesThrough_cons, and_iff_right h, List.mem_cons, not_or, renewals]
      by_cases hw : ((a.after e).channel p).Waits
      · obtain ⟨ha, hr⟩ := (Act.waits_iff h a).1 hw
        rw [pausesThrough_iff hw, hr]
        simp [Ne.symm ha]
      · refine iff_of_false (fun hp => hw (hp [] List.nil_prefix)) fun ⟨⟨ha, _⟩, hr⟩ => ?_
        exact hw ((Act.waits_iff h a).2 ⟨Ne.symm ha, by simpa using (Nat.add_eq_zero_iff.1 hr).1⟩)

/-- A pause begins when a window ends. -/
theorem Act.Yields.waits (h : a.Yields p e) (hc : Intact p (e.channel p)) :
    ((a.after e).channel p).Waits := by
  cases a with
  | service bus =>
      obtain ⟨n, ho⟩ := h
      obtain ⟨ha, hr, hn⟩ := service_chopped ho
      exact ⟨hr.trans (hc.running ha), hn⟩
  | step q bus =>
      obtain ⟨rfl, n, t, hs⟩ := h
      have hp := channel_step q q (e, bus)
      have ho := outcome_step q (e, bus)
      rw [if_pos rfl] at hp
      rw [hs] at ho
      show ((Op.outcome (Engine.step q (e, bus))).2.1.channel q).Waits
      rw [hp]
      cases hs' : Channel.step q ⟨e.channel q, e.controller, bus⟩ with
      | ok status u =>
          rw [hs'] at ho
          cases ho
          exact Channel.step_waits hc hs'
      | error f u =>
          rw [hs'] at ho
          cases ho
  | _ => cases h

/-! ### Tokens -/

section Resume

variable {generation : UInt32}

omit [Master β] in
theorem resume_of_waits (hg : (e.channel p).generation = generation) (hw : (e.channel p).Waits) :
    resume p generation e =
      .ok (e.controller.enabled p.index) (e.setChannel p (e.channel p).activate) :=
  if_neg (by simp [hg, hw.1, hw.2])

/-- A resumption is without effect exactly when the channel does not wait in the generation. -/
theorem resume_eq_refused_iff : resume p generation e = .ok false e ↔
    ¬((e.channel p).generation = generation ∧ (e.channel p).Waits) := by
  refine ⟨fun h ⟨hg, hw⟩ => ?_, resume_of_not_waits p e⟩
  rw [resume_of_waits hg hw, EStateM.Result.ok.injEq] at h
  have hc := channel_setChannel p p (e.channel p).activate e
  rw [h.2, if_pos rfl] at hc
  have ha := hw.2
  rw [hc] at ha
  cases ha

end Resume

/-- The generation in which a pause of the channel begins is a token for it.  With the token, a
resumption after the acts resumes the channel if the pause has lasted through them, and otherwise it
is refused and changes nothing. -/
structure SingleUse (p : Peer) (e : Engine) (acts : List (Act β)) : Prop where
  resumed : PausesThrough p e acts → resume p (e.channel p).generation (run acts e) =
    .ok ((run acts e).controller.enabled p.index)
      ((run acts e).setChannel p ((run acts e).channel p).activate)
  refused : ¬PausesThrough p e acts →
    resume p (e.channel p).generation (run acts e) = .ok false (run acts e)

theorem ofNat_inj {m n : Nat} (hm : m < UInt32.size) (hn : n < UInt32.size) :
    UInt32.ofNat m = UInt32.ofNat n ↔ m = n := by
  rw [← UInt32.toNat_inj, UInt32.toNat_ofNat_of_lt' hm, UInt32.toNat_ofNat_of_lt' hn]

/-- The acts after a pause has begun, when the channel has been renewed `n` times. -/
theorem singleUse_iff {n : Nat} (hw : (e.channel p).Waits)
    (hg : (e.channel p).generation = UInt32.ofNat n) (hn : n < UInt32.size)
    (hn' : renewalsSince p acts e n < UInt32.size) :
    SingleUse p e acts ↔ ¬(.reset ∈ acts ∧ ((run acts e).channel p).Waits ∧
      renewalsSince p acts e n = n) := by
  -- While the counts are small, the generations are the same when they are.
  have hs : ((run acts e).channel p).generation = (e.channel p).generation ↔
      renewalsSince p acts e n = n := by
    rw [run_generation acts hg, hg]
    exact ofNat_inj hn' hn
  by_cases hr : .reset ∈ acts
  · have hp : ¬PausesThrough p e acts := fun h => ((pausesThrough_iff hw).1 h).1 hr
    rw [and_iff_right hr, and_comm, ← hs, ← resume_eq_refused_iff]
    exact ⟨fun h => h.refused hp, fun h => ⟨fun h' => absurd h' hp, fun _ => h⟩⟩
  · -- Without a reset the count only grows, and it does so when the pause ends.
    have hp : PausesThrough p e acts ↔
        ((run acts e).channel p).generation = (e.channel p).generation := by
      rw [pausesThrough_iff hw, and_iff_right hr, hs, renewalsSince_of_no_reset p _ _ hr]
      omega
    refine iff_of_true ⟨fun h => ?_, fun h => ?_⟩ fun h => hr h.1
    · exact resume_of_waits (hp.1 h) (h acts (List.prefix_refl _))
    · exact resume_of_not_waits p _ fun h' => h (hp.2 h'.1)

/-- **A token is good for its own pause and no other**, in every history from power-on in which the
channel is started, resumed and aborted fewer times than there are generations, but for one case:
the engine has been reset since, and the channel waits again when it has been started, resumed and
aborted as often since that reset as it had been when the token was read. -/
theorem token_singleUse_iff {before after : List (Act β)} {y : Act β}
    (hy : y.Yields p (run before {})) (hf : renewals p (before ++ [y] ++ after) {} < UInt32.size) :
    SingleUse p (run (before ++ [y]) {}) after ↔
      ¬(.reset ∈ after ∧ ((run (before ++ [y] ++ after) {}).channel p).Waits ∧
        renewalsSince p (before ++ [y] ++ after) {} 0 = renewalsSince p (before ++ [y]) {} 0) := by
  have few : ∀ acts : List (Act β), renewals p acts {} < UInt32.size →
      renewalsSince p acts {} 0 < UInt32.size := fun _ h =>
    Nat.lt_of_le_of_lt (renewalsSince_le p _ {} 0) ((Nat.zero_add _).symm ▸ h)
  have hn' := few _ hf
  have hn := few (before ++ [y]) (by rw [renewals_append] at hf; omega)
  rw [renewalsSince_append] at hn'
  rw [renewalsSince_append, run_append (before ++ [y])]
  refine singleUse_iff ?_ (run_generation _ ?_) hn hn'
  · rw [run_append]
    exact hy.waits (run_intact before (channel_powerOn p ▸ Channel.intact_initial p))
  · exact congrArg Channel.generation (channel_powerOn p)

/-! The first window of a burst ends.  Its token is used; or the engine is reset, and a transfer in
slices is started that waits after its first block. -/

/-- The writes that program the graphics channel, and enable it. -/
def programGraphics (blocks control : UInt32) : List (Act (Bus BareBoard)) :=
  [.write 0x70 0x07654B21 0xFFFFFFFF, .write 0x20 0x1000 0xFFFFFFFF,
    .write 0x24 blocks 0xFFFFFFFF, .write 0x28 control 0xFFFFFFFF]

def chopOnce : Act (Bus BareBoard) := .step .graphics bareBus

theorem chopOnce_yields : chopOnce.Yields .graphics (run (programGraphics 2 0x01000101) {}) :=
  ⟨rfl, _, _, rfl⟩

/-- The token resumes the burst once, and is refused after that. -/
theorem token_usedOnce :
    SingleUse .graphics (run (programGraphics 2 0x01000101 ++ [chopOnce]) {})
        [(.resume .graphics 1 : Act (Bus BareBoard))] ∧
      ((run (programGraphics 2 0x01000101 ++ [chopOnce]) {}).channel .graphics).generation = 1 ∧
      ¬PausesThrough .graphics (run (programGraphics 2 0x01000101 ++ [chopOnce]) {})
        [(.resume .graphics 1 : Act (Bus BareBoard))] := by
  refine ⟨(token_singleUse_iff chopOnce_yields (by decide +kernel)).2 fun h => ?_,
    by decide +kernel, fun h => ?_⟩
  · exact absurd h.1 (by simp)
  · exact absurd (h _ (List.prefix_refl _)) (by decide +kernel)

/-- What follows the end of the window: a reset, and the first block of two. -/
def resetAndSlice : List (Act (Bus BareBoard)) :=
  .reset :: programGraphics 0x00020001 0x01000201 ++ [.step .graphics bareBus]

/-- **After a reset the token of the burst resumes the transfer in slices.** -/
theorem token_of_another_transfer :
    chopOnce.Yields .graphics (run (programGraphics 2 0x01000101) {}) ∧
      renewals .graphics (programGraphics 2 0x01000101 ++ [chopOnce] ++ resetAndSlice) {} = 2 ∧
      ¬SingleUse .graphics (run (programGraphics 2 0x01000101 ++ [chopOnce]) {}) resetAndSlice := by
  refine ⟨chopOnce_yields, by decide +kernel, fun h => ?_⟩
  have hp : ¬PausesThrough .graphics (run (programGraphics 2 0x01000101 ++ [chopOnce]) {})
      resetAndSlice := fun h => absurd (h [.reset] ⟨_, rfl⟩) (by decide +kernel)
  exact resume_eq_refused_iff.1 (h.refused hp) ⟨by decide +kernel, by decide +kernel⟩

end Engine

end DmaMachine
