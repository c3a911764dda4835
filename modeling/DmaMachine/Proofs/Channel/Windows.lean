import DmaMachine.Proofs.Channel.Unchopped

/-!
# The windows of a chopped burst

A chopped burst yields the bus after every window of units, until somebody resumes it.  All windows
together are the burst that is not chopped: the same units, and the same end.

* `step_whole`, `step_window`: what a step of a burst moves.
* `step_chopped`: **a step that yields has moved a window.**
* `Windows`: the windows of a burst, and what its last step comes to.
* `Windows.alike`: **the windows come to what the burst comes to.**
* `Windows.moved`, `Windows.length_eq`: what every window moves, and how many there are.
-/

namespace DmaMachine

variable {σ α : Type}

/-- What cannot be told apart through a function comes to the same, through the function. -/
theorem Op.Projects.ok_of_eq {f : σ → σ} {x : Op σ α} (h : Op.Projects f x x) {s t u : σ} {a : α}
    (hs : f s = f t) (hu : x s = .ok a u) : ∃ v, x t = .ok a v ∧ f u = f v := by
  have hk := (h.eq_ok (s := s)).2 ⟨u, hu, rfl⟩
  rw [hs] at hk
  obtain ⟨v, hv, he⟩ := h.eq_ok.1 hk
  exact ⟨v, hv, he.symm⟩

theorem Op.Projects.error_of_eq {f : σ → σ} {x : Op σ α} (h : Op.Projects f x x) {s t u : σ}
    {e : Fault} (hs : f s = f t) (hu : x s = .error e u) : ∃ v, x t = .error e v ∧ f u = f v := by
  have hk := (h.eq_error (s := s)).2 ⟨u, hu, rfl⟩
  rw [hs] at hk
  obtain ⟨v, hv, he⟩ := h.eq_error.1 hk
  exact ⟨v, hv, he.symm⟩

namespace Channel

/-! ### Bursts -/

/-- A burst is under way. -/
structure Bursting (c : Channel) : Prop where
  running : c.running = true
  active : c.active = true
  /-- Making the channel active once more would leave the control word as it is. -/
  armed : (c.control.set .startBusy true).set .forceStart false = c.control
  syncMode : c.control.syncMode = .burst
  held : c.held = none
  address_le : c.address ≤ addressMask

section

variable {p : Peer} {c : Channel}

theorem mode_of_burst (p : Peer) (hm : c.control.syncMode = .burst) : c.mode p = .burst := by
  rw [mode, hm]
  split <;> rfl

theorem load_of_burst (p : Peer) (hm : c.control.syncMode = .burst) : c.load p = { c with
    shadowBase := c.base, shadowBlocks := c.blocks, address := c.base &&& wordAddressMask
    nodeCount := 0, lastNode := false, held := none, wordsLeft := c.blocks.wordCount
    blocksLeft := 1 } := by
  have hmode := mode_of_burst p hm
  simp only [mode] at hmode
  simp only [load, mode, hmode]

theorem Bursting.start (p : Peer) (hm : c.control.syncMode = .burst) :
    Bursting (c.load p).activate where
  running := rfl
  active := rfl
  armed := by
    refine Control.ext_bits fun i hi => ?_
    simp only [activate, Control.bit_set_eq _ _ _ hi]
    split
    · rfl
    · split <;> rfl
  syncMode := by simp [activate, hm]
  held := held_load p c
  address_le := address_load p c

/-- Units leave the burst under way. -/
theorem Bursting.advance (h : Bursting c) (n : Nat) : Bursting (c.advance p n) where
  running := h.running
  active := h.active
  armed := h.armed
  syncMode := h.syncMode
  held := h.held
  address_le := along_le _ _ _

/-- A resumption takes back what yielding did, but for the generation. -/
theorem Bursting.activate_halted (h : Bursting c) :
    c.halted.activate = { c with generation := c.generation + 1 } := by
  have hr := h.running
  have ha := h.active
  have hk := h.armed
  cases c
  simp only [activate, halted] at hr ha hk ⊢
  rw [hk, hr, ha]

/-- The generation is of no account. -/
theorem Bursting.renew (h : Bursting c) (generation : UInt32) :
    Bursting { c with generation } where
  running := h.running
  active := h.active
  armed := h.armed
  syncMode := h.syncMode
  held := h.held
  address_le := h.address_le

end

/-! ### Steps of a burst -/

section Steps

variable {β : Type} [Master β] {p : Peer} {s t : Stage β}

/-- What follows on all units of a burst. -/
def endBurst (p : Peer) (through : Bool) : Op (Stage β) Status :=
  if through then do
    complete p
    return .completed
  else return .faulted

/-- What follows on the units of a window. -/
def endWindow (n : Nat) (through : Bool) : Op (Stage β) Status :=
  if through then do
    Stage.onChannel halted
    return .chopped n
  else return .faulted

/-- Units may be moved in two parts. -/
theorem moveUnits_add (p : Peer) (m n : Nat) : (moveUnits p (m + n) : Op (Stage β) Bool) =
    moveUnits p m >>= fun through => if through then moveUnits p n else pure false := by
  induction m with
  | zero => rw [Nat.zero_add, moveUnits, pure_bind, if_pos rfl]
  | succ m ih =>
      rw [Nat.succ_add, moveUnits, moveUnits, ih, bind_assoc]
      refine congrArg _ (funext fun through => ?_)
      cases through <;> simp

/-- **A step moves all that is left**, without chopping or when that is a window or less. -/
theorem step_whole (hp : p ≠ .orderingTable) (h : Bursting s.channel)
    (hn : s.channel.control.has .chopping = true →
      s.channel.wordsLeft ≤ s.channel.control.busWindow) :
    step p s = (moveUnits p s.channel.wordsLeft >>= endBurst p) s := by
  have hm : (if s.channel.control.has .chopping then
      min s.channel.control.busWindow s.channel.wordsLeft else s.channel.wordsLeft) =
        s.channel.wordsLeft := by
    split
    · rename_i hc
      exact Nat.min_eq_right (hn hc)
    · rfl
  rw [step_of_active hp h.active h.syncMode, stepIn, stepBurst, Op.bind_apply]
  simp only [Stage.channelOf, hm]
  rfl

/-- **A step moves a window**, with chopping and when more is left. -/
theorem step_window (hp : p ≠ .orderingTable) (h : Bursting s.channel)
    (hc : s.channel.control.has .chopping = true)
    (hn : s.channel.control.busWindow < s.channel.wordsLeft) :
    step p s =
      (moveUnits p s.channel.control.busWindow >>= endWindow s.channel.control.cpuWindow) s := by
  rw [step_of_active hp h.active h.syncMode, stepIn, stepBurst, Op.bind_apply]
  simp only [Stage.channelOf, hc, if_true, Nat.min_eq_left (Nat.le_of_lt hn), Nat.ne_of_lt hn,
    if_false]
  rfl

omit [Master β] in
theorem endBurst_unchopped (p : Peer) (through : Bool) :
    Op.Projects Stage.unchopped (endBurst (β := β) p through) (endBurst p through) := by
  cases through with
  | true => exact .bind (complete_unchopped p) fun _ => .pure _
  | false => exact .pure _

/-- Results that differ in the chopping bits and the generation of the channel at most. -/
def Alike (x y : EStateM.Result Fault (Stage β) Status) : Prop :=
  (Op.outcome x).1 = (Op.outcome y).1 ∧
    (Op.outcome x).2.unchopped = (Op.outcome y).2.unchopped

omit [Master β] in
theorem alike_of_projects {x : Op (Stage β) Status} (h : Op.Projects Stage.unchopped x x)
    (hs : s.unchopped = t.unchopped) : Alike (x s) (x t) := by
  have ht := h s
  rw [hs, h t] at ht
  exact ⟨(congrArg Prod.fst ht).symm, (congrArg Prod.snd ht).symm⟩

/-- The windows of a burst that is resumed after each of them, from where to where the step moved
it, and the result of the step after the last one. -/
inductive Windows (p : Peer) :
    Stage β → List (Stage β × Stage β) → EStateM.Result Fault (Stage β) Status → Prop where
  | last {s : Stage β} (hx : ∀ n t, step p s ≠ .ok (.chopped n) t) : Windows p s [] (step p s)
  | next {s t : Stage β} {d : Channel} {n : Nat} {ws : List (Stage β × Stage β)}
      {x : EStateM.Result Fault (Stage β) Status} (hs : step p s = .ok (.chopped n) t)
      (ha : arm p true t.channel = .ok () d) (h : Windows p ⟨d, t.controller, t.bus⟩ ws x) :
      Windows p s ((s, t) :: ws) x

end Steps

section Windows

variable {δ : Type} [Board δ] {p : Peer} {port : DataPort} {s s' t : Stage (Recorder (Bus δ))}

/-- The units of one window were moved. -/
structure WindowMoved (p : Peer) (port : DataPort) (w : Nat) (s t : Stage (Recorder (Bus δ))) :
    Prop where
  wordsLeft : t.channel.wordsLeft + w = s.channel.wordsLeft
  address : t.channel.address = along (s.channel.stride p) s.channel.address w
  accesses : ∃ vs, vs.length = w ∧ t.bus.log = s.bus.log ++
    port.touchesAll s.channel.control.direction (unitAddresses p s.channel w) vs
  cycles : t.bus.bus.pendingCycles = s.bus.bus.pendingCycles + w

/-- What a step that yields has done: it moved a window, and a resumption goes on from there. -/
structure Yielded (p : Peer) (port : DataPort) (s t : Stage (Recorder (Bus δ))) : Prop where
  chopping : s.channel.control.has .chopping = true
  more : s.channel.control.busWindow < s.channel.wordsLeft
  moved : WindowMoved p port s.channel.control.busWindow s t
  through : moveUnits p s.channel.control.busWindow s =
    .ok true ⟨s.channel.advance p s.channel.control.busWindow, t.controller, t.bus⟩
  resumed : t.channel.activate = { s.channel.advance p s.channel.control.busWindow with
    generation := s.channel.generation + 1 }

/-- **A step that yields has moved a window.** -/
theorem step_chopped (hp : p.port? = some port) (h : Bursting s.channel) {n : Nat}
    (hs : step p s = .ok (.chopped n) t) : Yielded p port s t := by
  have hne := ne_orderingTable hp
  by_cases hn : s.channel.control.has .chopping = true →
      s.channel.wordsLeft ≤ s.channel.control.busWindow
  · rw [step_whole hne h hn] at hs
    obtain ⟨through, u, -, hs⟩ := Op.bind_eq_ok.1 hs
    cases through <;> cases hs
  · obtain ⟨hc, hn⟩ := Classical.not_imp.1 hn
    have hn := Nat.lt_of_not_le hn
    rw [step_window hne h hc hn] at hs
    obtain ⟨through, u, hu, hs⟩ := Op.bind_eq_ok.1 hs
    cases through with
    | false => cases hs
    | true =>
        cases hs
        obtain ⟨-, -, vs, r, hv, rfl⟩ := (moveUnits_eq_ok_iff hp _ h.held h.address_le).1 hu
        have hk := Recorder.carryAll_ok (DataPort.onBoard_of_port hp) hv
        have hb := (Recorder.transparent.carryAll port _ _).eq_ok.2 ⟨r, hv, rfl⟩
        have hl : vs.length = s.channel.control.busWindow := by
          rw [hk.2.1, unitAddresses_eq _ h.address_le, List.length_map, List.length_range]
        exact ⟨hc, hn, ⟨Nat.sub_add_cancel (Nat.le_of_lt hn), rfl, ⟨vs, hl, hk.1⟩,
          congrArg (· + _) (DataPort.carryAll_cycles port hb)⟩, hu, (h.advance _).activate_halted⟩

theorem Yielded.bursting (hy : Yielded p port s t) (h : Bursting s.channel) :
    Bursting t.channel.activate := by
  rw [hy.resumed]
  exact (h.advance _).renew _

theorem Yielded.control (hy : Yielded p port s t) :
    t.channel.activate.control = s.channel.control := by
  rw [hy.resumed]
  rfl

theorem Yielded.wordsLeft (hy : Yielded p port s t) :
    t.channel.activate.wordsLeft = s.channel.wordsLeft - s.channel.control.busWindow := by
  rw [hy.resumed]
  rfl

/-! ### The burst without chopping -/

/-- The second stage is in the burst of the first one, without chopping. -/
structure Plain (s s' : Stage (Recorder (Bus δ))) : Prop where
  bursting : Bursting s'.channel
  chopping : s'.channel.control.has .chopping = false
  unchopped : s.unchopped = s'.unchopped

omit [Board δ] in
theorem Plain.wordsLeft (h : Plain s s') : s'.channel.wordsLeft = s.channel.wordsLeft :=
  (congrArg (·.channel.wordsLeft) h.unchopped).symm

/-- Without chopping, the units of a window may be moved before the others. -/
theorem Plain.step_split (hp : p ≠ .orderingTable) (h : Plain s s') {w : Nat}
    (hw : w ≤ s.channel.wordsLeft) :
    step p s' = (moveUnits p w >>= fun through =>
      if through then moveUnits p (s.channel.wordsLeft - w) >>= endBurst p
      else pure .faulted) s' := by
  have hm := step_whole hp h.bursting
    fun hc => absurd (h.chopping.symm.trans hc) Bool.false_ne_true
  rw [h.wordsLeft, ← Nat.add_sub_of_le hw, moveUnits_add, bind_assoc] at hm
  rw [hm]
  refine congrArg (fun f => (moveUnits p w >>= f) s') (funext fun through => ?_)
  cases through <;> rfl

/-- After a window, the burst without chopping is where the resumption is. -/
theorem Plain.of_yielded (hp : p.port? = some port) (h : Plain s s') (hy : Yielded p port s t) :
    ∃ u, Plain ⟨t.channel.activate, t.controller, t.bus⟩ u ∧ step p s' = step p u := by
  have hne := ne_orderingTable hp
  have hb := h.bursting
  obtain ⟨u, hu, he⟩ := (moveUnits_unchopped p _).ok_of_eq h.unchopped hy.through
  have hs := h.step_split hne (Nat.le_of_lt hy.more)
  rw [Op.bind_apply, hu] at hs
  obtain ⟨-, -, -, r, -, rfl⟩ := (moveUnits_eq_ok_iff hp _ hb.held hb.address_le).1 hu
  have hk : Plain ⟨t.channel.activate, t.controller, t.bus⟩
      ⟨s'.channel.advance p s.channel.control.busWindow, s'.controller,
        Master.charge s.channel.control.busWindow r⟩ := by
    refine ⟨hb.advance _, h.chopping, ?_⟩
    rw [hy.resumed]
    exact he
  refine ⟨_, hk, ?_⟩
  -- What the burst has left to move from there is what its step moves from there.
  have hw := step_whole hne hk.bursting
    fun hc => absurd (hk.chopping.symm.trans hc) Bool.false_ne_true
  rw [hk.wordsLeft, show (Stage.mk t.channel.activate t.controller t.bus).channel.wordsLeft =
    s.channel.wordsLeft - s.channel.control.busWindow from hy.wordsLeft] at hw
  rw [hs, hw]
  rfl

/-- A step that does not yield comes to what the burst comes to. -/
theorem Plain.step_alike (hp : p ≠ .orderingTable) (h : Plain s s') (hs : Bursting s.channel)
    (hx : ∀ n t, step p s ≠ .ok (.chopped n) t) : Alike (step p s) (step p s') := by
  by_cases hn : s.channel.control.has .chopping = true →
      s.channel.wordsLeft ≤ s.channel.control.busWindow
  · rw [step_whole hp hs hn, step_whole hp h.bursting (by simp [h.chopping]), h.wordsLeft]
    exact alike_of_projects ((moveUnits_unchopped p _).bind (endBurst_unchopped p)) h.unchopped
  · obtain ⟨hc, hn⟩ := Classical.not_imp.1 hn
    have hn := Nat.lt_of_not_le hn
    have hw := step_window hp hs hc hn
    rw [h.step_split hp (Nat.le_of_lt hn), Op.bind_apply]
    rw [Op.bind_apply] at hw
    -- A window that gets through would yield, and so this one does not.
    cases hm : moveUnits p s.channel.control.busWindow s with
    | error e u =>
        obtain ⟨v, hv, he⟩ := (moveUnits_unchopped p _).error_of_eq h.unchopped hm
        rw [hw, hm, hv]
        exact ⟨rfl, he⟩
    | ok through u =>
        obtain ⟨v, hv, he⟩ := (moveUnits_unchopped p _).ok_of_eq h.unchopped hm
        rw [hm] at hw
        cases through with
        | true => exact absurd hw (hx _ _)
        | false =>
            rw [hw, hv]
            exact ⟨rfl, he⟩

/-! ### All windows -/

section

variable {ws : List (Stage (Recorder (Bus δ)) × Stage (Recorder (Bus δ)))}
  {x : EStateM.Result Fault (Stage (Recorder (Bus δ))) Status}

/-- **The windows come to what the burst comes to** that is not chopped. -/
theorem Windows.alike (hp : p.port? = some port) (hw : Windows p s ws x) :
    Bursting s.channel → ∀ {s'}, Plain s s' → Alike x (step p s') := by
  induction hw with
  | last hx => exact fun h _ hs => hs.step_alike (ne_orderingTable hp) h hx
  | next hs ha _ ih =>
      intro h s' hs'
      have hy := step_chopped hp h hs
      obtain ⟨u, hu, he⟩ := hs'.of_yielded hp hy
      cases ha
      rw [he]
      exact ih (hy.bursting h) hu

/-- **Every window is moved.** -/
theorem Windows.moved (hp : p.port? = some port) (hw : Windows p s ws x) :
    Bursting s.channel →
      ∀ y ∈ ws, WindowMoved p port s.channel.control.busWindow y.1 y.2 := by
  induction hw with
  | last => exact fun _ _ hy => absurd hy List.not_mem_nil
  | next hs ha _ ih =>
      intro h
      have hy := step_chopped hp h hs
      cases ha
      have hk := ih (hy.bursting h)
      rw [hy.control] at hk
      exact List.forall_mem_cons.2 ⟨hy.moved, hk⟩

/-- **How many windows there are** before the end of a transfer. -/
theorem Windows.length_eq (hp : p.port? = some port) (hw : Windows p s ws x)
    (hx : x = .ok .completed t) :
    Bursting s.channel → s.channel.control.has .chopping = true → 0 < s.channel.wordsLeft →
      ws.length = (s.channel.wordsLeft - 1) / s.channel.control.busWindow := by
  induction hw with
  | @last s _ =>
      intro h hc h0
      have hn : s.channel.wordsLeft ≤ s.channel.control.busWindow := by
        by_contra hn
        rw [step_window (ne_orderingTable hp) h hc (by omega)] at hx
        obtain ⟨through, u, -, hx⟩ := Op.bind_eq_ok.1 hx
        cases through <;> cases hx
      rw [Nat.div_eq_of_lt (by omega)]
      rfl
  | @next s t d n ws x hs ha _ ih =>
      intro h hc h0
      have hy := step_chopped hp h hs
      have hn := hy.more
      cases ha
      have ih := ih hx (hy.bursting h) (by rw [hy.control]; exact hc)
        (by rw [hy.wordsLeft]; omega)
      rw [hy.control, hy.wordsLeft] at ih
      have hd := Nat.div_eq_sub_div s.channel.control.busWindow_pos (Nat.le_sub_one_of_lt hn)
      rw [List.length_cons, ih, hd, Nat.sub_right_comm]

/-- Windows come to an end, because every one leaves fewer words. -/
theorem exists_windows (hp : p.port? = some port) (h : Bursting s.channel) :
    ∃ ws x, Windows p s ws x := by
  induction hm : s.channel.wordsLeft using Nat.strongRecOn generalizing s with
  | ind m ih =>
      by_cases hx : ∃ n t, step p s = .ok (.chopped n) t
      · obtain ⟨n, t, hs⟩ := hx
        have hy := step_chopped hp h hs
        have hn := hy.more
        have hw := s.channel.control.busWindow_pos
        obtain ⟨ws, x, hw⟩ := ih (s.channel.wordsLeft - s.channel.control.busWindow) (by omega)
          (s := ⟨t.channel.activate, t.controller, t.bus⟩) (hy.bursting h) hy.wordsLeft
        exact ⟨_, x, .next hs rfl hw⟩
      · exact ⟨_, _, .last fun n t hs => hx ⟨n, t, hs⟩⟩

end

/-- **A chopped burst is the burst without chopping**: its windows make the same accesses in the
same order and come to the same, for the same cycles.  Every step that yields has moved a window,
and a transfer yields as often as there are windows before its last one. -/
theorem chopped_burst_alike {c d e : Channel} (hp : p.port? = some port)
    (hm : c.control.syncMode = .burst) (hc : c.control.has .chopping = true)
    (hd : d.control.has .chopping = false) (hcd : c.unchopped = d.unchopped)
    (h : arm p false c = .ok () e) :
    ∃ f, arm p false d = .ok () f ∧ ∀ (controller : Controller) (r : Recorder (Bus δ)),
      (∃ ws x, Windows p ⟨e, controller, r⟩ ws x) ∧
        ∀ ws x, Windows p ⟨e, controller, r⟩ ws x →
          Alike x (step p ⟨f, controller, r⟩) ∧
            (∀ y ∈ ws, WindowMoved p port c.control.busWindow y.1 y.2) ∧
              ∀ t, x = .ok .completed t → ws.length =
                (c.blocks.wordCount + c.control.busWindow - 1) / c.control.busWindow - 1 := by
  obtain ⟨hr, rfl⟩ := arm_eq_ok h
  have hmd : d.control.syncMode = .burst := by
    have hs : d.unchopped.control.syncMode = c.unchopped.control.syncMode := by rw [hcd]
    rw [← d.control.syncMode_unchopped, ← hm, ← c.control.syncMode_unchopped]
    exact hs
  have hrd : d.refusal? p = none := by
    rw [← d.refusal?_unchopped, ← hcd, c.refusal?_unchopped, hr]
  have hu : (c.load p).activate.unchopped = (d.load p).activate.unchopped := by
    rw [← activate_unchopped, ← load_unchopped, hcd, load_unchopped, activate_unchopped]
  have hb := Bursting.start p hm
  have hw : (c.load p).activate.control.busWindow = c.control.busWindow := by simp [activate]
  have hl : (c.load p).activate.wordsLeft = c.blocks.wordCount := by
    rw [load_of_burst p hm]
    rfl
  refine ⟨_, arm_of_accepted hrd, fun controller r => ⟨exists_windows hp hb, fun ws x hx =>
    ⟨hx.alike hp hb ⟨.start p hmd, by simp [activate, hd], ?_⟩, fun y hy => ?_, fun t ht => ?_⟩⟩⟩
  · exact congrArg (Stage.mk · controller r) hu
  · rw [← hw]
    exact hx.moved hp hb y hy
  · have h0 := c.blocks.wordCount_pos
    have hn := hx.length_eq hp ht hb (by simp [activate, hc]) (hl ▸ h0)
    have hk : c.blocks.wordCount + c.control.busWindow - 1 =
        c.blocks.wordCount - 1 + c.control.busWindow := by omega
    rw [hk, Nat.add_div_right _ c.control.busWindow_pos, hn, ← hw, ← hl]
    rfl

/-- A burst of two words, chopped after each of them. -/
def choppedPair : Channel := { base := 0x100, blocks := ⟨2⟩, control := ⟨0x101⟩ }

theorem choppedPair_yields : ∃ ws t, Windows (β := Recorder (Bus BareBoard)) .graphics
    ⟨(choppedPair.load .graphics).activate, {}, ⟨bareBus, []⟩⟩ ws (.ok .completed t) ∧
      ws.length = 1 := by
  obtain ⟨f, hf, h⟩ := chopped_burst_alike (δ := BareBoard) (p := .graphics) (c := choppedPair)
    (d := { choppedPair with control := ⟨0x001⟩ }) rfl (by decide) (by decide) (by decide)
    (by decide) rfl
  obtain ⟨⟨ws, x, hx⟩, h⟩ := h {} ⟨bareBus, []⟩
  obtain ⟨⟨ha, -⟩, -, hn⟩ := h ws x hx
  cases hf
  have hs : (Op.outcome x).1 = .ok .completed := ha
  cases x with
  | error e t => cases hs
  | ok status t =>
      cases hs
      exact ⟨ws, t, hx, hn t rfl⟩

end Windows

end Channel

end DmaMachine
