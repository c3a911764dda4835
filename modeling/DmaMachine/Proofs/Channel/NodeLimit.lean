import DmaMachine.Proofs.Channel.Lists

/-!
# The limit of a list

A list may have `nodeLimit` nodes.  Headers are read and units are moved in one log, and every unit
is read and written, so that the reads that go with no write are headers: `Unpaired`.

* `walk_bounded`: a walk enters no more nodes than it may.
* `Listing.step_counts`: **what a step of a list counts**, headers and nodes alike.
* `Walking.listing`: over a transfer with any bus errors, every header that got through counts.
* `list_walk`: lists are walked as they stand in memory, and given up at the limit.
-/

namespace DmaMachine

namespace Channel

/-! ### Counting nodes -/

section Bound

variable {β : Type} [Master β] {p : Peer} {s t u : Stage β}

/-- Moving units visits no node. -/
theorem moveUnits_nodeCount (p : Peer) (n : Nat) :
    Op.Relates (fun s t : Stage β => t.channel.nodeCount = s.channel.nodeCount)
      (moveUnits p n) := by
  have hR : Chains fun s t : Stage β => t.channel.nodeCount = s.channel.nodeCount :=
    ⟨fun _ => rfl, fun h k => k.trans h⟩
  have hu : Op.Relates (fun s t : Stage β => t.channel.nodeCount = s.channel.nodeCount)
      (moveUnit p) := fun s => by
    show (Op.outcome (Attempt.unit.perform p s)).2.channel.nodeCount = _
    obtain ⟨held, h | h | ⟨f, t, ha, h⟩⟩ := Attempt.unit.perform_channel p s
    · rw [h]
    · rw [h]
      rfl
    · obtain ⟨through, _, -, ha⟩ := Op.bind_eq_ok.1 ha
      cases through <;> cases ha
      rw [h]
      rfl
  induction n with
  | zero => exact hR.refl
  | succ n ih =>
      refine .bind hR hu fun through => ?_
      cases through
      · exact hR.refl
      · exact ih

/-- Visiting a node counts it, if it goes through. -/
theorem visitNode_nodeCount {through : Bool} (h : visitNode s = .ok through t) :
    t.channel.nodeCount = s.channel.nodeCount + if through then 1 else 0 := by
  obtain ⟨f, u, ha, -, ht⟩ | ⟨f, u, ha, -, ht⟩ | ⟨_, _, -, ht⟩ :=
    Attempt.perform_cases (p := .graphics) (a := .header) h
  · obtain ⟨-, held, hu⟩ := Attempt.access_keeps_rest ha
    obtain ⟨_, _, -, ha⟩ := Op.bind_eq_ok.1 ha
    obtain ⟨header, _, -, ha⟩ := Op.bind_eq_ok.1 ha
    cases ha
    cases ht
    show u.channel.nodeCount + 1 = _
    rw [hu]
    rfl
  · obtain ⟨-, held, hu⟩ := Attempt.access_keeps_rest ha
    cases ht
    show u.channel.nodeCount = _
    rw [hu]
    rfl
  · cases ht

/-- What a walk from `s` that may enter `n` more nodes comes to, as far as these are counted: it
enters as many or fewer, and it fails after exactly as many, or with an attempt that does. -/
def Bounded (p : Peer) (n : Nat) (s : Stage β) : EStateM.Result Fault (Stage β) Status → Prop
  | .ok _ t => t.channel.nodeCount ≤ s.channel.nodeCount + n
  | .error e t => t.channel.nodeCount = s.channel.nodeCount + n ∨
      ∃ (a : Attempt) (u : Stage β), Through p s u ∧ a.Fits p u.channel ∧ a.perform p u = .error e t

/-- **A walk enters no more nodes than it may.** -/
theorem walk_bounded : ∀ (n : Nat) {s : Stage β}, s.channel.mode p = .linkedList →
    Bounded p n s (walk p n s)
  | n, s, hm => by
      have hp : p ≠ .orderingTable := by
        rintro rfl
        cases hm
      have hc := moveUnits_nodeCount p s.channel.wordsLeft s
      have ht := moveUnits_tried (s := s) s.channel.wordsLeft ⟨hp, by simp [hm]⟩
      rw [walk_eq, Op.bind_apply]
      generalize moveUnits p s.channel.wordsLeft s = r at hc ht
      cases ht with
      | failed a h hf ha => exact .inr ⟨a, _, h, hf, ha⟩
      | @stopped u t a h hf ha =>
        have hc : t.channel.nodeCount = s.channel.nodeCount := hc
        show t.channel.nodeCount ≤ _
        omega
      | @through u h =>
        have hc : u.channel.nodeCount = s.channel.nodeCount := hc
        have hmu : u.channel.mode p = .linkedList := (mode_congr h.keeps.2.1).trans hm
        show Bounded p n s (goOn p n u)
        cases hl : u.channel.lastNode with
        | true =>
          rw [goOn_of_last p n hl]
          show u.channel.nodeCount ≤ _
          omega
        | false =>
          cases n with
          | zero =>
            rw [goOn_zero p hl]
            exact .inl hc
          | succ n =>
            have hv : Tried p u (visitNode u) := Attempt.tried (a := .header) hmu
            rw [goOn_succ p n hl, Op.bind_apply]
            generalize hr : visitNode u = r at hv
            cases hv with
            | failed a k hf ha => exact .inr ⟨a, _, h.trans k, hf, ha⟩
            | @stopped w t a k hf ha =>
                have ht := visitNode_nodeCount hr
                show t.channel.nodeCount ≤ _
                simp only [Bool.false_eq_true, if_false] at ht
                omega
            | @through v k =>
                have hv : v.channel.nodeCount = u.channel.nodeCount + 1 := visitNode_nodeCount hr
                have ih := walk_bounded n ((mode_congr k.keeps.2.1).trans hmu)
                show Bounded p (n + 1) s (walk p n v)
                generalize walk p n v = r at ih
                cases r with
                | ok status t =>
                    have ih : t.channel.nodeCount ≤ v.channel.nodeCount + n := ih
                    show t.channel.nodeCount ≤ _
                    omega
                | error e t =>
                    obtain ih | ⟨a, w, j, hf, ha⟩ := ih
                    · exact .inl (by omega)
                    · exact .inr ⟨a, w, (h.trans k).trans j, hf, ha⟩

end Bound

/-- Headers among accesses.  Every other read goes with a write. -/
def headersRead (l : List Touch) : Nat := l.countP (!·.isWrite) - l.countP (·.isWrite)

/-- Of the accesses, `j` reads go with no write. -/
def Unpaired (j : Nat) (l : List Touch) : Prop := l.countP (!·.isWrite) = l.countP (·.isWrite) + j

theorem Unpaired.append {i j : Nat} {k l : List Touch} (h : Unpaired i k) (h' : Unpaired j l) :
    Unpaired (i + j) (k ++ l) := by
  simp only [Unpaired, List.countP_append] at h h' ⊢
  omega

theorem Unpaired.headersRead {j : Nat} {l : List Touch} (h : Unpaired j l) :
    headersRead l = j := by
  rw [Unpaired] at h
  rw [Channel.headersRead]
  omega

section Counts

variable {δ : Type} [Board δ] {s t u : Stage (Recorder (Bus δ))}

/-- The access of a header that goes through. -/
theorem visitNode_log {through : Bool} (h : visitNode s = .ok through t) :
    ∃ v, t.bus.log = s.bus.log ++ [⟨false, .word, s.channel.nextNode, v⟩] ∧
      t.channel.held = s.channel.held := by
  have hu : ∀ {f : Option (Channel → Channel)} {u}, Attempt.header.access .graphics s = .ok f u →
      ∃ v, u.bus.log = s.bus.log ++ [⟨false, .word, s.channel.nextNode, v⟩] ∧
        f = some (enterNode v) ∧ u.channel = s.channel := by
    intro f u ha
    obtain ⟨_, _, ha, ha'⟩ := Op.bind_eq_ok.1 ha
    cases ha
    obtain ⟨v, w, hw, ha⟩ := Op.bind_eq_ok.1 ha'
    obtain ⟨r, hr, rfl⟩ := Stage.onBus_eq_ok.1 hw
    cases ha
    exact ⟨v, (Recorder.read_log hr).1, rfl, rfl⟩
  obtain ⟨f, u, ha, -, ht⟩ | ⟨f, u, ha, -, ht⟩ | ⟨_, _, -, ht⟩ :=
    Attempt.perform_cases (p := .graphics) (a := .header) h
  · obtain ⟨v, hl, hf, hc⟩ := hu ha
    cases hf
    cases ht
    refine ⟨v, hl, ?_⟩
    show u.channel.held = _
    rw [hc]
  · obtain ⟨v, hl, hf, hc⟩ := hu ha
    cases ht
    refine ⟨v, hl, ?_⟩
    show u.channel.held = _
    rw [hc]
  · cases ht

/-- Attempts that go through read and write every word, and read headers besides. -/
theorem Through.unpaired (h : Through .graphics s u)
    (hd : s.channel.control.direction = .fromRam) (hh : s.channel.held = Option.none) :
    u.channel.held = Option.none ∧ ∃ l j, u.bus.log = s.bus.log ++ l ∧ Unpaired j l ∧
      u.channel.nodeCount = s.channel.nodeCount + j := by
  induction h with
  | none s => exact ⟨hh, [], 0, (List.append_nil _).symm, rfl, rfl⟩
  | @next s t u a hf ha h ih =>
      have hk : t.channel.control = s.channel.control := (Through.next a hf ha (.none t)).keeps.2.1
      have hn : t.channel.held = Option.none ∧ ∃ l j, t.bus.log = s.bus.log ++ l ∧ Unpaired j l ∧
          t.channel.nodeCount = s.channel.nodeCount + j := by
        cases a with
        | unit =>
            obtain ⟨-, -, v, r, hr, rfl⟩ := (moveUnit_eq_ok_iff rfl hh).1 ha
            rw [hd] at hr
            exact ⟨hh, _, 0, (Recorder.carry_ok DataPort.onBoard_graphics hr).1, rfl, rfl⟩
        | header =>
            obtain ⟨v, hl, hc⟩ := visitNode_log ha
            exact ⟨hc.trans hh, _, 1, hl, rfl, visitNode_nodeCount ha⟩
        | entry n => cases hf
      obtain ⟨hh', k, i, hk', hi, hci⟩ := hn
      obtain ⟨hu, l, j, hl, hj, hcj⟩ := ih (by rw [hk]; exact hd) hh'
      exact ⟨hu, k ++ l, i + j, by rw [hl, hk', List.append_assoc], hi.append hj, by omega⟩

/-- A word out of memory that does not get through is not put into the port. -/
theorem transferUnit_log (hd : s.channel.control.direction = .fromRam)
    (h : transferUnit .graphics s = .ok false t) :
    ∃ v, t.bus.log = s.bus.log ++ [⟨false, .word, s.channel.address, v⟩] ∧
      t.channel = s.channel := by
  rw [transferUnit_of_fromRam rfl hd] at h
  obtain ⟨v, u, hu, h⟩ := Op.bind_eq_ok.1 h
  obtain ⟨r, hr, rfl⟩ := Stage.onBus_eq_ok.1 hu
  rw [exception_bind] at h
  cases he : Master.exception r with
  | true =>
      simp only [he] at h
      cases h
      exact ⟨v, (Recorder.read_log hr).1, rfl⟩
  | false =>
      simp only [he] at h
      obtain ⟨_, w, hw, h⟩ := Op.bind_eq_ok.1 h
      obtain ⟨r', hr', rfl⟩ := Stage.onBus_eq_ok.1 hw
      have hf : Master.exception r' = false :=
        (Recorder.writePort_flag DataPort.onBoard_graphics hr').trans he
      simp only [exception_bind, hf] at h
      cases h

/-- **An attempt that a bus error stops** has made one read, and counts no node. -/
theorem Attempt.stopped_reads {a : Attempt} (hf : a.Fits .graphics s.channel)
    (hd : s.channel.control.direction = .fromRam) (h : a.perform .graphics s = .ok false t) :
    t.channel.held = s.channel.held ∧ t.channel.nodeCount = s.channel.nodeCount ∧
      ∃ x, t.bus.log = s.bus.log ++ [x] := by
  cases a with
  | unit =>
      obtain ⟨_, _, -, -, ht⟩ | ⟨f, u, ha, hr, ht⟩ | ⟨_, _, -, ht⟩ := Attempt.perform_cases h
      · cases ht
      · obtain ⟨through, w, hw, ha⟩ := Op.bind_eq_ok.1 ha
        cases through with
        | true =>
            have hf := transferUnit_flag hw
            cases ha
            obtain hr | hr := hr
            · cases hr
            · rw [show Master.exception u.bus = true from hr] at hf
              cases hf
        | false =>
            obtain ⟨v, hl, hc⟩ := transferUnit_log hd hw
            cases ha
            cases ht
            refine ⟨?_, ?_, _, hl⟩
            · show u.channel.held = _
              rw [hc]
            · show u.channel.nodeCount = _
              rw [hc]
      · cases ht
  | header =>
      obtain ⟨v, hl, hc⟩ := visitNode_log h
      exact ⟨hc, visitNode_nodeCount h, _, hl⟩
  | entry n => cases hf

/-- An attempt at a list does not answer that it goes on past the limit, unless a device does. -/
theorem Attempt.error_ne_overflow {a : Attempt} (hf : a.Fits .graphics s.channel)
    (hd : s.channel.control.direction = .fromRam) (hc : Proper .graphics s.channel)
    (hdev : ∀ v x (b b' : Bus δ), DataPort.graphics.write v b ≠ .error (overflow x) b')
    {e : Fault} (h : a.perform .graphics s = .error e t) (x : UInt32) : e ≠ overflow x := by
  obtain ⟨_, _, -, -, ht⟩ | ⟨_, _, -, -, ht⟩ | ⟨e, u, ha, ht⟩ := Attempt.perform_cases h
  · cases ht
  · cases ht
  · cases ht
    have hread : ∀ {y : UInt32} {r r' : Recorder (Bus δ)}, y ≤ addressMask →
        Master.read .word y r = .error e r' → e ≠ overflow x := by
      intro y r r' hy hr
      have hb := (Recorder.transparent.read .word y).eq_error.2 ⟨r', hr, rfl⟩
      rw [Bus.read_error hy hb]
      nofun
    cases a with
    | unit =>
        obtain ht | ⟨_, _, -, ht⟩ := Op.bind_eq_error.1 ha
        · rw [transferUnit_of_fromRam rfl hd] at ht
          obtain ht | ⟨v, w, hw, ht⟩ := Op.bind_eq_error.1 ht
          · obtain ⟨r, hr, -⟩ := Stage.onBus_eq_error.1 ht
            exact hread hc.address_le hr
          · rw [exception_bind] at ht
            cases he : Master.exception w.bus with
            | true =>
                simp only [he] at ht
                cases ht
            | false =>
                simp only [he] at ht
                obtain ht | ⟨_, _, -, ht⟩ := Op.bind_eq_error.1 ht
                · obtain ⟨r, hr, -⟩ := Stage.onBus_eq_error.1 ht
                  have hb := (Recorder.transparent.writePort _ v).eq_error.2 ⟨r, hr, rfl⟩
                  rintro rfl
                  exact hdev _ _ _ _ hb
                · cases ht
        · cases ht
    | header =>
        obtain ht | ⟨_, _, hn, ht⟩ := Op.bind_eq_error.1 ha
        · cases ht
        · cases hn
          obtain ht | ⟨_, _, -, ht⟩ := Op.bind_eq_error.1 ht
          · obtain ⟨r, hr, -⟩ := Stage.onBus_eq_error.1 ht
            exact hread hc.nextNode_le hr
          · cases ht
    | entry n => cases hf

/-- A list is at work on its nodes. -/
structure Listing (c : Channel) : Prop where
  active : c.active = true
  syncMode : c.control.syncMode = .linkedList
  direction : c.control.direction = .fromRam
  held : c.held = none
  proper : Proper .graphics c
  bounded : c.nodeCount ≤ nodeLimit

/-- The second channel has got through the accesses on its way from the first one. -/
structure Counted (c : Channel) (l : List Touch) (d : Channel) : Prop where
  unpaired : ∃ j, Unpaired j l ∧ d.nodeCount = c.nodeCount + j
  bounded : d.nodeCount ≤ nodeLimit

/-- **What a step of a list counts.** -/
theorem Listing.step_counts (h : Listing s.channel)
    (hdev : ∀ v x (b b' : Bus δ), DataPort.graphics.write v b ≠ .error (overflow x) b') :
    (∀ t, step .graphics s = .ok .faulted t → t.channel.held = none ∧
        ∃ l x, t.bus.log = s.bus.log ++ (l ++ [x]) ∧ Counted s.channel l t.channel) ∧
      (∀ t, step .graphics s = .ok .completed t →
        ∃ l, t.bus.log = s.bus.log ++ l ∧ Counted s.channel l t.channel) ∧
      ∀ x t, step .graphics s = .error (overflow x) t →
        ∃ l, t.bus.log = s.bus.log ++ l ∧ Counted s.channel l t.channel ∧
          t.channel.nodeCount = nodeLimit := by
  have hle := h.bounded
  have hb := walk_bounded (nodeLimit - s.channel.nodeCount)
    (show s.channel.mode .graphics = .linkedList from h.syncMode)
  rw [← step_list h.active h.syncMode] at hb
  have hok : ∀ {status t}, step .graphics s = .ok status t → t.channel.nodeCount ≤ nodeLimit := by
    intro status t ht
    rw [ht] at hb
    have hb : t.channel.nodeCount ≤ s.channel.nodeCount + (nodeLimit - s.channel.nodeCount) := hb
    omega
  have hu : ∀ {u : Stage (Recorder (Bus δ))}, Through .graphics s u →
      u.channel.control.direction = .fromRam := fun hu => by rw [hu.keeps.2.1]; exact h.direction
  have hc := step_course .graphics s
  refine ⟨fun t ht => ?_, fun t ht => ?_, fun x t ht => ?_⟩
  · have hn := hok ht
    rw [ht] at hc
    cases hc with
    | faulted a hs hf ha =>
        obtain ⟨hh, l, j, hl, hj, hc⟩ := hs.unpaired h.direction h.held
        obtain ⟨kh, kc, x, hx⟩ := a.stopped_reads hf (hu hs) ha
        exact ⟨kh.trans hh, l, x, by rw [hx, hl, List.append_assoc], ⟨j, hj, kc.trans hc⟩, hn⟩
  · have hn := hok ht
    rw [ht] at hc
    cases hc with
    | completed hs | lastBlock hs =>
        obtain ⟨-, l, j, hl, hj, hc⟩ := hs.unpaired h.direction h.held
        exact ⟨l, hl, ⟨j, hj, hc⟩, hn⟩
  · rw [ht] at hb hc
    have he : ∀ (a : Attempt) (u : Stage (Recorder (Bus δ))), Through .graphics s u →
        a.Fits .graphics u.channel → a.perform .graphics u ≠ .error (overflow x) t :=
      fun a u hs hf ha => a.error_ne_overflow hf (hu hs) (hs.proper h.proper) hdev ha x rfl
    cases hc with
    | failed a hs hf ha => exact absurd ha (he a _ hs hf)
    | refused e hs =>
        obtain ⟨-, l, j, hl, hj, hc⟩ := hs.unpaired h.direction h.held
        obtain hb | ⟨a, u, hs, hf, ha⟩ := hb
        · exact ⟨l, hl, ⟨⟨j, hj, hc⟩, by omega⟩, by omega⟩
        · exact absurd ha (he a u hs hf)

/-! ### Whole transfers -/

/-- What is left of a list that the first channel is programmed for is about to be walked by the
second one.  A start brings it there, and after every bus error somebody makes it active again and
may have programmed the registers anew.  The accesses are those that got through so far. -/
inductive Walking (c : Channel) : List Touch → Channel → Prop where
  | start {d : Channel} (h : arm .graphics false c = .ok () d) : Walking c [] d
  | resumed {l : List Touch} {d : Channel} {controller : Controller} {b : Bus δ}
      {t : Stage (Bus δ)} {base : UInt32} {blocks : Blocks} {control : Control}
      (h : Walking c l d) (ht : step .graphics ⟨d, controller, b⟩ = .ok .faulted t)
      (hm : control.syncMode = .linkedList) (hd : control.direction = .fromRam) :
      Walking c (l ++ (accesses .graphics ⟨d, controller, b⟩).dropLast)
        { t.channel with base, blocks, control }.activate

end Counts

section Transfers

variable {δ : Type} [Board δ] {c d : Channel} {l : List Touch}

/-- **Every header that got through counts**, and no more than the limit do. -/
theorem Walking.listing (hl : c.control.syncMode = .linkedList)
    (hdev : ∀ v x (b b' : Bus δ), DataPort.graphics.write v b ≠ .error (overflow x) b')
    (h : Walking (δ := δ) c l d) : Listing d ∧ Unpaired d.nodeCount l := by
  induction h with
  | @start d h =>
      obtain ⟨ha, -, -, hs⟩ := armed_list hl h
      have hs := hs .zero
      have hn : d.nextNode ≤ addressMask := by
        rw [hs.nextNode]
        exact Ram.node_le _ _ _
      obtain ⟨-, rfl⟩ := arm_eq_ok h
      refine ⟨⟨ha, hs.syncMode, hs.direction, hs.held,
        ⟨address_load .graphics c, hn, fun _ => rfl, nofun⟩, ?_⟩, ?_⟩ <;> rw [hs.nodeCount]
      · exact Nat.zero_le _
      · rfl
  | @resumed l d controller b t base blocks control h ht hm hd ih =>
      obtain ⟨ih, hc⟩ := ih
      obtain ⟨u, hu, rfl⟩ := step_eq_ok.1 ht
      obtain ⟨hh, k, x, hk, ⟨j, hj, hn⟩, hle⟩ :=
        (ih.step_counts (s := (Stage.mk d controller b).recorded) hdev).1 u hu
      have hp := step_proper (s := (Stage.mk d controller b).recorded) ih.proper
      rw [hu] at hp
      have ha : (accesses .graphics ⟨d, controller, b⟩).dropLast = k := by
        rw [accesses, hu]
        show u.bus.log.dropLast = k
        rw [hk]
        exact List.dropLast_concat
      refine ⟨⟨rfl, ?_, ?_, hh, ⟨hp.address_le, hp.nextNode_le, fun _ => rfl, nofun⟩, hle⟩, ?_⟩
      · simp [activate, hm]
      · rw [direction_activate]
        exact hd
      · rw [ha]
        show Unpaired u.channel.nodeCount _
        rw [hn]
        exact hc.append hj

/-- The values that accesses write. -/
def sent (l : List Touch) : List UInt32 := (l.filter (·.isWrite)).map (·.value)

theorem sent_append (k l : List Touch) : sent (k ++ l) = sent k ++ sent l := by
  rw [sent, sent, sent, List.filter_append, List.map_append]

theorem sent_nodeTouches (m : Ram) (a : UInt32) (i : Nat) :
    sent (nodeTouches m a i) = m.payload a i := by
  have hs : ∀ as : List UInt32, sent (DataPort.graphics.touchesAll .fromRam as (as.map m.word)) =
      as.map m.word := fun as => by
    induction as with
    | nil => rfl
    | cons x as ih => exact congrArg (m.word x :: ·) ih
  exact hs _

/-- **The port receives the words of the nodes**, and nothing else. -/
theorem sent_listTouches (m : Ram) (a : UInt32) (n : Nat) :
    sent (listTouches m a n) = m.payloads a n := by
  induction n with
  | zero => rfl
  | succ n ih => rw [listTouches_succ, sent_append, ih, sent_nodeTouches, Ram.payloads_succ]

theorem Walkable.boardOnly {b b' : Bus δ} {a : UInt32} {n : Nat} (h : Walkable b a n b') :
    b.BoardOnly b' :=
  (DataPort.writeAll_boardOnly DataPort.onBoard_graphics _).of_ok h.taken

/-- **A list is walked as it stands in memory.** -/
theorem list_walk (hl : c.control.syncMode = .linkedList) (h : arm .graphics false c = .ok () d) :
    (∀ (controller : Controller) (b b' : Bus δ) (n : Nat), Walkable b c.base (n + 1) b' →
      n < nodeLimit → b.ram.ends c.base n = true →
        accesses .graphics ⟨d, controller, b⟩ = listTouches b.ram c.base (n + 1) ∧
          sent (accesses .graphics ⟨d, controller, b⟩) = b.ram.payloads c.base (n + 1) ∧
          ∃ t, step .graphics ⟨d, controller, b⟩ = .ok .completed t ∧
            t.bus = b'.charge (n + 1 + (b.ram.payloads c.base (n + 1)).length) ∧
            t.bus.ram = b.ram ∧
            t.bus.pendingCycles =
              b.pendingCycles + (n + 1 + (b.ram.payloads c.base (n + 1)).length) ∧
            t.channel.nodeCount = n + 1 ∧
            t.channel.read .base = b.ram.header c.base n &&& addressMask) ∧
      (∀ (controller : Controller) (b b' : Bus δ), Walkable b c.base nodeLimit b' →
        (∀ i < nodeLimit, b.ram.ends c.base i = false) →
          accesses .graphics ⟨d, controller, b⟩ = listTouches b.ram c.base nodeLimit ∧
            ∃ t, step .graphics ⟨d, controller, b⟩ =
              .error (overflow (b.ram.node c.base nodeLimit)) t) ∧
        ((∀ v x (b b' : Bus δ), DataPort.graphics.write v b ≠ .error (overflow x) b') →
          ∀ l e, Walking (δ := δ) c l e →
            headersRead l = e.nodeCount ∧ e.nodeCount ≤ nodeLimit ∧
              ∀ (controller : Controller) (b : Bus δ),
                (∀ t, step .graphics ⟨e, controller, b⟩ = .ok .completed t →
                  headersRead (l ++ accesses .graphics ⟨e, controller, b⟩) =
                      t.channel.nodeCount ∧ t.channel.nodeCount ≤ nodeLimit) ∧
                  ∀ x t, step .graphics ⟨e, controller, b⟩ = .error (overflow x) t →
                    headersRead (l ++ accesses .graphics ⟨e, controller, b⟩) = nodeLimit) := by
  obtain ⟨-, -, -, hs⟩ := armed_list hl h
  refine ⟨fun controller b b' n hw hn he => ?_, fun controller b b' hw he => ?_,
    fun hdev l e hwalk => ?_⟩
  · have ht := hw.completes controller [] hl h hn he
    have ha : accesses .graphics ⟨d, controller, b⟩ = listTouches b.ram c.base (n + 1) :=
      (accesses_of_step (s := ⟨d, controller, b⟩) ht).trans (List.nil_append _)
    have hm : (afterNodes b.ram c.base d (n + 1)).mode .graphics ≠ .slice := by
      rw [show mode .graphics _ = .linkedList from ((hs b.ram).afterNodes (n + 1)).syncMode]
      nofun
    have hc := ((hs b.ram).afterNodes (n + 1)).nodeCount
    refine ⟨ha, by rw [ha, sent_listTouches], _, step_eq_ok.2 ⟨_, ht, rfl⟩, rfl,
      hw.boardOnly.ram, ?_, hc, ?_⟩
    · exact congrArg (· + _) hw.boardOnly.pendingCycles
    · show (if (afterNodes b.ram c.base d (n + 1)).mode .graphics = .slice then _ else _) = _
      rw [if_neg hm]
      rfl
  · have ht := hw.overflows controller [] hl h he
    exact ⟨(accesses_of_step (s := ⟨d, controller, b⟩) ht).trans (List.nil_append _), _,
      step_eq_error.2 ⟨_, ht, rfl⟩⟩
  · obtain ⟨he, hc⟩ := hwalk.listing hl hdev
    refine ⟨hc.headersRead, he.bounded, fun controller b => ?_⟩
    obtain ⟨-, hk, ho⟩ := he.step_counts (s := (Stage.mk e controller b).recorded) hdev
    refine ⟨fun t ht => ?_, fun x t ht => ?_⟩
    · obtain ⟨u, hu, rfl⟩ := step_eq_ok.1 ht
      obtain ⟨k, hl, ⟨j, hj, hn⟩, hle⟩ := hk u hu
      have hl : accesses .graphics ⟨e, controller, b⟩ = k := (accesses_of_step hu).trans hl
      rw [hl, (hc.append hj).headersRead]
      exact ⟨hn.symm, hle⟩
    · obtain ⟨u, hu, rfl⟩ := step_eq_error.1 ht
      obtain ⟨k, hl, ⟨⟨j, hj, hn⟩, -⟩, hle⟩ := ho x u hu
      have hl : accesses .graphics ⟨e, controller, b⟩ = k := (accesses_of_step hu).trans hl
      rw [hl, (hc.append hj).headersRead]
      exact hn.symm.trans hle

end Transfers

/-- A bare board, and a word of memory. -/
def busWith (a v : UInt32) : Bus BareBoard :=
  { ram := Ram.zero.write .word (physical a) v, board := ⟨⟩ }

theorem word_busWith {a : UInt32} (h : Width.word.aligned (physical a) = true) (v : UInt32) :
    (busWith a v).ram.word a = v := by
  rw [busWith, Ram.word_write _ h h, if_pos rfl]

/-- A channel programmed for the list at `0x100`. -/
def listAt100 : Channel := { base := 0x100, control := ⟨0x401⟩ }

/-- A node of one word that ends its list, and a node that is its own successor. -/
theorem node_and_loop_walked :
    (∃ t, step .graphics ⟨(listAt100.load .graphics).activate, {}, busWith 0x100 0x01800000⟩ =
        .ok .completed t ∧ t.channel.nodeCount = 1 ∧ t.bus.pendingCycles = 2) ∧
      headersRead (accesses .graphics
        ⟨(listAt100.load .graphics).activate, {}, busWith 0x100 0x100⟩) = nodeLimit := by
  obtain ⟨he, ho, hn⟩ := list_walk (δ := BareBoard) (c := listAt100) (by decide) rfl
  refine ⟨?_, ?_⟩
  · have hh : (busWith 0x100 0x01800000).ram.header 0x100 0 = 0x01800000 := word_busWith rfl _
    have hp : ((busWith 0x100 0x01800000).ram.payloads 0x100 1).length = 1 := by
      rw [Ram.payloads_succ, List.length_append, Ram.length_payload, Ram.nodeWords, hh]
      rfl
    have hw : Walkable (busWith 0x100 0x01800000) 0x100 1 (busWith 0x100 0x01800000) := by
      refine ⟨rfl, fun i hi => ?_, fun i hi => by omega, DataPort.writeAll_bare _ _⟩
      obtain rfl : i = 0 := by omega
      refine ⟨by decide, fun x hx => ?_⟩
      rw [Ram.wordAddresses, Ram.nodeWords, hh] at hx
      obtain rfl : x = along 4 ((busWith 0x100 0x01800000).ram.node 0x100 0) 1 := by
        simpa using hx
      show regionOf (along 4 (0x100 &&& wordAddressMask) 1) = .ram
      decide
    obtain ⟨-, -, t, ht, -, -, hc, hk, -⟩ := he {} _ _ 0 hw (by decide) (by
      rw [Ram.ends, show listAt100.base = 0x100 from rfl, hh]
      decide)
    exact ⟨t, ht, hk, by rw [hc, show listAt100.base = 0x100 from rfl, hp]; rfl⟩
  · have hv : (busWith 0x100 0x100).ram.word 0x100 = 0x100 := word_busWith rfl _
    have hi : ∀ i, (busWith 0x100 0x100).ram.node 0x100 i = 0x100 := fun i => by
      induction i with
      | zero => rfl
      | succ i ih =>
          rw [Ram.node, ih, hv]
          rfl
    have hh : ∀ i, (busWith 0x100 0x100).ram.header 0x100 i = 0x100 := fun i => by
      rw [Ram.header, hi, hv]
    have hu : ∀ i, (busWith 0x100 0x100).ram.ends 0x100 i = false := fun i => by
      rw [Ram.ends, hh]
      decide
    have hw : Walkable (busWith 0x100 0x100) 0x100 nodeLimit (busWith 0x100 0x100) := by
      refine ⟨rfl, fun i _ => ⟨?_, fun x hx => ?_⟩, fun i _ => hu i, DataPort.writeAll_bare _ _⟩
      · rw [hi]
        decide
      · rw [Ram.wordAddresses, Ram.nodeWords, hh] at hx
        simp at hx
    obtain ⟨-, t, ht⟩ := ho {} _ _ hw fun i _ => hu i
    have hdev : ∀ v x (b b' : Bus BareBoard),
        DataPort.graphics.write v b ≠ .error (overflow x) b' := by
      rintro v x b b' ⟨⟩
    obtain ⟨-, -, hs⟩ := hn hdev [] _ (.start rfl)
    have hk := (hs {} (busWith 0x100 0x100)).2 _ t ht
    rwa [List.nil_append] at hk

end Channel

end DmaMachine
