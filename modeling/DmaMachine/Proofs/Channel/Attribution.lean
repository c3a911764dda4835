import DmaMachine.Proofs.Channel.Accesses

/-!
# Whose bus error it is

The exception flag of the bus does not say who raised it.  An attempt takes a raised flag for its
own: it does not go through, and the flag goes down.  So a step that begins with the flag down
reports no bus error but its own, and a step that begins with the flag up reports one that
somebody else made, as soon as it makes an access that no device fails.

* `step_of_lowered`: with the flag down, **a step reports a bus error only when one of its accesses
  raised the flag.**
* `step_of_raised`: with the flag up, a step makes no access, or a device fails one, or **the step
  ends in a bus error and the flag is down.**
* `attributed_iff`: the stages whose step attributes bus errors to those who made them.
-/

namespace DmaMachine

variable {δ : Type}

/-- The access raises the exception flag. -/
def Touch.Raises (x : Touch) : Prop :=
  x.width.aligned x.address = true ∧ regionOf x.address = .unmapped

namespace Bus

theorem exception_onBoard {α : Type} (op : Op δ α) (b : Bus δ) :
    (Op.outcome (onBoard op b)).2.exception = b.exception := by
  obtain ⟨ram, board, exception, lastFault, pendingCycles⟩ := b
  simp only [onBoard]
  cases op board <;> rfl

variable [Board δ]

/-- **An aligned access to an unmapped address raises the flag**; other accesses leave it. -/
theorem exception_read (w : Width) (a : UInt32) (b : Bus δ) :
    (Op.outcome (Bus.read w a b)).2.exception = true ↔
      b.exception = true ∨ (w.aligned a = true ∧ regionOf a = .unmapped) := by
  cases ha : w.aligned a with
  | false => simp [read, ha]
  | true =>
      cases hr : regionOf a with
      | ram => simp [read, ha, hr]
      | unmapped => simp [read, ha, hr, raise]
      | io | expansion =>
          cases hs : Board.slotAt b.board (physical a) <;>
            simp [read, ha, hr, hs, exception_onBoard]

theorem exception_write (w : Width) (a v : UInt32) (b : Bus δ) :
    (Op.outcome (Bus.write w a v b)).2.exception = true ↔
      b.exception = true ∨ (w.aligned a = true ∧ regionOf a = .unmapped) := by
  cases ha : w.aligned a with
  | false => simp [write, ha]
  | true =>
      cases hr : regionOf a with
      | ram => simp [write, ha, hr]
      | unmapped => simp [write, ha, hr, raise]
      | io | expansion =>
          cases hs : Board.slotAt b.board (physical a) <;>
            simp [write, ha, hr, hs, exception_onBoard]

end Bus

namespace Recorder

/-! ### What a recorder tells -/

/-- The log has grown, and the flag is up when it was, or a new access raised it. -/
def Tells (r r' : Recorder (Bus δ)) : Prop :=
  ∃ k, r'.log = r.log ++ k ∧
    (r'.bus.exception = true ↔ r.bus.exception = true ∨ ∃ x ∈ k, x.Raises)

/-- At least one access was made. -/
def Touches (r r' : Recorder (Bus δ)) : Prop := ∃ x k, r'.log = r.log ++ x :: k

theorem tells_chains : Chains (Tells (δ := δ)) where
  refl r := ⟨[], by simp, by simp⟩
  trans := by
    rintro r s t ⟨k, hk, hf⟩ ⟨l, hl, hg⟩
    refine ⟨k ++ l, by rw [hl, hk, List.append_assoc], ?_⟩
    simp only [hg, hf, List.mem_append, or_and_right, exists_or, or_assoc]

theorem Tells.up {r r' : Recorder (Bus δ)} (h : Tells r r') (hr : r.bus.exception = true) :
    r'.bus.exception = true := by
  obtain ⟨_, -, hf⟩ := h
  exact hf.2 (.inl hr)

theorem Touches.tells {r s t : Recorder (Bus δ)} (h : Touches r s) (k : Tells s t) :
    Touches r t := by
  obtain ⟨x, l, hl⟩ := h
  obtain ⟨m, hm, -⟩ := k
  exact ⟨x, l ++ m, by rw [hm, hl, List.append_assoc, List.cons_append]⟩

/-- What follows on an access does not undo it. -/
theorem Touches.bind {α β : Type} {x : Op (Recorder (Bus δ)) α}
    {f : α → Op (Recorder (Bus δ)) β} {r : Recorder (Bus δ)}
    (hx : Touches r (Op.outcome (x r)).2) (hf : ∀ a, Op.Relates Tells (f a)) :
    Touches r (Op.outcome ((x >>= f) r)).2 :=
  Op.relates_of_bind (R := Touches) (S := Tells) Touches.tells hx hf

variable [Board δ]

theorem read_tells (w : Width) (a : UInt32) :
    Op.Relates (Tells (δ := δ)) (Master.read w a) := by
  intro r
  obtain ⟨v, hv⟩ := outcome_read w a r
  rw [hv]
  refine ⟨_, rfl, (Bus.exception_read w a r.bus).trans ?_⟩
  simp [Touch.Raises]

theorem write_tells (w : Width) (a v : UInt32) :
    Op.Relates (Tells (δ := δ)) (Master.write w a v) := by
  intro r
  rw [outcome_write]
  refine ⟨_, rfl, (Bus.exception_write w a v r.bus).trans ?_⟩
  simp [Touch.Raises]

theorem read_touches (w : Width) (a : UInt32) (r : Recorder (Bus δ)) :
    Touches r (Op.outcome (Master.read w a r)).2 := by
  obtain ⟨v, hv⟩ := outcome_read w a r
  exact ⟨_, [], by rw [hv]⟩

theorem write_touches (w : Width) (a v : UInt32) (r : Recorder (Bus δ)) :
    Touches r (Op.outcome (Master.write w a v r)).2 :=
  ⟨_, [], by rw [outcome_write]⟩

theorem readPort_touches (port : DataPort) (r : Recorder (Bus δ)) :
    Touches r (Op.outcome (port.read r)).2 := by
  have hr : ∀ a : UInt32, Op.Relates (Tells (δ := δ)) (pure a) := fun a => tells_chains.refl
  obtain ⟨w, a⟩ := port
  cases w with
  | word => exact read_touches .word a r
  | half =>
      exact Touches.bind (read_touches .half a r) fun _ =>
        .bind tells_chains (read_tells .half a) fun _ => hr _
  | byte =>
      exact Touches.bind (read_touches .byte a r) fun _ =>
        .bind tells_chains (read_tells .byte a) fun _ =>
          .bind tells_chains (read_tells .byte a) fun _ =>
            .bind tells_chains (read_tells .byte a) fun _ => hr _

end Recorder

namespace Channel

open Recorder

variable {p : Peer} {s t : Stage (Recorder (Bus δ))}

/-! ### Attempts -/

theorem onBus_touches {α : Type} {op : Op (Recorder (Bus δ)) α}
    (h : Touches s.bus (Op.outcome (op s.bus)).2) :
    Touches s.bus (Op.outcome (Stage.onBus op s)).2.bus := by
  rw [Stage.outcome_onBus]
  exact h

theorem touches_bind {α β : Type} {x : Op (Stage (Recorder (Bus δ))) α}
    {f : α → Op (Stage (Recorder (Bus δ))) β} (hx : Touches s.bus (Op.outcome (x s)).2.bus)
    (hf : ∀ a, Op.Relates (UnitFrame Tells) (f a)) :
    Touches s.bus (Op.outcome ((x >>= f) s)).2.bus := by
  have hk : ∀ {s t u : Stage (Recorder (Bus δ))}, Touches s.bus t.bus → UnitFrame Tells t u →
      Touches s.bus u.bus := fun h k => h.tells k.1
  exact Op.relates_of_bind (R := fun s t => Touches s.bus t.bus) hk hx hf

variable [Board δ]

theorem storeUnit_touches (a v : UInt32) (s : Stage (Recorder (Bus δ))) :
    Touches s.bus (Op.outcome (storeUnit a v s)).2.bus :=
  touches_bind (onBus_touches (write_touches .word a v s.bus)) fun _ => hold_frame tells_chains v

theorem unitToRam_touches (port : DataPort) (a : UInt32) (s : Stage (Recorder (Bus δ))) :
    Touches s.bus (Op.outcome (unitToRam port a s)).2.bus := by
  cases hh : s.channel.held with
  | some v =>
      -- A held unit has to be stored all the same.
      rw [unitToRam, Op.bind_apply, takeUnit_of_held hh]
      exact storeUnit_touches a v ⟨{ s.channel with held := none }, s.controller, s.bus⟩
  | none =>
      have ht : Touches s.bus (Op.outcome (takeUnit port s)).2.bus := by
        rw [takeUnit_of_empty hh]
        exact touches_bind (onBus_touches (readPort_touches port s.bus))
          (receive_frame tells_chains)
      refine touches_bind ht fun taken => ?_
      cases taken with
      | none => exact frame_pure tells_chains _
      | some v => exact storeUnit_frame tells_chains (write_tells .word a) v

/-- **An attempt makes an access.** -/
theorem Attempt.access_touches {a : Attempt} (hf : a.Fits p s.channel) :
    Touches s.bus (Op.outcome (a.access p s)).2.bus := by
  have hp : ∀ f, Op.Relates (UnitFrame (Tells (δ := δ)))
      (pure f : Op _ (Option (Channel → Channel))) := frame_pure tells_chains
  cases a with
  | header =>
      show Touches s.bus (Op.outcome ((Stage.onBus (Master.read .word s.channel.nextNode) >>=
        fun _ => pure _ : Op _ _) s)).2.bus
      exact touches_bind (onBus_touches (read_touches _ _ _)) fun _ => hp _
  | entry n =>
      show Touches s.bus (Op.outcome ((Stage.onBus (Master.write .word s.channel.address _) >>=
        fun _ => pure _ : Op _ _) s)).2.bus
      exact touches_bind (onBus_touches (write_touches _ _ _ _)) fun _ => hp _
  | unit =>
      refine touches_bind (x := transferUnit p) ?_ fun _ => hp _
      obtain ⟨port, hport⟩ : ∃ port, p.port? = some port :=
        Option.ne_none_iff_exists'.1 fun h => hf.1 (Peer.port?_eq_none_iff.1 h)
      cases hd : s.channel.control.direction with
      | fromRam =>
          rw [transferUnit_of_fromRam hport hd]
          exact touches_bind (onBus_touches (read_touches .word _ _))
            (send_frame tells_chains (write_tells _ _))
      | toRam =>
          rw [transferUnit_of_toRam hport hd]
          exact unitToRam_touches port s.channel.address s

theorem Attempt.access_tells (a : Attempt) (p : Peer) (s : Stage (Recorder (Bus δ))) :
    UnitFrame Tells s (Op.outcome (a.access p s)).2 :=
  a.access_frame tells_chains (fun w x _ => read_tells w x) fun w x v _ => write_tells w x v

/-! ### Units that do not get through -/

section Stuck

variable {β : Type} [Master β] {s t : Stage β} {port : DataPort} {through : Bool}

theorem exception_bind {α : Type} (f : Bool → Op (Stage β) α) (s : Stage β) :
    (Stage.exception >>= f) s = f (Master.exception s.bus) s := rfl

theorem unitFromRam_flag {a : UInt32} (h : unitFromRam port a s = .ok through t) :
    through = !Master.exception t.bus := by
  obtain ⟨v, u, -, h⟩ := Op.bind_eq_ok.1 h
  rw [exception_bind] at h
  cases he : Master.exception u.bus with
  | true =>
      rw [he] at h
      cases h
      rw [he]
      rfl
  | false =>
      rw [he] at h
      obtain ⟨_, w, -, h⟩ := Op.bind_eq_ok.1 h
      cases h
      rfl

theorem storeUnit_flag {a v : UInt32} (h : storeUnit a v s = .ok through t) :
    through = !Master.exception t.bus := by
  obtain ⟨_, u, -, h⟩ := Op.bind_eq_ok.1 h
  rw [exception_bind] at h
  cases he : Master.exception u.bus <;> rw [he] at h <;> cases h <;> simp [he]

theorem takeUnit_none (h : takeUnit port s = .ok none t) : Master.exception t.bus = true := by
  obtain ⟨held, u, hh, h⟩ := Op.bind_eq_ok.1 h
  cases held with
  | some v => cases h
  | none =>
      obtain ⟨v, u, -, h⟩ := Op.bind_eq_ok.1 h
      rw [exception_bind] at h
      cases he : Master.exception u.bus <;> rw [he] at h <;> cases h
      exact he

/-- **A unit gets through when the flag is down after its accesses.** -/
theorem transferUnit_flag (h : transferUnit p s = .ok through t) :
    through = !Master.exception t.bus := by
  cases hp : p.port? with
  | none =>
      rw [transferUnit_of_none hp] at h
      cases h
  | some port =>
      cases hd : s.channel.control.direction with
      | fromRam =>
          rw [transferUnit_of_fromRam hp hd] at h
          exact unitFromRam_flag h
      | toRam =>
          rw [transferUnit_of_toRam hp hd] at h
          obtain ⟨taken, w, ht, h⟩ := Op.bind_eq_ok.1 h
          cases taken with
          | some v => exact storeUnit_flag h
          | none =>
              cases h
              rw [takeUnit_none ht]
              rfl

theorem Attempt.access_stuck {a : Attempt} (h : a.access p s = .ok none t) :
    Master.exception t.bus = true := by
  cases a with
  | unit =>
      obtain ⟨through, u, hu, h⟩ := Op.bind_eq_ok.1 h
      cases through with
      | true => cases h
      | false =>
          cases h
          simpa using transferUnit_flag hu
  | header =>
      obtain ⟨_, _, -, h⟩ := Op.bind_eq_ok.1 h
      obtain ⟨_, _, -, h⟩ := Op.bind_eq_ok.1 h
      cases h
  | entry n =>
      obtain ⟨_, _, -, h⟩ := Op.bind_eq_ok.1 h
      obtain ⟨_, _, -, h⟩ := Op.bind_eq_ok.1 h
      cases h

end Stuck

/-! ### Attempts and the flag -/

theorem Attempt.perform_through {a : Attempt} (h : a.perform p s = .ok true t) :
    s.bus.bus.exception = false ∧ t.bus.bus.exception = false := by
  obtain ⟨f, u, ha, hr, h⟩ | ⟨_, _, -, -, h⟩ | ⟨_, _, -, h⟩ := Attempt.perform_cases h
  · cases h
    have ht := a.access_tells p s
    rw [ha] at ht
    refine ⟨Bool.eq_false_iff.2 fun hs => ?_, rfl⟩
    exact Bool.eq_false_iff.1 hr (Tells.up ht.1 hs)
  · cases h
  · cases h

theorem Attempt.perform_stopped {a : Attempt} (hf : a.Fits p s.channel)
    (h : a.perform p s = .ok false t) :
    t.bus.bus.exception = false ∧ t.controller = s.controller.signalBusError ∧
      Touches s.bus t.bus ∧
        (s.bus.bus.exception = true ∨ ∃ x ∈ t.bus.log, x.Raises) := by
  obtain ⟨_, _, -, -, h⟩ | ⟨f, u, ha, hr, h⟩ | ⟨_, _, -, h⟩ := Attempt.perform_cases h
  · cases h
  · cases h
    have hm : Touches s.bus u.bus := by
      have := Attempt.access_touches hf
      rwa [ha] at this
    have ht := a.access_tells p s
    rw [ha] at ht
    obtain ⟨⟨k, (hk : u.bus.log = _), hu⟩, hc, -⟩ := ht
    -- Whether the unit was given up or the cycle found the flag, the flag was up.
    have hup : u.bus.bus.exception = true := by
      rcases hr with rfl | hr
      · exact Attempt.access_stuck ha
      · exact hr
    refine ⟨rfl, congrArg Controller.signalBusError hc, hm, ?_⟩
    obtain hs | ⟨x, hx, hr⟩ := hu.1 hup
    · exact .inl hs
    · exact .inr ⟨x, by show x ∈ u.bus.log; rw [hk]; exact List.mem_append_right _ hx, hr⟩
  · cases h

theorem Attempt.perform_failed {a : Attempt} {e : Fault} (h : a.perform p s = .error e t) :
    Tells s.bus t.bus ∧ t.controller = s.controller := by
  obtain ⟨_, _, -, -, h⟩ | ⟨_, _, -, -, h⟩ | ⟨e, u, ha, h⟩ := Attempt.perform_cases h
  · cases h
  · cases h
  · cases h
    have ht := a.access_tells p s
    rw [ha] at ht
    exact ⟨ht.1, ht.2.1⟩

/-- Attempts go through with the flag down, and leave it down. -/
theorem Through.flag (h : Through p s t) :
    t = s ∨ (s.bus.bus.exception = false ∧ t.bus.bus.exception = false) := by
  induction h with
  | none => exact .inl rfl
  | next a hf ha _ ih =>
      obtain ⟨hs, ht⟩ := Attempt.perform_through ha
      obtain rfl | ⟨-, hu⟩ := ih
      · exact .inr ⟨hs, ht⟩
      · exact .inr ⟨hs, hu⟩

theorem Through.of_up (h : Through p s t) (hs : s.bus.bus.exception = true) : t = s := by
  obtain h | ⟨h, -⟩ := h.flag
  · exact h
  · rw [h] at hs
    cases hs

/-! ### Steps and the flag -/

section Steps

variable {s : Stage (Bus δ)}

/-- **With the flag down, a step reports a bus error only when an access of its own raised the
flag.** -/
theorem step_of_lowered (hs : s.bus.exception = false) {t : Stage (Bus δ)}
    (h : step p s = .ok .faulted t) : ∃ x ∈ accesses p s, x.Raises := by
  obtain ⟨u, hu, -⟩ := step_eq_ok.1 h
  have hc := step_course p s.recorded
  rw [accesses, hu]
  rw [hu] at hc
  cases hc with
  | faulted a hv hf ha =>
      obtain ⟨-, -, -, hup | hx⟩ := Attempt.perform_stopped hf ha
      · -- The attempts before this one left the flag down, and so it was not up before it.
        obtain rfl | ⟨-, hd⟩ := hv.flag
        · exact absurd (hs.symm.trans hup) Bool.false_ne_true
        · exact absurd (hd.symm.trans hup) Bool.false_ne_true
      · exact hx

/-- **With the flag up**, a step makes no access, or a device fails one, or it ends in a bus error
and the flag is down. -/
theorem step_of_raised (p : Peer) (hs : s.bus.exception = true) :
    (∃ status t, step p s = .ok status t ∧ status ≠ .faulted ∧ accesses p s = [] ∧
        t.bus.exception = true) ∨
      (∃ e t, step p s = .error e t ∧ t.bus.exception = true) ∨
      ∃ t, step p s = .ok .faulted t ∧ t.bus.exception = false ∧ accesses p s ≠ [] ∧
        t.controller = s.controller.signalBusError := by
  have hup : s.recorded.bus.bus.exception = true := hs
  have hc := step_course p s.recorded
  -- No attempt goes through, so what ends the step is met at its beginning.
  generalize he : step p s.recorded = r at hc
  have hk : ∀ {status u}, r = .ok status u → step p s = .ok status u.plain := fun hr =>
    step_eq_ok.2 ⟨_, he.trans hr, rfl⟩
  have hl : ∀ {status u}, r = .error status u → step p s = .error status u.plain := fun hr =>
    step_eq_error.2 ⟨_, he.trans hr, rfl⟩
  rw [accesses, he]
  cases hc with
  | idle => exact .inl ⟨_, _, hk rfl, by simp, rfl, hs⟩
  | completed hu | lastBlock hu | blockDone hu | chopped _ hu =>
      cases hu.of_up hup
      exact .inl ⟨_, _, hk rfl, by simp, rfl, hs⟩
  | faulted a hu hf ha =>
      cases hu.of_up hup
      obtain ⟨hd, hc, ⟨x, k, hx⟩, -⟩ := Attempt.perform_stopped hf ha
      refine .inr (.inr ⟨_, hk rfl, hd, ?_, hc⟩)
      exact fun h => List.cons_ne_nil x k (hx.symm.trans h)
  | failed a hu hf ha =>
      cases hu.of_up hup
      exact .inr (.inl ⟨_, _, hl rfl, Tells.up (Attempt.perform_failed ha).1 hup⟩)
  | refused e hu =>
      cases hu.of_up hup
      exact .inr (.inl ⟨_, _, hl rfl, hs⟩)

end Steps

/-! ### Attribution -/

section BusError

variable {β : Type} [Master β] {s : Stage β}

theorem busError_request (p : Peer) (k : Controller) :
    (k.request p.index).busError = k.busError := by
  have hb : bit (1 <<< UInt32.ofNat (24 + p.index)) 15 = false := by cases p <;> decide
  rw [Controller.request]
  split
  · show bit (k.interruptWord ||| _) 15 = _
    rw [bit_or, hb, Bool.or_false]
    rfl
  · rfl

theorem busError_endBlock (p : Peer) (k : Controller) :
    (k.endBlock p.index).busError = k.busError := by
  rw [Controller.endBlock]
  split
  · exact busError_request p k
  · rfl

/-- A step notes a bus error only when it reports one. -/
theorem step_notes (h : (Op.outcome (step p s)).2.controller.busError = true) :
    s.controller.busError = true ∨ (Op.outcome (step p s)).1 = .ok .faulted := by
  have hk : ∀ {u : Stage β}, Through p s u → u.controller = s.controller := fun hu => hu.keeps.1
  have hc := step_course p s
  generalize step p s = r at hc h
  cases hc with
  | idle => exact .inl h
  | completed hu | lastBlock hu => exact .inl (by simpa [busError_request, hk hu] using h)
  | blockDone hu => exact .inl (by simpa [busError_endBlock, hk hu] using h)
  | chopped _ hu => exact .inl (by simpa [withChannel, hk hu] using h)
  | faulted => exact .inr rfl
  | @failed u t e a hu hf ha =>
      have ht : t.controller = u.controller := by
        obtain ⟨_, _, -, -, h⟩ | ⟨_, _, -, -, h⟩ | ⟨_, _, he, h⟩ := Attempt.perform_cases ha <;>
          cases h
        have hr := a.access_outside p u
        rw [he] at hr
        exact hr.2.1
      exact .inl (by simpa [ht, hk hu] using h)
  | refused e hu => exact .inl (by simpa [hk hu] using h)

end BusError

/-- The step from a stage attributes bus errors to those who made them. -/
structure Attributed (p : Peer) (s : Stage (Bus δ)) : Prop where
  /-- A bus error is reported for an access of the step itself. -/
  own : ∀ t, step p s = .ok .faulted t → ∃ x ∈ accesses p s, regionOf x.address = .unmapped
  /-- The same goes for the note of it in the interrupt word. -/
  noted : (Op.outcome (step p s)).2.controller.busError = true →
    s.controller.busError = true ∨ ∃ x ∈ accesses p s, regionOf x.address = .unmapped
  /-- A raised flag is left to whoever raised it. -/
  pending : s.bus.exception = true → (Op.outcome (step p s)).2.bus.exception = true

theorem Attributed.of_own {s : Stage (Bus δ)}
    (ho : ∀ t, step p s = .ok .faulted t → ∃ x ∈ accesses p s, regionOf x.address = .unmapped)
    (hp : s.bus.exception = true → (Op.outcome (step p s)).2.bus.exception = true) :
    Attributed p s := by
  refine ⟨ho, fun hb => (step_notes hb).imp_right fun h => ?_, hp⟩
  cases hr : step p s with
  | ok status t =>
      rw [hr] at h
      cases h
      exact ho t hr
  | error e t =>
      rw [hr] at h
      cases h

theorem attributed_of_lowered {s : Stage (Bus δ)} (hs : s.bus.exception = false) :
    Attributed p s := by
  refine .of_own (fun t h => ?_) fun hup => ?_
  · obtain ⟨x, hx, hr⟩ := step_of_lowered hs h
    exact ⟨x, hx, hr.2⟩
  · exact absurd (hs.symm.trans hup) Bool.false_ne_true

/-- **A step attributes bus errors to those who made them** exactly when it does not meet a raised
flag with an access that no device fails. -/
theorem attributed_iff (p : Peer) (s : Stage (Bus δ)) :
    Attributed p s ↔
      (s.bus.exception = true → accesses p s = [] ∨ ∃ e t, step p s = .error e t) := by
  cases hs : s.bus.exception with
  | false => exact ⟨fun _ => nofun, fun _ => attributed_of_lowered hs⟩
  | true =>
      obtain ⟨status, t, ht, hf, ha, hup⟩ | ⟨e, t, ht, hup⟩ | ⟨t, ht, hd, ha, -⟩ :=
        step_of_raised p hs
      · refine ⟨fun _ _ => .inl ha, fun _ => .of_own (fun u h => ?_) fun _ => by rwa [ht]⟩
        rw [ht] at h
        cases h
        exact absurd rfl hf
      · refine ⟨fun _ _ => .inr ⟨e, t, ht⟩, fun _ => .of_own (fun u h => ?_) fun _ => by rwa [ht]⟩
        rw [ht] at h
        cases h
      · refine ⟨fun h _ => ?_, fun h => ?_⟩
        · have hp := h.pending hs
          rw [ht] at hp
          exact absurd (hd.symm.trans hp) Bool.false_ne_true
        · obtain h | ⟨e, u, h⟩ := h rfl
          · exact absurd h ha
          · rw [ht] at h
            cases h

/-- Somebody else raised the flag, and a burst out of memory ends in a bus error. -/
example :
    let c : Channel := { control := ⟨1⟩, address := 0x1000, wordsLeft := 1, active := true }
    let s : Stage (Bus BareBoard) := ⟨c, {}, { board := ⟨⟩, exception := true }⟩
    (Op.outcome (step .graphics s)).1 = .ok .faulted ∧
      (accesses .graphics s).map (regionOf ·.address) = [.ram] := by
  decide +kernel

end Channel

end DmaMachine
