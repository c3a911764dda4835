import DmaMachine.Proofs.Channel.Carry

/-!
# Units that get through

Without bus errors, moving units is carrying them between memory and the port, with a cycle charged
for each.

* `moveUnits_eq_ok_iff`: **units get through exactly when they can be carried**, with the flag down
  and all their addresses mapped.
* `unitAddresses_eq`: the addresses of units, one stride apart.
* `moved_of_carried`: what can be carried gets through, and the log has the accesses that carry it.
-/

namespace DmaMachine

/-! ### Units that get through -/

/-- A sequence fails when one of its parts does. -/
theorem Op.bind_eq_error {σ α β : Type} {x : Op σ α} {f : α → Op σ β} {s t : σ} {e : Fault} :
    (x >>= f) s = .error e t ↔
      x s = .error e t ∨ ∃ a u, x s = .ok a u ∧ f a u = .error e t := by
  rw [bind_apply]
  cases x s <;> simp

namespace Stage

variable {α β : Type} {s t : Stage β}

theorem onBus_eq_ok {op : Op β α} {a : α} :
    onBus op s = .ok a t ↔ ∃ b, op s.bus = .ok a b ∧ t = ⟨s.channel, s.controller, b⟩ := by
  rw [← Op.outcome_eq_ok, outcome_onBus]
  cases op s.bus <;> simp [eq_comm]

theorem onBus_eq_error {op : Op β α} {e : Fault} :
    onBus op s = .error e t ↔
      ∃ b, op s.bus = .error e b ∧ t = ⟨s.channel, s.controller, b⟩ := by
  rw [← Op.outcome_eq_error, outcome_onBus]
  cases op s.bus <;> simp [eq_comm]

end Stage

namespace Channel

section Units

variable {β : Type} [Master β] {port : DataPort} {s t : Stage β} {a v : UInt32}

theorem unitFromRam_eq_ok_iff : unitFromRam port a s = .ok true t ↔
    ∃ v r r', Master.read .word a s.bus = .ok v r ∧ Master.exception r = false ∧
      port.write v r = .ok () r' ∧ Master.exception r' = false ∧
        t = ⟨s.channel, s.controller, r'⟩ := by
  constructor
  · intro h
    obtain ⟨v, u, hu, h⟩ := Op.bind_eq_ok.1 h
    obtain ⟨r, hr, rfl⟩ := Stage.onBus_eq_ok.1 hu
    rw [exception_bind] at h
    cases he : Master.exception r with
    | true => simp only [he] at h; cases h
    | false =>
        simp only [he] at h
        obtain ⟨_, w, hw, h⟩ := Op.bind_eq_ok.1 h
        obtain ⟨r', hr', rfl⟩ := Stage.onBus_eq_ok.1 hw
        cases he' : Master.exception r' <;> simp [exception_bind, he'] at h <;> cases h
        exact ⟨v, r, r', hr, he, hr', he', rfl⟩
  · rintro ⟨v, r, r', hr, he, hr', he', rfl⟩
    refine Op.bind_eq_ok.2 ⟨v, _, Stage.onBus_eq_ok.2 ⟨r, hr, rfl⟩, ?_⟩
    simp only [exception_bind, he]
    refine Op.bind_eq_ok.2 ⟨(), _, Stage.onBus_eq_ok.2 ⟨r', hr', rfl⟩, ?_⟩
    simp only [exception_bind, he']
    rfl

theorem takeUnit_eq_ok_iff (hh : s.channel.held = none) : takeUnit port s = .ok (some v) t ↔
    ∃ r, port.read s.bus = .ok v r ∧ Master.exception r = false ∧
      t = ⟨s.channel, s.controller, r⟩ := by
  rw [takeUnit_of_empty hh, Op.bind_eq_ok]
  constructor
  · rintro ⟨v', u, hu, h⟩
    obtain ⟨r, hr, rfl⟩ := Stage.onBus_eq_ok.1 hu
    rw [exception_bind] at h
    cases he : Master.exception r <;> simp only [he] at h <;> cases h
    exact ⟨r, hr, he, rfl⟩
  · rintro ⟨r, hr, he, rfl⟩
    refine ⟨v, _, Stage.onBus_eq_ok.2 ⟨r, hr, rfl⟩, ?_⟩
    simp only [exception_bind, he]
    rfl

theorem storeUnit_eq_ok_iff : storeUnit a v s = .ok true t ↔
    ∃ r, Master.write .word a v s.bus = .ok () r ∧ Master.exception r = false ∧
      t = ⟨s.channel, s.controller, r⟩ := by
  rw [storeUnit, Op.bind_eq_ok]
  constructor
  · rintro ⟨_, u, hu, h⟩
    obtain ⟨r, hr, rfl⟩ := Stage.onBus_eq_ok.1 hu
    rw [exception_bind] at h
    cases he : Master.exception r <;> simp only [he] at h <;> cases h
    exact ⟨r, hr, he, rfl⟩
  · rintro ⟨r, hr, he, rfl⟩
    refine ⟨(), _, Stage.onBus_eq_ok.2 ⟨r, hr, rfl⟩, ?_⟩
    simp only [exception_bind, he]
    rfl

theorem unitToRam_eq_ok_iff (hh : s.channel.held = none) : unitToRam port a s = .ok true t ↔
    ∃ v r r', port.read s.bus = .ok v r ∧ Master.exception r = false ∧
      Master.write .word a v r = .ok () r' ∧ Master.exception r' = false ∧
        t = ⟨s.channel, s.controller, r'⟩ := by
  rw [unitToRam, Op.bind_eq_ok]
  constructor
  · rintro ⟨_ | v, u, hu, h⟩
    · cases h
    · obtain ⟨r, hr, he, rfl⟩ := (takeUnit_eq_ok_iff hh).1 hu
      obtain ⟨r', hr', he', rfl⟩ := storeUnit_eq_ok_iff.1 h
      exact ⟨v, r, r', hr, he, hr', he', rfl⟩
  · rintro ⟨v, r, r', hr, he, hr', he', rfl⟩
    exact ⟨some v, _, (takeUnit_eq_ok_iff hh).2 ⟨r, hr, he, rfl⟩,
      storeUnit_eq_ok_iff.2 ⟨r', hr', he', rfl⟩⟩

end Units

variable {δ : Type} [Board δ] {p : Peer} {port : DataPort} {s t : Stage (Recorder (Bus δ))}

/-- **A unit gets through when it can be carried**, with the flag down and its address mapped. -/
theorem transferUnit_eq_ok_iff (hp : p.port? = some port) (hh : s.channel.held = none) :
    transferUnit p s = .ok true t ↔
      s.bus.bus.exception = false ∧ regionOf s.channel.address ≠ .unmapped ∧
        ∃ v r, port.carry s.channel.control.direction s.channel.address s.bus = .ok v r ∧
          t = ⟨s.channel, s.controller, r⟩ := by
  have hb := DataPort.onBoard_of_port hp
  cases hd : s.channel.control.direction with
  | fromRam =>
      rw [transferUnit_of_fromRam hp hd, unitFromRam_eq_ok_iff]
      constructor
      · rintro ⟨v, r, r', hr, he, hr', -, rfl⟩
        obtain ⟨hs, ha⟩ := (Recorder.read_down hr).1 he
        exact ⟨hs, ha, v, r', Op.bind_eq_ok.2 ⟨v, r, hr, Op.bind_eq_ok.2 ⟨(), r', hr', rfl⟩⟩, rfl⟩
      · rintro ⟨hs, ha, v, r', hc, rfl⟩
        obtain ⟨_, r, hr, hc⟩ := Op.bind_eq_ok.1 hc
        obtain ⟨_, _, hr', hc⟩ := Op.bind_eq_ok.1 hc
        cases hc
        have he : r.bus.exception = false := (Recorder.read_down hr).2 ⟨hs, ha⟩
        exact ⟨v, r, r', hr, he, hr', (Recorder.writePort_flag hb hr').trans he, rfl⟩
  | toRam =>
      rw [transferUnit_of_toRam hp hd, unitToRam_eq_ok_iff hh]
      constructor
      · rintro ⟨v, r, r', hr, he, hr', he', rfl⟩
        obtain ⟨hs, ha⟩ := (Recorder.write_down hr').1 he'
        rw [Recorder.readPort_flag hb hr] at hs
        exact ⟨hs, ha, v, r', Op.bind_eq_ok.2 ⟨v, r, hr, Op.bind_eq_ok.2 ⟨(), r', hr', rfl⟩⟩, rfl⟩
      · rintro ⟨hs, ha, v, r', hc, rfl⟩
        obtain ⟨_, r, hr, hc⟩ := Op.bind_eq_ok.1 hc
        obtain ⟨_, _, hr', hc⟩ := Op.bind_eq_ok.1 hc
        cases hc
        have he : r.bus.exception = false := (Recorder.readPort_flag hb hr).trans hs
        exact ⟨v, r, r', hr, he, hr', (Recorder.write_down hr').2 ⟨he, ha⟩, rfl⟩

section Access

variable {β : Type} [Master β] {s : Stage β} {b : β}

/-- The access of a header is a read. -/
theorem Attempt.access_header {v : UInt32}
    (h : Master.read .word s.channel.nextNode s.bus = .ok v b) :
    Attempt.header.access p s = .ok (some (enterNode v)) ⟨s.channel, s.controller, b⟩ :=
  Op.bind_eq_ok.2 ⟨_, _, rfl, Op.bind_eq_ok.2 ⟨_, _, Stage.onBus_eq_ok.2 ⟨_, h, rfl⟩, rfl⟩⟩

/-- The access of an entry of an ordering table is a write. -/
theorem Attempt.access_entry {n : Nat}
    (h : Master.write .word s.channel.address
      (if n = 0 then endMark else below s.channel.address) s.bus = .ok () b) :
    (Attempt.entry n).access p s = .ok
      (some fun c => { c with address := below c.address, wordsLeft := n })
      ⟨s.channel, s.controller, b⟩ :=
  Op.bind_eq_ok.2 ⟨_, _, rfl, Op.bind_eq_ok.2 ⟨(), _, Stage.onBus_eq_ok.2 ⟨_, h, rfl⟩, rfl⟩⟩

end Access

/-- What an attempt comes to when its accesses do not fail is up to the flag. -/
theorem Attempt.perform_of_access {β : Type} [Master β] (a : Attempt) {f : Channel → Channel}
    {s t : Stage β} (ha : a.access p s = .ok (some f) t) :
    a.perform p s = if raised t then .ok false (stopped (charged t))
      else .ok true (withChannel f (charged t)) := by
  rw [a.perform_eq, ha]
  cases h : raised t <;> simp [settled, h]

/-- With the flag down, it goes through. -/
theorem Attempt.goes_through {a : Attempt} {f : Channel → Channel} {c : Channel} {k : Controller}
    {r : Recorder (Bus δ)} (ha : a.access p s = .ok (some f) ⟨c, k, r⟩)
    (hr : r.bus.exception = false) : a.perform p s = .ok true ⟨f c, k, Master.charge 1 r⟩ := by
  obtain ⟨⟨ram, board, exception, lastFault, pendingCycles⟩, log⟩ := r
  obtain rfl : exception = false := hr
  exact a.perform_of_access ha

/-- **A unit is retired when it can be carried**, with the flag down and its address mapped. -/
theorem moveUnit_eq_ok_iff (hp : p.port? = some port) (hh : s.channel.held = none) :
    moveUnit p s = .ok true t ↔
      s.bus.bus.exception = false ∧ regionOf s.channel.address ≠ .unmapped ∧
        ∃ v r, port.carry s.channel.control.direction s.channel.address s.bus = .ok v r ∧
          t = ⟨retire p s.channel, s.controller, Master.charge 1 r⟩ := by
  have hd : ∀ {v r}, s.bus.bus.exception = false → regionOf s.channel.address ≠ .unmapped →
      port.carry s.channel.control.direction s.channel.address s.bus = .ok v r →
        r.bus.exception = false := fun hs hm hc =>
    (Recorder.carry_ok (DataPort.onBoard_of_port hp) hc).2.2 ⟨hs, hm⟩
  constructor
  · intro h
    obtain ⟨f, u, ha, -, ht⟩ | ⟨_, _, -, -, ht⟩ | ⟨_, _, -, ht⟩ :=
      Attempt.perform_cases (a := .unit) h
    · obtain ⟨through, u', hu, hf⟩ := Op.bind_eq_ok.1 ha
      cases through <;> cases hf
      obtain ⟨hs, hm, v, r, hc, rfl⟩ := (transferUnit_eq_ok_iff hp hh).1 hu
      have hk := Attempt.goes_through ha (hd hs hm hc)
      cases (show moveUnit p s = _ from hk).symm.trans h
      exact ⟨hs, hm, v, r, hc, rfl⟩
    · cases ht
    · cases ht
  · rintro ⟨hs, hm, v, r, hc, rfl⟩
    have hu := (transferUnit_eq_ok_iff hp hh).2 ⟨hs, hm, v, r, hc, rfl⟩
    have ha : Attempt.unit.access p s = .ok (some (retire p)) ⟨s.channel, s.controller, r⟩ :=
      Op.bind_eq_ok.2 ⟨true, _, hu, rfl⟩
    exact Attempt.goes_through ha (hd hs hm hc)

/-! ### Several units -/

/-- From one address to the next. -/
def stride (p : Peer) (c : Channel) : UInt32 :=
  if c.control.has .decrement && c.mode p != .linkedList then -4 else 4

/-- The channel after `n` units were retired. -/
def advance (p : Peer) (c : Channel) (n : Nat) : Channel :=
  { c with address := along (c.stride p) c.address n, wordsLeft := c.wordsLeft - n }

theorem stride_congr {c d : Channel} (h : d.control = c.control) : d.stride p = c.stride p := by
  rw [stride, stride, mode_congr h, h]

theorem stride_activate (p : Peer) (c : Channel) : c.activate.stride p = c.stride p := by
  rw [stride, stride, mode, mode]
  simp [activate]

theorem retire_eq (c : Channel) : c.retire p = c.advance p 1 := by
  have hn : c.nextAddress p = along (c.stride p) c.address 1 := by
    rw [nextAddress, stride, along]
    split <;> simp [UInt32.sub_eq_add_neg]
  rw [retire, advance, hn]

theorem advance_zero {c : Channel} (h : c.address ≤ addressMask) : c.advance p 0 = c := by
  rw [advance, along_zero h, Nat.sub_zero]

theorem advance_advance (c : Channel) (m n : Nat) :
    (c.advance p m).advance p n = c.advance p (m + n) := by
  have hs : (c.advance p m).stride p = c.stride p := stride_congr rfl
  rw [advance, hs]
  simp only [advance, along_along, Nat.sub_sub]

/-- **The addresses of units stand one stride apart.** -/
theorem unitAddresses_eq (p : Peer) {c : Channel} (h : c.address ≤ addressMask) (n : Nat) :
    unitAddresses p c n = (List.range n).map (along (c.stride p) c.address) := by
  induction n generalizing c with
  | zero => rfl
  | succ n ih =>
      have hs : (c.advance p 1).stride p = c.stride p := stride_congr rfl
      rw [unitAddresses, retire_eq, ih (along_le _ _ _), hs, List.range_succ_eq_map, List.map_cons,
        List.map_map, along_zero h]
      refine congrArg _ (List.map_congr_left fun i _ => ?_)
      exact (along_along 1 i).trans (by rw [Nat.add_comm]; rfl)

/-- **Units get through exactly when they can be carried**, with the flag down and all their
addresses mapped. -/
theorem moveUnits_eq_ok_iff (hp : p.port? = some port) (n : Nat) :
    ∀ {s t : Stage (Recorder (Bus δ))}, s.channel.held = none → s.channel.address ≤ addressMask →
      (moveUnits p n s = .ok true t ↔
        (0 < n → s.bus.bus.exception = false) ∧
          (∀ a ∈ unitAddresses p s.channel n, regionOf a ≠ .unmapped) ∧
            ∃ vs r, port.carryAll s.channel.control.direction (unitAddresses p s.channel n) s.bus =
                .ok vs r ∧
              t = ⟨s.channel.advance p n, s.controller, Master.charge n r⟩) := by
  have hb := DataPort.onBoard_of_port hp
  induction n with
  | zero =>
      intro s t hh ha
      rw [advance_zero ha]
      constructor
      · rintro ⟨⟩
        exact ⟨nofun, nofun, [], s.bus, rfl, rfl⟩
      · rintro ⟨-, -, _, _, h, rfl⟩
        cases h
        rfl
  | succ n ih =>
      intro s t hh ha
      -- A cycle charged before the other units may as well be charged after them.
      have hc : ∀ {as vs} {r r' : Recorder (Bus δ)},
          port.carryAll s.channel.control.direction as (Master.charge 1 r) = .ok vs r' ↔
            ∃ q, port.carryAll s.channel.control.direction as r = .ok vs q ∧
              Master.charge 1 q = r' :=
        ((Bus.charge_transparent 1).recorder.carryAll port _ _).eq_ok
      have hr : ∀ q : Recorder (Bus δ), Stage.mk ((retire p s.channel).advance p n) s.controller
          (Master.charge n (Master.charge 1 q)) =
            ⟨s.channel.advance p (n + 1), s.controller, Master.charge (n + 1) q⟩ := fun q => by
        rw [retire_eq, advance_advance, Nat.add_comm 1 n, Recorder.charge_charge, Nat.add_comm 1 n]
      rw [moveUnits, Op.bind_eq_ok]
      constructor
      · rintro ⟨through, u, hu, h⟩
        cases through
        · cases h
        obtain ⟨hs, hm, v, r, hv, rfl⟩ := (moveUnit_eq_ok_iff hp hh).1 hu
        obtain ⟨-, hms, vs, r', hvs, rfl⟩ :=
          (ih (s := ⟨retire p s.channel, s.controller, Master.charge 1 r⟩) hh
            UInt32.and_le_right).1 h
        obtain ⟨q, hq, rfl⟩ := hc.1 hvs
        exact ⟨fun _ => hs, List.forall_mem_cons.2 ⟨hm, hms⟩, v :: vs, q,
          Op.bind_eq_ok.2 ⟨v, r, hv, Op.bind_eq_ok.2 ⟨vs, q, hq, rfl⟩⟩, hr q⟩
      · rintro ⟨hs, hm, vs, q, h, rfl⟩
        obtain ⟨hm, hms⟩ := List.forall_mem_cons.1 hm
        obtain ⟨v, r, hv, h⟩ := Op.bind_eq_ok.1 h
        obtain ⟨vs, _, hq, h⟩ := Op.bind_eq_ok.1 h
        cases h
        refine ⟨true, _, (moveUnit_eq_ok_iff hp hh).2 ⟨hs (by simp), hm, v, r, hv, rfl⟩, ?_⟩
        have hd := (Recorder.carry_ok hb hv).2.2 ⟨hs (by simp), hm⟩
        exact (ih (s := ⟨retire p s.channel, s.controller, Master.charge 1 r⟩) hh
          UInt32.and_le_right).2 ⟨fun _ => hd, hms, vs, _, hc.2 ⟨q, hq, rfl⟩, (hr q).symm⟩

/-- What the step of an active channel is in each mode. -/
def stepIn {β : Type} [Master β] (p : Peer) : SyncMode → Op (Stage β) Status
  | .burst => stepBurst p
  | .slice => stepSlice p
  | .linkedList => stepList p
  | .reserved => do throw (← Stage.channelOf (·.modeFault p))

theorem step_of_active {β : Type} [Master β] {s : Stage β} (hp : p ≠ .orderingTable)
    (ha : s.channel.active = true) {m : SyncMode} (hm : s.channel.control.syncMode = m) :
    step p s = stepIn p m s := by
  show (if !s.channel.active then _ else _ : Op (Stage β) Status) s = _
  rw [ha, if_neg (by simp), if_neg hp, Op.bind_apply]
  simp only [Stage.channelOf, hm]
  cases m <;> rfl

/-- The accesses of a step are the log that it leaves in an empty one. -/
theorem accesses_of_step {s : Stage (Bus δ)}
    {r : EStateM.Result Fault (Stage (Recorder (Bus δ))) Status} (h : step p s.recorded = r) :
    accesses p s = (Op.outcome r).2.bus.log := by
  rw [accesses, h]

/-- A start that is accepted loads the channel and makes it active. -/
theorem arm_eq_ok {c d : Channel} (h : arm p false c = .ok () d) :
    c.refusal? p = none ∧ d = (c.load p).activate := by
  cases hr : c.refusal? p with
  | none =>
      rw [arm_of_accepted hr] at h
      cases h
      exact ⟨rfl, rfl⟩
  | some fault =>
      rw [arm_of_refusal hr] at h
      cases h

theorem ne_orderingTable (hp : p.port? = some port) : p ≠ .orderingTable := by
  rintro rfl
  cases hp

/-- **What can be carried gets through**, and the log has the accesses that carry it. -/
theorem moved_of_carried {c : Channel} {n : Nat} {b b' : Bus δ} {vs : List UInt32}
    (hp : p.port? = some port) (hh : c.held = none) (ha : c.address ≤ addressMask)
    (controller : Controller) (l : List Touch) (hb : b.exception = false)
    (hm : ∀ a ∈ unitAddresses p c n, regionOf a = .ram)
    (hv : port.carryAll c.control.direction (unitAddresses p c n) b = .ok vs b') :
    moveUnits p n (Stage.mk c controller (Recorder.mk b l)) = .ok true ⟨c.advance p n, controller,
      ⟨b'.charge n, l ++ port.touchesAll c.control.direction (unitAddresses p c n) vs⟩⟩ := by
  obtain ⟨r, hr, rfl⟩ := (Recorder.transparent.carryAll port _ _).eq_ok.1
    (show port.carryAll c.control.direction (unitAddresses p c n) (Recorder.bus ⟨b, l⟩) =
      .ok vs b' from hv)
  have hl := (Recorder.carryAll_ok (DataPort.onBoard_of_port hp) hr).1
  refine (moveUnits_eq_ok_iff hp n (s := ⟨c, controller, ⟨b, l⟩⟩) hh ha).2
    ⟨fun _ => hb, fun a h => by simp [hm a h], vs, r, hr, ?_⟩
  rw [← hl]
  rfl

end Channel

end DmaMachine
