import DmaMachine.Proofs.Channel.Bursts
import DmaMachine.Proofs.Channel.Intact
import DmaMachine.Proofs.Channel.Live
import DmaMachine.Proofs.Channel.Tables

/-!
# Trying again

A transfer that a bus error stopped waits, with the unit, the header or the entry at hand that did
not get through.  A forced start makes it active again, and so does a request of the peripheral.

If the flag was down before the step, the bus error was an access to an address without anything
there.  A unit on its way to memory is held by then.  So the next step begins with that access, and
stops again: nothing is left out, and nothing is done twice.

* `step_faulted`: **a step that a bus error stops** stops at an attempt that the next step begins
  with (`Attempt.First`).
* `Attempt.stray_of_stopped`: an attempt that does not go through is *stuck*, at one access
  (`Attempt.Stray`), and makes it again (`Attempt.Stray.perform_eq`).
* `StuckAt.retry`, `StuckAt.retries`: one retry of a stuck transfer, and several.
* `retries_harmless`: **however often somebody tries again**, memory, the board, the controller and
  the channel are as the first fault left them, but for the generation and the forced start.
-/

namespace DmaMachine

/-- To set a flag twice is to set it once. -/
theorem Control.set_set (k : Control) (f : Flag) (on : Bool) :
    (k.set f on).set f on = k.set f on := by
  cases on with
  | true =>
      show (⟨(k.bits ||| f.mask) ||| f.mask⟩ : Control) = ⟨k.bits ||| f.mask⟩
      rw [UInt32.or_assoc, UInt32.or_self]
  | false =>
      show (⟨(k.bits &&& ~~~f.mask) &&& ~~~f.mask⟩ : Control) = ⟨k.bits &&& ~~~f.mask⟩
      rw [UInt32.and_assoc, UInt32.and_self]

/-! ### Accesses that raise the flag -/

namespace Recorder

variable {δ : Type} [Board δ] {r r' : Recorder (Bus δ)} {w : Width} {a v : UInt32}

/-- **A read that raises the flag** gives all ones, and changes nothing else. -/
theorem read_raises (h : Master.read w a r = .ok v r') (hr : r.bus.exception = false)
    (hr' : r'.bus.exception = true) :
    Touch.Raises ⟨false, w, a, v⟩ ∧ v = w.mask ∧
      r' = ⟨r.bus.raise a, r.log ++ [⟨false, w, a, v⟩]⟩ := by
  obtain ⟨hl, hb⟩ := read_log h
  have hf := Bus.exception_read w a r.bus
  rw [show Bus.read w a r.bus = .ok v r'.bus from hb] at hf
  obtain hx | ⟨ha, hu⟩ := hf.1 hr'
  · exact absurd (hr.symm.trans hx) Bool.false_ne_true
  · have hb : Bus.read w a r.bus = .ok v r'.bus := hb
    rw [Bus.read_unmapped ha hu] at hb
    obtain ⟨b', l'⟩ := r'
    cases hb
    exact ⟨⟨ha, hu⟩, rfl, congrArg _ hl⟩

/-- **A write that raises the flag** changes nothing else. -/
theorem write_raises {u : Unit} (h : Master.write w a v r = .ok u r')
    (hr : r.bus.exception = false) (hr' : r'.bus.exception = true) :
    Touch.Raises ⟨true, w, a, v⟩ ∧ r' = ⟨r.bus.raise a, r.log ++ [⟨true, w, a, v⟩]⟩ := by
  obtain ⟨hl, hb⟩ := write_log h
  have hb : Bus.write w a v r.bus = .ok u r'.bus := hb
  have hf := Bus.exception_write w a v r.bus
  rw [hb] at hf
  obtain hx | ⟨ha, hu⟩ := hf.1 hr'
  · exact absurd (hr.symm.trans hx) Bool.false_ne_true
  · rw [Bus.write_unmapped ha hu] at hb
    obtain ⟨b', l'⟩ := r'
    cases hb
    exact ⟨⟨ha, hu⟩, congrArg _ hl⟩

end Recorder

namespace Channel

/-! ### The attempt that a step begins with -/

section First

variable {β : Type} [Master β] {p : Peer} {c d : Channel} {a : Attempt} {s t : Stage β}

/-- The attempt is the one that a step of the channel begins with. -/
structure Attempt.First (p : Peer) (c : Channel) (a : Attempt) : Prop where
  fits : a.Fits p c
  due : a.Due c
  /-- A block of a slice transfer has a unit left. -/
  inBlock : c.mode p = .slice → (c.blocksLeft - 1) * c.shadowBlocks.blockSize < c.wordsLeft

theorem moveUnits_of_stopped {n : Nat} (hn : 0 < n) (h : moveUnit p s = .ok false t) :
    moveUnits p n s = .ok false t := by
  obtain ⟨n, rfl⟩ : ∃ m, n = m + 1 := ⟨n - 1, by omega⟩
  rw [moveUnits, Op.bind_apply, h]
  rfl

/-- Several units stop at one of them. -/
theorem moveUnits_stopped : ∀ {n : Nat} {s : Stage β}, moveUnits p n s = .ok false t →
    ∃ j u, j < n ∧ moveUnits p j s = .ok true u ∧ moveUnit p u = .ok false t
  | 0, _, h => by cases h
  | n + 1, s, h => by
      obtain ⟨through, v, hv, h⟩ := Op.bind_eq_ok.1 h
      cases through with
      | false =>
          cases h
          exact ⟨0, s, n.succ_pos, rfl, hv⟩
      | true =>
          obtain ⟨j, u, hj, hu, ht⟩ := moveUnits_stopped h
          refine ⟨j + 1, u, Nat.succ_lt_succ hj, ?_, ht⟩
          rw [moveUnits, Op.bind_apply, hv]
          exact hu

/-- **A step stops where it begins** when the attempt there does not go through. -/
theorem step_of_stopped (hs : s.channel.active = true) (ha : a.First p s.channel)
    (h : a.perform p s = .ok false t) : step p s = .ok .faulted t := by
  cases a with
  | unit =>
      obtain ⟨hp, hr⟩ := ha.fits
      have hw : 0 < s.channel.wordsLeft := ha.due
      have hm : s.channel.mode p = s.channel.control.syncMode := if_neg hp
      rw [step_of_active hp hs rfl]
      cases hsync : s.channel.control.syncMode with
      | burst =>
          have hn : 0 < if s.channel.control.has .chopping then
              min s.channel.control.busWindow s.channel.wordsLeft else s.channel.wordsLeft := by
            split
            · exact Nat.lt_min.2 ⟨s.channel.control.busWindow_pos, hw⟩
            · exact hw
          rw [stepIn, stepBurst, Op.bind_apply]
          exact Op.bind_eq_ok.2 ⟨false, t, moveUnits_of_stopped hn h, rfl⟩
      | slice =>
          have hn := Nat.sub_pos_of_lt (ha.inBlock (hm.trans hsync))
          rw [stepIn, stepSlice, Op.bind_apply]
          exact Op.bind_eq_ok.2 ⟨false, t, moveUnits_of_stopped hn h, rfl⟩
      | linkedList =>
          rw [stepIn, stepList, Op.bind_apply]
          show walk p _ s = _
          rw [walk.eq_def, Op.bind_apply]
          exact Op.bind_eq_ok.2 ⟨false, t, moveUnits_of_stopped hw h, rfl⟩
      | reserved => exact absurd (hm.trans hsync) hr
  | header =>
      obtain ⟨hw, hl, hn⟩ := ha.due
      have hm : s.channel.mode p = .linkedList := ha.fits
      have hp : p ≠ .orderingTable := by
        rintro rfl
        cases hm
      obtain ⟨n, hn⟩ : ∃ n, nodeLimit - s.channel.nodeCount = n + 1 :=
        ⟨nodeLimit - s.channel.nodeCount - 1, by omega⟩
      rw [step_of_active hp hs ((if_neg hp).symm.trans hm), stepIn, stepList, Op.bind_apply]
      show walk p (nodeLimit - s.channel.nodeCount) s = _
      rw [hn, walk, Op.bind_apply]
      simp only [Stage.channelOf, hw, moveUnits]
      show (if s.channel.lastNode then _ else _ : Op (Stage β) Status) s = _
      rw [hl, if_neg (by simp)]
      exact Op.bind_eq_ok.2 ⟨false, t, h, rfl⟩
  | entry n =>
      obtain rfl : p = .orderingTable := ha.fits
      have hw : s.channel.wordsLeft = n + 1 := ha.due
      rw [step_table hs, hw, fillTable]
      exact Op.bind_eq_ok.2 ⟨false, t, h, rfl⟩

/-- A unit that goes through leaves the blocks alone. -/
theorem Through.keeps_blocks {u : Stage β} (h : Through p s u) :
    u.channel.blocksLeft = s.channel.blocksLeft ∧
      u.channel.shadowBlocks = s.channel.shadowBlocks := by
  induction h with
  | none => exact ⟨rfl, rfl⟩
  | next a hf ha _ ih =>
      obtain ⟨f, held, ht, hc⟩ := Attempt.perform_takes ha
      rw [hc] at ih
      cases a with
      | unit | entry =>
          cases ht
          exact ih
      | header =>
          obtain ⟨header, rfl⟩ := ht
          exact ih

theorem step_active (h : step p s = .ok .faulted t) : s.channel.active = true := by
  by_contra ha
  rw [step_of_inactive (Bool.eq_false_iff.2 ha)] at h
  cases h

theorem ne_orderingTable_of_slice (h : c.mode p = .slice) : p ≠ .orderingTable := by
  rintro rfl
  cases h

/-- A step of a slice transfer is stopped by one of the units of its block. -/
theorem moveUnits_of_slice (hm : s.channel.mode p = .slice) (hs : s.channel.active = true)
    (h : step p s = .ok .faulted t) :
    moveUnits p (s.channel.wordsLeft -
      (s.channel.blocksLeft - 1) * s.channel.shadowBlocks.blockSize) s = .ok false t := by
  have hp := ne_orderingTable_of_slice hm
  rw [step_of_active hp hs ((if_neg hp).symm.trans hm), stepIn, stepSlice, Op.bind_apply] at h
  obtain ⟨through, u, hu, h⟩ := Op.bind_eq_ok.1 h
  cases through with
  | false =>
      cases h
      exact hu
  | true =>
      have h : (if u.channel.countBlock.blocksLeft = 0 then _ else _ : Op (Stage β) Status)
        ⟨u.channel.countBlock, u.controller, u.bus⟩ = .ok .faulted t := h
      split at h <;> cases h

/-- **A step that a bus error stops** stops at an attempt that the next step begins with. -/
theorem step_faulted (h : step p s = .ok .faulted t) :
    ∃ (a : Attempt) (u : Stage β), Through p s u ∧ a.First p u.channel ∧
      a.perform p u = .ok false t := by
  have hr := step_regular p s
  rw [h] at hr
  obtain ⟨a, u, hu, hf, hd, ha⟩ : ∃ a u, InTurn p s u ∧ Attempt.Fits p u.channel a ∧
      Attempt.Due u.channel a ∧ a.perform p u = .ok false t := by
    cases hr with
    | ended _ ht => cases ht
    | faulted a hu hf hd ha => exact ⟨a, _, hu, hf, hd, ha⟩
  have hm : ∀ {v}, Through p s v → v.channel.mode p = s.channel.mode p := fun hv =>
    mode_congr hv.keeps.2.1
  by_cases hs : s.channel.mode p = .slice
  · obtain ⟨j, u, hj, hu, ha⟩ := moveUnits_stopped (moveUnits_of_slice hs (step_active h) h)
    have hf : Attempt.unit.Fits p s.channel := ⟨ne_orderingTable_of_slice hs, by simp [hs]⟩
    have ht := moveUnits_tallied j hf (by omega)
    rw [hu] at ht
    cases ht with
    | through hu' hw =>
        have hk := hu'.through.keeps_blocks
        have hw := hw.1
        refine ⟨.unit, u, hu'.through, ⟨hf.congr hu'.through.keeps.2.1, ?_, fun _ => ?_⟩, ha⟩
        · show 0 < u.channel.wordsLeft
          omega
        · rw [hk.1, hk.2]
          omega
  · exact ⟨a, u, hu.through, ⟨hf, hd, fun hu' => absurd ((hm hu.through).symm.trans hu') hs⟩, ha⟩

end First

/-! ### Attempts that are stuck -/

section Stuck

variable {δ : Type} [Board δ] {p : Peer} {c d : Channel} {a : Attempt} {x : Touch}
  {s t u : Stage (Recorder (Bus δ))}

/-- The one access that the attempt makes when there is nothing at its address.  A unit that goes
into memory is held by then. -/
def Attempt.Stray (c : Channel) (x : Touch) : Attempt → Prop
  | unit =>
      match c.control.direction with
      | .fromRam => x = ⟨false, .word, c.address, 0xFFFFFFFF⟩
      | .toRam => ∃ v, c.held = some v ∧ x = ⟨true, .word, c.address, v⟩
  | header => x = ⟨false, .word, c.nextNode, 0xFFFFFFFF⟩
  | entry n => x = ⟨true, .word, c.address, if n = 0 then endMark else below c.address⟩

/-- The stage where an access stopped the channel that raised the flag. -/
def strayed (x : Touch) (s : Stage (Recorder (Bus δ))) : Stage (Recorder (Bus δ)) :=
  ⟨s.channel.halted, s.controller.signalBusError,
    ⟨{ s.bus.bus.charge 1 with exception := false, lastFault := some x.address },
      s.bus.log ++ [x]⟩⟩

/-- **An attempt that is stuck** makes its one access again, for a cycle. -/
theorem Attempt.Stray.perform_eq (h : a.Stray s.channel x) (hx : x.Raises)
    (hf : a.Fits p s.channel) : a.perform p s = .ok false (strayed x s) := by
  obtain ⟨c, k, ⟨b, l⟩⟩ := s
  obtain ⟨ha, hr⟩ := hx
  cases a with
  | unit =>
      obtain ⟨port, hp⟩ : ∃ port, p.port? = some port :=
        Option.ne_none_iff_exists'.1 (mt Peer.port?_eq_none_iff.1 hf.1)
      cases hd : c.control.direction with
      | fromRam =>
          simp only [Stray, hd] at h
          subst h
          exact (unitLost_fromRam hp hd ha hr b).moveUnit_eq k l
      | toRam =>
          simp only [Stray, hd] at h
          obtain ⟨v, hh, rfl⟩ := h
          have hm := (unitLost_held hp hd hh ha hr b).moveUnit_eq k l
          rw [← hh] at hm
          exact hm
  | header =>
      cases h
      have hread : Master.read .word c.nextNode b = .ok 0xFFFFFFFF (b.raise c.nextNode) :=
        Bus.read_unmapped ha hr b
      have ha := access_header (p := p) (s := Stage.mk c k (Recorder.mk b l))
        (Recorder.read_recorded hread l)
      exact header.perform_of_access ha
  | entry n =>
      cases h
      have hwrite : Master.write .word c.address (if n = 0 then endMark else below c.address) b =
          .ok () (b.raise c.address) := Bus.write_unmapped ha hr _ b
      have ha := access_entry (p := p) (s := Stage.mk c k (Recorder.mk b l))
        (Recorder.write_recorded hwrite l)
      exact (entry n).perform_of_access ha

section Units

variable {port : DataPort} {through : Bool} {v : UInt32} (hs : s.bus.bus.exception = false)
  (ht : t.bus.bus.exception = true)
include hs ht

/-- A unit out of memory raises the flag where it is read; the port takes what it is given. -/
theorem unitFromRam_raises {a : UInt32} (hp : port.OnBoard)
    (h : unitFromRam port a s = .ok through t) :
    Touch.Raises ⟨false, .word, a, 0xFFFFFFFF⟩ ∧ t = ⟨s.channel, s.controller,
      ⟨s.bus.bus.raise a, s.bus.log ++ [⟨false, .word, a, 0xFFFFFFFF⟩]⟩⟩ := by
  obtain ⟨w, u, hu, h⟩ := Op.bind_eq_ok.1 h
  obtain ⟨r, hread, rfl⟩ := Stage.onBus_eq_ok.1 hu
  rw [exception_bind] at h
  cases he : Master.exception r with
  | true =>
      rw [he] at h
      cases h
      obtain ⟨hx, rfl, rfl⟩ := Recorder.read_raises hread hs he
      exact ⟨hx, rfl⟩
  | false =>
      rw [he] at h
      obtain ⟨_, u, hu, h⟩ := Op.bind_eq_ok.1 h
      obtain ⟨r', hwrite, rfl⟩ := Stage.onBus_eq_ok.1 hu
      cases h
      have hd : r'.bus.exception = false := (Recorder.writePort_flag hp hwrite).trans he
      exact absurd (hd.symm.trans ht) Bool.false_ne_true

/-- A unit into memory raises the flag where it is stored, and is held. -/
theorem storeUnit_raises {a : UInt32} (h : storeUnit a v s = .ok through t) :
    Touch.Raises ⟨true, .word, a, v⟩ ∧ t = ⟨{ s.channel with held := some v }, s.controller,
      ⟨s.bus.bus.raise a, s.bus.log ++ [⟨true, .word, a, v⟩]⟩⟩ := by
  obtain ⟨_, u, hu, h⟩ := Op.bind_eq_ok.1 h
  obtain ⟨r, hwrite, rfl⟩ := Stage.onBus_eq_ok.1 hu
  rw [exception_bind] at h
  cases he : Master.exception r with
  | true =>
      rw [he] at h
      cases h
      obtain ⟨hx, rfl⟩ := Recorder.write_raises hwrite hs he
      exact ⟨hx, rfl⟩
  | false =>
      rw [he] at h
      cases h
      exact absurd (he.symm.trans ht) Bool.false_ne_true

omit ht in
/-- A unit can be had, from the port or held. -/
theorem takeUnit_down {taken : Option UInt32} (hp : port.OnBoard)
    (h : takeUnit port s = .ok taken t) :
    t.bus.bus.exception = false ∧ t.controller = s.controller ∧
      (∃ held, t.channel = { s.channel with held }) ∧ ∃ v, taken = some v := by
  cases hh : s.channel.held with
  | some v =>
      rw [takeUnit_of_held hh] at h
      cases h
      exact ⟨hs, rfl, ⟨none, rfl⟩, v, rfl⟩
  | none =>
      rw [takeUnit_of_empty hh] at h
      obtain ⟨v, u, hu, h⟩ := Op.bind_eq_ok.1 h
      obtain ⟨r, hread, rfl⟩ := Stage.onBus_eq_ok.1 hu
      have hd : r.bus.exception = false := (Recorder.readPort_flag hp hread).trans hs
      rw [exception_bind, show Master.exception r = false from hd] at h
      cases h
      exact ⟨hd, rfl, ⟨s.channel.held, rfl⟩, v, rfl⟩

/-- **A unit that does not get through** has nothing at its address. -/
theorem transferUnit_raises (h : transferUnit p s = .ok through t) :
    ∃ (held : Option UInt32) (x : Touch) (r : Recorder (Bus δ)),
      Attempt.unit.Stray { s.channel with held } x ∧ x.Raises ∧
        t = ⟨{ s.channel with held }, s.controller, ⟨r.bus.raise x.address, r.log ++ [x]⟩⟩ := by
  cases hp : p.port? with
  | none =>
      rw [transferUnit_of_none hp] at h
      cases h
  | some port =>
      have hb := DataPort.onBoard_of_port hp
      cases hd : s.channel.control.direction with
      | fromRam =>
          rw [transferUnit_of_fromRam hp hd] at h
          obtain ⟨hx, rfl⟩ := unitFromRam_raises hs ht hb h
          exact ⟨s.channel.held, _, s.bus, by simp only [Attempt.Stray, hd], hx, rfl⟩
      | toRam =>
          rw [transferUnit_of_toRam hp hd] at h
          obtain ⟨taken, ⟨c, k, r⟩, hu, h⟩ := Op.bind_eq_ok.1 h
          obtain ⟨hdown, rfl, ⟨held, rfl⟩, v, rfl⟩ := takeUnit_down hs hb hu
          obtain ⟨hx, rfl⟩ := storeUnit_raises hdown ht h
          refine ⟨some v, _, r, ?_, hx, rfl⟩
          simp only [Attempt.Stray, hd]
          exact ⟨v, rfl, rfl⟩

end Units

/-- **An attempt that does not go through is stuck**, if the flag was down before it. -/
theorem Attempt.stray_of_stopped (hs : s.bus.bus.exception = false)
    (h : a.perform p s = .ok false t) :
    ∃ (held : Option UInt32) (x : Touch) (r : Recorder (Bus δ)),
      a.Stray { s.channel with held } x ∧ x.Raises ∧
        t = strayed x ⟨{ s.channel with held }, s.controller, r⟩ := by
  obtain ⟨_, _, -, -, ht⟩ | ⟨f, v, ha, hr, ht⟩ | ⟨_, _, -, ht⟩ := perform_cases h <;> cases ht
  have hup : v.bus.bus.exception = true := hr.elim (fun hn => access_stuck (hn ▸ ha)) id
  cases a with
  | unit =>
      obtain ⟨through, u, hu, ha⟩ := Op.bind_eq_ok.1 ha
      cases ha
      obtain ⟨held, x, r, hstray, hx, rfl⟩ := transferUnit_raises hs hup hu
      exact ⟨held, x, r, hstray, hx, rfl⟩
  | header =>
      obtain ⟨_, _, ⟨⟩, ha⟩ := Op.bind_eq_ok.1 ha
      obtain ⟨w, u, hu, ha⟩ := Op.bind_eq_ok.1 ha
      cases ha
      obtain ⟨r, hread, rfl⟩ := Stage.onBus_eq_ok.1 hu
      obtain ⟨hx, rfl, rfl⟩ := Recorder.read_raises hread hs hup
      exact ⟨s.channel.held, _, s.bus, rfl, hx, rfl⟩
  | entry n =>
      obtain ⟨_, _, ⟨⟩, ha⟩ := Op.bind_eq_ok.1 ha
      obtain ⟨_, u, hu, ha⟩ := Op.bind_eq_ok.1 ha
      cases ha
      obtain ⟨r, hwrite, rfl⟩ := Stage.onBus_eq_ok.1 hu
      obtain ⟨hx, rfl⟩ := Recorder.write_raises hwrite hs hup
      exact ⟨s.channel.held, _, s.bus, rfl, hx, rfl⟩

/-! ### Transfers that are stuck -/

/-- The control words differ in the forced-start bit alone. -/
theorem Attempt.First.congr (h : a.First p c) (hk : d.control.syncMode = c.control.syncMode)
    (hd : ∃ control held generation active, d = { c with control, held, generation, active }) :
    a.First p d := by
  obtain ⟨control, held, generation, active, rfl⟩ := hd
  have hm : mode p { c with control, held, generation, active } = c.mode p := by
    rw [mode, mode, hk]
  refine ⟨?_, ?_, ?_⟩
  · cases a <;> simpa only [Fits, hm] using h.fits
  · cases a <;> exact h.due
  · rw [hm]
    exact h.inBlock

theorem Attempt.Stray.congr (h : a.Stray c x)
    (hk : d.control.direction = c.control.direction)
    (hd : ∃ control generation active, d = { c with control, generation, active }) :
    a.Stray d x := by
  obtain ⟨control, generation, active, rfl⟩ := hd
  cases a with
  | unit => simpa only [Stray, hk] using h
  | header | entry => exact h

/-- The transfer waits after a bus error, and the attempt that its next step begins with has nothing
at its address. -/
structure StuckAt (p : Peer) (a : Attempt) (x : Touch) (s : Stage (Recorder (Bus δ))) : Prop where
  running : s.channel.running = true
  inactive : s.channel.active = false
  first : a.First p s.channel
  stray : a.Stray s.channel x
  raises : x.Raises
  down : s.bus.bus.exception = false
  lastFault : s.bus.bus.lastFault = some x.address
  noted : s.controller.signalBusError = s.controller

/-- **A step that a bus error stops** leaves the transfer stuck, if the flag was down before it. -/
theorem stuckAt_of_faulted (hr : s.channel.active = true → s.channel.running = true)
    (hs : s.bus.bus.exception = false) (h : step p s = .ok .faulted t) :
    ∃ a x l, t.bus.log = l ++ [x] ∧ StuckAt p a x t := by
  obtain ⟨a, u, hu, hfirst, ha⟩ := step_faulted h
  have hdown : u.bus.bus.exception = false := by
    obtain rfl | ⟨-, hd⟩ := hu.flag
    · exact hs
    · exact hd
  obtain ⟨held, x, r, hstray, hx, rfl⟩ := Attempt.stray_of_stopped hdown ha
  refine ⟨a, x, r.log, rfl, ?_, rfl, ?_, ?_, hx, rfl, rfl,
    Controller.signalBusError_signalBusError _⟩
  · exact hu.keeps.2.2.1.trans (hr (step_active h))
  · exact hfirst.congr rfl ⟨_, _, _, _, rfl⟩
  · exact hstray.congr rfl ⟨_, _, _, rfl⟩

/-! ### Retries -/

/-- What makes a stopped transfer go on. -/
inductive Retry where
  /-- The control word is written. -/
  | write (v mask : UInt32)
  /-- The peripheral asks for it. -/
  | request

def Retry.perform (p : Peer) : Retry → Op Channel Bool
  | write v mask => Channel.write p .control v mask
  | request => Channel.request p

/-- The retry makes the channel active, and leaves its control word as it was; the forced start is
taken back. -/
def Retry.Arms (p : Peer) (c d : Channel) (r : Retry) : Prop :=
  r.perform p c = .ok true d ∧ d.control = c.control.set .forceStart false

/-- Somebody tries again, and the channel steps; and so on. -/
def retryAll {β : Type} [Master β] (p : Peer) : List Retry → Op (Stage β) (List Status)
  | [] => pure []
  | r :: rs => do
      let _ ← onStage (r.perform p)
      let status ← step p
      let statuses ← retryAll p rs
      return status :: statuses

/-- Each of the retries makes the channel active that it finds. -/
def AllArm {β : Type} [Master β] (p : Peer) : List Retry → Stage β → Prop
  | [], _ => True
  | r :: rs, s => ∃ d, r.Arms p s.channel d ∧
      AllArm p rs (Op.outcome (step p ⟨d, s.controller, s.bus⟩)).2

/-- The channel in its next generation, active again and with the forced start taken back. -/
def retried (c : Channel) : Channel :=
  { c with
    control := c.control.set .forceStart false, generation := c.generation + 1, active := true }

theorem Retry.Arms.eq {r : Retry} (h : r.Arms p c d) (hr : c.running = true) : d = c.retried := by
  obtain ⟨h, hk⟩ := h
  have ha : ∀ k : Control, d = ({ c with control := k } : Channel).activate →
      d = { c with control := d.control, generation := c.generation + 1, active := true } := by
    rintro k rfl
    rw [activate, ← hr]
  rw [retried, ← hk]
  cases r with
  | write v mask =>
      simp only [Retry.perform, Channel.write, writeControl] at h
      split at h
      · cases h
      · split at h
        · rw [hr, arm_resume] at h
          cases h
          exact ha _ rfl
        · cases h
  | request =>
      simp only [Retry.perform, Channel.request] at h
      split at h
      · cases h
      · rw [hr, arm_resume] at h
        cases h
        exact ha c.control rfl

/-- Where `n` retries lead that each make one access and stop: of the channel only the generation is
another, and the forced start. -/
structure TriedAgain (x : Touch) (n : Nat) (s t : Stage (Recorder (Bus δ))) : Prop where
  log : t.bus.log = s.bus.log ++ List.replicate n x
  bus : t.bus.bus = s.bus.bus.charge n
  controller : t.controller = s.controller
  channel : ∃ control : Control,
    control.set .forceStart false = s.channel.control.set .forceStart false ∧
    t.channel = { s.channel with
      control, generation := s.channel.generation + UInt32.ofNat n }

/-- **A retry of a stuck transfer** stops where it was stuck. -/
theorem StuckAt.retry (h : StuckAt p a x s) {r : Retry} (hd : r.Arms p s.channel d) :
    ∃ t, step p ⟨d, s.controller, s.bus⟩ = .ok .faulted t ∧ StuckAt p a x t ∧
      TriedAgain x 1 s t := by
  rw [hd.eq h.running]
  have hmode : s.channel.retried.control.syncMode = s.channel.control.syncMode :=
    Control.syncMode_set _ _ _
  have hdirection : s.channel.retried.control.direction = s.channel.control.direction :=
    Control.direction_set _ (by decide) _
  have hfirst : a.First p s.channel.retried := h.first.congr hmode ⟨_, _, _, _, rfl⟩
  have hstray : a.Stray s.channel.retried x := h.stray.congr hdirection ⟨_, _, _, rfl⟩
  have hperform := hstray.perform_eq (s := ⟨s.channel.retried, s.controller, s.bus⟩) h.raises
    hfirst.fits
  refine ⟨_, step_of_stopped (s := ⟨s.channel.retried, s.controller, s.bus⟩) rfl hfirst hperform,
    ?_, ?_⟩
  · exact ⟨h.running, rfl, hfirst.congr rfl ⟨_, _, _, _, rfl⟩, hstray.congr rfl ⟨_, _, _, rfl⟩,
      h.raises, rfl, rfl, Controller.signalBusError_signalBusError _⟩
  · refine ⟨rfl, ?_, h.noted, s.channel.control.set .forceStart false,
      Control.set_set _ _ _, ?_⟩
    · show { s.bus.bus.charge 1 with exception := false, lastFault := some x.address } = _
      rw [← h.down, ← h.lastFault]
      rfl
    · show ({ s.channel with
        control := s.channel.control.set .forceStart false
        generation := s.channel.generation + 1, active := false } : Channel) = _
      rw [← h.inactive]
      rfl

omit [Board δ] in
theorem TriedAgain.trans {m n : Nat} (h : TriedAgain x m s t) (k : TriedAgain x n t u) :
    TriedAgain x (m + n) s u := by
  obtain ⟨control, hk, hc⟩ := h.channel
  obtain ⟨control', kk, kc⟩ := k.channel
  rw [hc] at kk kc
  refine ⟨?_, ?_, k.controller.trans h.controller, control', kk.trans hk, ?_⟩
  · rw [k.log, h.log, List.append_assoc, List.replicate_append_replicate]
  · rw [k.bus, h.bus, Bus.charge_charge]
  · rw [kc, UInt32.ofNat_add, ← UInt32.add_assoc]

/-- **Retries of a stuck transfer** all stop where it was stuck. -/
theorem StuckAt.retries (h : StuckAt p a x s) {rs : List Retry} (hrs : AllArm p rs s) :
    ∃ t, retryAll p rs s = .ok (List.replicate rs.length .faulted) t ∧
      TriedAgain x rs.length s t := by
  induction rs generalizing s with
  | nil => exact ⟨s, rfl, (List.append_nil _).symm, rfl, rfl, s.channel.control, rfl, by
      simp⟩
  | cons r rs ih =>
      obtain ⟨d, hd, hrs⟩ := hrs
      obtain ⟨t, ht, hstuck, htried⟩ := h.retry hd
      rw [ht] at hrs
      obtain ⟨u, hu, hus⟩ := ih hstuck hrs
      refine ⟨u, ?_, ?_⟩
      · have hr : onStage (r.perform p) s = .ok (.active true) ⟨d, s.controller, s.bus⟩ := by
          rw [onStage, hd.1]
        rw [retryAll]
        exact Op.bind_eq_ok.2
          ⟨_, _, hr, Op.bind_eq_ok.2 ⟨_, t, ht, Op.bind_eq_ok.2 ⟨_, u, hu, rfl⟩⟩⟩
      · rw [List.length_cons, Nat.add_comm]
        exact htried.trans hus

end Stuck

section Harmless

variable {δ : Type} [Board δ] {p : Peer} {c : Channel} {k : Controller} {b : Bus δ}
  {t : Stage (Bus δ)}

/-- **Retrying a fault is harmless.**  A step of a channel that can be reached, which began with the
flag down and which a bus error stopped, stopped at an access to an address without anything there.
However often somebody tries again, every step makes this one access and stops, for a cycle: memory
and the board are as the first fault left them, and so are the controller and the channel, but for
its generation and the forced start. -/
theorem retries_harmless (hc : Reached p c) (hb : b.exception = false)
    (ht : step p ⟨c, k, b⟩ = .ok .faulted t) {rs : List Retry} (hrs : AllArm p rs t.recorded) :
    ∃ l x u, accesses p ⟨c, k, b⟩ = l ++ [x] ∧ regionOf x.address = .unmapped ∧
      retryAll p rs t.recorded = .ok (List.replicate rs.length .faulted) u ∧
        TriedAgain x rs.length t.recorded u := by
  obtain ⟨v, hv, rfl⟩ := step_eq_ok.1 ht
  obtain ⟨a, x, l, hl, hstuck⟩ := stuckAt_of_faulted hc.intact.running hb hv
  have hstuck : StuckAt p a x v.plain.recorded := { hstuck with }
  obtain ⟨u, hu, htried⟩ := hstuck.retries hrs
  exact ⟨l, x, u, (accesses_of_step hv).trans hl, hstuck.raises.2, hu, htried⟩

/-- Two words to the graphics, of which memory has the first. -/
def burstIntoNothing : Channel :=
  [.write .base 0x7FFFFC 0xFFFFFFFF, .write .blocks 2 0xFFFFFFFF,
    .write .control 0x01000001 0xFFFFFFFF].foldl
      (fun c d => Deed.after .graphics (d : Deed (Bus BareBoard)) c) (initial .graphics)

/-- A forced start and a request both come to the word that is not there. -/
theorem burstIntoNothing_retried : ∃ t u,
    step .graphics ⟨burstIntoNothing, {}, bareBus⟩ = .ok .faulted t ∧
      retryAll .graphics [.write 0x11000001 0xFFFFFFFF, .request] t.recorded =
        .ok [.faulted, .faulted] u ∧
      u.channel.address = 0x800000 ∧ u.channel.wordsLeft = 1 ∧ u.bus.bus.pendingCycles = 4 := by
  have hc : Reached .graphics burstIntoNothing := .deed _ (.deed _ (.deed _ .initial))
  obtain ⟨t, ht, haddress, hleft, hcycles, hrs⟩ :
      ∃ t, step .graphics ⟨burstIntoNothing, {}, bareBus⟩ = .ok .faulted t ∧
        t.channel.address = 0x800000 ∧ t.channel.wordsLeft = 1 ∧ t.bus.pendingCycles = 2 ∧
          AllArm .graphics [.write 0x11000001 0xFFFFFFFF, .request] t.recorded :=
    ⟨_, rfl, rfl, rfl, rfl, _, ⟨rfl, rfl⟩, _, ⟨rfl, rfl⟩, trivial⟩
  obtain ⟨l, x, u, -, -, hu, htried⟩ := retries_harmless hc rfl ht hrs
  obtain ⟨control, -, hchannel⟩ := htried.channel
  refine ⟨t, u, ht, hu, ?_, ?_, ?_⟩
  · rw [hchannel]
    exact haddress
  · rw [hchannel]
    exact hleft
  · rw [htried.bus]
    exact congrArg (· + 2) hcycles

end Harmless

end Channel

end DmaMachine
