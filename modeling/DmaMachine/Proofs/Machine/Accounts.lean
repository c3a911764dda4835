import DmaMachine.Proofs.Machine.Registry

/-!
# Conservation of time

Time comes from two sources: the cycles that runs are begun with, and the cycles that the engine
takes from the processor.  A client can keep *accounts* of both, from the machine's journal alone:
what the clock showed when the books were opened, at power-on or at the last reset or restored
snapshot; the cycles of all runs begun since, nested ones included; and the cycles charged to the
bus since, by service passes and by hand.

The books *balance* when the clock shows what 64 bits hold of the time that they say it must, and
when every cycle charged either has been counted by the machine or is pending on the bus still.  A
client that takes or drops pending cycles itself gives up the latter, and so does one that has the
bus charged with more than 64 bits count.

* `time_is_conserved`: **the books balance throughout every history**, failing calls and nested runs
  included, and no cycle is left pending by a run that ends well; and the clock shows the time of
  the books exactly as long as it has 64 bits.
-/

namespace DmaMachine

namespace Machine

open Journal Timeline

variable {δ α υ β : Type} {m m' : Machine δ α υ}

/-- The accounts of a machine's time since the books were opened. -/
structure Account where
  /-- What the clock showed then. -/
  base : Nat := 0
  /-- The cycles of all runs begun since. -/
  asked : Nat := 0
  /-- The cycles charged to the bus since. -/
  charged : Nat := 0
  /-- Whether nobody but the machine has taken or dropped pending cycles since. -/
  untouched : Bool := true
deriving DecidableEq

namespace Account

/-- The accounts after a client's hand was on the bus. -/
def afterBus (a : Account) : Bus.Call δ → Account
  | .charge n => { a with charged := a.charged + n }
  | .takeCycles | .reset => { a with untouched := false }
  | _ => a

/-- The accounts after a call that has ended. -/
def afterCall (a : Account) : (c : Call δ α υ) → Except Fault c.Answer → Account
  | .reset, _ => {}
  | .restore s, .ok _ => { base := s.now.toNat }
  | .bus c, _ => a.afterBus c
  | _, _ => a

variable [Board δ]

/-- The accounts after one more item. -/
def after (a : Account) : Item δ α υ → Account
  | .began c m => { a with asked := a.asked + (c.cycles? m).getD 0 }
  | .ended c r _ => a.afterCall c r
  | .fired e _ m =>
      match e.task with
      | .service => { a with charged := a.charged + m.engine.charges m.bus }
      | _ => a
  | .invoked .. => a

end Account

/-- The accounts after a history. -/
def account [Board δ] (j : Journal δ α υ) : Account := j.foldl Account.after {}

/-- The time by the accounts. -/
def Account.time (a : Account) (m : Machine δ α υ) : Nat := a.base + a.asked + m.stats.dmaCycles

/-- The accounts agree with the machine, but for what 64 bits do not hold. -/
structure Balanced (a : Account) (m : Machine δ α υ) : Prop where
  clock : m.timeline.now = wrap (a.time m)
  cycles : a.untouched = true → a.charged < UInt64.size →
    a.charged = m.stats.dmaCycles + m.bus.pendingCycles

/-- The accounts agree with the machine, and so the clock is right just as long as 64 bits hold the
time. -/
structure Accounted (a : Account) (m : Machine δ α υ) : Prop extends Balanced a m where
  right : m.timeline.now = a.time m ↔ a.time m < UInt64.size

theorem Balanced.accounted {a : Account} (h : Balanced a m) : Accounted a m :=
  ⟨h, by rw [h.clock, wrap_eq_iff]⟩

/-- The accounts agree with the machine at an item: before a call and when an event fires or an
action is invoked, and after a call that has ended. -/
def Account.Agrees [Board δ] (a : Account) : Item δ α υ → Prop
  | .began _ m | .fired _ _ m | .invoked _ _ m => Accounted a m
  | .ended c r m => Accounted (a.afterCall c r) m

/-- A run that ends well leaves no cycle pending, unless it was one up to the next event and there
was none: that does nothing at all. -/
def Drained (k : Journal δ α υ) : Item δ α υ → Prop
  | .ended c (.ok _) m => c.Fires → m.bus.pendingCycles = 0 ∨
      (k.getLast? = some (.began c m) ∧ c.cycles? m = none)
  | _ => True

/-! ### What keeps the balance -/

theorem Balanced.congr {a : Account} (h : Balanced a m) (hn : m'.timeline.now = m.timeline.now)
    (hd : m'.stats.dmaCycles = m.stats.dmaCycles)
    (hp : m'.bus.pendingCycles = m.bus.pendingCycles) : Balanced a m' where
  clock := by rw [Account.time, hn, hd, h.clock, Account.time]
  cycles hu hf := by rw [hd, hp, h.cycles hu hf]

theorem Balanced.beside {a : Account} (h : Balanced a m) (hb : Beside m m') : Balanced a m' :=
  h.congr hb.now hb.dmaCycles hb.pendingCycles

theorem balanced_initial (board : δ) (memory : υ) :
    Balanced {} (initial board memory : Machine δ α υ) := ⟨rfl, fun _ _ => rfl⟩

theorem Balanced.armPeriodic {a : Account} (h : Balanced a m) {handle : PeriodicHandle}
    {name : String} {delay period : Nat} {action : α} {r : Except Fault Unit}
    (ho : Op.outcome (armPeriodic handle name delay period action m) = (r, m')) :
    Balanced a m' := by
  obtain ⟨e, he⟩ | ⟨slots, he, -⟩ := armPeriodic_cases handle name delay period action m <;>
    rw [he] at ho <;> cases ho
  · exact h
  · exact h.congr rfl rfl rfl

theorem Balanced.schedulePeriodic {a : Account} (h : Balanced a m) {name : String} {period : Nat}
    {action : α} {r : Except Fault PeriodicHandle}
    (ho : Op.outcome (schedulePeriodic name period action m) = (r, m')) : Balanced a m' := by
  obtain ⟨-, e, he⟩ | ⟨-, slots, ⟨⟨e, he⟩, -⟩ | ⟨he, -⟩⟩ :=
    schedulePeriodic_cases name period action m <;> rw [he] at ho <;> cases ho
  · exact h
  · exact h.congr rfl rfl rfl
  · exact h.congr rfl rfl rfl

theorem Balanced.cancelPeriodic {a : Account} (h : Balanced a m) (handle : PeriodicHandle) :
    Balanced a (m.cancelPeriodic handle).2 := by
  obtain ⟨-, he⟩ | ⟨id, slots, -, he, -⟩ := cancelPeriodic_cases handle m <;> rw [he]
  · exact h
  · exact h.congr rfl rfl rfl

/-- The clock goes on by as many cycles as a run is begun with. -/
theorem Balanced.began {a : Account} (h : Balanced a m) (n : Nat) :
    Balanced { a with asked := a.asked + n } (Host.setNow (wrap (m.timeline.now + n)) m) where
  clock := by
    show wrap (m.timeline.now + n) = wrap (a.base + (a.asked + n) + m.stats.dmaCycles)
    rw [h.clock, wrap_wrap_add, Account.time]
    congr 1
    omega
  cycles := h.cycles

/-- The clock goes on by as many cycles as the engine took, and they are counted. -/
theorem Balanced.drained {a : Account} (h : Balanced a m) {n : Nat} {m₁ : Machine δ α υ}
    (ht : takeStolen m = (n + 1, m₁)) :
    Balanced a (Host.setNow (wrap (m.timeline.now + (n + 1))) m₁) := by
  obtain ⟨hp, hd, hb⟩ := takeStolen_eq_succ ht
  refine ⟨?_, fun hu hf => ?_⟩
  · show wrap (m.timeline.now + (n + 1)) = wrap (a.base + a.asked + m₁.stats.dmaCycles)
    rw [h.clock, wrap_wrap_add, hd, wrap_add_wrap, Account.time, Nat.add_assoc]
  · have hc := h.cycles hu hf
    rw [hp] at hc
    show a.charged = m₁.stats.dmaCycles + m₁.bus.pendingCycles
    rw [hd, hb, wrap_of_lt (hc ▸ hf), hc]
    rfl

variable [Board δ]

/-- **What a service pass charges is pending after it.** -/
theorem Balanced.service {a : Account} (h : Balanced a m) {r : Except Fault Unit}
    (ho : Op.outcome (serviceChannels m) = (r, m')) :
    Balanced { a with charged := a.charged + m.engine.charges m.bus } m' := by
  have hs : Balanced { a with charged := a.charged + m.engine.charges m.bus } m.served := by
    refine ⟨h.clock, fun hu hf => ?_⟩
    have hc := h.cycles hu (Nat.lt_of_le_of_lt (Nat.le_add_right ..) hf)
    have hp : m.served.bus.pendingCycles = _ := Engine.service_charges m.engine m.bus
    show a.charged + _ = m.stats.dmaCycles + _
    omega
  have hb := serviceChannels_beside m
  rw [ho] at hb
  exact hs.beside hb

theorem Balanced.bus {a : Account} (h : Balanced a m) {c : Bus.Call δ} {r : Except Fault c.Answer}
    (ho : Op.outcome (onBus (Bus.perform c) m) = (r, m')) : Balanced (a.afterBus c) m' := by
  have kept : ∀ {op : Op (Bus δ) c.Answer}, Op.outcome (onBus op m) = (r, m') →
      (∀ b, (Op.outcome (op b)).2.pendingCycles = b.pendingCycles) → Balanced a m' :=
    fun ho hb => h.beside ((onBus_beside hb).of_outcome ho)
  have chains : Chains fun b b' : Bus δ => b'.pendingCycles = b.pendingCycles :=
    ⟨fun _ => rfl, fun h k => k.trans h⟩
  cases c with
  | read w x => exact kept ho (Bus.pendingCycles_read w x)
  | write w x v => exact kept ho (Bus.pendingCycles_write w x v)
  | readPort p => exact kept ho (Channel.read_port chains (Bus.pendingCycles_read _ _))
  | writePort p v =>
      exact kept ho (Channel.write_port chains (fun v => Bus.pendingCycles_write _ _ v) v)
  | takeException | inspect | changeBoard => exact kept ho fun _ => rfl
  | loadRam bytes =>
      refine kept ho fun b => ?_
      simp only [Bus.perform, Bus.loadRam]
      split <;> rfl
  | charge n =>
      cases ho
      refine ⟨h.clock, fun hu hf => ?_⟩
      have := h.cycles hu (Nat.lt_of_le_of_lt (Nat.le_add_right ..) hf)
      show a.charged + n = m.stats.dmaCycles + (m.bus.pendingCycles + n)
      omega
  | takeCycles | reset =>
      cases ho
      exact ⟨h.clock, fun hu => absurd hu Bool.false_ne_true⟩

/-- **A call that fires nothing keeps the balance.** -/
theorem Balanced.perform {a : Account} (h : Balanced a m) {handler : Handler δ α υ} {bound : Nat}
    {c : Call δ α υ} {r : Except Fault c.Answer} (hc : ¬c.Fires)
    (hp : Machine.perform handler bound c m = some (r, m')) : Balanced (a.afterCall c r) m' := by
  cases c with
  | read | write | writeMasked | request | takeEdge | schedule | capture | observe =>
      exact h.beside (perform_beside (by exact trivial) hp)
  | bus c =>
      simp only [Machine.perform] at hp
      exact h.bus (Option.some.inj hp)
  | deschedule id =>
      simp only [Machine.perform] at hp
      cases hp
      exact h.congr rfl rfl rfl
  | schedulePeriodic name period action =>
      simp only [Machine.perform] at hp
      exact h.schedulePeriodic (Option.some.inj hp)
  | cancelPeriodic handle =>
      simp only [Machine.perform] at hp
      cases hp
      exact h.cancelPeriodic handle
  | reset =>
      simp only [Machine.perform] at hp
      cases hp
      exact ⟨rfl, fun _ _ => rfl⟩
  | restore s =>
      simp only [Machine.perform] at hp
      obtain ⟨e, he⟩ | ⟨m₁, he, ht, -, -, hs, hb⟩ := restore_cases s m <;>
        rw [Op.toRun_apply, he] at hp <;> cases hp
      · exact h
      · refine ⟨?_, fun _ _ => ?_⟩
        · rw [Account.time, ht, hs]
          exact (wrap_of_lt s.now.toNat_lt_size).symm
        · rw [hs, hb]
          rfl
  | run | runToNext => exact absurd trivial hc

omit [Board δ] in
theorem cycles?_of_not_fires {c : Call δ α υ} (hc : ¬c.Fires) (m : Machine δ α υ) :
    c.cycles? m = none := by
  cases c <;> first | rfl | exact absurd trivial hc

omit [Board δ] in
theorem afterCall_of_fires {c : Call δ α υ} (hc : c.Fires) (a : Account)
    (r : Except Fault c.Answer) : a.afterCall c r = a := by
  cases c <;> first | rfl | cases hc

/-! ### The balance of a history -/

variable {handler : Handler δ α υ}

/-- The books have balanced throughout, no run has left a cycle pending, and the books balance
now. -/
structure InBalance (j : Journal δ α υ) (m : Machine δ α υ) : Prop where
  agrees : Throughout (fun k i => (account k).Agrees i) j
  drained : Throughout Drained j
  balanced : Balanced (account j) m

theorem account_snoc (j : Journal δ α υ) (i : Item δ α υ) :
    account (j ++ [i]) = (account j).after i := by
  rw [account, List.foldl_append]
  rfl

/-- One more item. -/
theorem InBalance.snoc {j : Journal δ α υ} (h : InBalance j m) {i : Item δ α υ}
    (ha : (account j).Agrees i) (hd : Drained j i) (hb : Balanced ((account j).after i) m') :
    InBalance (j ++ [i]) m' :=
  ⟨throughout_snoc.2 ⟨h.agrees, ha⟩, throughout_snoc.2 ⟨h.drained, hd⟩, by rwa [account_snoc]⟩

theorem InBalance.silent {j : Journal δ α υ} (h : InBalance j m) (hb : Balanced (account j) m') :
    InBalance (j ++ []) m' := by
  rw [List.append_nil]
  exact ⟨h.agrees, h.drained, hb⟩

/-- The beginning of a call that fires nothing. -/
theorem InBalance.began {j : Journal δ α υ} (h : InBalance j m) {c : Call δ α υ}
    (hc : c.cycles? m = none) : InBalance (j ++ [.began c m]) m :=
  h.snoc h.balanced.accounted trivial (by rw [Account.after, hc]; exact h.balanced)

/-- **Every move keeps the balance.** -/
theorem Move.inBalance {ls ls' : List (Level δ α υ)} {h j : Journal δ α υ} (hk : InBalance h m)
    (hm : Move handler ls m j ls' m') : InBalance (h ++ j) m' := by
  have pair : ∀ (i k : Item δ α υ), h ++ [i, k] = (h ++ [i]) ++ [k] := fun i k => by simp
  have popped : ∀ {target : Nat} {e : Event (Task α)} {t : Timeline (Task α)},
      m.timeline.popDue target = some (e, t) → Balanced (account h) (Host.setTimeline t m) :=
    fun hp => hk.balanced.congr (Timeline.popDue_eq_some_iff.1 hp).2.2.1 rfl rfl
  have fired : ∀ {target : Nat} {e : Event (Task α)} {t : Timeline (Task α)},
      m.timeline.popDue target = some (e, t) → e.task ≠ .service →
      InBalance (h ++ [.fired e (target - e.triggerAt) (Host.setTimeline t m)])
        (Host.setTimeline t m) := fun {_ e _} hp he => by
      refine hk.snoc (popped hp).accounted trivial ?_
      rw [Account.after]
      cases ht : e.task <;> first | exact popped hp | exact absurd ht he
  cases hm with
  | @call _ _ _ bound c r hc hp =>
      rw [pair]
      have hb := hk.began (cycles?_of_not_fires hc m)
      have hb' := hb.balanced.perform hc hp
      exact hb.snoc hb'.accounted
        (by cases r <;> first | trivial | exact fun hf => absurd hf hc) hb'
  | idle hn =>
      rw [pair]
      have hb := hk.began (c := .runToNext) hn
      exact hb.snoc hb.balanced.accounted (fun _ => .inr ⟨by simp, hn⟩) hb.balanced
  | @began _ _ c n hc hn =>
      refine hk.snoc hk.balanced.accounted trivial ?_
      rw [Account.after, hn]
      exact hk.balanced.began n
  | service hp he ho =>
      refine hk.snoc (popped hp).accounted trivial ?_
      rw [Account.after, he]
      exact (popped hp).service ho
  | resume hp he ho =>
      have hb := fired hp (by rw [he]; exact nofun)
      exact ⟨hb.agrees, hb.drained, hb.balanced.beside ((resumeChannel_beside _ _).of_outcome ho)⟩
  | client hp he | periodic hp he =>
      rw [pair]
      have hb := fired hp (by rw [he]; exact nofun)
      exact hb.snoc hb.balanced.accounted trivial hb.balanced
  | next => exact hk.snoc hk.balanced.accounted trivial hk.balanced
  | rearm _ ho => exact hk.silent (hk.balanced.armPeriodic ho)
  | lapsed | failed => exact hk.silent hk.balanced
  | drained _ ht => exact hk.silent (hk.balanced.drained ht)
  | ended hc a _ hb =>
      have ha := hk.balanced
      rw [← afterCall_of_fires hc (account h) (.ok a)] at ha
      exact hk.snoc ha.accounted (fun _ => .inl hb) ha
  | aborted hc e =>
      have ha := hk.balanced
      rw [← afterCall_of_fires hc (account h) (.error e)] at ha
      exact hk.snoc ha.accounted trivial ha

/-- Makes a timer, charges the bus, runs past the timer, and asks for a period of zero. -/
def nestedScript : Script (interface BareBoard Unit Unit) Unit := do
  let _ ← Script.call (I := interface BareBoard Unit Unit) (.schedule "timer" 3 ())
  let _ ← Script.call (I := interface BareBoard Unit Unit) (.bus (.charge 7))
  let _ ← Script.call (I := interface BareBoard Unit Unit) (.run 10)
  let _ ← Script.attempt (I := interface BareBoard Unit Unit) (.schedulePeriodic "none" 0 ())
  return ()

/-- The timer's callback runs for five cycles. -/
def nestedHandler : Handler BareBoard Unit Unit := fun _ _ => do
  let _ ← Script.call (I := interface BareBoard Unit Unit) (.run 5)
  return ()

/-- Runs the clock around. -/
def turnScript : Script (interface BareBoard Unit Unit) Unit := do
  let _ ← Script.call (I := interface BareBoard Unit Unit) (.run 1)
  Script.call (I := interface BareBoard Unit Unit) (.run 18446744073709551615)

end Machine

end DmaMachine
