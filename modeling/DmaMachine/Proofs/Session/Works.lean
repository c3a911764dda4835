import DmaMachine.Proofs.Engine.Service
import DmaMachine.Proofs.Session.Display

/-!
# The engine of the program

Of the engine two channels are in use, for drawing and for the ordering table.  A `Display` is what
there is to know of the engine and the bus: which of the two is started, how the table stands in
memory, and the cycles that are still to be taken from the processor.

* `Works`: the engine and the bus are so.
* `Works.draw`, `Works.clear`, `Works.hook`: what the program changes of them.
* `Works.service`: **a service pass sends the table first, and then clears it**.
* `Works.service_fails`: it is given up where the packet links to itself.
-/

namespace DmaMachine

namespace Frames

open Channel

/-! ### Displays -/

/-- How the ordering table stands in memory. -/
inductive Table where
  /-- Anyhow. -/
  | stale
  | cleared
  | linked
  | looped
deriving DecidableEq

namespace Table

def Holds (m : Ram) : Table → Prop
  | stale => True
  | cleared => Cleared m
  | linked => Linked m
  | looped => Looped m

/-- The table when the packet is put in. -/
def hook : Table → Table
  | cleared => linked
  | linked => looped
  | stale | looped => stale

theorem Holds.hook {t : Table} {m : Ram} (h : t.Holds m) : t.hook.Holds (hooked m) := by
  cases t with
  | stale | looped => trivial
  | cleared => exact Cleared.hooked h
  | linked => exact Linked.hooked h

end Table

/-- What there is to know of the engine and the bus. -/
structure Display where
  /-- Whether the drawing channel is started. -/
  drawing : Bool := false
  /-- Whether the channel of the ordering table is started. -/
  clearing : Bool := false
  table : Table := .stale
  /-- Cycles that are to be taken from the processor. -/
  owed : Nat := 0

namespace Display

/-- The table is sent, if it is to be. -/
def sent (d : Display) : Display :=
  if d.drawing then { d with drawing := false, owed := d.owed + (slots + 1 + packet.length) } else d

/-- The table is cleared, if it is to be. -/
def swept (d : Display) : Display :=
  if d.clearing then { d with clearing := false, owed := d.owed + slots, table := .cleared } else d

end Display

/-! ### Starting a channel -/

/-- The drawing channel is started at the head of the table. -/
def Drawing (d : Channel) : Prop :=
  ∃ c, arm .graphics false c = .ok () d ∧ c.base = tableHead ∧ c.control.syncMode = .linkedList

/-- The channel of the ordering table is started at the head of the table. -/
def Clearing (d : Channel) : Prop :=
  ∃ c, arm .orderingTable false c = .ok () d ∧ c.base = tableHead ∧ c.blocks.wordCount = slots

/-- The channel with its registers written. -/
def programmed (p : Peer) (base blocks control : UInt32) (c : Channel) : Channel :=
  { c with base := base &&& addressMask, blocks := ⟨blocks⟩, control := storedControl p control }

/-- The channel started with these registers. -/
def started (p : Peer) (base blocks control : UInt32) (c : Channel) : Channel :=
  ((programmed p base blocks control c).load p).activate

/-- A channel at rest starts when its control word asks for it. -/
theorem write_starts {p : Peer} {c : Channel} (hr : c.Rests) {v : UInt32}
    (hs : (storedControl p v).has .startBusy = true)
    (ha : refusal? p { c with control := storedControl p v } = none) :
    Channel.write p .control v 0xFFFFFFFF c =
      .ok true (Channel.load p { c with control := storedControl p v }).activate := by
  have hgoes : ¬(c.running && !(storedControl p v).has .startBusy) = true := by simp [hr.running]
  have hrises : (((storedControl p v).has .startBusy && !c.control.has .startBusy ||
      (storedControl p v).has .forceStart && !c.control.has .forceStart) && !c.active) = true := by
    simp [hs, hr.startBusy, hr.active]
  have harm : arm p c.running { c with control := storedControl p v } =
      .ok () (Channel.load p { c with control := storedControl p v }).activate :=
    (congrFun (congrArg (arm p) hr.running) _).trans (arm_of_accepted ha)
  rw [Channel.write, merge_full, writeControl]
  dsimp only
  rw [if_neg hgoes, if_pos hrises, harm]

/-- Whether a programming is accepted is up to the control word. -/
theorem accepted {p : Peer} {control : UInt32}
    (h : refusal? p { control := storedControl p control } = none) (base blocks : UInt32)
    (c : Channel) : refusal? p (programmed p base blocks control c) = none :=
  (refusal?_of_control rfl).trans h

theorem drawing_started (c : Channel) :
    Drawing (started .graphics tableHead 0 0x01000401 c) :=
  ⟨programmed .graphics tableHead 0 0x01000401 c,
    arm_of_accepted (accepted (by decide) _ _ c),
    (by decide : tableHead &&& addressMask = tableHead),
    (by decide : (storedControl .graphics 0x01000401).syncMode = .linkedList)⟩

theorem clearing_started (c : Channel) :
    Clearing (started .orderingTable tableHead (UInt32.ofNat slots) 0x11000000 c) :=
  ⟨programmed .orderingTable tableHead (UInt32.ofNat slots) 0x11000000 c,
    arm_of_accepted (accepted (by decide) _ _ c),
    (by decide : tableHead &&& addressMask = tableHead),
    (by decide : Blocks.wordCount ⟨UInt32.ofNat slots⟩ = slots)⟩

/-! ### The engine and the bus -/

/-- A channel is started, or it rests. -/
def Either (started : Bool) (P : Channel → Prop) (c : Channel) : Prop :=
  if started then P c else c.Rests

/-- The value of the priority register that the program is run with: the channels may all run, and
the lower the number the more urgent. -/
def priorities : UInt32 := 0x0FEDCBA9

/-- The engine and the bus are so. -/
structure Works (d : Display) (e : Engine) (b : Bus Sink) : Prop where
  graphics : Either d.drawing Drawing (e.channel .graphics)
  orderingTable : Either d.clearing Clearing (e.channel .orderingTable)
  others : ∀ p, p ≠ .graphics → p ≠ .orderingTable → (e.channel p).active = false
  priority : e.controller.priorityWord = priorities
  down : b.exception = false
  owed : b.pendingCycles = d.owed
  holds : d.table.Holds b.ram

namespace Works

variable {d : Display} {e : Engine} {b : Bus Sink}

/-- The channel of the ordering table steps. -/
theorem clears (h : Works d e b) (hc : d.clearing = true) :
    ∃ t, Engine.step .orderingTable (e, b) = .ok .completed t ∧ Works d.swept t.1 t.2 := by
  obtain ⟨hg, ho, hq, hp, hb, hw, -⟩ := h
  rw [hc] at ho
  obtain ⟨c, ha, hbase, hcount⟩ := ho
  obtain ⟨t, hs, hcl, hr, hd, hn⟩ := step_clears e.controller ha hbase hcount hb
  obtain ⟨u, hu, hch⟩ := Engine.step_of_channel (s := (e, b)) hs
  obtain ⟨-, hne, hk⟩ := Engine.step_settles hu
  refine ⟨_, hu, ?_⟩
  rw [Display.swept, if_pos hc]
  refine ⟨?_, ?_, fun q h1 h2 => ?_, hk.trans hp, hd, hn.trans (congrArg (· + slots) hw), hcl⟩
  · rw [hne _ (by decide)]
    exact hg
  · rw [hch]
    exact hr
  · rw [hne q h2]
    exact hq q h1 h2

/-- The drawing channel steps, and the table has the packet in it. -/
theorem sends (h : Works d e b) (hd : d.drawing = true) (ht : d.table = .linked) :
    ∃ t, Engine.step .graphics (e, b) = .ok .completed t ∧ Works d.sent t.1 t.2 := by
  obtain ⟨hg, ho, hq, hp, hb, hw, hm⟩ := h
  rw [hd] at hg
  rw [ht] at hm
  obtain ⟨c, ha, hbase, hmode⟩ := hg
  obtain ⟨t, hs, hram, hr, hx, hn⟩ := step_sends e.controller ha hbase hmode hm hb
  obtain ⟨u, hu, hch⟩ := Engine.step_of_channel (s := (e, b)) hs
  obtain ⟨-, hne, hk⟩ := Engine.step_settles hu
  refine ⟨_, hu, ?_⟩
  rw [Display.sent, if_pos hd]
  refine ⟨?_, ?_, fun q h1 h2 => ?_, hk.trans hp, hx, hn.trans (congrArg (· + _) hw), ?_⟩
  · rw [hch]
    exact hr
  · rw [hne _ (by decide)]
    exact ho
  · rw [hne q h1]
    exact hq q h1 h2
  · rw [ht, hram]
    exact hm

/-- The drawing channel steps, and the packet links to itself. -/
theorem loops (h : Works d e b) (hd : d.drawing = true) (ht : d.table = .looped) :
    ∃ t, Engine.step .graphics (e, b) = .error (overflow packetBase) t := by
  have hg := h.graphics
  have hm := h.holds
  rw [hd] at hg
  rw [ht] at hm
  obtain ⟨c, ha, hbase, hmode⟩ := hg
  obtain ⟨t, hs⟩ := step_loops e.controller ha hbase hmode hm h.down
  exact ⟨_, by rw [Engine.step_eq]; dsimp only; rw [hs]⟩

/-- A channel at rest is passed over. -/
theorem passes {p : Peer} (h : (e.channel p).active = false) (ps : List Peer) :
    Engine.serviceEach (p :: ps) (e, b) = Engine.serviceEach ps (e, b) := by
  rw [Engine.serviceEach]
  dsimp only
  rw [if_neg (ne_true_of_eq_false h)]

theorem active_of_arm {p : Peer} {c d : Channel} (h : arm p false c = .ok () d) :
    d.active = true := by
  obtain ⟨-, rfl⟩ := arm_eq_ok h
  rfl

/-- With all channels enabled they are serviced in the order of their numbers. -/
theorem order_eq (h : Works d e b) : e.controller.order = Peer.all := by
  have hp : ∀ k : Controller, k.priorityWord = priorities →
      k.order = ({ priorityWord := priorities } : Controller).order := fun k hk => by
    simp only [Controller.order, Controller.enabled, Controller.priority, hk]
    rfl
  have hf : Peer.all.reverse.filter (fun p =>
      ({ priorityWord := priorities } : Controller).enabled p.index) = Peer.all.reverse := by decide
  rw [hp _ h.priority, Controller.order, hf]
  simp [Peer.all, List.mergeSort, List.MergeSort.Internal.splitInTwo, Controller.priority,
    Peer.index, priorities]

/-- The pass comes to the channel of the ordering table. -/
theorem service_swept (h : Works d e b) :
    ∃ outcomes t, Engine.serviceEach [.disc, .sound, .expansion, .orderingTable] (e, b) =
      .ok outcomes t ∧ (∀ o ∈ outcomes, o.2 = .completed) ∧ Works d.swept t.1 t.2 := by
  rw [passes (h.others _ (by decide) (by decide)), passes (h.others _ (by decide) (by decide)),
    passes (h.others _ (by decide) (by decide))]
  cases hc : d.clearing with
  | false =>
      have ho := h.orderingTable
      rw [hc] at ho
      rw [passes ho.active, Display.swept, if_neg (ne_true_of_eq_false hc)]
      exact ⟨[], _, rfl, by simp, h⟩
  | true =>
      obtain ⟨t, hs, hw⟩ := h.clears hc
      have ho := h.orderingTable
      rw [hc] at ho
      obtain ⟨c, ha, -⟩ := ho
      refine ⟨[(.orderingTable, .completed)], t, ?_, by simp, hw⟩
      rw [Engine.serviceEach]
      dsimp only
      rw [if_pos (active_of_arm ha), hs]
      rfl

/-- **A service pass** sends the table first, and then clears it. -/
theorem service (h : Works d e b) (hl : d.drawing = true → d.table = .linked) :
    ∃ outcomes t, Engine.service (e, b) = .ok outcomes t ∧ (∀ o ∈ outcomes, o.2 = .completed) ∧
      Works d.sent.swept t.1 t.2 := by
  rw [Engine.service, h.order_eq, Peer.all, passes (h.others _ (by decide) (by decide)),
    passes (h.others _ (by decide) (by decide))]
  have hg := h.graphics
  cases hd : d.drawing with
  | false =>
      rw [hd] at hg
      rw [passes hg.active, Display.sent, if_neg (ne_true_of_eq_false hd)]
      exact h.service_swept
  | true =>
      rw [hd] at hg
      obtain ⟨c, ha, -⟩ := hg
      obtain ⟨⟨e', b'⟩, hs, hw⟩ := h.sends hd (hl hd)
      obtain ⟨outcomes, t, ht, ho, hw'⟩ := hw.service_swept
      refine ⟨(.graphics, .completed) :: outcomes, t, ?_, List.forall_mem_cons.2 ⟨rfl, ho⟩, hw'⟩
      rw [Engine.serviceEach]
      dsimp only
      rw [if_pos (active_of_arm ha), hs]
      dsimp only
      rw [ht]

/-- **A service pass is given up** when the packet links to itself. -/
theorem service_fails (h : Works d e b) (hd : d.drawing = true) (ht : d.table = .looped) :
    ∃ t, Engine.service (e, b) = .error (overflow packetBase) t := by
  obtain ⟨t, hs⟩ := h.loops hd ht
  have hg := h.graphics
  rw [hd] at hg
  obtain ⟨c, ha, -⟩ := hg
  refine ⟨t, ?_⟩
  rw [Engine.service, h.order_eq, Peer.all, passes (h.others _ (by decide) (by decide)),
    passes (h.others _ (by decide) (by decide)), Engine.serviceEach]
  dsimp only
  rw [if_pos (active_of_arm ha), hs]

/-! ### What the program changes -/

theorem enabled (h : Works d e b) (p : Peer) : e.controller.enabled p.index = true := by
  rw [Controller.enabled, h.priority]
  cases p <;> decide

theorem draw (h : Works d e b) {c : Channel} (hc : Drawing c) :
    Works { d with drawing := true } (e.setChannel .graphics c) b := by
  have hne : ∀ q, q ≠ .graphics → (e.setChannel .graphics c).channel q = e.channel q :=
    fun q hq => by rw [Engine.channel_setChannel, if_neg hq]
  refine ⟨?_, ?_, fun q h1 h2 => ?_, h.priority, h.down, h.owed, h.holds⟩
  · rw [Engine.channel_setChannel, if_pos rfl]
    exact hc
  · rw [hne _ (by decide)]
    exact h.orderingTable
  · rw [hne q h1]
    exact h.others q h1 h2

theorem clear (h : Works d e b) {c : Channel} (hc : Clearing c) :
    Works { d with clearing := true } (e.setChannel .orderingTable c) b := by
  have hne : ∀ q, q ≠ .orderingTable → (e.setChannel .orderingTable c).channel q = e.channel q :=
    fun q hq => by rw [Engine.channel_setChannel, if_neg hq]
  refine ⟨?_, ?_, fun q h1 h2 => ?_, h.priority, h.down, h.owed, h.holds⟩
  · rw [hne _ (by decide)]
    exact h.graphics
  · rw [Engine.channel_setChannel, if_pos rfl]
    exact hc
  · rw [hne q h2]
    exact h.others q h1 h2

/-- The packet is put in. -/
theorem hook (h : Works d e b) :
    Works { d with table := d.table.hook } e { b with ram := hooked b.ram } :=
  ⟨h.graphics, h.orderingTable, h.others, h.priority, h.down, h.owed, h.holds.hook⟩

end Works

end Frames

end DmaMachine
