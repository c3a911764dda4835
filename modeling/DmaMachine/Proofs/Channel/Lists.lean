import DmaMachine.Proofs.Channel.Units

/-!
# Walks through a list

A linked list in memory is its first node: a *header*, which says how many words follow it, where
the next node is, and whether this one is the last.  `Ram.node m a i` is the address of node `i` of
the list that begins at `a`, read off memory as it stands.

A walk goes from node to node and puts the words of each into the port.

* `goOn_node`, `goOn_nodes`: **one node, and then several**, as long as nothing fails.
* `Walkable.completes`, `Walkable.overflows`: a list that ends within the limit is walked to its
  end, and one that goes on past it is given up there.
-/

namespace DmaMachine

/-! ### Lists in memory -/

namespace Ram

/-- The address of node `i` of the list that begins at an address. -/
def node (m : Ram) (a : UInt32) : Nat → UInt32
  | 0 => a &&& wordAddressMask
  | i + 1 => m.word (m.node a i) &&& wordAddressMask

/-- The header of node `i`. -/
def header (m : Ram) (a : UInt32) (i : Nat) : UInt32 := m.word (m.node a i)

/-- Whether node `i` is marked as the last one. -/
def ends (m : Ram) (a : UInt32) (i : Nat) : Bool := bit (m.header a i) 23

/-- Words of node `i`. -/
def nodeWords (m : Ram) (a : UInt32) (i : Nat) : Nat := (m.header a i >>> 24).toNat

/-- The addresses of the words of node `i`, which follow its header. -/
def wordAddresses (m : Ram) (a : UInt32) (i : Nat) : List UInt32 :=
  (List.range (m.nodeWords a i)).map fun j => along 4 (m.node a i) (j + 1)

/-- The words of node `i`. -/
def payload (m : Ram) (a : UInt32) (i : Nat) : List UInt32 := (m.wordAddresses a i).map m.word

/-- The words of the first `n` nodes. -/
def payloads (m : Ram) (a : UInt32) (n : Nat) : List UInt32 := (List.range n).flatMap (m.payload a)

/-- Node `i` is in memory, from its header to its last word. -/
def HasNode (m : Ram) (a : UInt32) (i : Nat) : Prop :=
  regionOf (m.node a i) = .ram ∧ ∀ x ∈ m.wordAddresses a i, regionOf x = .ram

variable (m : Ram) (a : UInt32) (i : Nat)

theorem node_eq : m.node a i &&& wordAddressMask = m.node a i := by
  have hm : wordAddressMask &&& wordAddressMask = wordAddressMask := by decide
  cases i <;> rw [node, UInt32.and_assoc, hm]

theorem node_le : m.node a i ≤ addressMask := by
  rw [← node_eq]
  exact Channel.word_and_le _

theorem aligned_node : Width.word.aligned (m.node a i) = true := by
  rw [← node_eq]
  exact aligned_wordAddress _

theorem aligned_wordAddresses : ∀ x ∈ m.wordAddresses a i, Width.word.aligned x = true := by
  intro x hx
  obtain ⟨j, -, rfl⟩ := List.mem_map.1 hx
  exact aligned_along (by decide) (m.aligned_node a i) _

theorem payloads_succ (n : Nat) : m.payloads a (n + 1) = m.payloads a n ++ m.payload a n := by
  rw [payloads, payloads, List.range_succ, List.flatMap_append, List.flatMap_singleton]

theorem length_payload : (m.payload a i).length = m.nodeWords a i := by
  rw [payload, wordAddresses, List.length_map, List.length_map, List.length_range]

end Ram

namespace Channel

/-! ### One node -/

/-- The channel is about to visit node `i`. -/
structure AtNode (m : Ram) (a : UInt32) (i : Nat) (c : Channel) : Prop where
  syncMode : c.control.syncMode = .linkedList
  direction : c.control.direction = .fromRam
  held : c.held = none
  nextNode : c.nextNode = m.node a i
  nodeCount : c.nodeCount = i

/-- The channel after a node with the given header. -/
def afterNode (header : UInt32) (c : Channel) : Channel :=
  (enterNode header c).advance .graphics (header >>> 24).toNat

/-- The accesses that move a node. -/
def nodeTouches (m : Ram) (a : UInt32) (i : Nat) : List Touch :=
  ⟨false, .word, m.node a i, m.header a i⟩ ::
    DataPort.graphics.touchesAll .fromRam (m.wordAddresses a i) (m.payload a i)

theorem AtNode.after {m : Ram} {a : UInt32} {i : Nat} {c : Channel} (h : AtNode m a i c) :
    AtNode m a (i + 1) (afterNode (m.header a i) c) where
  syncMode := h.syncMode
  direction := h.direction
  held := h.held
  nextNode := rfl
  nodeCount := congrArg (· + 1) h.nodeCount

/-- The words of a node are one stride apart, whatever the control word says of strides. -/
theorem AtNode.unitAddresses {m : Ram} {a : UInt32} {i : Nat} {c : Channel}
    (hc : AtNode m a i c) :
    unitAddresses .graphics (enterNode (m.header a i) c) (m.nodeWords a i) =
      m.wordAddresses a i := by
  have hm : (enterNode (m.header a i) c).mode .graphics = .linkedList := hc.syncMode
  have hs : (enterNode (m.header a i) c).stride .graphics = 4 := by
    rw [stride, hm]
    simp
  have ha : (enterNode (m.header a i) c).address = along 4 (m.node a i) 1 := by
    rw [← hc.nextNode]
    simp [enterNode, along]
  rw [unitAddresses_eq _ UInt32.and_le_right, hs, ha, Ram.wordAddresses]
  exact List.map_congr_left fun j _ => by rw [along_along, Nat.add_comm]

section Walks

variable {δ : Type} [Board δ] {a : UInt32} {i f : Nat} {c : Channel} {b b' : Bus δ}
  (controller : Controller) (l : List Touch)

/-- A walk from where the words of a node are over. -/
def goOn {β : Type} [Master β] (p : Peer) (n : Nat) : Op (Stage β) Status := do
  if ← Stage.channelOf (·.lastNode) then
    complete p
    return .completed
  else
    match n with
    | 0 => throw (.channel (.linkedListOverflow p.index nodeLimit (← Stage.channelOf (·.nextNode))))
    | n + 1 => if ← visitNode then walk p n else return .faulted

/-- A walk moves the words of the node at hand, and goes on. -/
theorem walk_eq {β : Type} [Master β] (p : Peer) (n : Nat) (s : Stage β) :
    walk p n s = (moveUnits p s.channel.wordsLeft >>= fun through =>
      if through then goOn p n else pure .faulted) s := by
  cases n <;> rfl

theorem walk_of_moved {β : Type} [Master β] {p : Peer} {s t : Stage β} (n : Nat)
    (h : moveUnits p s.channel.wordsLeft s = .ok true t) : walk p n s = goOn p n t := by
  rw [walk_eq, Op.bind_apply, h]
  rfl

section GoOn

variable {β : Type} [Master β] {s : Stage β}

theorem goOn_of_last (p : Peer) (n : Nat) (h : s.channel.lastNode = true) :
    goOn p n s =
      .ok .completed ⟨completed p s.channel, s.controller.request p.index, s.bus⟩ := by
  rw [goOn.eq_def, Op.bind_apply]
  simp only [Stage.channelOf, h]
  rfl

theorem goOn_zero (p : Peer) (h : s.channel.lastNode = false) :
    goOn p 0 s =
      .error (.channel (.linkedListOverflow p.index nodeLimit s.channel.nextNode)) s := by
  rw [goOn.eq_def, Op.bind_apply]
  simp only [Stage.channelOf, h]
  rfl

theorem goOn_succ (p : Peer) (n : Nat) (h : s.channel.lastNode = false) :
    goOn p (n + 1) s = (visitNode >>= fun through =>
      if through then walk p n else pure .faulted) s := by
  rw [goOn.eq_def, Op.bind_apply]
  simp only [Stage.channelOf, h]
  rfl

end GoOn

/-- A header is read, and its node entered. -/
theorem visitNode_ok {h : UInt32} (hb : b.exception = false) (hr : regionOf c.nextNode = .ram)
    (ha : Width.word.aligned c.nextNode = true) (hh : b.ram.word c.nextNode = h) :
    visitNode (Stage.mk c controller (Recorder.mk b l)) = .ok true ⟨enterNode h c, controller,
      ⟨b.charge 1, l ++ [⟨false, .word, c.nextNode, h⟩]⟩⟩ := by
  have hm : Master.read .word c.nextNode (Recorder.mk b l) =
      .ok h ⟨b, l ++ [⟨false, .word, c.nextNode, h⟩]⟩ := by
    have hm : Master.read .word c.nextNode b = .ok (b.ram.word c.nextNode) b :=
      Bus.read_ram ha hr b
    simp only [Master.read] at hm ⊢
    rw [hm, hh]
  have hs : Attempt.header.access .graphics (Stage.mk c controller (Recorder.mk b l)) =
      .ok (some (enterNode h)) ⟨c, controller, ⟨b, l ++ [⟨false, .word, c.nextNode, h⟩]⟩⟩ :=
    Op.bind_eq_ok.2 ⟨_, _, rfl, Op.bind_eq_ok.2 ⟨h, _, Stage.onBus_eq_ok.2 ⟨_, hm, rfl⟩, rfl⟩⟩
  exact Attempt.goes_through hs hb

/-- The words of a node are moved. -/
theorem moveUnits_node (hc : AtNode b.ram a i c) (hb : b.exception = false)
    (hr : b.ram.HasNode a i) (hw : DataPort.graphics.writeAll (b.ram.payload a i) b = .ok () b') :
    moveUnits .graphics (b.ram.nodeWords a i)
        (Stage.mk (enterNode (b.ram.header a i) c) controller (Recorder.mk (b.charge 1) l)) =
      .ok true ⟨afterNode (b.ram.header a i) c, controller, ⟨b'.charge (1 + b.ram.nodeWords a i),
        l ++ DataPort.graphics.touchesAll .fromRam (b.ram.wordAddresses a i)
          (b.ram.payload a i)⟩⟩ := by
  have hd : (enterNode (b.ram.header a i) c).control.direction = .fromRam := hc.direction
  have hp : DataPort.graphics.writeAll (b.ram.payload a i) (b.charge 1) = .ok () (b'.charge 1) :=
    ((Bus.charge_transparent 1).writeAll _ _).eq_ok.2 ⟨b', hw, rfl⟩
  have hv : DataPort.graphics.carryAll .fromRam (b.ram.wordAddresses a i) (b.charge 1) =
      .ok (b.ram.payload a i) (b'.charge 1) :=
    (DataPort.carryAll_fromRam DataPort.onBoard_graphics fun x hx =>
      ⟨hr.2 x hx, b.ram.aligned_wordAddresses a i x hx⟩).2 ⟨rfl, hp⟩
  rw [← hd, ← hc.unitAddresses] at hv
  have hm := moved_of_carried (p := .graphics) (c := enterNode (b.ram.header a i) c)
    (b := b.charge 1) rfl hc.held UInt32.and_le_right controller l hb
    (by rw [hc.unitAddresses]; exact hr.2) hv
  rwa [hc.unitAddresses, hd, Bus.charge_charge] at hm

/-- **A node is visited and moved**, as long as it is in memory and no device fails. -/
theorem goOn_node {m : Ram} (hm : b.ram = m) (hc : AtNode m a i c) (hl : c.lastNode = false)
    (hb : b.exception = false) (hr : m.HasNode a i)
    (hw : DataPort.graphics.writeAll (m.payload a i) b = .ok () b') :
    goOn .graphics (f + 1) (Stage.mk c controller (Recorder.mk b l)) =
      goOn .graphics f ⟨afterNode (m.header a i) c, controller,
        ⟨b'.charge (1 + m.nodeWords a i), l ++ nodeTouches m a i⟩⟩ := by
  subst hm
  have hv := visitNode_ok controller l hb (by rw [hc.nextNode]; exact hr.1)
    (by rw [hc.nextNode]; exact b.ram.aligned_node a i) rfl
  have hm := moveUnits_node controller
    (l ++ [⟨false, .word, b.ram.node a i, b.ram.header a i⟩]) hc hb hr hw
  rw [hc.nextNode] at hv
  rw [goOn_succ _ _ hl, Op.bind_apply, hv]
  rw [List.append_assoc] at hm
  exact walk_of_moved f hm

end Walks

/-! ### Several nodes -/

/-- The channel after the first `n` nodes of a list. -/
def afterNodes (m : Ram) (a : UInt32) (c : Channel) : Nat → Channel
  | 0 => c
  | n + 1 => afterNode (m.header a n) (afterNodes m a c n)

/-- The accesses that move the first `n` nodes of a list. -/
def listTouches (m : Ram) (a : UInt32) (n : Nat) : List Touch :=
  (List.range n).flatMap (nodeTouches m a)

theorem listTouches_succ (m : Ram) (a : UInt32) (n : Nat) :
    listTouches m a (n + 1) = listTouches m a n ++ nodeTouches m a n := by
  rw [listTouches, listTouches, List.range_succ, List.flatMap_append, List.flatMap_singleton]

theorem AtNode.afterNodes {m : Ram} {a : UInt32} {c : Channel} (h : AtNode m a 0 c) :
    ∀ n, AtNode m a n (afterNodes m a c n)
  | 0 => h
  | n + 1 => (h.afterNodes n).after

theorem lastNode_afterNodes {m : Ram} {a : UInt32} {c : Channel} (hl : c.lastNode = false) {n : Nat}
    (he : ∀ i, i + 1 = n → m.ends a i = false) : (afterNodes m a c n).lastNode = false := by
  cases n with
  | zero => exact hl
  | succ n => exact he n rfl

section Walks

variable {δ : Type} [Board δ] {a : UInt32} {c : Channel} {b : Bus δ} (controller : Controller)
  (l : List Touch)

/-- **Several nodes are visited and moved**, as long as none but the last of them ends the list. -/
theorem goOn_nodes (hc : AtNode b.ram a 0 c) (hl : c.lastNode = false) (hb : b.exception = false) :
    ∀ {n f : Nat} {b' : Bus δ}, (∀ i < n, b.ram.HasNode a i) →
      (∀ i, i + 1 < n → b.ram.ends a i = false) →
        DataPort.graphics.writeAll (b.ram.payloads a n) b = .ok () b' →
          goOn .graphics (n + f) (Stage.mk c controller (Recorder.mk b l)) =
            goOn .graphics f ⟨afterNodes b.ram a c n, controller,
              ⟨b'.charge (n + (b.ram.payloads a n).length), l ++ listTouches b.ram a n⟩⟩
  | 0, f, b', _, _, hw => by
      cases hw
      rw [Nat.zero_add, listTouches, List.range_zero, List.flatMap_nil, List.append_nil]
      rfl
  | n + 1, f, b', hr, he, hw => by
      rw [Ram.payloads_succ, DataPort.writeAll_append] at hw
      obtain ⟨⟨⟩, b₁, h₁, h₂⟩ := Op.bind_eq_ok.1 hw
      have hs := (DataPort.writeAll_boardOnly DataPort.onBoard_graphics _).of_ok h₁
      have ih := goOn_nodes hc hl hb (f := f + 1) (fun i hi => hr i (by omega))
        (fun i hi => he i (by omega)) h₁
      have hk := ((Bus.charge_transparent (n + (b.ram.payloads a n).length)).writeAll
        DataPort.graphics (b.ram.payload a n)).eq_ok.2 ⟨b', h₂, rfl⟩
      -- The port leaves memory as it was, and so the next node is the one that was there.
      have hm : (b₁.charge (n + (b.ram.payloads a n).length)).ram = b.ram := hs.ram
      have hk := goOn_node controller (l ++ listTouches b.ram a n) (f := f) hm (hc.afterNodes n)
        (lastNode_afterNodes hl fun i hi => he i (by omega))
        (hs.exception.trans hb) (hr n (by omega)) hk
      rw [show n + 1 + f = n + (f + 1) by omega, ih, hk, Bus.charge_charge, List.append_assoc,
        ← listTouches_succ, Ram.payloads_succ, List.length_append, Ram.length_payload]
      rw [show n + (b.ram.payloads a n).length + (1 + b.ram.nodeWords a n) =
        n + 1 + ((b.ram.payloads a n).length + b.ram.nodeWords a n) by omega]
      rfl

end Walks

/-! ### Whole lists -/

/-- What answers that a list goes on past the limit. -/
def overflow (x : UInt32) : Fault := .channel (.linkedListOverflow 2 nodeLimit x)

section Steps

variable {δ : Type} [Board δ] {a : UInt32} {n : Nat} {c d : Channel} {b b' : Bus δ}
  (controller : Controller) (l : List Touch)

/-- A step of a list goes on from the node at hand. -/
theorem step_list {β : Type} [Master β] {s : Stage β} (ha : s.channel.active = true)
    (hm : s.channel.control.syncMode = .linkedList) :
    step .graphics s = walk .graphics (nodeLimit - s.channel.nodeCount) s :=
  step_of_active (p := .graphics) nofun ha hm

/-- What a start makes of a channel that is programmed for a list. -/
theorem armed_list (hl : c.control.syncMode = .linkedList) (h : arm .graphics false c = .ok () d) :
    d.active = true ∧ d.wordsLeft = 0 ∧ d.lastNode = false ∧
      ∀ m : Ram, AtNode m c.base 0 d := by
  obtain ⟨hr, rfl⟩ := arm_eq_ok h
  have hm : c.mode .graphics = .linkedList := hl
  have hd := (refusal?_eq_none_iff.1 hr).2.2 hm
  have hc : c.load .graphics = { c with
      shadowBase := c.base, shadowBlocks := c.blocks, address := c.base &&& wordAddressMask
      nodeCount := 0, lastNode := false, held := none, wordsLeft := 0, blocksLeft := 0
      nextNode := c.base &&& wordAddressMask } := by
    rw [load]
    simp only [mode] at hm ⊢
    simp only [hm]
  refine ⟨rfl, ?_, ?_, fun m => ⟨?_, ?_, held_load _ c, ?_, ?_⟩⟩
  · rw [hc]
    rfl
  · rw [hc]
    rfl
  · simp [activate, hl]
  · rw [direction_activate, control_load, hd.2]
  · rw [hc]
    rfl
  · rw [hc]
    rfl

/-- A step of a list that was started goes to its first node. -/
theorem step_of_armed {β : Type} [Master β] (hl : c.control.syncMode = .linkedList)
    (h : arm .graphics false c = .ok () d) (x : β) :
    step .graphics (Stage.mk d controller x) =
      goOn .graphics nodeLimit (Stage.mk d controller x) := by
  obtain ⟨ha, h0, -, hs⟩ := armed_list hl h
  have hs := hs .zero
  have hm : moveUnits .graphics d.wordsLeft (Stage.mk d controller x) =
      .ok true (Stage.mk d controller x) := by
    rw [h0]
    rfl
  have ht := step_list (s := Stage.mk d controller x) ha hs.syncMode
  rwa [walk_of_moved _ hm, show (Stage.mk d controller x).channel.nodeCount = 0 from hs.nodeCount]
    at ht

/-- The first `n` nodes of a list can be walked through: the flag is down, they are in memory, none
but the last of them ends the list, and the port takes their words. -/
structure Walkable (b : Bus δ) (a : UInt32) (n : Nat) (b' : Bus δ) : Prop where
  down : b.exception = false
  inMemory : ∀ i < n, b.ram.HasNode a i
  unended : ∀ i, i + 1 < n → b.ram.ends a i = false
  taken : DataPort.graphics.writeAll (b.ram.payloads a n) b = .ok () b'

/-- A step walks through the nodes that it can. -/
theorem Walkable.step_eq (hl : c.control.syncMode = .linkedList)
    (h : arm .graphics false c = .ok () d) (hw : Walkable b c.base n b') (f : Nat)
    (hn : n + f = nodeLimit) :
    step .graphics (Stage.mk d controller (Recorder.mk b l)) =
      goOn .graphics f ⟨afterNodes b.ram c.base d n, controller,
        ⟨b'.charge (n + (b.ram.payloads c.base n).length), l ++ listTouches b.ram c.base n⟩⟩ := by
  obtain ⟨-, -, hf, hs⟩ := armed_list hl h
  rw [step_of_armed controller hl h, ← hn]
  exact goOn_nodes controller l (hs b.ram) hf hw.down hw.inMemory hw.unended hw.taken

/-- **A list that ends within the limit is walked to its end.** -/
theorem Walkable.completes (hl : c.control.syncMode = .linkedList)
    (h : arm .graphics false c = .ok () d) (hw : Walkable b c.base (n + 1) b') (hn : n < nodeLimit)
    (he : b.ram.ends c.base n = true) :
    step .graphics (Stage.mk d controller (Recorder.mk b l)) =
      .ok .completed ⟨completed .graphics (afterNodes b.ram c.base d (n + 1)),
        controller.request 2, ⟨b'.charge (n + 1 + (b.ram.payloads c.base (n + 1)).length),
          l ++ listTouches b.ram c.base (n + 1)⟩⟩ := by
  have he : (afterNodes b.ram c.base d (n + 1)).lastNode = true := he
  rw [hw.step_eq controller l hl h (nodeLimit - (n + 1)) (by omega), goOn_of_last _ _ he]
  rfl

/-- **A list that goes on past the limit is given up there.** -/
theorem Walkable.overflows (hl : c.control.syncMode = .linkedList)
    (h : arm .graphics false c = .ok () d) (hw : Walkable b c.base nodeLimit b')
    (he : ∀ i < nodeLimit, b.ram.ends c.base i = false) :
    step .graphics (Stage.mk d controller (Recorder.mk b l)) =
      .error (overflow (b.ram.node c.base nodeLimit))
        ⟨afterNodes b.ram c.base d nodeLimit, controller,
          ⟨b'.charge (nodeLimit + (b.ram.payloads c.base nodeLimit).length),
            l ++ listTouches b.ram c.base nodeLimit⟩⟩ := by
  obtain ⟨-, -, hf, hs⟩ := armed_list hl h
  have hs := (hs b.ram).afterNodes nodeLimit
  have hf := lastNode_afterNodes (m := b.ram) (a := c.base) (n := nodeLimit) hf fun i hi =>
    he i (by omega)
  rw [hw.step_eq controller l hl h 0 rfl, goOn_zero _ hf, ← hs.nextNode]
  rfl

/-- Under a raised flag, a header does not get through. -/
theorem visitNode_raised (hb : b.exception = true) (hr : regionOf d.nextNode = .ram)
    (ha : Width.word.aligned d.nextNode = true) :
    ∃ t, visitNode (Stage.mk d controller b) = .ok false t := by
  have hs : Attempt.header.access .graphics (Stage.mk d controller b) =
      .ok (some (enterNode (b.ram.word d.nextNode))) ⟨d, controller, b⟩ :=
    Op.bind_eq_ok.2 ⟨_, _, rfl, Op.bind_eq_ok.2
      ⟨_, _, Stage.onBus_eq_ok.2 ⟨_, Bus.read_ram ha hr b, rfl⟩, rfl⟩⟩
  exact ⟨_, (Attempt.header.perform_of_access hs).trans (if_pos hb)⟩

/-- **Under a raised flag, a list stops at its first header.** -/
theorem step_raised (hl : c.control.syncMode = .linkedList) (h : arm .graphics false c = .ok () d)
    (hb : b.exception = true) (hr : regionOf (b.ram.node c.base 0) = .ram) :
    ∃ t, step .graphics (Stage.mk d controller b) = .ok .faulted t := by
  obtain ⟨-, -, hf, hs⟩ := armed_list hl h
  have hs := hs b.ram
  obtain ⟨t, hv⟩ := visitNode_raised controller hb (by rw [hs.nextNode]; exact hr)
    (by rw [hs.nextNode]; exact b.ram.aligned_node _ _)
  refine ⟨t, ?_⟩
  rw [step_of_armed controller hl h, show nodeLimit = 4095 + 1 from rfl, goOn_succ _ _ hf,
    Op.bind_apply, hv]
  rfl

end Steps

end Channel

end DmaMachine
