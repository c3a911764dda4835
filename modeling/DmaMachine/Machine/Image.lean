import DmaMachine.Machine.Basic
import DmaMachine.Snapshot.Basic

/-!
# Taking and restoring snapshots

`Machine.capture` reads a snapshot off a machine, at any moment.  `Machine.restore` brings a
machine to a snapshot, or refuses it and leaves the machine as it was: a snapshot fits when it has
seven channels and as many bytes as RAM.  A restored machine is at rest, with no event pending.
-/

namespace DmaMachine

namespace Machine

variable {δ α υ : Type}

/-- The registers of a channel, as a snapshot has them. -/
def channelRecord (p : Peer) (c : Channel) : ChannelRecord :=
  ⟨UInt8.ofNat p.index, c.base, c.blocks.bits, c.control.bits⟩

/-- The snapshot of a machine. -/
def capture (label : String) (taken : Timestamp) (m : Machine δ α υ) : Snapshot where
  version := Snapshot.currentVersion
  taken := taken
  label := label
  cycle := UInt64.ofNat m.timeline.now
  now := UInt64.ofNat m.timeline.now
  nextId := UInt64.ofNat m.timeline.nextId
  channels := Peer.all.map fun p => channelRecord p (m.engine.channel p)
  priorityWord := m.engine.controller.priorityWord
  interruptWord := m.engine.controller.readInterrupt
  ram := m.bus.ram.bytes

/-- The channels at rest with the registers of their records. -/
def restoredChannels : List Peer → List ChannelRecord → Engine → Engine
  | p :: ps, r :: rs, e =>
      restoredChannels ps rs (e.setChannel p (Channel.atRest p r.base r.blocks r.control))
  | _, _, e => e

/-- Why a snapshot does not fit a machine. -/
def misfit? (s : Snapshot) : Option SnapshotFault :=
  if s.channels.length ≠ channelCount then
    some (.wrongChannelCount channelCount s.channels.length)
  else if s.ram.size ≠ Ram.size then some (.wrongRamSize Ram.size s.ram.size)
  else none

/-- Brings the machine to a snapshot. -/
def restore (s : Snapshot) : Op (Machine δ α υ) Unit := fun m =>
  match misfit? s with
  | some fault => .error (.snapshot fault) m
  | none =>
      match Bus.loadRam s.ram m.bus.reset with
      | .error e bus => .error e { m.reset with bus }
      | .ok () bus =>
          .ok () {
            timeline := m.timeline.restore s.now.toNat s.nextId.toNat
            bus := bus
            engine :=
              { restoredChannels Peer.all s.channels {} with
                controller := Controller.ofWords s.priorityWord s.interruptWord }
            memory := m.memory }

/-! ### Laws -/

/-- The machine that a snapshot with this RAM makes of a machine. -/
def restored (s : Snapshot) (ram : Ram) (m : Machine δ α υ) : Machine δ α υ where
  timeline := m.timeline.restore s.now.toNat s.nextId.toNat
  bus := { m.bus.reset with ram }
  engine :=
    { restoredChannels Peer.all s.channels {} with
      controller := Controller.ofWords s.priorityWord s.interruptWord }
  memory := m.memory

theorem misfit?_eq_none_iff {s : Snapshot} :
    misfit? s = none ↔ s.channels.length = channelCount ∧ s.ram.size = Ram.size := by
  by_cases hc : s.channels.length = channelCount <;> by_cases hr : s.ram.size = Ram.size <;>
    simp [misfit?, hc, hr]

theorem restore_of_misfit {s : Snapshot} {fault : SnapshotFault} (h : misfit? s = some fault)
    (m : Machine δ α υ) : restore s m = .error (.snapshot fault) m := by
  simp only [restore, h]

/-- **A snapshot that fits is restored**: once the machine is reset, nothing fails. -/
theorem restore_of_fit {s : Snapshot} (h : misfit? s = none) (m : Machine δ α υ) :
    ∃ ram : Ram, ram.bytes = s.ram ∧ restore s m = .ok () (restored s ram m) := by
  refine ⟨⟨s.ram, (misfit?_eq_none_iff.1 h).2⟩, rfl, ?_⟩
  have hb := Bus.loadRam_bytes ⟨s.ram, (misfit?_eq_none_iff.1 h).2⟩ m.bus.reset
  simp only at hb
  simp only [restore, h, hb, restored]

end Machine

end DmaMachine
