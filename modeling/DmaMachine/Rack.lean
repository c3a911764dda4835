import DmaMachine.Bus.Board

/-!
# A rack of devices

A *rack* is a board whose devices answer in the order in which they were attached: of two that
share an address, the earlier one gets it.  A rack keeps a transcript of what its devices were
asked, in order, until it is cleared.

Two kinds of device go into a rack.

* A *queue* answers reads of any width with its next entry, and with zero when it has none; what
  is written to it is gone.
* A *bank* holds words, one every four bytes, and decodes whole words only.

A device may be limited to a number of accesses, after which it refuses every one.
-/

namespace DmaMachine

/-- What a device does with an access. -/
inductive DeviceKind where
  | queue (entries : List UInt32)
  | bank (words : Array UInt32)

/-- A device with the range that it answers. -/
structure Device where
  kind : DeviceKind
  base : UInt32
  /-- Number of addresses, from the base on. -/
  size : UInt32
  /-- Accesses after which the device refuses, if it ever does. -/
  limit : Option Nat := none
  /-- Accesses so far. -/
  used : Nat := 0

namespace Device

/-- Whether a physical address is the device's. -/
def answers (d : Device) (p : UInt32) : Bool := d.base ≤ p && p ≤ d.base + d.size - 1

/-- Whether the device decodes narrow accesses. -/
def narrow (d : Device) : Bool :=
  match d.kind with
  | .queue _ => true
  | .bank _ => false

/-- Whether the device refuses from now on. -/
def spent (d : Device) : Bool :=
  match d.limit with
  | none => false
  | some n => n < d.used

/-- The fault of a refused access. -/
def refusal (d : Device) (offset : UInt32) : Fault := .invalidAccess (d.base + offset)

/-- Appends entries to a queue. -/
def push (entries : List UInt32) (d : Device) : Device :=
  match d.kind with
  | .queue old => { d with kind := .queue (old ++ entries) }
  | .bank _ => d

def read (offset : UInt32) : Op Device UInt32 := fun d =>
  let d := { d with used := d.used + 1 }
  if d.spent then .error (d.refusal offset) d
  else
    match d.kind with
    | .queue [] => .ok 0 d
    | .queue (v :: rest) => .ok v { d with kind := .queue rest }
    | .bank words =>
        match words[offset.toNat / 4]? with
        | some v => .ok v d
        | none => .error (d.refusal offset) d

def write (offset v : UInt32) : Op Device Unit := fun d =>
  let d := { d with used := d.used + 1 }
  if d.spent then .error (d.refusal offset) d
  else
    match d.kind with
    | .queue _ => .ok () d
    | .bank words =>
        if offset.toNat / 4 < words.size then
          .ok () { d with kind := .bank (words.setIfInBounds (offset.toNat / 4) v) }
        else .error (d.refusal offset) d

end Device

/-- One access in the transcript of a rack. -/
structure Access where
  /-- The device's place in the rack. -/
  device : Nat
  isWrite : Bool
  width : Width
  offset : UInt32
  /-- What was read, or was to be written; zero for a read that was refused. -/
  value : UInt32
  refused : Bool

/-- Devices in the order of attachment, and the transcript. -/
structure Rack where
  devices : Array Device := #[]
  transcript : Array Access := #[]

namespace Rack

/-- Adds a device after all others. -/
def attach (d : Device) (r : Rack) : Rack := { r with devices := r.devices.push d }

/-- Applies a function to the device in a place. -/
def update (i : Nat) (f : Device → Device) (r : Rack) : Rack :=
  { r with devices := r.devices.modify i f }

def clearTranscript (r : Rack) : Rack := { r with transcript := #[] }

/-- The first device that answers a physical address. -/
def slotAt (r : Rack) (p : UInt32) : Option Slot :=
  match r.devices.findIdx? (·.answers p) with
  | none => none
  | some i => r.devices[i]?.map fun d => ⟨i, d.base, d.narrow⟩

def read (slot : Slot) (w : Width) (offset : UInt32) : Op Rack UInt32 := fun r =>
  match r.devices[slot.index]? with
  | none => .ok 0 r
  | some d =>
      match d.read offset with
      | .ok v d =>
          let v := v &&& w.mask
          .ok v ⟨r.devices.setIfInBounds slot.index d,
            r.transcript.push ⟨slot.index, false, w, offset, v, false⟩⟩
      | .error e d =>
          .error e ⟨r.devices.setIfInBounds slot.index d,
            r.transcript.push ⟨slot.index, false, w, offset, 0, true⟩⟩

def write (slot : Slot) (w : Width) (offset v : UInt32) : Op Rack Unit := fun r =>
  match r.devices[slot.index]? with
  | none => .ok () r
  | some d =>
      match d.write offset v with
      | .ok () d =>
          .ok () ⟨r.devices.setIfInBounds slot.index d,
            r.transcript.push ⟨slot.index, true, w, offset, v, false⟩⟩
      | .error e d =>
          .error e ⟨r.devices.setIfInBounds slot.index d,
            r.transcript.push ⟨slot.index, true, w, offset, v, true⟩⟩

instance : Board Rack := ⟨slotAt, read, write⟩

end Rack

end DmaMachine
