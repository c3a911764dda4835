import DmaMachine.Binary.Layout
import DmaMachine.Fault
import DmaMachine.Snapshot.Basic

/-!
# The format of snapshots

An *image* is a snapshot as bytes.  How numbers, lengths, texts and contents of RAM stand in it, and
what the text of a moment is, is up to a *codec* (`Codec`): the binary format and the calendar that
the images are made with.  What does not depend on them is how a snapshot is put together.  A
structure is its fields in their order, and a list is its length with its entries behind it.

* `Codec`: what a format has to provide; `Codec.Lawful`: **what is asked of it**.
* `Codec.snapshot`: the layout of a snapshot.
* `Codec.encode`, `Codec.decode`: an image is made, and read.

An image is read as a whole before its version is looked at, so bytes that are no image at all are
told from an image of another version.  Bytes behind an image do not matter.
-/

namespace DmaMachine

/-- A binary format, and the texts of moments. -/
structure Codec where
  byte : Layout UInt8
  word32 : Layout UInt32
  word64 : Layout UInt64
  /-- The number of entries of a list. -/
  length : Layout Nat
  text : Layout String
  /-- Contents of RAM. -/
  contents : Layout ByteArray
  sayMoment : Timestamp → String
  readMoment : String → Option Timestamp

namespace Codec

/-- What is asked of a codec, of each kind of value for itself: what is written for a value is read
back as that value with anything behind it, and reading takes bytes off the front without a look at
those behind.  Lengths have 64 bits, so nothing is asked of what is longer.

Nothing is asked here of the texts of moments. -/
structure Lawful (k : Codec) : Prop where
  byte_faithful : ∀ b, k.byte.Faithful b
  byte_local : k.byte.Local
  word32_faithful : ∀ w, k.word32.Faithful w
  word32_local : k.word32.Local
  word64_faithful : ∀ w, k.word64.Faithful w
  word64_local : k.word64.Local
  length_faithful : ∀ n < UInt64.size, k.length.Faithful n
  length_local : k.length.Local
  text_faithful : ∀ s : String, s.utf8ByteSize < UInt64.size → k.text.Faithful s
  text_local : k.text.Local
  contents_faithful : ∀ ram : ByteArray, ram.size < UInt64.size → k.contents.Faithful ram
  contents_local : k.contents.Local

/-! ### Layouts of structures -/

variable (k : Codec)

/-- A moment, as its text. -/
def moment : Layout Timestamp := k.text.through k.sayMoment k.readMoment

/-- The registers of a channel. -/
def channelRecord : Layout ChannelRecord :=
  (k.byte.pair (k.word32.pair (k.word32.pair k.word32))).through
    (fun r => (r.number, r.base, r.blocks, r.control))
    fun (number, base, blocks, control) => some ⟨number, base, blocks, control⟩

/-- The registers of the channels, behind their number. -/
def channelRecords : Layout (List ChannelRecord) := .counted k.length k.channelRecord

/-- A snapshot of any version. -/
def snapshot : Layout Snapshot :=
  (k.word32.pair (k.moment.pair (k.text.pair (k.word64.pair (k.word64.pair (k.word64.pair
    (k.channelRecords.pair (k.word32.pair (k.word32.pair k.contents))))))))).through
    (fun s => (s.version, s.taken, s.label, s.cycle, s.now, s.nextId, s.channels,
      s.priorityWord, s.interruptWord, s.ram))
    fun (version, taken, label, cycle, now, nextId, channels, priorityWord, interruptWord, ram) =>
      some ⟨version, taken, label, cycle, now, nextId, channels, priorityWord, interruptWord, ram⟩

/-! ### Images -/

/-- The image of a snapshot. -/
def encode (s : Snapshot) : List UInt8 := k.snapshot.write s

/-- The snapshot that bytes begin with an image of. -/
def decode (bs : List UInt8) : Except SnapshotFault Snapshot :=
  match k.snapshot.read bs with
  | none => .error .undecodable
  | some (s, _) =>
      if s.version = Snapshot.currentVersion then .ok s
      else .error (.wrongVersion Snapshot.currentVersion s.version)

end Codec

end DmaMachine
