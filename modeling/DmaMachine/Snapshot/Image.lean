import DmaMachine.Binary.Compact
import DmaMachine.Calendar.Reading
import DmaMachine.Snapshot.Codec

/-!
# Images of snapshots

The images that the machine makes and reads have numbers in compact form but for the number of a
channel, which is one byte; texts in UTF-8 and contents of RAM behind their length; and the moment
as its text in the calendar.
-/

namespace DmaMachine

namespace Layout

/-- A text in UTF-8, behind its length in bytes. -/
def text : Layout String :=
  (Layout.bytes count).through (fun s => s.toUTF8.data.toList) fun bs =>
    String.fromUTF8? bs.toByteArray

/-- Contents of RAM, behind their length. -/
def contents : Layout ByteArray :=
  (Layout.bytes count).through (fun ram => ram.data.toList) fun bs => some bs.toByteArray

end Layout

/-- The codec of the machine. -/
def Codec.standard : Codec where
  byte := Layout.byte
  word32 := Layout.word32
  word64 := Layout.word64
  length := Layout.count
  text := Layout.text
  contents := Layout.contents
  sayMoment := Timestamp.text
  readMoment := Timestamp.ofText?

namespace Snapshot

/-- The image of a snapshot. -/
def image (s : Snapshot) : List UInt8 := Codec.standard.encode s

/-- The snapshot that bytes begin with an image of. -/
def ofImage (bs : List UInt8) : Except SnapshotFault Snapshot := Codec.standard.decode bs

end Snapshot

end DmaMachine
