import DmaMachine.Snapshot.Image

/-!
# Images read back

An image is a snapshot in full: reading it gives the snapshot, whatever bytes follow, and an image
that breaks off anywhere is no image.  A codec promises both of numbers, lengths, texts and contents
one by one (`Codec.Lawful`), and from there they pass to the layout of a snapshot, one field after
another.

Two things are asked of the snapshot.  The lengths that stand in the image have eight bytes, so
texts and lists must not be longer (`Codec.Fits`); and a moment is written as its text, so it
must be one that its text says.

* `Codec.Lawful.snapshot_local`, `Codec.Lawful.snapshot_faithful`: the layout of a snapshot is
  local, and faithful to every snapshot that fits.
* `Codec.decode_encode`: **what an image reads as**, and that no proper part of one is read.
* `Codec.standard_lawful`: the codec of the machine keeps its promises.
-/

namespace DmaMachine

namespace Codec

variable {k : Codec}

/-! ### Fields -/

/-- A moment reads back if its text says what it is. -/
theorem Lawful.moment_faithful (hk : k.Lawful) {t : Timestamp}
    (h : (k.sayMoment t).utf8ByteSize < UInt64.size) (ht : k.readMoment (k.sayMoment t) = some t) :
    k.moment.Faithful t := .through (hk.text_faithful _ h) ht

theorem Lawful.moment_local (hk : k.Lawful) : k.moment.Local := .through hk.text_local _ _

theorem Lawful.channelRecord_faithful (hk : k.Lawful) (r : ChannelRecord) :
    k.channelRecord.Faithful r :=
  .through (.pair (hk.byte_faithful _) (.pair (hk.word32_faithful _)
    (.pair (hk.word32_faithful _) (hk.word32_faithful _)))) rfl

theorem Lawful.channelRecord_local (hk : k.Lawful) : k.channelRecord.Local :=
  .through (.pair hk.byte_local (.pair hk.word32_local (.pair hk.word32_local hk.word32_local))) _ _

theorem Lawful.channelRecords_faithful (hk : k.Lawful) {rs : List ChannelRecord}
    (h : rs.length < UInt64.size) : k.channelRecords.Faithful rs :=
  .counted (hk.length_faithful _ h) fun r _ => hk.channelRecord_faithful r

theorem Lawful.channelRecords_local (hk : k.Lawful) : k.channelRecords.Local :=
  .counted hk.length_local hk.channelRecord_local

/-! ### Snapshots -/

/-- Every length in the image is one that eight bytes can hold. -/
structure Fits (k : Codec) (s : Snapshot) : Prop where
  moment : (k.sayMoment s.taken).utf8ByteSize < UInt64.size
  label : s.label.utf8ByteSize < UInt64.size
  channels : s.channels.length < UInt64.size
  ram : s.ram.size < UInt64.size

theorem Lawful.snapshot_faithful (hk : k.Lawful) {s : Snapshot} (h : k.Fits s)
    (ht : k.readMoment (k.sayMoment s.taken) = some s.taken) : k.snapshot.Faithful s := by
  refine .through ?_ rfl
  exact .pair (hk.word32_faithful _) (.pair (hk.moment_faithful h.moment ht)
    (.pair (hk.text_faithful _ h.label) (.pair (hk.word64_faithful _)
    (.pair (hk.word64_faithful _) (.pair (hk.word64_faithful _)
    (.pair (hk.channelRecords_faithful h.channels)
    (.pair (hk.word32_faithful _) (.pair (hk.word32_faithful _)
      (hk.contents_faithful _ h.ram)))))))))

theorem Lawful.snapshot_local (hk : k.Lawful) : k.snapshot.Local := by
  refine .through ?_ _ _
  exact .pair hk.word32_local (.pair hk.moment_local (.pair hk.text_local
    (.pair hk.word64_local (.pair hk.word64_local (.pair hk.word64_local
    (.pair hk.channelRecords_local (.pair hk.word32_local (.pair hk.word32_local
      hk.contents_local))))))))

end Codec

/-! ### The codec of the machine -/

namespace Layout

theorem toByteArray_toList (bytes : ByteArray) : bytes.data.toList.toByteArray = bytes := by
  apply ByteArray.ext
  rw [List.data_toByteArray, Array.toArray_toList]

theorem text_faithful {s : String} (h : s.utf8ByteSize < UInt64.size) : text.Faithful s := by
  refine .through (.bytes (count_faithful ?_)) ?_
  · rw [Array.length_toList]
    exact h
  · rw [toByteArray_toList]
    exact dif_pos s.isValidUTF8

theorem contents_faithful {ram : ByteArray} (h : ram.size < UInt64.size) :
    contents.Faithful ram := by
  refine .through (.bytes (count_faithful ?_)) ?_
  · rw [Array.length_toList]
    exact h
  · rw [toByteArray_toList]

end Layout

namespace Codec

/-- **The codec of the machine keeps its promises.** -/
theorem standard_lawful : standard.Lawful where
  byte_faithful := Layout.byte_faithful
  byte_local := Layout.byte_local
  word32_faithful := Layout.word32_faithful
  word32_local := Layout.word32_local
  word64_faithful := Layout.word64_faithful
  word64_local := Layout.word64_local
  length_faithful _ := Layout.count_faithful
  length_local := Layout.count_local
  text_faithful _ := Layout.text_faithful
  text_local := .through (.bytes Layout.count_local) _ _
  contents_faithful _ := Layout.contents_faithful
  contents_local := .through (.bytes Layout.count_local) _ _

/-! ### Images -/

variable {k : Codec}

/-- **An image reads back**: with any bytes behind it, as the snapshot if the version is the
current one, and as one of a wrong version if it is not.  An image that breaks off is refused,
wherever it does. -/
theorem decode_encode (hk : k.Lawful) (s : Snapshot) (h : k.Fits s)
    (ht : k.readMoment (k.sayMoment s.taken) = some s.taken) :
    (∀ rest : List UInt8, k.decode (k.encode s ++ rest) =
      if s.version = Snapshot.currentVersion then .ok s
      else .error (.wrongVersion Snapshot.currentVersion s.version)) ∧
    ∀ bs cs : List UInt8, bs ++ cs = k.encode s → cs ≠ [] → k.decode bs = .error .undecodable := by
  have hf := hk.snapshot_faithful h ht
  constructor
  · intro rest
    have hr : k.snapshot.read (k.encode s ++ rest) = some (s, rest) := hf rest
    simp only [decode, hr]
  · intro bs cs hbs hcs
    have hn : k.snapshot.read bs = none := hf.read_eq_none hk.snapshot_local hbs hcs
    simp only [decode, hn]

/-- A snapshot with a label of several bytes a character and with numbers of every width. -/
def sample : Snapshot where
  version := 1
  taken := ⟨1700000000, 120000000⟩
  label := "größe ∅"
  cycle := 250
  now := 251
  nextId := 0x100000000
  channels := [⟨2, 0x1FFFFC, 0x10000, 0xFFFF⟩, ⟨255, 0, 0xFFFFFFFF, 0x100⟩]
  priorityWord := 0x07654321
  interruptWord := 0x80FF0000
  ram := ⟨#[0, 251, 255]⟩

theorem decode_encode_sample :
    standard.Lawful ∧ standard.Fits sample ∧
      standard.readMoment (standard.sayMoment sample.taken) = some sample.taken ∧
      standard.decode (standard.encode sample ++ [7]) = .ok sample ∧
      standard.decode ((standard.encode sample).take 40) = .error .undecodable := by
  have hf : standard.Fits sample := ⟨by decide, by decide, by decide, by decide⟩
  have ht : standard.readMoment (standard.sayMoment sample.taken) = some sample.taken := by decide
  refine ⟨standard_lawful, hf, ht, (decode_encode standard_lawful sample hf ht).1 [7], ?_⟩
  exact (decode_encode standard_lawful sample hf ht).2 _ ((standard.encode sample).drop 40)
    (List.take_append_drop ..) (by decide)

end Codec

end DmaMachine
