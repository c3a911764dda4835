import DmaMachine.Reader

/-!
# Layouts

A *layout* says how values of a type stand in an image: what bytes a value is written as, and how
one is read off the front of a list of bytes.  A layout is *faithful* to a value
(`Layout.Faithful`) when the bytes written for it read back as that value, whatever follows them;
it is *local* when its reader is.

A faithful and local layout reads no proper part of what it wrote
(`Layout.Faithful.read_eq_none`): an image that breaks off is never mistaken for another value.
-/

namespace DmaMachine

/-- How values of `α` are written and read. -/
structure Layout (α : Type) where
  write : α → List UInt8
  read : Reader UInt8 α

namespace Layout

variable {α β : Type}

/-- What is written for `a` reads back as `a`, whatever follows. -/
def Faithful (l : Layout α) (a : α) : Prop :=
  ∀ rest : List UInt8, l.read (l.write a ++ rest) = some (a, rest)

/-- What comes behind a value does not matter to reading it. -/
def Local (l : Layout α) : Prop := l.read.Local

/-- **An image that breaks off is not read.** -/
theorem Faithful.read_eq_none {l : Layout α} {a : α} (hl : l.Local) (h : l.Faithful a)
    {bs cs : List UInt8} (hbs : bs ++ cs = l.write a) (hcs : cs ≠ []) : l.read bs = none := by
  have := h []
  rw [List.append_nil, ← hbs] at this
  exact Reader.Local.eq_none_of_append hl this hcs

/-! ### Layouts of their own -/

/-- A byte. -/
def byte : Layout UInt8 where
  write b := [b]
  read := Reader.next

theorem byte_faithful (b : UInt8) : byte.Faithful b := fun _ => rfl

theorem byte_local : byte.Local := Reader.Local.next

/-! ### Layouts from layouts -/

/-- One value, then another. -/
def pair (l : Layout α) (k : Layout β) : Layout (α × β) where
  write x := l.write x.1 ++ k.write x.2
  read := do
    let a ← l.read
    let b ← k.read
    return (a, b)

/-- Values that stand for values of another type; some may stand for none. -/
def through (l : Layout α) (represent : β → α) (interpret : α → Option β) : Layout β where
  write b := l.write (represent b)
  read := fun bs =>
    match l.read bs with
    | none => none
    | some (a, rest) => (interpret a).map fun b => (b, rest)

/-- A count, then as many values. -/
def counted (count : Layout Nat) (l : Layout α) : Layout (List α) where
  write as := count.write as.length ++ as.flatMap l.write
  read := do
    let n ← count.read
    l.read.times n

/-- A count, then as many bytes. -/
def bytes (count : Layout Nat) : Layout (List UInt8) where
  write bs := count.write bs.length ++ bs
  read := do
    let n ← count.read
    Reader.take n

/-! ### Laws -/

theorem Faithful.pair {l : Layout α} {k : Layout β} {a : α} {b : β} (ha : l.Faithful a)
    (hb : k.Faithful b) : (l.pair k).Faithful (a, b) := by
  intro rest
  change (l.read (l.write a ++ k.write b ++ rest)).bind _ = _
  rw [List.append_assoc, ha]
  change (k.read (k.write b ++ rest)).bind _ = _
  rw [hb]
  rfl

theorem Local.pair {l : Layout α} {k : Layout β} (hl : l.Local) (hk : k.Local) :
    (l.pair k).Local :=
  Reader.Local.bind hl fun a => Reader.Local.bind hk fun b => Reader.Local.pure (a, b)

theorem Faithful.through {l : Layout α} {represent : β → α} {interpret : α → Option β} {b : β}
    (hb : l.Faithful (represent b)) (h : interpret (represent b) = some b) :
    (l.through represent interpret).Faithful b := by
  intro rest
  simp [Layout.through, hb rest, h]

theorem Local.through {l : Layout α} (hl : l.Local) (represent : β → α)
    (interpret : α → Option β) : (l.through represent interpret).Local := by
  intro bs b rest more h
  simp only [Layout.through] at h ⊢
  split at h
  · cases h
  · next a r hr =>
      rw [hl _ _ _ more hr]
      obtain ⟨b', hb', hx⟩ := Option.map_eq_some_iff.1 h
      cases hx
      simp [hb']

theorem Faithful.times {l : Layout α} : ∀ {as : List α}, (∀ a ∈ as, l.Faithful a) →
    ∀ rest, l.read.times as.length (as.flatMap l.write ++ rest) = some (as, rest)
  | [], _, _ => rfl
  | a :: as, h, rest => by
      change (l.read (l.write a ++ as.flatMap l.write ++ rest)).bind _ = _
      rw [List.append_assoc, h a (List.mem_cons_self ..)]
      change (l.read.times as.length (as.flatMap l.write ++ rest)).bind _ = _
      rw [Faithful.times fun b hb => h b (List.mem_cons_of_mem _ hb)]
      rfl

theorem Faithful.counted {count : Layout Nat} {l : Layout α} {as : List α}
    (hn : count.Faithful as.length) (h : ∀ a ∈ as, l.Faithful a) :
    (Layout.counted count l).Faithful as := by
  intro rest
  change (count.read (count.write as.length ++ as.flatMap l.write ++ rest)).bind _ = _
  rw [List.append_assoc, hn]
  exact Faithful.times h rest

theorem Local.counted {count : Layout Nat} {l : Layout α} (hn : count.Local) (hl : l.Local) :
    (Layout.counted count l).Local :=
  Reader.Local.bind hn fun n => Reader.Local.times hl n

theorem Faithful.bytes {count : Layout Nat} {bs : List UInt8} (hn : count.Faithful bs.length) :
    (Layout.bytes count).Faithful bs := by
  intro rest
  change (count.read (count.write bs.length ++ bs ++ rest)).bind _ = _
  rw [List.append_assoc, hn]
  change Reader.take bs.length (bs ++ rest) = _
  simp [Reader.take]

theorem Local.bytes {count : Layout Nat} (hn : count.Local) : (Layout.bytes count).Local :=
  Reader.Local.bind hn fun n => Reader.Local.take n

end Layout

end DmaMachine
