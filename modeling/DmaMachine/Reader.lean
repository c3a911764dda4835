/-!
# Readers

A *reader* takes tokens off the front of a list and makes a value of them; it leaves the tokens
behind them alone, or fails.  Bytes and characters are read alike.

A reader is *local* (`Reader.Local`) when tokens behind those that it took do not matter: with
more of them it takes the same and makes the same.  Readers that look for the end of a run of
tokens are not local; all that count what they take are, and locality passes to sequences of them
(`Local.bind`, `Local.times`).
-/

namespace DmaMachine

/-- Takes tokens off the front of a list. -/
abbrev Reader (τ α : Type) := StateT (List τ) Option α

namespace Reader

variable {τ α β : Type}

/-- Reads nothing. -/
def fail : Reader τ α := fun _ => none

/-- The next token. -/
def next : Reader τ τ
  | [] => none
  | t :: ts => some (t, ts)

/-- The next token, which must satisfy `p`. -/
def satisfy (p : τ → Bool) : Reader τ τ
  | [] => none
  | t :: ts => if p t then some (t, ts) else none

/-- The next token is `t`. -/
def expect [DecidableEq τ] (t : τ) : Reader τ Unit
  | [] => none
  | u :: ts => if u = t then some ((), ts) else none

/-- The next `n` tokens. -/
def take (n : Nat) : Reader τ (List τ) := fun ts =>
  if n ≤ ts.length then some (ts.take n, ts.drop n) else none

/-- The tokens in front that satisfy `p`. -/
def takeWhile (p : τ → Bool) : Reader τ (List τ) := fun ts =>
  some (ts.takeWhile p, ts.dropWhile p)

/-- The tokens in front that satisfy `p`, `n` of them at most. -/
def takeUpTo (p : τ → Bool) : Nat → Reader τ (List τ)
  | 0, ts => some ([], ts)
  | _ + 1, [] => some ([], [])
  | n + 1, t :: ts => if p t then (takeUpTo p n ts).map fun (us, ts) => (t :: us, ts)
      else some ([], t :: ts)

/-- Passes over the tokens in front that satisfy `p`. -/
def skipWhile (p : τ → Bool) : Reader τ Unit := fun ts => some ((), ts.dropWhile p)

/-- The next token, which stays. -/
def peek? : Reader τ (Option τ) := fun ts => some (ts.head?, ts)

/-- The same reader `n` times. -/
def times (r : Reader τ α) : Nat → Reader τ (List α)
  | 0 => pure []
  | n + 1 => do
      let a ← r
      let as ← times r n
      return a :: as

/-- What a reader makes of a whole list. -/
def all? (r : Reader τ α) (ts : List τ) : Option α :=
  match r ts with
  | some (a, []) => some a
  | _ => none

/-! ### Locality -/

/-- Tokens behind those that the reader took do not matter. -/
def Local (r : Reader τ α) : Prop :=
  ∀ (ts : List τ) (a : α) (rest more : List τ),
    r ts = some (a, rest) → r (ts ++ more) = some (a, rest ++ more)

theorem Local.pure (a : α) : Local (pure a : Reader τ α) := by
  intro ts b rest more h
  cases h
  rfl

theorem Local.next : Local (next : Reader τ τ) := by
  intro ts a rest more h
  cases ts with
  | nil => simp [Reader.next] at h
  | cons t ts =>
      cases h
      rfl

theorem Local.take (n : Nat) : Local (take n : Reader τ (List τ)) := by
  intro ts a rest more h
  simp only [Reader.take] at h ⊢
  split at h
  · next hn =>
      cases h
      rw [if_pos (by simp only [List.length_append]; omega), List.take_append_of_le_length hn,
        List.drop_append_of_le_length hn]
  · cases h

theorem Local.fail : Local (fail : Reader τ α) := fun _ _ _ _ h => nomatch h

theorem Local.bind {r : Reader τ α} {f : α → Reader τ β} (hr : Local r) (hf : ∀ a, Local (f a)) :
    Local (r >>= f) := by
  intro ts b rest more h
  change (r ts).bind (fun x => f x.1 x.2) = _ at h
  change (r (ts ++ more)).bind (fun x => f x.1 x.2) = _
  cases hts : r ts with
  | none => simp [hts] at h
  | some x =>
      rw [hts] at h
      rw [hr _ _ _ more hts]
      exact hf x.1 _ _ _ more h

theorem Local.map {r : Reader τ α} (f : α → β) (hr : Local r) : Local (f <$> r) := by
  rw [← bind_pure_comp]
  exact hr.bind fun a => Local.pure (f a)

theorem Local.times {r : Reader τ α} (hr : Local r) (n : Nat) : Local (times r n) := by
  induction n with
  | zero => exact Local.pure []
  | succ n ih => exact hr.bind fun a => ih.bind fun as => Local.pure (a :: as)

/-- A local reader that takes all of a list does not read a proper part of it. -/
theorem Local.eq_none_of_append {r : Reader τ α} (hr : Local r) {ts us : List τ} {a : α}
    (h : r (ts ++ us) = some (a, [])) (hus : us ≠ []) : r ts = none := by
  cases hts : r ts with
  | none => rfl
  | some x =>
      have := (hr _ _ _ us hts).symm.trans h
      simp [hus] at this

end Reader

end DmaMachine
