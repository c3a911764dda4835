import DmaMachine.Bus.Call
import DmaMachine.Proofs.Channel.Twins

/-!
# Twin buses

Nothing reads the address that raised the exception flag last.  So buses that differ in this alone
are kindred, and a client cannot tell them apart either.

* `Bus.akin_kindred`: what a master does to such buses comes to the same.
* `Bus.perform_twin`: **so does every call of a client.**
-/

namespace DmaMachine

namespace Bus

variable {δ α : Type}

/-- The buses are the same but for the address of the last exception. -/
def Akin (b c : Bus δ) : Prop := ∃ lastFault, c = { b with lastFault }

/-- The operation does the same whatever the address of the last exception. -/
abbrev Twin (op : Op (Bus δ) α) : Prop := Op.Twins (· = ·) Akin op op

theorem onBoard_twin (op : Op δ α) : Twin (onBoard op) := by
  rintro b _ ⟨last, rfl⟩
  simp only [onBoard]
  cases op b.board with
  | ok a board => exact .ok rfl ⟨last, rfl⟩
  | error e board => exact .error e ⟨last, rfl⟩

variable [Board δ]

theorem read_twin (w : Width) (a : UInt32) : Twin (read (δ := δ) w a) := by
  rintro b c ⟨last, rfl⟩
  unfold read
  dsimp only
  split
  · exact .error _ ⟨last, rfl⟩
  · split
    · exact .ok rfl ⟨last, rfl⟩
    · exact .ok rfl ⟨some a, rfl⟩
    all_goals
      split
      · exact .ok rfl ⟨last, rfl⟩
      · exact onBoard_twin _ _ _ ⟨last, rfl⟩

theorem write_twin (w : Width) (a v : UInt32) : Twin (write (δ := δ) w a v) := by
  rintro b c ⟨last, rfl⟩
  unfold write
  dsimp only
  split
  · exact .error _ ⟨last, rfl⟩
  · split
    · exact .ok rfl ⟨last, rfl⟩
    · exact .ok rfl ⟨some a, rfl⟩
    all_goals
      split
      · exact .ok rfl ⟨last, rfl⟩
      · exact onBoard_twin _ _ _ ⟨last, rfl⟩

/-- **What a master does to the buses comes to the same.** -/
theorem akin_kindred : Kindred (Akin (δ := δ)) where
  read := read_twin
  write := write_twin
  exception := by
    rintro b _ ⟨last, rfl⟩
    rfl
  takeException := by
    rintro b _ ⟨last, rfl⟩
    exact ⟨rfl, last, rfl⟩
  charge := by
    rintro n b _ ⟨last, rfl⟩
    exact ⟨last, rfl⟩

/-- **Every call of a client does the same.** -/
theorem perform_twin (c : Call δ) : Twin (perform c) := by
  cases c with
  | read w a => exact read_twin w a
  | write w a v => exact write_twin w a v
  | readPort p => exact akin_kindred.readPort p
  | writePort p v => exact akin_kindred.writePort p v
  | takeException | charge | takeCycles | inspect | changeBoard =>
      rintro b _ ⟨last, rfl⟩
      exact .ok rfl ⟨last, rfl⟩
  | reset =>
      rintro b _ ⟨last, rfl⟩
      exact .ok rfl ⟨_, rfl⟩
  | loadRam bytes =>
      rintro b _ ⟨last, rfl⟩
      simp only [perform, loadRam]
      split
      · exact .ok rfl ⟨last, rfl⟩
      · exact .error _ ⟨last, rfl⟩

end Bus

end DmaMachine
