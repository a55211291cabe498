import Brainfuck.Tape
import Brainfuck.Proofs.Guarded.Words

/-!
# The tape with its checks

The operations of the tape are total: a cell that is not there reads as zero, a position modulo
nothing is the position itself, and a difference stops at zero. This module has the operations once
more, as a machine with words and memory carries them out (see `Brainfuck.Proofs.Guarded.Words`):
every access to the cells, every sum, difference and remainder is checked, and the fault is the
answer if a check fails.

On a tape that is well-formed and not longer than memory allows (`Tape.Sound`), no check fails, and
the operations are the total ones (`Guarded.write_eq`, `Guarded.moveRight_eq` and the lemmas beside
them). Being well-formed is needed as well as enough: the checks of a read say just that
(`Guarded.cell_eq_ok_iff`).
-/

namespace Brainfuck

namespace Guarded

/-! ### Operations -/

/-- The current cell. -/
def cell (t : Tape) : Except Fault UInt8 := read t.cells t.pointer

/-- Write `v` into the current cell. -/
def write (v : UInt8) (t : Tape) : Except Fault Tape := do
  let cells ← store t.cells t.pointer v
  return { t with cells := cells }

/-- Put the pointer at position `p`, counted around the tape. -/
def moveTo (p : Nat) (t : Tape) : Except Fault Tape := do
  let pointer ← mod p t.length
  return { t with pointer := pointer }

/-- Move the pointer one cell to the right. -/
def moveRight (t : Tape) : Except Fault Tape := do
  let next ← add t.pointer 1
  let pointer ← mod next t.length
  return { t with pointer := pointer }

/-- Move the pointer one cell to the left. The last position is worked out first, whether it is
needed or not. -/
def moveLeft (t : Tape) : Except Fault Tape := do
  let last ← sub t.length 1
  return { t with pointer := if t.pointer = 0 then last else t.pointer - 1 }

/-- Add one to the current cell, modulo 256. -/
def increment (t : Tape) : Except Fault Tape := do
  let v ← cell t
  write (v + 1) t

/-- Subtract one from the current cell, modulo 256. -/
def decrement (t : Tape) : Except Fault Tape := do
  let v ← cell t
  write (v - 1) t

/-- Do the same `n` times. -/
def repeated (f : Tape → Except Fault Tape) : Nat → Tape → Except Fault Tape
  | 0, t => .ok t
  | n + 1, t => do f (← repeated f n t)

end Guarded

/-- The pointer is on the tape, and the tape fits in memory. -/
structure Tape.Sound (t : Tape) : Prop where
  /-- The pointer is on the tape. -/
  wellFormed : t.WellFormed
  /-- The cells fit in memory. -/
  length_le : t.length ≤ Guarded.maxLength

namespace Tape.Sound

variable {t : Tape}

theorem write (h : t.Sound) (v : UInt8) : (t.write v).Sound :=
  ⟨h.wellFormed.write v, Nat.le_trans (Nat.le_of_eq (length_write t v)) h.length_le⟩

theorem moveTo (h : t.Sound) (p : Nat) : (t.moveTo p).Sound := ⟨h.wellFormed.moveTo p, h.length_le⟩

theorem moveRight (h : t.Sound) : t.moveRight.Sound := ⟨h.wellFormed.moveRight, h.length_le⟩

theorem moveLeft (h : t.Sound) : t.moveLeft.Sound := ⟨h.wellFormed.moveLeft, h.length_le⟩

theorem increment (h : t.Sound) : t.increment.Sound := h.write _

theorem decrement (h : t.Sound) : t.decrement.Sound := h.write _

theorem ofLength {n : Nat} (h : n ≤ Guarded.maxLength) : (Tape.ofLength n).Sound := by
  refine ⟨wellFormed_ofLength n, ?_⟩
  rw [length_ofLength]
  exact Nat.max_le.mpr ⟨h, by decide⟩

/-- What keeps a tape sound can be repeated. -/
theorem iterate {g : Tape → Tape} (hg : ∀ {t : Tape}, t.Sound → (g t).Sound) (h : t.Sound)
    (n : Nat) : (Nat.repeat g n t).Sound := by
  induction n with
  | zero => exact h
  | succ n ih => exact hg ih

end Tape.Sound

namespace Guarded

variable {t : Tape}

/-- **A read meets no fault if and only if the tape is well-formed.** -/
theorem cell_eq_ok_iff : cell t = .ok t.cell ↔ t.WellFormed := by
  unfold cell read Tape.WellFormed Tape.length
  split
  · rename_i h
    simp [Tape.cell, Array.getD, h]
  · rename_i h
    simp [h]

theorem cell_eq (h : t.Sound) : cell t = .ok t.cell := cell_eq_ok_iff.mpr h.wellFormed

theorem write_eq (h : t.Sound) (v : UInt8) : write v t = .ok (t.write v) := by
  have hpointer : t.pointer < t.cells.size := h.wellFormed
  rw [write, store, dif_pos hpointer, ok_bind, Tape.write, Array.setIfInBounds, dif_pos hpointer]
  rfl

theorem moveTo_eq (h : t.Sound) (p : Nat) : moveTo p t = .ok (t.moveTo p) := by
  rw [moveTo, mod_eq h.wellFormed.length_pos]
  rfl

theorem moveRight_eq (h : t.Sound) : moveRight t = .ok t.moveRight := by
  rw [moveRight, add_eq (succ_lt_words h.wellFormed h.length_le), ok_bind,
    mod_eq h.wellFormed.length_pos]
  rfl

theorem moveLeft_eq (h : t.Sound) : moveLeft t = .ok t.moveLeft := by
  rw [moveLeft, sub_eq h.wellFormed.length_pos]
  rfl

theorem increment_eq (h : t.Sound) : increment t = .ok t.increment := by
  rw [increment, cell_eq h, ok_bind, write_eq h]
  rfl

theorem decrement_eq (h : t.Sound) : decrement t = .ok t.decrement := by
  rw [decrement, cell_eq h, ok_bind, write_eq h]
  rfl

/-- What meets no fault on sound tapes, and keeps them sound, can be repeated. -/
theorem repeated_eq {f : Tape → Except Fault Tape} {g : Tape → Tape}
    (hf : ∀ {t : Tape}, t.Sound → f t = .ok (g t)) (hg : ∀ {t : Tape}, t.Sound → (g t).Sound)
    (h : t.Sound) (n : Nat) : repeated f n t = .ok (Nat.repeat g n t) := by
  induction n with
  | zero => rfl
  | succ n ih =>
    rw [repeated, ih, ok_bind, hf (h.iterate hg n)]
    rfl

/-- On a tape without cells, every operation meets a fault. -/
example :
    cell ⟨#[], 0⟩ = .error .outOfRange ∧ write 1 ⟨#[], 0⟩ = .error .outOfRange ∧
      moveTo 7 ⟨#[], 0⟩ = .error .divisionByZero ∧ moveRight ⟨#[], 0⟩ = .error .divisionByZero ∧
      moveLeft ⟨#[], 0⟩ = .error .underflow :=
  ⟨rfl, rfl, rfl, rfl, rfl⟩

end Guarded

end Brainfuck
