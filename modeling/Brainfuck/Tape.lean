/-!
# The tape

A tape is a row of byte cells and a pointer to one of them. The row is circular:
moving off either end comes back at the other. Cell arithmetic wraps modulo 256,
which is what `UInt8` arithmetic does.

The operations are total on all values of the type. On a *well-formed* tape, one
whose pointer is on the tape, they also mean what they say: reading gives the cell
under the pointer, and writing changes it. Every tape the operations build is
well-formed (`wellFormed_ofLength` and the lemmas after it).
-/

namespace Brainfuck

/-- A circular row of byte cells and the position of the current one. -/
structure Tape where
  /-- The cells, from position 0 on. -/
  cells : Array UInt8
  /-- The position of the current cell. -/
  pointer : Nat
  deriving DecidableEq, Repr

namespace Tape

/-- The number of cells of a tape when nothing else is asked for. -/
def defaultLength : Nat := 65536

/-- A tape of `n` zero cells, or of one cell when `n` is 0. -/
def ofLength (n : Nat) : Tape := ⟨Array.replicate (max n 1) 0, 0⟩

instance : Inhabited Tape := ⟨ofLength defaultLength⟩

/-- The number of cells. -/
def length (t : Tape) : Nat := t.cells.size

/-- The current cell. -/
def cell (t : Tape) : UInt8 := t.cells.getD t.pointer 0

/-- Write `v` into the current cell. -/
def write (v : UInt8) (t : Tape) : Tape := { t with cells := t.cells.setIfInBounds t.pointer v }

/-- Put the pointer at position `p`, counted around the tape. -/
def moveTo (p : Nat) (t : Tape) : Tape := { t with pointer := p % t.cells.size }

/-- Move the pointer one cell to the right; the last cell is followed by the first. -/
def moveRight (t : Tape) : Tape := { t with pointer := (t.pointer + 1) % t.cells.size }

/-- Move the pointer one cell to the left; the first cell is preceded by the last. -/
def moveLeft (t : Tape) : Tape :=
  { t with pointer := if t.pointer = 0 then t.cells.size - 1 else t.pointer - 1 }

/-- Add one to the current cell, modulo 256. -/
def increment (t : Tape) : Tape := t.write (t.cell + 1)

/-- Subtract one from the current cell, modulo 256. -/
def decrement (t : Tape) : Tape := t.write (t.cell - 1)

/-- The cells that are not zero, each with its position. -/
def nonzero (t : Tape) : List (Nat × UInt8) :=
  t.cells.toList.zipIdx.filterMap fun (v, i) => if v = 0 then none else some (i, v)

/-! ### Well-formed tapes -/

/-- The pointer is on the tape; in particular there is a cell. -/
def WellFormed (t : Tape) : Prop := t.pointer < t.length

theorem WellFormed.length_pos {t : Tape} (h : t.WellFormed) : 0 < t.length :=
  Nat.lt_of_le_of_lt (Nat.zero_le _) h

@[simp] theorem length_ofLength (n : Nat) : (ofLength n).length = max n 1 := by
  simp [ofLength, length]

@[simp] theorem length_write (t : Tape) (v : UInt8) : (t.write v).length = t.length := by
  simp [write, length]

@[simp] theorem length_moveTo (t : Tape) (p : Nat) : (t.moveTo p).length = t.length := rfl

@[simp] theorem length_moveRight (t : Tape) : t.moveRight.length = t.length := rfl

@[simp] theorem length_moveLeft (t : Tape) : t.moveLeft.length = t.length := rfl

@[simp] theorem length_increment (t : Tape) : t.increment.length = t.length := length_write ..

@[simp] theorem length_decrement (t : Tape) : t.decrement.length = t.length := length_write ..

@[simp] theorem pointer_write (t : Tape) (v : UInt8) : (t.write v).pointer = t.pointer := rfl

theorem wellFormed_ofLength (n : Nat) : (ofLength n).WellFormed := by
  unfold WellFormed
  rw [length_ofLength]
  exact Nat.lt_of_lt_of_le Nat.zero_lt_one (Nat.le_max_right n 1)

theorem WellFormed.write {t : Tape} (h : t.WellFormed) (v : UInt8) : (t.write v).WellFormed := by
  simpa [WellFormed] using h

theorem WellFormed.moveTo {t : Tape} (h : t.WellFormed) (p : Nat) : (t.moveTo p).WellFormed :=
  Nat.mod_lt p h.length_pos

theorem WellFormed.moveRight {t : Tape} (h : t.WellFormed) : t.moveRight.WellFormed :=
  Nat.mod_lt _ h.length_pos

theorem WellFormed.moveLeft {t : Tape} (h : t.WellFormed) : t.moveLeft.WellFormed := by
  have := h.length_pos
  unfold WellFormed length Tape.moveLeft at *
  dsimp only
  split <;> omega

/-- A move to the left undoes a move to the right, at both ends of the tape too. -/
theorem pointer_moveLeft_eq_iff {t : Tape} {p : Nat} (h : t.WellFormed) (hp : p < t.length) :
    t.moveLeft.pointer = p ↔ (p + 1) % t.length = t.pointer := by
  have hpointer : t.pointer < t.cells.size := h
  have hp' : p < t.cells.size := hp
  unfold moveLeft length
  dsimp only
  rcases Nat.lt_or_eq_of_le (Nat.succ_le_of_lt hp') with hlt | heq
  · rw [Nat.mod_eq_of_lt hlt]
    split <;> omega
  · rw [show p + 1 = t.cells.size from heq, Nat.mod_self]
    split <;> omega

theorem cell_write {t : Tape} (h : t.WellFormed) (v : UInt8) : (t.write v).cell = v := by
  have : t.pointer < t.cells.size := h
  simp [write, cell, Array.getD_eq_getD_getElem?, this]

theorem WellFormed.increment {t : Tape} (h : t.WellFormed) : t.increment.WellFormed := h.write _

theorem WellFormed.decrement {t : Tape} (h : t.WellFormed) : t.decrement.WellFormed := h.write _

end Tape

end Brainfuck
