/-!
# Instructions

A program is a sequence of bytes. Eight of them are instructions; every other
byte is a comment and does nothing. Two of the eight are brackets, and only they
matter to the question which `]` closes which `[`.
-/

namespace Brainfuck

/-- The two sides of a loop. -/
inductive Bracket where
  /-- The bracket `[`, where a loop starts. -/
  | opening
  /-- The bracket `]`, where a loop ends. -/
  | closing
  deriving DecidableEq, Repr

namespace Bracket

/-- The byte a bracket is written as. -/
def byte : Bracket → UInt8
  | .opening => 91
  | .closing => 93

/-- The bracket a byte stands for. -/
def ofByte? (b : UInt8) : Option Bracket :=
  if b = 91 then some .opening else if b = 93 then some .closing else none

/-- A bracket in quotes, as messages show it. -/
def quoted : Bracket → String
  | .opening => "'['"
  | .closing => "']'"

theorem ofByte?_eq_some_iff {b : UInt8} {k : Bracket} : ofByte? b = some k ↔ b = k.byte := by
  unfold ofByte? byte
  cases k <;> split <;> simp_all

theorem ofByte?_eq_none_iff {b : UInt8} : ofByte? b = none ↔ b ≠ 91 ∧ b ≠ 93 := by
  unfold ofByte?
  split <;> simp_all

end Bracket

/-- What one byte of a program tells the machine to do. -/
inductive Instruction where
  /-- The byte `>`: move the pointer one cell to the right. -/
  | right
  /-- The byte `<`: move the pointer one cell to the left. -/
  | left
  /-- The byte `+`: add one to the current cell. -/
  | increment
  /-- The byte `-`: subtract one from the current cell. -/
  | decrement
  /-- The byte `.`: write the current cell. -/
  | output
  /-- The byte `,`: read a byte into the current cell. -/
  | input
  /-- A bracket: enter, skip, repeat or leave a loop. -/
  | bracket (k : Bracket)
  deriving DecidableEq, Repr

namespace Instruction

/-- The byte an instruction is written as. -/
def byte : Instruction → UInt8
  | .right => 62
  | .left => 60
  | .increment => 43
  | .decrement => 45
  | .output => 46
  | .input => 44
  | .bracket k => k.byte

/-- The instruction a byte stands for; none for a comment byte. -/
def ofByte? (b : UInt8) : Option Instruction :=
  if b = 62 then some .right
  else if b = 60 then some .left
  else if b = 43 then some .increment
  else if b = 45 then some .decrement
  else if b = 46 then some .output
  else if b = 44 then some .input
  else (Bracket.ofByte? b).map .bracket

@[simp] theorem ofByte?_byte (i : Instruction) : ofByte? i.byte = some i := by
  cases i with
  | bracket k => cases k <;> rfl
  | _ => rfl

theorem ofByte?_eq_some_iff {b : UInt8} {i : Instruction} : ofByte? b = some i ↔ b = i.byte := by
  constructor
  · intro h
    unfold ofByte? at h
    (repeat' split at h) <;> try (cases h; assumption)
    obtain ⟨k, hk, rfl⟩ := Option.map_eq_some_iff.1 h
    exact Bracket.ofByte?_eq_some_iff.1 hk
  · rintro rfl
    exact ofByte?_byte i

theorem ne_byte {b : UInt8} (h : ofByte? b = none) (i : Instruction) : b ≠ i.byte := by
  rintro rfl
  rw [ofByte?_byte] at h
  cases h

end Instruction

end Brainfuck
