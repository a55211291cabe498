import Brainfuck.Interpreter.Step

/-!
# The step table

One line of text for each step of a run, under a header of two lines.
-/

namespace Brainfuck

namespace Report

/-- The header of the step table. -/
def stepHeader : String :=
  "STEP | IP    | PTR   | CELL | INSTR | ACTION\n" ++
    "-----+-------+-------+------+-------+" ++ String.ofList (List.replicate 48 '-')

/-- A number, padded with blanks on the right to a width of at least `width`. -/
def padded (width n : Nat) : String :=
  let digits := toString n
  digits ++ String.ofList (List.replicate (width - digits.length) ' ')

/-- The byte of an instruction if it has a shape of its own, and else a question mark. -/
def instructionColumn (b : UInt8) : Char :=
  if 0x21 ≤ b ∧ b ≤ 0x7e then Char.ofNat b.toNat else '?'

/-- What a step did, in words. -/
def describe (s : Step) : String :=
  match s.action with
  | .moved pointer => s!"Moved pointer head to index {pointer}"
  | .incremented v => s!"Increment cell[{s.pointer}] from {s.cell} to {v}"
  | .decremented v => s!"Decrement cell[{s.pointer}] from {s.cell} to {v}"
  | .wrote b => s!"Output byte {b}"
  | .read b => s!"Read byte from input -> {b}"
  | .readEnd => "Read byte from input -> EOF"
  | .skipped close => s!"Cell is 0; jump forward to matching ']' at IP {close}"
  | .entered depth => s!"Enter loop (cell != 0, depth {depth})"
  | .repeated start => s!"Cell != 0; jump back to '[' at IP {start}"
  | .left depth => s!"Exit loop (cell is 0, depth {depth})"
  | .nothing => "No-op"

/-- One row of the step table. -/
def stepRow (s : Step) : String :=
  padded 4 s.number ++ " | " ++ padded 5 s.ip ++ " | " ++ padded 5 s.pointer ++ " | " ++
    padded 4 s.cell.toNat ++ " |  " ++ String.singleton (instructionColumn s.byte) ++ "    | " ++
    describe s

end Report

end Brainfuck
