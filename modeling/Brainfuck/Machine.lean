import Brainfuck.Tape
import Brainfuck.LoopStack

/-!
# The machine

What a program acts on: a tape and a loop stack.
-/

namespace Brainfuck

/-- A tape and a loop stack. -/
structure Machine where
  /-- The tape. -/
  tape : Tape
  /-- The loops entered. -/
  loops : LoopStack
  deriving DecidableEq, Repr

namespace Machine

/-- A zeroed tape and an empty stack, both of the default size. -/
instance : Inhabited Machine := ⟨⟨default, default⟩⟩

/-- Both parts are well-formed. -/
structure WellFormed (m : Machine) : Prop where
  /-- The pointer is on the tape. -/
  tape : m.tape.WellFormed
  /-- The entered loops fit. -/
  loops : m.loops.WellFormed

/-- Set cells in turn, each by moving there and writing, then put the pointer at `pointer`. -/
def preset (cells : List (Nat × UInt8)) (pointer : Nat) (m : Machine) : Machine :=
  let tape := cells.foldl (fun t (p, v) => (t.moveTo p).write v) m.tape
  { m with tape := tape.moveTo pointer }

end Machine

end Brainfuck
