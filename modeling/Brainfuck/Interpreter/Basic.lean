import Brainfuck.Machine
import Brainfuck.Stream.Source
import Brainfuck.Stream.Sink

/-!
# The interpreter

A machine joined to an input and an output, with two settings: what reading at the
end of the input does to the current cell, and the switch by which a run is stopped
from outside.
-/

namespace Brainfuck

/-- What `,` does to the current cell at the end of the input. -/
inductive EofPolicy where
  /-- It becomes zero. -/
  | zero
  /-- It stays as it is. -/
  | unchanged
  deriving DecidableEq, Repr, Inhabited

/-- The tape after `,` met the end of the input. -/
def EofPolicy.onEnd : EofPolicy → Tape → Tape
  | .zero, t => t.write 0
  | .unchanged, t => t

/-- The switch that stops a run. It acts only while it is connected, and nothing that
runs turns it off again. -/
structure Interrupt where
  /-- The switch is on. -/
  raised : Bool
  /-- Runs look at the switch. -/
  connected : Bool
  /-- The number of the step whose observation turns the switch on, if any. -/
  raiseAt : Option Nat
  deriving DecidableEq, Repr

namespace Interrupt

/-- A switch that is off and not connected. -/
def off : Interrupt := ⟨false, false, none⟩

/-- The next instruction is not executed. -/
def Stops (i : Interrupt) : Prop := i.connected = true ∧ i.raised = true

instance (i : Interrupt) : Decidable i.Stops := inferInstanceAs (Decidable (_ ∧ _))

/-- The switch after step number `n` was observed. -/
def observe (n : Nat) (i : Interrupt) : Interrupt :=
  if i.raiseAt = some n then { i with raised := true } else i

/-- Observing a step does not connect the switch. -/
@[simp] theorem connected_observe (n : Nat) (i : Interrupt) :
    (i.observe n).connected = i.connected := by
  unfold observe
  split
  · rfl
  · rfl

/-- A switch that is not connected stops nothing. -/
theorem not_stops {i : Interrupt} (h : i.connected = false) : ¬ i.Stops := by
  rintro ⟨hconnected, -⟩
  rw [h] at hconnected
  cases hconnected

end Interrupt

/-- A machine, its streams, and how it is set up. -/
structure Interpreter where
  /-- The tape and the loop stack. -/
  machine : Machine
  /-- Where `,` reads from. -/
  input : Source
  /-- Where `.` writes to. -/
  output : Sink
  /-- What `,` does at the end of the input. -/
  eof : EofPolicy
  /-- The switch that stops a run. -/
  interrupt : Interrupt

namespace Interpreter

/-- An interpreter around a machine and two streams: a cell becomes zero at the end of
the input, and nothing stops a run. -/
def ofMachine (machine : Machine) (input : Source) (output : Sink) : Interpreter :=
  ⟨machine, input, output, .zero, .off⟩

/-- Change the tape. -/
def mapTape (f : Tape → Tape) (i : Interpreter) : Interpreter :=
  { i with machine := { i.machine with tape := f i.machine.tape } }

/-- Change the loop stack. -/
def mapLoops (f : LoopStack → LoopStack) (i : Interpreter) : Interpreter :=
  { i with machine := { i.machine with loops := f i.machine.loops } }

end Interpreter

end Brainfuck
