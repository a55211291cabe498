import Brainfuck.Interpreter.Step
import Brainfuck.Program.Basic

/-!
# Runs

A run leaves all loops, executes the program from its first byte until the end or a
failure, and then flushes the output once, whatever happened. A failure to execute
takes precedence over a failure of that flush.

A run need not end, so `Interpreter.run?` is given the number of steps it may take,
and answers none when they do not suffice; that is no outcome of the program.
-/

namespace Brainfuck

/-- How execution ended: at the end of the program, or with a failure after some last
stream calls. -/
inductive Halt where
  /-- The end of the program was reached. -/
  | completed
  /-- A step failed. -/
  | failed (e : RunError) (calls : List Call)
  deriving DecidableEq, Repr

/-- The outcome of running `length` executable bytes, when execution ended so and the
flush after it failed so, or did not. A failure to execute is the outcome whatever the
flush did; else a failure to flush counts as standing behind the last instruction. -/
def Halt.outcome (length : Nat) (flushFailure? : Option IoError) : Halt → Except RunError Unit
  | .failed e _ => .error e
  | .completed =>
    match flushFailure? with
    | some e => .error (.stream length e)
    | none => .ok ()

/-- The stream calls of the failing instruction, if there is one. -/
def Halt.calls : Halt → List Call
  | .completed => []
  | .failed _ calls => calls

/-- An execution that ended: the completed steps, how it ended, and where it stood. -/
structure Execution where
  /-- The completed steps, in order. -/
  turns : Array Turn
  /-- How it ended. -/
  halt : Halt
  /-- Where it stood. -/
  last : Config

namespace Config

/-- Execute from here on with `turns` completed, making at most `fuel` attempts at a step. -/
def execute? (code : Array UInt8) : Nat → Array Turn → Config → Option Execution
  | 0, _, _ => none
  | fuel + 1, turns, c =>
    match c.step code with
    | .finished c => some ⟨turns, .completed, c⟩
    | .failed e calls c => some ⟨turns, .failed e calls, c⟩
    | .advanced turn c => execute? code fuel (turns.push turn) c

end Config

/-- A run that ended. -/
structure Run where
  /-- The number of executable bytes. -/
  length : Nat
  /-- The policy under which it ran. -/
  eof : EofPolicy
  /-- The completed steps, in order. -/
  turns : Array Turn
  /-- How execution ended. -/
  halt : Halt
  /-- The flush at the end. -/
  closing : Sink.Flushed
  /-- The interpreter after the run. -/
  after : Interpreter

namespace Run

/-- The steps, as an observer is shown them. -/
def steps (r : Run) : Array Step := r.turns.map (·.step)

/-- Every stream call, in order. -/
def calls (r : Run) : List Call :=
  r.turns.toList.flatMap (·.calls) ++ r.halt.calls ++ [r.closing.call]

/-- The bytes written, in order. -/
def output (r : Run) : List UInt8 := Call.written r.calls

/-- The outcome. -/
def outcome (r : Run) : Except RunError Unit := r.halt.outcome r.length r.closing.failure?

/-- The exit status that the outcome stands for. -/
def status (r : Run) : ExitStatus := RunError.statusOf r.outcome

@[simp] theorem toList_steps (r : Run) : r.steps.toList = r.turns.toList.map (·.step) :=
  Array.toList_map

end Run

namespace Interpreter

/-- Where a run starts: at the first byte, with no loop entered. -/
def start (i : Interpreter) : Config := ⟨0, 0, i.mapLoops .clear⟩

/-- Run a program, making at most `fuel` attempts at a step. -/
def run? (fuel : Nat) (program : Program) (i : Interpreter) : Option Run :=
  let eof := i.eof
  let code := program.code
  match i.start.execute? code fuel #[] with
  | none => none
  | some ⟨turns, halt, ⟨_, _, host⟩⟩ =>
    let closing := Sink.flush host.output.flushes
    some {
      length := code.size
      eof := eof
      turns := turns
      halt := halt
      closing := closing
      after := { host with output := { host.output with flushes := closing.flushes } } }

end Interpreter

end Brainfuck
