import Brainfuck.Interpreter.Run

/-!
# Commands

What may be asked of one interpreter over its life: to run programs, and between
runs to act on its machine and to set it up anew. The streams, the tape and the
interrupt switch carry over from each command to the next.
-/

namespace Brainfuck

/-- A request to an interpreter. -/
inductive Command where
  /-- Move right a number of times. -/
  | right (n : Nat)
  /-- Move left a number of times. -/
  | left (n : Nat)
  /-- Add one to the current cell a number of times. -/
  | increment (n : Nat)
  /-- Subtract one from the current cell a number of times. -/
  | decrement (n : Nat)
  /-- Tell the current cell. -/
  | cell
  /-- Write the current cell. -/
  | write (v : UInt8)
  /-- Put the pointer at a position, counted around the tape. -/
  | moveTo (p : Nat)
  /-- Enter the loop at a position. -/
  | push (p : Nat)
  /-- Leave the innermost entered loop and tell its position. -/
  | pop
  /-- Tell the position of the innermost entered loop. -/
  | top
  /-- Leave every loop. -/
  | clear
  /-- Take a zeroed tape of a length. -/
  | newTape (length : Nat)
  /-- Take an empty loop stack of a capacity. -/
  | newLoops (capacity : Nat)
  /-- Take a machine of the default sizes. -/
  | newMachine
  /-- Choose what `,` does at the end of the input. -/
  | setEof (eof : EofPolicy)
  /-- Turn the interrupt switch on or off, and connect it. -/
  | setInterrupt (raised : Bool)
  /-- Watch the runs to come; a given step turns the switch on, and then it is connected. -/
  | observe (raiseAt : Option Nat)
  /-- Keep the machine, the streams and the state of the switch, and forget the rest. -/
  | rebuild
  /-- Run a program. -/
  | run (program : Program)

/-- The answer to a request. -/
inductive Reply where
  /-- It is done. -/
  | done
  /-- The current cell. -/
  | cell (v : UInt8)
  /-- A position on the loop stack, if there is one. -/
  | position (p : Option Nat)
  /-- Whether the loop was entered. -/
  | pushed (outcome : Except RunError Unit)
  /-- The length of the new tape. -/
  | length (n : Nat)
  /-- The run made. -/
  | ran (r : Run)

namespace Interrupt

/-- The switch when runs are watched and step `raiseAt`, if given, turns it on. -/
def watch (raiseAt : Option Nat) (i : Interrupt) : Interrupt :=
  ⟨i.raised, i.connected || raiseAt.isSome, raiseAt⟩

end Interrupt

namespace LoopStack

/-- Enter the loop at `p`, or give the error of a full stack. -/
def push (p : Nat) (s : LoopStack) : Except RunError LoopStack :=
  match s.push? p with
  | some s' => .ok s'
  | none => .error (.stackOverflow p s.capacity)

/-- Enter loops in turn until one is refused. -/
def pushAll : List Nat → LoopStack → Except RunError LoopStack
  | [], s => .ok s
  | p :: ps, s => do pushAll ps (← s.push p)

end LoopStack

namespace Interpreter

/-- Answer a request; none if it is a run that needs more than `fuel` attempts at a step. -/
def answer? (fuel : Nat) (i : Interpreter) : Command → Option (Reply × Interpreter)
  | .right n => some (.done, i.mapTape (Nat.repeat .moveRight n))
  | .left n => some (.done, i.mapTape (Nat.repeat .moveLeft n))
  | .increment n => some (.done, i.mapTape (Nat.repeat .increment n))
  | .decrement n => some (.done, i.mapTape (Nat.repeat .decrement n))
  | .cell => some (.cell i.machine.tape.cell, i)
  | .write v => some (.done, i.mapTape (.write v))
  | .moveTo p => some (.done, i.mapTape (.moveTo p))
  | .push p =>
    match i.machine.loops.push p with
    | .ok loops => some (.pushed (.ok ()), i.mapLoops fun _ => loops)
    | .error e => some (.pushed (.error e), i)
  | .pop => some (.position i.machine.loops.top?, i.mapLoops .pop)
  | .top => some (.position i.machine.loops.top?, i)
  | .clear => some (.done, i.mapLoops .clear)
  | .newTape n =>
    let tape := Tape.ofLength n
    some (.length tape.length, i.mapTape fun _ => tape)
  | .newLoops capacity => some (.done, i.mapLoops fun _ => .ofCapacity capacity)
  | .newMachine => some (.done, { i with machine := default })
  | .setEof eof => some (.done, { i with eof := eof })
  | .setInterrupt raised =>
    some (.done, { i with interrupt := ⟨raised, true, i.interrupt.raiseAt⟩ })
  | .observe raiseAt => some (.done, { i with interrupt := i.interrupt.watch raiseAt })
  | .rebuild =>
    some (.done, { i with eof := .zero, interrupt := ⟨i.interrupt.raised, false, none⟩ })
  | .run program => (i.run? fuel program).map fun r => (.ran r, r.after)

end Interpreter

end Brainfuck
