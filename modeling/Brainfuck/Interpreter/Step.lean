import Brainfuck.Failure
import Brainfuck.Interpreter.Basic

/-!
# One step

`Config.step` fetches the byte at the instruction pointer and carries it out. Before
the fetch it looks at the interrupt switch. A step that completes gives a `Turn`: the
record an observer is shown, the stream calls it made, and the loop event it logs. A
step that fails leaves the tape, the pointer and the loop stack alone; only the
streams may have moved.
-/

namespace Brainfuck

/-- What an executed instruction did. -/
inductive Action where
  /-- The pointer moved to a position. -/
  | moved (pointer : Nat)
  /-- The current cell went up to a value. -/
  | incremented (cell : UInt8)
  /-- The current cell went down to a value. -/
  | decremented (cell : UInt8)
  /-- A byte was written. -/
  | wrote (b : UInt8)
  /-- A byte was read. -/
  | read (b : UInt8)
  /-- The end of the input was met. -/
  | readEnd
  /-- The cell was zero at `[`; execution goes on behind the `]` at `close`. -/
  | skipped (close : Nat)
  /-- The cell was not zero at `[`; this many loops are now entered. -/
  | entered (depth : Nat)
  /-- The cell was not zero at `]`; execution goes on behind the `[` at `start`. -/
  | repeated (start : Nat)
  /-- The cell was zero at `]`; this many loops are still entered. -/
  | left (depth : Nat)
  /-- A comment byte was passed. -/
  | nothing
  deriving DecidableEq, Repr

/-- What a step finds before it does anything. -/
structure Fetch where
  /-- The number of the step in its run, from 0 on. -/
  number : Nat
  /-- The position of the instruction. -/
  ip : Nat
  /-- The byte of the instruction. -/
  byte : UInt8
  /-- The tape position. -/
  pointer : Nat
  /-- The current cell. -/
  cell : UInt8
  deriving DecidableEq, Repr

/-- One executed instruction, as an observer is shown it: what it found, and what it did. -/
structure Step extends Fetch where
  /-- What the instruction did. -/
  action : Action
  deriving DecidableEq, Repr

/-- What is logged when a loop is entered or left. -/
inductive LoopEvent where
  /-- The loop at `ip` was entered; `depth` loops are now entered. -/
  | entered (ip depth : Nat)
  /-- At `ip` the loop that starts at `start` was left; `depth` loops were entered before. -/
  | exited (ip start depth : Nat)
  deriving DecidableEq, Repr

/-- A completed step. -/
structure Turn where
  /-- What an observer is shown. -/
  step : Step
  /-- The stream calls made. -/
  calls : List Call
  /-- The loop event logged. -/
  event? : Option LoopEvent
  deriving DecidableEq, Repr

/-- What carrying out one instruction came to. -/
inductive Effect where
  /-- It completed: what it did, where execution goes on, the stream calls made, the
  loop event logged, and the interpreter after it. -/
  | done (action : Action) (next : Nat) (calls : List Call) (event? : Option LoopEvent)
      (host : Interpreter)
  /-- It failed, after some stream calls. -/
  | failed (e : RunError) (calls : List Call) (host : Interpreter)

namespace Interpreter

/-- An instruction that acts on the tape alone. -/
def onTape (found : Fetch) (f : Tape → Tape) (action : Tape → Action) (host : Interpreter) :
    Effect :=
  let host := host.mapTape f
  .done (action host.machine.tape) (found.ip + 1) [] none host

/-- Write the current cell. -/
def writeCell (found : Fetch) (host : Interpreter) : Effect :=
  let put := Sink.put found.cell host.output.writes
  let host := { host with output := { host.output with writes := put.writes } }
  match put.result with
  | .ok () => .done (.wrote found.cell) (found.ip + 1) put.calls none host
  | .error e => .failed (.stream found.ip e) put.calls host

/-- Read into the current cell. The output is flushed first, so that what was written
is seen before the program waits for an answer. -/
def readCell (found : Fetch) (host : Interpreter) : Effect :=
  let flushed := Sink.flush host.output.flushes
  let host := { host with output := { host.output with flushes := flushed.flushes } }
  match flushed.failure? with
  | some e => .failed (.stream found.ip e) [flushed.call] host
  | none =>
    let pulled := host.input.pull
    let calls := flushed.call :: pulled.calls
    let host := { host with input := pulled.rest }
    match pulled.result with
    | .error e => .failed (.stream found.ip e) calls host
    | .ok (some b) => .done (.read b) (found.ip + 1) calls none (host.mapTape (.write b))
    | .ok none =>
      let eof := host.eof
      .done .readEnd (found.ip + 1) calls none (host.mapTape eof.onEnd)

/-- Carry out a `[`: behind the matching `]` if the cell is zero, into the loop if not. -/
def openLoop (code : Array UInt8) (found : Fetch) (host : Interpreter) : Effect :=
  if found.cell = 0 then
    match Brackets.closeOf? code found.ip with
    | some close => .done (.skipped close) (close + 1) [] none host
    | none => .failed (.unmatched ⟨found.ip, .opening⟩) [] host
  else
    match host.machine.loops.push? found.ip with
    | some loops =>
      .done (.entered loops.depth) (found.ip + 1) [] (some (.entered found.ip loops.depth))
        (host.mapLoops fun _ => loops)
    | none => .failed (.stackOverflow found.ip host.machine.loops.capacity) [] host

/-- Carry out a `]`: back to the start of the innermost entered loop if the cell is not
zero, out of that loop if it is. -/
def closeLoop (found : Fetch) (host : Interpreter) : Effect :=
  match host.machine.loops.top? with
  | none => .failed (.unmatched ⟨found.ip, .closing⟩) [] host
  | some start =>
    if found.cell = 0 then
      let depth := host.machine.loops.depth
      .done (.left (depth - 1)) (found.ip + 1) [] (some (.exited found.ip start depth))
        (host.mapLoops LoopStack.pop)
    else .done (.repeated start) (start + 1) [] none host

/-- Carry out the instruction found, or pass over the comment byte found. -/
def perform (code : Array UInt8) (found : Fetch) (host : Interpreter) : Effect :=
  match Instruction.ofByte? found.byte with
  | none => .done .nothing (found.ip + 1) [] none host
  | some .right => host.onTape found .moveRight fun t => .moved t.pointer
  | some .left => host.onTape found .moveLeft fun t => .moved t.pointer
  | some .increment => host.onTape found .increment fun t => .incremented t.cell
  | some .decrement => host.onTape found .decrement fun t => .decremented t.cell
  | some .output => host.writeCell found
  | some .input => host.readCell found
  | some (.bracket .opening) => host.openLoop code found
  | some (.bracket .closing) => host.closeLoop found

end Interpreter

/-- An interpreter in the middle of a run. -/
structure Config where
  /-- The position of the next instruction. -/
  ip : Nat
  /-- The number of steps made. -/
  count : Nat
  /-- The interpreter. -/
  host : Interpreter

/-- What one attempt at a step came to. -/
inductive Progress where
  /-- The end of the program was reached before. -/
  | finished (c : Config)
  /-- The step failed, after some stream calls. -/
  | failed (e : RunError) (calls : List Call) (c : Config)
  /-- The step completed. -/
  | advanced (turn : Turn) (c : Config)

namespace Config

/-- Execute the next instruction, if there is one and nothing stops it. -/
def step (code : Array UInt8) : Config → Progress
  | ⟨ip, count, host⟩ =>
    match code[ip]? with
    | none => .finished ⟨ip, count, host⟩
    | some byte =>
      if host.interrupt.Stops then .failed (.interrupted ip) [] ⟨ip, count, host⟩
      else
        let tape := host.machine.tape
        let found : Fetch := ⟨count, ip, byte, tape.pointer, tape.cell⟩
        match host.perform code found with
        | .failed e calls host => .failed e calls ⟨ip, count, host⟩
        | .done action next calls event? host =>
          .advanced ⟨⟨found, action⟩, calls, event?⟩
            ⟨next, count + 1, { host with interrupt := host.interrupt.observe count }⟩

end Config

end Brainfuck
