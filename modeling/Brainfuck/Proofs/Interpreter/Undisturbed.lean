import Brainfuck.Proofs.Interpreter.Ending
import Brainfuck.Proofs.Stream.Answers

/-!
# Runs that nothing disturbs

A run is undisturbed if no stream call fails and there is no switch to look at. What such a
run does depends on less than the interpreter it starts from: on the tape, the loop stack, the
policy for the end of the input, and the answers that the input still gives, however these
come in pieces. `Interpreter.Holds` says that an interpreter is undisturbed and has just
these. Each operation of the interpreter keeps that, and each stream call succeeds with what
the store says (`Holds.afterPut`, `Holds.afterFlush`, `Holds.afterPull`).
-/

namespace Brainfuck

/-- What a program acts on: the tape, the answers the input still gives, and what was
written. -/
structure Store where
  /-- The tape. -/
  tape : Tape
  /-- The answers to come, none for a report of the end; behind them, the input stays at its
  end. -/
  input : List (Option UInt8)
  /-- The bytes written. -/
  output : List UInt8
  deriving DecidableEq, Repr

/-- What a run starts from. -/
def Interpreter.store (i : Interpreter) : Store := ⟨i.machine.tape, i.input.answers, []⟩

/-- What a run ended in. -/
def Run.store (r : Run) : Store := ⟨r.after.machine.tape, r.after.input.answers, r.output⟩

/-- Nothing disturbs a run: no stream call fails, and there is no switch to look at. -/
structure Interpreter.Undisturbed (i : Interpreter) : Prop where
  /-- No read fails. -/
  input : i.input.Reliable
  /-- No write and no flush fails. -/
  output : i.output = .reliable
  /-- Runs do not look at a switch. -/
  interrupt : i.interrupt.connected = false

/-- The interpreter is not disturbed, and has this policy, loop stack, tape and input. What was
written is not in an interpreter. -/
structure Interpreter.Holds (eof : EofPolicy) (loops : LoopStack) (s : Store) (i : Interpreter) :
    Prop where
  /-- Nothing disturbs it. -/
  undisturbed : i.Undisturbed
  /-- What a read does at the end of the input. -/
  eof : i.eof = eof
  /-- The loop stack. -/
  loops : i.machine.loops = loops
  /-- The tape. -/
  tape : i.machine.tape = s.tape
  /-- The answers to come. -/
  input : i.input.answers = s.input

namespace Interpreter.Holds

variable {eof : EofPolicy} {loops : LoopStack} {s : Store} {host : Interpreter}

theorem mapTape (h : host.Holds eof loops s) (f : Tape → Tape) :
    (host.mapTape f).Holds eof loops { s with tape := f s.tape } := by
  refine ⟨⟨h.undisturbed.input, h.undisturbed.output, h.undisturbed.interrupt⟩, h.eof, h.loops, ?_,
    h.input⟩
  show f host.machine.tape = f s.tape
  rw [h.tape]

theorem mapLoops (h : host.Holds eof loops s) (f : LoopStack → LoopStack) :
    (host.mapLoops f).Holds eof (f loops) s := by
  refine ⟨⟨h.undisturbed.input, h.undisturbed.output, h.undisturbed.interrupt⟩, h.eof, ?_, h.tape,
    h.input⟩
  show f host.machine.loops = f loops
  rw [h.loops]

/-- Observing a step does not connect the switch. -/
theorem observe (h : host.Holds eof loops s) (n : Nat) :
    { host with interrupt := host.interrupt.observe n }.Holds eof loops s := by
  refine ⟨⟨h.undisturbed.input, h.undisturbed.output, ?_⟩, h.eof, h.loops, h.tape, h.input⟩
  exact (Interrupt.connected_observe n _).trans h.undisturbed.interrupt

theorem not_stops (h : host.Holds eof loops s) : ¬ host.interrupt.Stops :=
  Interrupt.not_stops h.undisturbed.interrupt

/-- A write to a reliable output succeeds, and leaves it reliable. -/
theorem afterPut (h : host.Holds eof loops s) (b : UInt8) :
    (Sink.put b host.output.writes).result = .ok () ∧ (host.afterPut b).Holds eof loops s := by
  have hout : host.output = .reliable := h.undisturbed.output
  refine ⟨by rw [hout]; rfl, ⟨h.undisturbed.input, ?_, h.undisturbed.interrupt⟩, h.eof, h.loops,
    h.tape, h.input⟩
  show ({ host.output with writes := (Sink.put b host.output.writes).writes } : Sink) = _
  rw [hout]
  rfl

/-- A flush of a reliable output succeeds, and leaves it reliable. -/
theorem afterFlush (h : host.Holds eof loops s) :
    (Sink.flush host.output.flushes).failure? = none ∧ host.afterFlush.Holds eof loops s := by
  have hout : host.output = .reliable := h.undisturbed.output
  refine ⟨by rw [hout]; rfl, ⟨h.undisturbed.input, ?_, h.undisturbed.interrupt⟩, h.eof, h.loops,
    h.tape, h.input⟩
  show ({ host.output with flushes := (Sink.flush host.output.flushes).flushes } : Sink) = _
  rw [hout]
  rfl

/-- A read gives the first of the answers, and leaves the others. -/
theorem afterPull (h : host.Holds eof loops s) :
    host.input.pull.result = .ok (s.input.headD none) ∧
      host.afterPull.Holds eof loops { s with input := s.input.tail } := by
  obtain ⟨hresult, hrest⟩ := Source.pull_of_reliable h.undisturbed.input
  have hanswers := (Source.pull_of_ok hresult).2
  rw [h.input] at hresult hanswers
  have hf := h.afterFlush.2
  exact ⟨hresult, ⟨hrest, hf.undisturbed.output, hf.undisturbed.interrupt⟩, hf.eof, hf.loops,
    hf.tape, hanswers⟩

end Interpreter.Holds

end Brainfuck
