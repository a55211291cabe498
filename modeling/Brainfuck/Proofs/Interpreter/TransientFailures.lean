import Brainfuck.Proofs.Interpreter.Coupling
import Brainfuck.Proofs.Stream.Transient

/-!
# Transient failures are invisible

A read or a write that fails transiently is made again, within the same instruction. So nothing
that a program does depends on such failures: however many of them are put into the input and
before the writes, the run has the same outcome, makes the same steps, writes and reads the same,
and leaves the same machine (`run?_interspersed`). Only the calls show them, and without them the
calls are the same. In particular the flush that comes before a read is made once, however often
the read is.
-/

namespace Brainfuck

/-- The second interpreter is the first with transient failures put into its streams. -/
structure Interpreter.Interspersed (i i' : Interpreter) : Prop where
  /-- The machine. -/
  machine : i'.machine = i.machine
  /-- What reads meet. -/
  input : Source.Interspersed i.input.arrivals i'.input.arrivals
  /-- The writes to come that fail. -/
  writes : Schedule.Interspersed i.output.writes i'.output.writes
  /-- The flushes to come that fail. -/
  flushes : i'.output.flushes = i.output.flushes
  /-- The policy for the end of the input. -/
  eof : i'.eof = i.eof
  /-- The switch. -/
  interrupt : i'.interrupt = i.interrupt

/-- What the runs of two interpreters have in common, where the second is the first with transient
failures put in. -/
structure Run.Interspersed (r r' : Run) : Prop where
  /-- The outcome. -/
  outcome : r'.outcome = r.outcome
  /-- The steps. -/
  steps : r'.steps = r.steps
  /-- The bytes written. -/
  output : r'.output = r.output
  /-- The answers that reads got. -/
  answers : Call.answers r'.calls = Call.answers r.calls
  /-- The calls, without the reads and writes that failed transiently. -/
  calls : Call.withoutTransient r'.calls = Call.withoutTransient r.calls
  /-- The number of flushes. -/
  flushes : r'.calls.countP Call.isFlush = r.calls.countP Call.isFlush
  /-- The interpreters after the runs, and so the machine. -/
  after : r.after.Interspersed r'.after

/-- Streams that differ by transient failures: the calls are the same without them. -/
def transientFailures (policy : EofPolicy) : Coupling policy where
  input := Source.Interspersed
  writes := Schedule.Interspersed
  action := Eq
  calls xs ys := Call.withoutTransient ys = Call.withoutTransient xs
  action_refl _ := rfl
  calls_refl _ := rfl
  calls_append h h' := by
    rw [Call.withoutTransient_append, Call.withoutTransient_append, h, h']
  put b h := h.put b
  take h := ⟨.of_eq h.take.1, h.take.2⟩

section

variable {policy : EofPolicy} {i i' : Interpreter} {ts us : List Turn} {r r' : Run}

theorem Interpreter.Interspersed.controls (h : i.Interspersed i') :
    (transientFailures i.eof).Controls i.control i'.control :=
  ⟨congrArg Machine.loops h.machine, h.input, h.writes, h.flushes, rfl, h.eof, h.interrupt⟩

theorem Interpreter.Interspersed.of_controls (hmachine : i'.machine = i.machine)
    (h : (transientFailures policy).Controls i.control i'.control) : i.Interspersed i' :=
  ⟨hmachine, h.input, h.writes, h.flushes, h.eof'.trans h.eof.symm, h.interrupt⟩

theorem steps_eq_of_turns (h : List.Forall₂ (transientFailures policy).Turns ts us) :
    us.map (·.step) = ts.map (·.step) := by
  induction h with
  | nil => rfl
  | @cons t u _ _ ht _ ih =>
    obtain ⟨⟨_, action⟩, _, _⟩ := t
    obtain ⟨⟨_, action'⟩, _, _⟩ := u
    obtain rfl : action = action' := ht.action
    rw [List.map_cons, List.map_cons, ih]
    exact congrArg (· :: _) (congrArg (Step.mk · action) ht.fetch)

theorem Run.Interspersed.of_runs (h : (transientFailures policy).Runs r r') :
    r.Interspersed r' := by
  have hcalls : Call.withoutTransient r'.calls = Call.withoutTransient r.calls := h.calls
  refine ⟨h.outcome, ?_, ?_, ?_, hcalls, ?_, .of_controls h.machine h.control⟩
  · apply Array.toList_inj.mp
    rw [toList_steps, toList_steps, steps_eq_of_turns h.turns]
  · unfold Run.output
    rw [← Call.written_withoutTransient, hcalls, Call.written_withoutTransient]
  · rw [← Call.answers_withoutTransient, hcalls, Call.answers_withoutTransient]
  · rw [← Call.countP_isFlush_withoutTransient, hcalls, Call.countP_isFlush_withoutTransient]

end

/-- **Transient failures are invisible.** For every program and every interpreter, put any transient
failures into the input and before the writes.

* Either both run to an end or none does. The runs have the same outcome, steps and output, get the
  same answers, and leave the same machine. Without the reads and writes that failed transiently
  they make the same calls, and they flush equally often.
* That is so all along the way, whether the runs end or not. -/
theorem run?_interspersed {i i' : Interpreter} (h : i.Interspersed i') (p : Program) :
    (∀ fuel, Option.Rel Run.Interspersed (i.run? fuel p) (i'.run? fuel p)) ∧
      ∀ ts c, Reaches p.code i.start ts c → ∃ us d, Reaches p.code i'.start us d ∧
        us.map (·.step) = ts.map (·.step) ∧
        Call.withoutTransient (us.flatMap (·.calls)) =
          Call.withoutTransient (ts.flatMap (·.calls)) ∧
        c.SamePlace Interpreter.Interspersed d := by
  have htape : i'.machine.tape = i.machine.tape := congrArg Machine.tape h.machine
  refine ⟨fun fuel => ?_, fun ts c hr => ?_⟩
  · exact Run.rel_mono (fun _ _ => .of_runs) (Coupling.rel_run? htape h.controls fuel p)
  · obtain ⟨us, d, hr', hturns, hconfigs⟩ := Coupling.reaches htape h.controls hr
    exact ⟨us, d, hr', steps_eq_of_turns hturns, Coupling.calls_flatMap hturns,
      hconfigs.samePlace .of_controls⟩

/-- The program `,,..` whose second write takes nothing. With a transient failure inside the input
and one before the first write, the second read and the first write are made again, the output is
flushed before the second `,` once, and the run fails as before. -/
theorem run?_interspersed_second_read :
    ∃ (p : Program) (i i' : Interpreter) (r r' : Run), i.Interspersed i' ∧
      i.run? 5 p = some r ∧ i'.run? 5 p = some r' ∧ r.Interspersed r' ∧
      r.outcome = .error (.stream 3 .wroteNothing) ∧
      r.calls = [.flushed, .read 5, .flushed, .read 7, .wrote 7, .wroteNothing, .flushed] ∧
      r'.calls = [.flushed, .read 5, .flushed, .readFailed .interrupted, .read 7,
        .writeFailed .interrupted, .wrote 7, .wroteNothing, .flushed] := by
  let p : Program := ⟨#[44, 44, 46, 46], by decide⟩
  let e : IoError := ⟨.interrupted, "interrupted"⟩
  let m : Machine := ⟨.ofLength 1, .ofCapacity 1⟩
  let i : Interpreter := .ofMachine m (.ofBytes [5, 7]) ⟨[(1, .nothing)], []⟩
  let i' : Interpreter :=
    .ofMachine m [.data [5], .failure e, .data [7]] ⟨[(0, .failure e), (1, .nothing)], []⟩
  have h : i.Interspersed i' :=
    { machine := rfl
      input := .insertAt [.byte 5] [.byte 7] rfl
      writes := .insert rfl (.refl _)
      flushes := rfl
      eof := rfl
      interrupt := rfl }
  have hrun : (i.run? 5 p).map (fun r => (r.outcome, r.calls)) =
      some (.error (.stream 3 .wroteNothing),
        [.flushed, .read 5, .flushed, .read 7, .wrote 7, .wroteNothing, .flushed]) := by
    decide +kernel
  have hrun' : (i'.run? 5 p).map Run.calls =
      some [.flushed, .read 5, .flushed, .readFailed .interrupted, .read 7,
        .writeFailed .interrupted, .wrote 7, .wroteNothing, .flushed] := by
    decide +kernel
  obtain ⟨r, hr, hfacts⟩ := Option.map_eq_some_iff.mp hrun
  obtain ⟨houtcome, hcalls⟩ := Prod.mk.inj hfacts
  obtain ⟨r', hr', hcalls'⟩ := Option.map_eq_some_iff.mp hrun'
  have hrel := (run?_interspersed h p).1 5
  rw [hr, hr'] at hrel
  cases hrel with
  | some hruns => exact ⟨p, i, i', r, r', h, hr, hr', hruns, houtcome, hcalls, hcalls'⟩

end Brainfuck
