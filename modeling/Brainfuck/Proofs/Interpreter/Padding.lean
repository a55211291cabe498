import Brainfuck.Proofs.Interpreter.Coupling

/-!
# The end of the input as zeros

Under `EofPolicy.zero` a `,` at the end of the input stores a zero, and so it does where a zero
byte is read. Whether an input ends or goes on with zeros makes no other difference: a run on the
input and a run on the input followed by zeros have the same outcome, write the same and leave the
same machine (`run?_padded`), however often they read behind the end. The steps and the calls tell
them apart by one thing alone: where the one meets the end, the other may read a zero.
-/

namespace Brainfuck

/-- The second action is the first, or it read a zero where the first met the end. -/
inductive Action.Padded : Action → Action → Prop where
  /-- The same. -/
  | same (a : Action) : Padded a a
  /-- The end, and a zero. -/
  | zero : Padded .readEnd (.read 0)

/-- The second call is the first, or it read a zero where the first met the end. -/
inductive Call.Padded : Call → Call → Prop where
  /-- The same. -/
  | same (c : Call) : Padded c c
  /-- The end, and a zero. -/
  | zero : Padded .readEnd (.read 0)

/-- The steps found the same, and did the same but for the end of the input. -/
structure Step.Padded (s s' : Step) : Prop where
  /-- What was found. -/
  fetch : s'.toFetch = s.toFetch
  /-- What the instruction did. -/
  action : s.action.Padded s'.action

/-- The second list is the first, with some zeros behind it. -/
def Source.Padded (as bs : List Arrival) : Prop := ∃ k, bs = as ++ List.replicate k (.byte 0)

/-- The second interpreter is the first, with some zeros behind its input. -/
structure Interpreter.Padded (i i' : Interpreter) : Prop where
  /-- The machine. -/
  machine : i'.machine = i.machine
  /-- What reads meet. -/
  input : Source.Padded i.input.arrivals i'.input.arrivals
  /-- The output. -/
  output : i'.output = i.output
  /-- The policy of the first. -/
  eof : i.eof = .zero
  /-- The policy of the second. -/
  eof' : i'.eof = .zero
  /-- The switch. -/
  interrupt : i'.interrupt = i.interrupt

/-- What the runs of two interpreters have in common, where the second is the first with zeros
behind its input. -/
structure Run.Padded (r r' : Run) : Prop where
  /-- The outcome. -/
  outcome : r'.outcome = r.outcome
  /-- The steps. -/
  steps : List.Forall₂ Step.Padded r.steps.toList r'.steps.toList
  /-- The stream calls. -/
  calls : List.Forall₂ Call.Padded r.calls r'.calls
  /-- The bytes written. -/
  output : r'.output = r.output
  /-- The interpreters after the runs, and so the tape and the loops entered. -/
  after : r.after.Padded r'.after

/-! ### Reads -/

/-- What a read comes to where zeros follow. -/
theorem Source.Padded.take {as bs : List Source.Arrival} (h : Source.Padded as bs) :
    AnsweredAlike .zero Action.Padded (Source.take as).result (Source.take bs).result ∧
      List.Forall₂ Call.Padded (Source.take as).calls (Source.take bs).calls ∧
      Source.Padded (Source.take as).rest (Source.take bs).rest := by
  obtain ⟨k, rfl⟩ := h
  induction as with
  | nil =>
    cases k with
    | zero => exact ⟨.same none, .cons (.same _) .nil, 0, rfl⟩
    | succ k => exact ⟨.padded rfl .zero, .cons .zero .nil, k, rfl⟩
  | cons a as ih =>
    cases a with
    | byte b => exact ⟨.same (some b), .cons (.same _) .nil, k, rfl⟩
    | finish => exact ⟨.same none, .cons (.same _) .nil, k, rfl⟩
    | failure e =>
      rw [List.cons_append, Source.take, Source.take]
      split
      · obtain ⟨hresult, hcalls, hrest⟩ := ih
        exact ⟨hresult, .cons (.same _) hcalls, hrest⟩
      · exact ⟨.failed e, .cons (.same _) .nil, k, rfl⟩

theorem Call.padded_refl (calls : List Call) : List.Forall₂ Call.Padded calls calls :=
  List.forall₂_same.mpr fun c _ => .same c

/-- The same bytes are written. -/
theorem Call.written_of_padded {xs ys : List Call} (h : List.Forall₂ Call.Padded xs ys) :
    written ys = written xs := by
  induction h with
  | nil => rfl
  | cons hc _ ih =>
    rw [written_cons, written_cons, ih]
    cases hc with
    | same => rfl
    | zero => rfl

/-- Inputs that differ by zeros behind them, under the policy that stores zero at the end. -/
def padding : Coupling .zero where
  input := Source.Padded
  writes ws ws' := ws' = ws
  action := Action.Padded
  calls := List.Forall₂ Call.Padded
  action_refl := .same
  calls_refl := Call.padded_refl
  calls_append h h' := List.rel_append h h'
  put b h := by
    rw [h]
    exact ⟨rfl, Call.padded_refl _, rfl⟩
  take h := h.take

/-! ### Runs -/

section

variable {i i' : Interpreter} {ts us : List Turn} {r r' : Run}

theorem Interpreter.Padded.controls (h : i.Padded i') :
    padding.Controls i.control i'.control :=
  ⟨congrArg Machine.loops h.machine, h.input, congrArg Sink.writes h.output,
    congrArg Sink.flushes h.output, h.eof, h.eof', h.interrupt⟩

theorem Interpreter.Padded.of_controls (hmachine : i'.machine = i.machine)
    (h : padding.Controls i.control i'.control) : i.Padded i' :=
  ⟨hmachine, h.input, congrArg₂ Sink.mk h.writes h.flushes, h.eof, h.eof', h.interrupt⟩

theorem steps_padded_of_turns (h : List.Forall₂ padding.Turns ts us) :
    List.Forall₂ Step.Padded (ts.map (·.step)) (us.map (·.step)) := by
  rw [List.forall₂_map_left_iff, List.forall₂_map_right_iff]
  exact h.imp fun _ _ ht => ⟨ht.fetch, ht.action⟩

theorem Run.Padded.of_runs (h : padding.Runs r r') : r.Padded r' := by
  refine ⟨h.outcome, ?_, h.calls, Call.written_of_padded h.calls, .of_controls h.machine h.control⟩
  rw [toList_steps, toList_steps]
  exact steps_padded_of_turns h.turns

end

/-- **The end of the input cannot be told from zeros** where a cell becomes zero at it. For every
program and every interpreter under `EofPolicy.zero`, put any number of zeros behind the input.

* Either both run to an end or none does. The runs have the same outcome and output and leave the
  same tape and loop stack. Their steps and calls are the same, but that some that met the end read
  a zero.
* That is so all along the way, whether the runs end or not. -/
theorem run?_padded {i : Interpreter} (heof : i.eof = .zero) {s : Source} {k : Nat}
    (hs : s.arrivals = i.input.arrivals ++ List.replicate k (.byte 0)) (p : Program) :
    (∀ fuel, Option.Rel Run.Padded (i.run? fuel p) ({ i with input := s }.run? fuel p)) ∧
      ∀ ts c, Reaches p.code i.start ts c →
        ∃ us d, Reaches p.code ({ i with input := s } : Interpreter).start us d ∧
          List.Forall₂ Step.Padded (ts.map (·.step)) (us.map (·.step)) ∧
          List.Forall₂ Call.Padded (ts.flatMap (·.calls)) (us.flatMap (·.calls)) ∧
          c.SamePlace Interpreter.Padded d := by
  have h : i.Padded { i with input := s } := ⟨rfl, ⟨k, hs⟩, rfl, heof, heof, rfl⟩
  have htape : ({ i with input := s } : Interpreter).machine.tape = i.machine.tape := rfl
  refine ⟨fun fuel => ?_, fun ts c hr => ?_⟩
  · exact Run.rel_mono (fun _ _ => .of_runs) (Coupling.rel_run? htape h.controls fuel p)
  · obtain ⟨us, d, hr', hturns, hconfigs⟩ := Coupling.reaches htape h.controls hr
    exact ⟨us, d, hr', steps_padded_of_turns hturns, Coupling.calls_flatMap hturns,
      hconfigs.samePlace .of_controls⟩

/-- The program `+[,],,` on the input 5, alone and with two zeros behind it: the loop is left at the
end, or at the first zero, and the last `,` meets the end in both. -/
theorem run?_padded_until_zero :
    ∃ (p : Program) (i : Interpreter) (s : Source) (r r' : Run),
      i.eof = .zero ∧ s.arrivals = i.input.arrivals ++ List.replicate 2 (.byte 0) ∧
      i.run? 9 p = some r ∧ { i with input := s }.run? 9 p = some r' ∧ r.Padded r' ∧
      r.calls =
        [.flushed, .read 5, .flushed, .readEnd, .flushed, .readEnd, .flushed, .readEnd, .flushed] ∧
      r'.calls =
        [.flushed, .read 5, .flushed, .read 0, .flushed, .read 0, .flushed, .readEnd,
          .flushed] := by
  let p : Program := ⟨#[43, 91, 44, 93, 44, 44], by decide⟩
  let i : Interpreter := .ofMachine ⟨.ofLength 1, .ofCapacity 1⟩ (.ofBytes [5]) .reliable
  let s : Source := .ofBytes [5, 0, 0]
  let i' : Interpreter := { i with input := s }
  have hs : s.arrivals = i.input.arrivals ++ List.replicate 2 (.byte 0) := by decide
  have hcalls : (i.run? 9 p).map Run.calls = some
      [.flushed, .read 5, .flushed, .readEnd, .flushed, .readEnd, .flushed, .readEnd,
        .flushed] := by
    decide +kernel
  have hcalls' : (i'.run? 9 p).map Run.calls = some
      [.flushed, .read 5, .flushed, .read 0, .flushed, .read 0, .flushed, .readEnd, .flushed] := by
    decide +kernel
  obtain ⟨r, hr, hrcalls⟩ := Option.map_eq_some_iff.mp hcalls
  obtain ⟨r', hr', hrcalls'⟩ := Option.map_eq_some_iff.mp hcalls'
  have hrel : Option.Rel Run.Padded (i.run? 9 p) (i'.run? 9 p) := (run?_padded rfl hs p).1 9
  rw [hr, hr'] at hrel
  cases hrel with
  | some hruns => exact ⟨p, i, s, r, r', rfl, hs, hr, hr', hruns, hrcalls, hrcalls'⟩

end Brainfuck
