import Brainfuck.Proofs.Interpreter.Ending
import Mathlib.Data.List.Forall2

/-!
# Simulations

A simulation pairs the configurations of two executions of one program, so that each step of the
first is matched by a step of the second, and the first ends only where the second ends too. It
owes no more than that: two conditions, each about one attempt at a step.

What it gives is about whole runs. A path is matched by a path of the same length
(`Simulation.reaches`), and with the same number of steps allowed both runs end, in matching ways,
or neither does (`Simulation.rel_run?`).
-/

namespace Brainfuck

/-- Runs that are matched in one way are matched in a weaker way. -/
theorem Run.rel_mono {R S : Run → Run → Prop} (h : ∀ r r', R r r' → S r r') {x y : Option Run}
    (hxy : Option.Rel R x y) : Option.Rel S x y := by
  cases hxy with
  | some hrs => exact .some (h _ _ hrs)
  | none => exact .none

/-- A way to match each step of one execution by a step of another. -/
structure Simulation (code : Array UInt8) where
  /-- The configurations that are paired. -/
  config : Config → Config → Prop
  /-- The steps that match. -/
  turn : Turn → Turn → Prop
  /-- The ends of executions that match. -/
  halt : Halt → Halt → Prop
  /-- A completed step is matched by a completed step. -/
  advanced {c c' d : Config} {t : Turn} : config c d → c.step code = .advanced t c' →
    ∃ u d', d.step code = .advanced u d' ∧ turn t u ∧ config c' d'
  /-- Where the first execution ends, the second ends in a matching way. -/
  halts {c last d : Config} {h : Halt} : config c d → c.Halts code h last →
    ∃ h' last', d.Halts code h' last' ∧ halt h h' ∧ config last last'

namespace Simulation

/-- The run `r` from `i` is matched by the run `r'` from `i'`. -/
structure Matches {code : Array UInt8} (S : Simulation code) (i i' : Interpreter) (r r' : Run) :
    Prop where
  /-- They are runs of programs of the same length. -/
  length : r'.length = r.length
  /-- The first is under the policy of its interpreter. -/
  eof : r.eof = i.eof
  /-- The second is under the policy of its interpreter. -/
  eof' : r'.eof = i'.eof
  /-- Each step is matched. -/
  turns : List.Forall₂ S.turn r.turns.toList r'.turns.toList
  /-- The end of the execution is matched. -/
  halt : S.halt r.halt r'.halt
  /-- The last configurations are paired, and the output is flushed behind both. -/
  last : ∃ c d, S.config c d ∧
    r.closing = Sink.flush c.host.output.flushes ∧ r.after = c.host.afterFlush ∧
    r'.closing = Sink.flush d.host.output.flushes ∧ r'.after = d.host.afterFlush

variable {code : Array UInt8} {c c' d : Config} {ts : List Turn}

/-- **A path is matched by a path.** -/
theorem reaches (S : Simulation code) (h : Reaches code c ts c') (hm : S.config c d) :
    ∃ us d', Reaches code d us d' ∧ List.Forall₂ S.turn ts us ∧ S.config c' d' := by
  induction h generalizing d with
  | refl => exact ⟨[], d, .refl d, .nil, hm⟩
  | step hs _ ih =>
    obtain ⟨u, d₁, hs', hu, hm₁⟩ := S.advanced hm hs
    obtain ⟨us, d', hr, hus, hm'⟩ := ih hm₁
    exact ⟨u :: us, d', .step hs' hr, .cons hu hus, hm'⟩

variable {p : Program} {i i' : Interpreter}

/-- **A run is matched by a run**, and a run that does not end by one that does not. -/
theorem rel_run? (S : Simulation p.code) (hm : S.config i.start i'.start) (fuel : Nat) :
    Option.Rel (S.Matches i i') (i.run? fuel p) (i'.run? fuel p) := by
  cases hrun : i.run? fuel p with
  | none =>
    obtain ⟨ts, c, hr, rfl⟩ := Interpreter.run?_eq_none_iff.mp hrun
    obtain ⟨us, d, hr', hus, -⟩ := S.reaches hr hm
    rw [Interpreter.run?_eq_none_iff.mpr ⟨us, d, hr', hus.length_eq.symm⟩]
    exact .none
  | some r =>
    obtain ⟨c, last, hr, hlt, hh, heq⟩ := Interpreter.run?_eq_some_iff.mp hrun
    obtain ⟨us, d, hr', hus, hm'⟩ := S.reaches hr hm
    obtain ⟨h', last', hh', hhalt, hlast⟩ := S.halts hm' hh
    have hle : us.length + 1 ≤ fuel := by
      rw [← hus.length_eq, Array.length_toList]
      exact hlt
    rw [Interpreter.run?_mono hle (Interpreter.run?_of_halts hr' hh')]
    have hlength : r.length = p.code.size := by rw [heq]
    have heof : r.eof = i.eof := by rw [heq]
    have hclosing : r.closing = Sink.flush last.host.output.flushes := by rw [heq]
    have hafter : r.after = last.host.afterFlush := by rw [heq]
    exact .some
      ⟨hlength.symm, heof, rfl, hus, hhalt, last, last', hlast, hclosing, hafter, rfl, rfl⟩

end Simulation

end Brainfuck
