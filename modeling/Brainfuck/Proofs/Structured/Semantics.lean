import Brainfuck.Proofs.Interpreter.Undisturbed
import Brainfuck.Proofs.Structured.Tree

/-!
# What a program means

The meaning of a program, read off its tree and not off its text: a byte that is no
bracket acts on the tape and the two streams, and a loop means to run its body while the
current cell is not zero. There is no instruction pointer, no loop stack and no jump here.
`Exec` says it as a relation between what a program starts from and what it ends in. A
program that never ends is in this relation to nothing; otherwise it ends in one way only
(`Exec.unique`).
-/

namespace Brainfuck

namespace Store

/-- Read into the current cell. -/
def read (eof : EofPolicy) (s : Store) : Store :=
  match s.input with
  | some b :: rest => { s with tape := s.tape.write b, input := rest }
  | none :: rest => { s with tape := eof.onEnd s.tape, input := rest }
  | [] => { s with tape := eof.onEnd s.tape }

/-- What a byte that is no bracket does. -/
def act (eof : EofPolicy) (b : UInt8) (s : Store) : Store :=
  match Instruction.ofByte? b with
  | some .right => { s with tape := s.tape.moveRight }
  | some .left => { s with tape := s.tape.moveLeft }
  | some .increment => { s with tape := s.tape.increment }
  | some .decrement => { s with tape := s.tape.decrement }
  | some .output => { s with output := s.output ++ [s.tape.cell] }
  | some .input => s.read eof
  | some (.bracket _) => s
  | none => s

/-- What a read gives, from the first answer alone. -/
theorem read_eq (eof : EofPolicy) (s : Store) :
    s.read eof =
      ⟨(s.input.headD none).elim (eof.onEnd s.tape) s.tape.write, s.input.tail, s.output⟩ := by
  obtain ⟨tape, input, output⟩ := s
  cases input with
  | nil => rfl
  | cons b? rest => cases b? <;> rfl

end Store

/-- The program takes one store to another. -/
inductive Exec (eof : EofPolicy) : Tree → Store → Store → Prop where
  /-- Nothing is left to do. -/
  | done {s : Store} : Exec eof .done s s
  /-- A byte that is no bracket acts. -/
  | plain {b : UInt8} {hb : Bracket.ofByte? b = none} {rest : Tree} {s s' : Store} :
      Exec eof rest (s.act eof b) s' → Exec eof (.plain b hb rest) s s'
  /-- The current cell is zero: the loop is over. -/
  | leave {body rest : Tree} {s s' : Store} :
      s.tape.cell = 0 → Exec eof rest s s' → Exec eof (.loop body rest) s s'
  /-- The current cell is not zero: the body runs, and then the loop again. -/
  | again {body rest : Tree} {s s₁ s' : Store} :
      s.tape.cell ≠ 0 → Exec eof body s s₁ → Exec eof (.loop body rest) s₁ s' →
      Exec eof (.loop body rest) s s'

/-- A program ends in one way only. -/
theorem Exec.unique {eof : EofPolicy} {t : Tree} {s s₁ s₂ : Store} (h₁ : Exec eof t s s₁)
    (h₂ : Exec eof t s s₂) : s₁ = s₂ := by
  induction h₁ generalizing s₂ with
  | done =>
    cases h₂ with
    | done => rfl
  | plain _ ih =>
    cases h₂ with
    | plain h => exact ih h
  | leave hzero _ ih =>
    cases h₂ with
    | leave _ h => exact ih h
    | again hne _ _ => exact absurd hzero hne
  | again hne _ _ ihBody ihLoop =>
    cases h₂ with
    | leave hzero _ => exact absurd hzero hne
    | again _ hbody hloop =>
      obtain rfl := ihBody hbody
      exact ihLoop hloop

end Brainfuck
