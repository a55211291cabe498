import Brainfuck.Stream.Sink
import Brainfuck.Stream.Source

/-!
# Answers of a source

What a source comes to when its failures are left out: the bytes and the reports of the
end that reads get in turn. A read that succeeds gets the first answer and leaves the
rest (`Source.pull_of_ok`), whatever failures it met on the way, and on a source without
failures every read succeeds (`Source.pull_of_reliable`).
-/

namespace Brainfuck

namespace Source

/-- The answer that an arrival gives, none if it is a failure: a byte, or none at the end of
the input. -/
def Arrival.answer? : Arrival → Option (Option UInt8)
  | .byte b => some (some b)
  | .finish => some none
  | .failure _ => none

/-- The answers that reads get in turn, failures left out, before the source stays at its
end. -/
def answers (s : Source) : List (Option UInt8) := s.arrivals.filterMap Arrival.answer?

/-- No read of the source fails. -/
def Reliable (s : Source) : Prop := ∀ e, Delivery.failure e ∉ s

/-- The source without its failures. -/
def withoutFailures (s : Source) : Source :=
  s.filter fun
    | .failure _ => false
    | _ => true

@[simp] theorem answers_data_nil (s : Source) : answers (.data [] :: s) = answers s := rfl

@[simp] theorem answers_data_cons (b : UInt8) (bs : List UInt8) (s : Source) :
    answers (.data (b :: bs) :: s) = some b :: answers (.data bs :: s) := rfl

@[simp] theorem answers_finish (s : Source) : answers (.finish :: s) = none :: answers s := rfl

@[simp] theorem answers_failure (e : IoError) (s : Source) :
    answers (.failure e :: s) = answers s := rfl

theorem answers_data (bs : List UInt8) (s : Source) :
    answers (.data bs :: s) = bs.map some ++ answers s := by
  induction bs with
  | nil => rw [answers_data_nil, List.map_nil, List.nil_append]
  | cons b bs ih => rw [answers_data_cons, ih, List.map_cons, List.cons_append]

/-- A read that succeeds gets the first answer, and leaves the others. -/
theorem pull_of_ok {s : Source} {b? : Option UInt8} (h : s.pull.result = .ok b?) :
    s.answers.headD none = b? ∧ s.pull.rest.answers = s.answers.tail := by
  fun_induction pull s with
  | case1 =>
    cases h
    exact ⟨rfl, rfl⟩
  | case2 rest ih => exact ih h
  | case3 b bs rest =>
    cases h
    exact ⟨rfl, rfl⟩
  | case4 rest =>
    cases h
    exact ⟨rfl, rfl⟩
  | case5 e rest _ ih => exact ih h
  | case6 e rest _ => cases h

/-- Reads write nothing. -/
theorem written_pull (s : Source) : Call.written s.pull.calls = [] := by
  fun_induction pull s with
  | case1 => rfl
  | case2 rest ih => exact ih
  | case3 b bs rest => rfl
  | case4 rest => rfl
  | case5 e rest _ ih => exact ih
  | case6 e rest _ => rfl

theorem Reliable.of_cons {d : Delivery} {s : Source} (h : Reliable (d :: s)) : Reliable s :=
  fun e he => h e (List.mem_cons_of_mem d he)

/-- Every read of a source without failures succeeds, and leaves one without failures. -/
theorem pull_of_reliable {s : Source} (h : s.Reliable) :
    s.pull.result = .ok (s.answers.headD none) ∧ s.pull.rest.Reliable := by
  fun_induction pull s with
  | case1 => exact ⟨rfl, h⟩
  | case2 rest ih => exact ih h.of_cons
  | case3 b bs rest =>
    refine ⟨rfl, fun e he => ?_⟩
    rcases List.mem_cons.mp he with he | he
    · cases he
    · exact h.of_cons e he
  | case4 rest => exact ⟨rfl, h.of_cons⟩
  | case5 e rest _ _ => exact absurd List.mem_cons_self (h e)
  | case6 e rest _ => exact absurd List.mem_cons_self (h e)

theorem reliable_withoutFailures (s : Source) : s.withoutFailures.Reliable := by
  intro e he
  have := (List.mem_filter.mp he).2
  cases this

/-- Leaving the failures out does not change the answers. -/
theorem answers_withoutFailures (s : Source) : s.withoutFailures.answers = s.answers := by
  induction s with
  | nil => rfl
  | cons d s ih =>
    cases d with
    | data bs =>
      show answers (.data bs :: withoutFailures s) = _
      rw [answers_data, answers_data, ih]
    | finish =>
      show answers (.finish :: withoutFailures s) = _
      rw [answers_finish, answers_finish, ih]
    | failure e =>
      show answers (withoutFailures s) = _
      rw [answers_failure, ih]

end Source

namespace Sink

/-- A flush writes nothing. -/
theorem written_flush (flushes : Schedule IoError) : Call.written [(flush flushes).call] = [] := by
  rw [Call.written_cons, Flushed.call]
  split <;> rfl

end Sink

end Brainfuck
