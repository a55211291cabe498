import Brainfuck.Proofs.Stream.Transfer
import Mathlib.Data.List.TakeDrop

/-!
# What is taken from a source

The answers that reads get from a source are the first ones it has, in order, each once, and
those behind them are left for the reads to come (`Source.Gives`). Failures do not count: a read
that fails takes no answer with it.

`Accounts` sets what a sequence of calls wrote and which answers it got against what became of
the source. It is put together call by call, and so holds of whole runs.
-/

namespace Brainfuck

/-! ### What a source gives -/

namespace Source

/-- The bytes of a source, in order. -/
def bytes (s : Source) : List UInt8 :=
  s.flatMap fun
    | .data bytes => bytes
    | .finish => []
    | .failure _ => []

/-- From `s` the answers `as` are taken, and `s'` is left: these are the first answers of `s`,
which goes on reporting the end behind its last one, and `s'` still has those behind them. -/
structure Gives (s : Source) (as : List (Option UInt8)) (s' : Source) : Prop where
  /-- The answers taken are the first. -/
  taken : as = s.answers.takeD as.length none
  /-- The answers left are the others. -/
  left : s'.answers = s.answers.drop as.length

/-- The bytes of a source are those that its answers hold. -/
theorem filterMap_answers (s : Source) : s.answers.filterMap id = s.bytes := by
  induction s with
  | nil => rfl
  | cons d s ih =>
    cases d with
    | data bs =>
      rw [answers_data, List.filterMap_append, ih, List.filterMap_map]
      show bs.filterMap some ++ _ = _
      rw [List.filterMap_some]
      rfl
    | finish => exact ih
    | failure e => exact ih

/-- A padded list is cut as a list is. -/
private theorem takeD_add (m n : Nat) (l : List (Option UInt8)) :
    l.takeD (m + n) none = l.takeD m none ++ (l.drop m).takeD n none := by
  induction m generalizing l with
  | zero => simp
  | succ m ih =>
    rw [Nat.succ_add, List.takeD_succ, List.takeD_succ, ih, List.cons_append, List.drop_tail]

/-- What is taken from a padded list and what is left hold what the list holds. -/
private theorem filterMap_takeD_append (n : Nat) (l : List (Option UInt8)) :
    (l.takeD n none).filterMap id ++ (l.drop n).filterMap id = l.filterMap id := by
  induction n generalizing l with
  | zero => simp
  | succ n ih =>
    cases l with
    | nil => simp
    | cons b? l =>
      rw [List.takeD_succ, List.head?_cons, List.tail_cons, List.drop_succ_cons, List.filterMap_cons,
        List.filterMap_cons]
      cases b? with
      | none => exact ih l
      | some b => exact congrArg (b :: ·) (ih l)

namespace Gives

variable {s s' s'' : Source} {as bs : List (Option UInt8)}

/-- Nothing is taken as long as the answers to come are the same. -/
theorem of_answers_eq (h : s'.answers = s.answers) : s.Gives [] s' := ⟨rfl, h⟩

/-- A read that succeeds takes its answer. -/
theorem of_pull_ok {b? : Option UInt8} (h : s.pull.result = .ok b?) : s.Gives [b?] s.pull.rest := by
  obtain ⟨hhead, hrest⟩ := pull_of_ok h
  refine ⟨?_, ?_⟩
  · rw [← hhead]
    simp [List.takeD, List.headD_eq_head?_getD]
  · rw [hrest, List.length_singleton, List.drop_one]

/-- Reads that end in a failure take nothing. -/
theorem of_pull_error {e : IoError} (h : s.pull.result = .error e) : s.Gives [] s.pull.rest := by
  refine of_answers_eq ?_
  fun_induction pull s with
  | case1 => cases h
  | case2 rest ih => exact ih h
  | case3 b bs rest => cases h
  | case4 rest => cases h
  | case5 e' rest _ ih => exact ih h
  | case6 e' rest _ => rfl

theorem trans (h : s.Gives as s') (h' : s'.Gives bs s'') : s.Gives (as ++ bs) s'' := by
  obtain ⟨htaken, hleft⟩ := h
  obtain ⟨htaken', hleft'⟩ := h'
  rw [hleft] at htaken' hleft'
  refine ⟨?_, ?_⟩
  · rw [List.length_append, takeD_add, ← htaken, ← htaken']
  · rw [hleft', List.length_append, List.drop_drop]

/-- The bytes taken and the bytes left are all the bytes. -/
theorem bytes_append (h : s.Gives as s') : as.filterMap id ++ s'.bytes = s.bytes := by
  rw [← filterMap_answers, ← filterMap_answers, h.left]
  nth_rewrite 1 [h.taken]
  exact filterMap_takeD_append as.length s.answers

end Gives

end Source

/-! ### What calls came to -/

/-- The answer that a call got, if it is a read that was answered. -/
def Call.answer? : Call → Option (Option UInt8)
  | .read b => some (some b)
  | .readEnd => some none
  | _ => none

/-- The answers that a sequence of calls got, in order. -/
def Call.answers (calls : List Call) : List (Option UInt8) := calls.filterMap Call.answer?

theorem Call.answers_append (xs ys : List Call) : answers (xs ++ ys) = answers xs ++ answers ys :=
  List.filterMap_append

theorem Call.written_replicate {c : Call} (h : c.written? = none) (n : Nat) :
    written (List.replicate n c) = [] :=
  List.filterMap_replicate_of_none h

theorem Call.answers_replicate {c : Call} (h : c.answer? = none) (n : Nat) :
    answers (List.replicate n c) = [] :=
  List.filterMap_replicate_of_none h

theorem Call.answers_ofAnswer (b? : Option UInt8) : answers [ofAnswer b?] = [b?] := by
  cases b? <;> rfl

/-- The calls wrote the bytes `ws` and got the answers `as`, and these are the answers taken from
the source, of which `s'` is left. -/
structure Accounts (calls : List Call) (ws : List UInt8) (as : List (Option UInt8))
    (s s' : Source) : Prop where
  /-- The bytes written. -/
  written : Call.written calls = ws
  /-- The answers got. -/
  answers : Call.answers calls = as
  /-- The answers taken from the source. -/
  gives : s.Gives as s'

namespace Accounts

variable {xs ys : List Call} {ws ws' : List UInt8} {as bs : List (Option UInt8)}
  {s s' s'' : Source}

/-- No call is made. -/
theorem nil (s : Source) : Accounts [] [] [] s s := ⟨rfl, rfl, .of_answers_eq rfl⟩

theorem append (h : Accounts xs ws as s s') (h' : Accounts ys ws' bs s' s'') :
    Accounts (xs ++ ys) (ws ++ ws') (as ++ bs) s s'' := by
  refine ⟨?_, ?_, h.gives.trans h'.gives⟩
  · rw [Call.written_append, h.written, h'.written]
  · rw [Call.answers_append, h.answers, h'.answers]

end Accounts

/-- A transfer of a `,` writes nothing. -/
theorem Transfer.written_input {calls : List Call} (h : Transfer .input calls) :
    Call.written calls = [] := by
  cases h with
  | take n b? =>
    rw [Call.written_cons, Call.written_append, Call.written_replicate rfl]
    cases b? <;> rfl

/-- A transfer of a `.` gets no answer. -/
theorem Transfer.answers_output {calls : List Call} (h : Transfer .output calls) :
    Call.answers calls = [] := by
  cases h with
  | put n b =>
    rw [Call.answers_append, Call.answers_replicate rfl]
    rfl

/-- A transfer that is broken off wrote nothing. -/
theorem BrokenTransfer.written_eq_nil {k : Instruction} {calls : List Call} {e : IoError}
    (h : BrokenTransfer k calls e) : Call.written calls = [] := by
  cases h with
  | put n _ | putNothing n =>
    rw [Call.written_append, Call.written_replicate rfl]
    rfl
  | flush e => rfl
  | take n _ =>
    rw [Call.written_cons, Call.written_append, Call.written_replicate rfl]
    rfl

/-- A transfer that is broken off got no answer. -/
theorem BrokenTransfer.answers_eq_nil {k : Instruction} {calls : List Call} {e : IoError}
    (h : BrokenTransfer k calls e) : Call.answers calls = [] := by
  cases h with
  | put n _ | putNothing n =>
    rw [Call.answers_append, Call.answers_replicate rfl]
    rfl
  | flush e => rfl
  | take n _ =>
    rw [← List.singleton_append, Call.answers_append, Call.answers_append,
      Call.answers_replicate rfl]
    rfl

end Brainfuck
