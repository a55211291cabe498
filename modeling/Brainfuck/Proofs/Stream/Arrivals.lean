import Brainfuck.Stream.Source

/-!
# A source is what its reads meet

How the bytes of a source come in pieces makes no difference to one-byte reads. Taking a byte from
a source is taking it from the list of what reads meet (`Source.pull_eq_take`), so two sources
whose reads meet the same cannot be told apart.
-/

namespace Brainfuck

namespace Source

/-- What taking one byte came to: the reads made, the byte (or none at the end of the input) or the
failure, and what reads are still to meet. -/
structure Taken where
  /-- The reads, in order. -/
  calls : List Call
  /-- The byte, none at the end of the input, or the failure. -/
  result : Except IoError (Option UInt8)
  /-- What reads are still to meet. -/
  rest : List Arrival

/-- The same, with a read `c` made before. -/
def Taken.after (c : Call) (t : Taken) : Taken := { t with calls := c :: t.calls }

/-- Take one byte where reads meet the given arrivals. -/
def take : List Arrival → Taken
  | [] => ⟨[.readEnd], .ok none, []⟩
  | .byte b :: as => ⟨[.read b], .ok (some b), as⟩
  | .finish :: as => ⟨[.readEnd], .ok none, as⟩
  | .failure e :: as =>
    if e.IsTransient then (take as).after (.readFailed e.kind)
    else ⟨[.readFailed e.kind], .error e, as⟩

/-- What a source hands out, where what is left is seen through its arrivals. -/
def Pulled.taken (p : Pulled) : Taken := ⟨p.calls, p.result, p.rest.arrivals⟩

/-- **Taking a byte depends on the arrivals alone.** -/
theorem pull_eq_take (s : Source) : s.pull.taken = take s.arrivals := by
  fun_induction pull s with
  | case1 => rfl
  | case2 rest ih => exact ih
  | case3 b bs rest => rfl
  | case4 rest => rfl
  | case5 e rest he ih =>
    rw [arrivals_failure, take, if_pos he, ← ih]
    rfl
  | case6 e rest he =>
    rw [arrivals_failure, take, if_neg he]
    rfl

end Source

end Brainfuck
