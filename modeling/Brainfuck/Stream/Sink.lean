import Brainfuck.Stream.Call

/-!
# Sinks for bytes

A sink takes bytes one at a time and may be flushed. Which calls fail is fixed in
advance by two schedules, one for writes and one for flushes. A write that fails
transiently is made again; a write that takes nothing is a failure of its own; a
flush is made once.
-/

namespace Brainfuck

/-- The calls that fail, in order: each entry holds the number of calls that succeed
between the entry before it and itself. All calls after the last entry succeed. -/
abbrev Schedule (α : Type) := List (Nat × α)

namespace Schedule

variable {α : Type}

/-- The schedule of numbered faults in ascending order, for a sink on which `made`
calls have been made; of faults with one number the first counts. -/
def ofAscending (made : Nat) : List (Nat × α) → Schedule α
  | [] => []
  | (n, f) :: rest =>
    if n < made then ofAscending made rest else (n - made, f) :: ofAscending (n + 1) rest

/-- The schedule in which call number `n`, counted from 0, meets the fault listed for `n`. -/
def ofNumbered (faults : List (Nat × α)) : Schedule α :=
  ofAscending 0 (faults.mergeSort fun x y => x.1 ≤ y.1)

end Schedule

/-- How a write may fail. -/
inductive WriteFault where
  /-- It takes none of the bytes offered. -/
  | nothing
  /-- It answers with an error. -/
  | failure (e : IoError)
  deriving DecidableEq, Repr

/-- The error of a write that takes none of the bytes offered. -/
def IoError.wroteNothing : IoError := ⟨.writeZero, "failed to write whole buffer"⟩

/-- An output: which of the writes and which of the flushes to come fail. -/
structure Sink where
  /-- The writes that fail. -/
  writes : Schedule WriteFault
  /-- The flushes that fail. -/
  flushes : Schedule IoError
  deriving DecidableEq, Repr

namespace Sink

/-- A sink on which every call succeeds. -/
def reliable : Sink := ⟨[], []⟩

/-- What offering one byte came to: the writes made, success or the failure, and the
schedule of the writes to come. -/
structure Put where
  /-- The writes, in order. -/
  calls : List Call
  /-- Whether the byte was taken. -/
  result : Except IoError Unit
  /-- The writes to come that fail. -/
  writes : Schedule WriteFault

/-- The same, with a write `c` made before. -/
def Put.after (c : Call) (p : Put) : Put := { p with calls := c :: p.calls }

/-- Write `b`. A write that fails transiently is followed by another. -/
def put (b : UInt8) : Schedule WriteFault → Put
  | [] => ⟨[.wrote b], .ok (), []⟩
  | (n + 1, f) :: rest => ⟨[.wrote b], .ok (), (n, f) :: rest⟩
  | (0, .nothing) :: rest => ⟨[.wroteNothing], .error .wroteNothing, rest⟩
  | (0, .failure e) :: rest =>
    if e.IsTransient then (put b rest).after (.writeFailed e.kind)
    else ⟨[.writeFailed e.kind], .error e, rest⟩

/-- What one flush came to: the failure, if it failed, and the schedule of the
flushes to come. -/
structure Flushed where
  /-- The failure, if any. -/
  failure? : Option IoError
  /-- The flushes to come that fail. -/
  flushes : Schedule IoError

/-- The call that a flush was. -/
def Flushed.call (f : Flushed) : Call :=
  match f.failure? with
  | none => .flushed
  | some e => .flushFailed e.kind

/-- Flush once. -/
def flush : Schedule IoError → Flushed
  | [] => ⟨none, []⟩
  | (n + 1, e) :: rest => ⟨none, (n, e) :: rest⟩
  | (0, e) :: rest => ⟨some e, rest⟩

theorem written_put_of_ok {b : UInt8} {s : Schedule WriteFault} (h : (put b s).result = .ok ()) :
    Call.written (put b s).calls = [b] := by
  fun_induction put b s <;> simp_all [Put.after, Call.written_cons, Call.written?]

end Sink

end Brainfuck
