import Brainfuck.Proofs.Guarded.Words
import Brainfuck.Report.Caret

/-!
# Reports with their checks

A report on a failed run shows a piece of the program. As a machine with words and memory makes it
(see `Brainfuck.Proofs.Guarded.Words`), there are four checks: two sums give the position behind the
piece, the piece is cut out of the code, and a difference gives the column of the caret.

The cut is within the code, because the piece stops where the code does, and because nothing is cut
if that is not behind its start. So one fault is left, and it depends on the position alone: a sum
that does not fit in a word (`Guarded.failure_eq`).
-/

namespace Brainfuck

namespace Guarded

/-- Where the window around position `ip` stops. -/
def windowStop (code : Array UInt8) (ip : Nat) : Except Fault Nat := do
  let next ← add (← add ip Report.reach) 1
  return min next code.size

/-- The window and the caret line; nothing if the window is empty. -/
def context (code : Array UInt8) (ip : Nat) : Except Fault String := do
  let start := Report.windowStart ip
  let stop ← windowStop code ip
  if stop ≤ start then return ""
  else
    let shown ← slice code start stop
    let indent ← sub ip start
    return Report.withCaret shown indent

/-- A message at an instruction, and the program around it. -/
def located (text : String) (code : Array UInt8) (ip : Nat) : Except Fault String := do
  let shown ← context code ip
  return s!"{text} at instruction {ip}\n" ++ shown

/-- The report on a failed run of `code`. -/
def runError (code : Array UInt8) (e : RunError) : Except Fault String :=
  match e with
  | .unmatched u => located (Report.reason e) code u.position
  | .stackOverflow ip _ | .stream ip _ => located (Report.reason e) code ip
  | .interrupted _ => .ok (Report.runError code e)

/-- The report on a failure of `code`, by the program called `name` if it has a name. -/
def failure (name : Option String) (code : Array UInt8) : Failure → Except Fault String
  | .load e => .ok (Report.failure name code (.load e))
  | .run e => do return Report.signed name (← runError code e)

variable {code : Array UInt8} {ip : Nat}

theorem windowStop_eq (h : ip + Report.reach + 1 < words) :
    windowStop code ip = .ok (Report.windowStop code ip) := by
  rw [windowStop, add_eq (Nat.lt_of_succ_lt h), ok_bind, add_eq h]
  rfl

theorem windowStop_eq_error (h : words ≤ ip + Report.reach + 1) :
    windowStop code ip = .error .overflow := by
  by_cases hlast : ip + Report.reach < words
  · rw [windowStop, add_eq hlast, ok_bind, add_eq_error h, error_bind]
  · rw [windowStop, add_eq_error (Nat.not_lt.mp hlast), error_bind]

/-- **What is shown of the code is within the code**, so a fault can come from the sums only. -/
theorem context_eq (code : Array UInt8) (ip : Nat) :
    context code ip =
      if ip + Report.reach + 1 < words then .ok (Report.context code ip)
      else .error .overflow := by
  by_cases hwords : ip + Report.reach + 1 < words
  · rw [if_pos hwords, context, windowStop_eq hwords, ok_bind, Report.context]
    by_cases hempty : Report.windowStop code ip ≤ Report.windowStart ip
    · rw [if_pos hempty, if_pos hempty]
      rfl
    · have hstart : Report.windowStart ip ≤ Report.windowStop code ip := Nat.le_of_not_le hempty
      have hstop : Report.windowStop code ip ≤ code.size := Nat.min_le_right _ _
      have hcaret : Report.windowStart ip ≤ ip := Nat.sub_le _ _
      rw [if_neg hempty, if_neg hempty, slice_eq hstart hstop, ok_bind, sub_eq hcaret]
      rfl
  · rw [if_neg hwords, context, windowStop_eq_error (Nat.not_lt.mp hwords), error_bind]

theorem located_eq (text : String) (code : Array UInt8) (ip : Nat) :
    located text code ip =
      if ip + Report.reach + 1 < words then .ok (Report.located text code ip)
      else .error .overflow := by
  rw [located, context_eq]
  split <;> rfl

/-- **The report on a failed run meets no fault, unless its position is one of the last words.** An
interruption is reported without any check. -/
theorem failure_eq {e : RunError} (he : ∀ ip, e ≠ .interrupted ip) (name : Option String)
    (code : Array UInt8) :
    failure name code (.run e) =
      if e.position + Report.reach + 1 < words then .ok (Report.failure name code (.run e))
      else .error .overflow := by
  have hrun : runError code e =
      if e.position + Report.reach + 1 < words then .ok (Report.runError code e)
      else .error .overflow := by
    cases e with
    | interrupted ip => exact absurd rfl (he ip)
    | unmatched u => exact located_eq _ code u.position
    | stackOverflow ip _ => exact located_eq _ code ip
    | stream ip _ => exact located_eq _ code ip
  rw [failure, hrun]
  split <;> rfl

/-- A window that did not stop with the code, and one that starts behind its end, could not be cut
out of it. -/
example :
    slice #[43] (Report.windowStart 0) (0 + Report.reach + 1) = .error .outOfRange ∧
      slice #[43] (Report.windowStart 40) (Report.windowStop #[43] 40) = .error .outOfRange :=
  ⟨rfl, rfl⟩

end Guarded

end Brainfuck
