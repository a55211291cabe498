import Brainfuck.Interpreter.Run

/-!
# The log

The events that loading and running leave in the log, and the line of text each one is
written as: its level, its message, and its values by name.
-/

namespace Brainfuck

/-- What is logged. -/
inductive LogEvent where
  /-- A program of `length` executable bytes was loaded from a file. -/
  | loaded (path : String) (length : Nat)
  /-- The run of a program of `length` executable bytes starts. -/
  | started (length : Nat) (eof : EofPolicy)
  /-- A loop was entered or left. -/
  | loop (e : LoopEvent)
  /-- A run succeeded after this many steps. -/
  | finished (steps : Nat)
  deriving DecidableEq, Repr

/-- The name of a policy, as the log shows it. -/
def EofPolicy.logName : EofPolicy → String
  | .zero => "Zero"
  | .unchanged => "Unchanged"

/-- The line an event is written as. -/
def LogEvent.line : LogEvent → String
  | .loaded path length => s!"DEBUG loaded program path={path} len={length}"
  | .started length eof => s!"DEBUG starting execution len={length} eof={eof.logName}"
  | .loop (.entered ip depth) => s!"TRACE entered loop ip={ip} depth={depth}"
  | .loop (.exited ip start depth) =>
    s!"TRACE exited loop ip={ip} open={start} depth={depth}"
  | .finished steps => s!"DEBUG execution finished steps={steps}"

/-- What a run leaves in the log. -/
def Run.log (r : Run) : List LogEvent :=
  let finish : List LogEvent :=
    match r.outcome with
    | .ok () => [.finished r.turns.size]
    | .error _ => []
  .started r.length r.eof :: (r.turns.toList.filterMap fun t => t.event?.map .loop) ++ finish

end Brainfuck
