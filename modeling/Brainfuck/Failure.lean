import Brainfuck.Program.Brackets
import Brainfuck.Stream.Call

/-!
# Failures

Why a program was not loaded, why a run stopped early, and the exit status each of
these stands for.
-/

namespace Brainfuck

/-- Why a program was not loaded. -/
inductive LoadError where
  /-- The file could not be opened; the path is given as it is shown. -/
  | cannotOpen (path : String) (cause : IoError)
  /-- The bytes could not be read. -/
  | cannotRead (cause : IoError)
  /-- There are `length` bytes, and only `limit` are allowed. -/
  | tooLarge (length limit : Nat)
  deriving DecidableEq, Repr

/-- Why a run stopped before the end of the program was reached and flushed. -/
inductive RunError where
  /-- The loop at `ip` could not be entered, as `capacity` loops already are. -/
  | stackOverflow (ip capacity : Nat)
  /-- A bracket without a partner was met. -/
  | unmatched (u : Unmatched)
  /-- A stream failed at `ip`. -/
  | stream (ip : Nat) (cause : IoError)
  /-- The interrupt switch was found on before the instruction at `ip`. -/
  | interrupted (ip : Nat)
  deriving DecidableEq, Repr

/-- The position that an error names. -/
def RunError.position : RunError → Nat
  | .stackOverflow ip _ => ip
  | .unmatched u => u.position
  | .stream ip _ => ip
  | .interrupted ip => ip

/-- A failure to load or to run. -/
inductive Failure where
  /-- The program was not loaded. -/
  | load (e : LoadError)
  /-- The run stopped early. -/
  | run (e : RunError)
  deriving DecidableEq, Repr

/-- The text of a failure to load. -/
def LoadError.message : LoadError → String
  | .cannotOpen path cause => s!"failed to open {path}: {cause.text}"
  | .cannotRead cause => s!"failed to read program: {cause.text}"
  | .tooLarge length limit =>
    s!"program too large: {length} bytes exceeds the {limit} byte limit"

/-- The text of a failure to run. -/
def RunError.message : RunError → String
  | .stackOverflow ip capacity =>
    s!"loop stack overflow at instruction {ip} (capacity {capacity})"
  | .unmatched u => s!"Unmatched bracket {u.bracket.quoted} at instruction {u.position}"
  | .stream ip cause => s!"I/O error at instruction {ip}: {cause.text}"
  | .interrupted ip => s!"Execution aborted: interrupted at instruction {ip}"

/-- The text of a failure. -/
def Failure.message : Failure → String
  | .load e => e.message
  | .run e => e.message

/-- The stream or file error behind a failure. -/
def Failure.cause? : Failure → Option IoError
  | .load (.cannotOpen _ cause) => some cause
  | .load (.cannotRead cause) => some cause
  | .run (.stream _ cause) => some cause
  | _ => none

/-- How a process ended. -/
inductive ExitStatus where
  /-- All went well. -/
  | success
  /-- The program could not be opened or read. -/
  | loadFailed
  /-- The command line was not understood. -/
  | usage
  /-- The program is too large. -/
  | programTooLarge
  /-- Too many loops were entered at once. -/
  | stackOverflow
  /-- A bracket has no partner. -/
  | unbalanced
  /-- A stream failed. -/
  | stream
  /-- The run was interrupted. -/
  | interrupted
  deriving DecidableEq, Repr

namespace ExitStatus

/-- The exit code of a status. -/
def code : ExitStatus → Nat
  | .success => 0
  | .loadFailed => 1
  | .usage => 2
  | .programTooLarge => 3
  | .stackOverflow => 4
  | .unbalanced => 5
  | .stream => 6
  | .interrupted => 130

/-- Every status, in ascending order of the codes. -/
def all : List ExitStatus :=
  [.success, .loadFailed, .usage, .programTooLarge, .stackOverflow, .unbalanced, .stream,
    .interrupted]

theorem code_inj {s t : ExitStatus} : s.code = t.code ↔ s = t := by
  cases s <;> cases t <;> simp [code]

end ExitStatus

/-- The status a failure to load stands for. -/
def LoadError.status : LoadError → ExitStatus
  | .cannotOpen .. => .loadFailed
  | .cannotRead .. => .loadFailed
  | .tooLarge .. => .programTooLarge

/-- The status a failure to run stands for. -/
def RunError.status : RunError → ExitStatus
  | .stackOverflow .. => .stackOverflow
  | .unmatched .. => .unbalanced
  | .stream .. => .stream
  | .interrupted .. => .interrupted

/-- The status that an outcome of a run stands for. -/
def RunError.statusOf : Except RunError Unit → ExitStatus
  | .ok () => .success
  | .error e => e.status

theorem RunError.statusOf_eq_unbalanced_iff {outcome : Except RunError Unit} :
    statusOf outcome = .unbalanced ↔ ∃ u, outcome = .error (.unmatched u) := by
  cases outcome with
  | ok _ => simp [statusOf]
  | error e => cases e <;> simp [statusOf, status]

/-- The status a failure stands for. -/
def Failure.status : Failure → ExitStatus
  | .load e => e.status
  | .run e => e.status

end Brainfuck
