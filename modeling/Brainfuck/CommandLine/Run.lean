import Brainfuck.CommandLine.Usage
import Brainfuck.Program.Loading
import Brainfuck.Report.Caret
import Brainfuck.Report.StepTable
import Brainfuck.Interpreter.Run
import Brainfuck.Settings.Resolution

/-!
# The command

The command reads its arguments, resolves the settings, loads the program, checks its
brackets if it is strict, and runs it. The first of these that fails decides the exit
code; no input is read and no output is written before the run.
-/

namespace Brainfuck

namespace CommandLine

/-- A program ready to run, and how to run it. -/
structure Job where
  /-- The program. -/
  program : Program
  /-- What `,` does at the end of the input. -/
  eof : EofPolicy
  /-- Every step is shown. -/
  debug : Bool

/-- An end before any run: the exit status and what is said. -/
structure Refusal where
  /-- The exit status. -/
  status : ExitStatus
  /-- The text for the error output. -/
  text : String
  deriving DecidableEq, Repr

/-- What a failure before the run comes to. -/
def Refusal.ofFailure (name : String) (code : Array UInt8) (f : Failure) : Refusal :=
  ⟨f.status, Report.failure (some name) code f⟩

/-- The arguments that ask for a run, with the file to run. -/
def request (name : String) (arguments : List Path) : Except Refusal (Arguments × Path) :=
  match Arguments.read arguments with
  | .error e => .error ⟨.usage, argumentReport name e⟩
  | .ok a =>
    if Flag.help ∈ a.flags then .error ⟨.success, usage name⟩
    else
      match a.file with
      | none => .error ⟨.usage, usage name⟩
      | some file => .ok (a, file)

/-- Load the program and check it as the settings ask, given what was found on opening
its file. -/
def prepare (name : String) (a : Arguments) (file : Path) (settings : Settings)
    (opened : Except IoError Source) : Except Refusal Job :=
  match Program.ofFile (Utf8.toStringLossy file) opened with
  | .error e => .error (.ofFailure name #[] (.load e))
  | .ok program =>
    let checked := if settings.strict then program.checkBrackets else .ok ()
    match checked with
    | .error e => .error (.ofFailure name program.code (.run e))
    | .ok () => .ok ⟨program, settings.eof, Flag.debug ∈ a.flags⟩

/-- The interpreter for a job: a machine of the default sizes, with a switch to stop it. -/
def Job.interpreter (job : Job) (input : Source) : Interpreter :=
  { Interpreter.ofMachine default input .reliable with
    eof := job.eof
    interrupt := ⟨false, true, none⟩ }

/-- The step table of a run, header included, as far as the job asks for it. -/
def Job.table (job : Job) (steps : List Step) : String :=
  if job.debug then
    steps.foldl (fun text s => text ++ Report.stepRow s ++ "\n") (Report.stepHeader ++ "\n")
  else ""

/-- The report on how a run ended, if it failed. -/
def Job.report (job : Job) (name : String) (outcome : Except RunError Unit) : String :=
  match outcome with
  | .ok () => ""
  | .error e => Report.failure (some name) job.program.code (.run e)

/-- A command as it is called. -/
structure Invocation where
  /-- The name it is called by. -/
  name : String
  /-- Its arguments. -/
  arguments : List Path
  /-- The environment. -/
  environment : Environment
  /-- What opening a path finds. -/
  openAt : Path → Except IoError Source
  /-- Its input. -/
  input : Source

/-- A command that ended. -/
structure Ended where
  /-- The exit status. -/
  status : ExitStatus
  /-- What it wrote to its output. -/
  output : List UInt8
  /-- What it wrote to its error output. -/
  errors : String
  /-- What is left of its input. -/
  input : Source
  deriving DecidableEq, Repr

/-- Carry out a command; none if its run needs more than `fuel` attempts at a step. -/
def run? (fuel : Nat) (i : Invocation) : Option Ended :=
  let job : Except Refusal Job := do
    let (a, file) ← request i.name i.arguments
    let document := i.openAt i.environment.documentPath
    let settings := (Settings.resolve a.overrides i.environment document).1
    prepare i.name a file settings (i.openAt file)
  match job with
  | .error r => some ⟨r.status, [], r.text, i.input⟩
  | .ok job =>
    ((job.interpreter i.input).run? fuel job.program).map fun r =>
      ⟨r.status, r.output, job.table r.steps.toList ++ job.report i.name r.outcome, r.after.input⟩

end CommandLine

end Brainfuck
