import Brainfuck.CommandLine.Run

/-!
# The command `bf`

The outer layer: it asks the system for arguments, variables and files, and makes the
stream calls of a run. What to do with them, and what to say, is decided by
`CommandLine` and by `Config.step`. Before each instruction that needs a stream the
call is made here, and the interpreter is told how it went.
-/

namespace Brainfuck

namespace Main

/-- The failure that an error of the system stands for. -/
def ioError : IO.Error → IoError
  | .noFileOrDirectory .. => .notFound
  | .inappropriateType _ code details =>
    if code = 20 then .notADirectory
    else if code = 21 then .isADirectory
    else ⟨.other, details⟩
  | .interrupted _ _ details => ⟨.interrupted, details⟩
  | e => ⟨.other, toString e⟩

/-- Act, again as long as the failure is transient, and give the failure if there is one. -/
partial def attempt {α : Type} (action : IO α) : IO (Except IoError α) := do
  try
    return .ok (← action)
  catch e =>
    if (ioError e).IsTransient then attempt action else return .error (ioError e)

/-- Open a file and read it. -/
def openAt (p : Path) : IO (Except IoError Source) := do
  match Utf8.toString? p with
  | none => return .error .notFound
  | some name =>
    match ← attempt (IO.FS.Handle.mk name .read) with
    | .error e => return .error e
    | .ok file =>
      match ← attempt file.readBinToEnd with
      | .error e => return .ok [.failure e]
      | .ok bytes => return .ok (.ofBytes bytes.data.toList)

/-- The variables that matter. -/
def environment : IO Environment := do
  let value (name : String) : IO (Option (List UInt8)) :=
    return (← IO.getEnv name).map Utf8.ofString
  return {
    eof := ← value "BF_EOF"
    strict := ← value "BF_STRICT"
    configHome := ← value "XDG_CONFIG_HOME"
    home := (← value "HOME").getD [] }

/-- Make the stream calls that the next instruction needs, and let the interpreter meet
their answers. -/
def connect (code : Array UInt8) (c : Config) : IO Config := do
  match code[c.ip]?.bind Instruction.ofByte? with
  | some .output =>
    let cell := c.host.machine.tape.cell
    let stdout ← IO.getStdout
    match ← attempt (stdout.write ⟨#[cell]⟩) with
    | .ok _ => return c
    | .error e =>
      return { c with host := { c.host with output := { c.host.output with
        writes := [(0, .failure e)] } } }
  | some .input =>
    let stdout ← IO.getStdout
    match ← attempt stdout.flush with
    | .error e =>
      return { c with host := { c.host with output := { c.host.output with flushes := [(0, e)] } } }
    | .ok _ =>
      let stdin ← IO.getStdin
      let arrived : Source :=
        match ← attempt (stdin.read 1) with
        | .ok bytes => if bytes.isEmpty then [.finish] else .ofBytes bytes.data.toList
        | .error e => [.failure e]
      return { c with host := { c.host with input := arrived } }
  | _ => return c

/-- Execute to the end, with a row of the step table for every step if `debug`. -/
partial def execute (code : Array UInt8) (debug : Bool) (c : Config) : IO Halt := do
  match (← connect code c).step code with
  | .finished _ => return .completed
  | .failed e calls _ => return .failed e calls
  | .advanced turn c =>
    if debug then IO.eprintln (Report.stepRow turn.step)
    execute code debug c

/-- Run a job and report how it ended. -/
def run (name : String) (job : CommandLine.Job) : IO ExitStatus := do
  IO.eprint (job.table [])
  let code := job.program.code
  let halt ← execute code job.debug (job.interpreter []).start
  let stdout ← IO.getStdout
  let flushFailure? : Option IoError :=
    match ← attempt stdout.flush with
    | .ok _ => none
    | .error e => some e
  let outcome := halt.outcome code.size flushFailure?
  IO.eprint (job.report name outcome)
  return RunError.statusOf outcome

/-- Carry out the command called `name`. -/
def command (name : String) (arguments : List Path) : IO ExitStatus := do
  let (a, file) ←
    match CommandLine.request name arguments with
    | .error r => IO.eprint r.text; return r.status
    | .ok request => pure request
  let env ← environment
  let (settings, warnings) := Settings.resolve a.overrides env (← openAt env.documentPath)
  for w in warnings do IO.eprintln w.line
  match CommandLine.prepare name a file settings (← openAt file) with
  | .error r => IO.eprint r.text; return r.status
  | .ok job => run name job

end Main

end Brainfuck

/-- The command `bf`. -/
def main (arguments : List String) : IO UInt32 := do
  let status ← Brainfuck.Main.command "bf" (arguments.map Brainfuck.Utf8.ofString)
  return UInt32.ofNat status.code
