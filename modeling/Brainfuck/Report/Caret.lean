import Brainfuck.Failure

/-!
# Failure reports

The text that tells a user of a failure. A failure at an instruction shows the
program around it, with a caret in the line below under the instruction. Only
characters that take one column are shown, so that the caret stands where it should.
-/

namespace Brainfuck

namespace Report

/-- How many bytes are shown on each side of the instruction. -/
def reach : Nat := 32

/-- A byte as one column of text: itself if printable, a dot if not. -/
def column (b : UInt8) : Char := if 0x20 ≤ b ∧ b ≤ 0x7e then Char.ofNat b.toNat else '.'

/-- Where the window around position `ip` starts. -/
def windowStart (ip : Nat) : Nat := ip - reach

/-- Where it stops, which is not behind the end of the code. -/
def windowStop (code : Array UInt8) (ip : Nat) : Nat := min (ip + reach + 1) code.size

/-- The bytes shown around position `ip`. -/
def window (code : Array UInt8) (ip : Nat) : List UInt8 :=
  (code.extract (windowStart ip) (windowStop code ip)).toList

/-- A line of bytes, and below it a caret that is `indent` columns to the right of the first. Both
lines are indented by two. -/
def withCaret (shown : List UInt8) (indent : Nat) : String :=
  "  " ++ String.ofList (shown.map column) ++ "\n  " ++
    String.ofList (List.replicate indent ' ') ++ "^\n"

/-- The window and the caret line; nothing if the window is empty. -/
def context (code : Array UInt8) (ip : Nat) : String :=
  if windowStop code ip ≤ windowStart ip then ""
  else withCaret (window code ip) (ip - windowStart ip)

/-- A message at an instruction, and the program around it. -/
def located (text : String) (code : Array UInt8) (ip : Nat) : String :=
  s!"{text} at instruction {ip}\n" ++ context code ip

/-- What the report on a failed run says first. -/
def reason : RunError → String
  | .unmatched u => s!"Runtime error: unmatched bracket {u.bracket.quoted}"
  | .stackOverflow _ capacity => s!"Runtime error: loop nesting exceeds {capacity} entered loops"
  | .stream _ cause => s!"I/O error: {cause.text}"
  | .interrupted _ => "Execution aborted: interrupted"

/-- The report on a failed run of `code`. An interruption has no place in the program to show. -/
def runError (code : Array UInt8) (e : RunError) : String :=
  match e with
  | .unmatched u => located (reason e) code u.position
  | .stackOverflow ip _ | .stream ip _ => located (reason e) code ip
  | .interrupted ip => s!"{reason e} at instruction {ip}\n"

/-- A message of the program called `name`, if it has a name. -/
def signed (name : Option String) (text : String) : String :=
  match name with
  | some name => s!"{name}: {text}"
  | none => text

/-- The report on a failure of `code`, by the program called `name` if it has a name. -/
def failure (name : Option String) (code : Array UInt8) : Failure → String
  | .load e => signed name (e.message ++ "\n")
  | .run e => signed name (runError code e)

end Report

end Brainfuck
