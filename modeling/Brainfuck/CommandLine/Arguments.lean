import Brainfuck.FileTree
import Brainfuck.Settings.Basic
import Brainfuck.Text.ControlSequence

/-!
# Command-line arguments

Arguments are read from left to right. A value, whether of `--eof` or the file, is not
settled when it is met but when the next argument that is understood comes, or the end.
So an argument that is not understood is reported even if a value before it is faulty,
and of two faulty values the first is.

Short options may be joined in one argument. A single `-` is a value. Behind `--`
everything is a value.
-/

namespace Brainfuck

/-- An option without a value. -/
inductive Flag where
  /-- Check brackets before running. -/
  | strict
  /-- Show every step. -/
  | debug
  /-- Show the usage text. -/
  | help
  deriving DecidableEq, Repr

namespace Flag

/-- The long form of a flag. -/
def long : Flag → String
  | .strict => "--strict"
  | .debug => "--debug"
  | .help => "--help"

/-- The flag with a long form, given without the dashes. -/
def ofName? (name : Path) : Option Flag :=
  if name = Utf8.ofString "strict" then some .strict
  else if name = Utf8.ofString "debug" then some .debug
  else if name = Utf8.ofString "help" then some .help
  else none

/-- The flag with a short form. -/
def ofLetter? (c : Char) : Option Flag :=
  if c = 's' then some .strict
  else if c = 'd' then some .debug
  else if c = 'h' then some .help
  else none

end Flag

/-- An option or operand that has a value. -/
inductive Valued where
  /-- The option `--eof`. -/
  | eof
  /-- The program file. -/
  | file
  deriving DecidableEq, Repr

/-- How messages name something that has a value. -/
def Valued.shown : Valued → String
  | .eof => "--eof <POLICY>"
  | .file => "[FILE]"

/-- Why the arguments were not understood. -/
inductive ArgumentError where
  /-- There is no such option, or no room for another value. -/
  | unexpected (shown : String)
  /-- An option is given twice. -/
  | repeated (shown : String)
  /-- A flag is given a value. -/
  | unexpectedValue (value : String) (flag : Flag)
  /-- A value is missing. -/
  | missingValue (of : Valued)
  /-- A policy is given that does not exist. -/
  | badPolicy (value : String)
  /-- A value is not UTF-8. -/
  | notUtf8
  deriving DecidableEq, Repr

/-- The message of an error, ended by a line feed. Of what was given it says only what is
shown. A control sequence in it that is not ended stops where the words of the message
go on; but nothing stops one at the end of the message, which loses its last signs. -/
def ArgumentError.message : ArgumentError → String
  | .unexpected shown => s!"error: unexpected argument '{Text.plain shown}' found\n"
  | .repeated shown => s!"error: the argument '{Text.plain shown}' cannot be used multiple times\n"
  | .unexpectedValue value flag =>
    s!"error: unexpected value '{Text.plain value}' for '{flag.long}' found; no more were expected\n"
  | .missingValue of =>
    s!"error: a value is required for '{of.shown}' but none was supplied\n"
  | .badPolicy value =>
    s!"error: invalid value '{Text.plain value}' for '{Valued.eof.shown}': expected `zero` or `unchanged`, got `"
      ++ Text.plain (value ++ "`\n")
  | .notUtf8 => "error: invalid UTF-8 was detected in one or more arguments\n"

/-- What the arguments ask for. -/
structure Arguments where
  /-- The policy for the end of the input. -/
  eof : Option EofPolicy
  /-- The flags given. -/
  flags : List Flag
  /-- The program file. -/
  file : Option Path
  deriving DecidableEq, Repr

namespace Arguments

/-- A value that is not settled yet. -/
inductive Pending where
  /-- The option `--eof` was met, and its value if it came. -/
  | eof (value? : Option Path)
  /-- The file was met. -/
  | file (p : Path)
  deriving DecidableEq, Repr

/-- What the arguments so far ask for. -/
structure Reading where
  /-- What is settled. -/
  settled : Arguments
  /-- What is not. -/
  pending? : Option Pending
  deriving DecidableEq, Repr

namespace Reading

/-- Nothing has been met. -/
def start : Reading := ⟨⟨none, [], none⟩, none⟩

/-- Settle the value of `--eof`. -/
def settleEof (a : Arguments) (value : Path) : Except ArgumentError Arguments :=
  if a.eof.isSome then .error (.repeated Valued.eof.shown)
  else
    match Utf8.toString? value with
    | none => .error .notUtf8
    | some word =>
      match EofPolicy.ofWord? word.toList with
      | none => .error (.badPolicy word)
      | some policy => .ok { a with eof := some policy }

/-- Settle what is pending. -/
def settle (r : Reading) : Except ArgumentError Arguments :=
  match r.pending? with
  | none => .ok r.settled
  | some (.eof none) => .error (.missingValue .eof)
  | some (.eof (some value)) => settleEof r.settled value
  | some (.file p) =>
    if p = [] then .error (.missingValue .file) else .ok { r.settled with file := some p }

/-- A flag is met. -/
def flag (r : Reading) (f : Flag) : Except ArgumentError Reading := do
  let a ← r.settle
  if f ∈ a.flags then .error (.repeated f.long) else .ok ⟨{ a with flags := f :: a.flags }, none⟩

/-- Joined short options are met, the letters given. -/
def letters (r : Reading) : List (Option Char) → Except ArgumentError Reading
  | [] => .ok r
  | none :: rest =>
    .error (.unexpected ("-" ++ String.ofList ((none :: rest).map (·.getD '\uFFFD'))))
  | some c :: rest =>
    match Flag.ofLetter? c with
    | none => .error (.unexpected ("-" ++ String.singleton c))
    | some f => do letters (← r.flag f) rest

/-- A long option is met, with the value joined to it by an equals sign if there is one. -/
def long (r : Reading) (name : Path) (value? : Option Path) : Except ArgumentError Reading := do
  if name = Utf8.ofString "eof" then
    let a ← r.settle
    match value? with
    | none => .ok ⟨a, some (.eof none)⟩
    | some value => .ok ⟨← settleEof a value, none⟩
  else
    match Flag.ofName? name, value? with
    | some f, none => r.flag f
    | some f, some value => .error (.unexpectedValue (Utf8.toStringLossy value) f)
    | none, _ => .error (.unexpected ("--" ++ Utf8.toStringLossy name))

/-- A file has been met, settled or not. -/
def HasFile (r : Reading) : Prop :=
  match r.pending? with
  | some (.file _) => True
  | _ => r.settled.file.isSome = true

instance (r : Reading) : Decidable r.HasFile := by unfold HasFile; split <;> infer_instance

/-- An operand is met. -/
def operand (r : Reading) (word : Path) : Except ArgumentError Reading :=
  if r.HasFile then .error (.unexpected (Utf8.toStringLossy word))
  else do .ok ⟨← r.settle, some (.file word)⟩

/-- A word that is no option is met: the value of a pending `--eof`, or an operand. -/
def word (r : Reading) (w : Path) : Except ArgumentError Reading :=
  match r.pending? with
  | some (.eof none) => .ok { r with pending? := some (.eof (some w)) }
  | _ => r.operand w

end Reading

/-- The shape of one argument. -/
inductive Shape where
  /-- The argument `--`. -/
  | separator
  /-- Two dashes, a name, and perhaps an equals sign and a value. -/
  | long (name : Path) (value? : Option Path)
  /-- A dash and letters. -/
  | letters (text : Path)
  /-- Anything else. -/
  | word

/-- The name and the value on the two sides of the first equals sign. -/
def splitValue (text : Path) : Path × Option Path :=
  match text.dropWhile (· ≠ 61) with
  | [] => (text, none)
  | _ :: value => (text.takeWhile (· ≠ 61), some value)

/-- The shape of an argument. -/
def shape : Path → Shape
  | [45, 45] => .separator
  | 45 :: 45 :: rest =>
    let (name, value?) := splitValue rest
    .long name value?
  | [45] => .word
  | 45 :: letters => .letters letters
  | _ => .word

/-- Read arguments behind those already read. -/
def readFrom (r : Reading) : List Path → Except ArgumentError Reading
  | [] => .ok r
  | a :: rest =>
    match shape a with
    | .separator => rest.foldlM Reading.operand r
    | .long name value? => do readFrom (← r.long name value?) rest
    | .letters text => do readFrom (← r.letters (Utf8.decode text)) rest
    | .word => do readFrom (← r.word a) rest

/-- What the arguments ask for. -/
def read (arguments : List Path) : Except ArgumentError Arguments := do
  (← readFrom .start arguments).settle

/-- The settings the arguments decide. -/
def overrides (a : Arguments) : Overrides :=
  ⟨a.eof, if Flag.strict ∈ a.flags then some true else none⟩

end Arguments

end Brainfuck
