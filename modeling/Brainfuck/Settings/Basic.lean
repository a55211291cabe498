import Brainfuck.Interpreter.Basic
import Brainfuck.Text.Blank

/-!
# Settings

What can be set from outside a program: what `,` does at the end of the input, and
whether brackets are checked before running. Each place that may set them does so in
words, read here, and leaves a warning for a word it does not know.
-/

namespace Brainfuck

/-- The settings of a run. -/
@[ext] structure Settings where
  /-- What `,` does at the end of the input. -/
  eof : EofPolicy
  /-- Brackets are checked before running. -/
  strict : Bool
  deriving DecidableEq, Repr

/-- A zero at the end of the input, and no check. -/
instance : Inhabited Settings := ⟨⟨.zero, false⟩⟩

/-- Settings of which each may be left to someone else. -/
structure Overrides where
  /-- What `,` does at the end of the input. -/
  eof : Option EofPolicy
  /-- Brackets are checked before running. -/
  strict : Option Bool
  deriving DecidableEq, Repr

namespace Overrides

/-- What `o` leaves open, `settings` decides, field by field. -/
def completedBy (o : Overrides) (settings : Settings) : Settings :=
  ⟨o.eof.getD settings.eof, o.strict.getD settings.strict⟩

/-- What `o` leaves open, `p` may decide, field by field. -/
def orElse (o p : Overrides) : Overrides := ⟨o.eof <|> p.eof, o.strict <|> p.strict⟩

end Overrides

/-- The policy a word stands for; blanks around it and the case of ASCII letters do not
matter. -/
def EofPolicy.ofWord? (word : List Char) : Option EofPolicy :=
  let w := String.ofList (Text.lowered (Text.trim word))
  if w = "zero" ∨ w = "0" then some .zero
  else if w = "unchanged" ∨ w = "keep" then some .unchanged
  else none

/-- The truth value a word stands for; blanks around it and the case of ASCII letters do
not matter. -/
def Settings.truthOfWord? (word : List Char) : Option Bool :=
  let w := String.ofList (Text.lowered (Text.trim word))
  if w = "true" ∨ w = "1" ∨ w = "yes" ∨ w = "on" then some true
  else if w = "false" ∨ w = "0" ∨ w = "no" ∨ w = "off" then some false
  else none

/-- Something that was set and not understood. -/
inductive Warning where
  /-- The document sets the end of input to an unknown word. -/
  | documentEof (word : String)
  /-- The document sets the check to an unknown word. -/
  | documentStrict (word : String)
  /-- The document sets something that does not exist. -/
  | documentKey (key : String)
  /-- The environment sets the end of input to an unknown word. -/
  | environmentEof (word : String)
  /-- The environment sets the check to an unknown word. -/
  | environmentStrict (word : String)
  deriving DecidableEq, Repr

namespace Warning

/-- The line a warning is written as. -/
def line : Warning → String
  | .documentEof word => s!"WARN bf.toml: ignoring unrecognised eof value value={word}"
  | .documentStrict word => s!"WARN bf.toml: ignoring unrecognised strict value value={word}"
  | .documentKey key => s!"WARN bf.toml: ignoring unknown key key={key}"
  | .environmentEof word => s!"WARN ignoring unrecognised BF_EOF value={word}"
  | .environmentStrict word => s!"WARN ignoring unrecognised BF_STRICT value={word}"

/-- Warnings in the order of their lines. -/
def sorted (ws : List Warning) : List Warning := ws.mergeSort fun v w => v.line ≤ w.line

end Warning

end Brainfuck
