import Brainfuck.FileTree
import Brainfuck.Settings.Document
import Brainfuck.Text.Utf8

/-!
# Resolving settings

Settings come from three places: options of the command line, the environment, and a
document in the user's configuration directory. Each setting is taken, on its own, from
the first of them that gives a word it understands, and is as by default if none does.
The environment and the document are read in any case, and warned about.
-/

namespace Brainfuck

/-- The variables that matter, as far as they are set. -/
structure Environment where
  /-- The variable `BF_EOF`. -/
  eof : Option (List UInt8)
  /-- The variable `BF_STRICT`. -/
  strict : Option (List UInt8)
  /-- The variable `XDG_CONFIG_HOME`. -/
  configHome : Option (List UInt8)
  /-- The variable `HOME`. -/
  home : List UInt8

namespace Environment

/-- The text of a variable; one that is not UTF-8 counts as unset. -/
def text? (value : Option (List UInt8)) : Option (List Char) :=
  (value.bind Utf8.toString?).map (·.toList)

/-- What the environment sets. -/
def overrides (env : Environment) : Overrides :=
  ⟨(text? env.eof).bind EofPolicy.ofWord?, (text? env.strict).bind Settings.truthOfWord?⟩

/-- The warning a variable calls for: it is set to a text that `ofWord?` does not understand. -/
def warning? {α : Type} (value : Option (List UInt8)) (ofWord? : List Char → Option α)
    (warn : String → Warning) : Option Warning :=
  match text? value with
  | some word => if (ofWord? word).isSome then none else some (warn (String.ofList word))
  | none => none

/-- The warnings the environment calls for. -/
def warnings (env : Environment) : List Warning :=
  (warning? env.eof EofPolicy.ofWord? .environmentEof).toList ++
    (warning? env.strict Settings.truthOfWord? .environmentStrict).toList

/-- Where the settings document is looked for. -/
def documentPath (env : Environment) : Path :=
  let name := Utf8.ofString "bf.toml"
  match env.configHome.filter fun value => (Utf8.toString? value).isSome with
  | some directory => Path.join directory name
  | none => Path.join (Path.join env.home (Utf8.ofString ".config")) name

end Environment

namespace Source

/-- All that a source delivers up to its end, if no read fails for good. -/
def contents? (s : Source) : Option (List UInt8) := s.contents.toOption

end Source

namespace Settings

/-- The settings in the document, and its warnings. A document that is missing, cannot be
read or is not UTF-8 says nothing. -/
def ofDocument (opened : Except IoError Source) : Settings × List Warning :=
  let bytes? := opened.toOption.bind Source.contents?
  match bytes?.bind Utf8.toString? with
  | some text => Document.read text.toList
  | none => (default, [])

/-- The settings that options, environment and document come to, and the warnings in
order of their lines. -/
def resolve (options : Overrides) (env : Environment) (opened : Except IoError Source) :
    Settings × List Warning :=
  let (document, warnings) := ofDocument opened
  ((options.orElse env.overrides).completedBy document, Warning.sorted (env.warnings ++ warnings))

end Settings

end Brainfuck
