import Brainfuck.Settings.Basic

/-!
# The settings document

A document is read line by line. A line in brackets is a header and starts a section;
only lines in a section `interpreter` count. There, a line with an equals sign assigns
a value to a key. The last assignment to a key is the one that holds, also if its
value is not understood; blank lines, lines that start with `#`, and lines without an
equals sign say nothing.

The values are looked at when all lines were read, key by key. The keys are in no particular
order, and so are the warnings.
-/

namespace Brainfuck

namespace Document

/-- An assignment of a value to a key. -/
structure Assignment where
  /-- The key. -/
  key : List Char
  /-- The value. -/
  value : List Char
  deriving DecidableEq, Repr

/-- The text between a bracket at the start and one at the end, if the line has both. -/
def header? (line : List Char) : Option (List Char) :=
  if line.head? = some '[' ∧ line.getLast? = some ']' then some line.tail.dropLast else none

/-- The text without the pair of double quotes around it, if there is one. -/
def unquoted (value : List Char) : List Char :=
  if 2 ≤ value.length ∧ value.head? = some '"' ∧ value.getLast? = some '"' then
    value.tail.dropLast
  else value

/-- The assignment on a line: what stands before the first equals sign, and what stands
behind it. -/
def assignment? (line : List Char) : Option Assignment :=
  match line.dropWhile (· ≠ '=') with
  | [] => none
  | _ :: value =>
    some ⟨Text.trim (line.takeWhile (· ≠ '=')), unquoted (Text.trim value)⟩

/-- The name of the section that is read. -/
def sectionName : List Char := "interpreter".toList

/-- Values of different keys, in no particular order. -/
structure Values where
  /-- The key and the value, for each key that has one. -/
  entries : List Assignment
  /-- No key has two values. -/
  nodup : (entries.map (·.key)).Nodup

namespace Values

/-- No key has a value. -/
def empty : Values := ⟨[], .nil⟩

/-- Give a key its value, in place of the value that it had. -/
def assign (a : Assignment) (vs : Values) : Values where
  entries := a :: vs.entries.filter (·.key ≠ a.key)
  nodup := by
    rw [List.map_cons, List.nodup_cons]
    refine ⟨fun hmem => ?_, vs.nodup.sublist (List.filter_sublist.map _)⟩
    obtain ⟨b, hb, hkey⟩ := List.mem_map.mp hmem
    exact of_decide_eq_true (List.mem_filter.mp hb).2 hkey

end Values

/-- What was read so far. -/
structure Reading where
  /-- The lines so far end in the section that is read. -/
  inside : Bool
  /-- The last value of each key that was assigned one. -/
  values : Values

namespace Reading

/-- Nothing was read. -/
def start : Reading := ⟨false, .empty⟩

/-- Read one more line, which has no blanks at its ends. -/
def line (r : Reading) (line : List Char) : Reading :=
  if line.isEmpty ∨ line.head? = some '#' then r
  else
    match header? line with
    | some name => { r with inside := name = sectionName }
    | none =>
      if r.inside then
        match assignment? line with
        | some a => { r with values := r.values.assign a }
        | none => r
      else r

end Reading

/-- The lines of a document, without the blanks at their ends. -/
def lines (text : List Char) : List (List Char) := (Text.lines text).map Text.trim

/-- The last value of each key that a document assigns one. -/
def values (text : List Char) : Values := ((lines text).foldl Reading.line .start).values

/-- Look at one more value: a word that is understood is set, and anything else warned about. -/
def consider (found : Settings × List Warning) (a : Assignment) : Settings × List Warning :=
  let (settings, warnings) := found
  if a.key = "eof".toList then
    match EofPolicy.ofWord? a.value with
    | some eof => ({ settings with eof := eof }, warnings)
    | none => (settings, warnings ++ [.documentEof (String.ofList a.value)])
  else if a.key = "strict".toList then
    match Settings.truthOfWord? a.value with
    | some strict => ({ settings with strict := strict }, warnings)
    | none => (settings, warnings ++ [.documentStrict (String.ofList a.value)])
  else (settings, warnings ++ [.documentKey (String.ofList a.key)])

/-- The settings and the warnings that values come to, looked at in this order. -/
def settle (entries : List Assignment) : Settings × List Warning :=
  entries.foldl consider (default, [])

/-- The settings in a document, and the warnings it calls for. -/
def read (text : List Char) : Settings × List Warning := settle (values text).entries

end Document

end Brainfuck
