/-!
# Blanks and lines

The characters with the property White_Space, trimming them from the ends of a text,
and cutting a text into its lines.
-/

namespace Brainfuck

namespace Text

/-- The character has the property White_Space. -/
def IsBlank (c : Char) : Prop :=
  let n := c.toNat
  (9 ≤ n ∧ n ≤ 13) ∨ n = 0x20 ∨ n = 0x85 ∨ n = 0xA0 ∨ n = 0x1680 ∨ (0x2000 ≤ n ∧ n ≤ 0x200A) ∨
    n = 0x2028 ∨ n = 0x2029 ∨ n = 0x202F ∨ n = 0x205F ∨ n = 0x3000

instance (c : Char) : Decidable (IsBlank c) := by unfold IsBlank; infer_instance

/-- The text without the blanks at its start. -/
def trimStart (cs : List Char) : List Char := cs.dropWhile fun c => IsBlank c

/-- The text without the blanks at its end. -/
def trimEnd (cs : List Char) : List Char := (trimStart cs.reverse).reverse

/-- The text without the blanks at either end. -/
def trim (cs : List Char) : List Char := trimEnd (trimStart cs)

/-- The text with ASCII capitals made small. -/
def lowered (cs : List Char) : List Char := cs.map Char.toLower

/-- The pieces of a text between line feeds; behind `done`, which holds the start of
the first piece in reverse. -/
def splitLines (done : List Char) : List Char → List (List Char)
  | [] => [done.reverse]
  | c :: cs => if c = '\n' then done.reverse :: splitLines [] cs else splitLines (c :: done) cs

/-- A line that ends in a line feed, without the carriage return before it. -/
def dropReturn (line : List Char) : List Char :=
  match line.reverse with
  | '\r' :: rest => rest.reverse
  | _ => line

/-- The lines of a text. A line ends at a line feed, or at a carriage return and a line
feed; what stands behind the last line feed is a line if it is not empty. -/
def lines (cs : List Char) : List (List Char) :=
  match (splitLines [] cs).reverse with
  | [] => []
  | last :: ended =>
    (ended.map dropReturn).reverse ++ if last.isEmpty then [] else [last]

end Text

end Brainfuck
