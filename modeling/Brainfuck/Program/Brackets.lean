import Brainfuck.Instruction

/-!
# Matching brackets

Two readings of the brackets of a program. `Brackets.check` goes through the whole
program once, with the loops still open on a stack, and names the bracket at
fault. `Brackets.closeOf?` starts behind one `[` and counts the loops opened inside
it, to find the `]` that closes it.
-/

namespace Brainfuck

/-- A bracket without a partner. -/
structure Unmatched where
  /-- Its position in the program. -/
  position : Nat
  /-- Which bracket it is. -/
  bracket : Bracket
  deriving DecidableEq, Repr

namespace Brackets

/-- The check of what stands from `position` on, when the loops that start at `opened`
are still open, the innermost first. -/
def checkFrom (position : Nat) (opened : List Nat) : List UInt8 → Except Unmatched Unit
  | [] =>
    match opened with
    | [] => .ok ()
    | p :: _ => .error ⟨p, .opening⟩
  | b :: rest =>
    match Bracket.ofByte? b with
    | none => checkFrom (position + 1) opened rest
    | some .opening => checkFrom (position + 1) (position :: opened) rest
    | some .closing =>
      match opened with
      | [] => .error ⟨position, .closing⟩
      | _ :: outer => checkFrom (position + 1) outer rest

/-- Check that every bracket has a partner. At fault is the first `]` that closes
nothing, or else the innermost `[` still open at the end. -/
def check (code : List UInt8) : Except Unmatched Unit := checkFrom 0 [] code

/-- The position of the `]` at or after `position` that ends the loop it stands in,
when `inner` loops opened inside that loop are still open. -/
def closeFrom? (code : Array UInt8) (inner position : Nat) : Option Nat :=
  if h : position < code.size then
    match Bracket.ofByte? code[position] with
    | none => closeFrom? code inner (position + 1)
    | some .opening => closeFrom? code (inner + 1) (position + 1)
    | some .closing =>
      match inner with
      | 0 => some position
      | inner + 1 => closeFrom? code inner (position + 1)
  else none
termination_by code.size - position

/-- The position of the `]` that closes the `[` at `position`. -/
def closeOf? (code : Array UInt8) (position : Nat) : Option Nat := closeFrom? code 0 (position + 1)

end Brackets

end Brainfuck
