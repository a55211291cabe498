import Brainfuck.Text.Utf8

/-!
# Control sequences

A text for a terminal holds characters to be shown and control sequences, which set
colours, move the cursor or name the window. `plain` keeps what is shown.

A control sequence begins with an escape byte, and what comes next decides where it
ends: behind `[` with a byte 40-7E, behind `]` with a bell, behind bytes 20-2F with a
byte 30-7E; `P`, `X`, `^` and `_` open a string for a device; any other byte 30-7E is
the end. A cancelling byte, 18 or 1A, breaks every sequence off, and an escape byte
begins a new one. So does a byte that is shown even inside a sequence: a continuation
byte, whose lead byte is then lost, and but for the two kinds of string a blank byte
that is not a space. What is not ended takes the rest of the text.
-/

namespace Brainfuck

namespace Text

/-- Where a reader of text for a terminal stands. -/
inductive ControlState where
  /-- Outside control sequences. -/
  | outside
  /-- Behind an escape byte. -/
  | escape
  /-- Behind an escape byte and bytes 20-2F. -/
  | designation
  /-- Behind an escape byte and `[`. -/
  | control
  /-- In a command to the system, opened by `]`. -/
  | command
  /-- In a string for a device. -/
  | device
  deriving DecidableEq, Repr

namespace ControlState

/-- A tab, line feed, form feed or carriage return, which is shown wherever it is met but
in commands and strings. -/
def IsBlankByte (b : UInt8) : Prop := b = 0x09 ∨ b = 0x0A ∨ b = 0x0C ∨ b = 0x0D

instance (b : UInt8) : Decidable (IsBlankByte b) := by unfold IsBlankByte; infer_instance

/-- A continuation byte of UTF-8, which is shown wherever it is met. -/
def IsContinuation (b : UInt8) : Prop := 0x80 ≤ b ∧ b ≤ 0xBF

instance (b : UInt8) : Decidable (IsContinuation b) := by unfold IsContinuation; infer_instance

/-- A byte that is shown by itself outside control sequences: printable ASCII, or the
lead of a longer character. -/
def IsGraphic (b : UInt8) : Prop := (0x20 ≤ b ∧ b ≤ 0x7E) ∨ (0xC2 ≤ b ∧ b ≤ 0xF4)

instance (b : UInt8) : Decidable (IsGraphic b) := by unfold IsGraphic; infer_instance

/-- A byte that is shown when it is met in a state. -/
def Shows (s : ControlState) (b : UInt8) : Prop :=
  match s with
  | .outside => IsContinuation b ∨ IsBlankByte b ∨ IsGraphic b
  | .escape | .designation | .control => IsContinuation b ∨ IsBlankByte b
  | .command | .device => IsContinuation b

instance (s : ControlState) (b : UInt8) : Decidable (s.Shows b) := by
  cases s <;> unfold Shows <;> infer_instance

/-- The state behind an escape byte and one more byte. -/
def ofIntroducer (b : UInt8) : ControlState :=
  if 0x20 ≤ b ∧ b ≤ 0x2F then .designation
  else if b = 0x5B then .control
  else if b = 0x5D then .command
  else if b = 0x50 ∨ b = 0x58 ∨ b = 0x5E ∨ b = 0x5F then .device
  else if 0x30 ≤ b ∧ b ≤ 0x7E then .outside
  else .escape

/-- The state behind a byte that is not shown. -/
def next (s : ControlState) (b : UInt8) : ControlState :=
  if b = 0x18 ∨ b = 0x1A then .outside
  else if b = 0x1B then .escape
  else
    match s with
    | .escape => ofIntroducer b
    | .designation => if 0x30 ≤ b ∧ b ≤ 0x7E then .outside else .designation
    | .control => if 0x40 ≤ b ∧ b ≤ 0x7E then .outside else .control
    | .command => if b = 0x07 then .outside else .command
    | .outside => .outside
    | .device => .device

end ControlState

/-- The bytes that are shown of those that come in a state. A byte that is shown ends
the control sequence it is met in. -/
def shown (s : ControlState) : List UInt8 → List UInt8
  | [] => []
  | b :: rest => if s.Shows b then b :: shown .outside rest else shown (s.next b) rest

/-- What is shown of a text. -/
def plain (text : String) : String := Utf8.toStringLossy (shown .outside (Utf8.ofString text))

end Text

end Brainfuck
