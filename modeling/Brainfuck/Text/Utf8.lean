/-!
# UTF-8

Decoding bytes as UTF-8, strictly or with replacement. A character is a lead byte and
the continuation bytes it calls for; the first of these may be confined to part of
the range 80-BF, which shuts out overlong forms, surrogates and numbers beyond the
last character.

With replacement, each longest piece of input that starts a character and cannot be
completed becomes one U+FFFD, and so does each byte that starts none.
-/

namespace Brainfuck

namespace Utf8

/-- A character that is being decoded: the bits so far, the continuation bytes still
called for, and the range of the next one. -/
structure Partial where
  /-- The bits so far. -/
  bits : Nat
  /-- How many continuation bytes are still called for. -/
  owed : Nat
  /-- The least value of the next byte. -/
  low : UInt8
  /-- The greatest value of the next byte. -/
  high : UInt8

/-- What a lead byte starts; none if it starts no character. -/
def lead? (b : UInt8) : Option Partial :=
  if b ≤ 0x7F then some ⟨b.toNat, 0, 0x80, 0xBF⟩
  else if b < 0xC2 then none
  else if b ≤ 0xDF then some ⟨b.toNat - 0xC0, 1, 0x80, 0xBF⟩
  else if b = 0xE0 then some ⟨b.toNat - 0xE0, 2, 0xA0, 0xBF⟩
  else if b = 0xED then some ⟨b.toNat - 0xE0, 2, 0x80, 0x9F⟩
  else if b ≤ 0xEF then some ⟨b.toNat - 0xE0, 2, 0x80, 0xBF⟩
  else if b = 0xF0 then some ⟨b.toNat - 0xF0, 3, 0x90, 0xBF⟩
  else if b ≤ 0xF3 then some ⟨b.toNat - 0xF0, 3, 0x80, 0xBF⟩
  else if b = 0xF4 then some ⟨b.toNat - 0xF0, 3, 0x80, 0x8F⟩
  else none

/-- The character after one more byte; none if the byte cannot come next. -/
def Partial.next? (p : Partial) (b : UInt8) : Option Partial :=
  if p.low ≤ b ∧ b ≤ p.high then some ⟨p.bits * 64 + (b.toNat - 0x80), p.owed - 1, 0x80, 0xBF⟩
  else none

/-- What a decoder has given out, each character as itself and each undecodable piece
as none, and the character it has begun. -/
structure Decoded where
  /-- The characters and undecodable pieces, in order. -/
  given : Array (Option Char)
  /-- The character begun, if one is. -/
  begun? : Option Partial

namespace Decoded

/-- The decoder when the piece begun calls for nothing more, or for more bytes. -/
def settle (d : Decoded) (p : Partial) : Decoded :=
  if p.owed = 0 then ⟨d.given.push (some (Char.ofNat p.bits)), none⟩ else ⟨d.given, some p⟩

/-- The decoder after a byte `b` that continues nothing. -/
def start (d : Decoded) (b : UInt8) : Decoded :=
  match lead? b with
  | none => ⟨d.given.push none, none⟩
  | some p => d.settle p

/-- The decoder after one more byte. A byte that does not continue the character begun
leaves that one undecodable and is looked at afresh. -/
def feed (d : Decoded) (b : UInt8) : Decoded :=
  match d.begun? with
  | none => d.start b
  | some p =>
    match p.next? b with
    | none => Decoded.start ⟨d.given.push none, none⟩ b
    | some p => d.settle p

/-- All that was given out when no more bytes come. -/
def finish (d : Decoded) : List (Option Char) :=
  if d.begun?.isSome then (d.given.push none).toList else d.given.toList

end Decoded

/-- The characters and undecodable pieces of `bytes`. -/
def decode (bytes : List UInt8) : List (Option Char) :=
  (bytes.foldl Decoded.feed ⟨#[], none⟩).finish

/-- The text that bytes decode to, if all of them do. -/
def toString? (bytes : List UInt8) : Option String :=
  ((decode bytes).mapM id).map String.ofList

/-- The text that bytes decode to, with U+FFFD for each piece that does not decode. -/
def toStringLossy (bytes : List UInt8) : String :=
  String.ofList ((decode bytes).map (·.getD '\uFFFD'))

/-- The bytes of a text. -/
def ofString (s : String) : List UInt8 := s.toUTF8.toList

end Utf8

end Brainfuck
