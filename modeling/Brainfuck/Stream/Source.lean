import Brainfuck.Stream.Call

/-!
# Sources of bytes

A source is a script of deliveries: data in pieces of any size, reports of end of
input, and failures, in the order in which reads meet them. A report of end of
input answers one read; what follows it in the script is still delivered to later
reads. After the whole script every read reports end of input.

`Source.pull` takes one byte, reading again as long as reads fail transiently, and
`Source.contents` takes all bytes up to the end in this way.
-/

namespace Brainfuck

/-- One item of a source. -/
inductive Delivery where
  /-- Bytes that reads hand out in order. -/
  | data (bytes : List UInt8)
  /-- One read reports end of input. -/
  | finish
  /-- One read fails. -/
  | failure (e : IoError)
  deriving DecidableEq, Repr

/-- The deliveries still to come. -/
abbrev Source := List Delivery

namespace Source

/-- A source that delivers `bytes` and then stays at its end. -/
def ofBytes (bytes : List UInt8) : Source := [.data bytes]

/-- What taking one byte came to: the reads made, the byte (or none at the end of
input) or the failure, and what is left. -/
structure Pulled where
  /-- The reads, in order. -/
  calls : List Call
  /-- The byte, none at the end of input, or the failure. -/
  result : Except IoError (Option UInt8)
  /-- The deliveries still to come. -/
  rest : Source

/-- The same, with a read `c` made before. -/
def Pulled.after (c : Call) (p : Pulled) : Pulled := { p with calls := c :: p.calls }

/-- Take one byte. A read that fails transiently is followed by another. -/
def pull : Source → Pulled
  | [] => ⟨[.readEnd], .ok none, []⟩
  | .data [] :: rest => pull rest
  | .data (b :: bs) :: rest => ⟨[.read b], .ok (some b), .data bs :: rest⟩
  | .finish :: rest => ⟨[.readEnd], .ok none, rest⟩
  | .failure e :: rest =>
    if e.IsTransient then (pull rest).after (.readFailed e.kind)
    else ⟨[.readFailed e.kind], .error e, rest⟩

/-- Cut `bytes` into pieces of `n` bytes, the last one possibly shorter, behind the
pieces `done`. With `n` 0 the bytes stay whole. -/
def cut (n : Nat) (done : Array (List UInt8)) (bytes : List UInt8) : Array (List UInt8) :=
  match _h : bytes.drop n with
  | [] => done.push bytes
  | b :: rest => if n = 0 then done.push bytes else cut n (done.push (bytes.take n)) (b :: rest)
termination_by bytes.length
decreasing_by
  have := congrArg List.length _h
  simp at this ⊢
  omega

/-- The same deliveries, where no read gives more than `n` bytes. -/
def inPieces (n : Nat) (s : Source) : Source :=
  s.flatMap fun
    | .data bytes => (cut n #[] bytes).toList.map .data
    | d => [d]

/-- All that a source delivers up to its end, unless a read fails for good before. -/
def contents : Source → Except IoError (List UInt8)
  | [] => .ok []
  | .data bytes :: rest => (contents rest).map (bytes ++ ·)
  | .finish :: _ => .ok []
  | .failure e :: rest => if e.IsTransient then contents rest else .error e

/-! ### What reads meet -/

/-- What a read of one byte may meet. -/
inductive Arrival where
  /-- A byte. -/
  | byte (b : UInt8)
  /-- A report of end of input. -/
  | finish
  /-- A failure. -/
  | failure (e : IoError)
  deriving DecidableEq, Repr

/-- What one-byte reads meet in turn, before the source stays at its end. -/
def arrivals (s : Source) : List Arrival :=
  s.flatMap fun
    | .data bytes => bytes.map .byte
    | .finish => [.finish]
    | .failure e => [.failure e]

@[simp] theorem arrivals_nil : arrivals [] = [] := rfl

@[simp] theorem arrivals_data (bs : List UInt8) (s : Source) :
    arrivals (.data bs :: s) = bs.map .byte ++ arrivals s := rfl

@[simp] theorem arrivals_finish (s : Source) : arrivals (.finish :: s) = .finish :: arrivals s := rfl

@[simp] theorem arrivals_failure (e : IoError) (s : Source) :
    arrivals (.failure e :: s) = .failure e :: arrivals s := rfl

end Source

end Brainfuck
