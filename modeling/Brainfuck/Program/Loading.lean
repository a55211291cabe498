import Brainfuck.Program.Basic
import Brainfuck.Stream.Source

/-!
# Loading a program from a source

At most one byte more than the limit is kept in memory. A source that has more is
read to its end all the same, so that the error can give the true length. Transient
failures are passed over in both parts; any other failure ends the loading, and a
source that has reported its end is left alone.
-/

namespace Brainfuck

namespace Source

/-- Why reading stopped. -/
inductive Stop where
  /-- There was no more room. -/
  | full
  /-- The source reported its end. -/
  | finished
  /-- A read failed. -/
  | failed (e : IoError)
  deriving DecidableEq, Repr

/-- Read into `buffer` until it holds `room` bytes, the source ends or a read fails. -/
def fill (room : Nat) (buffer : Array UInt8) : Source → Array UInt8 × Stop × Source
  | [] => (buffer, if room ≤ buffer.size then .full else .finished, [])
  | d :: rest =>
    if room ≤ buffer.size then (buffer, .full, d :: rest)
    else
      match d with
      | .data bytes =>
        let free := room - buffer.size
        match bytes.drop free with
        | [] => fill room (buffer ++ bytes) rest
        | more => (buffer ++ bytes.take free, .full, .data more :: rest)
      | .finish => (buffer, .finished, rest)
      | .failure e => if e.IsTransient then fill room buffer rest else (buffer, .failed e, rest)

/-- Read to the end without keeping the bytes; their number is added to `count`. -/
def drain (count : Nat) : Source → Except IoError Nat × Source
  | [] => (.ok count, [])
  | .data bytes :: rest => drain (count + bytes.length) rest
  | .finish :: rest => (.ok count, rest)
  | .failure e :: rest => if e.IsTransient then drain count rest else (.error e, rest)

end Source

namespace Program

/-- Load a program from a source. What is left of the source comes with the outcome. -/
def load (s : Source) : Except LoadError Program × Source :=
  match s.fill (limit + 1) #[] with
  | (_, .failed e, rest) => (.error (.cannotRead e), rest)
  | (bytes, .finished, rest) => (ofBytes bytes, rest)
  | (bytes, .full, rest) =>
    match rest.drain bytes.size with
    | (.error e, rest) => (.error (.cannotRead e), rest)
    | (.ok length, rest) => (.error (.tooLarge length limit), rest)

/-- Load a program from what was found on opening the file shown as `path`. -/
def ofFile (path : String) (opened : Except IoError Source) : Except LoadError Program :=
  match opened with
  | .error e => .error (.cannotOpen path e)
  | .ok s => (load s).1

end Program

end Brainfuck
