/-!
# Stream calls

What passes between the interpreter and the two streams around it: the errors a
stream may answer with, and the record of one call and its answer.

An error of kind `interrupted` is transient. Reads and writes that meet one are
tried again; every other error is final.
-/

namespace Brainfuck

/-- The kinds of failure a stream or a file may answer with. -/
inductive IoError.Kind where
  /-- The call was broken off and may be tried again. -/
  | interrupted
  /-- The other side is gone. -/
  | brokenPipe
  /-- The call would have to wait. -/
  | wouldBlock
  /-- The data ended too early. -/
  | unexpectedEnd
  /-- The call took too long. -/
  | timedOut
  /-- A write took none of the bytes offered. -/
  | writeZero
  /-- There is no such file. -/
  | notFound
  /-- A file stands where a directory is needed. -/
  | notADirectory
  /-- A directory stands where a file is needed. -/
  | isADirectory
  /-- A name is too long. -/
  | nameTooLong
  /-- A name holds a byte that no name may hold. -/
  | invalidName
  /-- Anything else. -/
  | other
  deriving DecidableEq, Repr

/-- A failure of a stream or a file: its kind, and the text shown for it. -/
structure IoError where
  /-- The kind of failure. -/
  kind : IoError.Kind
  /-- The text shown for it. -/
  text : String
  deriving DecidableEq, Repr

/-- A failure after which the same call is made again. -/
def IoError.IsTransient (e : IoError) : Prop := e.kind = .interrupted

instance (e : IoError) : Decidable e.IsTransient := inferInstanceAs (Decidable (_ = _))

/-- One call on a stream, with its answer. -/
inductive Call where
  /-- The output took a byte. -/
  | wrote (b : UInt8)
  /-- The output took none of the bytes offered. -/
  | wroteNothing
  /-- A write failed. -/
  | writeFailed (k : IoError.Kind)
  /-- The output was flushed. -/
  | flushed
  /-- A flush failed. -/
  | flushFailed (k : IoError.Kind)
  /-- The input gave a byte. -/
  | read (b : UInt8)
  /-- The input reported its end. -/
  | readEnd
  /-- A read failed. -/
  | readFailed (k : IoError.Kind)
  deriving DecidableEq, Repr

/-- The byte a call wrote, if it wrote one. -/
def Call.written? : Call → Option UInt8
  | .wrote b => some b
  | _ => none

/-- The bytes that a sequence of calls wrote, in order. -/
def Call.written (calls : List Call) : List UInt8 := calls.filterMap Call.written?

@[simp] theorem Call.written_nil : written [] = [] := rfl

theorem Call.written_cons (c : Call) (cs : List Call) :
    written (c :: cs) = c.written?.toList ++ written cs := by
  unfold written
  cases h : c.written? <;> simp [h]

theorem Call.written_append (xs ys : List Call) : written (xs ++ ys) = written xs ++ written ys :=
  List.filterMap_append

end Brainfuck
