import Brainfuck.Proofs.Stream.Accounts
import Brainfuck.Proofs.Stream.Arrivals
import Mathlib.Data.List.Basic

/-!
# Transient failures

A call that fails transiently is made again, so a failure of that kind costs a call and no more.
Here failures are put in, any number of them at any places: between the things that reads meet
(`Source.Interspersed`), and before the writes to come (`Schedule.Interspersed`). One read and one
write then come to the same, after the same calls but for those that failed transiently
(`Source.Interspersed.take`, `Schedule.Interspersed.put`).
-/

namespace Brainfuck

/-! ### Calls -/

namespace Call

/-- The call is a read or a write that failed transiently. A flush is not made again. -/
def isTransient : Call → Bool
  | .readFailed .interrupted => true
  | .writeFailed .interrupted => true
  | _ => false

/-- The calls without the reads and writes that failed transiently. -/
def withoutTransient (calls : List Call) : List Call := calls.filter (!·.isTransient)

theorem withoutTransient_append (xs ys : List Call) :
    withoutTransient (xs ++ ys) = withoutTransient xs ++ withoutTransient ys :=
  List.filter_append ..

theorem withoutTransient_cons_readFailed {e : IoError} (h : e.IsTransient) (xs : List Call) :
    withoutTransient (.readFailed e.kind :: xs) = withoutTransient xs := by
  rw [(h : e.kind = .interrupted)]
  rfl

theorem withoutTransient_cons_writeFailed {e : IoError} (h : e.IsTransient) (xs : List Call) :
    withoutTransient (.writeFailed e.kind :: xs) = withoutTransient xs := by
  rw [(h : e.kind = .interrupted)]
  rfl

theorem isTransient_iff {c : Call} :
    c.isTransient = true ↔ c = .readFailed .interrupted ∨ c = .writeFailed .interrupted := by
  unfold isTransient
  split <;> simp_all

/-- What is taken from the single calls stays the same, where nothing is taken from those that
failed transiently. -/
theorem filterMap_withoutTransient {α : Type} {f : Call → Option α}
    (hread : f (.readFailed .interrupted) = none) (hwrite : f (.writeFailed .interrupted) = none)
    (calls : List Call) : (withoutTransient calls).filterMap f = calls.filterMap f := by
  unfold withoutTransient
  rw [List.filterMap_filter]
  refine List.filterMap_congr fun c _ => ?_
  cases htransient : c.isTransient with
  | false => rfl
  | true =>
    have hf : f c = none := by rcases isTransient_iff.mp htransient with rfl | rfl <;> assumption
    rw [hf]
    rfl

theorem written_withoutTransient (calls : List Call) :
    written (withoutTransient calls) = written calls :=
  filterMap_withoutTransient rfl rfl calls

theorem answers_withoutTransient (calls : List Call) :
    answers (withoutTransient calls) = answers calls :=
  filterMap_withoutTransient rfl rfl calls

theorem countP_isFlush_withoutTransient (calls : List Call) :
    (withoutTransient calls).countP isFlush = calls.countP isFlush := by
  unfold withoutTransient
  rw [List.countP_filter]
  refine List.countP_congr fun c _ => ?_
  cases htransient : c.isTransient with
  | false => simp
  | true => rcases isTransient_iff.mp htransient with rfl | rfl <;> simp [isFlush]

end Call

/-! ### Reads -/

namespace Source

/-- The second list is the first with transient failures put in. -/
inductive Interspersed : List Arrival → List Arrival → Prop where
  /-- Nothing is left. -/
  | nil : Interspersed [] []
  /-- The next is met by both. -/
  | keep {as bs : List Arrival} (a : Arrival) :
      Interspersed as bs → Interspersed (a :: as) (a :: bs)
  /-- A failure is put in. -/
  | insert {as bs : List Arrival} {e : IoError} (he : e.IsTransient) :
      Interspersed as bs → Interspersed as (.failure e :: bs)
  /-- The end that the first stays at is reported once more by the second, before what is put in
  there. -/
  | finish {bs : List Arrival} : Interspersed [] bs → Interspersed [] (.finish :: bs)

namespace Interspersed

/-- Nothing need be put in. -/
theorem refl (as : List Arrival) : Interspersed as as := by
  induction as with
  | nil => exact .nil
  | cons a as ih => exact .keep a ih

/-- One failure is put in. -/
theorem insertAt (as bs : List Arrival) {e : IoError} (he : e.IsTransient) :
    Interspersed (as ++ bs) (as ++ .failure e :: bs) := by
  induction as with
  | nil => exact .insert he (refl bs)
  | cons a as ih => exact .keep a ih

/-- A read comes to the same. -/
theorem take {as bs : List Arrival} (h : Interspersed as bs) :
    (Source.take bs).result = (Source.take as).result ∧
      Call.withoutTransient (Source.take bs).calls = Call.withoutTransient (Source.take as).calls ∧
      Interspersed (Source.take as).rest (Source.take bs).rest := by
  induction h with
  | nil => exact ⟨rfl, rfl, .nil⟩
  | keep a h ih =>
    cases a with
    | byte b => exact ⟨rfl, rfl, h⟩
    | finish => exact ⟨rfl, rfl, h⟩
    | failure e =>
      rw [Source.take, Source.take]
      split
      · rename_i he
        obtain ⟨hresult, hcalls, hrest⟩ := ih
        refine ⟨hresult, ?_, hrest⟩
        rw [Taken.after, Taken.after, Call.withoutTransient_cons_readFailed he,
          Call.withoutTransient_cons_readFailed he, hcalls]
      · exact ⟨rfl, rfl, h⟩
  | insert he _ ih =>
    obtain ⟨hresult, hcalls, hrest⟩ := ih
    rw [Source.take, if_pos he]
    exact ⟨hresult, (Call.withoutTransient_cons_readFailed he _).trans hcalls, hrest⟩
  | finish h _ => exact ⟨rfl, rfl, h⟩

end Interspersed

end Source

/-! ### Writes -/

namespace Schedule

/-- The schedule behind one more call that succeeds. -/
def delay {α : Type} : Schedule α → Schedule α
  | [] => []
  | (n, f) :: rest => (n + 1, f) :: rest

/-- The second schedule is the first with transient failures put in before some writes. -/
inductive Interspersed : Schedule WriteFault → Schedule WriteFault → Prop where
  /-- No write fails any more. -/
  | nil : Interspersed [] []
  /-- The next write fails for both. -/
  | fault {s s' : Schedule WriteFault} (f : WriteFault) :
      Interspersed s s' → Interspersed ((0, f) :: s) ((0, f) :: s')
  /-- The next write succeeds for both. -/
  | delay {s s' : Schedule WriteFault} : Interspersed s s' → Interspersed s.delay s'.delay
  /-- A write that fails is put in. -/
  | insert {s s' : Schedule WriteFault} {e : IoError} (he : e.IsTransient) :
      Interspersed s s' → Interspersed s ((0, .failure e) :: s')

theorem put_delay (b : UInt8) (s : Schedule WriteFault) :
    Sink.put b s.delay = ⟨[.wrote b], .ok (), s⟩ := by
  cases s <;> rfl

namespace Interspersed

/-- Nothing need be put in. -/
theorem refl (s : Schedule WriteFault) : Interspersed s s := by
  induction s with
  | nil => exact .nil
  | cons x s ih =>
    obtain ⟨n, f⟩ := x
    induction n with
    | zero => exact .fault f ih
    | succ n ihn => exact .delay ihn

/-- A write comes to the same. -/
theorem put {s s' : Schedule WriteFault} (h : Interspersed s s') (b : UInt8) :
    (Sink.put b s').result = (Sink.put b s).result ∧
      Call.withoutTransient (Sink.put b s').calls = Call.withoutTransient (Sink.put b s).calls ∧
      Interspersed (Sink.put b s).writes (Sink.put b s').writes := by
  induction h with
  | nil => exact ⟨rfl, rfl, .nil⟩
  | fault f h ih =>
    cases f with
    | nothing => exact ⟨rfl, rfl, h⟩
    | failure e =>
      rw [Sink.put, Sink.put]
      split
      · rename_i he
        obtain ⟨hresult, hcalls, hwrites⟩ := ih
        refine ⟨hresult, ?_, hwrites⟩
        rw [Sink.Put.after, Sink.Put.after, Call.withoutTransient_cons_writeFailed he,
          Call.withoutTransient_cons_writeFailed he, hcalls]
      · exact ⟨rfl, rfl, h⟩
  | delay h _ =>
    rw [put_delay, put_delay]
    exact ⟨rfl, rfl, h⟩
  | insert he _ ih =>
    obtain ⟨hresult, hcalls, hwrites⟩ := ih
    rw [Sink.put, if_pos he]
    exact ⟨hresult, (Call.withoutTransient_cons_writeFailed he _).trans hcalls, hwrites⟩

end Interspersed

end Schedule

end Brainfuck
