import Brainfuck.Proofs.Stream.Arrivals

/-!
# Where two sources part

Two sources may deliver the same first and different things behind it. How far that is the same to
one-byte reads is counted in replies: an arrival that answers a read, or lets it fail for good, is
one, and a transient failure is none, as the read is made again.

A read that is settled before the sources part comes to the same in both (`Source.Fork.pull`), and
leaves two sources that part one reply earlier.
-/

namespace Brainfuck

namespace Source

/-- A read goes no further than this arrival: it is answered by it, or fails for good. -/
def Arrival.settles : Arrival → Bool
  | .failure e => !decide e.IsTransient
  | _ => true

/-- How many reads the given arrivals settle. Transient failures settle none. -/
def replies (as : List Arrival) : Nat := as.countP Arrival.settles

@[simp] theorem replies_nil : replies [] = 0 := rfl

@[simp] theorem replies_byte (b : UInt8) (as : List Arrival) :
    replies (.byte b :: as) = replies as + 1 :=
  List.countP_cons_of_pos rfl

@[simp] theorem replies_finish (as : List Arrival) : replies (.finish :: as) = replies as + 1 :=
  List.countP_cons_of_pos rfl

theorem replies_failure (e : IoError) (as : List Arrival) :
    replies (.failure e :: as) = if e.IsTransient then replies as else replies as + 1 := by
  by_cases he : e.IsTransient <;> simp [replies, Arrival.settles, he]

/-- A read that is settled within the front does not look behind it. -/
theorem take_append {front : List Arrival} (h : 0 < replies front) (xs : List Arrival) :
    take (front ++ xs) = { take front with rest := (take front).rest ++ xs } := by
  induction front with
  | nil => simp at h
  | cons a front ih =>
    cases a with
    | byte b => rfl
    | finish => rfl
    | failure e =>
      by_cases he : e.IsTransient
      · rw [replies_failure, if_pos he] at h
        simp [take, he, ih h, Taken.after]
      · simp [take, he]

/-- A read leaves one reply less to come. -/
theorem replies_rest_take {as : List Arrival} (h : 0 < replies as) :
    replies (take as).rest + 1 = replies as := by
  induction as with
  | nil => simp at h
  | cons a as ih =>
    cases a with
    | byte b => exact (replies_byte b as).symm
    | finish => exact (replies_finish as).symm
    | failure e =>
      rw [replies_failure] at h ⊢
      by_cases he : e.IsTransient
      · simp only [if_pos he, take, Taken.after] at h ⊢
        exact ih h
      · simp [take, he]

/-- Reads meet the same in the two sources until `n` of them are settled. Behind that, reads meet
`xs` in the one and `ys` in the other. -/
def Fork (xs ys : List Arrival) (n : Nat) (s s' : Source) : Prop :=
  ∃ front, s.arrivals = front ++ xs ∧ s'.arrivals = front ++ ys ∧ replies front = n

/-- A read before the fork comes to the same in both. -/
theorem Fork.pull {xs ys : List Arrival} {n : Nat} {s s' : Source} (h : Fork xs ys n s s')
    (hn : 0 < n) :
    s'.pull.calls = s.pull.calls ∧ s'.pull.result = s.pull.result ∧
      Fork xs ys (n - 1) s.pull.rest s'.pull.rest := by
  obtain ⟨front, hs, hs', rfl⟩ := h
  have htaken := s.pull_eq_take
  have htaken' := s'.pull_eq_take
  rw [hs, take_append hn] at htaken
  rw [hs', take_append hn] at htaken'
  injection htaken with hcalls hresult hrest
  injection htaken' with hcalls' hresult' hrest'
  have hleft : replies (take front).rest = replies front - 1 := by
    have := replies_rest_take hn
    omega
  exact ⟨hcalls'.trans hcalls.symm, hresult'.trans hresult.symm, _, hrest, hrest', hleft⟩

end Source

end Brainfuck
