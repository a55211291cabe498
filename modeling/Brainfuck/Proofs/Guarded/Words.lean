/-!
# Words and memory, with their checks

The operations of the library on numbers and arrays are total: no sum is too large, a difference
stops at zero, a remainder modulo nothing is the number itself, and what is cut out of an array is
what there is of it. A machine with 64-bit words and arrays in memory has no such answers; there,
each of these is a fault. This module has the operations as that machine carries them out, with the
fault as the answer if a check fails.
-/

namespace Brainfuck

/-- Why a machine with words and memory cannot go on. -/
inductive Fault where
  /-- An array was read, written or cut outside its bounds. -/
  | outOfRange
  /-- A remainder was asked for modulo zero. -/
  | divisionByZero
  /-- A sum does not fit in a word. -/
  | overflow
  /-- A difference is less than zero. -/
  | underflow
  deriving DecidableEq, Repr

namespace Guarded

/-- An operation after one that met no fault. -/
theorem ok_bind {α β : Type} (a : α) (f : α → Except Fault β) : (Except.ok a >>= f) = f a := rfl

/-- An operation after one that met a fault. -/
theorem error_bind {α β : Type} (e : Fault) (f : α → Except Fault β) :
    (Except.error e >>= f) = .error e := rfl

/-! ### Words -/

/-- How many words there are: two to the power of 64. -/
def words : Nat := 0x10000000000000000

/-- The sum of two words. -/
def add (a b : Nat) : Except Fault Nat := if a + b < words then .ok (a + b) else .error .overflow

/-- The difference of two words. -/
def sub (a b : Nat) : Except Fault Nat := if b ≤ a then .ok (a - b) else .error .underflow

/-- The remainder of a word. -/
def mod (a b : Nat) : Except Fault Nat := if b = 0 then .error .divisionByZero else .ok (a % b)

theorem add_eq {a b : Nat} (h : a + b < words) : add a b = .ok (a + b) := if_pos h

theorem add_eq_error {a b : Nat} (h : words ≤ a + b) : add a b = .error .overflow :=
  if_neg (Nat.not_lt.mpr h)

theorem sub_eq {a b : Nat} (h : b ≤ a) : sub a b = .ok (a - b) := if_pos h

theorem mod_eq {a b : Nat} (h : 0 < b) : mod a b = .ok (a % b) := if_neg (Nat.ne_of_gt h)

/-! ### Arrays -/

/-- The greatest length of an array in memory: one less than two to the power of 63. -/
def maxLength : Nat := 0x7fffffffffffffff

/-- The element at a position. -/
def read {α : Type} (xs : Array α) (p : Nat) : Except Fault α :=
  if h : p < xs.size then .ok xs[p] else .error .outOfRange

/-- The array with another element at a position. -/
def store {α : Type} (xs : Array α) (p : Nat) (v : α) : Except Fault (Array α) :=
  if h : p < xs.size then .ok (xs.set p v h) else .error .outOfRange

/-- What stands in an array from a position on, which may be right behind the last element. -/
def suffix {α : Type} (xs : Array α) (p : Nat) : Except Fault (List α) :=
  if p ≤ xs.size then .ok (xs.toList.drop p) else .error .outOfRange

/-- What stands in an array from one position up to another. -/
def slice {α : Type} (xs : Array α) (start stop : Nat) : Except Fault (List α) :=
  if start ≤ stop ∧ stop ≤ xs.size then .ok (xs.extract start stop).toList else .error .outOfRange

theorem slice_eq {α : Type} {xs : Array α} {start stop : Nat} (h : start ≤ stop)
    (hstop : stop ≤ xs.size) : slice xs start stop = .ok (xs.extract start stop).toList :=
  if_pos ⟨h, hstop⟩

/-- A position in an array that fits in memory has a next one. -/
theorem succ_lt_words {p n : Nat} (hp : p < n) (hn : n ≤ maxLength) : p + 1 < words := by
  unfold maxLength at hn
  unfold words
  omega

end Guarded

end Brainfuck
