import Brainfuck.Failure

/-!
# Programs

A program is a buffer of at most `Program.limit` bytes. It ends, for execution, at
the first zero byte or else at the end of the buffer.
-/

namespace Brainfuck

namespace Program

/-- The greatest number of bytes a program may have. -/
def limit : Nat := 32768

/-- The byte that ends the executable part. -/
def terminator : UInt8 := 0

end Program

/-- A buffer of program text within the size limit. -/
structure Program where
  /-- All the bytes, also those behind a terminator. -/
  buffer : Array UInt8
  /-- The limit is kept. -/
  size_le : buffer.size ≤ Program.limit

namespace Program

/-- The program with the given bytes, unless there are too many. -/
def ofBytes (bytes : Array UInt8) : Except LoadError Program :=
  if h : bytes.size ≤ limit then .ok ⟨bytes, h⟩ else .error (.tooLarge bytes.size limit)

/-- The executable bytes: those before the first terminator. -/
def code (p : Program) : Array UInt8 := p.buffer.takeWhile (· ≠ terminator)

/-- Check that every bracket of the executable part has a partner. -/
def checkBrackets (p : Program) : Except RunError Unit :=
  (Brackets.check p.code.toList).mapError .unmatched

/-- The executable bytes are within the size limit too. -/
theorem size_code_le (p : Program) : p.code.size ≤ limit := by
  have hfront : p.code.size ≤ p.buffer.size := by
    rw [code, ← Array.length_toList, Array.toList_takeWhile, ← Array.length_toList]
    exact (List.takeWhile_sublist _).length_le
  exact Nat.le_trans hfront p.size_le

theorem ofBytes_eq_ok_iff {bytes : Array UInt8} {p : Program} :
    ofBytes bytes = .ok p ↔ p.buffer = bytes := by
  unfold ofBytes
  split
  · rename_i h
    constructor
    · rintro ⟨⟩
      rfl
    · rintro rfl
      rfl
  · rename_i h
    simp only [reduceCtorEq, false_iff]
    rintro rfl
    exact h p.size_le

theorem ofBytes_of_limit_lt {bytes : Array UInt8} (h : limit < bytes.size) :
    ofBytes bytes = .error (.tooLarge bytes.size limit) :=
  dif_neg (Nat.not_le.2 h)

theorem ofBytes_eq_error_iff {bytes : Array UInt8} {e : LoadError} :
    ofBytes bytes = .error e ↔ limit < bytes.size ∧ e = .tooLarge bytes.size limit := by
  by_cases h : bytes.size ≤ limit
  · simp [ofBytes, h, Nat.not_lt.2 h]
  · simp [ofBytes, h, Nat.lt_of_not_le h, eq_comm]

theorem forall_ne_terminator {p : Program} (hp : terminator ∉ p.buffer) :
    ∀ b ∈ p.buffer.toList, decide (b ≠ terminator) = true := by
  intro b hb
  have hne : b ≠ terminator := fun he => hp (he ▸ Array.mem_def.mpr hb)
  exact decide_eq_true hne

/-- A program without terminator is executed to its last byte. -/
theorem code_eq_buffer {p : Program} (hp : terminator ∉ p.buffer) : p.code = p.buffer := by
  apply Array.toList_inj.mp
  rw [code, Array.toList_takeWhile, ← List.append_nil p.buffer.toList,
    List.takeWhile_append_of_pos (forall_ne_terminator hp), List.takeWhile_nil]

theorem checkBrackets_eq_ok_iff {p : Program} :
    p.checkBrackets = .ok () ↔ Brackets.check p.code.toList = .ok () := by
  unfold checkBrackets
  cases Brackets.check p.code.toList with
  | ok _ => exact ⟨fun _ => rfl, fun _ => rfl⟩
  | error _ => exact ⟨nofun, nofun⟩

theorem checkBrackets_eq_error_iff {p : Program} {u : Unmatched} :
    p.checkBrackets = .error (.unmatched u) ↔ Brackets.check p.code.toList = .error u := by
  unfold checkBrackets
  cases Brackets.check p.code.toList with
  | ok _ => exact ⟨nofun, nofun⟩
  | error v =>
    constructor
    · intro h
      cases h
      rfl
    · intro h
      cases h
      rfl

end Program

end Brainfuck
