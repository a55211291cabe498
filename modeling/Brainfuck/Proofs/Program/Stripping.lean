import Brainfuck.Program.Basic
import Brainfuck.Proofs.Brackets.Partner

/-!
# Code without its comments

Of the bytes of a program, eight are instructions and all others are comments. `strip` leaves the
comments out. Where an instruction then stands is the number of instructions before it, its `rank`.

What is said of brackets is said of the code without comments too, at the ranks of the positions:
balanced code stays balanced, the same loops are open at its end (`Opened.strip`), the check comes
to the same (`Brackets.check_strip`), and a search from a `[` finds the same `]`
(`Brackets.closeOf?_strip`).
-/

namespace Brainfuck

/-- The byte stands for an instruction. -/
def Instruction.isCode (b : UInt8) : Bool := (ofByte? b).isSome

/-- The code without its comments. -/
def strip (code : List UInt8) : List UInt8 := code.filter Instruction.isCode

/-- The number of instructions that stand before the position `n`. -/
def rank (code : List UInt8) (n : Nat) : Nat := (strip (code.take n)).length

/-- Where a bracket without a partner stands, when there are no comments. -/
def Unmatched.strip (code : List UInt8) (u : Unmatched) : Unmatched :=
  ⟨rank code u.position, u.bracket⟩

@[simp] theorem Instruction.isCode_bracket (k : Bracket) : isCode k.byte = true :=
  congrArg Option.isSome (ofByte?_byte (.bracket k))

/-- A terminator is no instruction. -/
theorem Instruction.isCode_zero : isCode 0 = false := by decide

/-! ### Leaving comments out -/

section

variable {xs ys : List UInt8} {b : UInt8} {n : Nat}

@[simp] theorem strip_append (xs ys : List UInt8) : strip (xs ++ ys) = strip xs ++ strip ys :=
  List.filter_append ..

theorem strip_cons_of_isCode (h : Instruction.isCode b = true) (xs : List UInt8) :
    strip (b :: xs) = b :: strip xs :=
  List.filter_cons_of_pos h

theorem strip_cons_of_not_isCode (h : Instruction.isCode b = false) (xs : List UInt8) :
    strip (b :: xs) = strip xs :=
  List.filter_cons_of_neg (by simp [h])

@[simp] theorem strip_cons_bracket (k : Bracket) (xs : List UInt8) :
    strip (k.byte :: xs) = k.byte :: strip xs :=
  strip_cons_of_isCode (Instruction.isCode_bracket k) xs

/-- The rank of the end is the length of what is left. -/
theorem rank_length (xs : List UInt8) : rank xs xs.length = (strip xs).length := by
  rw [rank, List.take_length]

/-- A position in front of an append has the rank that it has there. -/
theorem rank_append_left (h : n ≤ xs.length) (ys : List UInt8) : rank (xs ++ ys) n = rank xs n := by
  rw [rank, rank, List.take_append_of_le_length h]

/-- A position behind a part of the code has as many more instructions before it as the part. -/
theorem rank_add (xs : List UInt8) (m n : Nat) :
    rank xs (m + n) = rank xs m + rank (xs.drop m) n := by
  rw [rank, List.take_add, strip_append, List.length_append]
  rfl

/-- The code from a position on, with no comments. -/
theorem drop_strip (xs : List UInt8) (n : Nat) :
    (strip xs).drop (rank xs n) = strip (xs.drop n) := by
  rw [rank, ← List.take_append_drop n xs, strip_append, List.take_append_drop, List.drop_left]

/-- Behind an instruction, the rank is one more. -/
theorem rank_succ_of_isCode (h : xs[n]? = some b) (hb : Instruction.isCode b = true) :
    rank xs (n + 1) = rank xs n + 1 := by
  rw [rank, List.take_add_one, h, strip_append, List.length_append, Option.toList_some,
    strip_cons_of_isCode hb]
  rfl

/-- Behind a comment, the rank is the same. -/
theorem rank_succ_of_not_isCode (h : xs[n]? = some b) (hb : Instruction.isCode b = false) :
    rank xs (n + 1) = rank xs n := by
  rw [rank, List.take_add_one, h, strip_append, List.length_append, Option.toList_some,
    strip_cons_of_not_isCode hb]
  rfl

/-- An instruction stands at its rank. -/
theorem getElem?_strip_rank (h : xs[n]? = some b) (hb : Instruction.isCode b = true) :
    (strip xs)[rank xs n]? = some b := by
  have hdrop : xs.drop n = b :: xs.drop (n + 1) := by
    obtain ⟨hlt, hget⟩ := List.getElem?_eq_some_iff.mp h
    rw [List.drop_eq_getElem_cons hlt, hget]
  rw [← Nat.add_zero (rank xs n), ← List.getElem?_drop, drop_strip, hdrop, strip_cons_of_isCode hb]
  rfl

end

/-! ### Brackets -/

/-- Balanced code is balanced without comments. -/
theorem Balanced.strip {xs : List UInt8} (h : Balanced xs) : Balanced (strip xs) := by
  induction h with
  | nil => exact .nil
  | @plain b code hb _ ih =>
    by_cases hcode : Instruction.isCode b = true
    · rw [strip_cons_of_isCode hcode]
      exact .plain hb ih
    · rw [strip_cons_of_not_isCode (by simpa using hcode)]
      exact ih
  | loop _ _ ihBody ihCode =>
    simp only [strip_cons_bracket, strip_append]
    exact .loop ihBody ihCode

/-- The same loops are open without comments, at the ranks of their positions. -/
theorem Opened.strip {xs : List UInt8} {ps : List Nat} (h : Opened xs ps) :
    Opened (strip xs) (ps.map (rank xs)) := by
  induction h with
  | balanced hx => exact .balanced hx.strip
  | @enter us vs ps hu hv ih =>
    have hmap : ps.map (rank (us ++ Bracket.opening.byte :: vs)) = ps.map (rank us) :=
      List.map_congr_left fun q hq => rank_append_left (hu.lt_length q hq).le _
    rw [strip_append, strip_cons_bracket, List.map_cons, hmap, rank_append_left le_rfl, rank_length]
    exact .enter ih hv.strip

namespace Brackets

/-- **The check does not look at comments.** -/
theorem check_strip (xs : List UInt8) :
    check (strip xs) = (check xs).mapError (Unmatched.strip xs) := by
  rcases opened_or_stray xs with ⟨ps, ho⟩ | ⟨us, vs, hu, rfl⟩
  · cases ps with
    | nil =>
      rw [ho.balanced_of_nil.check_eq_ok, ho.balanced_of_nil.strip.check_eq_ok]
      rfl
    | cons p ps =>
      rw [check_opened ho, check_opened ho.strip]
      rfl
  · rw [check_stray hu, strip_append, strip_cons_bracket, check_stray hu.strip, ← rank_length,
      ← rank_append_left le_rfl (Bracket.closing.byte :: vs)]
    rfl

/-- **A search from a `[` does not look at comments.** -/
theorem closeOf?_strip {code code' : Array UInt8} {ip : Nat}
    (hget : code[ip]? = some Bracket.opening.byte) (hcode : code'.toList = strip code.toList) :
    closeOf? code' (rank code.toList ip) = (closeOf? code ip).map (rank code.toList) := by
  rw [← Array.getElem?_toList] at hget
  have hnext := rank_succ_of_isCode hget (Instruction.isCode_bracket _)
  have hdrop : code'.toList.drop (rank code.toList ip + 1) = strip (code.toList.drop (ip + 1)) := by
    rw [hcode, ← hnext, drop_strip]
  rcases opened_or_stray (code.toList.drop (ip + 1)) with ⟨ps, ho⟩ | ⟨us, vs, hu, hrest⟩
  · rw [closeOf?_of_opened ho, closeOf?_of_opened (hdrop ▸ ho.strip)]
    rfl
  · have hrank :
        rank code.toList (ip + 1 + us.length) = rank code.toList ip + 1 + (strip us).length := by
      rw [rank_add, hnext, hrest, rank_append_left le_rfl, rank_length]
    rw [closeOf?_of_drop hu hrest, Option.map_some, hrank]
    rw [hrest, strip_append, strip_cons_bracket] at hdrop
    exact closeOf?_of_drop hu.strip hdrop

end Brackets

/-! ### Programs -/

namespace Program

/-- The program without its comments. -/
def stripped (p : Program) : Program where
  buffer := p.code.filter Instruction.isCode
  size_le := (Array.size_filter_le ..).trans p.size_code_le

/-- The number of instructions that stand before the position `n`. -/
def rank (p : Program) (n : Nat) : Nat := Brainfuck.rank p.code.toList n

/-- All of a program without comments is executed. -/
theorem toList_code_stripped (p : Program) : p.stripped.code.toList = strip p.code.toList := by
  have hno : terminator ∉ p.stripped.buffer := by
    intro hmem
    obtain ⟨-, hcode⟩ := Array.mem_filter.mp hmem
    rw [terminator, Instruction.isCode_zero] at hcode
    cases hcode
  rw [code_eq_buffer hno, stripped, Array.toList_filter]
  rfl

/-- The rank of the end is the end of the program without comments. -/
theorem rank_size (p : Program) : p.rank p.code.size = p.stripped.code.size := by
  rw [rank, ← Array.length_toList, rank_length, ← toList_code_stripped, Array.length_toList]

end Program

end Brainfuck
