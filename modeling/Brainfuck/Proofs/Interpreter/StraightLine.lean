import Brainfuck.Proofs.Interpreter.Window
import Brainfuck.Proofs.Structured.Engine
import Mathlib.Data.List.Basic

/-!
# Code without brackets

Without brackets there are no jumps, so a run executes each byte once, and what it ends in can be
said by counting. The pointer is as far from its start as there are more `>` than `<`, around the
tape. If nothing is read, a cell ends as it started, one more for each `+` and one less for each `-`
that was executed on it, modulo 256 (`Tape.tally`); and byte number `k` is executed on the cell to
which the moves before it lead (`Tape.site`). Many displacements lead to one cell, as positions on
the tape that are its length apart are the same.

The counts are exact integers and wrap only at the end, while the machine wraps at each step. One
more byte keeps the two together, for the pointer (`Tape.Stands.act`) and for cells and output
(`Store.Adds.act`).
-/

namespace Brainfuck

/-- How far to the right these bytes move the pointer, all in all. -/
def displacement (code : List UInt8) : Int :=
  code.count Instruction.right.byte - code.count Instruction.left.byte

namespace Tape

/-- The cell on which byte number `k` of code without brackets is executed. -/
def site (t : Tape) (code : List UInt8) (k : Nat) : Nat := t.place (displacement (code.take k))

/-- How often the byte `b` is executed on cell `j`. -/
def hits (t : Tape) (code : List UInt8) (b : UInt8) (j : Nat) : Nat :=
  (code.idxsOf b).countP fun k => t.site code k = j

/-- What is in cell `j` at the start, one more for each `+` there and one less for each `-`. -/
def tally (t : Tape) (code : List UInt8) (j : Nat) : Int :=
  (t.cells.getD j 0).toNat + t.hits code Instruction.increment.byte j -
    t.hits code Instruction.decrement.byte j

/-- What is in the current cell at each `.`, modulo 256. -/
def shown (t : Tape) (code : List UInt8) : List UInt8 :=
  (code.idxsOf Instruction.output.byte).map fun k =>
    UInt8.ofInt (t.tally (code.take k) (t.site code k))

end Tape

/-! ### One more byte -/

variable {t : Tape} {front : List UInt8} {b : UInt8} {j : Nat}

theorem displacement_snoc (front : List UInt8) (b : UInt8) :
    displacement (front ++ [b]) = displacement front +
      ((if b = Instruction.right.byte then 1 else 0) -
        if b = Instruction.left.byte then 1 else 0) := by
  unfold displacement
  rw [List.count_append, List.count_append, List.count_singleton, List.count_singleton]
  simp only [beq_iff_eq]
  split <;> split <;> push_cast <;> omega

/-- Only the last byte is new. -/
theorem idxsOf_snoc (front : List UInt8) (b c : UInt8) :
    (front ++ [c]).idxsOf b = front.idxsOf b ++ if c = b then [front.length] else [] := by
  rw [List.idxsOf_append, List.idxsOf_cons]
  simp

namespace Tape

theorem site_snoc {k : Nat} (h : k ≤ front.length) : t.site (front ++ [b]) k = t.site front k := by
  rw [site, List.take_append_of_le_length h, site]

theorem site_length : t.site (front ++ [b]) front.length = t.place (displacement front) := by
  rw [site, List.take_left]

theorem hits_snoc (t : Tape) (front : List UInt8) (b c : UInt8) (j : Nat) :
    t.hits (front ++ [c]) b j =
      t.hits front b j + if c = b ∧ t.place (displacement front) = j then 1 else 0 := by
  have hold :
      (front.idxsOf b).countP (fun k => t.site (front ++ [c]) k = j) = t.hits front b j := by
    refine List.countP_congr fun k hk => ?_
    have hlt : k < front.length := List.lt_add_of_mem_idxsOf k hk
    rw [site_snoc (Nat.le_of_lt hlt)]
  rw [hits, idxsOf_snoc, List.countP_append, hold]
  by_cases hc : c = b
  · simp [hc, site_length, List.countP_singleton]
  · simp [hc]

theorem tally_snoc (t : Tape) (front : List UInt8) (b : UInt8) (j : Nat) :
    t.tally (front ++ [b]) j = t.tally front j +
      ((if b = Instruction.increment.byte ∧ t.place (displacement front) = j then 1 else 0) -
        if b = Instruction.decrement.byte ∧ t.place (displacement front) = j then 1 else 0) := by
  unfold tally
  rw [hits_snoc, hits_snoc]
  push_cast
  omega

theorem tally_snoc_of_ne (hinc : b ≠ Instruction.increment.byte)
    (hdec : b ≠ Instruction.decrement.byte) : t.tally (front ++ [b]) j = t.tally front j := by
  rw [tally_snoc, if_neg fun h => hinc h.1, if_neg fun h => hdec h.1, sub_self, add_zero]

theorem tally_snoc_increment : t.tally (front ++ [Instruction.increment.byte]) j =
    t.tally front j + if t.place (displacement front) = j then 1 else 0 := by
  have hdec : Instruction.increment.byte ≠ Instruction.decrement.byte := by decide
  rw [tally_snoc, if_neg (c := _ ∧ _) fun h => hdec h.1, sub_zero]
  simp only [true_and]

theorem tally_snoc_decrement : t.tally (front ++ [Instruction.decrement.byte]) j =
    t.tally front j + if t.place (displacement front) = j then -1 else 0 := by
  have hinc : Instruction.decrement.byte ≠ Instruction.increment.byte := by decide
  rw [tally_snoc, if_neg fun h => hinc h.1, zero_sub, apply_ite Neg.neg, neg_zero]
  simp only [true_and]

theorem shown_snoc (t : Tape) (front : List UInt8) (b : UInt8) :
    t.shown (front ++ [b]) = t.shown front ++
      if b = Instruction.output.byte then
        [UInt8.ofInt (t.tally front (t.place (displacement front)))] else [] := by
  have hold : ∀ k ∈ front.idxsOf Instruction.output.byte,
      UInt8.ofInt (t.tally ((front ++ [b]).take k) (t.site (front ++ [b]) k)) =
        UInt8.ofInt (t.tally (front.take k) (t.site front k)) := by
    intro k hk
    have hle : k ≤ front.length := Nat.le_of_lt (List.lt_add_of_mem_idxsOf k hk)
    rw [site_snoc hle, List.take_append_of_le_length hle]
  rw [shown, idxsOf_snoc, List.map_append, List.map_congr_left hold]
  by_cases hb : b = Instruction.output.byte
  · simp [hb, shown, site_length]
  · simp [hb, shown]

theorem shown_snoc_of_ne (hout : b ≠ Instruction.output.byte) :
    t.shown (front ++ [b]) = t.shown front := by
  rw [shown_snoc, if_neg hout, List.append_nil]

/-- The pointer is where the bytes before have brought it, where `t` is the tape at the start. -/
structure Stands (t : Tape) (front : List UInt8) (u : Tape) : Prop where
  /-- There are as many cells as at the start. -/
  length : u.length = t.length
  /-- The pointer is as far away as the moves make up. -/
  pointer : u.pointer = t.place (displacement front)

end Tape

/-- The cells hold, and the output is, what the bytes before make up, where `t` is the tape at the
start. -/
structure Store.Adds (t : Tape) (front : List UInt8) (s : Store) : Prop where
  /-- Each cell holds what it held and what was added to it, modulo 256. -/
  cells : ∀ j < t.length, s.tape.cells[j]? = some (UInt8.ofInt (t.tally front j))
  /-- The current cell was written at each `.`. -/
  output : s.output = t.shown front

namespace Tape.Stands

variable {u : Tape}

theorem start (h : t.WellFormed) : t.Stands [] t where
  length := rfl
  pointer := (place_zero h).symm

theorem write (h : t.Stands front u) (v : UInt8) : t.Stands front (u.write v) where
  length := (length_write u v).trans h.length
  pointer := h.pointer

/-- A byte that does not move the pointer leaves it where it is. -/
theorem stay (h : t.Stands front u) (hright : b ≠ Instruction.right.byte)
    (hleft : b ≠ Instruction.left.byte) : t.Stands (front ++ [b]) u where
  length := h.length
  pointer := by rw [h.pointer, displacement_snoc, if_neg hright, if_neg hleft, sub_self, add_zero]

theorem right (h : t.Stands front u) (ht : t.WellFormed) :
    t.Stands (front ++ [Instruction.right.byte]) u.moveRight where
  length := h.length
  pointer := by
    rw [pointer_moveRight ht h.length h.pointer, displacement_snoc, if_pos rfl,
      if_neg (by decide), sub_zero]

theorem left (h : t.Stands front u) (ht : t.WellFormed) :
    t.Stands (front ++ [Instruction.left.byte]) u.moveLeft where
  length := h.length
  pointer := by
    rw [pointer_moveLeft ht h.length h.pointer, displacement_snoc, if_neg (by decide), if_pos rfl,
      zero_sub, sub_eq_add_neg]

/-- Where a byte that is no bracket leaves the pointer. -/
theorem act {s : Store} (h : t.Stands front s.tape) (ht : t.WellFormed)
    (hb : Bracket.ofByte? b = none) (eof : EofPolicy) :
    t.Stands (front ++ [b]) (s.act eof b).tape := by
  cases hi : Instruction.ofByte? b with
  | none =>
    simp only [Store.act, hi]
    exact h.stay (Instruction.ne_byte hi _) (Instruction.ne_byte hi _)
  | some instruction =>
    obtain rfl := Instruction.ofByte?_eq_some_iff.mp hi
    simp only [Store.act, hi]
    cases instruction with
    | right => exact h.right ht
    | left => exact h.left ht
    | increment => exact (h.write _).stay (by decide) (by decide)
    | decrement => exact (h.write _).stay (by decide) (by decide)
    | output => exact h.stay (by decide) (by decide)
    | input =>
      refine Stands.stay ?_ (by decide) (by decide)
      rw [Store.read_eq]
      cases s.input.headD none with
      | some v => exact h.write v
      | none =>
        cases eof with
        | zero => exact h.write 0
        | unchanged => exact h
    | bracket k => cases k <;> cases hb

end Tape.Stands

/-- A cell is what its value wraps to. -/
theorem ofInt_toNat (v : UInt8) : UInt8.ofInt v.toNat = v := by
  have hlt := v.toNat_lt
  apply UInt8.toNat_inj.mp
  rw [UInt8.ofInt, UInt8.toNat_ofNat']
  omega

namespace Store.Adds

variable {s : Store}

theorem start (houtput : s.output = []) : s.Adds s.tape [] where
  cells := by
    intro j hj
    have hget : s.tape.cells[j]? = some (s.tape.cells.getD j 0) := by
      rw [Array.getD_eq_getD_getElem?, Array.getElem?_eq_getElem hj]
      rfl
    have htally : s.tape.tally [] j = (s.tape.cells.getD j 0).toNat := Int.sub_zero _
    rw [hget, htally, ofInt_toNat]
  output := houtput

theorem cell_eq (h : s.Adds t front) (hs : t.Stands front s.tape) (ht : t.WellFormed) :
    s.tape.cell = UInt8.ofInt (t.tally front (t.place (displacement front))) := by
  unfold Tape.cell
  rw [Array.getD_eq_getD_getElem?, hs.pointer, h.cells _ (Tape.place_lt ht _)]
  rfl

/-- A byte that adds nothing and writes nothing. -/
theorem keep (h : s.Adds t front) (hinc : b ≠ Instruction.increment.byte)
    (hdec : b ≠ Instruction.decrement.byte) (hout : b ≠ Instruction.output.byte) {u : Tape}
    (hu : u.cells = s.tape.cells) :
    Store.Adds t (front ++ [b]) { s with tape := u } where
  cells := by
    intro j hj
    rw [Tape.tally_snoc_of_ne hinc hdec]
    show u.cells[j]? = _
    rw [hu]
    exact h.cells j hj
  output := h.output.trans (Tape.shown_snoc_of_ne hout).symm

/-- A byte that adds `d` to the current cell. -/
theorem add {d : Int} {v : UInt8} (h : s.Adds t front) (hs : t.Stands front s.tape)
    (ht : t.WellFormed) (hout : b ≠ Instruction.output.byte) (hv : v = s.tape.cell + UInt8.ofInt d)
    (hd : ∀ j, t.tally (front ++ [b]) j =
      t.tally front j + if t.place (displacement front) = j then d else 0) :
    Store.Adds t (front ++ [b]) { s with tape := s.tape.write v } where
  cells := by
    intro j hj
    have hlt : j < s.tape.cells.size := Nat.lt_of_lt_of_eq hj hs.length.symm
    show (s.tape.cells.setIfInBounds s.tape.pointer _)[j]? = _
    rw [Array.getElem?_setIfInBounds, hs.pointer, hd]
    by_cases hj' : t.place (displacement front) = j
    · rw [if_pos hj', if_pos hj', if_pos (hj' ▸ hlt), hv, h.cell_eq hs ht, hj', UInt8.ofInt_add]
    · rw [if_neg hj', if_neg hj', add_zero, h.cells j hj]
  output := h.output.trans (Tape.shown_snoc_of_ne hout).symm

/-- What a byte that is no bracket adds to the cells and to the output. -/
theorem act (h : s.Adds t front) (hs : t.Stands front s.tape) (ht : t.WellFormed)
    (hb : Bracket.ofByte? b = none) (hinput : b ≠ Instruction.input.byte) (eof : EofPolicy) :
    (s.act eof b).Adds t (front ++ [b]) := by
  cases hi : Instruction.ofByte? b with
  | none =>
    simp only [Store.act, hi]
    exact h.keep (Instruction.ne_byte hi _) (Instruction.ne_byte hi _)
      (Instruction.ne_byte hi _) rfl
  | some instruction =>
    obtain rfl := Instruction.ofByte?_eq_some_iff.mp hi
    simp only [Store.act, hi]
    cases instruction with
    | right => exact h.keep (by decide) (by decide) (by decide) rfl
    | left => exact h.keep (by decide) (by decide) (by decide) rfl
    | increment =>
      refine h.add (d := 1) hs ht ?_ rfl fun j => Tape.tally_snoc_increment
      decide
    | decrement =>
      refine h.add (d := -1) hs ht ?_ ?_ fun j => Tape.tally_snoc_decrement
      · decide
      · rw [UInt8.ofInt_neg, UInt8.ofInt_one, ← UInt8.sub_eq_add_neg]
    | output =>
      refine ⟨fun j hj => ?_, ?_⟩
      · rw [Tape.tally_snoc_of_ne (by decide) (by decide)]
        exact h.cells j hj
      · rw [Tape.shown_snoc, if_pos rfl, h.output, h.cell_eq hs ht]
    | input => exact absurd rfl hinput
    | bracket k => cases k <;> cases hb

end Store.Adds

/-! ### Whole runs -/

/-- **What a run has done after `n` bytes.** The pointer is known in any case, the cells and the
output only as long as nothing was read. -/
theorem exists_visits_of_no_bracket {code : Array UInt8} {i : Interpreter}
    (hcode : ∀ b ∈ code, Bracket.ofByte? b = none) (hi : i.Undisturbed)
    (ht : i.machine.tape.WellFormed) {n : Nat} (hn : n ≤ code.size) :
    ∃ s, Visits code i n n i.machine.loops.clear s ∧
      i.machine.tape.Stands (code.toList.take n) s.tape ∧
      (Instruction.input.byte ∉ code.toList.take n →
        s.Adds i.machine.tape (code.toList.take n)) := by
  induction n with
  | zero => exact ⟨i.store, .start hi, .start ht, fun _ => .start (s := i.store) rfl⟩
  | succ n ih =>
    obtain ⟨s, hvisits, hstands, hadds⟩ := ih (Nat.le_of_succ_le hn)
    have hget : code[n]? = some code[n] := Array.getElem?_eq_getElem hn
    have hb := hcode code[n] (Array.getElem_mem hn)
    have htake : code.toList.take (n + 1) = code.toList.take n ++ [code[n]] := by
      rw [List.take_add_one, Array.getElem?_toList, hget]
      rfl
    rw [htake]
    refine ⟨_, hvisits.plain hget hb, hstands.act ht hb i.eof, fun hno => ?_⟩
    rw [List.mem_append, List.mem_singleton, not_or] at hno
    exact (hadds hno.1).act hstands ht hb (Ne.symm hno.2) i.eof

/-- **Code without brackets, in closed form.** A run that nothing disturbs succeeds after one step
for each byte, and leaves the pointer where the moves make it. If nothing is read, each cell holds
what it held and what was added there, modulo 256, and the output is what the current cell held, by
the same count, at each `.`. -/
theorem straight_line_closed_form {p : Program} {i : Interpreter}
    (hp : ∀ k : Bracket, k.byte ∉ p.code) (hi : i.Undisturbed) (ht : i.machine.tape.WellFormed) :
    ∃ r, i.run? (p.code.size + 1) p = some r ∧ r.outcome = .ok () ∧ r.turns.size = p.code.size ∧
      r.after.machine.tape.length = i.machine.tape.length ∧
      (r.after.machine.tape.pointer : Int) =
        (i.machine.tape.pointer +
          (p.code.count Instruction.right.byte - p.code.count Instruction.left.byte)) %
          i.machine.tape.length ∧
      (Instruction.input.byte ∉ p.code →
        (∀ j < i.machine.tape.length, r.after.machine.tape.cells[j]? =
          some (UInt8.ofInt (i.machine.tape.tally p.code.toList j))) ∧
        r.output = i.machine.tape.shown p.code.toList) := by
  have hcode : ∀ b ∈ p.code, Bracket.ofByte? b = none := by
    intro b hb
    rw [Bracket.ofByte?_eq_none_iff]
    constructor
    · rintro rfl
      exact hp .opening hb
    · rintro rfl
      exact hp .closing hb
  obtain ⟨s, hvisits, hstands, hadds⟩ :=
    exists_visits_of_no_bracket hcode hi ht (Nat.le_refl p.code.size)
  have htake : p.code.toList.take p.code.size = p.code.toList :=
    List.take_of_length_le (Nat.le_of_eq Array.length_toList)
  rw [htake] at hstands hadds
  obtain ⟨r, hr, hsize, hok, rfl, -⟩ := hvisits.exists_run?
  refine ⟨r, hr, hok, hsize, hstands.length, ?_, fun hno => ?_⟩
  · show ((r.store.tape.pointer : Nat) : Int) = _
    rw [hstands.pointer, Tape.cast_place ht, displacement, Array.count_toList, Array.count_toList]
  · have hadds := hadds (mt Array.mem_toList_iff.mp hno)
    exact ⟨hadds.cells, hadds.output⟩

/-- The program `->+.>-.>+` on a tape of two cells, from the second one: the pointer goes around the
end twice, both cells wrap, and each is met at two displacements. -/
theorem straight_line_closed_form_two_cells :
    ∃ (p : Program) (i : Interpreter) (r : Run), p.code = #[45, 62, 43, 46, 62, 45, 46, 62, 43] ∧
      i.machine.tape = ⟨#[255, 0], 1⟩ ∧ (∀ k : Bracket, k.byte ∉ p.code) ∧ i.Undisturbed ∧
      i.machine.tape.WellFormed ∧ Instruction.input.byte ∉ p.code ∧ i.run? 10 p = some r ∧
      r.outcome = .ok () ∧ r.turns.size = 9 ∧ (r.after.machine.tape.pointer : Int) = 0 ∧
      r.after.machine.tape.cells[0]? = some 1 ∧ r.after.machine.tape.cells[1]? = some 254 ∧
      r.output = [0, 254] := by
  let p : Program := ⟨#[45, 62, 43, 46, 62, 45, 46, 62, 43], by decide⟩
  let i : Interpreter := .ofMachine ⟨⟨#[255, 0], 1⟩, .ofCapacity 0⟩ (.ofBytes []) .reliable
  have hcode : p.code = #[45, 62, 43, 46, 62, 45, 46, 62, 43] := by decide +kernel
  have hp : ∀ k : Bracket, k.byte ∉ p.code := by
    intro k
    rw [hcode]
    cases k <;> simp [Bracket.byte]
  have hi : i.Undisturbed := by
    refine ⟨fun e he => ?_, rfl, rfl⟩
    simp [i, Interpreter.ofMachine, Source.ofBytes] at he
  have ht : i.machine.tape.WellFormed := Nat.lt_succ_self 1
  have hno : Instruction.input.byte ∉ p.code := by
    rw [hcode]
    simp [Instruction.byte]
  obtain ⟨r, hr, hok, hsize, -, hpointer, hadds⟩ := straight_line_closed_form hp hi ht
  obtain ⟨hcells, houtput⟩ := hadds hno
  rw [hcode] at hr hsize hpointer hcells houtput
  refine ⟨p, i, r, hcode, rfl, hp, hi, ht, hno, hr, hok, hsize, hpointer.trans (by decide +kernel),
    (hcells 0 (by decide)).trans (by decide +kernel),
    (hcells 1 (by decide)).trans (by decide +kernel), houtput.trans (by decide +kernel)⟩

end Brainfuck
