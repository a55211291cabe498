import Brainfuck.Proofs.Brackets.Opened
import Brainfuck.Program.Basic

/-!
# Programs as trees

A program in which every bracket has a partner is a sequence of bytes that are no
brackets and of loops, whose bodies are such sequences again. Such a sequence is a
`Tree`. Its text, `Tree.bytes`, is balanced code, all balanced code is the text of a
tree, and of one only (`exists_tree_of_check`).
-/

namespace Brainfuck

/-- A program, with its loops as parts. -/
inductive Tree where
  /-- Nothing. -/
  | done
  /-- A byte that is no bracket, and what comes after it. -/
  | plain (b : UInt8) (hb : Bracket.ofByte? b = none) (rest : Tree)
  /-- A loop, and what comes after it. -/
  | loop (body rest : Tree)

namespace Tree

/-- The text of a program. -/
def bytes : Tree → List UInt8
  | done => []
  | plain b _ rest => b :: rest.bytes
  | loop body rest => Bracket.opening.byte :: (body.bytes ++ Bracket.closing.byte :: rest.bytes)

theorem length_bytes_loop (body rest : Tree) :
    (loop body rest).bytes.length = body.bytes.length + rest.bytes.length + 2 := by
  simp only [bytes, List.length_cons, List.length_append]
  omega

/-- How deep the loops of a program are nested. -/
def depth : Tree → Nat
  | done => 0
  | plain _ _ rest => rest.depth
  | loop body rest => max (body.depth + 1) rest.depth

/-- The text of a program is balanced. -/
theorem balanced (t : Tree) : Balanced t.bytes := by
  induction t with
  | done => exact .nil
  | plain b hb rest ih => exact .plain hb ih
  | loop body rest ihBody ihRest => exact .loop ihBody ihRest

/-- A byte that is no bracket starts no loop. -/
private theorem ne_opening {b : UInt8} (hb : Bracket.ofByte? b = none) :
    b ≠ Bracket.opening.byte := by
  rintro rfl
  rw [Bracket.ofByte?_eq_some_iff.mpr rfl] at hb
  cases hb

/-- A program is determined by its text. -/
theorem eq_of_bytes_eq {t u : Tree} (h : t.bytes = u.bytes) : t = u := by
  induction t generalizing u with
  | done =>
    cases u with
    | done => rfl
    | plain b hb rest => cases h
    | loop body rest => cases h
  | plain b hb rest ih =>
    cases u with
    | done => cases h
    | plain b' hb' rest' =>
      obtain ⟨rfl, hrest⟩ := List.cons.inj h
      rw [ih hrest]
    | loop body' rest' => exact absurd (List.cons.inj h).1 (ne_opening hb)
  | loop body rest ihBody ihRest =>
    cases u with
    | done => cases h
    | plain b' hb' rest' => exact absurd (List.cons.inj h).1.symm (ne_opening hb')
    | loop body' rest' =>
      -- the body ends at the one `]` that stands behind balanced code
      obtain ⟨hbody, hrest⟩ :=
        Brackets.stray_unique body.balanced body'.balanced (List.cons.inj h).2
      rw [ihBody hbody, ihRest hrest]

end Tree

/-- Balanced code is the text of a program. -/
theorem Balanced.exists_tree {xs : List UInt8} (h : Balanced xs) : ∃ t : Tree, t.bytes = xs := by
  induction h with
  | nil => exact ⟨.done, rfl⟩
  | @plain b code hb _ ih =>
    obtain ⟨rest, rfl⟩ := ih
    exact ⟨.plain b hb rest, rfl⟩
  | loop _ _ ihBody ihRest =>
    obtain ⟨body, rfl⟩ := ihBody
    obtain ⟨rest, rfl⟩ := ihRest
    exact ⟨.loop body rest, rfl⟩

/-- **Code that passes the check is the text of one program.** -/
theorem exists_tree_of_check {xs : List UInt8} (h : Brackets.check xs = .ok ()) :
    ∃ t : Tree, ∀ u : Tree, u.bytes = xs ↔ u = t := by
  obtain ⟨t, ht⟩ := (Brackets.check_eq_ok_iff.mp h).exists_tree
  refine ⟨t, fun u => ⟨fun hu => Tree.eq_of_bytes_eq (hu.trans ht.symm), ?_⟩⟩
  rintro rfl
  exact ht

end Brainfuck
