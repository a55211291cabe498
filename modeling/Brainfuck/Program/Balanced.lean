import Brainfuck.Program.Brackets

/-!
# Balanced code

The grammar of code in which every bracket has a partner: a sequence of bytes that
are no brackets and of loops, each a `[`, balanced code, and a `]`.

Both readings of brackets pass over balanced code as if it were not there:
`checkFrom_append` for the check, `closeFrom?_append` for the search for a closing
bracket.
-/

namespace Brainfuck

/-- Every bracket of the code has a partner inside it. -/
inductive Balanced : List UInt8 → Prop where
  /-- There is nothing. -/
  | nil : Balanced []
  /-- A byte that is no bracket, then balanced code. -/
  | plain {b : UInt8} {code : List UInt8} :
      Bracket.ofByte? b = none → Balanced code → Balanced (b :: code)
  /-- A loop with a balanced body, then balanced code. -/
  | loop {body code : List UInt8} :
      Balanced body → Balanced code →
        Balanced (Bracket.opening.byte :: (body ++ Bracket.closing.byte :: code))

namespace Brackets

/-! ### The check -/

theorem checkFrom_plain {b : UInt8} (h : Bracket.ofByte? b = none) (p : Nat) (opened : List Nat)
    (code : List UInt8) : checkFrom p opened (b :: code) = checkFrom (p + 1) opened code := by
  rw [checkFrom.eq_def]
  simp only [h]

theorem checkFrom_opening (p : Nat) (opened : List Nat) (code : List UInt8) :
    checkFrom p opened (Bracket.opening.byte :: code) = checkFrom (p + 1) (p :: opened) code := by
  rw [checkFrom.eq_def]
  simp only [Bracket.ofByte?_eq_some_iff.2 rfl]

theorem checkFrom_closing (p q : Nat) (opened : List Nat) (code : List UInt8) :
    checkFrom p (q :: opened) (Bracket.closing.byte :: code) = checkFrom (p + 1) opened code := by
  rw [checkFrom.eq_def]
  simp only [Bracket.ofByte?_eq_some_iff.2 rfl]

theorem checkFrom_append {xs : List UInt8} (h : Balanced xs) (p : Nat) (opened : List Nat)
    (ys : List UInt8) : checkFrom p opened (xs ++ ys) = checkFrom (p + xs.length) opened ys := by
  induction h generalizing p opened ys with
  | nil => rfl
  | plain hb _ ih =>
    rw [List.cons_append, checkFrom_plain hb, ih, List.length_cons, Nat.add_right_comm, Nat.add_assoc]
  | @loop body code _ _ ihBody ihCode =>
    rw [List.cons_append, List.append_assoc, List.cons_append, checkFrom_opening, ihBody,
      checkFrom_closing, ihCode]
    congr 1
    simp only [List.length_cons, List.length_append]
    omega

/-! ### The search -/

theorem closeFrom?_of_getElem? {code : Array UInt8} {p : Nat} {b : UInt8} (h : code[p]? = some b)
    (inner : Nat) :
    closeFrom? code inner p =
      match Bracket.ofByte? b with
      | none => closeFrom? code inner (p + 1)
      | some .opening => closeFrom? code (inner + 1) (p + 1)
      | some .closing =>
        match inner with
        | 0 => some p
        | inner + 1 => closeFrom? code inner (p + 1) := by
  obtain ⟨hp, rfl⟩ := Array.getElem?_eq_some_iff.1 h
  rw [closeFrom?.eq_def]
  exact dif_pos hp

theorem closeFrom?_of_size_le {code : Array UInt8} {p : Nat} (h : code.size ≤ p) (inner : Nat) :
    closeFrom? code inner p = none := by
  rw [closeFrom?.eq_def, dif_neg (Nat.not_lt.2 h)]

private theorem getElem?_of_drop {code : Array UInt8} {p : Nat} {b : UInt8} {rest : List UInt8}
    (h : code.toList.drop p = b :: rest) :
    code[p]? = some b ∧ code.toList.drop (p + 1) = rest := by
  constructor
  · rw [← Array.getElem?_toList, ← Nat.add_zero p, ← List.getElem?_drop, h]
    rfl
  · rw [← List.drop_drop, h]
    rfl

theorem closeFrom?_append {xs : List UInt8} (h : Balanced xs) {code : Array UInt8} {p : Nat}
    {ys : List UInt8} (hp : code.toList.drop p = xs ++ ys) (inner : Nat) :
    closeFrom? code inner p = closeFrom? code inner (p + xs.length) := by
  induction h generalizing p ys inner with
  | nil => rfl
  | plain hb _ ih =>
    obtain ⟨hget, hdrop⟩ := getElem?_of_drop hp
    rw [closeFrom?_of_getElem? hget, hb]
    rw [ih hdrop, List.length_cons, Nat.add_right_comm, Nat.add_assoc]
  | @loop body rest _ _ ihBody ihRest =>
    rw [List.cons_append, List.append_assoc, List.cons_append] at hp
    obtain ⟨hget, hdrop⟩ := getElem?_of_drop hp
    rw [closeFrom?_of_getElem? hget, Bracket.ofByte?_eq_some_iff.2 rfl]
    have hclose : code.toList.drop (p + 1 + body.length) = Bracket.closing.byte :: (rest ++ ys) := by
      rw [← List.drop_drop, hdrop, List.drop_left]
    obtain ⟨hget', hdrop'⟩ := getElem?_of_drop hclose
    simp only
    rw [ihBody hdrop, closeFrom?_of_getElem? hget', Bracket.ofByte?_eq_some_iff.2 rfl]
    simp only
    rw [ihRest hdrop']
    congr 1
    simp only [List.length_cons, List.length_append]
    omega

end Brackets

namespace Balanced

theorem append {xs ys : List UInt8} (hx : Balanced xs) (hy : Balanced ys) : Balanced (xs ++ ys) := by
  induction hx with
  | nil => exact hy
  | plain hb _ ih => exact .plain hb ih
  | loop hbody _ _ ih =>
    rw [List.cons_append, List.append_assoc, List.cons_append]
    exact .loop hbody ih

/-- Balanced code passes the check. -/
theorem check_eq_ok {xs : List UInt8} (h : Balanced xs) : Brackets.check xs = .ok () := by
  have := Brackets.checkFrom_append h 0 [] []
  rwa [List.append_nil] at this

end Balanced

end Brainfuck
