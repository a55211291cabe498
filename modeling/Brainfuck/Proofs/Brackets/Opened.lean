import Brainfuck.Program.Balanced
import Mathlib.Data.List.Basic
import Mathlib.Data.List.Induction

/-!
# Code with loops still open

`Opened xs ps` says what code looks like when it is read from the left and no `]` of
it is stray: balanced code, then any number of times a `[` that stays open and
balanced code behind it. The positions of those `[` are `ps`, the innermost first,
which is how a stack holds them.

All code is of this form or has a stray `]` (`opened_or_stray`), and each of the two
readings of brackets can be told from it: the check goes on behind opened code with
`ps` on its stack (`Brackets.checkFrom_opened`), and the search for a closing bracket
goes on with that many more loops to close (`Brackets.closeFrom?_opened`).
-/

namespace Brainfuck

/-- Code without a stray `]`, in which the `[` at `ps` are still open, the innermost
first. -/
inductive Opened : List UInt8 → List Nat → Prop where
  /-- Balanced code leaves nothing open. -/
  | balanced {xs : List UInt8} : Balanced xs → Opened xs []
  /-- A `[` that stays open, with balanced code behind it. -/
  | enter {xs ys : List UInt8} {ps : List Nat} :
      Opened xs ps → Balanced ys → Opened (xs ++ Bracket.opening.byte :: ys) (xs.length :: ps)

/-- A byte that is no bracket is balanced code. -/
theorem balanced_singleton {b : UInt8} (hb : Bracket.ofByte? b = none) : Balanced [b] :=
  .plain hb .nil

/-- Balanced code in brackets is balanced. -/
theorem Balanced.enclose {xs : List UInt8} (h : Balanced xs) :
    Balanced (Bracket.opening.byte :: (xs ++ [Bracket.closing.byte])) :=
  .loop h .nil

namespace Opened

variable {xs ys zs : List UInt8} {p : Nat} {ps qs : List Nat}

/-! ### Reading on -/

theorem append_balanced (h : Opened xs ps) (hz : Balanced zs) : Opened (xs ++ zs) ps := by
  cases h with
  | balanced hx => exact .balanced (hx.append hz)
  | enter hx hy =>
    rw [List.append_assoc, List.cons_append]
    exact .enter hx (hy.append hz)

theorem snoc_plain {b : UInt8} (h : Opened xs ps) (hb : Bracket.ofByte? b = none) :
    Opened (xs ++ [b]) ps :=
  h.append_balanced (balanced_singleton hb)

theorem snoc_opening (h : Opened xs ps) :
    Opened (xs ++ [Bracket.opening.byte]) (xs.length :: ps) :=
  .enter h .nil

/-- A `]` closes the innermost loop. -/
theorem snoc_closing (h : Opened xs (p :: ps)) : Opened (xs ++ [Bracket.closing.byte]) ps := by
  cases h with
  | enter hx hy =>
    rw [List.append_assoc, List.cons_append]
    exact hx.append_balanced hy.enclose

/-- Behind the `[` that is open innermost, the same loops are open as at the end. -/
theorem take_succ (h : Opened xs (p :: ps)) : Opened (xs.take (p + 1)) (p :: ps) := by
  cases h with
  | @enter us ys _ hx hy =>
    have : (us ++ Bracket.opening.byte :: ys).take (us.length + 1) =
        us ++ [Bracket.opening.byte] := by
      rw [List.take_length_add_append]
      rfl
    rw [this]
    exact hx.snoc_opening

theorem append (hx : Opened xs ps) (hy : Opened ys qs) :
    Opened (xs ++ ys) (qs.map (xs.length + ·) ++ ps) := by
  induction hy with
  | balanced hy => exact hx.append_balanced hy
  | @enter us vs qs _ hv ih =>
    have := Opened.enter ih hv
    rw [List.length_append, List.append_assoc] at this
    exact this

/-! ### The open positions -/

theorem lt_length (h : Opened xs ps) : ∀ q ∈ ps, q < xs.length := by
  induction h with
  | balanced _ => exact fun _ hq => absurd hq List.not_mem_nil
  | @enter us vs _ _ _ ih =>
    intro q hq
    rw [List.length_append, List.length_cons]
    rcases List.mem_cons.mp hq with rfl | hq
    · omega
    · have := ih q hq
      omega

theorem pairwise_gt (h : Opened xs ps) : ps.Pairwise (· > ·) := by
  induction h with
  | balanced _ => exact .nil
  | enter hx _ ih => exact .cons hx.lt_length ih

theorem getElem?_of_mem (h : Opened xs ps) : ∀ q ∈ ps, xs[q]? = some Bracket.opening.byte := by
  induction h with
  | balanced _ => exact fun _ hq => absurd hq List.not_mem_nil
  | @enter us vs _ hx _ ih =>
    intro q hq
    rcases List.mem_cons.mp hq with rfl | hq
    · simp
    · rw [List.getElem?_append_left (hx.lt_length q hq)]
      exact ih q hq

/-- What stands behind a `[` that stays open has no stray `]` either. -/
theorem exists_split (h : Opened xs ps) (hp : p ∈ ps) :
    ∃ us vs qs, xs = us ++ Bracket.opening.byte :: vs ∧ us.length = p ∧ Opened vs qs := by
  induction h with
  | balanced _ => exact absurd hp List.not_mem_nil
  | @enter us vs _ _ hv ih =>
    rcases List.mem_cons.mp hp with rfl | hp
    · exact ⟨us, vs, [], rfl, rfl, .balanced hv⟩
    · obtain ⟨us', vs', qs, rfl, hl, hv'⟩ := ih hp
      refine ⟨us', vs' ++ Bracket.opening.byte :: vs, vs'.length :: qs, ?_, hl, .enter hv' hv⟩
      rw [List.append_assoc, List.cons_append]

theorem balanced_of_nil (h : Opened xs []) : Balanced xs := by
  cases h with
  | balanced hx => exact hx

end Opened

/-- **Code is opened, or has a stray `]`**, the first of which stands behind balanced
code. -/
theorem opened_or_stray (xs : List UInt8) :
    (∃ ps, Opened xs ps) ∨ ∃ us vs, Balanced us ∧ xs = us ++ Bracket.closing.byte :: vs := by
  induction xs using List.reverseRecOn with
  | nil => exact .inl ⟨[], .balanced .nil⟩
  | append_singleton xs b ih =>
    rcases ih with ⟨ps, h⟩ | ⟨us, vs, hu, rfl⟩
    · cases hb : Bracket.ofByte? b with
      | none => exact .inl ⟨ps, h.snoc_plain hb⟩
      | some k =>
        obtain rfl := Bracket.ofByte?_eq_some_iff.mp hb
        cases k with
        | opening => exact .inl ⟨_, h.snoc_opening⟩
        | closing =>
          cases ps with
          | nil => exact .inr ⟨xs, [], h.balanced_of_nil, rfl⟩
          | cons p ps => exact .inl ⟨ps, h.snoc_closing⟩
    · -- what was stray stays stray
      refine .inr ⟨us, vs ++ [b], hu, ?_⟩
      rw [List.append_assoc, List.cons_append]

namespace Brackets

/-! ### The check -/

/-- The check goes on behind opened code with the open positions on its stack. -/
theorem checkFrom_opened {xs : List UInt8} {ps : List Nat} (h : Opened xs ps) (ys : List UInt8) :
    checkFrom 0 [] (xs ++ ys) = checkFrom xs.length ps ys := by
  induction h generalizing ys with
  | balanced hx => rw [checkFrom_append hx, Nat.zero_add]
  | @enter us vs ps _ hv ih =>
    rw [List.append_assoc, List.cons_append, ih, checkFrom_opening, checkFrom_append hv]
    congr 1
    rw [List.length_append, List.length_cons]
    omega

theorem check_opened {xs : List UInt8} {p : Nat} {ps : List Nat} (h : Opened xs (p :: ps)) :
    check xs = .error ⟨p, .opening⟩ := by
  have hc := checkFrom_opened h []
  rw [List.append_nil] at hc
  exact hc

theorem check_stray {us : List UInt8} (h : Balanced us) (vs : List UInt8) :
    check (us ++ Bracket.closing.byte :: vs) = .error ⟨us.length, .closing⟩ := by
  show checkFrom 0 [] _ = _
  rw [checkFrom_opened (.balanced h), checkFrom.eq_def]
  simp only [Bracket.ofByte?_eq_some_iff.mpr rfl]

/-- Only one `]` of a code stands behind balanced code alone. -/
theorem stray_unique {us us' vs vs' : List UInt8} (hu : Balanced us) (hu' : Balanced us')
    (h : us ++ Bracket.closing.byte :: vs = us' ++ Bracket.closing.byte :: vs') :
    us = us' ∧ vs = vs' := by
  have hc := check_stray hu vs
  rw [h, check_stray hu', Except.error.injEq, Unmatched.mk.injEq] at hc
  obtain ⟨hus, hvs⟩ := List.append_inj h hc.1.symm
  exact ⟨hus, (List.cons.inj hvs).2⟩

/-- **The check accepts balanced code and no other.** -/
theorem check_eq_ok_iff {xs : List UInt8} : check xs = .ok () ↔ Balanced xs := by
  constructor
  · intro h
    rcases opened_or_stray xs with ⟨ps, hx⟩ | ⟨us, vs, hu, rfl⟩
    · cases ps with
      | nil => exact hx.balanced_of_nil
      | cons p ps =>
        rw [check_opened hx] at h
        cases h
    · rw [check_stray hu] at h
      cases h
  · exact Balanced.check_eq_ok

/-- Code that is opened has no `]` that stands behind balanced code alone. -/
theorem not_opened_stray {us vs : List UInt8} {ps : List Nat} (hu : Balanced us) :
    ¬ Opened (us ++ Bracket.closing.byte :: vs) ps := by
  intro h
  have hc := check_stray hu vs
  cases ps with
  | nil =>
    rw [h.balanced_of_nil.check_eq_ok] at hc
    cases hc
  | cons p ps =>
    rw [check_opened h] at hc
    cases hc

/-! ### The search -/

theorem closeFrom?_opened {xs : List UInt8} {ps : List Nat} (h : Opened xs ps) {code : Array UInt8}
    {p : Nat} {ys : List UInt8} (hp : code.toList.drop p = xs ++ ys) (inner : Nat) :
    closeFrom? code inner p = closeFrom? code (inner + ps.length) (p + xs.length) := by
  induction h generalizing ys with
  | balanced hx => exact closeFrom?_append hx hp inner
  | @enter us vs ps _ hv ih =>
    rw [List.append_assoc, List.cons_append] at hp
    have hopen : code.toList.drop (p + us.length) = Bracket.opening.byte :: (vs ++ ys) := by
      rw [← List.drop_drop, hp, List.drop_left]
    have hget : code[p + us.length]? = some Bracket.opening.byte := by
      rw [← Array.getElem?_toList, ← Nat.add_zero (p + us.length), ← List.getElem?_drop, hopen]
      rfl
    have hdrop : code.toList.drop (p + us.length + 1) = vs ++ ys := by
      rw [← List.drop_drop, hopen]
      rfl
    rw [ih hp, closeFrom?_of_getElem? hget, Bracket.ofByte?_eq_some_iff.mpr rfl]
    show closeFrom? code (inner + ps.length + 1) (p + us.length + 1) = _
    rw [closeFrom?_append hv hdrop]
    congr 1
    rw [List.length_append, List.length_cons]
    omega

end Brackets

end Brainfuck
