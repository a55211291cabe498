import Brainfuck.Program.Basic
import Brainfuck.Proofs.Brackets.Opened
import Mathlib.Order.Bounds.Basic

/-!
# Brackets by counting

Whether code is balanced, and which bracket is at fault if it is not, can be told without a stack.
A `]` is one too many if the code up to it has more `]` than `[` (`Surplus`). Opened code has no
such `]`, as no part of it at its front has a stray one; behind balanced code, the next `]` is the
first such one. So the check stops at the first `]` that is one too many
(`Brackets.check_eq_closing_iff`). If there is none it names the `[` behind which all is balanced,
which is the innermost one still open (`Brackets.check_eq_opening_iff`, `exists_opened`). For a
program, only the bytes before the first terminator count (`Program.checkBrackets_exact`).
-/

namespace Brainfuck

/-- The `]` at `ip` is one too many: the code up to it has more `]` than `[`. -/
structure Surplus (code : List UInt8) (ip : Nat) : Prop where
  /-- There is a `]` at `ip`. -/
  closing : code[ip]? = some Bracket.closing.byte
  /-- It and the `]` before it are more than the `[` before it. -/
  lt : (code.take (ip + 1)).count Bracket.opening.byte <
    (code.take (ip + 1)).count Bracket.closing.byte

/-! ### Counts -/

theorem Bracket.opening_ne_closing : Bracket.opening.byte ≠ Bracket.closing.byte := by decide

/-- Balanced code has as many `[` as `]`. -/
theorem Balanced.count_eq {xs : List UInt8} (h : Balanced xs) :
    xs.count Bracket.opening.byte = xs.count Bracket.closing.byte := by
  induction h with
  | nil => rfl
  | @plain b _ hb _ ih =>
    have hne (k : Bracket) : b ≠ k.byte := by
      intro heq
      rw [Bracket.ofByte?_eq_some_iff.mpr heq] at hb
      cases hb
    rw [List.count_cons_of_ne (hne _), List.count_cons_of_ne (hne _), ih]
  | loop _ _ ihBody ihCode =>
    simp only [List.count_cons_self, List.count_append,
      List.count_cons_of_ne Bracket.opening_ne_closing,
      List.count_cons_of_ne Bracket.opening_ne_closing.symm, ihBody, ihCode]
    omega

namespace Opened

variable {xs : List UInt8} {ps : List Nat}

/-- Opened code has more `[` than `]` by those that stay open. -/
theorem count_eq (h : Opened xs ps) :
    xs.count Bracket.opening.byte = xs.count Bracket.closing.byte + ps.length := by
  induction h with
  | balanced hx => exact hx.count_eq
  | enter _ hy ih =>
    simp only [List.count_cons_self, List.count_append, List.length_cons,
      List.count_cons_of_ne Bracket.opening_ne_closing, ih, hy.count_eq]
    omega

/-- The front of opened code is opened. -/
theorem take (h : Opened xs ps) (n : Nat) : ∃ qs, Opened (xs.take n) qs := by
  rcases opened_or_stray (xs.take n) with hopened | ⟨us, vs, hu, htake⟩
  · exact hopened
  · have hsplit := List.take_append_drop n xs
    rw [htake, List.append_assoc, List.cons_append] at hsplit
    rw [← hsplit] at h
    exact absurd h (Brackets.not_opened_stray hu)

theorem not_surplus (h : Opened xs ps) (ip : Nat) : ¬ Surplus xs ip := by
  intro hs
  obtain ⟨qs, hqs⟩ := h.take (ip + 1)
  have hlt := hs.lt
  have hcount := hqs.count_eq
  omega

end Opened

/-- Behind balanced code, the next `]` is the first that is one too many. -/
theorem isLeast_surplus {us : List UInt8} (h : Balanced us) (vs : List UInt8) :
    IsLeast {ip | Surplus (us ++ Bracket.closing.byte :: vs) ip} us.length := by
  refine ⟨⟨by simp, ?_⟩, fun ip hs => ?_⟩
  · have hfront : (us ++ Bracket.closing.byte :: vs).take (us.length + 1) =
        us ++ [Bracket.closing.byte] := by
      rw [List.take_length_add_append]
      rfl
    rw [hfront, List.count_append, List.count_append, h.count_eq]
    simp [List.count_cons_of_ne Bracket.opening_ne_closing.symm]
  · -- before it, a `]` that is one too many would be one in balanced code
    by_contra hlt
    have hin : ip < us.length := Nat.lt_of_not_le hlt
    obtain ⟨hclosing, hcount⟩ := hs
    rw [List.getElem?_append_left hin] at hclosing
    rw [List.take_append_of_le_length hin] at hcount
    exact (Opened.balanced h).not_surplus ip ⟨hclosing, hcount⟩

/-- If no `]` is one too many, a `[` with balanced code behind it is the one open innermost. -/
theorem exists_opened {code : List UInt8} {ip : Nat} (hno : ∀ j, ¬ Surplus code j)
    (hget : code[ip]? = some Bracket.opening.byte) (hbalanced : Balanced (code.drop (ip + 1))) :
    ∃ ps, Opened code (ip :: ps) := by
  rcases opened_or_stray code with ⟨ps, ho⟩ | ⟨us, vs, hu, rfl⟩
  · obtain ⟨hlt, hbyte⟩ := List.getElem?_eq_some_iff.mp hget
    obtain ⟨qs, hqs⟩ := ho.take ip
    have hopen := Opened.enter hqs hbalanced
    rw [← hbyte, ← List.drop_eq_getElem_cons hlt, List.take_append_drop, List.length_take,
      Nat.min_eq_left hlt.le] at hopen
    exact ⟨qs, hopen⟩
  · exact absurd (isLeast_surplus hu vs).1 (hno _)

namespace Brackets

variable {code : List UInt8} {ip : Nat}

/-- **The check stops at the first `]` that is one too many.** -/
theorem check_eq_closing_iff :
    check code = .error ⟨ip, .closing⟩ ↔ IsLeast {j | Surplus code j} ip := by
  rcases opened_or_stray code with ⟨ps, ho⟩ | ⟨us, vs, hu, rfl⟩
  · constructor
    · intro hcheck
      cases ps with
      | nil =>
        rw [ho.balanced_of_nil.check_eq_ok] at hcheck
        cases hcheck
      | cons p ps =>
        rw [check_opened ho] at hcheck
        cases hcheck
    · intro hleast
      exact absurd hleast.1 (ho.not_surplus ip)
  · rw [check_stray hu]
    have hleast := isLeast_surplus hu vs
    constructor
    · intro heq
      cases heq
      exact hleast
    · intro hip
      rw [hip.unique hleast]

/-- **If there is no such `]`, the check names the `[` behind which all is balanced.** -/
theorem check_eq_opening_iff :
    check code = .error ⟨ip, .opening⟩ ↔
      (∀ j, ¬ Surplus code j) ∧ code[ip]? = some Bracket.opening.byte ∧
        Balanced (code.drop (ip + 1)) := by
  constructor
  · intro hcheck
    rcases opened_or_stray code with ⟨ps, ho⟩ | ⟨us, vs, hu, rfl⟩
    · refine ⟨ho.not_surplus, ?_⟩
      cases ho with
      | balanced hx =>
        rw [hx.check_eq_ok] at hcheck
        cases hcheck
      | @enter us ys _ hu hy =>
        rw [check_opened (.enter hu hy)] at hcheck
        cases hcheck
        refine ⟨by simp, ?_⟩
        rw [List.drop_length_add_append]
        exact hy
    · rw [check_stray hu] at hcheck
      cases hcheck
  · rintro ⟨hno, hget, hbalanced⟩
    obtain ⟨ps, ho⟩ := exists_opened hno hget hbalanced
    exact check_opened ho

/-- The bracket that the check names stands at the position that it gives. -/
theorem getElem?_of_check {u : Unmatched} (h : check code = .error u) :
    code[u.position]? = some u.bracket.byte := by
  obtain ⟨ip, k⟩ := u
  cases k with
  | opening => exact (check_eq_opening_iff.mp h).2.1
  | closing => exact (check_eq_closing_iff.mp h).1.closing

end Brackets

namespace Program

variable {p : Program}

/-- What stands from the first terminator on is not executed. -/
theorem code_eq_of_terminated {q : Program} {xs : List UInt8}
    (h : p.buffer.toList = q.buffer.toList ++ terminator :: xs) : p.code = q.code := by
  apply Array.toList_inj.mp
  rw [code, code, Array.toList_takeWhile, Array.toList_takeWhile, h, List.takeWhile_append]
  -- a terminator in the front of `p` ends it there, and else the one behind that front does
  split
  · rename_i hall
    rw [(List.takeWhile_prefix _).eq_of_length hall, List.takeWhile_cons]
    simp
  · rfl

end Program

/-- **The check of the brackets is exact.** For every program:

* it passes the check if and only if its executable bytes are balanced;
* the check names the `]` at `ip` if and only if that is the first `]` that is one too many;
* it names the `[` at `ip` if and only if no `]` is one too many and behind that `[` all is
  balanced, so that of the `[` still open at the end it is the innermost;
* what stands from the first terminator on does not matter. -/
theorem Program.checkBrackets_exact (p : Program) :
    (p.checkBrackets = .ok () ↔ Balanced p.code.toList) ∧
      (∀ ip, p.checkBrackets = .error (.unmatched ⟨ip, .closing⟩) ↔
        IsLeast {j | Surplus p.code.toList j} ip) ∧
      (∀ ip, p.checkBrackets = .error (.unmatched ⟨ip, .opening⟩) ↔
        (∀ j, ¬ Surplus p.code.toList j) ∧ p.code[ip]? = some Bracket.opening.byte ∧
          Balanced (p.code.toList.drop (ip + 1))) ∧
      (∀ ip, p.checkBrackets = .error (.unmatched ⟨ip, .opening⟩) →
        ∃ ps, Opened p.code.toList (ip :: ps)) ∧
      ∀ (q : Program) (xs : List UInt8),
        p.buffer.toList = q.buffer.toList ++ terminator :: xs →
          p.checkBrackets = q.checkBrackets := by
  have hopening (ip : Nat) : p.checkBrackets = .error (.unmatched ⟨ip, .opening⟩) ↔
      (∀ j, ¬ Surplus p.code.toList j) ∧ p.code[ip]? = some Bracket.opening.byte ∧
        Balanced (p.code.toList.drop (ip + 1)) := by
    rw [checkBrackets_eq_error_iff, Brackets.check_eq_opening_iff, Array.getElem?_toList]
  refine ⟨?_, ?_, hopening, ?_, ?_⟩
  · rw [checkBrackets_eq_ok_iff, Brackets.check_eq_ok_iff]
  · intro ip
    rw [checkBrackets_eq_error_iff, Brackets.check_eq_closing_iff]
  · intro ip hcheck
    obtain ⟨hno, hget, hbalanced⟩ := (hopening ip).mp hcheck
    rw [← Array.getElem?_toList] at hget
    exact exists_opened hno hget hbalanced
  · intro q xs hbuffer
    rw [checkBrackets, checkBrackets, code_eq_of_terminated hbuffer]

/-- In `[]]` with `]` behind a terminator, the `]` at 2 is the first that is one too many. -/
theorem Program.checkBrackets_exact_stray :
    ∃ p q : Program, p.buffer = #[91, 93, 93, 0, 93] ∧ q.buffer = #[91, 93, 93] ∧
      p.checkBrackets = q.checkBrackets ∧
      p.checkBrackets = .error (.unmatched ⟨2, .closing⟩) ∧
      IsLeast {j | Surplus p.code.toList j} 2 := by
  let p : Program := ⟨#[91, 93, 93, 0, 93], by decide⟩
  let q : Program := ⟨#[91, 93, 93], by decide⟩
  obtain ⟨-, hclosing, -, -, hbehind⟩ := Program.checkBrackets_exact p
  have hcheck : p.checkBrackets = .error (.unmatched ⟨2, .closing⟩) := by decide +kernel
  exact ⟨p, q, rfl, rfl, hbehind q [93] rfl, hcheck, (hclosing 2).mp hcheck⟩

end Brainfuck
