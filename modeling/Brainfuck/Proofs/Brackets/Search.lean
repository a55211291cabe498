import Brainfuck.Proofs.Brackets.Partner
import Brainfuck.Proofs.Interpreter.Effect

/-!
# The search for a closing bracket

A `[` on a zero cell is where the search is used: execution goes on behind the `]` that is found,
and if none is found, the `[` is at fault (`Config.step_opening`). `Brackets.closeOf?_exact` says
what is found, in terms of partners: the one `]` that belongs to the `[`, however many loops stand
between the two and whatever is wrong with the rest of the code. So what is skipped from two
different `[` does not cross, and never ends at the same `]`.
-/

namespace Brainfuck

/-- What an attempt at a `[` comes to if the cell is zero and nothing stops it: the search
decides. -/
theorem Config.step_opening {code : Array UInt8} {c : Config}
    (hget : code[c.ip]? = some Bracket.opening.byte) (hcell : c.host.machine.tape.cell = 0)
    (hgo : ¬ c.host.interrupt.Stops) :
    c.step code = match Brackets.closeOf? code c.ip with
      | some close => .advanced ⟨⟨c.fetch Bracket.opening.byte, .skipped close⟩, [], none⟩
          ⟨close + 1, c.count + 1,
            { c.host with interrupt := c.host.interrupt.observe c.count }⟩
      | none => .failed (.unmatched ⟨c.ip, .opening⟩) [] c := by
  cases hclose : Brackets.closeOf? code c.ip with
  | some close =>
    exact step_eq_advanced_iff.mpr
      ⟨_, _, hget, hgo, rfl, .skipped rfl hcell hclose, rfl, rfl⟩
  | none =>
    exact step_eq_failed_iff.mpr ⟨_, hget, .inr ⟨hgo, _, .opening rfl hcell hclose, rfl⟩⟩

/-- A step that skips a loop goes on behind the `]` that the search finds. -/
theorem Config.step_skips_iff {code : Array UInt8} {c : Config} {j : Nat}
    (hget : code[c.ip]? = some Bracket.opening.byte) (hcell : c.host.machine.tape.cell = 0)
    (hgo : ¬ c.host.interrupt.Stops) :
    (∃ t d, c.step code = .advanced t d ∧ t.step.action = .skipped j ∧ d.ip = j + 1) ↔
      Brackets.closeOf? code c.ip = some j := by
  rw [step_opening hget hcell hgo]
  constructor
  · rintro ⟨t, d, hs, haction, -⟩
    split at hs
    · rename_i close hclose
      cases hs
      cases haction
      exact hclose
    · cases hs
  · intro hclose
    rw [hclose]
    exact ⟨_, _, rfl, rfl, rfl⟩

/-- The `[` is at fault if and only if the search finds nothing. -/
theorem Config.step_unmatched_iff {code : Array UInt8} {c : Config}
    (hget : code[c.ip]? = some Bracket.opening.byte) (hcell : c.host.machine.tape.cell = 0)
    (hgo : ¬ c.host.interrupt.Stops) :
    c.step code = .failed (.unmatched ⟨c.ip, .opening⟩) [] c ↔
      Brackets.closeOf? code c.ip = none := by
  rw [step_opening hget hcell hgo]
  constructor
  · intro hs
    split at hs
    · cases hs
    · assumption
  · intro hclose
    rw [hclose]

/-- **The search finds the `]` that belongs to a `[`, and nothing else.** For every code, whether
its brackets match or not, and every `[` of it:

* the search gives a position if and only if the `[` has its partner there, and it has at most
  one;
* it gives nothing if and only if the `[` has no partner;
* so on a zero cell, execution goes on behind the partner, or fails with that `[` unmatched if
  there is none;
* what is found from a later `[` stands behind the partner of the first or before it, and is never
  that partner. -/
theorem Brackets.closeOf?_exact {code : Array UInt8} {i : Nat}
    (hi : code[i]? = some Bracket.opening.byte) :
    (∀ j, closeOf? code i = some j ↔ Partner code.toList i j) ∧
      (∀ j j', Partner code.toList i j → Partner code.toList i j' → j = j') ∧
      (closeOf? code i = none ↔ ∀ j, ¬ Partner code.toList i j) ∧
      (∀ c : Config, c.ip = i → c.host.machine.tape.cell = 0 → ¬ c.host.interrupt.Stops →
        (∀ j, (∃ t d, c.step code = .advanced t d ∧ t.step.action = .skipped j ∧ d.ip = j + 1) ↔
          Partner code.toList i j) ∧
        (c.step code = .failed (.unmatched ⟨i, .opening⟩) [] c ↔
          ∀ j, ¬ Partner code.toList i j)) ∧
      ∀ k j l, i < k → code[k]? = some Bracket.opening.byte →
        closeOf? code i = some j → closeOf? code k = some l → (j < k ∨ l < j) ∧ j ≠ l := by
  refine ⟨fun j => closeOf?_eq_some_iff hi, fun j j' h h' => h.right_unique h',
    closeOf?_eq_none_iff hi, ?_, ?_⟩
  · rintro c rfl hcell hgo
    constructor
    · intro j
      rw [Config.step_skips_iff hi hcell hgo, closeOf?_eq_some_iff hi]
    · rw [Config.step_unmatched_iff hi hcell hgo, closeOf?_eq_none_iff hi]
  · intro k j l hik hk hj hl
    have hfirst := (closeOf?_eq_some_iff hi).mp hj
    have hsecond := (closeOf?_eq_some_iff hk).mp hl
    refine ⟨hfirst.disjoint_or_nested hsecond hik, ?_⟩
    rintro rfl
    exact hik.ne (hfirst.left_unique hsecond)

/-- In `[[][[]]]+[`, what is skipped from the `[` at 3 stands inside what is skipped from the one
at 0, and the one at 9 is at fault. -/
theorem Brackets.closeOf?_exact_nested :
    ∃ (code : Array UInt8) (c : Config), code = #[91, 91, 93, 91, 91, 93, 93, 93, 43, 91] ∧
      code[0]? = some Bracket.opening.byte ∧ code[3]? = some Bracket.opening.byte ∧
      closeOf? code 0 = some 7 ∧ closeOf? code 3 = some 6 ∧
      Partner code.toList 0 7 ∧ ((7 < 3 ∨ 6 < 7) ∧ 7 ≠ 6) ∧
      code[c.ip]? = some Bracket.opening.byte ∧ c.ip = 9 ∧
      c.step code = .failed (.unmatched ⟨9, .opening⟩) [] c := by
  let code : Array UInt8 := #[91, 91, 93, 91, 91, 93, 93, 93, 43, 91]
  let c : Config := ⟨9, 0, .ofMachine ⟨.ofLength 1, .ofCapacity 1⟩ [] .reliable⟩
  have h₀ : closeOf? code 0 = some 7 := by decide +kernel
  have h₃ : closeOf? code 3 = some 6 := by decide +kernel
  have h₉ : closeOf? code 9 = none := by decide +kernel
  have hfirst : code[0]? = some Bracket.opening.byte := rfl
  have hlast : code[9]? = some Bracket.opening.byte := rfl
  obtain ⟨hpartner, -, -, -, hspans⟩ := Brackets.closeOf?_exact hfirst
  obtain ⟨-, -, hnone, hstep, -⟩ := Brackets.closeOf?_exact hlast
  refine ⟨code, c, rfl, hfirst, rfl, h₀, h₃, (hpartner 7).mp h₀,
    hspans 3 7 6 (by decide) rfl h₀ h₃, hlast, rfl, ?_⟩
  exact (hstep c rfl (by decide) (by decide)).2.mpr (hnone.mp h₉)

end Brainfuck
