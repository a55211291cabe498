import Brainfuck.Interpreter.Run

/-!
# Reaching

`Reaches code c turns d` says that execution leads from `c` to `d` by completing the
steps in `turns`. It speaks of runs that end and of runs that do not.

## Main statements

* `Reaches.eq_of_length_eq` — execution is deterministic: after as many steps, the same
  steps were made and the same configuration is reached.
* `execute?_eq_some_iff` — an execution ends with an answer when it reaches, within the
  steps it may take, a configuration from which no step completes.
-/

namespace Brainfuck

/-- Execution leads from the first configuration to the second by the given steps. -/
inductive Reaches (code : Array UInt8) : Config → List Turn → Config → Prop where
  /-- No step is made. -/
  | refl (c : Config) : Reaches code c [] c
  /-- A step is made, and then others. -/
  | step {c d e : Config} {t : Turn} {ts : List Turn} :
      c.step code = .advanced t d → Reaches code d ts e → Reaches code c (t :: ts) e

namespace Reaches

variable {code : Array UInt8} {c d e : Config} {ts us : List Turn}

theorem trans (h : Reaches code c ts d) (h' : Reaches code d us e) : Reaches code c (ts ++ us) e := by
  induction h with
  | refl => exact h'
  | step hs _ ih => exact .step hs (ih h')

theorem snoc {t : Turn} (h : Reaches code c ts d) (hs : d.step code = .advanced t e) :
    Reaches code c (ts ++ [t]) e :=
  h.trans (.step hs (.refl e))

theorem eq_of_length_eq (h : Reaches code c ts d) (h' : Reaches code c us e)
    (hl : ts.length = us.length) : ts = us ∧ d = e := by
  induction h generalizing us with
  | refl =>
    cases h' with
    | refl => exact ⟨rfl, rfl⟩
    | step _ _ => simp at hl
  | step hs _ ih =>
    cases h' with
    | refl => simp at hl
    | step hs' h' =>
      rw [hs] at hs'
      injection hs' with ht hd
      subst ht hd
      obtain ⟨rfl, rfl⟩ := ih h' (by simpa using hl)
      exact ⟨rfl, rfl⟩

end Reaches

/-- No step completes from `c`: execution ends there in the way `halt`, at `last`. -/
def Config.Halts (code : Array UInt8) (c : Config) (halt : Halt) (last : Config) : Prop :=
  match halt with
  | .completed => c.step code = .finished last
  | .failed e calls => c.step code = .failed e calls last

namespace Config

variable {code : Array UInt8}

private theorem execute?_succ_of_advanced {fuel : Nat} {turns : Array Turn} {c d : Config} {t : Turn}
    (h : c.step code = .advanced t d) :
    execute? code (fuel + 1) turns c = execute? code fuel (turns.push t) d := by
  rw [execute?, h]

private theorem execute?_succ_of_halts {fuel : Nat} {turns : Array Turn} {c last : Config} {halt : Halt}
    (h : c.Halts code halt last) :
    execute? code (fuel + 1) turns c = some ⟨turns, halt, last⟩ := by
  cases halt with
  | completed => rw [execute?, (h : c.step code = _)]
  | failed e calls => rw [execute?, (h : c.step code = _)]

theorem execute?_of_reaches {c d last : Config} {ts : List Turn} {halt : Halt}
    (h : Reaches code c ts d) (hh : d.Halts code halt last) {fuel : Nat} (hf : ts.length < fuel)
    (turns : Array Turn) :
    execute? code fuel turns c = some ⟨turns ++ ts, halt, last⟩ := by
  induction h generalizing fuel turns with
  | refl =>
    obtain ⟨fuel, rfl⟩ := Nat.exists_eq_add_one_of_ne_zero (Nat.ne_of_gt hf)
    rw [execute?_succ_of_halts hh]
    simp
  | step hs _ ih =>
    obtain ⟨fuel, rfl⟩ := Nat.exists_eq_add_one_of_ne_zero (Nat.ne_of_gt (Nat.zero_lt_of_lt hf))
    rw [execute?_succ_of_advanced hs, ih hh (by simpa using hf)]
    simp

theorem exists_reaches_of_execute? {fuel : Nat} {turns : Array Turn} {c : Config} {x : Execution}
    (h : execute? code fuel turns c = some x) :
    ∃ ts d, Reaches code c ts d ∧ ts.length < fuel ∧ x.turns = turns ++ ts ∧
      d.Halts code x.halt x.last := by
  induction fuel generalizing turns c with
  | zero => cases h
  | succ fuel ih =>
    rw [execute?] at h
    split at h
    · rename_i hs
      cases h
      exact ⟨[], c, .refl c, Nat.succ_pos fuel, by simp, hs⟩
    · rename_i hs
      cases h
      exact ⟨[], c, .refl c, Nat.succ_pos fuel, by simp, hs⟩
    · rename_i t d hs
      obtain ⟨ts, e, hr, hl, ht, hh⟩ := ih h
      refine ⟨t :: ts, e, .step hs hr, by simpa using hl, ?_, hh⟩
      rw [ht]
      apply Array.toList_inj.1
      simp

theorem execute?_eq_some_iff {fuel : Nat} {c : Config} {x : Execution} :
    execute? code fuel #[] c = some x ↔
      ∃ d, Reaches code c x.turns.toList d ∧ x.turns.size < fuel ∧ d.Halts code x.halt x.last := by
  constructor
  · intro h
    obtain ⟨ts, d, hr, hl, ht, hh⟩ := exists_reaches_of_execute? h
    have : x.turns.toList = ts := by simp [ht]
    refine ⟨d, this ▸ hr, ?_, hh⟩
    rwa [← Array.length_toList, this]
  · rintro ⟨d, hr, hl, hh⟩
    rw [execute?_of_reaches hr hh hl]
    simp

end Config

end Brainfuck
