import Brainfuck.Proofs.Interpreter.StaticLoops

/-!
# The check and the run agree

Brackets are matched twice: by the check that may be made before a run, in one pass over
the text, and by a run, with its stack and with searches from a `[`. A run meets only the
brackets that its data leads it to. Where it does meet one without a partner, the check
has an error too, and the same one if the bracket is a `]`; where it gets to the end, what
is left on its stack is what the check finds open.

The reason in both cases is that the code before the instruction pointer is opened code
(`Config.Tracks`). At a `]` with nothing on the stack it is balanced, so this is the first
stray `]`, and no code behind it is ever reached (`Config.Tracks.check_of_closing`). At a
`[` whose search fails there is no stray `]` in the rest of the code either, so what the
check finds is a `[` that is open, this one or one behind it
(`Config.Tracks.check_of_opening`).
-/

namespace Brainfuck

variable {code : Array UInt8} {c : Config}

/-! ### Where execution stands at an unmatched bracket -/

/-- A step that fails for want of a partner stands at the bracket. -/
theorem Config.unmatched_of_step {u : Unmatched} {calls : List Call} {d : Config}
    (h : c.step code = .failed (.unmatched u) calls d) :
    u.position = c.ip ∧ code[c.ip]? = some u.bracket.byte ∧
      (u.bracket = .opening → Brackets.closeOf? code c.ip = none) ∧
      (u.bracket = .closing → c.host.machine.loops.top? = none) := by
  obtain ⟨b, hget, ⟨-, he, -⟩ | ⟨-, host, hfails, -⟩⟩ := Config.step_eq_failed_iff.mp h
  · cases he
  · cases hfails with
    | opening hb _ hclose =>
      obtain rfl : b = Bracket.opening.byte := hb
      exact ⟨rfl, hget, fun _ => hclose, nofun⟩
    | closing hb htop =>
      obtain rfl : b = Bracket.closing.byte := hb
      exact ⟨rfl, hget, nofun, fun _ => htop⟩

/-- At a `]` with no loop entered, the check stops too. -/
theorem Config.Tracks.check_of_closing (hc : c.Tracks code)
    (hget : code[c.ip]? = some Bracket.closing.byte) (htop : c.host.machine.loops.top? = none) :
    Brackets.check code.toList = .error ⟨c.ip, .closing⟩ := by
  have ho := hc.opened
  rw [LoopStack.top?_eq_head?, List.head?_eq_none_iff] at htop
  rw [htop] at ho
  have hcheck := Brackets.check_stray ho.balanced_of_nil (code.toList.drop (c.ip + 1))
  rwa [← Brackets.drop_eq_cons hget, List.take_append_drop, length_take_of_le hc.ip_le] at hcheck

/-- At a `[` whose search fails, the check finds a `[` that is open, no earlier one. -/
theorem Config.Tracks.check_of_opening (hc : c.Tracks code)
    (hget : code[c.ip]? = some Bracket.opening.byte) (hclose : Brackets.closeOf? code c.ip = none) :
    ∃ q, c.ip ≤ q ∧ Brackets.check code.toList = .error ⟨q, .opening⟩ := by
  have hlen := length_take_of_le hc.ip_le
  have hfront := hc.opened.snoc_opening
  rw [hlen] at hfront
  rcases opened_or_stray (code.toList.drop (c.ip + 1)) with ⟨qs, hrest⟩ | ⟨us, vs, hu, hrest⟩
  · have hall := hfront.append hrest
    rw [List.append_assoc, List.singleton_append, ← Brackets.drop_eq_cons hget,
      List.take_append_drop] at hall
    cases qs with
    | nil => exact ⟨c.ip, le_refl _, Brackets.check_opened hall⟩
    | cons q qs =>
      refine ⟨_, ?_, Brackets.check_opened hall⟩
      rw [List.length_append, hlen]
      show c.ip ≤ c.ip + 1 + q
      omega
  · rw [Brackets.closeOf?_of_drop hu hrest] at hclose
    cases hclose

/-- At the end of the program, what is on the stack is what the check finds open. -/
theorem Config.Tracks.check_at_end (hc : c.Tracks code) (hip : c.ip = code.size) :
    (Brackets.check code.toList = .ok () ↔ c.host.machine.loops.opened = []) ∧
      ∀ q, c.host.machine.loops.top? = some q →
        Brackets.check code.toList = .error ⟨q, .opening⟩ := by
  have ho := hc.opened
  rw [hip, ← Array.length_toList, List.take_length] at ho
  constructor
  · constructor
    · intro hok
      have hb := Brackets.check_eq_ok_iff.mp hok
      cases hs : c.host.machine.loops.opened with
      | nil => rfl
      | cons q qs =>
        rw [hs] at ho
        rw [Brackets.check_opened ho] at hok
        cases hok
    · intro hs
      rw [hs] at ho
      exact ho.balanced_of_nil.check_eq_ok
  · intro q htop
    obtain ⟨qs, hqs⟩ := LoopStack.exists_opened_of_top? htop
    rw [hqs] at ho
    exact Brackets.check_opened ho

/-! ### Whole runs -/

/-- A run that ends at a bracket without a partner stands at it. -/
theorem Interpreter.exists_unmatched {p : Program} {i : Interpreter} {fuel : Nat} {r : Run}
    {u : Unmatched} (h : i.run? fuel p = some r) (he : r.outcome = .error (.unmatched u)) :
    ∃ c d calls, Reaches p.code i.start r.turns.toList c ∧
      c.step p.code = .failed (.unmatched u) calls d := by
  obtain ⟨c, last, hr, -, hh, -⟩ := run?_eq_some_iff.mp h
  rcases Halt.outcome_eq_error_iff.mp he with ⟨calls, hhalt⟩ | ⟨-, cause, -, hu⟩
  · rw [hhalt] at hh
    exact ⟨c, last, calls, hr, hh⟩
  · cases hu

/-- A run that ends at a `]` without a partner ends where the check stops. -/
theorem Interpreter.check_of_unmatched_closing {p : Program} {i : Interpreter} {fuel : Nat}
    {r : Run} {ip : Nat} (h : i.run? fuel p = some r)
    (he : r.outcome = .error (.unmatched ⟨ip, .closing⟩)) :
    Brackets.check p.code.toList = .error ⟨ip, .closing⟩ := by
  obtain ⟨c, d, calls, hr, hs⟩ := exists_unmatched h he
  obtain ⟨rfl, hget, -, htop⟩ := Config.unmatched_of_step hs
  exact hr.tracks.check_of_closing hget (htop rfl)

/-- A run that ends at a `[` without a partner ends no later than the `[` the check finds. -/
theorem Interpreter.check_of_unmatched_opening {p : Program} {i : Interpreter} {fuel : Nat}
    {r : Run} {ip : Nat} (h : i.run? fuel p = some r)
    (he : r.outcome = .error (.unmatched ⟨ip, .opening⟩)) :
    (∃ q, ip ≤ q ∧ Brackets.check p.code.toList = .error ⟨q, .opening⟩) ∧
      p.code[ip]? = some Bracket.opening.byte ∧ ∀ j, ¬ Partner p.code.toList ip j := by
  obtain ⟨c, d, calls, hr, hs⟩ := exists_unmatched h he
  obtain ⟨rfl, hget, hclose, -⟩ := Config.unmatched_of_step hs
  exact ⟨hr.tracks.check_of_opening hget (hclose rfl), hget,
    (Brackets.closeOf?_eq_none_iff hget).mp (hclose rfl)⟩

/-- A program with a run that ends at a bracket without a partner does not pass the check. -/
theorem Interpreter.check_ne_ok_of_unmatched {p : Program} {i : Interpreter} {fuel : Nat} {r : Run}
    {u : Unmatched} (h : i.run? fuel p = some r) (he : r.outcome = .error (.unmatched u)) :
    Brackets.check p.code.toList ≠ .ok () := by
  intro hok
  obtain ⟨ip, b⟩ := u
  cases b with
  | opening =>
    obtain ⟨⟨q, -, hq⟩, -⟩ := check_of_unmatched_opening h he
    simp [hok] at hq
  | closing => simp [check_of_unmatched_closing h he] at hok

/-- **The check and the run agree.** A program that passes the check never ends at a bracket
without a partner. A run that ends at a `]` without one ends at the bracket the check names.
A run that ends at a `[` without one ends at a `[` that has none, and the check names that
one or a later one. After a successful run the check has nothing to say if the stack is
empty, and else names its top. -/
theorem checkBrackets_agrees {p : Program} {i : Interpreter} {fuel : Nat} {r : Run}
    (h : i.run? fuel p = some r) :
    (p.checkBrackets = .ok () → ∀ u, r.outcome ≠ .error (.unmatched u)) ∧
      (∀ ip, r.outcome = .error (.unmatched ⟨ip, .closing⟩) →
        p.checkBrackets = .error (.unmatched ⟨ip, .closing⟩)) ∧
      (∀ ip, r.outcome = .error (.unmatched ⟨ip, .opening⟩) →
        (∃ q, ip ≤ q ∧ p.checkBrackets = .error (.unmatched ⟨q, .opening⟩)) ∧
          p.code[ip]? = some Bracket.opening.byte ∧ ∀ j, ¬ Partner p.code.toList ip j) ∧
      (r.outcome = .ok () →
        NoStray p.code.toList ∧
          (p.checkBrackets = .ok () ↔ r.after.machine.loops.entries = #[]) ∧
          ∀ q, r.after.machine.loops.top? = some q →
            p.checkBrackets = .error (.unmatched ⟨q, .opening⟩)) := by
  simp only [Program.checkBrackets_eq_ok_iff, Program.checkBrackets_eq_error_iff]
  refine ⟨?_, fun ip he => Interpreter.check_of_unmatched_closing h he,
    fun ip he => Interpreter.check_of_unmatched_opening h he, ?_⟩
  · rintro hok ⟨ip, b⟩ he
    cases b with
    | opening =>
      obtain ⟨⟨q, -, hq⟩, -⟩ := Interpreter.check_of_unmatched_opening h he
      rw [hok] at hq
      cases hq
    | closing =>
      have hq := Interpreter.check_of_unmatched_closing h he
      rw [hok] at hq
      cases hq
  · intro hok
    obtain ⟨c, hr, hmachine, hip⟩ := Interpreter.exists_completed h hok
    obtain ⟨hempty, htop⟩ := hr.tracks.check_at_end hip
    have hstray := hr.tracks.opened.noStray
    rw [hip, ← Array.length_toList, List.take_length] at hstray
    rw [hmachine]
    refine ⟨hstray, ?_, htop⟩
    rw [hempty, LoopStack.opened, List.reverse_eq_nil_iff, Array.toList_eq_nil_iff]

/-- The program `[[` on a fresh tape ends at the first `[`, and the check names the second. -/
theorem checkBrackets_agrees_two_openings :
    ∃ p r, (Interpreter.ofMachine ⟨.ofLength 1, .ofCapacity 1⟩ [] .reliable).run? 1 p = some r ∧
      r.outcome = .error (.unmatched ⟨0, .opening⟩) ∧
      (∃ q, 0 ≤ q ∧ p.checkBrackets = .error (.unmatched ⟨q, .opening⟩)) ∧
      p.checkBrackets = .error (.unmatched ⟨1, .opening⟩) := by
  let p : Program := ⟨#[91, 91], by decide⟩
  have hrun : ((Interpreter.ofMachine ⟨.ofLength 1, .ofCapacity 1⟩ [] .reliable).run? 1 p).map
      Run.outcome = some (.error (.unmatched ⟨0, .opening⟩)) := by decide +kernel
  obtain ⟨r, hr, he⟩ := Option.map_eq_some_iff.mp hrun
  exact ⟨p, r, hr, he, ((checkBrackets_agrees hr).2.2.1 0 he).1, by decide +kernel⟩

end Brainfuck
