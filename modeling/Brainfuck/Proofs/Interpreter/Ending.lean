import Brainfuck.Interpreter.Reach
import Brainfuck.Proofs.Interpreter.Frame
import Mathlib.Data.List.Basic

/-!
# Where a run ends

A run that ends is a path of completed steps from the start to a configuration from
which no step completes, and one flush behind it (`Interpreter.run?_eq_some_iff`). As
execution is deterministic, of two paths from one configuration the shorter is the
beginning of the longer (`Reaches.isPrefix`), and none is longer than one that ends
(`Reaches.length_le_of_halts`). A run that does not end is one with paths of any length
(`Interpreter.forall_run?_eq_none_iff`).

`Reaches.invariant` is the induction over a path, made once: what holds at the start
and is kept by every completed step holds wherever execution gets.
-/

namespace Brainfuck

namespace Reaches

variable {code : Array UInt8} {c d e : Config} {ts us : List Turn}

/-- What every completed step keeps holds wherever execution gets. -/
theorem invariant {I : Config → Prop}
    (hstep : ∀ {c t d}, c.step code = .advanced t d → I c → I d) (h : Reaches code c ts d)
    (hc : I c) : I d := by
  induction h with
  | refl => exact hc
  | step hs _ ih => exact ih (hstep hs hc)

/-- The steps made are counted. -/
theorem count_eq (h : Reaches code c ts d) : d.count = c.count + ts.length := by
  induction h with
  | refl => rfl
  | step hs _ ih =>
    obtain ⟨-, -, -, -, hcount⟩ := Config.frame_of_step_advanced hs
    rw [ih, hcount, List.length_cons]
    omega

/-- From the start of a run, they are all counted. -/
theorem count_eq_length {i : Interpreter} (h : Reaches code i.start ts d) :
    d.count = ts.length := by
  rw [h.count_eq]
  exact Nat.zero_add _

/-- A run does not change the policy for the end of the input. -/
theorem eof_eq (h : Reaches code c ts d) : d.host.eof = c.host.eof :=
  h.invariant (I := fun d => d.host.eof = c.host.eof)
    (fun hs hd => (Config.frame_of_step_advanced hs).2.2.1.trans hd) rfl

/-- A run does not change the length of the tape. -/
theorem length_eq (h : Reaches code c ts d) :
    d.host.machine.tape.length = c.host.machine.tape.length :=
  h.invariant (I := fun d => d.host.machine.tape.length = c.host.machine.tape.length)
    (fun hs hd => (Config.frame_of_step_advanced hs).1.trans hd) rfl

/-- A run does not change the capacity of the stack. -/
theorem capacity_eq (h : Reaches code c ts d) :
    d.host.machine.loops.capacity = c.host.machine.loops.capacity :=
  h.invariant (I := fun d => d.host.machine.loops.capacity = c.host.machine.loops.capacity)
    (fun hs hd => (Config.frame_of_step_advanced hs).2.1.trans hd) rfl

/-- A run does not connect the switch. -/
theorem connected_eq (h : Reaches code c ts d) :
    d.host.interrupt.connected = c.host.interrupt.connected :=
  h.invariant (I := fun d => d.host.interrupt.connected = c.host.interrupt.connected)
    (fun hs hd => (Config.connected_of_step_advanced hs).trans hd) rfl

/-- The parts of a path. -/
theorem exists_of_append (h : Reaches code c (ts ++ us) e) :
    ∃ d, Reaches code c ts d ∧ Reaches code d us e := by
  induction ts generalizing c with
  | nil => exact ⟨c, .refl c, h⟩
  | cons t ts ih =>
    cases h with
    | step hs hr =>
      obtain ⟨d, hd, he⟩ := ih hr
      exact ⟨d, .step hs hd, he⟩

/-- Where the step number `n` of a path was made. -/
theorem exists_step (h : Reaches code c ts e) {n : Nat} (hn : n < ts.length) :
    ∃ us d t d', Reaches code c us d ∧ us.length = n ∧ d.step code = .advanced t d' := by
  rw [← List.take_append_drop n ts, List.drop_eq_getElem_cons hn] at h
  obtain ⟨d, hd, hrest⟩ := h.exists_of_append
  cases hrest with
  | step hs _ =>
    refine ⟨_, d, _, _, hd, ?_, hs⟩
    simp
    omega

/-- The shorter of two paths is the beginning of the longer. -/
theorem isPrefix (h : Reaches code c ts d) (h' : Reaches code c us e)
    (hl : ts.length ≤ us.length) : ts <+: us := by
  have hsplit := List.take_append_drop ts.length us
  rw [← hsplit] at h'
  obtain ⟨d', hd', -⟩ := h'.exists_of_append
  have hlen : ts.length = (us.take ts.length).length := by
    rw [List.length_take, Nat.min_eq_left hl]
  obtain ⟨heq, -⟩ := h.eq_of_length_eq hd' hlen
  rw [heq]
  exact List.take_prefix ..

end Reaches

namespace Config

variable {code : Array UInt8} {c d last : Config} {halt : Halt}

/-- A step completes, or execution ends. -/
theorem advanced_or_halts (code : Array UInt8) (c : Config) :
    (∃ t d, c.step code = .advanced t d) ∨ ∃ halt last, c.Halts code halt last := by
  cases hs : c.step code with
  | finished last => exact .inr ⟨.completed, last, hs⟩
  | failed e calls last => exact .inr ⟨.failed e calls, last, hs⟩
  | advanced t d => exact .inl ⟨t, d, rfl⟩

/-- No step completes where execution ends. -/
theorem Halts.not_advanced (h : c.Halts code halt last) (t : Turn) :
    c.step code ≠ .advanced t d := by
  intro hs
  cases halt with
  | completed =>
    rw [(h : c.step code = _)] at hs
    cases hs
  | failed e calls =>
    rw [(h : c.step code = _)] at hs
    cases hs

/-- An execution that ends with no failure ends behind the last instruction. -/
theorem Halts.ip_eq_size (h : c.Halts code .completed last) (hip : c.ip ≤ code.size) :
    c.ip = code.size := by
  have hnone : code[c.ip]? = none := (step_eq_finished_iff.mp h).1
  exact Nat.le_antisymm hip (Array.getElem?_eq_none_iff.mp hnone)

/-- The end of an execution leaves the machine alone and stands where it stood. -/
theorem Halts.machine_eq (h : c.Halts code halt last) :
    last.host.machine = c.host.machine ∧ last.ip = c.ip := by
  cases halt with
  | completed =>
    obtain ⟨-, rfl⟩ := step_eq_finished_iff.mp h
    exact ⟨rfl, rfl⟩
  | failed e calls =>
    obtain ⟨hm, hip, -⟩ := machine_of_step_failed h
    exact ⟨hm, hip⟩

/-- The end of an execution is no step. -/
theorem Halts.count_eq (h : c.Halts code halt last) : last.count = c.count := by
  cases halt with
  | completed =>
    obtain ⟨-, rfl⟩ := step_eq_finished_iff.mp h
    rfl
  | failed e calls => exact (machine_of_step_failed h).2.2

end Config

/-! ### Outcomes -/

theorem Halt.outcome_eq_ok_iff {halt : Halt} {length : Nat} {failure? : Option IoError} :
    halt.outcome length failure? = .ok () ↔ halt = .completed ∧ failure? = none := by
  cases halt with
  | failed e calls => simp [Halt.outcome]
  | completed => cases failure? <;> simp [Halt.outcome]

/-- A run fails because a step failed, or because the flush at the end did. -/
theorem Halt.outcome_eq_error_iff {halt : Halt} {length : Nat} {failure? : Option IoError}
    {e : RunError} :
    halt.outcome length failure? = .error e ↔
      (∃ calls, halt = .failed e calls) ∨
        (halt = .completed ∧ ∃ cause, failure? = some cause ∧ e = .stream length cause) := by
  cases halt with
  | failed e' calls => simp [Halt.outcome]
  | completed => cases failure? <;> simp [Halt.outcome, eq_comm]

/-- No path is longer than one at whose end execution ends. -/
theorem Reaches.length_le_of_halts {code : Array UInt8} {c d e last : Config} {ts us : List Turn}
    {halt : Halt} (h : Reaches code c ts d) (h' : Reaches code c us e)
    (he : e.Halts code halt last) : ts.length ≤ us.length := by
  by_contra hle
  have hlt : us.length < ts.length := Nat.lt_of_not_le hle
  obtain ⟨rest, rfl⟩ := h'.isPrefix h (Nat.le_of_lt hlt)
  obtain ⟨e', hr, hr'⟩ := h.exists_of_append
  obtain ⟨-, rfl⟩ := hr.eq_of_length_eq h' rfl
  cases hr' with
  | refl => simp at hlt
  | step hs _ => exact he.not_advanced _ hs

namespace Interpreter

variable {p : Program} {i : Interpreter} {fuel : Nat}

/-- **A run that ends is a path to where execution ends, and one flush.** -/
theorem run?_eq_some_iff {r : Run} :
    i.run? fuel p = some r ↔
      ∃ c last, Reaches p.code i.start r.turns.toList c ∧ r.turns.size < fuel ∧
        c.Halts p.code r.halt last ∧
        r = ⟨p.code.size, i.eof, r.turns, r.halt, Sink.flush last.host.output.flushes,
          last.host.afterFlush⟩ := by
  constructor
  · intro h
    unfold run? at h
    cases hx : i.start.execute? p.code fuel #[] with
    | none => simp [hx] at h
    | some x =>
      obtain ⟨turns, halt, ip, count, host⟩ := x
      obtain ⟨c, hr, hl, hh⟩ := Config.execute?_eq_some_iff.mp hx
      simp only [hx, Option.some.injEq] at h
      subst h
      exact ⟨c, _, hr, hl, hh, rfl⟩
  · rintro ⟨c, last, hr, hl, hh, heq⟩
    have hx : i.start.execute? p.code fuel #[] = some ⟨r.turns, r.halt, last⟩ :=
      Config.execute?_eq_some_iff.mpr ⟨c, hr, hl, hh⟩
    unfold run?
    rw [heq]
    simp only [hx]
    rfl

/-- Where a run ends, with the machine that it leaves. -/
theorem exists_halts {r : Run} (h : i.run? fuel p = some r) :
    ∃ c last, Reaches p.code i.start r.turns.toList c ∧ c.Halts p.code r.halt last ∧
      r.after.machine = c.host.machine ∧ r.length = p.code.size := by
  obtain ⟨c, last, hr, -, hh, heq⟩ := run?_eq_some_iff.mp h
  refine ⟨c, last, hr, hh, ?_, ?_⟩
  · rw [heq]
    exact hh.machine_eq.1
  · rw [heq]

/-- A path to where execution ends is a run. -/
theorem run?_of_halts {ts : List Turn} {c last : Config} {halt : Halt}
    (hr : Reaches p.code i.start ts c) (hh : c.Halts p.code halt last) :
    i.run? (ts.length + 1) p = some ⟨p.code.size, i.eof, ts.toArray, halt,
      Sink.flush last.host.output.flushes, last.host.afterFlush⟩ := by
  refine run?_eq_some_iff.mpr ⟨c, last, hr, ?_, hh, rfl⟩
  show ts.toArray.size < ts.length + 1
  rw [List.size_toArray]
  exact Nat.lt_succ_self _

/-- More steps allowed do not change a run. -/
theorem run?_mono {fuel' : Nat} {r : Run} (hf : fuel ≤ fuel') (h : i.run? fuel p = some r) :
    i.run? fuel' p = some r := by
  obtain ⟨c, last, hr, hlt, hh, heq⟩ := run?_eq_some_iff.mp h
  exact run?_eq_some_iff.mpr ⟨c, last, hr, Nat.lt_of_lt_of_le hlt hf, hh, heq⟩

/-- A run ends in one way only, however many steps it may take. -/
theorem run?_unique {fuel' : Nat} {r r' : Run} (h : i.run? fuel p = some r)
    (h' : i.run? fuel' p = some r') : r = r' := by
  have hmax := run?_mono (Nat.le_max_left fuel fuel') h
  have hmax' := run?_mono (Nat.le_max_right fuel fuel') h'
  exact Option.some.inj (hmax.symm.trans hmax')

/-- What is reached on the way of a run is reached by its first steps. -/
theorem isPrefix_of_run? {ts : List Turn} {c : Config} {r : Run} (hr : Reaches p.code i.start ts c)
    (h : i.run? fuel p = some r) : ts <+: r.turns.toList := by
  obtain ⟨d, last, hd, -, hh, -⟩ := run?_eq_some_iff.mp h
  exact hr.isPrefix hd (hr.length_le_of_halts hd hh)

/-- A run ends if and only if execution gets to where no step completes. -/
theorem exists_run?_iff :
    (∃ fuel r, i.run? fuel p = some r) ↔
      ∃ ts c halt last, Reaches p.code i.start ts c ∧ c.Halts p.code halt last := by
  constructor
  · rintro ⟨fuel, r, h⟩
    obtain ⟨c, last, hr, -, hh, -⟩ := run?_eq_some_iff.mp h
    exact ⟨_, c, _, last, hr, hh⟩
  · rintro ⟨ts, c, halt, last, hr, hh⟩
    exact ⟨_, _, run?_of_halts hr hh⟩

/-- A run takes more steps than it may if and only if there is a path of that length. -/
theorem run?_eq_none_iff :
    i.run? fuel p = none ↔ ∃ ts c, Reaches p.code i.start ts c ∧ ts.length = fuel := by
  constructor
  · intro h
    -- as long as execution does not end, a path can be made longer by a step
    suffices ∀ n, n ≤ fuel → ∃ ts c, Reaches p.code i.start ts c ∧ ts.length = n from
      this fuel (Nat.le_refl fuel)
    intro n hn
    induction n with
    | zero => exact ⟨[], _, .refl _, rfl⟩
    | succ n ih =>
      obtain ⟨ts, c, hr, rfl⟩ := ih (by omega)
      rcases Config.advanced_or_halts p.code c with ⟨t, d, hs⟩ | ⟨halt, last, hh⟩
      · exact ⟨ts ++ [t], d, hr.snoc hs, by simp⟩
      · have hrun := run?_mono hn (run?_of_halts hr hh)
        rw [h] at hrun
        cases hrun
  · rintro ⟨ts, c, hr, rfl⟩
    cases hrun : i.run? ts.length p with
    | none => rfl
    | some r =>
      obtain ⟨d, last, hd, hlt, hh, -⟩ := run?_eq_some_iff.mp hrun
      have hle := hr.length_le_of_halts hd hh
      simp at hle
      omega

/-- A run does not end if and only if there are paths of any length. -/
theorem forall_run?_eq_none_iff :
    (∀ fuel, i.run? fuel p = none) ↔
      ∀ n, ∃ ts c, Reaches p.code i.start ts c ∧ n ≤ ts.length := by
  simp only [run?_eq_none_iff]
  constructor
  · intro h n
    obtain ⟨ts, c, hr, hl⟩ := h n
    exact ⟨ts, c, hr, Nat.le_of_eq hl.symm⟩
  · intro h n
    obtain ⟨ts, c, hr, hl⟩ := h n
    rw [← List.take_append_drop n ts] at hr
    obtain ⟨d, hd, -⟩ := hr.exists_of_append
    exact ⟨_, d, hd, by simp [hl]⟩

end Interpreter

end Brainfuck
