import Brainfuck.Proofs.Interpreter.Renaming
import Brainfuck.Proofs.Interpreter.StaticLoops
import Brainfuck.Proofs.Program.Stripping

/-!
# Comments have no effect

A program does what it does without its comments, at the ranks of the positions. A step over a
comment moves the instruction pointer and nothing else, and the rank of where it stands does not
change (`Config.Renamed.over_comment`). Every other step is one of the program without comments
(`Config.Renamed.at_instruction`), as the ranks respect the next position, the partners of brackets
and the loops that are entered (`Config.Tracks.renames`).

So a path gives one without comments, with the steps over comments left out
(`Config.Renamed.reaches_stripped`). The converse holds too: where the program without comments
makes a step, there are only finitely many comments to pass before the program makes it
(`Config.Renamed.exists_past_comments`). Hence neither ends if the other does not.
-/

namespace Brainfuck

/-- The steps that pass over no comment, at the ranks of their positions and numbered from `k`
on. -/
def Turn.stripped (p : Program) (k : Nat) (ts : List Turn) : List Turn :=
  (ts.filter fun t => t.step.action ≠ .nothing).mapIdx fun n t => t.rename p.rank (k + n)

/-- The steps `us` are what the steps `ts` of `p` are without comments, numbered from `k` on. -/
structure Turn.Strips (p : Program) (k : Nat) (ts us : List Turn) : Prop where
  /-- The steps are the same, but for those over comments. -/
  turns : us = Turn.stripped p k ts
  /-- The stream calls are the same. -/
  calls : us.flatMap (·.calls) = ts.flatMap (·.calls)

/-- `s` is what the run `r` of `p` is without comments. -/
structure Run.Strips (p : Program) (r s : Run) : Prop where
  /-- The outcome is the same, at the rank of its position. -/
  outcome : s.outcome = r.outcome.mapError (.rename p.rank)
  /-- The steps are the same, but for those over comments. -/
  turns : s.turns.toList = Turn.stripped p 0 r.turns.toList
  /-- The stream calls are the same. -/
  calls : s.calls = r.calls
  /-- The interpreter left is the same, with its loops at the ranks of their positions. -/
  after : r.after.Renamed p.rank s.after

namespace Turn.Strips

variable {p : Program} {k : Nat} {t : Turn} {ts us : List Turn}

theorem nil (p : Program) (k : Nat) : Strips p k [] [] := ⟨rfl, rfl⟩

/-- A step over a comment is left out. -/
theorem cons_nothing (h : Strips p k ts us) (ht : t.step.action = .nothing)
    (hcalls : t.calls = []) : Strips p k (t :: ts) us := by
  constructor
  · rw [h.turns]
    simp [stripped, ht]
  · simp [h.calls, hcalls]

/-- Any other step is kept. -/
theorem cons (h : Strips p (k + 1) ts us) (ht : t.step.action ≠ .nothing) :
    Strips p k (t :: ts) (t.rename p.rank k :: us) := by
  constructor
  · rw [h.turns, stripped, stripped, List.filter_cons_of_pos (by simpa using ht), List.mapIdx_cons]
    simp only [Nat.add_zero, Nat.add_assoc, Nat.add_comm 1]
  · rw [List.flatMap_cons, List.flatMap_cons, h.calls]
    rfl

end Turn.Strips

/-! ### One step -/

section

variable {p : Program} {c d c' : Config} {t : Turn} {b : UInt8}

/-- Only a comment does nothing. -/
theorem Interpreter.Does.not_isCode {code : Array UInt8} {found : Fetch} {host host' : Interpreter}
    {next : Nat} {calls : List Call} {event? : Option LoopEvent}
    (h : Does code found host .nothing next calls event? host') :
    Instruction.isCode found.byte = false := by
  cases h with
  | nothing hb => simp [Instruction.isCode, hb]

/-- Where an instruction stands, the ranks respect where it may lead. -/
theorem Config.Tracks.renames (hc : c.Tracks p.code) (hget : p.code[c.ip]? = some b)
    (hb : Instruction.isCode b = true) :
    Renames p.rank p.code p.stripped.code c.ip c.host.machine.loops := by
  have hnext : ∀ {n : Nat} {b : UInt8}, p.code[n]? = some b → Instruction.isCode b = true →
      p.rank (n + 1) = p.rank n + 1 := by
    intro n b hget hb
    rw [← Array.getElem?_toList] at hget
    exact rank_succ_of_isCode hget hb
  refine ⟨?_, hnext hget hb, fun hopening => ?_, fun close hclose => ?_, fun start htop => ?_⟩
  · rw [hget, ← Array.getElem?_toList, p.toList_code_stripped]
    rw [← Array.getElem?_toList] at hget
    exact getElem?_strip_rank hget hb
  · exact Brackets.closeOf?_strip hopening p.toList_code_stripped
  · exact hnext (Brackets.closing_of_closeOf? hclose) (Instruction.isCode_bracket _)
  · -- the loop that is repeated was opened by a `[` that stands before
    obtain ⟨ps, hps⟩ := LoopStack.exists_opened_of_top? htop
    have hopen := hc.opened.getElem?_of_mem start (by simp [hps])
    have hlt := hc.opened.lt_length start (by simp [hps])
    rw [length_take_of_le hc.ip_le] at hlt
    rw [List.getElem?_take_of_lt hlt, Array.getElem?_toList] at hopen
    exact hnext hopen (Instruction.isCode_bracket _)

namespace Config.Renamed

/-- A run starts as it does without comments. -/
theorem start_stripped (p : Program) {i : Interpreter} (hidle : i.interrupt.connected = false) :
    i.start.Renamed p.rank i.start :=
  ⟨rfl, ⟨rfl, (LoopStack.rename_of_opened_nil _ rfl).symm, rfl, rfl, rfl⟩, hidle, hidle⟩

/-- **A comment is passed over, and nothing else happens.** -/
theorem over_comment (hm : c.Renamed p.rank d) (hget : p.code[c.ip]? = some b)
    (hb : Instruction.isCode b = false) :
    ∃ t c', c.step p.code = .advanced t c' ∧ t.step.action = .nothing ∧ t.calls = [] ∧
      c'.ip = c.ip + 1 ∧ c'.Renamed p.rank d := by
  have hnone : Instruction.ofByte? b = none := by simpa [Instruction.isCode] using hb
  have hstep : c.step p.code =
      .advanced ⟨⟨c.fetch b, .nothing⟩, [], none⟩ ⟨c.ip + 1, c.count + 1, _⟩ :=
    step_eq_advanced_iff.mpr
      ⟨b, _, hget, Interrupt.not_stops hm.idle, rfl, .nothing hnone, rfl, rfl⟩
  rw [← Array.getElem?_toList] at hget
  have hrank : p.rank (c.ip + 1) = p.rank c.ip := rank_succ_of_not_isCode hget hb
  exact ⟨_, _, hstep, rfl, rfl, rfl, hm.ip.trans hrank.symm,
    ⟨hm.host.tape, hm.host.loops, hm.host.input, hm.host.output, hm.host.eof⟩,
    (connected_of_step_advanced hstep).trans hm.idle, hm.idle'⟩

/-- **An instruction is carried out without comments too.** -/
theorem at_instruction (hm : c.Renamed p.rank d) (hc : c.Tracks p.code)
    (h : c.step p.code = .advanced t c') (hget : p.code[c.ip]? = some b)
    (hb : Instruction.isCode b = true) :
    t.step.action ≠ .nothing ∧
      ∃ d', d.step p.stripped.code = .advanced (t.rename p.rank d.count) d' ∧
        c'.Renamed p.rank d' := by
  refine ⟨fun ht => ?_, hm.advanced h (hc.renames hget hb)⟩
  obtain ⟨b', host, hget', -, -, hdoes, -⟩ := step_eq_advanced_iff.mp h
  obtain rfl : b' = b := Option.some.inj (hget'.symm.trans hget)
  rw [ht] at hdoes
  have hno : Instruction.isCode b' = false := hdoes.not_isCode
  simp [hno] at hb

/-- Where execution ends, it ends without comments too. -/
theorem halts_stripped {halt : Halt} {last : Config} (hm : c.Renamed p.rank d)
    (hc : c.Tracks p.code) (h : c.Halts p.code halt last) :
    ∃ last', d.Halts p.stripped.code (halt.rename p.rank) last' ∧
      last.host.Renamed p.rank last'.host := by
  cases halt with
  | completed =>
    have hend : c.ip = p.code.size := h.ip_eq_size hc.ip_le
    refine ⟨d, hm.finished h ?_⟩
    rw [hend, p.rank_size]
    simp
  | failed e calls =>
    obtain ⟨b, hget, ⟨hs, -⟩ | ⟨-, host, hfails, -⟩⟩ := step_eq_failed_iff.mp h
    · exact absurd hs (Interrupt.not_stops hm.idle)
    · -- a comment does not fail
      have hb : Instruction.isCode b = true := by
        by_contra hno
        obtain ⟨t, c', hs, -⟩ := hm.over_comment hget (by simpa using hno)
        exact h.not_advanced t hs
      exact hm.failed h (hc.renames hget hb)

/-! ### Paths -/

variable {ts us : List Turn} {d' : Config}

/-- **A path is one without comments.** -/
theorem reaches_stripped (hm : c.Renamed p.rank d) (hc : c.Tracks p.code)
    (h : Reaches p.code c ts c') :
    ∃ us d', Reaches p.stripped.code d us d' ∧ Turn.Strips p d.count ts us ∧
      c'.Renamed p.rank d' := by
  induction h generalizing d with
  | refl => exact ⟨[], d, .refl d, .nil p d.count, hm⟩
  | @step c _ _ t _ hs _ ih =>
    have hc' := hc.step hs
    obtain ⟨b, -, hget, -⟩ := step_eq_advanced_iff.mp hs
    by_cases hb : Instruction.isCode b = true
    · obtain ⟨ht, d₁, hd₁, hm₁⟩ := hm.at_instruction hc hs hget hb
      obtain ⟨us, d', hd', hstrips, hm'⟩ := ih hm₁ hc'
      obtain ⟨-, -, -, -, hcount⟩ := frame_of_step_advanced hd₁
      rw [hcount] at hstrips
      exact ⟨_, d', .step hd₁ hd', hstrips.cons ht, hm'⟩
    · obtain ⟨t', c₁, hs', ht, hcalls, -, hm₁⟩ := hm.over_comment hget (by simpa using hb)
      rw [hs] at hs'
      cases hs'
      obtain ⟨us, d', hd', hstrips, hm'⟩ := ih hm₁ hc'
      exact ⟨us, d', hd', hstrips.cons_nothing ht hcalls, hm'⟩

/-- Execution gets past the comments that stand where it stands. -/
theorem exists_past_comments (hm : c.Renamed p.rank d) :
    ∃ ts e, Reaches p.code c ts e ∧ (∀ {k ts' us}, Turn.Strips p k ts' us →
        Turn.Strips p k (ts ++ ts') us) ∧ e.Renamed p.rank d ∧
      ∀ b, p.code[e.ip]? = some b → Instruction.isCode b = true := by
  induction hn : p.code.size - c.ip generalizing c with
  | zero =>
    refine ⟨[], c, .refl c, id, hm, fun b hget => ?_⟩
    have := lt_size_of_getElem? hget
    omega
  | succ n ih =>
    have hget : p.code[c.ip]? = some p.code[c.ip] := Array.getElem?_eq_getElem (by omega)
    by_cases hb : Instruction.isCode p.code[c.ip] = true
    · refine ⟨[], c, .refl c, id, hm, fun b hget' => ?_⟩
      rw [hget] at hget'
      cases hget'
      exact hb
    · obtain ⟨t, c₁, hs, ht, hcalls, hip, hm₁⟩ := hm.over_comment hget (by simpa using hb)
      obtain ⟨ts, e, he, hstrips, hme, hcode⟩ := ih hm₁ (by omega)
      exact ⟨t :: ts, e, .step hs he, fun h => (hstrips h).cons_nothing ht hcalls, hme, hcode⟩

/-- **A path without comments is one of the program.** -/
theorem exists_unstripped (hm : c.Renamed p.rank d) (hc : c.Tracks p.code)
    (h : Reaches p.stripped.code d us d') :
    ∃ ts c', Reaches p.code c ts c' ∧ Turn.Strips p d.count ts us ∧ c'.Renamed p.rank d' := by
  induction h generalizing c with
  | refl d => exact ⟨[], c, .refl c, .nil p d.count, hm⟩
  | @step d d₁ d' u us hs _ ih =>
    obtain ⟨ts, e, he, hstrips, hme, hcode⟩ := hm.exists_past_comments
    have hce := he.invariant Tracks.step hc
    rcases advanced_or_halts p.code e with ⟨t, e₁, hse⟩ | ⟨halt, last, hh⟩
    · obtain ⟨b, -, hget, -⟩ := step_eq_advanced_iff.mp hse
      obtain ⟨ht, d₂, hs', hm₁⟩ := hme.at_instruction hce hse hget (hcode b hget)
      rw [hs] at hs'
      cases hs'
      obtain ⟨ts', c', hc', hstrips', hm'⟩ := ih hm₁ (hce.step hse)
      obtain ⟨-, -, -, -, hcount⟩ := frame_of_step_advanced hs
      rw [hcount] at hstrips'
      exact ⟨_, c', he.trans (.step hse hc'), hstrips (hstrips'.cons ht), hm'⟩
    · obtain ⟨last', hh', -⟩ := hme.halts_stripped hce hh
      exact absurd hs (hh'.not_advanced _)

end Config.Renamed

end

/-! ### Runs -/

namespace Interpreter

variable {p : Program} {i : Interpreter} {fuel : Nat}

/-- A run is one without comments. -/
theorem exists_strips (hidle : i.interrupt.connected = false) {r : Run}
    (h : i.run? fuel p = some r) :
    ∃ fuel' s, i.run? fuel' p.stripped = some s ∧ r.Strips p s := by
  obtain ⟨c, last, hr, -, hh, heq⟩ := run?_eq_some_iff.mp h
  obtain ⟨us, d, hd, hstrips, hm⟩ :=
    (Config.Renamed.start_stripped p hidle).reaches_stripped i.start_tracks hr
  obtain ⟨last', hh', hlast⟩ := hm.halts_stripped hr.tracks hh
  have hclosing : Sink.flush last'.host.output.flushes = r.closing := by rw [heq, hlast.output]
  have hcalls : (r.halt.rename p.rank).calls = r.halt.calls := by cases r.halt <;> rfl
  refine ⟨_, _, run?_of_halts hd hh', ⟨?_, hstrips.turns, ?_, ?_⟩⟩
  · have hlength : r.length = p.code.size := by rw [heq]
    rw [Run.outcome, Run.outcome, hclosing, hlength, ← p.rank_size]
    exact Halt.outcome_rename ..
  · rw [Run.calls, Run.calls, hclosing, hcalls, hstrips.calls]
  · rw [heq]
    exact hlast.afterFlush

/-- If a run ends without comments, it ends with them. -/
theorem exists_of_stripped (hidle : i.interrupt.connected = false) {s : Run}
    (h : i.run? fuel p.stripped = some s) : ∃ fuel' r, i.run? fuel' p = some r := by
  obtain ⟨d, last, hd, -, hh, -⟩ := run?_eq_some_iff.mp h
  obtain ⟨ts, c, hc, -, hm⟩ :=
    (Config.Renamed.start_stripped p hidle).exists_unstripped i.start_tracks hd
  obtain ⟨ts', e, he, -, hme, hcode⟩ := hm.exists_past_comments
  have hpath := hc.trans he
  rcases Config.advanced_or_halts p.code e with ⟨t, e₁, hse⟩ | ⟨halt, last', hh'⟩
  · obtain ⟨b, -, hget, -⟩ := Config.step_eq_advanced_iff.mp hse
    obtain ⟨-, d', hs', -⟩ := hme.at_instruction hpath.tracks hse hget (hcode b hget)
    exact absurd hs' (hh.not_advanced _)
  · exact exists_run?_iff.mpr ⟨_, e, halt, last', hpath, hh'⟩

end Interpreter

/-- The check of a program does not look at its comments. -/
theorem Program.checkBrackets_stripped (p : Program) :
    p.stripped.checkBrackets = p.checkBrackets.mapError (.rename p.rank) := by
  rw [checkBrackets, checkBrackets, p.toList_code_stripped, Brackets.check_strip]
  cases Brackets.check p.code.toList <;> rfl

/-- **Comments have no effect.** For every program and every interpreter that looks at no switch,
compare the program with what is left of it without its comments. A position corresponds to the
number of instructions before it, and the length of the program to the length of what is left.

* Either both run to an end or none does. The runs make the same stream calls and leave the same
  tape, their outcomes and the loops entered are at corresponding positions, and the steps of the
  second are those of the first but for the comments, with new numbers.
* That is so all along the way, whether the runs end or not.
* The checks of the brackets agree at corresponding positions. -/
theorem comments_have_no_effect {i : Interpreter} (hidle : i.interrupt.connected = false)
    (p : Program) :
    (∀ fuel r, i.run? fuel p = some r →
        ∃ fuel' s, i.run? fuel' p.stripped = some s ∧ r.Strips p s) ∧
      (∀ fuel s, i.run? fuel p.stripped = some s →
        ∃ fuel' r, i.run? fuel' p = some r ∧ r.Strips p s) ∧
      (∀ ts c, Reaches p.code i.start ts c → ∃ us d, Reaches p.stripped.code i.start us d ∧
        Turn.Strips p 0 ts us ∧ c.Renamed p.rank d) ∧
      (∀ us d, Reaches p.stripped.code i.start us d → ∃ ts c, Reaches p.code i.start ts c ∧
        Turn.Strips p 0 ts us ∧ c.Renamed p.rank d) ∧
      p.stripped.checkBrackets = p.checkBrackets.mapError (.rename p.rank) ∧
      p.rank p.code.size = p.stripped.code.size := by
  have hstart := Config.Renamed.start_stripped p hidle
  refine ⟨fun _ _ h => Interpreter.exists_strips hidle h, fun fuel s h => ?_,
    fun _ _ h => hstart.reaches_stripped i.start_tracks h,
    fun _ _ h => hstart.exists_unstripped i.start_tracks h, p.checkBrackets_stripped, p.rank_size⟩
  obtain ⟨fuel', r, hr⟩ := Interpreter.exists_of_stripped hidle h
  obtain ⟨fuel'', s', hs', hstrips⟩ := Interpreter.exists_strips hidle hr
  obtain rfl := Interpreter.run?_unique h hs'
  exact ⟨fuel', r, hr, hstrips⟩

/-- The program `a+[ -]b]` on a fresh tape: the stray `]` at 7 is the stray `]` of `+[-]]` at 4. -/
theorem comments_have_no_effect_stray_closing :
    ∃ (p : Program) (i : Interpreter) (r s : Run) (fuel : Nat), i.run? 8 p = some r ∧
      r.outcome = .error (.unmatched ⟨7, .closing⟩) ∧ i.run? fuel p.stripped = some s ∧
      r.Strips p s ∧ s.outcome = .error (.unmatched ⟨4, .closing⟩) := by
  let p : Program := ⟨#[97, 43, 91, 32, 45, 93, 98, 93], by decide⟩
  let i : Interpreter := .ofMachine ⟨.ofLength 1, .ofCapacity 1⟩ [] .reliable
  have hrun : (i.run? 8 p).map Run.outcome = some (.error (.unmatched ⟨7, .closing⟩)) := by
    decide +kernel
  obtain ⟨r, hr, he⟩ := Option.map_eq_some_iff.mp hrun
  obtain ⟨fuel, s, hs, hstrips⟩ := (comments_have_no_effect (i := i) rfl p).1 8 r hr
  have hrank : p.rank 7 = 4 := by decide +kernel
  refine ⟨p, i, r, s, fuel, hr, he, hs, hstrips, ?_⟩
  rw [hstrips.outcome, he, ← hrank]
  rfl

end Brainfuck
