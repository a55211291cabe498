import Brainfuck.Proofs.Interpreter.StaticLoops
import Brainfuck.Proofs.Interpreter.Undisturbed

/-!
# Runs that fail

A run fails because an instruction does, because the switch stopped it, or because the flush
behind the last instruction fails. Some of these failures come when the instruction has
already called a stream. What is proved about all of them:

* The machine is left as it was after the last completed step, so the failing instruction did
  nothing to the tape or the loop stack.
* The steps made are the first steps of the run on the same data in which no stream fails and
  no switch is looked at. Such a run mirrors the failing one step by step, up to the failure:
  it has the same machine, and the same answers to come (`Config.Mirrors`).
* The error names the position of the failing instruction, and that instruction is one that
  can fail so (`RunError.Located`).
-/

namespace Brainfuck

/-- What stands at the position that the error of a run of `code` names. -/
def RunError.Located (code : Array UInt8) (r : Run) : RunError → Prop
  | .stackOverflow ip _ => ip < code.size ∧ code[ip]? = some Bracket.opening.byte
  | .unmatched u => u.position < code.size ∧ code[u.position]? = some u.bracket.byte
  | .stream ip cause =>
    (ip < code.size ∧ ∃ k : Instruction, (k = .output ∨ k = .input) ∧ code[ip]? = some k.byte) ∨
      (ip = code.size ∧ r.halt = .completed ∧ r.closing.failure? = some cause)
  | .interrupted ip => ip < code.size

/-- The same interpreter, with streams on which nothing fails and with no switch to look at. -/
def Interpreter.reliable (i : Interpreter) : Interpreter :=
  { i with input := i.input.withoutFailures, output := .reliable, interrupt := .off }

/-! ### The run without failures -/

/-- `d` stands where `c` stands, with the same machine and the same answers to come, and is not
disturbed. -/
structure Config.Mirrors (c d : Config) : Prop where
  /-- The same instruction is next. -/
  ip : d.ip = c.ip
  /-- As many steps were made. -/
  count : d.count = c.count
  /-- The interpreter. -/
  holds : d.host.Holds c.host.eof c.host.machine.loops c.host.store

/-- What an instruction that completes does, it does on reliable streams too. -/
theorem Interpreter.Does.mirrored {code : Array UInt8} {found : Fetch}
    {host host' mirror : Interpreter} {action : Action} {next : Nat} {calls : List Call}
    {event? : Option LoopEvent} (h : Does code found host action next calls event? host')
    (hm : mirror.Holds host.eof host.machine.loops host.store) :
    ∃ calls' mirror', Does code found mirror action next calls' event? mirror' ∧
      mirror'.Holds host'.eof host'.machine.loops host'.store := by
  have htape : mirror.machine.tape = host.machine.tape := hm.tape
  have hloops : mirror.machine.loops = host.machine.loops := hm.loops
  cases h with
  | nothing hb => exact ⟨_, _, .nothing hb, hm⟩
  | right hb =>
    rw [← htape]
    exact ⟨_, _, .right hb, hm.mapTape .moveRight⟩
  | left hb =>
    rw [← htape]
    exact ⟨_, _, .left hb, hm.mapTape .moveLeft⟩
  | increment hb =>
    rw [← htape]
    exact ⟨_, _, .increment hb, hm.mapTape .increment⟩
  | decrement hb =>
    rw [← htape]
    exact ⟨_, _, .decrement hb, hm.mapTape .decrement⟩
  | wrote hb _ =>
    obtain ⟨hput, hafter⟩ := hm.afterPut found.cell
    exact ⟨_, _, .wrote hb hput, hafter⟩
  | @read b hb _ hpull =>
    -- both inputs give the first of the same answers
    obtain ⟨hhead, htail⟩ := Source.pull_of_ok hpull
    obtain ⟨hresult, hafter⟩ := hm.afterPull
    refine ⟨_, _, .read hb hm.afterFlush.1 (hresult.trans (congrArg _ hhead)), ?_⟩
    have hwrite := hafter.mapTape (.write b)
    exact ⟨hwrite.undisturbed, hwrite.eof, hwrite.loops, hwrite.tape, hwrite.input.trans htail.symm⟩
  | readEnd hb _ hpull =>
    obtain ⟨hhead, htail⟩ := Source.pull_of_ok hpull
    obtain ⟨hresult, hafter⟩ := hm.afterPull
    refine ⟨_, _, .readEnd hb hm.afterFlush.1 (hresult.trans (congrArg _ hhead)), ?_⟩
    have hend := hafter.mapTape mirror.eof.onEnd
    have heof : mirror.eof = host.eof := hm.eof
    refine ⟨hend.undisturbed, hend.eof, hend.loops, ?_, hend.input.trans htail.symm⟩
    rw [hend.tape, heof]
    rfl
  | skipped hb hcell hclose => exact ⟨_, _, .skipped hb hcell hclose, hm⟩
  | entered hb hcell hpush =>
    rw [← hloops] at hpush
    exact ⟨_, _, .entered hb hcell hpush, hm.mapLoops fun _ => _⟩
  | repeated hb hcell htop =>
    rw [← hloops] at htop
    exact ⟨_, _, .repeated hb hcell htop, hm⟩
  | exited hb hcell htop =>
    rw [← hloops] at htop ⊢
    exact ⟨_, _, .exited hb hcell htop, hm.mapLoops .pop⟩

namespace Config.Mirrors

variable {code : Array UInt8} {c c' d : Config} {t : Turn} {ts : List Turn}

/-- **A completed step is mirrored by one that an observer cannot tell from it.** -/
theorem step (h : c.step code = .advanced t c') (hm : c.Mirrors d) :
    ∃ t' d', d.step code = .advanced t' d' ∧ t'.step = t.step ∧ c'.Mirrors d' := by
  obtain ⟨b, host, hget, -, hfetch, hdoes, hcount, hhost⟩ := step_eq_advanced_iff.mp h
  have hfound : d.fetch b = c.fetch b := by
    have htape : d.host.machine.tape = c.host.machine.tape := hm.holds.tape
    rw [fetch, fetch, hm.ip, hm.count, htape]
  obtain ⟨calls, mirror, hdoes', hholds⟩ := hdoes.mirrored hm.holds
  have hstep : d.step code = .advanced ⟨t.step, calls, t.event?⟩
      ⟨c'.ip, d.count + 1, { mirror with interrupt := mirror.interrupt.observe d.count }⟩ := by
    refine step_eq_advanced_iff.mpr ⟨b, mirror, ?_, hm.holds.not_stops, ?_, ?_, rfl, rfl⟩
    · rw [hm.ip, hget]
    · rw [hfound, ← hfetch]
    · rw [hfound]
      exact hdoes'
  refine ⟨_, _, hstep, rfl, rfl, ?_, ?_⟩
  · show d.count + 1 = c'.count
    rw [hcount, hm.count]
  · rw [hhost]
    exact hholds.observe d.count

/-- A path is mirrored by one with the same steps. -/
theorem reaches (h : Reaches code c ts c') (hm : c.Mirrors d) :
    ∃ us d', Reaches code d us d' ∧ us.map (·.step) = ts.map (·.step) ∧ c'.Mirrors d' := by
  induction h generalizing d with
  | refl => exact ⟨[], d, .refl d, rfl, hm⟩
  | step hs _ ih =>
    obtain ⟨t', d₁, hs', ht, hm₁⟩ := hm.step hs
    obtain ⟨us, d', hr, hus, hm'⟩ := ih hm₁
    refine ⟨t' :: us, d', .step hs' hr, ?_, hm'⟩
    rw [List.map_cons, List.map_cons, ht, hus]

/-- A run starts as its run without failures does. -/
theorem start (i : Interpreter) : i.start.Mirrors i.reliable.start :=
  ⟨rfl, rfl, ⟨Source.reliable_withoutFailures _, rfl, rfl⟩, rfl, rfl, rfl,
    Source.answers_withoutFailures _⟩

end Config.Mirrors

/-! ### Where a run fails -/

/-- An instruction that fails is one that can fail so, and the error names its position. -/
theorem Interpreter.Fails.located {code : Array UInt8} {found : Fetch} {host host' : Interpreter}
    {e : RunError} {calls : List Call} (h : Fails code found host e calls host')
    (hget : code[found.ip]? = some found.byte) (r : Run) :
    e.position = found.ip ∧ e.Located code r := by
  have hlt := lt_size_of_getElem? hget
  cases h with
  | write hb _ =>
    rw [Instruction.ofByte?_eq_some_iff.mp hb] at hget
    exact ⟨rfl, .inl ⟨hlt, _, .inl rfl, hget⟩⟩
  | flush hb _ =>
    rw [Instruction.ofByte?_eq_some_iff.mp hb] at hget
    exact ⟨rfl, .inl ⟨hlt, _, .inr rfl, hget⟩⟩
  | read hb _ _ =>
    rw [Instruction.ofByte?_eq_some_iff.mp hb] at hget
    exact ⟨rfl, .inl ⟨hlt, _, .inr rfl, hget⟩⟩
  | opening hb _ _ =>
    rw [hb] at hget
    exact ⟨rfl, hlt, hget⟩
  | overflow hb _ _ =>
    rw [hb] at hget
    exact ⟨rfl, hlt, hget⟩
  | closing hb _ =>
    rw [hb] at hget
    exact ⟨rfl, hlt, hget⟩

/-- A step that fails stands at the position that its error names. -/
theorem Config.located_of_step_failed {code : Array UInt8} {c d : Config} {e : RunError}
    {calls : List Call} (h : c.step code = .failed e calls d) (r : Run) :
    e.position = c.ip ∧ e.Located code r := by
  obtain ⟨b, hget, ⟨-, rfl, -, -⟩ | ⟨-, host, hfails, -⟩⟩ := step_eq_failed_iff.mp h
  · exact ⟨rfl, lt_size_of_getElem? hget⟩
  · exact hfails.located hget r

namespace Interpreter

variable {p : Program} {i : Interpreter} {fuel : Nat} {r : Run} {e : RunError}

/-- A run that fails stands, behind its last completed step, at the position that the error
names, with the machine that it leaves. -/
theorem exists_failed (h : i.run? fuel p = some r) (he : r.outcome = .error e) :
    ∃ c, Reaches p.code i.start r.turns.toList c ∧ r.after.machine = c.host.machine ∧
      e.position = c.ip ∧ e.Located p.code r := by
  obtain ⟨c, last, hr, hh, hafter, hlength⟩ := exists_halts h
  refine ⟨c, hr, hafter, ?_⟩
  rcases Halt.outcome_eq_error_iff.mp he with ⟨calls, hfailed⟩ | ⟨hcompleted, cause, hcause, rfl⟩
  · rw [hfailed] at hh
    exact Config.located_of_step_failed hh r
  · rw [hcompleted] at hh
    have hip : c.ip = p.code.size := hh.ip_eq_size hr.tracks.ip_le
    exact ⟨hlength.trans hip.symm, .inr ⟨hlength, hcompleted, hcause⟩⟩

/-- The steps of a run are the first steps of its run without failures. -/
theorem exists_mirror (h : i.run? fuel p = some r) :
    ∃ us c, Reaches p.code i.reliable.start us c ∧ us.map (·.step) = r.steps.toList := by
  obtain ⟨c, last, hr, -⟩ := run?_eq_some_iff.mp h
  obtain ⟨us, d, hd, hus, -⟩ := (Config.Mirrors.start i).reaches hr
  exact ⟨us, d, hd, hus.trans r.toList_steps.symm⟩

end Interpreter

/-- **A run that fails changes nothing where it fails.** For every program and every
interpreter, if a run fails:

* the tape and the loop stack are those behind the last completed step, or those of the start;
* the steps made are the first steps of the run on the same data where no stream fails and no
  switch is looked at, whether that run ends or not;
* the error names the instruction that failed, one that can fail so, or else the end of the
  program if all of it was executed and the last flush failed. -/
theorem failed_run_exact {p : Program} {i : Interpreter} {fuel : Nat} {r : Run} {e : RunError}
    (h : i.run? fuel p = some r) (he : r.outcome = .error e) :
    (∃ c, Reaches p.code i.start r.turns.toList c ∧ r.after.machine = c.host.machine ∧
        e.position = c.ip) ∧
      (r.turns = #[] → r.after.machine = ⟨i.machine.tape, i.machine.loops.clear⟩) ∧
      (∃ us c, Reaches p.code i.reliable.start us c ∧ us.map (·.step) = r.steps.toList) ∧
      (∀ fuel' r', i.reliable.run? fuel' p = some r' → r.steps.toList <+: r'.steps.toList) ∧
      e.Located p.code r := by
  obtain ⟨c, hr, hafter, hposition, hlocated⟩ := Interpreter.exists_failed h he
  obtain ⟨us, d, hd, hus⟩ := Interpreter.exists_mirror h
  refine ⟨⟨c, hr, hafter, hposition⟩, ?_, ⟨us, d, hd, hus⟩, ?_, hlocated⟩
  · intro hnone
    rw [hnone] at hr
    cases hr
    rw [hafter]
    rfl
  · intro fuel' r' h'
    obtain ⟨c', last, hr', -, hh, -⟩ := Interpreter.run?_eq_some_iff.mp h'
    have hprefix := (hd.isPrefix hr' (hd.length_le_of_halts hr' hh)).map (·.step)
    rwa [hus, ← r'.toList_steps] at hprefix

/-- The program `+,` on an input that fails: the cell is still 1, and the error names the `,`. -/
theorem failed_run_exact_broken_input :
    ∃ (p : Program) (i : Interpreter) (r : Run) (cause : IoError),
      i.run? 2 p = some r ∧ r.outcome = .error (.stream 1 cause) ∧
        (∃ c, Reaches p.code i.start r.turns.toList c ∧ r.after.machine = c.host.machine ∧
          c.ip = 1) ∧
        r.after.machine.tape = ⟨#[1], 0⟩ ∧
        (∀ fuel' r', i.reliable.run? fuel' p = some r' → r.steps.toList <+: r'.steps.toList) ∧
        (RunError.stream 1 cause).Located p.code r := by
  let p : Program := ⟨#[43, 44], by decide⟩
  let cause : IoError := ⟨.brokenPipe, "broken pipe"⟩
  let i : Interpreter := .ofMachine ⟨.ofLength 1, .ofCapacity 1⟩ [.failure cause] .reliable
  have hrun : (i.run? 2 p).map (fun r => (r.outcome, r.after.machine.tape)) =
      some (.error (.stream 1 cause), ⟨#[1], 0⟩) := by decide +kernel
  obtain ⟨r, hr, hend⟩ := Option.map_eq_some_iff.mp hrun
  obtain ⟨he, htape⟩ := Prod.mk.inj hend
  obtain ⟨⟨c, hc, hafter, hposition⟩, -, -, hprefix, hlocated⟩ := failed_run_exact hr he
  exact ⟨p, i, r, cause, hr, he, ⟨c, hc, hafter, hposition.symm⟩, htape, hprefix, hlocated⟩

end Brainfuck
