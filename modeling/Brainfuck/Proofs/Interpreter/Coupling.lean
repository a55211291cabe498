import Brainfuck.Proofs.Interpreter.Control
import Brainfuck.Proofs.Interpreter.Simulation
import Brainfuck.Proofs.Stream.Arrivals

/-!
# Coupled streams

Two interpreters that differ in their streams alone may still do the same. A coupling says how the
streams may differ, and it owes a condition for each way to use them: that a write to the one comes
to what the same write to the other does, and that reads are answered in the same way. An answer
may also differ where the cell becomes zero in either case: at the end of the input, under the
policy that stores zero there, and with a zero byte.

Only `.` and `,` use the streams, so coupled interpreters react to an instruction alike
(`Coupling.Controls.react`) and stay coupled from step to step (`Coupling.simulation`), and their
runs are coupled (`Coupling.rel_run?`).
-/

namespace Brainfuck

/-- Configurations at the same place of two runs, whose interpreters are related by `R`. -/
structure Config.SamePlace (R : Interpreter → Interpreter → Prop) (c d : Config) : Prop where
  /-- The position of the next instruction. -/
  ip : d.ip = c.ip
  /-- The number of steps made. -/
  count : d.count = c.count
  /-- The interpreters. -/
  host : R c.host d.host

/-- How reads may be answered, so that the cell is the same behind them under `policy`, and
`action` holds of what they did. -/
inductive AnsweredAlike (policy : EofPolicy) (action : Action → Action → Prop) :
    Except IoError (Option UInt8) → Except IoError (Option UInt8) → Prop where
  /-- Both fail. -/
  | failed (e : IoError) : AnsweredAlike policy action (.error e) (.error e)
  /-- Both are given the same answer. -/
  | same (b? : Option UInt8) : AnsweredAlike policy action (.ok b?) (.ok b?)
  /-- The end of the input stores a zero, and a zero is read. -/
  | padded : policy = .zero → action .readEnd (.read 0) →
      AnsweredAlike policy action (.ok none) (.ok (some 0))

theorem AnsweredAlike.of_eq {policy : EofPolicy} {action : Action → Action → Prop}
    {answer answer' : Except IoError (Option UInt8)} (h : answer' = answer) :
    AnsweredAlike policy action answer answer' := by
  rw [h]
  cases answer with
  | error e => exact .failed e
  | ok b? => exact .same b?

/-- How the streams of two interpreters may differ under `policy`, and what becomes of
that. -/
structure Coupling (policy : EofPolicy) where
  /-- What reads meet in the two inputs. -/
  input : List Source.Arrival → List Source.Arrival → Prop
  /-- The writes to come that fail. -/
  writes : Schedule WriteFault → Schedule WriteFault → Prop
  /-- What an instruction does. -/
  action : Action → Action → Prop
  /-- The stream calls made. -/
  calls : List Call → List Call → Prop
  /-- The same may be done. -/
  action_refl (a : Action) : action a a
  /-- The same calls may be made. -/
  calls_refl (xs : List Call) : calls xs xs
  /-- Calls are coupled one part after the other. -/
  calls_append {xs ys xs' ys' : List Call} :
    calls xs ys → calls xs' ys' → calls (xs ++ xs') (ys ++ ys')
  /-- A write comes to the same. -/
  put {ws ws' : Schedule WriteFault} (b : UInt8) : writes ws ws' →
    (Sink.put b ws').result = (Sink.put b ws).result ∧
      calls (Sink.put b ws).calls (Sink.put b ws').calls ∧
      writes (Sink.put b ws).writes (Sink.put b ws').writes
  /-- Reads are answered alike. -/
  take {as bs : List Source.Arrival} : input as bs →
    AnsweredAlike policy action (Source.take as).result (Source.take bs).result ∧
      calls (Source.take as).calls (Source.take bs).calls ∧
      input (Source.take as).rest (Source.take bs).rest

namespace Coupling

variable {policy : EofPolicy}

/-- Two interpreters without their tapes, both under `policy`, that differ in their streams alone,
and there as the coupling allows. -/
structure Controls (K : Coupling policy) (k k' : Control) : Prop where
  /-- The loops entered. -/
  loops : k'.loops = k.loops
  /-- What reads meet. -/
  input : K.input k.input.arrivals k'.input.arrivals
  /-- The writes to come that fail. -/
  writes : K.writes k.output.writes k'.output.writes
  /-- The flushes to come that fail. -/
  flushes : k'.output.flushes = k.output.flushes
  /-- The policy of the first. -/
  eof : k.eof = policy
  /-- The policy of the second. -/
  eof' : k'.eof = policy
  /-- The switch. -/
  interrupt : k'.interrupt = k.interrupt

/-- Responses that differ in what is left of the streams, in the calls, and maybe in what was
done. -/
structure Responses (K : Coupling policy) (r r' : Response) : Prop where
  /-- What is done to the tape. -/
  edit : r'.edit = r.edit
  /-- What the instruction did, whatever the tape behind it. -/
  deed (t : Tape) : K.action (r.deed.onTape t) (r'.deed.onTape t)
  /-- Where execution goes on. -/
  next : r'.next = r.next
  /-- The stream calls. -/
  calls : K.calls r.calls r'.calls
  /-- The loop event. -/
  event? : r'.event? = r.event?
  /-- The controls behind them. -/
  control : K.Controls r.control r'.control

/-- Reactions that differ as the coupling allows. -/
inductive Reactions (K : Coupling policy) : Reaction → Reaction → Prop where
  /-- Both complete. -/
  | done {r r' : Response} : K.Responses r r' → Reactions K (.done r) (.done r')
  /-- Both fail with the same error. -/
  | failed {e : RunError} {xs ys : List Call} {k k' : Control} :
      K.calls xs ys → K.Controls k k' → Reactions K (.failed e xs k) (.failed e ys k')

variable {K : Coupling policy} {k k' : Control}

namespace Controls

/-- An instruction that does not use the streams. -/
theorem done (h : K.Controls k k') (edit : Edit) (deed : Deed) (next : Nat)
    (event? : Option LoopEvent) :
    K.Reactions (.done ⟨edit, deed, next, [], event?, k⟩)
      (.done ⟨edit, deed, next, [], event?, k'⟩) :=
  .done ⟨rfl, fun _ => K.action_refl _, rfl, K.calls_refl _, rfl, h⟩

theorem failed (h : K.Controls k k') (e : RunError) :
    K.Reactions (.failed e [] k) (.failed e [] k') :=
  .failed (K.calls_refl _) h

/-- The same becomes of the loops. -/
theorem withLoops (h : K.Controls k k') (loops : LoopStack) :
    K.Controls { k with loops := loops } { k' with loops := loops } :=
  ⟨rfl, h.input, h.writes, h.flushes, h.eof, h.eof', h.interrupt⟩

theorem flush (h : K.Controls k k') (flushes : Schedule IoError) :
    K.Controls { k with output := { k.output with flushes := flushes } }
      { k' with output := { k'.output with flushes := flushes } } :=
  ⟨h.loops, h.input, h.writes, rfl, h.eof, h.eof', h.interrupt⟩

theorem observe (h : K.Controls k k') (n : Nat) : K.Controls (k.observe n) (k'.observe n) :=
  ⟨h.loops, h.input, h.writes, h.flushes, h.eof, h.eof', congrArg (Interrupt.observe n) h.interrupt⟩

theorem write (h : K.Controls k k') (ip : Nat) (cell : UInt8) :
    K.Reactions (k.write ip cell) (k'.write ip cell) := by
  obtain ⟨hresult, hcalls, hwrites⟩ := K.put cell h.writes
  have hafter : K.Controls
      { k with output := { k.output with writes := (Sink.put cell k.output.writes).writes } }
      { k' with output := { k'.output with writes := (Sink.put cell k'.output.writes).writes } } :=
    ⟨h.loops, h.input, hwrites, h.flushes, h.eof, h.eof', h.interrupt⟩
  unfold Control.write
  dsimp only
  rw [hresult]
  cases (Sink.put cell k.output.writes).result with
  | ok _ => exact .done ⟨rfl, fun _ => K.action_refl _, rfl, hcalls, rfl, hafter⟩
  | error e => exact .failed hcalls hafter

/-- What one read comes to on coupled inputs. -/
theorem pull (h : K.Controls k k') :
    AnsweredAlike policy K.action k.input.pull.result k'.input.pull.result ∧
      K.calls k.input.pull.calls k'.input.pull.calls ∧
      K.input k.input.pull.rest.arrivals k'.input.pull.rest.arrivals := by
  have htake := K.take h.input
  rw [← Source.pull_eq_take, ← Source.pull_eq_take] at htake
  exact htake

theorem read (h : K.Controls k k') (ip : Nat) : K.Reactions (k.read ip) (k'.read ip) := by
  unfold Control.read
  dsimp only
  rw [h.flushes]
  cases (Sink.flush k.output.flushes).failure? with
  | some e => exact .failed (K.calls_refl _) (h.flush _)
  | none =>
    obtain ⟨hanswer, hcalls, hinput⟩ := h.pull
    have hgroup := K.calls_append (K.calls_refl [(Sink.flush k.output.flushes).call]) hcalls
    have hafter : K.Controls
        { k with
          output := { k.output with flushes := (Sink.flush k.output.flushes).flushes }
          input := k.input.pull.rest }
        { k' with
          output := { k'.output with flushes := (Sink.flush k.output.flushes).flushes }
          input := k'.input.pull.rest } :=
      ⟨h.loops, hinput, h.writes, rfl, h.eof, h.eof', h.interrupt⟩
    dsimp only
    generalize k.input.pull.result = answer, k'.input.pull.result = answer' at hanswer
    cases hanswer with
    | failed e => exact .failed hgroup hafter
    | same b? =>
      cases b? with
      | some b => exact .done ⟨rfl, fun _ => K.action_refl _, rfl, hgroup, rfl, hafter⟩
      | none =>
        have hedit : k'.eof.edit = k.eof.edit := by rw [h.eof, h.eof']
        exact .done ⟨hedit, fun _ => K.action_refl _, rfl, hgroup, rfl, hafter⟩
    | padded hzero haction =>
      have hedit : k.eof.edit = .write 0 := by rw [h.eof, hzero]; rfl
      exact .done ⟨hedit.symm, fun _ => haction, rfl, hgroup, rfl, hafter⟩

theorem openLoop (h : K.Controls k k') (code : Array UInt8) (ip : Nat) (cell : UInt8) :
    K.Reactions (k.openLoop code ip cell) (k'.openLoop code ip cell) := by
  unfold Control.openLoop
  split
  · cases Brackets.closeOf? code ip with
    | some close => exact h.done ..
    | none => exact h.failed _
  · rw [h.loops]
    cases k.loops.push? ip with
    | some loops => exact (h.withLoops loops).done ..
    | none => exact h.failed _

theorem closeLoop (h : K.Controls k k') (ip : Nat) (cell : UInt8) :
    K.Reactions (k.closeLoop ip cell) (k'.closeLoop ip cell) := by
  obtain ⟨loops, input, output, eof, interrupt⟩ := k'
  obtain rfl : loops = k.loops := h.loops
  unfold Control.closeLoop
  cases k.loops.top? with
  | none => exact h.failed _
  | some start =>
    dsimp only
    split
    · exact (h.withLoops k.loops.pop).done ..
    · exact h.done ..

/-- **Coupled controls react alike.** -/
theorem react (h : K.Controls k k') (code : Array UInt8) (ip : Nat) (b cell : UInt8) :
    K.Reactions (k.react code ip b cell) (k'.react code ip b cell) := by
  unfold Control.react
  cases Instruction.ofByte? b with
  | none => exact h.done ..
  | some instruction =>
    cases instruction with
    | right | left | increment | decrement => exact h.done ..
    | output => exact h.write ip cell
    | input => exact h.read ip
    | bracket side =>
      cases side with
      | opening => exact h.openLoop code ip cell
      | closing => exact h.closeLoop ip cell

end Controls

/-! ### Steps -/

/-- Two interpreters in the middle of runs that are at the same place, have the same tape, and
differ as the coupling allows. -/
structure Configs (K : Coupling policy) (c d : Config) : Prop where
  /-- The position of the next instruction. -/
  ip : d.ip = c.ip
  /-- The number of steps made. -/
  count : d.count = c.count
  /-- The tape. -/
  tape : d.host.machine.tape = c.host.machine.tape
  /-- The rest of the interpreters. -/
  control : K.Controls c.host.control d.host.control

/-- Completed steps that found the same, and differ as the coupling allows. -/
structure Turns (K : Coupling policy) (t u : Turn) : Prop where
  /-- What was found. -/
  fetch : u.step.toFetch = t.step.toFetch
  /-- What the instruction did. -/
  action : K.action t.step.action u.step.action
  /-- The stream calls. -/
  calls : K.calls t.calls u.calls
  /-- The loop event. -/
  event? : u.event? = t.event?

/-- Ends of executions that differ in the calls of the failing instruction. -/
inductive Halts (K : Coupling policy) : Halt → Halt → Prop where
  /-- Both reached the end of the program. -/
  | completed : Halts K .completed .completed
  /-- Both failed with the same error. -/
  | failed {e : RunError} {xs ys : List Call} :
      K.calls xs ys → Halts K (.failed e xs) (.failed e ys)

namespace Configs

variable {code : Array UInt8} {c d c' : Config}

/-- What holds of coupled interpreters on one machine holds of the interpreters. -/
theorem samePlace {R : Interpreter → Interpreter → Prop} (h : K.Configs c d)
    (hR : ∀ {i i' : Interpreter}, i'.machine = i.machine → K.Controls i.control i'.control →
      R i i') :
    c.SamePlace R d :=
  ⟨h.ip, h.count, hR (congrArg₂ Machine.mk h.tape h.control.loops) h.control⟩

/-- The same instruction finds the same. -/
theorem fetch_eq (h : K.Configs c d) (b : UInt8) : d.fetch b = c.fetch b := by
  obtain ⟨hip, hcount, htape, -⟩ := h
  unfold Config.fetch
  rw [hip, hcount, htape]

/-- The same instruction brings forth reactions that are coupled. -/
theorem react (h : K.Configs c d) (b : UInt8) : K.Reactions (c.react code b) (d.react code b) := by
  unfold Config.react
  rw [h.ip, h.tape]
  exact h.control.react ..

theorem stops_iff (h : K.Configs c d) : d.host.interrupt.Stops ↔ c.host.interrupt.Stops := by
  have hswitch : d.host.interrupt = c.host.interrupt := h.control.interrupt
  rw [hswitch]

theorem advanced (h : K.Configs c d) {t : Turn} (hs : c.step code = .advanced t c') :
    ∃ u d', d.step code = .advanced u d' ∧ K.Turns t u ∧ K.Configs c' d' := by
  obtain ⟨b, r, hget, hgo, hreact, rfl, rfl⟩ := Config.step_eq_advanced_iff_react.mp hs
  have hreacts : K.Reactions (c.react code b) (d.react code b) := h.react b
  rw [hreact] at hreacts
  generalize hreact' : d.react code b = reaction' at hreacts
  cases hreacts with
  | @done _ r' hr =>
    refine ⟨_, _, Config.step_eq_advanced_iff_react.mpr
      ⟨b, r', ?_, mt h.stops_iff.mp hgo, hreact', rfl, rfl⟩, ?_, ?_⟩
    · rw [h.ip]
      exact hget
    · rw [hr.edit, h.tape]
      exact ⟨h.fetch_eq b, hr.deed _, hr.calls, hr.event?⟩
    · rw [hr.edit, h.tape, h.count]
      exact ⟨hr.next, rfl, rfl, hr.control.observe _⟩

theorem halts (h : K.Configs c d) {halt : Halt} {last : Config} (hh : c.Halts code halt last) :
    ∃ halt' last', d.Halts code halt' last' ∧ K.Halts halt halt' ∧ K.Configs last last' := by
  cases halt with
  | completed =>
    obtain ⟨hnone, rfl⟩ := Config.step_eq_finished_iff.mp hh
    rw [← h.ip] at hnone
    exact ⟨.completed, d, Config.step_eq_finished_iff.mpr ⟨hnone, rfl⟩, .completed, h⟩
  | failed e calls =>
    obtain ⟨b, hget, hfailed⟩ := Config.step_eq_failed_iff_react.mp hh
    rw [← h.ip] at hget
    rcases hfailed with ⟨hstop, rfl, rfl, rfl⟩ | ⟨hgo, k, hreact, rfl⟩
    · refine ⟨.failed (.interrupted d.ip) [], d, Config.step_eq_failed_iff_react.mpr
        ⟨b, hget, .inl ⟨h.stops_iff.mpr hstop, rfl, rfl, rfl⟩⟩, ?_, h⟩
      rw [h.ip]
      exact .failed (K.calls_refl _)
    · have hreacts : K.Reactions (c.react code b) (d.react code b) := h.react b
      rw [hreact] at hreacts
      generalize hreact' : d.react code b = reaction' at hreacts
      cases hreacts with
      | @failed _ _ calls' _ k' hcalls hcontrol =>
        exact ⟨.failed e calls', _, Config.step_eq_failed_iff_react.mpr
          ⟨b, hget, .inr ⟨mt h.stops_iff.mp hgo, k', hreact', rfl⟩⟩, .failed hcalls,
          h.ip, h.count, h.tape, hcontrol⟩

end Configs

/-- **Coupled interpreters go on to be coupled.** -/
def simulation (K : Coupling policy) (code : Array UInt8) : Simulation code where
  config := K.Configs
  turn := K.Turns
  halt := K.Halts
  advanced h hs := h.advanced hs
  halts h hh := h.halts hh

/-! ### Runs -/

/-- Runs that differ as the coupling allows. -/
structure Runs (K : Coupling policy) (r r' : Run) : Prop where
  /-- The outcome. -/
  outcome : r'.outcome = r.outcome
  /-- The completed steps. -/
  turns : List.Forall₂ K.Turns r.turns.toList r'.turns.toList
  /-- Every stream call. -/
  calls : K.calls r.calls r'.calls
  /-- The machine after the run. -/
  machine : r'.after.machine = r.after.machine
  /-- The rest of the interpreters after the runs. -/
  control : K.Controls r.after.control r'.after.control

/-- The calls of coupled steps are coupled. -/
theorem calls_flatMap {ts us : List Turn} (h : List.Forall₂ K.Turns ts us) :
    K.calls (ts.flatMap (·.calls)) (us.flatMap (·.calls)) := by
  induction h with
  | nil => exact K.calls_refl _
  | cons ht _ ih => exact K.calls_append ht.calls ih

variable {p : Program} {i i' : Interpreter}

theorem runs_of_matches {r r' : Run} (h : (K.simulation p.code).Matches i i' r r') :
    K.Runs r r' := by
  obtain ⟨hlength, -, -, hturns, hhalt, c, d, hlast, hclosing, hafter, hclosing', hafter'⟩ := h
  have hflushes : d.host.output.flushes = c.host.output.flushes := hlast.control.flushes
  have hclosings : r'.closing = r.closing := by rw [hclosing', hclosing, hflushes]
  have hcontrol : K.Controls r.after.control r'.after.control := by
    rw [hafter, hafter']
    unfold Interpreter.afterFlush
    rw [hflushes]
    exact hlast.control.flush _
  have hloops : r'.after.machine.loops = r.after.machine.loops := hcontrol.loops
  have htape : r'.after.machine.tape = r.after.machine.tape := by
    rw [hafter, hafter']
    exact hlast.tape
  refine ⟨?_, hturns, ?_, ?_, hcontrol⟩
  · unfold Run.outcome
    rw [hclosings, hlength]
    generalize r.halt = halt, r'.halt = halt' at hhalt
    cases hhalt with
    | completed => rfl
    | failed _ => rfl
  · unfold Run.calls
    rw [hclosings]
    refine K.calls_append (K.calls_append (calls_flatMap hturns) ?_) (K.calls_refl _)
    generalize r.halt = halt, r'.halt = halt' at hhalt
    cases hhalt with
    | completed => exact K.calls_refl _
    | failed hcalls => exact hcalls
  · exact congrArg₂ Machine.mk htape hloops

section

variable (htape : i'.machine.tape = i.machine.tape) (h : K.Controls i.control i'.control)

include htape h

/-- Leaving all loops, coupled interpreters start as coupled ones. -/
theorem configs_start : K.Configs i.start i'.start :=
  have hloops : i'.machine.loops = i.machine.loops := h.loops
  ⟨rfl, rfl, htape, congrArg LoopStack.clear hloops, h.input, h.writes, h.flushes, h.eof, h.eof',
    h.interrupt⟩

/-- **A path of one of two coupled interpreters is a path of the other.** -/
theorem reaches {code : Array UInt8} {ts : List Turn} {c : Config}
    (hr : Reaches code i.start ts c) :
    ∃ us d, Reaches code i'.start us d ∧ List.Forall₂ K.Turns ts us ∧ K.Configs c d :=
  (K.simulation code).reaches hr (configs_start htape h)

/-- **The runs of coupled interpreters are coupled**, and if one of them does not end, neither
does the other. -/
theorem rel_run? (fuel : Nat) (p : Program) :
    Option.Rel K.Runs (i.run? fuel p) (i'.run? fuel p) :=
  Run.rel_mono (fun _ _ => runs_of_matches)
    ((K.simulation p.code).rel_run? (configs_start htape h) fuel)

end

end Coupling

end Brainfuck
