import Brainfuck.Proofs.Interpreter.Conservation
import Brainfuck.Proofs.Interpreter.FailedRuns
import Brainfuck.Proofs.Interpreter.Lockstep

/-!
# Runs that are interrupted

The switch that stops a run is looked at before each instruction and nowhere else. So a run whose
switch is turned on by the observation of step `n` makes the steps up to that one as the run without
a switch does, and stops where that run stands behind it. If there is nothing left to execute then,
or no step `n` at all, the switch changes nothing. That holds for every program and whatever
the streams do (`interrupt_stops_at_prefix`).

Nothing but a request to do so turns the switch off again (`Lasting`), and while it is on and looked
at, no run makes a step.
-/

namespace Brainfuck

namespace Interrupt

/-- A switch that is off and looked at, and that the observation of step `n` turns on. -/
def raisedBy (n : Nat) : Interrupt := ⟨false, true, some n⟩

theorem after_raisedBy (n k : Nat) : (raisedBy n).after k = ⟨decide (n < k), true, some n⟩ := by
  induction k with
  | zero => simp [after, raisedBy]
  | succ k ih =>
    rw [after, ih, observe]
    by_cases h : n = k
    · simp [h]
    · have hlt : n < k ↔ n < k + 1 := by omega
      simp [h, hlt]

/-- The switch stops a run as soon as step `n` was observed. -/
theorem stops_after_raisedBy {n k : Nat} : ((raisedBy n).after k).Stops ↔ n < k := by
  simp [after_raisedBy, Stops]

/-- Observing a step does not turn the switch off. -/
theorem raised_observe {s : Interrupt} (h : s.raised = true) (n : Nat) :
    (s.observe n).raised = true := by
  unfold observe
  split
  · rfl
  · exact h

theorem raised_after {s : Interrupt} (h : s.raised = true) (n : Nat) :
    (s.after n).raised = true := by
  induction n with
  | zero => exact h
  | succ n ih => exact raised_observe ih n

end Interrupt

/-- The run makes the steps `ts` and is stopped where `c` stands, with what there is. -/
structure Run.StopsAt (r : Run) (ts : List Turn) (c : Config) : Prop where
  /-- The steps. -/
  turns : r.turns.toList = ts
  /-- The next instruction is not executed. -/
  outcome : r.outcome = .error (.interrupted c.ip)
  /-- The machine is left as it is. -/
  machine : r.after.machine = c.host.machine
  /-- The input is left as it is. -/
  input : r.after.input = c.host.input
  /-- What was written is what the steps wrote. -/
  output : r.output = Step.written (ts.map (·.step))
  /-- Behind the calls of the steps, there is one flush. -/
  calls : r.calls = ts.flatMap (·.calls) ++ [(Sink.flush c.host.output.flushes).call]
  /-- The switch stays on. -/
  stops : r.after.interrupt.Stops

/-- The first interpreter becomes the second by answering requests, none of which is to turn the
switch off. -/
inductive Lasting : Interpreter → Interpreter → Prop where
  /-- Nothing is asked. -/
  | idle (i : Interpreter) : Lasting i i
  /-- A request is answered, and then others. -/
  | answer {i i' i'' : Interpreter} {fuel : Nat} {c : Command} {reply : Reply} :
      i.answer? fuel c = some (reply, i') → c ≠ .setInterrupt false → Lasting i' i'' → Lasting i i''

/-! ### The switch stays on -/

namespace Interpreter

variable {p : Program} {i i' : Interpreter} {fuel : Nat} {r : Run}

/-- No request turns the switch off but the one to do so. -/
theorem raised_of_answer? {c : Command} {reply : Reply} (h : i.answer? fuel c = some (reply, i'))
    (hc : c ≠ .setInterrupt false) (hi : i.interrupt.raised = true) :
    i'.interrupt.raised = true := by
  cases c with
  | run p =>
    obtain ⟨r, hr, heq⟩ := Option.map_eq_some_iff.mp h
    obtain ⟨-, rfl⟩ := Prod.mk.inj heq
    rw [interrupt_of_run? hr]
    exact Interrupt.raised_after hi _
  | setInterrupt raised =>
    simp only [answer?, Option.some.injEq, Prod.mk.injEq] at h
    obtain ⟨-, rfl⟩ := h
    cases raised with
    | true => rfl
    | false => exact absurd rfl hc
  | push p =>
    simp only [answer?] at h
    split at h <;>
    · cases h
      exact hi
  | _ =>
    simp only [answer?, Option.some.injEq, Prod.mk.injEq] at h
    obtain ⟨-, rfl⟩ := h
    exact hi

end Interpreter

theorem Lasting.raised {i i' : Interpreter} (h : Lasting i i') (hi : i.interrupt.raised = true) :
    i'.interrupt.raised = true := by
  induction h with
  | idle => exact hi
  | answer hanswer hc _ ih => exact ih (Interpreter.raised_of_answer? hanswer hc hi)

/-! ### Stopped runs -/

namespace Interpreter

variable {p : Program} {i : Interpreter} {n : Nat} {ts : List Turn} {c : Config}

/-- A run that gets to an instruction with the switch on is stopped there. -/
theorem exists_stopsAt (hr : Reaches p.code i.start ts c) (hip : c.ip < p.code.size)
    (hs : c.host.interrupt.Stops) : ∃ r, i.run? (ts.length + 1) p = some r ∧ r.StopsAt ts c := by
  have hh : c.Halts p.code (.failed (.interrupted c.ip) []) c :=
    Config.step_eq_failed_iff.mpr ⟨_, Array.getElem?_eq_getElem hip, .inl ⟨hs, rfl, rfl, rfl⟩⟩
  have hrun := run?_of_halts hr hh
  have hwritten := (accounts_of_run? hrun).written
  refine ⟨_, hrun, rfl, rfl, rfl, rfl, ?_, ?_, hs⟩
  · rw [Run.output, hwritten, Run.toList_steps]
  · simp [Run.calls, Halt.calls]

/-- A path without a switch is one with the switch that step `n` turns on, up to that step. -/
theorem reaches_raisedBy (hr : Reaches p.code (i.switched .off).start ts c)
    (hn : ts.length ≤ n + 1) :
    Reaches p.code (i.switched (.raisedBy n)).start ts (c.switched (.raisedBy n)) := by
  refine hr.switched (s := .raisedBy n) fun k hk => ?_
  rw [hr.count_eq_length] at hk
  rw [Interrupt.stops_after_raisedBy]
  omega

/-- If there is no instruction behind step `n`, or no such step, the switch that it turns on makes
no difference. -/
theorem run?_raisedBy
    (hend : ∀ ts c, Reaches p.code (i.switched .off).start ts c → ts.length = n + 1 →
      p.code.size ≤ c.ip) (fuel : Nat) :
    (i.switched (.raisedBy n)).run? fuel p =
      ((i.switched .off).run? fuel p).map (Run.switched (.raisedBy n)) := by
  refine run?_switched (i := i.switched .off) (s := .raisedBy n) (fun ts c hr hip => ?_) fuel
  have hidle : ¬ c.host.interrupt.Stops := Interrupt.not_stops hr.connected_eq
  rw [Interrupt.stops_after_raisedBy, hr.count_eq_length]
  refine iff_of_false (fun hlt => ?_) hidle
  -- behind step `n` there is no further step, so this is where it leads to
  rw [← List.take_append_drop (n + 1) ts] at hr
  obtain ⟨d, hd, hrest⟩ := hr.exists_of_append
  have hsize := hend _ d hd (by simp; omega)
  generalize ts.drop (n + 1) = us at hrest
  cases hrest with
  | refl => omega
  | step hs _ =>
    obtain ⟨b, -, hget, -⟩ := Config.step_eq_advanced_iff.mp hs
    have := (Array.getElem?_eq_some_iff.mp hget).1
    omega

/-- With nothing to execute, a run makes no step, whatever the switch. -/
theorem exists_empty_run (hp : p.code = #[]) :
    ∃ r, i.run? 1 p = some r ∧ r.turns = #[] ∧
      r.after.machine = ⟨i.machine.tape, i.machine.loops.clear⟩ ∧
      (r.outcome = .ok () ↔ (Sink.flush i.output.flushes).failure? = none) := by
  have hh : i.start.Halts p.code .completed i.start :=
    Config.step_eq_finished_iff.mpr ⟨by simp [hp], rfl⟩
  refine ⟨_, run?_of_halts (.refl _) hh, rfl, rfl, ?_⟩
  rw [Run.outcome, Halt.outcome_eq_ok_iff]
  simp
  rfl

end Interpreter

/-- **An interrupt stops a run at an exact prefix.** For every program, every interpreter and every
`n`, compare the run without a switch with the run whose switch the observation of step `n` turns
on.

* If the first run makes step `n` and there is an instruction where it then stands, the second run
  makes the same steps up to that one, the first steps of the first run, and is stopped there.
* If not, the two runs are the same, but for the switch.
* The switch stays on whatever is asked of the interpreter, other than to turn it off. While it is
  on and looked at, a run of a program makes no step and is stopped at position 0, and a run of an
  empty program succeeds if its flush does. -/
theorem interrupt_stops_at_prefix (p : Program) (i : Interpreter) (n : Nat) :
    (∀ ts c, Reaches p.code (i.switched .off).start ts c → ts.length = n + 1 →
        c.ip < p.code.size →
        (∃ fuel r, (i.switched (.raisedBy n)).run? fuel p = some r ∧ r.StopsAt ts c) ∧
          ∀ fuel r, (i.switched .off).run? fuel p = some r → ts <+: r.turns.toList) ∧
      ((∀ ts c, Reaches p.code (i.switched .off).start ts c → ts.length = n + 1 →
          p.code.size ≤ c.ip) →
        ∀ fuel, (i.switched (.raisedBy n)).run? fuel p =
          ((i.switched .off).run? fuel p).map (Run.switched (.raisedBy n))) ∧
      ∀ i₁ i₂, Lasting i₁ i₂ → i₁.interrupt.raised = true →
        i₂.interrupt.raised = true ∧ (i₂.interrupt.connected = true → ∀ q : Program,
          (q.code ≠ #[] → ∃ r, i₂.run? 1 q = some r ∧ r.StopsAt [] i₂.start) ∧
          (q.code = #[] → ∃ r, i₂.run? 1 q = some r ∧ r.turns = #[] ∧
            r.after.machine = ⟨i₂.machine.tape, i₂.machine.loops.clear⟩ ∧
            (r.outcome = .ok () ↔ (Sink.flush i₂.output.flushes).failure? = none))) := by
  refine ⟨fun ts c hr hlen hip => ⟨?_, fun _ _ hrun => Interpreter.isPrefix_of_run? hr hrun⟩,
    Interpreter.run?_raisedBy, fun i₁ i₂ hlasting hraised => ?_⟩
  · have hcount : c.count = n + 1 := hr.count_eq_length.trans hlen
    have hstops : (c.switched (.raisedBy n)).host.interrupt.Stops := by
      refine Interrupt.stops_after_raisedBy.mpr ?_
      omega
    obtain ⟨r, hrun, hstopsAt⟩ :=
      Interpreter.exists_stopsAt (Interpreter.reaches_raisedBy hr hlen.le) hip hstops
    exact ⟨_, r, hrun, ⟨hstopsAt.turns, hstopsAt.outcome, hstopsAt.machine, hstopsAt.input,
      hstopsAt.output, hstopsAt.calls, hstopsAt.stops⟩⟩
  · have hraised' := hlasting.raised hraised
    refine ⟨hraised', fun hconnected q => ⟨fun hq => ?_, Interpreter.exists_empty_run⟩⟩
    have hpos : 0 < q.code.size := Array.size_pos_iff.mpr hq
    exact Interpreter.exists_stopsAt (.refl _) hpos ⟨hconnected, hraised'⟩

/-- The program `+[-]]`, interrupted when step 3 leaves the loop: the stray `]` that comes next is
not executed, and neither is anything of the run after that. -/
theorem interrupt_stops_at_stray_closing :
    ∃ (p : Program) (i : Interpreter) (r : Run), (i.switched .off).run? 5 p = some r ∧
      r.turns.size = 3 + 1 ∧ r.outcome = .error (.unmatched ⟨4, .closing⟩) ∧
      ∃ fuel r', (i.switched (.raisedBy 3)).run? fuel p = some r' ∧ r'.turns = r.turns ∧
        r'.outcome = .error (.interrupted 4) ∧
        ∃ r'', r'.after.run? 1 p = some r'' ∧ r''.turns = #[] ∧
          r''.outcome = .error (.interrupted 0) := by
  let p : Program := ⟨#[43, 91, 45, 93, 93], by decide⟩
  let i : Interpreter := .ofMachine ⟨.ofLength 1, .ofCapacity 1⟩ [] .reliable
  have hrun : ((i.switched .off).run? 5 p).map (fun r => (r.turns.size, r.outcome)) =
      some (3 + 1, .error (.unmatched ⟨4, .closing⟩)) := by decide +kernel
  obtain ⟨r, hr, hend⟩ := Option.map_eq_some_iff.mp hrun
  obtain ⟨hsize, he⟩ := Prod.mk.inj hend
  obtain ⟨c, hc, -, hposition, -⟩ := Interpreter.exists_failed hr he
  have hip : c.ip = 4 := hposition.symm
  have hcode : p.code = #[43, 91, 45, 93, 93] := by decide +kernel
  obtain ⟨hstop, -, hlater⟩ := interrupt_stops_at_prefix p i 3
  obtain ⟨⟨fuel, r', hr', hstopsAt⟩, -⟩ := hstop _ c hc (by simp [hsize]) (by simp [hip, hcode])
  obtain ⟨-, hagain⟩ := hlater _ _ (.idle r'.after) hstopsAt.stops.2
  obtain ⟨r'', hr'', hstopsAt'⟩ := (hagain hstopsAt.stops.1 p).1 (by simp [hcode])
  refine ⟨p, i, r, hr, hsize, he, fuel, r', hr', Array.toList_inj.mp hstopsAt.turns, ?_, r'', hr'',
    Array.toList_inj.mp hstopsAt'.turns, hstopsAt'.outcome⟩
  rw [hstopsAt.outcome, hip]

end Brainfuck
