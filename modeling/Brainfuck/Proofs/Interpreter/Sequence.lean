import Brainfuck.Proofs.Interpreter.CheckAgreement
import Brainfuck.Proofs.Interpreter.Renaming
import Brainfuck.Proofs.Stream.Transfer

/-!
# One program behind another

`Program.append` puts a program behind another. To run the two in one is to run the first and then,
on the interpreter that it leaves, the second (`run_append`), provided that every bracket of the
first has a partner in it. Nothing is asked of the second.

Neither a search for a bracket nor the loop stack gets across the seam. A search that starts in
front of it finds a partner in front of it (`Brackets.closeOf?_append_left`), so the first program
does not notice what stands behind it. A search that starts behind the seam does not look back
(`Brackets.closeOf?_append_right`), and the stack is empty when the seam is reached, as nothing is
open there. So the second program does what it would do alone, at positions that are greater by the
length of the first.
-/

namespace Brainfuck

namespace Program

/-- The program `p` with `q` behind it. -/
def append (p q : Program) (h : p.buffer.size + q.buffer.size ≤ limit) : Program :=
  ⟨p.buffer ++ q.buffer, by rwa [Array.size_append]⟩

variable {p : Program}

/-- The executable bytes of two programs in one. -/
theorem code_append {q : Program} (hp : terminator ∉ p.buffer)
    (h : p.buffer.size + q.buffer.size ≤ limit) : (p.append q h).code = p.code ++ q.code := by
  rw [code_eq_buffer hp]
  apply Array.toList_inj.mp
  rw [code, code, append, Array.toList_append, Array.toList_takeWhile, Array.toList_takeWhile,
    Array.toList_append, List.takeWhile_append_of_pos (forall_ne_terminator hp)]

end Program

/-! ### Brackets and the seam -/

namespace Brackets

variable {xs : Array UInt8} {ip : Nat}

/-- A search that starts in balanced code does not leave it. -/
theorem closeOf?_append_left (hx : Balanced xs.toList)
    (hget : xs[ip]? = some Bracket.opening.byte) (ys : Array UInt8) :
    closeOf? (xs ++ ys) ip = closeOf? xs ip := by
  rw [← Array.getElem?_toList] at hget
  obtain ⟨j, hj⟩ := (hx.paired hget).exists_closing hget
  have hj' := hj.append_right ys.toList
  rw [← Array.toList_append] at hj'
  rw [closeOf?_of_partner hj, closeOf?_of_partner hj']

/-- A search does not look back. -/
theorem closeOf?_append_right (xs ys : Array UInt8) (ip : Nat) :
    closeOf? (xs ++ ys) (xs.size + ip) = (closeOf? ys ip).map (xs.size + ·) := by
  have hdrop : (xs ++ ys).toList.drop (xs.size + ip + 1) = ys.toList.drop (ip + 1) := by
    rw [Array.toList_append, Nat.add_assoc, ← Array.length_toList, List.drop_length_add_append]
  rcases opened_or_stray (ys.toList.drop (ip + 1)) with ⟨ps, ho⟩ | ⟨us, vs, hu, hrest⟩
  · rw [closeOf?_of_opened ho]
    rw [← hdrop] at ho
    rw [closeOf?_of_opened ho]
    rfl
  · rw [closeOf?_of_drop hu hrest]
    rw [← hdrop] at hrest
    rw [closeOf?_of_drop hu hrest]
    simp only [Option.map_some, Nat.add_assoc]

end Brackets

/-! ### In front of the seam -/

/-- An instruction uses the code for the search that a `[` makes, and for nothing else. -/
theorem Interpreter.perform_congr {code code' : Array UInt8} {found : Fetch}
    (h : found.byte = Bracket.opening.byte →
      Brackets.closeOf? code' found.ip = Brackets.closeOf? code found.ip) (host : Interpreter) :
    host.perform code' found = host.perform code found := by
  cases hb : Instruction.ofByte? found.byte with
  | none => simp only [perform, hb]
  | some k =>
    cases k with
    | right | left | increment | decrement | output | input => simp only [perform, hb]
    | bracket side =>
      cases side with
      | closing => simp only [perform, hb]
      | opening => simp only [perform, hb, openLoop, h (byte_of_ofByte?_bracket hb)]

variable {xs ys : Array UInt8} {c d : Config} {ts : List Turn}

/-- In front of the seam a step does what it does with nothing behind it. -/
theorem Config.step_append_left (hx : Balanced xs.toList) (hlt : c.ip < xs.size)
    (ys : Array UInt8) : c.step (xs ++ ys) = c.step xs := by
  have hget : (xs ++ ys)[c.ip]? = xs[c.ip]? := Array.getElem?_append_left hlt
  have hbyte : xs[c.ip]? = some xs[c.ip] := Array.getElem?_eq_getElem hlt
  have hperform : c.host.perform (xs ++ ys) (c.fetch xs[c.ip]) =
      c.host.perform xs (c.fetch xs[c.ip]) := by
    apply Interpreter.perform_congr
    intro hopening
    have hopen : xs[c.ip] = Bracket.opening.byte := hopening
    exact Brackets.closeOf?_append_left hx (hbyte.trans (congrArg some hopen)) ys
  by_cases hs : c.host.interrupt.Stops
  · simp only [Config.step, hget, hbyte, if_pos hs]
  · rw [step_of_perform (hget.trans hbyte) hs, step_of_perform hbyte hs, hperform]

/-- A step that is made, or fails, is made in the code. -/
theorem Config.lt_size_of_step (h : c.step xs ≠ .finished c) : c.ip < xs.size := by
  by_contra hle
  have hnone : xs[c.ip]? = none := Array.getElem?_eq_none (Nat.not_lt.mp hle)
  exact h (step_eq_finished_iff.mpr ⟨hnone, rfl⟩)

/-- What is reached in front of the seam is reached with anything behind it. -/
theorem Reaches.append_left (hx : Balanced xs.toList) (h : Reaches xs c ts d) (ys : Array UInt8) :
    Reaches (xs ++ ys) c ts d := by
  induction h with
  | refl => exact .refl _
  | step hs _ ih =>
    have hlt := Config.lt_size_of_step (by rw [hs]; nofun)
    rw [← Config.step_append_left hx hlt ys] at hs
    exact .step hs ih

/-! ### Behind the seam -/

/-- Positions behind the seam are greater by the length of what stands in front. -/
theorem renames_append (xs ys : Array UInt8) (ip : Nat) (loops : LoopStack) :
    Renames (xs.size + ·) ys (xs ++ ys) ip loops := by
  refine ⟨?_, rfl, fun _ => Brackets.closeOf?_append_right xs ys ip, fun _ _ => rfl,
    fun _ _ => rfl⟩
  rw [Array.getElem?_append_right (Nat.le_add_right ..), Nat.add_sub_cancel_left]

/-- The steps of a path, with positions greater by `n` and numbers greater by `k`. -/
def Turn.shift (n k : Nat) (ts : List Turn) : List Turn :=
  ts.map fun t => t.rename (n + ·) (k + t.step.number)

theorem Turn.flatMap_calls_shift (n k : Nat) (ts : List Turn) :
    (Turn.shift n k ts).flatMap (·.calls) = ts.flatMap (·.calls) :=
  List.flatMap_map ..

/-- A path behind the seam is one of the second code alone. -/
theorem Config.Renamed.reaches {k : Nat} {c' : Config} (h : Reaches ys c ts c')
    (hm : c.Renamed (xs.size + ·) d) (hk : d.count = k + c.count) :
    ∃ d', Reaches (xs ++ ys) d (Turn.shift xs.size k ts) d' ∧ c'.Renamed (xs.size + ·) d' := by
  induction h generalizing d with
  | refl => exact ⟨d, .refl d, hm⟩
  | @step c _ _ t _ hs _ ih =>
    obtain ⟨d₁, hd₁, hm₁⟩ := hm.advanced hs (renames_append xs ys _ _)
    -- both steps are counted, so the numbers stay `k` apart
    obtain ⟨-, -, -, hnumber, hcount⟩ := frame_of_step_advanced hs
    obtain ⟨-, -, -, -, hcount'⟩ := frame_of_step_advanced hd₁
    obtain ⟨d', hr, hm'⟩ := ih hm₁ (by rw [hcount', hcount, hk, Nat.add_assoc])
    rw [hk, ← hnumber] at hd₁
    exact ⟨d', .step hd₁ hr, hm'⟩

/-- Behind the seam execution ends where it ends in the second code alone. -/
theorem Config.Renamed.halts {halt : Halt} {last : Config} (h : c.Halts ys halt last)
    (hm : c.Renamed (xs.size + ·) d) :
    ∃ last', d.Halts (xs ++ ys) (halt.rename (xs.size + ·)) last' ∧
      last.host.Renamed (xs.size + ·) last'.host := by
  have hf := renames_append xs ys c.ip c.host.machine.loops
  cases halt with
  | completed => exact ⟨d, hm.finished h hf.byte⟩
  | failed e calls => exact hm.failed h hf

/-! ### Flushes that succeed -/

namespace Interpreter

/-- An instruction leaves an output on which every flush succeeds. -/
theorem Does.flushes {code : Array UInt8} {found : Fetch} {host host' : Interpreter}
    {action : Action} {next : Nat} {calls : List Call} {event? : Option LoopEvent}
    (h : Does code found host action next calls event? host')
    (hflush : host.output.flushes = []) : host'.output.flushes = [] := by
  have hafter : (Sink.flush host.output.flushes).flushes = [] := by
    rw [hflush]
    rfl
  cases h with
  | nothing _ | right _ | left _ | increment _ | decrement _ => exact hflush
  | wrote _ _ => exact hflush
  | read _ _ _ | readEnd _ _ _ => exact hafter
  | skipped _ _ _ | entered _ _ _ | repeated _ _ _ | exited _ _ _ => exact hflush

/-- On such an output, a flush changes nothing. -/
theorem afterFlush_of_flushes_nil {host : Interpreter} (h : host.output.flushes = []) :
    host.afterFlush = host := by
  obtain ⟨machine, input, ⟨writes, flushes⟩, eof, interrupt⟩ := host
  obtain rfl : flushes = [] := h
  rfl

end Interpreter

/-- A path leaves an output on which every flush succeeds. -/
theorem Reaches.flushes (h : Reaches xs c ts d) (hflush : c.host.output.flushes = []) :
    d.host.output.flushes = [] := by
  refine h.invariant (I := fun c => c.host.output.flushes = []) ?_ hflush
  intro c t d hs hc
  obtain ⟨b, host, -, -, -, hdoes, -, hhost⟩ := Config.step_eq_advanced_iff.mp hs
  rw [hhost]
  exact hdoes.flushes hc

/-! ### Runs -/

/-- `r` is what the runs `front` and, behind it, `back` are together, the second of them at
positions greater by `n`. The flush at the end of `front` is not made. -/
structure Run.Joins (r : Run) (n : Nat) (front back : Run) : Prop where
  /-- The outcome is the second one. -/
  outcome : r.outcome = back.outcome.mapError (.rename (n + ·))
  /-- The steps of the one, then those of the other. -/
  turns : r.turns.toList = front.turns.toList ++ Turn.shift n front.turns.size back.turns.toList
  /-- The stream calls of the one but for the last, then those of the other. -/
  calls : ∃ calls, front.calls = calls ++ [.flushed] ∧ r.calls = calls ++ back.calls
  /-- The bytes written by the one, then those written by the other. -/
  output : r.output = front.output ++ back.output
  /-- The interpreter that the second leaves. -/
  after : back.after.Renamed (n + ·) r.after

namespace Run

variable {r front back : Run} {n : Nat}

/-- The stream calls of a run that succeeds. -/
theorem calls_of_ok (hok : r.outcome = .ok ()) :
    r.calls = r.turns.toList.flatMap (·.calls) ++ [.flushed] := by
  obtain ⟨hcompleted, hclosing⟩ := Halt.outcome_eq_ok_iff.mp hok
  rw [calls, hcompleted, Sink.Flushed.call, hclosing]
  exact congrArg (· ++ _) (List.append_nil _)

/-- A run joins two others if it makes the steps of both and ends as the second does. -/
theorem Joins.of_parts (hok : front.outcome = .ok ()) (hlength : r.length = n + back.length)
    (hturns : r.turns.toList =
      front.turns.toList ++ Turn.shift n front.turns.size back.turns.toList)
    (hhalt : r.halt = back.halt.rename (n + ·)) (hclosing : r.closing = back.closing)
    (hafter : back.after.Renamed (n + ·) r.after) : r.Joins n front back := by
  have hfront := calls_of_ok hok
  have hstop : r.halt.calls = back.halt.calls := by
    rw [hhalt]
    cases back.halt <;> rfl
  have hcalls : r.calls = front.turns.toList.flatMap (·.calls) ++ back.calls := by
    rw [Run.calls, Run.calls, hturns, hstop, hclosing, List.flatMap_append, Turn.flatMap_calls_shift]
    simp only [List.append_assoc]
  refine ⟨?_, hturns, ⟨_, hfront, hcalls⟩, ?_, hafter⟩
  · rw [Run.outcome, hhalt, hlength, hclosing]
    exact Halt.outcome_rename ..
  · rw [Run.output, hcalls, Call.written_append, Run.output, hfront, Call.written_append]
    exact congrArg (· ++ _) (List.append_nil _).symm

end Run

namespace Interpreter

variable {p q pq : Program} {i : Interpreter} {fuel : Nat} {rp rq : Run}

/-- Where a run ends that executed all of the program, if every flush succeeds. -/
theorem exists_end (hflush : i.output.flushes = []) (h : i.run? fuel p = some rp)
    (hcompleted : rp.halt = .completed) :
    ∃ c, Reaches p.code i.start rp.turns.toList c ∧ c.ip = p.code.size ∧ rp.after = c.host ∧
      rp.closing.failure? = none := by
  obtain ⟨_, c, hr, -, hh, heq⟩ := run?_eq_some_iff.mp h
  rw [hcompleted] at hh
  obtain ⟨-, rfl⟩ := Config.step_eq_finished_iff.mp hh
  have hnil : c.host.output.flushes = [] := hr.flushes hflush
  refine ⟨c, hr, hh.ip_eq_size hr.tracks.ip_le, ?_, ?_⟩
  · rw [heq]
    exact afterFlush_of_flushes_nil hnil
  · rw [heq, hnil]
    rfl

/-- Where the first program was executed, the second is about to start. -/
theorem exists_seam (hp : Balanced p.code.toList) (hflush : i.output.flushes = [])
    (hidle : i.interrupt.connected = false) (h : i.run? fuel p = some rp)
    (hok : rp.outcome = .ok ()) :
    ∃ c, Reaches p.code i.start rp.turns.toList c ∧
      rp.after.start.Renamed (p.code.size + ·) c ∧ c.count = rp.turns.size := by
  obtain ⟨c, hr, hend, hafter, -⟩ := exists_end hflush h (Halt.outcome_eq_ok_iff.mp hok).1
  have hidle' : c.host.interrupt.connected = false := hr.connected_eq.trans hidle
  have hempty : c.host.machine.loops.opened = [] :=
    (hr.tracks.check_at_end hend).1.mp hp.check_eq_ok
  -- no loop is entered, so neither leaving all loops nor renaming them changes the stack
  have hclear : c.host.machine.loops = c.host.machine.loops.clear :=
    LoopStack.eq_of_opened_eq hempty rfl
  have hloops : c.host.machine.loops = c.host.machine.loops.clear.rename (p.code.size + ·) := by
    rw [LoopStack.rename_of_opened_nil _ (LoopStack.opened_clear _)]
    exact hclear
  have hcount : c.count = rp.turns.size := by
    rw [hr.count_eq_length, Array.length_toList]
  refine ⟨c, hr, ?_, hcount⟩
  rw [hafter]
  exact ⟨hend, ⟨rfl, hloops, rfl, rfl, rfl⟩, hidle', hidle'⟩

section

variable (hcode : pq.code = p.code ++ q.code) (hp : Balanced p.code.toList)

include hcode hp

/-- If the first program does not end, the two in one do not end. -/
theorem endless_of_front (h : ∀ fuel, i.run? fuel p = none) (fuel : Nat) :
    i.run? fuel pq = none := by
  refine forall_run?_eq_none_iff.mpr (fun n => ?_) fuel
  obtain ⟨ts, c, hr, hlong⟩ := forall_run?_eq_none_iff.mp h n
  rw [hcode]
  exact ⟨ts, c, hr.append_left hp q.code, hlong⟩

/-- Where an instruction of the first program fails, the two in one fail in the same way. -/
theorem exists_stopped (h : i.run? fuel p = some rp) {e : RunError} {calls : List Call}
    (hfailed : rp.halt = .failed e calls) :
    ∃ fuel' r, i.run? fuel' pq = some r ∧ r.turns = rp.turns ∧ r.halt = rp.halt ∧
      r.closing = rp.closing ∧ r.after = rp.after := by
  obtain ⟨c, last, hr, -, hh, heq⟩ := run?_eq_some_iff.mp h
  rw [hfailed] at hh
  have hstep : c.step p.code = .failed e calls last := hh
  have hlt : c.ip < p.code.size := Config.lt_size_of_step (by rw [hstep]; nofun)
  rw [← Config.step_append_left hp hlt q.code, ← hcode] at hstep
  have hpath := hr.append_left hp q.code
  rw [← hcode] at hpath
  have hhalts : c.Halts pq.code (.failed e calls) last := hstep
  refine ⟨_, _, run?_of_halts hpath hhalts, rfl, hfailed.symm, ?_, ?_⟩
  · rw [heq]
  · rw [heq]

variable (hflush : i.output.flushes = []) (hidle : i.interrupt.connected = false)

include hflush hidle

/-- A run of the second program, behind a run of the first, is a run of the two in one. -/
theorem exists_joins (h : i.run? fuel p = some rp) (hok : rp.outcome = .ok ()) {fuel' : Nat}
    (hq : rp.after.run? fuel' q = some rq) :
    ∃ fuel'' r, i.run? fuel'' pq = some r ∧ r.Joins p.code.size rp rq := by
  obtain ⟨c, hc, hseam, hcount⟩ := exists_seam hp hflush hidle h hok
  obtain ⟨cq, lastq, hrq, -, hhq, heq⟩ := run?_eq_some_iff.mp hq
  obtain ⟨d, hd, hmd⟩ := hseam.reaches hrq hcount
  obtain ⟨last, hlast, hmlast⟩ := hmd.halts hhq
  have hpath := (hc.append_left hp q.code).trans hd
  rw [← hcode] at hpath hlast
  refine ⟨_, _, run?_of_halts hpath hlast, .of_parts hok ?_ rfl rfl ?_ ?_⟩
  · show pq.code.size = p.code.size + rq.length
    rw [hcode, Array.size_append, heq]
  · rw [heq, ← hmlast.output]
  · rw [heq]
    exact hmlast.afterFlush

/-- If the second program does not end behind a run of the first, the two in one do not end. -/
theorem endless_of_back (h : i.run? fuel p = some rp) (hok : rp.outcome = .ok ())
    (hq : ∀ fuel', rp.after.run? fuel' q = none) (fuel' : Nat) : i.run? fuel' pq = none := by
  obtain ⟨c, hc, hseam, hcount⟩ := exists_seam hp hflush hidle h hok
  refine forall_run?_eq_none_iff.mpr (fun n => ?_) fuel'
  obtain ⟨ts, cq, hr, hlong⟩ := forall_run?_eq_none_iff.mp hq n
  obtain ⟨d, hd, -⟩ := hseam.reaches hr hcount
  rw [hcode]
  refine ⟨_, d, (hc.append_left hp q.code).trans hd, ?_⟩
  rw [List.length_append, Turn.shift, List.length_map]
  omega

end

end Interpreter

/-- **A program behind another.** Let `p` have no terminator and pass the check of its brackets, let
`q` be any program, and let no flush of the output fail and no switch be looked at. To run `p` with
`q` behind it is, from any interpreter and whatever becomes of reads and writes:

* if `p` succeeds, to run `p` and then `q` on the interpreter that `p` leaves, at positions that are
  greater by the length of `p`, without the flush in between; and not to end if `q` does not;
* if `p` fails, to run `p`;
* if `p` does not end, not to end. -/
theorem run_append {p q : Program} {i : Interpreter}
    (hsize : p.buffer.size + q.buffer.size ≤ Program.limit) (hnul : Program.terminator ∉ p.buffer)
    (hp : p.checkBrackets = .ok ()) (hflush : i.output.flushes = [])
    (hidle : i.interrupt.connected = false) :
    (∀ fuel rp, i.run? fuel p = some rp → rp.outcome = .ok () →
        (∀ fuel' rq, rp.after.run? fuel' q = some rq →
          ∃ fuel'' r, i.run? fuel'' (p.append q hsize) = some r ∧ r.Joins p.buffer.size rp rq) ∧
        ((∀ fuel', rp.after.run? fuel' q = none) →
          ∀ fuel', i.run? fuel' (p.append q hsize) = none)) ∧
      (∀ fuel rp e, i.run? fuel p = some rp → rp.outcome = .error e →
        ∃ fuel' r, i.run? fuel' (p.append q hsize) = some r ∧ r.outcome = .error e ∧
          r.turns = rp.turns ∧ r.calls = rp.calls ∧ r.after = rp.after) ∧
      ((∀ fuel, i.run? fuel p = none) → ∀ fuel, i.run? fuel (p.append q hsize) = none) := by
  have hcode := Program.code_append hnul hsize
  have hbalanced := Brackets.check_eq_ok_iff.mp (Program.checkBrackets_eq_ok_iff.mp hp)
  rw [← Program.code_eq_buffer hnul]
  refine ⟨?_, ?_, Interpreter.endless_of_front hcode hbalanced⟩
  · intro fuel rp h hok
    exact ⟨fun _ _ hq => Interpreter.exists_joins hcode hbalanced hflush hidle h hok hq,
      Interpreter.endless_of_back hcode hbalanced hflush hidle h hok⟩
  · intro fuel rp e h he
    rcases Halt.outcome_eq_error_iff.mp he with ⟨calls, hfailed⟩ | ⟨hcompleted, cause, hcause, -⟩
    · obtain ⟨fuel', r, hr, hturns, hhalt, hclosing, hafter⟩ :=
        Interpreter.exists_stopped hcode hbalanced h hfailed
      refine ⟨fuel', r, hr, ?_, hturns, ?_, hafter⟩
      · exact Halt.outcome_eq_error_iff.mpr (.inl ⟨calls, hhalt.trans hfailed⟩)
      · rw [Run.calls, hturns, hhalt, hclosing]
        rfl
    · -- all of `p` was executed, and the flush behind it does not fail
      obtain ⟨c, -, -, -, hnone⟩ := Interpreter.exists_end hflush h hcompleted
      rw [hnone] at hcause
      cases hcause

/-- The program `,` in front of `[-]]`, on the byte 1: the stray `]` that `[-]]` alone meets at 3
is met at 4. -/
theorem run_append_stray_closing :
    ∃ (p q : Program) (hsize : p.buffer.size + q.buffer.size ≤ Program.limit) (i : Interpreter)
      (rp rq r : Run) (fuel : Nat),
      i.run? 2 p = some rp ∧ rp.outcome = .ok () ∧ rp.after.run? 4 q = some rq ∧
        rq.outcome = .error (.unmatched ⟨3, .closing⟩) ∧
        i.run? fuel (p.append q hsize) = some r ∧ r.Joins 1 rp rq ∧
        r.outcome = .error (.unmatched ⟨4, .closing⟩) := by
  let p : Program := ⟨#[44], by decide⟩
  let q : Program := ⟨#[91, 45, 93, 93], by decide⟩
  let i : Interpreter := .ofMachine ⟨.ofLength 1, .ofCapacity 1⟩ (.ofBytes [1]) .reliable
  have hrun : ((i.run? 2 p).bind fun rp => (rp.after.run? 4 q).map fun rq =>
      (rp.outcome, rq.outcome)) = some (.ok (), .error (.unmatched ⟨3, .closing⟩)) := by
    decide +kernel
  obtain ⟨rp, hrp, hrun⟩ := Option.bind_eq_some_iff.mp hrun
  obtain ⟨rq, hrq, hend⟩ := Option.map_eq_some_iff.mp hrun
  obtain ⟨hok, he⟩ := Prod.mk.inj hend
  have hsize : p.buffer.size + q.buffer.size ≤ Program.limit := by decide
  obtain ⟨fuel, r, hr, hjoins⟩ :=
    ((run_append hsize (by decide +kernel) (by decide +kernel) rfl rfl).1 2 rp hrp hok).1 4 rq hrq
  refine ⟨p, q, hsize, i, rp, rq, r, fuel, hrp, hok, hrq, he, hr, hjoins, ?_⟩
  rw [hjoins.outcome, he]
  rfl

end Brainfuck
