import Brainfuck.Proofs.Interpreter.Ending
import Brainfuck.Proofs.Stream.Fork

/-!
# Input that is not read yet

What a run does before it asks for more input cannot depend on what that input will be. Take two
inputs that deliver the same first and part behind it. As long as the `,` of a run are settled by
what is the same, the run on the one input is the run on the other: it makes the same steps and the
same stream calls and has the same machine all along the way, and only what is still to be read
differs (`unread_input_has_no_effect`).

Only a `,` looks at the input. So an instruction other than `,` does the same on any input, and a
`,` that is settled before the inputs part does the same on both (`Interpreter.Does.withInput`).
The number of replies to come goes down by one with each `,`, and that carries over to steps, paths
and runs.
-/

namespace Brainfuck

/-- The same interpreter with another input. -/
def Interpreter.withInput (s : Source) (i : Interpreter) : Interpreter := { i with input := s }

/-- The same configuration with another input. -/
def Config.withInput (s : Source) (c : Config) : Config := { c with host := c.host.withInput s }

/-- The same run, but for the input that is left. -/
def Run.withInput (s : Source) (r : Run) : Run := { r with after := r.after.withInput s }

/-- How many `,` were found: one or none. -/
def Fetch.inputs (found : Fetch) : Nat :=
  if Instruction.ofByte? found.byte = some .input then 1 else 0

/-- How many `,` were completed. -/
def Turn.inputs : List Turn → Nat
  | [] => 0
  | t :: ts => t.step.inputs + inputs ts

/-- How many `,` failed at the end of an execution: the instruction at which a stream failed, if it
is one. -/
def Halt.inputs (code : Array UInt8) : Halt → Nat
  | .failed (.stream ip _) _ => if code[ip]? = some Instruction.input.byte then 1 else 0
  | _ => 0

/-- How many `,` a run of `code` tried: those it completed, and the one that failed, if one did. -/
def Run.inputs (code : Array UInt8) (r : Run) : Nat :=
  Turn.inputs r.turns.toList + r.halt.inputs code

@[simp] theorem Turn.inputs_nil : inputs [] = 0 := rfl

@[simp] theorem Turn.inputs_cons (t : Turn) (ts : List Turn) :
    inputs (t :: ts) = t.step.inputs + inputs ts := rfl

theorem Fetch.inputs_of_input {found : Fetch} (h : Instruction.ofByte? found.byte = some .input) :
    found.inputs = 1 :=
  if_pos h

theorem Fetch.inputs_of_ne {found : Fetch} (h : Instruction.ofByte? found.byte ≠ some .input) :
    found.inputs = 0 :=
  if_neg h

/-! ### One instruction -/

namespace Interpreter

variable {code : Array UInt8} {found : Fetch} {host host' : Interpreter} {calls : List Call}
  {xs ys : List Source.Arrival} {n : Nat} {s : Source}

/-- The calls of a `,` that is settled before the inputs part. -/
theorem readCalls_withInput (h : s.pull.calls = host.input.pull.calls) :
    (host.withInput s).readCalls = host.readCalls :=
  congrArg ((Sink.flush host.output.flushes).call :: ·) h

/-- An instruction that completes does the same on another input, if it is no `,`, or if it is
settled before the inputs part. -/
theorem Does.withInput {action : Action} {next : Nat} {event? : Option LoopEvent}
    (h : Does code found host action next calls event? host')
    (hs : Source.Fork xs ys n host.input s) (hn : found.inputs ≤ n) :
    ∃ s', Does code found (host.withInput s) action next calls event? (host'.withInput s') ∧
      Source.Fork xs ys (n - found.inputs) host'.input s' := by
  have same (hne : Instruction.ofByte? found.byte ≠ some .input) :
      Source.Fork xs ys (n - found.inputs) host.input s := by
    rw [Fetch.inputs_of_ne hne]
    exact hs
  cases h with
  | nothing hb => exact ⟨s, .nothing hb, same (by simp [hb])⟩
  | right hb => exact ⟨s, .right hb, same (by simp [hb])⟩
  | left hb => exact ⟨s, .left hb, same (by simp [hb])⟩
  | increment hb => exact ⟨s, .increment hb, same (by simp [hb])⟩
  | decrement hb => exact ⟨s, .decrement hb, same (by simp [hb])⟩
  | wrote hb hput => exact ⟨s, .wrote hb hput, same (by simp [hb])⟩
  | @read b hb hflush hpull =>
    rw [Fetch.inputs_of_input hb] at hn ⊢
    obtain ⟨hcalls, hresult, hrest⟩ := hs.pull hn
    rw [← readCalls_withInput hcalls]
    exact ⟨s.pull.rest, .read hb hflush (hresult.trans hpull), hrest⟩
  | readEnd hb hflush hpull =>
    rw [Fetch.inputs_of_input hb] at hn ⊢
    obtain ⟨hcalls, hresult, hrest⟩ := hs.pull hn
    rw [← readCalls_withInput hcalls]
    exact ⟨s.pull.rest, .readEnd hb hflush (hresult.trans hpull), hrest⟩
  | skipped hb hcell hclose =>
    exact ⟨s, .skipped hb hcell hclose, same (by simp [ofByte?_bracket hb])⟩
  | entered hb hcell hpush =>
    exact ⟨s, .entered hb hcell hpush, same (by simp [ofByte?_bracket hb])⟩
  | repeated hb hcell htop =>
    exact ⟨s, .repeated hb hcell htop, same (by simp [ofByte?_bracket hb])⟩
  | exited hb hcell htop =>
    exact ⟨s, .exited hb hcell htop, same (by simp [ofByte?_bracket hb])⟩

/-- A `,` is counted where it fails. -/
theorem Fails.inputs_eq {e : RunError} (h : Fails code found host e calls host')
    (hget : code[found.ip]? = some found.byte) :
    (Halt.failed e calls).inputs code = found.inputs := by
  cases h with
  | write hb _ =>
    rw [Fetch.inputs_of_ne (by simp [hb])]
    rw [Instruction.ofByte?_eq_some_iff.mp hb] at hget
    exact if_neg (by rw [hget]; decide)
  | flush hb _ | read hb _ _ =>
    rw [Fetch.inputs_of_input hb]
    rw [Instruction.ofByte?_eq_some_iff.mp hb] at hget
    exact if_pos hget
  | opening hb _ _ | overflow hb _ _ | closing hb _ =>
    simp [Halt.inputs, Fetch.inputs, ofByte?_bracket hb]

/-- An instruction that fails does so on another input, if it is no `,`, or if it is settled before
the inputs part. -/
theorem Fails.withInput {e : RunError} (h : Fails code found host e calls host')
    (hs : Source.Fork xs ys n host.input s) (hn : found.inputs ≤ n) :
    ∃ m s', Fails code found (host.withInput s) e calls (host'.withInput s') ∧
      Source.Fork xs ys m host'.input s' := by
  cases h with
  | write hb hput => exact ⟨n, s, .write hb hput, hs⟩
  | flush hb hflush => exact ⟨n, s, .flush hb hflush, hs⟩
  | read hb hflush hpull =>
    rw [Fetch.inputs_of_input hb] at hn
    obtain ⟨hcalls, hresult, hrest⟩ := hs.pull hn
    rw [← readCalls_withInput hcalls]
    exact ⟨n - 1, s.pull.rest, .read hb hflush (hresult.trans hpull), hrest⟩
  | opening hb hcell hclose => exact ⟨n, s, .opening hb hcell hclose, hs⟩
  | overflow hb hcell hpush => exact ⟨n, s, .overflow hb hcell hpush, hs⟩
  | closing hb htop => exact ⟨n, s, .closing hb htop, hs⟩

end Interpreter

/-! ### Steps, paths and runs -/

section

variable {code : Array UInt8} {c d last : Config} {ts : List Turn} {xs ys : List Source.Arrival}
  {n : Nat} {s : Source}

theorem Config.step_withInput {t : Turn} (h : c.step code = .advanced t d)
    (hs : Source.Fork xs ys n c.host.input s) (hn : t.step.inputs ≤ n) :
    ∃ s', (c.withInput s).step code = .advanced t (d.withInput s') ∧
      Source.Fork xs ys (n - t.step.inputs) d.host.input s' := by
  obtain ⟨b, host, hget, hgo, hfetch, hdoes, hcount, hhost⟩ := step_eq_advanced_iff.mp h
  rw [hfetch] at hn ⊢
  obtain ⟨s', hdoes', hs'⟩ := hdoes.withInput hs hn
  refine ⟨s', step_eq_advanced_iff.mpr ⟨b, _, hget, hgo, hfetch, hdoes', hcount, ?_⟩, ?_⟩
  · show d.host.withInput s' = _
    rw [hhost]
    rfl
  · rw [hhost]
    exact hs'

theorem Config.Halts.withInput {halt : Halt} (h : c.Halts code halt last)
    (hs : Source.Fork xs ys n c.host.input s) (hn : halt.inputs code ≤ n) :
    ∃ m s', (c.withInput s).Halts code halt (last.withInput s') ∧
      Source.Fork xs ys m last.host.input s' := by
  cases halt with
  | completed =>
    obtain ⟨hnone, rfl⟩ := step_eq_finished_iff.mp h
    exact ⟨n, s, step_eq_finished_iff.mpr ⟨hnone, rfl⟩, hs⟩
  | failed e calls =>
    obtain ⟨b, hget, ⟨hstop, rfl, rfl, rfl⟩ | ⟨hgo, host, hfails, rfl⟩⟩ := step_eq_failed_iff.mp h
    · exact ⟨n, s, step_eq_failed_iff.mpr ⟨b, hget, .inl ⟨hstop, rfl, rfl, rfl⟩⟩, hs⟩
    · rw [hfails.inputs_eq hget] at hn
      obtain ⟨m, s', hfails', hs'⟩ := hfails.withInput hs hn
      exact ⟨m, s', step_eq_failed_iff.mpr ⟨b, hget, .inr ⟨hgo, _, hfails', rfl⟩⟩, hs'⟩

/-- A path is the same on another input, as long as its `,` are settled before the inputs part. -/
theorem Reaches.withInput (h : Reaches code c ts d) (hs : Source.Fork xs ys n c.host.input s)
    (hn : Turn.inputs ts ≤ n) :
    ∃ s', Reaches code (c.withInput s) ts (d.withInput s') ∧
      Source.Fork xs ys (n - Turn.inputs ts) d.host.input s' := by
  induction h generalizing n s with
  | refl => exact ⟨s, .refl _, hs⟩
  | step hstep _ ih =>
    rw [Turn.inputs_cons] at hn ⊢
    obtain ⟨s₁, hstep', hs₁⟩ := Config.step_withInput hstep hs (by omega)
    obtain ⟨s', hr, hs'⟩ := ih hs₁ (by omega)
    rw [Nat.sub_sub] at hs'
    exact ⟨s', .step hstep' hr, hs'⟩

/-- A run is the same on another input, if the `,` it tries are settled before the inputs part. -/
theorem Interpreter.run?_withInput {p : Program} {i : Interpreter} {fuel : Nat} {r : Run}
    (h : i.run? fuel p = some r) (hs : Source.Fork xs ys n i.input s) (hn : r.inputs p.code ≤ n) :
    ∃ m s', (i.withInput s).run? fuel p = some (r.withInput s') ∧
      Source.Fork xs ys m r.after.input s' := by
  obtain ⟨c, last, hr, hlt, hh, heq⟩ := run?_eq_some_iff.mp h
  unfold Run.inputs at hn
  obtain ⟨s₁, hr', hs₁⟩ := hr.withInput (c := i.start) hs (by omega)
  obtain ⟨m, s', hh', hs'⟩ := hh.withInput hs₁ (by omega)
  refine ⟨m, s', run?_eq_some_iff.mpr ⟨_, _, hr', hlt, hh', ?_⟩, ?_⟩
  · rw [heq]
    rfl
  · rw [heq]
    exact hs'

end

/-- **Input that is not read yet has no effect.** For every program and every interpreter, take two
inputs that deliver `front` first, and behind it `xs` and `ys`: whatever these are, bytes, failures,
or nothing but the end of the input.

* A path with no more `,` than `front` has replies, which for bytes is their number, is a path on
  both inputs. So all the way to the first `,` behind `front`, the two runs make the same steps and
  the same stream calls, and have the same machine.
* A run that tries no more `,` than that is the same on both inputs: its outcome, its steps, what it
  writes and the machine it leaves.
* A run that does not end, and that never completes more `,` than that, does not end on either. -/
theorem unread_input_has_no_effect {i : Interpreter} {s : Source}
    {front xs ys : List Source.Arrival} (hi : i.input.arrivals = front ++ xs)
    (hs : s.arrivals = front ++ ys) (p : Program) :
    (∀ ts c, Reaches p.code i.start ts c → Turn.inputs ts ≤ Source.replies front →
        ∃ s', Reaches p.code (i.withInput s).start ts (c.withInput s') ∧
          Source.Fork xs ys (Source.replies front - Turn.inputs ts) c.host.input s') ∧
      (∀ fuel r, i.run? fuel p = some r → r.inputs p.code ≤ Source.replies front →
        ∃ m s', (i.withInput s).run? fuel p = some (r.withInput s') ∧
          Source.Fork xs ys m r.after.input s') ∧
      ((∀ fuel, i.run? fuel p = none) →
        (∀ ts c, Reaches p.code i.start ts c → Turn.inputs ts ≤ Source.replies front) →
          ∀ fuel, (i.withInput s).run? fuel p = none) := by
  have hfork : Source.Fork xs ys (Source.replies front) i.input s := ⟨front, hi, hs, rfl⟩
  refine ⟨fun ts c hr hn => hr.withInput (c := i.start) hfork hn,
    fun fuel r hr hn => Interpreter.run?_withInput hr hfork hn, fun hnone hn fuel => ?_⟩
  obtain ⟨ts, c, hr, hlength⟩ := Interpreter.run?_eq_none_iff.mp (hnone fuel)
  obtain ⟨s', hr', -⟩ := hr.withInput (c := i.start) hfork (hn ts c hr)
  exact Interpreter.run?_eq_none_iff.mpr ⟨ts, _, hr', hlength⟩

/-- The program `,..` on the inputs 5, 7 and 5, where the second write takes nothing: both runs
write the 5 and fail at the same place. The 7 is left. -/
theorem unread_input_has_no_effect_second_write :
    ∃ (p : Program) (i : Interpreter) (s s' : Source) (r : Run),
      i.input.arrivals = [.byte 5] ++ [.byte 7] ∧ s.arrivals = [.byte 5] ++ [] ∧
      i.run? 3 p = some r ∧ r.inputs p.code ≤ Source.replies [.byte 5] ∧
      (i.withInput s).run? 3 p = some (r.withInput s') ∧
      r.outcome = .error (.stream 2 .wroteNothing) ∧ r.output = [5] ∧
      r.after.input.arrivals = [.byte 7] := by
  let p : Program := ⟨#[44, 46, 46], by decide⟩
  let i : Interpreter :=
    .ofMachine ⟨.ofLength 1, .ofCapacity 1⟩ (.ofBytes [5, 7]) ⟨[(1, .nothing)], []⟩
  let s : Source := .ofBytes [5]
  have hi : i.input.arrivals = [.byte 5] ++ [.byte 7] := rfl
  have hs : s.arrivals = [.byte 5] ++ [] := rfl
  have hrun : (i.run? 3 p).map
      (fun r => (r.inputs p.code, r.outcome, r.output, r.after.input.arrivals)) =
      some (1, .error (.stream 2 .wroteNothing), [5], [.byte 7]) := by
    decide +kernel
  obtain ⟨r, hr, hfacts⟩ := Option.map_eq_some_iff.mp hrun
  obtain ⟨hinputs, houtcome, houtput, hleft⟩ : r.inputs p.code = 1 ∧
      r.outcome = .error (.stream 2 .wroteNothing) ∧ r.output = [5] ∧
      r.after.input.arrivals = [.byte 7] := by
    simpa using hfacts
  have hn : r.inputs p.code ≤ Source.replies [.byte 5] := Nat.le_of_eq hinputs
  obtain ⟨-, s', hsame, -⟩ := (unread_input_has_no_effect hi hs p).2.1 3 r hr hn
  exact ⟨p, i, s, s', r, hi, hs, hr, hn, hsame, houtcome, houtput, hleft⟩

end Brainfuck
