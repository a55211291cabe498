import Brainfuck.Proofs.Interpreter.Ending

/-!
# Renaming positions

A program has no names: its loops know each other by their positions. So code that stands
elsewhere, or with other bytes in between, does the same with other positions. A function `f`
takes the positions of the one code to those of the other, and everything that holds positions is
renamed along it: the loop stack, what a step did, what it logged, the error it failed with.

An instruction that both codes have does the same in both, up to that renaming
(`Interpreter.Does.renamed`, `Interpreter.Fails.renamed`), provided that `f` respects the next
position and the partners of brackets where the instruction stands (`Renames`). So, while nothing
looks at a switch, does an attempt at a step (`Config.Renamed.advanced`, `Config.Renamed.failed`,
`Config.Renamed.finished`).
-/

namespace Brainfuck

/-! ### What holds positions -/

/-- The same loops, at their new positions. -/
def LoopStack.rename (f : Nat → Nat) (s : LoopStack) : LoopStack :=
  { s with entries := s.entries.map f }

/-- The same action, with jumps to new positions. -/
def Action.rename (f : Nat → Nat) : Action → Action
  | .skipped close => .skipped (f close)
  | .repeated start => .repeated (f start)
  | action => action

/-- The same event, at its new position. -/
def LoopEvent.rename (f : Nat → Nat) : LoopEvent → LoopEvent
  | .entered ip depth => .entered (f ip) depth
  | .exited ip start depth => .exited (f ip) (f start) depth

/-- The same error, at its new position. -/
def RunError.rename (f : Nat → Nat) : RunError → RunError
  | .stackOverflow ip capacity => .stackOverflow (f ip) capacity
  | .unmatched u => .unmatched ⟨f u.position, u.bracket⟩
  | .stream ip cause => .stream (f ip) cause
  | .interrupted ip => .interrupted (f ip)

/-- The same end of an execution, with its error at its new position. -/
def Halt.rename (f : Nat → Nat) : Halt → Halt
  | .completed => .completed
  | .failed e calls => .failed (e.rename f) calls

/-- The same instruction found at its new position, in a step with another number. -/
def Fetch.rename (f : Nat → Nat) (number : Nat) (found : Fetch) : Fetch :=
  { found with number := number, ip := f found.ip }

/-- The same step at its new position, with another number. -/
def Turn.rename (f : Nat → Nat) (number : Nat) (t : Turn) : Turn :=
  ⟨⟨t.step.toFetch.rename f number, t.step.action.rename f⟩, t.calls, t.event?.map (.rename f)⟩

namespace LoopStack

variable (f : Nat → Nat) (s : LoopStack)

@[simp] theorem depth_rename : (s.rename f).depth = s.depth := Array.size_map

@[simp] theorem capacity_rename : (s.rename f).capacity = s.capacity := rfl

@[simp] theorem top?_rename : (s.rename f).top? = s.top?.map f := by
  simp [rename, top?]

@[simp] theorem pop_rename : (s.rename f).pop = s.pop.rename f := by
  simp [rename, pop]

@[simp] theorem push?_rename (p : Nat) : (s.rename f).push? (f p) = (s.push? p).map (rename f) := by
  unfold push?
  rw [depth_rename, capacity_rename]
  split
  · rfl
  · simp [rename]

/-- With no loop entered, there is nothing to rename. -/
theorem rename_of_opened_nil {s : LoopStack} (h : s.opened = []) : s.rename f = s := by
  apply eq_of_opened_eq
  · simp [opened, rename] at h ⊢
    simp [h]
  · rfl

end LoopStack

/-! ### One instruction -/

/-- The two codes have the same instruction at `ip` and at `f ip`, and `f` respects where it may
lead: to the next position, or behind a bracket that it jumps to. -/
structure Renames (f : Nat → Nat) (code code' : Array UInt8) (ip : Nat) (loops : LoopStack) :
    Prop where
  /-- The instruction. -/
  byte : code'[f ip]? = code[ip]?
  /-- The next position. -/
  next : f (ip + 1) = f ip + 1
  /-- A search for a closing bracket finds the same one. -/
  closeOf? : code[ip]? = some Bracket.opening.byte →
    Brackets.closeOf? code' (f ip) = (Brackets.closeOf? code ip).map f
  /-- The position behind that bracket. -/
  skipped : ∀ close, Brackets.closeOf? code ip = some close → f (close + 1) = f close + 1
  /-- The position behind the `[` of the innermost loop. -/
  repeated : ∀ start, loops.top? = some start → f (start + 1) = f start + 1

namespace Interpreter

/-- Two interpreters that differ in the positions of the loops entered, and maybe in the switch. -/
structure Renamed (f : Nat → Nat) (host mirror : Interpreter) : Prop where
  /-- The tape. -/
  tape : mirror.machine.tape = host.machine.tape
  /-- The loop stack. -/
  loops : mirror.machine.loops = host.machine.loops.rename f
  /-- The input. -/
  input : mirror.input = host.input
  /-- The output. -/
  output : mirror.output = host.output
  /-- The policy for the end of the input. -/
  eof : mirror.eof = host.eof

namespace Renamed

variable {f : Nat → Nat} {host mirror : Interpreter}

theorem mapTape (h : host.Renamed f mirror) (g : Tape → Tape) :
    (host.mapTape g).Renamed f (mirror.mapTape g) :=
  ⟨congrArg g h.tape, h.loops, h.input, h.output, h.eof⟩

theorem afterFlush (h : host.Renamed f mirror) : host.afterFlush.Renamed f mirror.afterFlush := by
  refine ⟨h.tape, h.loops, h.input, ?_, h.eof⟩
  rw [Interpreter.afterFlush, h.output]
  rfl

theorem afterPull (h : host.Renamed f mirror) : host.afterPull.Renamed f mirror.afterPull := by
  obtain ⟨htape, hloops, -, houtput, heof⟩ := h.afterFlush
  exact ⟨htape, hloops, congrArg (·.pull.rest) h.input, houtput, heof⟩

theorem afterPut (h : host.Renamed f mirror) (b : UInt8) :
    (host.afterPut b).Renamed f (mirror.afterPut b) := by
  refine ⟨h.tape, h.loops, h.input, ?_, h.eof⟩
  rw [Interpreter.afterPut, h.output]
  rfl

theorem readCalls (h : host.Renamed f mirror) : mirror.readCalls = host.readCalls := by
  rw [Interpreter.readCalls, h.output, h.input]
  rfl

end Renamed

variable {f : Nat → Nat} {code code' : Array UInt8} {found : Fetch}
  {host host' mirror : Interpreter} {calls : List Call}

/-- **What an instruction does, it does at its new position.** -/
theorem Does.renamed {action : Action} {next : Nat} {event? : Option LoopEvent}
    (h : Does code found host action next calls event? host') (hm : host.Renamed f mirror)
    (hget : code[found.ip]? = some found.byte)
    (hf : Renames f code code' found.ip host.machine.loops) (number : Nat) :
    ∃ mirror', Does code' (found.rename f number) mirror (action.rename f) (f next) calls
      (event?.map (.rename f)) mirror' ∧ host'.Renamed f mirror' := by
  have htape : host.machine.tape = mirror.machine.tape := hm.tape.symm
  cases h with
  | nothing hb =>
    rw [hf.next]
    exact ⟨_, .nothing hb, hm⟩
  | right hb =>
    rw [hf.next, htape]
    exact ⟨_, .right hb, hm.mapTape .moveRight⟩
  | left hb =>
    rw [hf.next, htape]
    exact ⟨_, .left hb, hm.mapTape .moveLeft⟩
  | increment hb =>
    rw [hf.next, htape]
    exact ⟨_, .increment hb, hm.mapTape .increment⟩
  | decrement hb =>
    rw [hf.next, htape]
    exact ⟨_, .decrement hb, hm.mapTape .decrement⟩
  | wrote hb hput =>
    rw [← hm.output] at hput ⊢
    rw [hf.next]
    exact ⟨_, .wrote hb hput, hm.afterPut found.cell⟩
  | read hb hflush hpull =>
    rw [← hm.output] at hflush
    rw [← hm.input] at hpull
    rw [hf.next, ← hm.readCalls]
    exact ⟨_, .read hb hflush hpull, hm.afterPull.mapTape (.write _)⟩
  | readEnd hb hflush hpull =>
    rw [← hm.output] at hflush
    rw [← hm.input] at hpull
    rw [hf.next, ← hm.readCalls, ← hm.eof]
    exact ⟨_, .readEnd hb hflush hpull, hm.afterPull.mapTape mirror.eof.onEnd⟩
  | @skipped close hb hcell hclose =>
    have hclose' := hf.closeOf? (hb ▸ hget)
    rw [hclose] at hclose'
    rw [hf.skipped close hclose]
    exact ⟨_, .skipped hb hcell hclose', hm⟩
  | @entered loops hb hcell hpush =>
    have hpush' : mirror.machine.loops.push? (f found.ip) = some (loops.rename f) := by
      rw [hm.loops, LoopStack.push?_rename, hpush]
      rfl
    have hdoes : Does code' (found.rename f number) mirror (.entered (loops.rename f).depth)
        (f found.ip + 1) [] (some (.entered (f found.ip) (loops.rename f).depth))
        (mirror.mapLoops fun _ => loops.rename f) := .entered hb hcell hpush'
    rw [LoopStack.depth_rename] at hdoes
    rw [hf.next]
    exact ⟨_, hdoes, hm.tape, rfl, hm.input, hm.output, hm.eof⟩
  | @repeated start hb hcell htop =>
    have htop' : mirror.machine.loops.top? = some (f start) := by
      rw [hm.loops, LoopStack.top?_rename, htop]
      rfl
    rw [hf.repeated start htop]
    exact ⟨_, .repeated hb hcell htop', hm⟩
  | @exited start hb hcell htop =>
    have htop' : mirror.machine.loops.top? = some (f start) := by
      rw [hm.loops, LoopStack.top?_rename, htop]
      rfl
    have hdepth : mirror.machine.loops.depth = host.machine.loops.depth := by
      rw [hm.loops, LoopStack.depth_rename]
    rw [hf.next, ← hdepth]
    refine ⟨_, .exited hb hcell htop', hm.tape, ?_, hm.input, hm.output, hm.eof⟩
    show mirror.machine.loops.pop = host.machine.loops.pop.rename f
    rw [hm.loops, LoopStack.pop_rename]

/-- **Where an instruction fails, it fails at its new position.** -/
theorem Fails.renamed {e : RunError} (h : Fails code found host e calls host')
    (hm : host.Renamed f mirror) (hget : code[found.ip]? = some found.byte)
    (hf : Renames f code code' found.ip host.machine.loops) (number : Nat) :
    ∃ mirror', Fails code' (found.rename f number) mirror (e.rename f) calls mirror' ∧
      host'.Renamed f mirror' := by
  cases h with
  | write hb hput =>
    rw [← hm.output] at hput ⊢
    exact ⟨_, .write hb hput, hm.afterPut found.cell⟩
  | flush hb hflush =>
    rw [← hm.output] at hflush ⊢
    exact ⟨_, .flush hb hflush, hm.afterFlush⟩
  | read hb hflush hpull =>
    rw [← hm.output] at hflush
    rw [← hm.input] at hpull
    rw [← hm.readCalls]
    exact ⟨_, .read hb hflush hpull, hm.afterPull⟩
  | opening hb hcell hclose =>
    have hclose' := hf.closeOf? (hb ▸ hget)
    rw [hclose] at hclose'
    exact ⟨_, .opening hb hcell hclose', hm⟩
  | overflow hb hcell hpush =>
    have hpush' : mirror.machine.loops.push? (f found.ip) = none := by
      rw [hm.loops, LoopStack.push?_rename, hpush]
      rfl
    have hcapacity : host.machine.loops.capacity = mirror.machine.loops.capacity := by
      rw [hm.loops, LoopStack.capacity_rename]
    rw [hcapacity]
    exact ⟨_, .overflow hb hcell hpush', hm⟩
  | closing hb htop =>
    have htop' : mirror.machine.loops.top? = none := by
      rw [hm.loops, LoopStack.top?_rename, htop]
      rfl
    exact ⟨_, .closing hb htop', hm⟩

end Interpreter

/-! ### One step -/

namespace Config

/-- Two configurations in which the same is next, at positions that `f` takes to each other, and
in which nothing looks at a switch. -/
structure Renamed (f : Nat → Nat) (c d : Config) : Prop where
  /-- The position. -/
  ip : d.ip = f c.ip
  /-- The interpreters. -/
  host : c.host.Renamed f d.host
  /-- The first does not look at its switch. -/
  idle : c.host.interrupt.connected = false
  /-- The second does not look at its switch. -/
  idle' : d.host.interrupt.connected = false

namespace Renamed

variable {f : Nat → Nat} {code code' : Array UInt8} {c d c' : Config}

theorem fetch_eq (hm : c.Renamed f d) (b : UInt8) :
    d.fetch b = (c.fetch b).rename f d.count := by
  rw [fetch, fetch, hm.ip, hm.host.tape]
  rfl

/-- **A step that completes, completes at its new position.** -/
theorem advanced {t : Turn} (hm : c.Renamed f d) (h : c.step code = .advanced t c')
    (hf : Renames f code code' c.ip c.host.machine.loops) :
    ∃ d', d.step code' = .advanced (t.rename f d.count) d' ∧ c'.Renamed f d' := by
  obtain ⟨b, host, hget, -, hfetch, hdoes, -, hhost⟩ := step_eq_advanced_iff.mp h
  obtain ⟨mirror, hdoes', hmirror⟩ := hdoes.renamed hm.host hget hf d.count
  rw [← hm.fetch_eq] at hdoes'
  have hget' : code'[d.ip]? = some b := by rw [hm.ip, hf.byte, hget]
  have hfetch' : (t.rename f d.count).step.toFetch = d.fetch b := by
    rw [hm.fetch_eq, ← hfetch]
    rfl
  have hstep : d.step code' = .advanced (t.rename f d.count)
      ⟨f c'.ip, d.count + 1, { mirror with interrupt := mirror.interrupt.observe d.count }⟩ :=
    step_eq_advanced_iff.mpr
      ⟨b, mirror, hget', Interrupt.not_stops hm.idle', hfetch', hdoes', rfl, rfl⟩
  refine ⟨_, hstep, rfl, ?_, (connected_of_step_advanced h).trans hm.idle,
    (connected_of_step_advanced hstep).trans hm.idle'⟩
  rw [hhost]
  exact ⟨hmirror.tape, hmirror.loops, hmirror.input, hmirror.output, hmirror.eof⟩

/-- **A step that fails, fails at its new position.** -/
theorem failed {e : RunError} {calls : List Call} (hm : c.Renamed f d)
    (h : c.step code = .failed e calls c')
    (hf : Renames f code code' c.ip c.host.machine.loops) :
    ∃ d', d.step code' = .failed (e.rename f) calls d' ∧ c'.host.Renamed f d'.host := by
  obtain ⟨b, hget, ⟨hs, -⟩ | ⟨-, host, hfails, rfl⟩⟩ := step_eq_failed_iff.mp h
  · exact absurd hs (Interrupt.not_stops hm.idle)
  · obtain ⟨mirror, hfails', hmirror⟩ := hfails.renamed hm.host hget hf d.count
    rw [← hm.fetch_eq] at hfails'
    have hget' : code'[d.ip]? = some b := by rw [hm.ip, hf.byte, hget]
    exact ⟨_, step_eq_failed_iff.mpr
      ⟨b, hget', .inr ⟨Interrupt.not_stops hm.idle', mirror, hfails', rfl⟩⟩, hmirror⟩

/-- Where one execution is at the end of its code, the other is. -/
theorem finished (hm : c.Renamed f d) (h : c.step code = .finished c')
    (hget : code'[f c.ip]? = code[c.ip]?) :
    d.step code' = .finished d ∧ c'.host.Renamed f d.host := by
  obtain ⟨hnone, rfl⟩ := step_eq_finished_iff.mp h
  exact ⟨step_eq_finished_iff.mpr ⟨by rw [hm.ip, hget, hnone], rfl⟩, hm.host⟩

end Renamed

end Config

/-- The outcome of an execution that ends at its new position. -/
theorem Halt.outcome_rename (f : Nat → Nat) (halt : Halt) (length : Nat)
    (failure? : Option IoError) :
    (halt.rename f).outcome (f length) failure? =
      (halt.outcome length failure?).mapError (.rename f) := by
  cases halt with
  | failed e calls => rfl
  | completed => cases failure? <;> rfl

end Brainfuck
