import Brainfuck.Interpreter.Step

/-!
# What one instruction does

Everything that carrying out an instruction may come to, as rules: `Does` for an
instruction that completes, `Fails` for one that does not. Each rule holds all that
decides its case, so that what is true of every step can be proved rule by rule, and
what a given instruction does can be read off its rule.

* `Interpreter.perform_eq_done_iff`, `Interpreter.perform_eq_failed_iff`: the rules say
  what `perform` does, in both directions.
* `Config.step_eq_advanced_iff`, `Config.step_eq_failed_iff`, `Config.step_eq_finished_iff`:
  what one attempt at a step comes to.
* `Interpreter.Does.loopMove`: seen from the loop stack and the instruction pointer alone, a
  completed instruction is one of five moves.
-/

namespace Brainfuck

namespace Interpreter

/-- The interpreter after its output was flushed once. -/
def afterFlush (host : Interpreter) : Interpreter :=
  { host with output := { host.output with flushes := (Sink.flush host.output.flushes).flushes } }

/-- The interpreter after a `,` flushed the output and took one answer from the input. -/
def afterPull (host : Interpreter) : Interpreter :=
  { host.afterFlush with input := host.input.pull.rest }

/-- The interpreter after a `.` made the writes for the byte `b`. -/
def afterPut (b : UInt8) (host : Interpreter) : Interpreter :=
  { host with output := { host.output with writes := (Sink.put b host.output.writes).writes } }

/-- The stream calls of a `,` whose flush succeeded. -/
def readCalls (host : Interpreter) : List Call :=
  (Sink.flush host.output.flushes).call :: host.input.pull.calls

/-- What an instruction that completes does: its action, where execution goes on, the stream
calls it makes, the loop event it logs, and the interpreter after it. -/
inductive Does (code : Array UInt8) (found : Fetch) (host : Interpreter) :
    Action → Nat → List Call → Option LoopEvent → Interpreter → Prop where
  /-- A comment byte is passed over. -/
  | nothing : Instruction.ofByte? found.byte = none →
      Does code found host .nothing (found.ip + 1) [] none host
  /-- The pointer moves right. -/
  | right : Instruction.ofByte? found.byte = some .right →
      Does code found host (.moved host.machine.tape.moveRight.pointer) (found.ip + 1) [] none
        (host.mapTape .moveRight)
  /-- The pointer moves left. -/
  | left : Instruction.ofByte? found.byte = some .left →
      Does code found host (.moved host.machine.tape.moveLeft.pointer) (found.ip + 1) [] none
        (host.mapTape .moveLeft)
  /-- The current cell goes up. -/
  | increment : Instruction.ofByte? found.byte = some .increment →
      Does code found host (.incremented host.machine.tape.increment.cell) (found.ip + 1) [] none
        (host.mapTape .increment)
  /-- The current cell goes down. -/
  | decrement : Instruction.ofByte? found.byte = some .decrement →
      Does code found host (.decremented host.machine.tape.decrement.cell) (found.ip + 1) [] none
        (host.mapTape .decrement)
  /-- The current cell is written. -/
  | wrote : Instruction.ofByte? found.byte = some .output →
      (Sink.put found.cell host.output.writes).result = .ok () →
      Does code found host (.wrote found.cell) (found.ip + 1)
        (Sink.put found.cell host.output.writes).calls none (host.afterPut found.cell)
  /-- A byte is read. -/
  | read {b : UInt8} : Instruction.ofByte? found.byte = some .input →
      (Sink.flush host.output.flushes).failure? = none → host.input.pull.result = .ok (some b) →
      Does code found host (.read b) (found.ip + 1) host.readCalls none
        (host.afterPull.mapTape (.write b))
  /-- The end of the input is met. -/
  | readEnd : Instruction.ofByte? found.byte = some .input →
      (Sink.flush host.output.flushes).failure? = none → host.input.pull.result = .ok none →
      Does code found host .readEnd (found.ip + 1) host.readCalls none
        (host.afterPull.mapTape host.eof.onEnd)
  /-- A loop is skipped. -/
  | skipped {close : Nat} : found.byte = Bracket.opening.byte → found.cell = 0 →
      Brackets.closeOf? code found.ip = some close →
      Does code found host (.skipped close) (close + 1) [] none host
  /-- A loop is entered. -/
  | entered {loops : LoopStack} : found.byte = Bracket.opening.byte → found.cell ≠ 0 →
      host.machine.loops.push? found.ip = some loops →
      Does code found host (.entered loops.depth) (found.ip + 1) []
        (some (.entered found.ip loops.depth)) (host.mapLoops fun _ => loops)
  /-- A loop is repeated. -/
  | repeated {start : Nat} : found.byte = Bracket.closing.byte → found.cell ≠ 0 →
      host.machine.loops.top? = some start →
      Does code found host (.repeated start) (start + 1) [] none host
  /-- A loop is left. -/
  | exited {start : Nat} : found.byte = Bracket.closing.byte → found.cell = 0 →
      host.machine.loops.top? = some start →
      Does code found host (.left (host.machine.loops.depth - 1)) (found.ip + 1) []
        (some (.exited found.ip start host.machine.loops.depth)) (host.mapLoops .pop)

/-- How an instruction fails: the error, the stream calls made before, and the interpreter
after it. -/
inductive Fails (code : Array UInt8) (found : Fetch) (host : Interpreter) :
    RunError → List Call → Interpreter → Prop where
  /-- A write fails. -/
  | write {e : IoError} : Instruction.ofByte? found.byte = some .output →
      (Sink.put found.cell host.output.writes).result = .error e →
      Fails code found host (.stream found.ip e) (Sink.put found.cell host.output.writes).calls
        (host.afterPut found.cell)
  /-- The flush before a read fails. -/
  | flush {e : IoError} : Instruction.ofByte? found.byte = some .input →
      (Sink.flush host.output.flushes).failure? = some e →
      Fails code found host (.stream found.ip e) [(Sink.flush host.output.flushes).call]
        host.afterFlush
  /-- A read fails. -/
  | read {e : IoError} : Instruction.ofByte? found.byte = some .input →
      (Sink.flush host.output.flushes).failure? = none → host.input.pull.result = .error e →
      Fails code found host (.stream found.ip e) host.readCalls host.afterPull
  /-- A loop to be skipped has no end. -/
  | opening : found.byte = Bracket.opening.byte → found.cell = 0 →
      Brackets.closeOf? code found.ip = none →
      Fails code found host (.unmatched ⟨found.ip, .opening⟩) [] host
  /-- The loop stack is full. -/
  | overflow : found.byte = Bracket.opening.byte → found.cell ≠ 0 →
      host.machine.loops.push? found.ip = none →
      Fails code found host (.stackOverflow found.ip host.machine.loops.capacity) [] host
  /-- There is a `]`, and no loop is entered. -/
  | closing : found.byte = Bracket.closing.byte → host.machine.loops.top? = none →
      Fails code found host (.unmatched ⟨found.ip, .closing⟩) [] host

section

variable {code : Array UInt8} {found : Fetch} {host host' : Interpreter}

/-- The instruction a bracket is. -/
theorem ofByte?_bracket {b : UInt8} {k : Bracket} (h : b = k.byte) :
    Instruction.ofByte? b = some (.bracket k) :=
  Instruction.ofByte?_eq_some_iff.mpr h

theorem byte_of_ofByte?_bracket {b : UInt8} {k : Bracket}
    (h : Instruction.ofByte? b = some (.bracket k)) : b = k.byte :=
  Instruction.ofByte?_eq_some_iff.mp h

theorem Does.perform_eq {action : Action} {next : Nat} {calls : List Call}
    {event? : Option LoopEvent} (h : Does code found host action next calls event? host') :
    host.perform code found = .done action next calls event? host' := by
  cases h with
  | nothing hb => simp only [perform, hb]
  | right hb => simp only [perform, hb]; rfl
  | left hb => simp only [perform, hb]; rfl
  | increment hb => simp only [perform, hb]; rfl
  | decrement hb => simp only [perform, hb]; rfl
  | wrote hb hput => simp only [perform, hb, writeCell, hput]; rfl
  | read hb hflush hpull => simp only [perform, hb, readCell, hflush, hpull]; rfl
  | readEnd hb hflush hpull => simp only [perform, hb, readCell, hflush, hpull]; rfl
  | skipped hb hcell hclose =>
    simp only [perform, ofByte?_bracket hb, openLoop, hcell, if_true, hclose]
  | entered hb hcell hpush =>
    simp only [perform, ofByte?_bracket hb, openLoop, if_neg hcell, hpush]
  | repeated hb hcell htop =>
    simp only [perform, ofByte?_bracket hb, closeLoop, htop, if_neg hcell]
  | exited hb hcell htop =>
    simp only [perform, ofByte?_bracket hb, closeLoop, htop, hcell, if_true]

theorem Fails.perform_eq {e : RunError} {calls : List Call}
    (h : Fails code found host e calls host') :
    host.perform code found = .failed e calls host' := by
  cases h with
  | write hb hput => simp only [perform, hb, writeCell, hput]; rfl
  | flush hb hflush => simp only [perform, hb, readCell, hflush]; rfl
  | read hb hflush hpull => simp only [perform, hb, readCell, hflush, hpull]; rfl
  | opening hb hcell hclose =>
    simp only [perform, ofByte?_bracket hb, openLoop, hcell, if_true, hclose]
  | overflow hb hcell hpush =>
    simp only [perform, ofByte?_bracket hb, openLoop, if_neg hcell, hpush]
  | closing hb htop => simp only [perform, ofByte?_bracket hb, closeLoop, htop]

/-- Each instruction completes by some rule or fails by some rule. -/
theorem does_or_fails (code : Array UInt8) (found : Fetch) (host : Interpreter) :
    (∃ action next calls event? host', Does code found host action next calls event? host') ∨
      ∃ e calls host', Fails code found host e calls host' := by
  cases hb : Instruction.ofByte? found.byte with
  | none => exact .inl ⟨_, _, _, _, _, .nothing hb⟩
  | some i =>
    cases i with
    | right => exact .inl ⟨_, _, _, _, _, .right hb⟩
    | left => exact .inl ⟨_, _, _, _, _, .left hb⟩
    | increment => exact .inl ⟨_, _, _, _, _, .increment hb⟩
    | decrement => exact .inl ⟨_, _, _, _, _, .decrement hb⟩
    | output =>
      cases hput : (Sink.put found.cell host.output.writes).result with
      | ok _ => exact .inl ⟨_, _, _, _, _, .wrote hb hput⟩
      | error e => exact .inr ⟨_, _, _, .write hb hput⟩
    | input =>
      cases hflush : (Sink.flush host.output.flushes).failure? with
      | some e => exact .inr ⟨_, _, _, .flush hb hflush⟩
      | none =>
        cases hpull : host.input.pull.result with
        | error e => exact .inr ⟨_, _, _, .read hb hflush hpull⟩
        | ok b? =>
          cases b? with
          | some b => exact .inl ⟨_, _, _, _, _, .read hb hflush hpull⟩
          | none => exact .inl ⟨_, _, _, _, _, .readEnd hb hflush hpull⟩
    | bracket k =>
      have hbyte := byte_of_ofByte?_bracket hb
      by_cases hcell : found.cell = 0
      · cases k with
        | opening =>
          cases hclose : Brackets.closeOf? code found.ip with
          | some close => exact .inl ⟨_, _, _, _, _, .skipped hbyte hcell hclose⟩
          | none => exact .inr ⟨_, _, _, .opening hbyte hcell hclose⟩
        | closing =>
          cases htop : host.machine.loops.top? with
          | some start => exact .inl ⟨_, _, _, _, _, .exited hbyte hcell htop⟩
          | none => exact .inr ⟨_, _, _, .closing hbyte htop⟩
      · cases k with
        | opening =>
          cases hpush : host.machine.loops.push? found.ip with
          | some loops => exact .inl ⟨_, _, _, _, _, .entered hbyte hcell hpush⟩
          | none => exact .inr ⟨_, _, _, .overflow hbyte hcell hpush⟩
        | closing =>
          cases htop : host.machine.loops.top? with
          | some start => exact .inl ⟨_, _, _, _, _, .repeated hbyte hcell htop⟩
          | none => exact .inr ⟨_, _, _, .closing hbyte htop⟩

/-- **The rules of `Does` are what a completed instruction does.** -/
theorem perform_eq_done_iff {action : Action} {next : Nat} {calls : List Call}
    {event? : Option LoopEvent} :
    host.perform code found = .done action next calls event? host' ↔
      Does code found host action next calls event? host' := by
  refine ⟨fun h => ?_, Does.perform_eq⟩
  rcases does_or_fails code found host with ⟨_, _, _, _, _, hd⟩ | ⟨_, _, _, hf⟩
  · rw [hd.perform_eq] at h
    cases h
    exact hd
  · rw [hf.perform_eq] at h
    cases h

/-- **The rules of `Fails` are how an instruction fails.** -/
theorem perform_eq_failed_iff {e : RunError} {calls : List Call} :
    host.perform code found = .failed e calls host' ↔ Fails code found host e calls host' := by
  refine ⟨fun h => ?_, Fails.perform_eq⟩
  rcases does_or_fails code found host with ⟨_, _, _, _, _, hd⟩ | ⟨_, _, _, hf⟩
  · rw [hd.perform_eq] at h
    cases h
  · rw [hf.perform_eq] at h
    cases h
    exact hf

end

end Interpreter

/-! ### Steps -/

namespace Config

/-- What a step from `c` finds at an instruction `byte`. -/
def fetch (c : Config) (byte : UInt8) : Fetch :=
  ⟨c.count, c.ip, byte, c.host.machine.tape.pointer, c.host.machine.tape.cell⟩

variable {code : Array UInt8} {c d : Config}

theorem step_of_perform {b : UInt8} (hget : code[c.ip]? = some b) (hs : ¬ c.host.interrupt.Stops) :
    c.step code = match c.host.perform code (c.fetch b) with
      | .failed e calls host => .failed e calls ⟨c.ip, c.count, host⟩
      | .done action next calls event? host =>
        .advanced ⟨⟨c.fetch b, action⟩, calls, event?⟩
          ⟨next, c.count + 1, { host with interrupt := host.interrupt.observe c.count }⟩ := by
  obtain ⟨ip, count, host⟩ := c
  rw [step, hget]
  exact if_neg hs

/-- **What a completed step is**: an instruction was found, nothing stopped it, and it did
what its rule says. -/
theorem step_eq_advanced_iff {t : Turn} :
    c.step code = .advanced t d ↔
      ∃ b host, code[c.ip]? = some b ∧ ¬ c.host.interrupt.Stops ∧ t.step.toFetch = c.fetch b ∧
        Interpreter.Does code (c.fetch b) c.host t.step.action d.ip t.calls t.event? host ∧
        d.count = c.count + 1 ∧
        d.host = { host with interrupt := host.interrupt.observe c.count } := by
  constructor
  · intro h
    cases hget : code[c.ip]? with
    | none => simp [step, hget] at h
    | some b =>
      by_cases hs : c.host.interrupt.Stops
      · simp [step, hget, hs] at h
      · rw [step_of_perform hget hs] at h
        split at h
        · cases h
        · rename_i hp
          cases h
          exact ⟨b, _, rfl, hs, rfl, Interpreter.perform_eq_done_iff.mp hp, rfl, rfl⟩
  · rintro ⟨b, host, hget, hs, hfetch, hdoes, hcount, hhost⟩
    rw [step_of_perform hget hs, hdoes.perform_eq]
    obtain ⟨⟨fetch, action⟩, calls, event?⟩ := t
    obtain ⟨ip, count, host'⟩ := d
    cases hfetch
    cases hcount
    cases hhost
    rfl

/-- **What a failed step is**: the switch stopped it, or an instruction was found and failed
as its rule says. -/
theorem step_eq_failed_iff {e : RunError} {calls : List Call} :
    c.step code = .failed e calls d ↔
      ∃ b, code[c.ip]? = some b ∧
        ((c.host.interrupt.Stops ∧ e = .interrupted c.ip ∧ calls = [] ∧ d = c) ∨
          (¬ c.host.interrupt.Stops ∧
            ∃ host, Interpreter.Fails code (c.fetch b) c.host e calls host ∧
              d = ⟨c.ip, c.count, host⟩)) := by
  constructor
  · intro h
    cases hget : code[c.ip]? with
    | none => simp [step, hget] at h
    | some b =>
      refine ⟨b, rfl, ?_⟩
      by_cases hs : c.host.interrupt.Stops
      · simp only [step, hget, if_pos hs] at h
        cases h
        exact .inl ⟨hs, rfl, rfl, rfl⟩
      · rw [step_of_perform hget hs] at h
        split at h
        · rename_i hp
          cases h
          exact .inr ⟨hs, _, Interpreter.perform_eq_failed_iff.mp hp, rfl⟩
        · cases h
  · rintro ⟨b, hget, ⟨hs, rfl, rfl, rfl⟩ | ⟨hs, host, hfails, rfl⟩⟩
    · simp only [step, hget, if_pos hs]
    · rw [step_of_perform hget hs, hfails.perform_eq]

/-- Execution ends behind the last instruction. -/
theorem step_eq_finished_iff : c.step code = .finished d ↔ code[c.ip]? = none ∧ d = c := by
  constructor
  · intro h
    cases hget : code[c.ip]? with
    | none =>
      simp only [step, hget] at h
      cases h
      exact ⟨rfl, rfl⟩
    | some b =>
      by_cases hs : c.host.interrupt.Stops
      · simp [step, hget, hs] at h
      · rw [step_of_perform hget hs] at h
        split at h <;> cases h
  · rintro ⟨hget, rfl⟩
    simp only [step, hget]

end Config

/-! ### Seen from the loop stack -/

/-- How a completed instruction moves the instruction pointer and the loop stack. -/
inductive LoopMove (code : Array UInt8) (found : Fetch) (loops : LoopStack) :
    Action → Nat → Option LoopEvent → LoopStack → Prop where
  /-- A byte that is no bracket: on to the next. -/
  | plain {action : Action} : Bracket.ofByte? found.byte = none →
      (∀ p, action ≠ .skipped p ∧ action ≠ .entered p ∧ action ≠ .repeated p ∧ action ≠ .left p) →
      LoopMove code found loops action (found.ip + 1) none loops
  /-- A loop is skipped. -/
  | skipped {close : Nat} : found.byte = Bracket.opening.byte → found.cell = 0 →
      Brackets.closeOf? code found.ip = some close →
      LoopMove code found loops (.skipped close) (close + 1) none loops
  /-- A loop is entered. -/
  | entered {loops' : LoopStack} : found.byte = Bracket.opening.byte → found.cell ≠ 0 →
      loops.push? found.ip = some loops' →
      LoopMove code found loops (.entered loops'.depth) (found.ip + 1)
        (some (.entered found.ip loops'.depth)) loops'
  /-- A loop is repeated. -/
  | repeated {start : Nat} : found.byte = Bracket.closing.byte → found.cell ≠ 0 →
      loops.top? = some start →
      LoopMove code found loops (.repeated start) (start + 1) none loops
  /-- A loop is left. -/
  | exited {start : Nat} : found.byte = Bracket.closing.byte → found.cell = 0 →
      loops.top? = some start →
      LoopMove code found loops (.left (loops.depth - 1)) (found.ip + 1)
        (some (.exited found.ip start loops.depth)) loops.pop

namespace LoopMove

variable {code : Array UInt8} {found : Fetch} {loops loops' : LoopStack} {next : Nat}
  {event? : Option LoopEvent}

theorem of_skipped {close : Nat} (h : LoopMove code found loops (.skipped close) next event? loops') :
    found.byte = Bracket.opening.byte ∧ Brackets.closeOf? code found.ip = some close ∧
      next = close + 1 := by
  cases h with
  | plain _ hno => exact absurd rfl (hno close).1
  | skipped hb _ hclose => exact ⟨hb, hclose, rfl⟩

theorem of_repeated {start : Nat}
    (h : LoopMove code found loops (.repeated start) next event? loops') :
    found.byte = Bracket.closing.byte ∧ loops.top? = some start ∧ next = start + 1 ∧
      loops' = loops := by
  cases h with
  | plain _ hno => exact absurd rfl (hno start).2.2.1
  | repeated hb _ htop => exact ⟨hb, htop, rfl, rfl⟩

theorem of_left {depth : Nat} (h : LoopMove code found loops (.left depth) next event? loops') :
    ∃ start, found.byte = Bracket.closing.byte ∧ loops.top? = some start ∧ next = found.ip + 1 ∧
      loops' = loops.pop ∧ depth = loops.depth - 1 ∧
      event? = some (.exited found.ip start loops.depth) := by
  cases h with
  | plain _ hno => exact absurd rfl (hno depth).2.2.2
  | exited hb _ htop => exact ⟨_, hb, htop, rfl, rfl, rfl, rfl⟩

end LoopMove

/-- An instruction other than a bracket is no bracket. -/
theorem Instruction.bracket_eq_none {b : UInt8}
    (h : ∀ k, Instruction.ofByte? b ≠ some (.bracket k)) :
    Bracket.ofByte? b = none := by
  cases hb : Bracket.ofByte? b with
  | none => rfl
  | some k => exact absurd (Interpreter.ofByte?_bracket (Bracket.ofByte?_eq_some_iff.mp hb)) (h k)

theorem Interpreter.Does.loopMove {code : Array UInt8} {found : Fetch} {host host' : Interpreter}
    {action : Action} {next : Nat} {calls : List Call} {event? : Option LoopEvent}
    (h : Does code found host action next calls event? host') :
    LoopMove code found host.machine.loops action next event? host'.machine.loops := by
  have plain : ∀ {i?}, Instruction.ofByte? found.byte = i? → (∀ k, i? ≠ some (.bracket k)) →
      Bracket.ofByte? found.byte = none := by
    rintro _ rfl hk
    exact Instruction.bracket_eq_none hk
  cases h with
  | nothing hb => exact .plain (plain hb (by simp)) (by simp)
  | right hb => exact .plain (plain hb (by simp)) (by simp)
  | left hb => exact .plain (plain hb (by simp)) (by simp)
  | increment hb => exact .plain (plain hb (by simp)) (by simp)
  | decrement hb => exact .plain (plain hb (by simp)) (by simp)
  | wrote hb _ => exact .plain (plain hb (by simp)) (by simp)
  | read hb _ _ => exact .plain (plain hb (by simp)) (by simp)
  | readEnd hb _ _ => exact .plain (plain hb (by simp)) (by simp)
  | skipped hb hcell hclose => exact .skipped hb hcell hclose
  | entered hb hcell hpush => exact .entered hb hcell hpush
  | repeated hb hcell htop => exact .repeated hb hcell htop
  | exited hb hcell htop => exact .exited hb hcell htop

end Brainfuck
