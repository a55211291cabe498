import Brainfuck.Proofs.Interpreter.Effect

/-!
# The control and the tape

All that an instruction looks at on the tape is the current cell, and all that it does to the tape
is to move the pointer by one or to write that cell. So an interpreter falls into two parts: a
control, which is the interpreter without its tape, and the tape. Carrying out an instruction is a
reaction of the control to the cell it finds (`Control.react`), and what the control asks for is
then done to the tape (`Tape.edit`).

`Interpreter.perform_eq_react` says that this is what `perform` does, for every tape, and
`Config.step_eq_advanced_iff_react` and `Config.step_eq_failed_iff_react` say it of steps. So
two interpreters with one control do the same as long as they find the same cells, whatever their
tapes are.
-/

namespace Brainfuck

/-- What an instruction does to the tape. -/
inductive Edit where
  /-- Nothing. -/
  | keep
  /-- The pointer moves to the right. -/
  | right
  /-- The pointer moves to the left. -/
  | left
  /-- A value is written into the current cell. -/
  | write (v : UInt8)

/-- The tape after an edit. -/
def Tape.edit : Edit → Tape → Tape
  | .keep, t => t
  | .right, t => t.moveRight
  | .left, t => t.moveLeft
  | .write v, t => t.write v

/-- What `,` does to the tape at the end of the input. -/
def EofPolicy.edit : EofPolicy → Edit
  | .zero => .write 0
  | .unchanged => .keep

theorem EofPolicy.onEnd_eq_edit (p : EofPolicy) : p.onEnd = Tape.edit p.edit := by
  cases p <;> rfl

/-- What an instruction did, where the values that are read off the tape behind it are left
open. -/
inductive Deed where
  /-- The pointer moved. -/
  | moved
  /-- The current cell went up. -/
  | incremented
  /-- The current cell went down. -/
  | decremented
  /-- The tape behind it does not matter. -/
  | other (action : Action) (still : ∀ p, action ≠ .moved p)

/-- The action that a deed was, with `t` behind it. -/
def Deed.onTape (t : Tape) : Deed → Action
  | .moved => .moved t.pointer
  | .incremented => .incremented t.cell
  | .decremented => .decremented t.cell
  | .other action _ => action

/-- An interpreter without its tape. -/
structure Control where
  /-- The loops entered. -/
  loops : LoopStack
  /-- Where `,` reads from. -/
  input : Source
  /-- Where `.` writes to. -/
  output : Sink
  /-- What `,` does at the end of the input. -/
  eof : EofPolicy
  /-- The switch that stops a run. -/
  interrupt : Interrupt

/-- What a control makes of an instruction that completes. -/
structure Response where
  /-- What is done to the tape. -/
  edit : Edit
  /-- What the instruction did. -/
  deed : Deed
  /-- Where execution goes on. -/
  next : Nat
  /-- The stream calls made. -/
  calls : List Call
  /-- The loop event logged. -/
  event? : Option LoopEvent
  /-- The control behind it. -/
  control : Control

/-- What a control makes of an instruction. -/
inductive Reaction where
  /-- It completes. -/
  | done (r : Response)
  /-- It fails, after some stream calls. -/
  | failed (e : RunError) (calls : List Call) (control : Control)

namespace Control

/-- The control after step number `n` was observed. -/
def observe (n : Nat) (k : Control) : Control := { k with interrupt := k.interrupt.observe n }

/-- Write the cell found. -/
def write (ip : Nat) (cell : UInt8) (k : Control) : Reaction :=
  let put := Sink.put cell k.output.writes
  let k := { k with output := { k.output with writes := put.writes } }
  match put.result with
  | .ok () => .done ⟨.keep, .other (.wrote cell) nofun, ip + 1, put.calls, none, k⟩
  | .error e => .failed (.stream ip e) put.calls k

/-- Flush the output, and read. -/
def read (ip : Nat) (k : Control) : Reaction :=
  let flushed := Sink.flush k.output.flushes
  let k := { k with output := { k.output with flushes := flushed.flushes } }
  match flushed.failure? with
  | some e => .failed (.stream ip e) [flushed.call] k
  | none =>
    let pulled := k.input.pull
    let calls := flushed.call :: pulled.calls
    let k := { k with input := pulled.rest }
    match pulled.result with
    | .error e => .failed (.stream ip e) calls k
    | .ok (some b) => .done ⟨.write b, .other (.read b) nofun, ip + 1, calls, none, k⟩
    | .ok none => .done ⟨k.eof.edit, .other .readEnd nofun, ip + 1, calls, none, k⟩

/-- Skip the loop that starts here if the cell is zero, and enter it if not. -/
def openLoop (code : Array UInt8) (ip : Nat) (cell : UInt8) (k : Control) : Reaction :=
  if cell = 0 then
    match Brackets.closeOf? code ip with
    | some close => .done ⟨.keep, .other (.skipped close) nofun, close + 1, [], none, k⟩
    | none => .failed (.unmatched ⟨ip, .opening⟩) [] k
  else
    match k.loops.push? ip with
    | some loops =>
      .done ⟨.keep, .other (.entered loops.depth) nofun, ip + 1, [], some (.entered ip loops.depth),
        { k with loops := loops }⟩
    | none => .failed (.stackOverflow ip k.loops.capacity) [] k

/-- Leave the innermost loop if the cell is zero, and go back to its start if not. -/
def closeLoop (ip : Nat) (cell : UInt8) (k : Control) : Reaction :=
  match k.loops.top? with
  | none => .failed (.unmatched ⟨ip, .closing⟩) [] k
  | some start =>
    if cell = 0 then
      .done ⟨.keep, .other (.left (k.loops.depth - 1)) nofun, ip + 1, [],
        some (.exited ip start k.loops.depth), { k with loops := k.loops.pop }⟩
    else .done ⟨.keep, .other (.repeated start) nofun, start + 1, [], none, k⟩

/-- What a control makes of the instruction `byte` at `ip` that finds `cell`. -/
def react (code : Array UInt8) (ip : Nat) (byte cell : UInt8) (k : Control) : Reaction :=
  match Instruction.ofByte? byte with
  | none => .done ⟨.keep, .other .nothing nofun, ip + 1, [], none, k⟩
  | some .right => .done ⟨.right, .moved, ip + 1, [], none, k⟩
  | some .left => .done ⟨.left, .moved, ip + 1, [], none, k⟩
  | some .increment => .done ⟨.write (cell + 1), .incremented, ip + 1, [], none, k⟩
  | some .decrement => .done ⟨.write (cell - 1), .decremented, ip + 1, [], none, k⟩
  | some .output => k.write ip cell
  | some .input => k.read ip
  | some (.bracket .opening) => k.openLoop code ip cell
  | some (.bracket .closing) => k.closeLoop ip cell

/-- The interpreter with this control and the tape `t`. -/
def on (t : Tape) (k : Control) : Interpreter :=
  ⟨⟨t, k.loops⟩, k.input, k.output, k.eof, k.interrupt⟩

end Control

/-- The interpreter without its tape. -/
def Interpreter.control (i : Interpreter) : Control :=
  ⟨i.machine.loops, i.input, i.output, i.eof, i.interrupt⟩

@[simp] theorem Interpreter.control_on (i : Interpreter) : i.control.on i.machine.tape = i := rfl

@[simp] theorem Control.on_control (k : Control) (t : Tape) : (k.on t).control = k := rfl

/-! ### Tapes -/

namespace Tape

@[simp] theorem length_edit (e : Edit) (t : Tape) : (t.edit e).length = t.length := by
  cases e with
  | keep => rfl
  | right => exact length_moveRight t
  | left => exact length_moveLeft t
  | write v => exact length_write t v

theorem WellFormed.edit {t : Tape} (h : t.WellFormed) (e : Edit) : (t.edit e).WellFormed := by
  cases e with
  | keep => exact h
  | right => exact h.moveRight
  | left => exact h.moveLeft
  | write v => exact h.write v

end Tape

/-! ### Instructions -/

/-- What a reaction comes to on the tape `t`. -/
def Reaction.onTape (t : Tape) : Reaction → Effect
  | .done r =>
    .done (r.deed.onTape (t.edit r.edit)) r.next r.calls r.event? (r.control.on (t.edit r.edit))
  | .failed e calls k => .failed e calls (k.on t)

namespace Interpreter

variable {code : Array UInt8} {found : Fetch} {host : Interpreter}

theorem writeCell_eq_write :
    host.writeCell found = (host.control.write found.ip found.cell).onTape host.machine.tape := by
  unfold writeCell Control.write
  dsimp only [Interpreter.control]
  cases (Sink.put found.cell host.output.writes).result <;> rfl

theorem readCell_eq_read :
    host.readCell found = (host.control.read found.ip).onTape host.machine.tape := by
  unfold readCell Control.read
  dsimp only [Interpreter.control]
  cases (Sink.flush host.output.flushes).failure? with
  | some e => rfl
  | none =>
    rcases host.input.pull.result with e | _ | b
    · rfl
    · show Effect.done _ _ _ _ _ = Effect.done _ _ _ _ _
      rw [EofPolicy.onEnd_eq_edit]
      rfl
    · rfl

theorem openLoop_eq_openLoop :
    host.openLoop code found =
      (host.control.openLoop code found.ip found.cell).onTape host.machine.tape := by
  unfold openLoop Control.openLoop
  dsimp only [Interpreter.control]
  split
  · cases Brackets.closeOf? code found.ip <;> rfl
  · cases host.machine.loops.push? found.ip <;> rfl

theorem closeLoop_eq_closeLoop :
    host.closeLoop found =
      (host.control.closeLoop found.ip found.cell).onTape host.machine.tape := by
  unfold closeLoop Control.closeLoop
  dsimp only [Interpreter.control]
  cases host.machine.loops.top? with
  | none => rfl
  | some start =>
    dsimp only
    split <;> rfl

/-- **An instruction is a reaction of the control to the current cell**, and what that asks for is
done to the tape. -/
theorem perform_eq_react (hcell : found.cell = host.machine.tape.cell) :
    host.perform code found =
      (host.control.react code found.ip found.byte found.cell).onTape host.machine.tape := by
  unfold perform Control.react
  cases Instruction.ofByte? found.byte with
  | none => rfl
  | some instruction =>
    cases instruction with
    | right => rfl
    | left => rfl
    | increment =>
      rw [hcell]
      rfl
    | decrement =>
      rw [hcell]
      rfl
    | output => exact writeCell_eq_write
    | input => exact readCell_eq_read
    | bracket b =>
      cases b with
      | opening => exact openLoop_eq_openLoop
      | closing => exact closeLoop_eq_closeLoop

end Interpreter

/-! ### Steps -/

namespace Response

/-- The completed step that found `found` and has the tape `t` behind it. -/
def turn (found : Fetch) (t : Tape) (r : Response) : Turn :=
  ⟨⟨found, r.deed.onTape t⟩, r.calls, r.event?⟩

/-- Where step number `count` leads to, with the tape `t` behind it. -/
def config (count : Nat) (t : Tape) (r : Response) : Config :=
  ⟨r.next, count + 1, (r.control.observe count).on t⟩

end Response

namespace Config

variable {code : Array UInt8} {c d : Config}

/-- What the control of `c` makes of the instruction `b`. -/
def react (code : Array UInt8) (b : UInt8) (c : Config) : Reaction :=
  c.host.control.react code c.ip b c.host.machine.tape.cell

theorem perform_fetch (b : UInt8) :
    c.host.perform code (c.fetch b) = (c.react code b).onTape c.host.machine.tape :=
  Interpreter.perform_eq_react rfl

/-- **A completed step is a response of the control**, and the edit of the tape that it asks
for. -/
theorem step_eq_advanced_iff_react {t : Turn} :
    c.step code = .advanced t d ↔
      ∃ b r, code[c.ip]? = some b ∧ ¬ c.host.interrupt.Stops ∧ c.react code b = .done r ∧
        t = r.turn (c.fetch b) (c.host.machine.tape.edit r.edit) ∧
        d = r.config c.count (c.host.machine.tape.edit r.edit) := by
  constructor
  · intro h
    obtain ⟨b, host, hget, hgo, hfetch, hdoes, hcount, hhost⟩ := step_eq_advanced_iff.mp h
    have hperform := hdoes.perform_eq
    rw [perform_fetch] at hperform
    cases hreact : c.react code b with
    | failed e calls k =>
      rw [hreact] at hperform
      cases hperform
    | done r =>
      rw [hreact] at hperform
      obtain ⟨⟨fetch, action⟩, calls, event?⟩ := t
      obtain ⟨ip, count, host'⟩ := d
      cases hperform
      cases hfetch
      cases hcount
      cases hhost
      exact ⟨b, r, hget, hgo, hreact, rfl, rfl⟩
  · rintro ⟨b, r, hget, hgo, hreact, rfl, rfl⟩
    rw [step_of_perform hget hgo, perform_fetch, hreact]
    rfl

/-- **A step fails because the switch stops it**, or because the control fails at the cell it
finds. Then the tape is left alone. -/
theorem step_eq_failed_iff_react {e : RunError} {calls : List Call} :
    c.step code = .failed e calls d ↔
      ∃ b, code[c.ip]? = some b ∧
        ((c.host.interrupt.Stops ∧ e = .interrupted c.ip ∧ calls = [] ∧ d = c) ∨
          (¬ c.host.interrupt.Stops ∧ ∃ k, c.react code b = .failed e calls k ∧
            d = ⟨c.ip, c.count, k.on c.host.machine.tape⟩)) := by
  rw [step_eq_failed_iff]
  refine exists_congr fun b => and_congr_right fun _ => or_congr_right (and_congr_right fun _ => ?_)
  rw [← exists_congr fun host => and_congr_left fun _ => Interpreter.perform_eq_failed_iff,
    perform_fetch]
  cases hreact : c.react code b with
  | done r => simp [Reaction.onTape]
  | failed e' calls' k =>
    constructor
    · rintro ⟨host, hperform, rfl⟩
      cases hperform
      exact ⟨k, rfl, rfl⟩
    · rintro ⟨k', hk, rfl⟩
      cases hk
      exact ⟨_, rfl, rfl⟩

end Config

end Brainfuck
