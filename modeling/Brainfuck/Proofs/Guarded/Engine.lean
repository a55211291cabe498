import Brainfuck.Proofs.Guarded.Machine
import Brainfuck.Proofs.Interpreter.Capacity
import Brainfuck.Interpreter.Command

/-!
# Execution with its checks

The search for a closing bracket, one instruction, one step, a run and the answer to a request, as a
machine with words and memory carries them out (see `Brainfuck.Proofs.Guarded.Words`). Besides
those of the tape, the checks are: the cut of the code behind a `[`, the depth that the search keeps
and the position that it gives, the number of loops still entered when one is left, and the step
from a position in the code to the next.

What meets no fault does what the interpreter does:

* `Guarded.closeOf_eq`: the search, in all code that fits in memory. The depth goes up at most once
  for each byte passed, so it fits where the code does.
* `Guarded.perform_eq` and `Guarded.step_eq`: an instruction and a step, in a configuration that is
  sound (`Config.Sound`). Every completed step keeps it so (`Config.Sound.step`).
* `Guarded.run?_eq` and `Guarded.answer?_eq`: a run, and the answer to any request, of an
  interpreter whose machine is sound (`Machine.Sound`).
-/

namespace Brainfuck

namespace Guarded

/-! ### The search for a closing bracket -/

/-- Go through what stands from `offset` bytes behind the `[` on, when `depth` loops are open, that
one among them. -/
def scan (opening : Nat) : Nat → Nat → List UInt8 → Except Fault (Option Nat)
  | _, _, [] => .ok none
  | depth, offset, b :: rest =>
    match Bracket.ofByte? b with
    | none => do scan opening depth (← add offset 1) rest
    | some .opening => do scan opening (← add depth 1) (← add offset 1) rest
    | some .closing => do
      let depth ← sub depth 1
      if depth = 0 then return some (← add (← add opening 1) offset)
      else scan opening depth (← add offset 1) rest

/-- The position of the `]` that closes the `[` at a position. -/
def closeOf (code : Array UInt8) (opening : Nat) : Except Fault (Option Nat) := do
  scan opening 1 0 (← suffix code (← add opening 1))

/-! ### Instructions -/

/-- Change the tape. -/
def mapTape (f : Tape → Except Fault Tape) (host : Interpreter) : Except Fault Interpreter := do
  let tape ← f host.machine.tape
  return host.mapTape fun _ => tape

/-- The tape after `,` met the end of the input. -/
def onEnd : EofPolicy → Tape → Except Fault Tape
  | .zero, t => write 0 t
  | .unchanged, t => .ok t

/-- An instruction that acts on the tape alone. -/
def onTape (found : Fetch) (f : Tape → Except Fault Tape) (action : Tape → Except Fault Action)
    (host : Interpreter) : Except Fault Effect := do
  let host ← mapTape f host
  return .done (← action host.machine.tape) (← add found.ip 1) [] none host

/-- Write the current cell. -/
def writeCell (found : Fetch) (host : Interpreter) : Except Fault Effect :=
  let put := Sink.put found.cell host.output.writes
  match put.result with
  | .ok () => do
    return .done (.wrote found.cell) (← add found.ip 1) put.calls none (host.afterPut found.cell)
  | .error e => .ok (.failed (.stream found.ip e) put.calls (host.afterPut found.cell))

/-- Read into the current cell. -/
def readCell (found : Fetch) (host : Interpreter) : Except Fault Effect :=
  let flushed := Sink.flush host.output.flushes
  match flushed.failure? with
  | some e => .ok (.failed (.stream found.ip e) [flushed.call] host.afterFlush)
  | none =>
    match host.input.pull.result with
    | .error e => .ok (.failed (.stream found.ip e) host.readCalls host.afterPull)
    | .ok (some b) => do
      let host' ← mapTape (write b) host.afterPull
      return .done (.read b) (← add found.ip 1) host.readCalls none host'
    | .ok none => do
      let host' ← mapTape (onEnd host.eof) host.afterPull
      return .done .readEnd (← add found.ip 1) host.readCalls none host'

/-- Carry out a `[`. -/
def openLoop (code : Array UInt8) (found : Fetch) (host : Interpreter) : Except Fault Effect :=
  if found.cell = 0 then do
    match ← closeOf code found.ip with
    | some close => return .done (.skipped close) (← add close 1) [] none host
    | none => return .failed (.unmatched ⟨found.ip, .opening⟩) [] host
  else
    match host.machine.loops.push? found.ip with
    | some loops => do
      return .done (.entered loops.depth) (← add found.ip 1) []
        (some (.entered found.ip loops.depth)) (host.mapLoops fun _ => loops)
    | none => .ok (.failed (.stackOverflow found.ip host.machine.loops.capacity) [] host)

/-- Carry out a `]`. -/
def closeLoop (found : Fetch) (host : Interpreter) : Except Fault Effect :=
  match host.machine.loops.top? with
  | none => .ok (.failed (.unmatched ⟨found.ip, .closing⟩) [] host)
  | some start =>
    if found.cell = 0 then do
      let depth := host.machine.loops.depth
      return .done (.left (← sub depth 1)) (← add found.ip 1) []
        (some (.exited found.ip start depth)) (host.mapLoops LoopStack.pop)
    else do return .done (.repeated start) (← add start 1) [] none host

/-- Carry out the instruction found, or pass over the comment byte found. -/
def perform (code : Array UInt8) (found : Fetch) (host : Interpreter) : Except Fault Effect :=
  match Instruction.ofByte? found.byte with
  | none => do return .done .nothing (← add found.ip 1) [] none host
  | some .right => onTape found moveRight (fun t => .ok (.moved t.pointer)) host
  | some .left => onTape found moveLeft (fun t => .ok (.moved t.pointer)) host
  | some .increment => onTape found increment (fun t => do return .incremented (← cell t)) host
  | some .decrement => onTape found decrement (fun t => do return .decremented (← cell t)) host
  | some .output => writeCell found host
  | some .input => readCell found host
  | some (.bracket .opening) => openLoop code found host
  | some (.bracket .closing) => closeLoop found host

/-! ### Steps, runs and answers -/

/-- Execute the next instruction, if there is one and nothing stops it. The current cell is read
before the instruction is looked at. -/
def step (code : Array UInt8) : Config → Except Fault Progress
  | ⟨ip, count, host⟩ =>
    match code[ip]? with
    | none => .ok (.finished ⟨ip, count, host⟩)
    | some byte =>
      if host.interrupt.Stops then .ok (.failed (.interrupted ip) [] ⟨ip, count, host⟩)
      else do
        let v ← cell host.machine.tape
        let found : Fetch := ⟨count, ip, byte, host.machine.tape.pointer, v⟩
        match ← perform code found host with
        | .failed e calls host => return .failed e calls ⟨ip, count, host⟩
        | .done action next calls event? host =>
          return .advanced ⟨⟨found, action⟩, calls, event?⟩
            ⟨next, count + 1, { host with interrupt := host.interrupt.observe count }⟩

/-- Execute from here on with `turns` completed, making at most `fuel` attempts at a step. -/
def execute? (code : Array UInt8) : Nat → Array Turn → Config → Except Fault (Option Execution)
  | 0, _, _ => .ok none
  | fuel + 1, turns, c => do
    match ← step code c with
    | .finished c => return some ⟨turns, .completed, c⟩
    | .failed e calls c => return some ⟨turns, .failed e calls, c⟩
    | .advanced turn c => execute? code fuel (turns.push turn) c

/-- Run a program, making at most `fuel` attempts at a step. -/
def run? (fuel : Nat) (program : Program) (i : Interpreter) : Except Fault (Option Run) := do
  match ← execute? program.code fuel #[] i.start with
  | none => return none
  | some ⟨turns, halt, ⟨_, _, host⟩⟩ =>
    return some ⟨program.code.size, i.eof, turns, halt, Sink.flush host.output.flushes,
      host.afterFlush⟩

/-- Answer a request. Those left to the interpreter as it is use no array at a position, and no
arithmetic. -/
def answer? (fuel : Nat) (i : Interpreter) : Command → Except Fault (Option (Reply × Interpreter))
  | .right n => do return some (.done, ← mapTape (repeated moveRight n) i)
  | .left n => do return some (.done, ← mapTape (repeated moveLeft n) i)
  | .increment n => do return some (.done, ← mapTape (repeated increment n) i)
  | .decrement n => do return some (.done, ← mapTape (repeated decrement n) i)
  | .cell => do return some (.cell (← cell i.machine.tape), i)
  | .write v => do return some (.done, ← mapTape (write v) i)
  | .moveTo p => do return some (.done, ← mapTape (moveTo p) i)
  | .run program => do
    return (← run? fuel program i).map fun r => (.ran r, r.after)
  | c => .ok (i.answer? fuel c)

/-! ### The search meets no fault -/

section

variable {code : Array UInt8}

/-- The search goes on as it does without checks. The loops open besides the first stand in the
bytes passed, so there are no more of them than of these. -/
theorem scan_eq (hcode : code.size ≤ maxLength) {opening : Nat} {rest : List UInt8} :
    ∀ {inner offset : Nat}, inner ≤ offset → opening + 1 + offset ≤ code.size →
      code.toList.drop (opening + 1 + offset) = rest →
      scan opening (inner + 1) offset rest =
        .ok (Brackets.closeFrom? code inner (opening + 1 + offset)) := by
  have hwords : maxLength < words := by decide
  induction rest with
  | nil =>
    intro inner offset _ _ hdrop
    have hend : code.size ≤ opening + 1 + offset := by
      rw [← Array.length_toList]
      exact List.drop_eq_nil_iff.mp hdrop
    rw [scan, Brackets.closeFrom?_of_size_le hend]
  | cons b rest ih =>
    intro inner offset hinner hle hdrop
    have hget : code[opening + 1 + offset]? = some b := by
      rw [← Array.getElem?_toList, ← List.head?_drop, hdrop, List.head?_cons]
    have hlt := lt_size_of_getElem? hget
    have hnext : code.toList.drop (opening + 1 + (offset + 1)) = rest := by
      have hcons := Brackets.drop_eq_cons hget
      rw [hdrop] at hcons
      exact (List.cons.inj hcons).2.symm
    have hoffset : add offset 1 = .ok (offset + 1) := add_eq (by omega)
    rw [scan, Brackets.closeFrom?_of_getElem? hget]
    cases Bracket.ofByte? b with
    | none =>
      rw [hoffset]
      exact ih (by omega) (by omega) hnext
    | some k =>
      cases k with
      | opening =>
        rw [hoffset, add_eq (by omega)]
        exact ih (by omega) (by omega) hnext
      | closing =>
        dsimp only
        rw [sub_eq (Nat.le_add_left 1 inner), ok_bind, Nat.add_sub_cancel]
        cases inner with
        | zero =>
          have hposition : add (opening + 1) offset = .ok (opening + 1 + offset) :=
            add_eq (by omega)
          rw [if_pos rfl, add_eq (by omega), ok_bind, hposition, ok_bind]
          rfl
        | succ inner =>
          rw [if_neg (Nat.succ_ne_zero inner), hoffset]
          exact ih (by omega) (by omega) hnext

/-- **The search from any position in code that fits in memory meets no fault.** -/
theorem closeOf_eq (hcode : code.size ≤ maxLength) {opening : Nat} (h : opening < code.size) :
    closeOf code opening = .ok (Brackets.closeOf? code opening) := by
  rw [closeOf, add_eq (succ_lt_words h hcode), ok_bind, suffix,
    if_pos (Nat.succ_le_of_lt h), ok_bind]
  exact scan_eq hcode (Nat.le_refl 0) h rfl

/-! ### An instruction meets no fault -/

/-- A position in the code has a next one. -/
theorem next_eq (hcode : code.size ≤ maxLength) {p : Nat} (hp : p < code.size) :
    add p 1 = .ok (p + 1) :=
  add_eq (succ_lt_words hp hcode)

variable {found : Fetch} {host : Interpreter}

theorem mapTape_eq {f : Tape → Except Fault Tape} {g : Tape → Tape}
    (h : f host.machine.tape = .ok (g host.machine.tape)) :
    mapTape f host = .ok (host.mapTape g) := by
  rw [mapTape, h]
  rfl

theorem onEnd_eq (eof : EofPolicy) {t : Tape} (h : t.Sound) : onEnd eof t = .ok (eof.onEnd t) := by
  cases eof with
  | zero => exact write_eq h 0
  | unchanged => rfl

theorem onTape_eq {f : Tape → Except Fault Tape} {g : Tape → Tape}
    {action : Tape → Except Fault Action} {action' : Tape → Action}
    (hf : f host.machine.tape = .ok (g host.machine.tape))
    (haction : action (g host.machine.tape) = .ok (action' (g host.machine.tape)))
    (hnext : add found.ip 1 = .ok (found.ip + 1)) :
    onTape found f action host = .ok (host.onTape found g action') := by
  have haction' : action (host.mapTape g).machine.tape = .ok (action' (g host.machine.tape)) :=
    haction
  rw [onTape, mapTape_eq hf, ok_bind, haction', ok_bind, hnext]
  rfl

theorem writeCell_eq (hnext : add found.ip 1 = .ok (found.ip + 1)) :
    writeCell found host = .ok (host.writeCell found) := by
  rw [writeCell, Interpreter.writeCell, hnext]
  cases (Sink.put found.cell host.output.writes).result <;> rfl

theorem readCell_eq (htape : host.machine.tape.Sound)
    (hnext : add found.ip 1 = .ok (found.ip + 1)) :
    readCell found host = .ok (host.readCell found) := by
  have hwrite (b : UInt8) : mapTape (write b) host.afterPull =
      .ok (host.afterPull.mapTape (.write b)) := mapTape_eq (write_eq htape b)
  have hend : mapTape (onEnd host.eof) host.afterPull =
      .ok (host.afterPull.mapTape host.eof.onEnd) := mapTape_eq (onEnd_eq host.eof htape)
  rw [readCell, Interpreter.readCell, hend, hnext]
  dsimp only
  cases (Sink.flush host.output.flushes).failure? with
  | some e => rfl
  | none =>
    cases host.input.pull.result with
    | error e => rfl
    | ok b? =>
      cases b? with
      | none => rfl
      | some b =>
        dsimp only
        rw [hwrite]
        rfl

theorem openLoop_eq (hcode : code.size ≤ maxLength) (hip : found.ip < code.size) :
    openLoop code found host = .ok (host.openLoop code found) := by
  unfold openLoop Interpreter.openLoop
  rw [closeOf_eq hcode hip, next_eq hcode hip]
  split
  · rw [ok_bind]
    cases hclose : Brackets.closeOf? code found.ip with
    | none => rfl
    | some close =>
      have hlt := lt_size_of_getElem? (Brackets.closing_of_closeOf? hclose)
      dsimp only
      rw [next_eq hcode hlt]
      rfl
  · cases host.machine.loops.push? found.ip <;> rfl

/-- At the end of a loop that is left, there is a loop to be taken off the stack. -/
theorem closeLoop_eq (hcode : code.size ≤ maxLength) (hip : found.ip < code.size)
    (htop : ∀ start, host.machine.loops.top? = some start → start < code.size) :
    closeLoop found host = .ok (host.closeLoop found) := by
  unfold closeLoop Interpreter.closeLoop
  cases hstart : host.machine.loops.top? with
  | none => rfl
  | some start =>
    have hdepth : 1 ≤ host.machine.loops.depth := by
      obtain ⟨ps, hps⟩ := LoopStack.exists_opened_of_top? hstart
      rw [← LoopStack.length_opened, hps, List.length_cons]
      exact Nat.le_add_left 1 ps.length
    dsimp only
    rw [sub_eq hdepth, next_eq hcode hip, next_eq hcode (htop start hstart)]
    split <;> rfl

/-- **An instruction meets no fault** if it stands in the code, the tape is sound, and the innermost
entered loop starts in the code. -/
theorem perform_eq (hcode : code.size ≤ maxLength) (hip : found.ip < code.size)
    (htape : host.machine.tape.Sound)
    (htop : ∀ start, host.machine.loops.top? = some start → start < code.size) :
    perform code found host = .ok (host.perform code found) := by
  have hnext := next_eq hcode hip
  unfold perform Interpreter.perform
  cases Instruction.ofByte? found.byte with
  | none =>
    dsimp only
    rw [hnext]
    rfl
  | some instruction =>
    cases instruction with
    | right => exact onTape_eq (moveRight_eq htape) rfl hnext
    | left => exact onTape_eq (moveLeft_eq htape) rfl hnext
    | increment =>
      refine onTape_eq (increment_eq htape) ?_ hnext
      rw [cell_eq htape.increment]
      rfl
    | decrement =>
      refine onTape_eq (decrement_eq htape) ?_ hnext
      rw [cell_eq htape.decrement]
      rfl
    | output => exact writeCell_eq hnext
    | input => exact readCell_eq htape hnext
    | bracket b =>
      cases b with
      | opening => exact openLoop_eq hcode hip
      | closing => exact closeLoop_eq hcode hip htop

end

end Guarded

/-! ### What execution keeps -/

/-- The machine is well-formed, and its tape fits in memory. -/
structure Machine.Sound (m : Machine) : Prop where
  /-- The machine is well-formed. -/
  wellFormed : m.WellFormed
  /-- The cells fit in memory. -/
  length_le : m.tape.length ≤ Guarded.maxLength

theorem Machine.Sound.tape {m : Machine} (h : m.Sound) : m.tape.Sound :=
  ⟨h.wellFormed.tape, h.length_le⟩

namespace Config

/-- The machine is sound, and the loop stack is in step with the text, so that it holds positions in
the code. -/
structure Sound (code : Array UInt8) (c : Config) : Prop where
  /-- The loop stack is in step with the text. -/
  tracks : c.Tracks code
  /-- The machine is sound. -/
  machine : c.host.machine.Sound

variable {code : Array UInt8} {c d : Config} {t : Turn}

/-- **Every completed step keeps a configuration sound.** -/
theorem Sound.step (h : c.step code = .advanced t d) (hc : c.Sound code) : d.Sound code := by
  refine ⟨hc.tracks.step h, wellFormed_of_step_advanced h hc.machine.wellFormed, ?_⟩
  rw [(frame_of_step_advanced h).1]
  exact hc.machine.length_le

theorem Sound.top_lt (hc : c.Sound code) {start : Nat}
    (h : c.host.machine.loops.top? = some start) : start < code.size := by
  obtain ⟨ps, hps⟩ := LoopStack.exists_opened_of_top? h
  have hlt := hc.tracks.opened.lt_length start (hps ▸ List.mem_cons_self)
  rw [length_take_of_le hc.tracks.ip_le] at hlt
  exact Nat.lt_of_lt_of_le hlt hc.tracks.ip_le

end Config

theorem Interpreter.start_sound {i : Interpreter} (h : i.machine.Sound) (code : Array UInt8) :
    i.start.Sound code :=
  ⟨i.start_tracks, ⟨h.wellFormed.tape, Nat.zero_le _⟩, h.length_le⟩

theorem Reaches.sound {code : Array UInt8} {i : Interpreter} {ts : List Turn} {c : Config}
    (h : Reaches code i.start ts c) (hi : i.machine.Sound) : c.Sound code :=
  h.invariant Config.Sound.step (i.start_sound hi code)

namespace Guarded

/-! ### Steps, runs and answers meet no fault -/

/-- **In a sound configuration, a step meets no fault.** -/
theorem step_eq {code : Array UInt8} (hcode : code.size ≤ maxLength) {c : Config}
    (hc : c.Sound code) : step code c = .ok (c.step code) := by
  obtain ⟨ip, count, host⟩ := c
  have htape := hc.machine.tape
  rw [step, Config.step]
  cases hget : code[ip]? with
  | none => rfl
  | some byte =>
    have hip := lt_size_of_getElem? hget
    dsimp only
    split
    · rfl
    · rw [cell_eq htape, ok_bind, perform_eq hcode hip htape fun _ => hc.top_lt, ok_bind]
      cases Interpreter.perform code ⟨count, ip, byte, host.machine.tape.pointer,
        host.machine.tape.cell⟩ host <;> rfl

theorem execute?_eq {code : Array UInt8} (hcode : code.size ≤ maxLength) {c : Config}
    (hc : c.Sound code) (fuel : Nat) (turns : Array Turn) :
    execute? code fuel turns c = .ok (c.execute? code fuel turns) := by
  induction fuel generalizing c turns with
  | zero => rfl
  | succ fuel ih =>
    rw [execute?, step_eq hcode hc, ok_bind, Config.execute?]
    cases hs : c.step code with
    | finished _ => rfl
    | failed _ _ _ => rfl
    | advanced t d => exact ih (hc.step hs) (turns.push t)

/-- A program fits in memory. -/
theorem size_code_le (p : Program) : p.code.size ≤ maxLength := p.size_code_le.trans (by decide)

variable {i : Interpreter}

theorem run?_eq (h : i.machine.Sound) (fuel : Nat) (p : Program) :
    run? fuel p i = .ok (i.run? fuel p) := by
  rw [run?, execute?_eq (size_code_le p) (i.start_sound h _), ok_bind, Interpreter.run?]
  dsimp only
  cases i.start.execute? p.code fuel #[] <;> rfl

/-- **The answer to a request meets no fault** if the machine is sound. -/
theorem answer?_eq (h : i.machine.Sound) (fuel : Nat) (c : Command) :
    answer? fuel i c = .ok (i.answer? fuel c) := by
  have htape := h.tape
  cases c with
  | right n =>
    rw [answer?, mapTape_eq (repeated_eq moveRight_eq Tape.Sound.moveRight htape n)]
    rfl
  | left n =>
    rw [answer?, mapTape_eq (repeated_eq moveLeft_eq Tape.Sound.moveLeft htape n)]
    rfl
  | increment n =>
    rw [answer?, mapTape_eq (repeated_eq increment_eq Tape.Sound.increment htape n)]
    rfl
  | decrement n =>
    rw [answer?, mapTape_eq (repeated_eq decrement_eq Tape.Sound.decrement htape n)]
    rfl
  | cell =>
    rw [answer?, cell_eq htape]
    rfl
  | write v =>
    rw [answer?, mapTape_eq (write_eq htape v)]
    rfl
  | moveTo p =>
    rw [answer?, mapTape_eq (moveTo_eq htape p)]
    rfl
  | run p =>
    rw [answer?, run?_eq h]
    rfl
  | _ => rfl

end Guarded

end Brainfuck
