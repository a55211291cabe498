import Brainfuck.Proofs.Interpreter.FailedRuns

/-!
# The steps tell the whole run

The record that an observer is shown of a step is put together from what the step finds and from
what it leaves behind. Nothing of a run is lost in it: who knows the tape at the start and the
records can work out the rest. `Replica.apply` does so, one record at a time, with no look at the
program and no arithmetic: where the pointer went, what a cell became, which loop was entered or
left stands in the record.

* `Config.replica_of_step_advanced`: one record, applied to what there was, gives what there is.
* `trace_replays`: so the records of a run give, from its first tape and no loop entered, the
  tape, the loops and the position that every record was made with, and those at the end.
-/

namespace Brainfuck

/-- What can be worked out from the records of a run: the tape, and the `[` of the loops that are
entered, the innermost first. -/
structure Replica where
  /-- The tape. -/
  tape : Tape
  /-- The positions of the entered loops. -/
  loops : List Nat
  deriving DecidableEq, Repr

namespace Replica

/-- The replica of a machine. -/
def ofMachine (m : Machine) : Replica := ⟨m.tape, m.loops.opened⟩

/-- Put the pointer at a position. -/
def point (p : Nat) (m : Replica) : Replica := { m with tape := { m.tape with pointer := p } }

/-- Let the cell at a position be `v`. -/
def setCell (p : Nat) (v : UInt8) (m : Replica) : Replica :=
  { m with tape := { m.tape with cells := m.tape.cells.setIfInBounds p v } }

/-- Do what a record says. -/
def apply (eof : EofPolicy) (m : Replica) (s : Step) : Replica :=
  match s.action with
  | .moved p => m.point p
  | .incremented v => m.setCell s.pointer v
  | .decremented v => m.setCell s.pointer v
  | .read b => m.setCell s.pointer b
  | .readEnd =>
    match eof with
    | .zero => m.setCell s.pointer 0
    | .unchanged => m
  | .entered _ => { m with loops := s.ip :: m.loops }
  | .left _ => { m with loops := m.loops.tail }
  | .wrote _ => m
  | .skipped _ => m
  | .repeated _ => m
  | .nothing => m

/-- Do what records say, one after another. -/
def replay (eof : EofPolicy) (m : Replica) (steps : List Step) : Replica :=
  steps.foldl (apply eof) m

end Replica

namespace Step

/-- Where execution goes on behind a step. -/
def next (s : Step) : Nat :=
  match s.action with
  | .skipped close => close + 1
  | .repeated start => start + 1
  | _ => s.ip + 1

/-- Where execution stands that started at `ip` and made these steps. -/
def successor (ip : Nat) (steps : List Step) : Nat := (steps.getLast?.map next).getD ip

/-- The record was made with what the replica `m` holds: the pointer, the current cell, and the
number of loops entered behind the step if it entered or left one. -/
structure Fits (eof : EofPolicy) (m : Replica) (s : Step) : Prop where
  /-- The pointer. -/
  pointer : s.pointer = m.tape.pointer
  /-- The current cell. -/
  cell : s.cell = m.tape.cell
  /-- The loops entered, where one is entered. -/
  entered : ∀ depth, s.action = .entered depth → depth = (m.apply eof s).loops.length
  /-- The loops entered, where one is left. There is one to leave. -/
  left : ∀ depth, s.action = .left depth →
    m.loops ≠ [] ∧ depth = (m.apply eof s).loops.length

theorem successor_cons (ip : Nat) (s : Step) (steps : List Step) :
    successor ip (s :: steps) = successor s.next steps := by
  unfold successor
  rw [List.getLast?_cons]
  cases steps.getLast? <;> rfl

end Step

/-- What the records `front` of a run of `i` give. -/
def Interpreter.replayed (i : Interpreter) (front : List Step) : Replica :=
  Replica.replay i.eof ⟨i.machine.tape, []⟩ front

/-- The record `s` is the one to be made behind the records `front` of a run of `i`. -/
structure Step.Follows (code : Array UInt8) (i : Interpreter) (front : List Step) (s : Step) :
    Prop where
  /-- The records are numbered from 0 on, without gaps. -/
  number : s.number = front.length
  /-- The first step is at position 0, and each step is where the one before it leads. -/
  ip : s.ip = Step.successor 0 front
  /-- There stands the instruction recorded. -/
  byte : code[s.ip]? = some s.byte
  /-- The record was made with what the records before it give. -/
  fits : s.Fits i.eof (i.replayed front)

/-- In a run of `i` the records `steps` are made, each behind those before it, and lead to the
position `ip` and the machine `m`. -/
structure Replays (code : Array UInt8) (i : Interpreter) (steps : List Step) (ip : Nat)
    (m : Machine) : Prop where
  /-- Each record is the one to be made behind those before it. -/
  follows : ∀ front s back, steps = front ++ s :: back → s.Follows code i front
  /-- The last step leads to `ip`. -/
  ip_eq : ip = Step.successor 0 steps
  /-- The records give the machine. -/
  machine : Replica.ofMachine m = i.replayed steps

/-! ### One step -/

/-- Writing what a write left in the cell is that write. -/
theorem Tape.write_cell_write (t : Tape) (v : UInt8) : t.write (t.write v).cell = t.write v := by
  by_cases h : t.WellFormed
  · rw [cell_write h]
  · have hle : t.cells.size ≤ t.pointer := Nat.not_lt.mp h
    simp only [write, Array.setIfInBounds_eq_of_size_le hle]

namespace Interpreter

variable {code : Array UInt8} {found : Fetch} {host host' : Interpreter} {action : Action}
  {next : Nat} {calls : List Call} {event? : Option LoopEvent}

/-- The record of an instruction, applied to what there was, gives what there is. -/
theorem Does.replica (h : Does code found host action next calls event? host')
    (hp : found.pointer = host.machine.tape.pointer) :
    Replica.ofMachine host'.machine =
      (Replica.ofMachine host.machine).apply host.eof ⟨found, action⟩ := by
  have hwrite : ∀ v, (Replica.ofMachine host.machine).setCell found.pointer v =
      ⟨host.machine.tape.write v, host.machine.loops.opened⟩ := by
    intro v
    rw [hp]
    rfl
  cases h with
  | nothing _ | right _ | left _ | wrote _ _ | skipped _ _ _ | repeated _ _ _ => rfl
  | increment _ =>
    show _ = (Replica.ofMachine host.machine).setCell found.pointer _
    rw [hwrite, Tape.increment, Tape.write_cell_write]
    rfl
  | decrement _ =>
    show _ = (Replica.ofMachine host.machine).setCell found.pointer _
    rw [hwrite, Tape.decrement, Tape.write_cell_write]
    rfl
  | read _ _ _ => exact (hwrite _).symm
  | readEnd _ _ _ =>
    obtain ⟨machine, input, output, eof, interrupt⟩ := host
    cases eof with
    | zero => exact (hwrite 0).symm
    | unchanged => rfl
  | entered _ _ hpush =>
    exact congrArg (Replica.mk _) (LoopStack.opened_of_push? hpush)
  | exited _ _ _ =>
    exact congrArg (Replica.mk _) (LoopStack.opened_pop _)

/-- An instruction leads where its record says. -/
theorem Does.next_eq (h : Does code found host action next calls event? host') :
    next = Step.next ⟨found, action⟩ := by
  cases h <;> rfl

/-- The record of an instruction was made with what there was. -/
theorem Does.fits (h : Does code found host action next calls event? host')
    (hp : found.pointer = host.machine.tape.pointer)
    (hcell : found.cell = host.machine.tape.cell) :
    (⟨found, action⟩ : Step).Fits host.eof (Replica.ofMachine host.machine) := by
  have hreplica := h.replica hp
  have hmove := h.loopMove
  refine ⟨hp, hcell, ?_, ?_⟩
  · intro depth haction
    obtain rfl : action = .entered depth := haction
    rw [← hreplica]
    cases h with
    | entered _ _ _ => exact (LoopStack.length_opened _).symm
  · intro depth haction
    obtain rfl : action = .left depth := haction
    obtain ⟨start, -, htop, -, hpop, hdepth, -⟩ := hmove.of_left
    obtain ⟨ps, hps⟩ := LoopStack.exists_opened_of_top? htop
    rw [← hreplica]
    refine ⟨?_, ?_⟩
    · show host.machine.loops.opened ≠ []
      rw [hps]
      exact List.cons_ne_nil start ps
    · show depth = host'.machine.loops.opened.length
      rw [LoopStack.length_opened, hpop, LoopStack.depth_pop, hdepth]

end Interpreter

/-- One record, applied to what there was, gives what there is. -/
theorem Config.replica_of_step_advanced {code : Array UInt8} {c d : Config} {t : Turn}
    (h : c.step code = .advanced t d) :
    Replica.ofMachine d.host.machine =
        (Replica.ofMachine c.host.machine).apply c.host.eof t.step ∧
      d.ip = t.step.next ∧ t.step.ip = c.ip ∧ code[c.ip]? = some t.step.byte ∧
      t.step.Fits c.host.eof (Replica.ofMachine c.host.machine) := by
  obtain ⟨b, host, hget, -, hfetch, hdoes, -, hhost⟩ := step_eq_advanced_iff.mp h
  obtain ⟨⟨found, action⟩, calls, event?⟩ := t
  obtain rfl : found = c.fetch b := hfetch
  rw [hhost]
  exact ⟨hdoes.replica rfl, hdoes.next_eq, rfl, hget, hdoes.fits rfl rfl⟩

/-! ### A run -/

namespace Reaches

variable {code : Array UInt8} {c d : Config} {ts : List Turn}

/-- The records of a path, applied to what there was, give what there is. -/
theorem replica_eq (h : Reaches code c ts d) :
    Replica.ofMachine d.host.machine =
        Replica.replay c.host.eof (Replica.ofMachine c.host.machine) (ts.map (·.step)) ∧
      d.ip = Step.successor c.ip (ts.map (·.step)) := by
  induction h with
  | refl c => exact ⟨rfl, rfl⟩
  | step hs _ ih =>
    obtain ⟨hreplica, hip⟩ := ih
    obtain ⟨-, -, heof, -⟩ := Config.frame_of_step_advanced hs
    obtain ⟨hstep, hnext, -⟩ := Config.replica_of_step_advanced hs
    rw [hstep, heof] at hreplica
    rw [hnext] at hip
    refine ⟨hreplica, ?_⟩
    rw [List.map_cons, Step.successor_cons, hip]

/-- Where a record of a path was made. -/
theorem exists_of_steps_eq {front back : List Step} {s : Step} (h : Reaches code c ts d)
    (hs : ts.map (·.step) = front ++ s :: back) :
    ∃ us e t e', Reaches code c us e ∧ us.map (·.step) = front ∧ e.step code = .advanced t e' ∧
      t.step = s := by
  obtain ⟨us, vs, rfl, rfl, hvs⟩ := List.map_eq_append_iff.mp hs
  obtain ⟨t, vs, rfl, rfl, -⟩ := List.map_eq_cons_iff.mp hvs
  obtain ⟨e, he, hrest⟩ := h.exists_of_append
  cases hrest with
  | step ht _ => exact ⟨us, e, t, _, he, rfl, ht, rfl⟩

/-- Wherever a run gets, its records tell how. -/
theorem replays {i : Interpreter} (h : Reaches code i.start ts c) :
    Replays code i (ts.map (·.step)) c.ip c.host.machine := by
  obtain ⟨hreplica, hip⟩ := h.replica_eq
  refine ⟨?_, hip, hreplica⟩
  intro front s back hs
  obtain ⟨us, e, t, e', he, rfl, ht, rfl⟩ := h.exists_of_steps_eq hs
  obtain ⟨hfront, hposition⟩ := he.replica_eq
  obtain ⟨-, -, hip', hget, hfits⟩ := Config.replica_of_step_advanced ht
  obtain ⟨-, -, -, hnumber, -⟩ := Config.frame_of_step_advanced ht
  rw [hfront, he.eof_eq] at hfits
  refine ⟨?_, hip'.trans hposition, ?_, hfits⟩
  · rw [hnumber, he.count_eq, List.length_map]
    exact Nat.zero_add _
  · rw [hip', hget]

end Reaches

/-- **The steps tell the whole run.** For every program and every interpreter, the records made
up to any point of a run, whether it ends or not, are numbered without gaps, each was made where
the one before it leads and with what those before it give, and together they give the machine
there. The records of a run that ends give the machine it leaves, and lead to the end of the
program if it was executed, and else to the position that its error names. -/
theorem trace_replays (p : Program) (i : Interpreter) :
    (∀ ts c, Reaches p.code i.start ts c →
        Replays p.code i (ts.map (·.step)) c.ip c.host.machine) ∧
      ∀ fuel r, i.run? fuel p = some r →
        ∃ ip, Replays p.code i r.steps.toList ip r.after.machine ∧
          (r.halt = .completed → ip = p.code.size) ∧
          ∀ e calls, r.halt = .failed e calls → ip = e.position := by
  refine ⟨fun ts c hr => hr.replays, ?_⟩
  intro fuel r h
  obtain ⟨c, last, hr, hh, hafter, -⟩ := Interpreter.exists_halts h
  refine ⟨c.ip, ?_, ?_, ?_⟩
  · rw [r.toList_steps, hafter]
    exact hr.replays
  · intro hcompleted
    rw [hcompleted] at hh
    exact hh.ip_eq_size hr.tracks.ip_le
  · intro e calls hfailed
    rw [hfailed] at hh
    exact (Config.located_of_step_failed hh r).1.symm

end Brainfuck
