import Brainfuck.Proofs.Guarded.Engine

/-!
# Nothing ever faults

An interpreter that was made from a new tape and a new stack, whatever their sizes, and then asked
for anything in any order (`Interpreter.Arises`), has a sound machine: each request keeps it so
(`Interpreter.sound_of_answer?`), and so does each completed step of a run (`Config.Sound.step`). So
every check that is made, between the runs and within them, succeeds, and the total operations are
what a machine with words and memory does (`Interpreter.Arises.never_faults`).

The number of a step is not among the checks. It is the number of steps made before it
(`Reaches.count_eq_length`), and a run would have to make two to the power of 64 steps for it not to
fit in a word.
-/

namespace Brainfuck

/-- What is asked for can be had: a new tape fits in memory. -/
def Command.Fits : Command → Prop
  | .newTape n => n ≤ Guarded.maxLength
  | _ => True

/-- The interpreters there are: those around a new tape and a new stack of any sizes that can be
had, and those left by the answer to a request. A run is one of the requests, whatever its
outcome. -/
inductive Interpreter.Arises : Interpreter → Prop where
  /-- A new machine, and two streams. -/
  | new {length capacity : Nat} (input : Source) (output : Sink) (h : length ≤ Guarded.maxLength) :
      Arises (.ofMachine ⟨.ofLength length, .ofCapacity capacity⟩ input output)
  /-- What a request leaves. -/
  | answer {i i' : Interpreter} {fuel : Nat} {c : Command} {reply : Reply} :
      Arises i → i.answer? fuel c = some (reply, i') → c.Fits → Arises i'

/-! ### What a request keeps -/

theorem Machine.Sound.new {n : Nat} (h : n ≤ Guarded.maxLength) (capacity : Nat) :
    Machine.Sound ⟨.ofLength n, .ofCapacity capacity⟩ := by
  have htape : (Tape.ofLength n).Sound := .ofLength h
  exact ⟨⟨htape.wellFormed, Nat.zero_le _⟩, htape.length_le⟩

namespace Interpreter

variable {i i' : Interpreter}

theorem sound_mapTape {f : Tape → Tape} (h : i.machine.Sound) (hf : (f i.machine.tape).Sound) :
    (i.mapTape f).machine.Sound :=
  ⟨⟨hf.wellFormed, h.wellFormed.loops⟩, hf.length_le⟩

theorem sound_mapLoops {f : LoopStack → LoopStack} (h : i.machine.Sound)
    (hf : (f i.machine.loops).WellFormed) : (i.mapLoops f).machine.Sound :=
  ⟨⟨h.wellFormed.tape, hf⟩, h.length_le⟩

/-- A run keeps the machine sound, however it ends. -/
theorem sound_of_run? {fuel : Nat} {p : Program} {r : Run} (hi : i.machine.Sound)
    (h : i.run? fuel p = some r) : r.after.machine.Sound := by
  obtain ⟨c, last, hr, -, hmachine, -⟩ := exists_halts h
  rw [hmachine]
  exact (hr.sound hi).machine

/-- **Every request keeps the machine sound.** -/
theorem sound_of_answer? {fuel : Nat} {c : Command} {reply : Reply} (hi : i.machine.Sound)
    (hc : c.Fits) (h : i.answer? fuel c = some (reply, i')) : i'.machine.Sound := by
  have htape := hi.tape
  cases c with
  | run p =>
    obtain ⟨r, hr, heq⟩ := Option.map_eq_some_iff.mp h
    cases heq
    exact sound_of_run? hi hr
  | push p =>
    rw [answer?, LoopStack.push] at h
    cases hpush : i.machine.loops.push? p with
    | none =>
      rw [hpush] at h
      cases h
      exact hi
    | some loops =>
      rw [hpush] at h
      cases h
      exact sound_mapLoops hi (LoopStack.wellFormed_of_push? hpush)
  | right n => cases h; exact sound_mapTape hi (htape.iterate Tape.Sound.moveRight n)
  | left n => cases h; exact sound_mapTape hi (htape.iterate Tape.Sound.moveLeft n)
  | increment n => cases h; exact sound_mapTape hi (htape.iterate Tape.Sound.increment n)
  | decrement n => cases h; exact sound_mapTape hi (htape.iterate Tape.Sound.decrement n)
  | write v => cases h; exact sound_mapTape hi (htape.write v)
  | moveTo p => cases h; exact sound_mapTape hi (htape.moveTo p)
  | newTape n => cases h; exact sound_mapTape hi (.ofLength hc)
  | pop => cases h; exact sound_mapLoops hi hi.wellFormed.loops.pop
  | clear => cases h; exact sound_mapLoops hi (Nat.zero_le _)
  | newLoops capacity => cases h; exact sound_mapLoops hi (Nat.zero_le _)
  | newMachine => cases h; exact .new (by decide) _
  | cell | top | setEof _ | setInterrupt _ | observe _ | rebuild => cases h; exact hi

theorem Arises.sound (h : i.Arises) : i.machine.Sound := by
  induction h with
  | new _ _ hlength => exact .new hlength _
  | answer _ hanswer hc ih => exact sound_of_answer? ih hc hanswer

end Interpreter

/-! ### What a run keeps -/

/-- A run changes neither the length of the tape nor the capacity of the stack. -/
theorem Interpreter.sizes_of_run? {i : Interpreter} {fuel : Nat} {p : Program} {r : Run}
    (h : i.run? fuel p = some r) :
    r.after.machine.tape.length = i.machine.tape.length ∧
      r.after.machine.loops.capacity = i.machine.loops.capacity := by
  obtain ⟨c, last, hr, -, hmachine, -⟩ := exists_halts h
  rw [hmachine]
  exact ⟨hr.length_eq, hr.capacity_eq⟩

/-- The tape has a cell, the pointer is on it, and no more loops are entered than fit. -/
structure Machine.InBounds (m : Machine) : Prop where
  /-- The tape has a cell. -/
  length_pos : 0 < m.tape.length
  /-- The pointer is on the tape. -/
  pointer_lt : m.tape.pointer < m.tape.length
  /-- No more loops are entered than fit. -/
  depth_le : m.loops.depth ≤ m.loops.capacity

theorem Machine.Sound.inBounds {m : Machine} (h : m.Sound) : m.InBounds :=
  ⟨h.wellFormed.tape.length_pos, h.wellFormed.tape, h.wellFormed.loops⟩

/-- **No array is ever left, and no sum, difference or remainder goes wrong.** For every interpreter
that arises, whatever was asked of it:

* the tape has a cell, the pointer is on it, and no more loops are entered than fit;
* the answer to any request meets no fault, and is the answer that it is without checks;
* a run keeps the length of the tape and the capacity of the stack, whatever its outcome;
* the same holds at every point of a run, whether it ends or not, and the next step meets no fault;
  the instruction pointer stays in the code or behind its end;
* the search for a closing bracket meets no fault, in any code that fits in memory. -/
theorem Interpreter.Arises.never_faults {i : Interpreter} (h : i.Arises) :
    i.machine.InBounds ∧
      (∀ fuel c, Guarded.answer? fuel i c = .ok (i.answer? fuel c)) ∧
      (∀ fuel p r, i.run? fuel p = some r →
        r.after.machine.InBounds ∧ r.after.machine.tape.length = i.machine.tape.length ∧
          r.after.machine.loops.capacity = i.machine.loops.capacity) ∧
      (∀ (p : Program) ts c, Reaches p.code i.start ts c →
        c.host.machine.InBounds ∧ c.host.machine.tape.length = i.machine.tape.length ∧
          c.host.machine.loops.capacity = i.machine.loops.capacity ∧ c.ip ≤ p.code.size ∧
          c.count = ts.length ∧ Guarded.step p.code c = .ok (c.step p.code)) ∧
      ∀ (code : Array UInt8) k, code.size ≤ Guarded.maxLength → k < code.size →
        Guarded.closeOf code k = .ok (Brackets.closeOf? code k) := by
  have hi := h.sound
  refine ⟨hi.inBounds, Guarded.answer?_eq hi, fun fuel p r hr => ?_, fun p ts c hr => ?_,
    fun code k hcode hk => Guarded.closeOf_eq hcode hk⟩
  · exact ⟨(sound_of_run? hi hr).inBounds, sizes_of_run? hr⟩
  · have hc := hr.sound hi
    exact ⟨hc.machine.inBounds, hr.length_eq, hr.capacity_eq, hc.tracks.ip_le, hr.count_eq_length,
      Guarded.step_eq (Guarded.size_code_le p) hc⟩

/-- A tape asked to have no cell, a pointer put at the greatest word, and a stack that holds one
loop and overflows in a run of `[[`: nothing faults, and nothing does in what is asked for
afterwards. -/
theorem Interpreter.Arises.never_faults_overflow :
    ∃ (i : Interpreter) (p : Program) (r : Run), i.Arises ∧ p.buffer = #[91, 91] ∧
      i.run? 3 p = some r ∧ r.outcome = .error (.stackOverflow 1 1) ∧
      r.after.machine = ⟨⟨#[253], 0⟩, ⟨#[0], 1⟩⟩ ∧ i.machine.InBounds ∧
      Guarded.answer? 3 i (.run p) = .ok (some (.ran r, r.after)) ∧
      r.after.machine.tape.length = i.machine.tape.length ∧ r.after.Arises ∧
      ∀ fuel c, Guarded.answer? fuel r.after c = .ok (r.after.answer? fuel c) := by
  let p : Program := ⟨#[91, 91], by decide⟩
  let new : Interpreter := .ofMachine ⟨.ofLength 0, .ofCapacity 1⟩ [] .reliable
  let placed : Interpreter := new.mapTape (.moveTo 0xffffffffffffffff)
  let i : Interpreter := placed.mapTape (Nat.repeat .decrement 3)
  have hplaced : new.answer? 0 (.moveTo 0xffffffffffffffff) = some (.done, placed) := rfl
  have hdecrement : placed.answer? 0 (.decrement 3) = some (.done, i) := rfl
  have hi : i.Arises :=
    .answer (.answer (.new [] .reliable (Nat.zero_le _)) hplaced trivial) hdecrement trivial
  have hrun : (i.run? 3 p).map (fun r => (r.outcome, r.after.machine)) =
      some (.error (.stackOverflow 1 1), ⟨⟨#[253], 0⟩, ⟨#[0], 1⟩⟩) := by
    decide +kernel
  obtain ⟨r, hr, hend⟩ := Option.map_eq_some_iff.mp hrun
  obtain ⟨houtcome, hmachine⟩ := Prod.mk.inj hend
  have hanswer : i.answer? 3 (.run p) = some (.ran r, r.after) := by
    rw [Interpreter.answer?, hr]
    rfl
  have hafter : r.after.Arises := .answer hi hanswer trivial
  obtain ⟨hbounds, hanswers, hruns, -, -⟩ := Interpreter.Arises.never_faults hi
  obtain ⟨-, hanswers', -, -, -⟩ := Interpreter.Arises.never_faults hafter
  refine ⟨i, p, r, hi, rfl, hr, houtcome, hmachine, hbounds, ?_, (hruns 3 p r hr).2.1, hafter,
    hanswers'⟩
  rw [hanswers 3 (.run p), hanswer]

end Brainfuck
