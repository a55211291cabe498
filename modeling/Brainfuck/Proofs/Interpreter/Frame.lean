import Brainfuck.Proofs.Interpreter.Effect

/-!
# What a step leaves alone

A step that fails leaves the machine as it was, and stands where it stood
(`Config.machine_of_step_failed`). A step that completes keeps the length of the tape, the
capacity of the stack and the policy for the end of the input, and is numbered by the steps
before it (`Config.frame_of_step_advanced`); it also keeps a well-formed machine well-formed
(`Config.wellFormed_of_step_advanced`).
-/

namespace Brainfuck

@[simp] theorem EofPolicy.length_onEnd (p : EofPolicy) (t : Tape) :
    (p.onEnd t).length = t.length := by
  cases p with
  | zero => exact Tape.length_write t 0
  | unchanged => rfl

theorem EofPolicy.wellFormed_onEnd (p : EofPolicy) {t : Tape} (h : t.WellFormed) :
    (p.onEnd t).WellFormed := by
  cases p with
  | zero => exact h.write 0
  | unchanged => exact h

namespace Interpreter

variable {code : Array UInt8} {found : Fetch} {host host' : Interpreter}

/-- An instruction that fails leaves the machine alone. -/
theorem Fails.machine_eq {e : RunError} {calls : List Call}
    (h : Fails code found host e calls host') : host'.machine = host.machine := by
  cases h with
  | write _ _ => rfl
  | flush _ _ => rfl
  | read _ _ _ => rfl
  | opening _ _ _ => rfl
  | overflow _ _ _ => rfl
  | closing _ _ => rfl

/-- What an instruction that completes keeps of the interpreter. -/
structure Frame (host host' : Interpreter) : Prop where
  /-- The length of the tape. -/
  length : host'.machine.tape.length = host.machine.tape.length
  /-- The capacity of the loop stack. -/
  capacity : host'.machine.loops.capacity = host.machine.loops.capacity
  /-- The policy for the end of the input. -/
  eof : host'.eof = host.eof
  /-- The interrupt switch. -/
  interrupt : host'.interrupt = host.interrupt
  /-- That the machine is well-formed. -/
  wellFormed : host.machine.WellFormed → host'.machine.WellFormed

theorem frame_mapTape {f : Tape → Tape} (hl : ∀ t, (f t).length = t.length)
    (hw : ∀ {t : Tape}, t.WellFormed → (f t).WellFormed) : Frame host (host.mapTape f) :=
  ⟨hl _, rfl, rfl, rfl, fun h => ⟨hw h.tape, h.loops⟩⟩

theorem Does.frame {action : Action} {next : Nat} {calls : List Call} {event? : Option LoopEvent}
    (h : Does code found host action next calls event? host') : Frame host host' := by
  cases h with
  | nothing _ => exact ⟨rfl, rfl, rfl, rfl, id⟩
  | right _ => exact frame_mapTape Tape.length_moveRight Tape.WellFormed.moveRight
  | left _ => exact frame_mapTape Tape.length_moveLeft Tape.WellFormed.moveLeft
  | increment _ => exact frame_mapTape Tape.length_increment Tape.WellFormed.increment
  | decrement _ => exact frame_mapTape Tape.length_decrement Tape.WellFormed.decrement
  | wrote _ _ => exact ⟨rfl, rfl, rfl, rfl, id⟩
  | read _ _ _ =>
    exact ⟨Tape.length_write _ _, rfl, rfl, rfl, fun h => ⟨h.tape.write _, h.loops⟩⟩
  | readEnd _ _ _ =>
    exact ⟨EofPolicy.length_onEnd _ _, rfl, rfl, rfl,
      fun h => ⟨EofPolicy.wellFormed_onEnd _ h.tape, h.loops⟩⟩
  | skipped _ _ _ => exact ⟨rfl, rfl, rfl, rfl, id⟩
  | entered _ _ hpush =>
    exact ⟨rfl, LoopStack.capacity_of_push? hpush, rfl, rfl,
      fun h => ⟨h.tape, LoopStack.wellFormed_of_push? hpush⟩⟩
  | repeated _ _ _ => exact ⟨rfl, rfl, rfl, rfl, id⟩
  | exited _ _ _ => exact ⟨rfl, rfl, rfl, rfl, fun h => ⟨h.tape, h.loops.pop⟩⟩

end Interpreter

namespace Config

variable {code : Array UInt8} {c d : Config}

theorem machine_of_step_failed {e : RunError} {calls : List Call}
    (h : c.step code = .failed e calls d) :
    d.host.machine = c.host.machine ∧ d.ip = c.ip ∧ d.count = c.count := by
  obtain ⟨b, -, ⟨-, -, -, rfl⟩ | ⟨-, host, hfails, rfl⟩⟩ := step_eq_failed_iff.mp h
  · exact ⟨rfl, rfl, rfl⟩
  · exact ⟨hfails.machine_eq, rfl, rfl⟩

theorem frame_of_step_advanced {t : Turn} (h : c.step code = .advanced t d) :
    d.host.machine.tape.length = c.host.machine.tape.length ∧
      d.host.machine.loops.capacity = c.host.machine.loops.capacity ∧
      d.host.eof = c.host.eof ∧ t.step.number = c.count ∧ d.count = c.count + 1 := by
  obtain ⟨b, host, -, -, hfetch, hdoes, hcount, hhost⟩ := step_eq_advanced_iff.mp h
  have hframe := hdoes.frame
  rw [hhost]
  exact ⟨hframe.length, hframe.capacity, hframe.eof, congrArg Fetch.number hfetch, hcount⟩

/-- A step does not connect the switch. -/
theorem connected_of_step_advanced {t : Turn} (h : c.step code = .advanced t d) :
    d.host.interrupt.connected = c.host.interrupt.connected := by
  obtain ⟨b, host, -, -, -, hdoes, -, hhost⟩ := step_eq_advanced_iff.mp h
  rw [hhost]
  exact (Interrupt.connected_observe ..).trans (congrArg _ hdoes.frame.interrupt)

theorem wellFormed_of_step_advanced {t : Turn} (h : c.step code = .advanced t d)
    (hc : c.host.machine.WellFormed) : d.host.machine.WellFormed := by
  obtain ⟨b, host, -, -, -, hdoes, -, hhost⟩ := step_eq_advanced_iff.mp h
  rw [hhost]
  exact hdoes.frame.wellFormed hc

end Config

end Brainfuck
