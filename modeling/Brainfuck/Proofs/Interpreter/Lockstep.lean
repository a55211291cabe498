import Brainfuck.Proofs.Interpreter.Ending

/-!
# Runs in lockstep

No instruction looks at the interrupt switch, and none but an `[` that enters a loop looks at the
capacity of the loop stack. So an interpreter with another switch and with more room on its stack
(`Interpreter.refit`) does the same, step by step, as long as the two switches agree on whether to
stop, and until the smaller stack is full.

The switch changes in a run, by the observation of its steps; `Interrupt.after` says what has become
of it. `Interpreter.run?_refit` is what the steps come to for a whole run.
-/

namespace Brainfuck

/-- The switch after the steps before number `n` were observed. -/
def Interrupt.after (s : Interrupt) : Nat → Interrupt
  | 0 => s
  | n + 1 => (s.after n).observe n

/-- The same loops on a stack of another capacity. -/
def LoopStack.resize (k : Nat) (s : LoopStack) : LoopStack := { s with capacity := k }

/-- The same interpreter with another switch, and with room for `k` loops. -/
def Interpreter.refit (s : Interrupt) (k : Nat) (i : Interpreter) : Interpreter :=
  { i.mapLoops (.resize k) with interrupt := s }

/-- The same configuration with room for `k` loops, and with the switch that `s` has become. -/
def Config.refit (s : Interrupt) (k : Nat) (c : Config) : Config :=
  { c with host := c.host.refit (s.after c.count) k }

/-- The same run, where the interpreter has room for `k` loops and the switch that `s` has
become. -/
def Run.refit (s : Interrupt) (k : Nat) (r : Run) : Run :=
  { r with after := r.after.refit (s.after r.turns.size) k }

/-- The same interpreter with another switch. -/
def Interpreter.switched (s : Interrupt) (i : Interpreter) : Interpreter :=
  { i with interrupt := s }

/-- The same configuration with the switch that `s` has become. -/
def Config.switched (s : Interrupt) (c : Config) : Config :=
  { c with host := c.host.switched (s.after c.count) }

/-- The same run with the switch that `s` has become. -/
def Run.switched (s : Interrupt) (r : Run) : Run :=
  { r with after := r.after.switched (s.after r.turns.size) }

/-- A switch that no step turns on stays as it is. -/
theorem Interrupt.after_of_raiseAt_none {s : Interrupt} (h : s.raiseAt = none) (n : Nat) :
    s.after n = s := by
  induction n with
  | zero => rfl
  | succ n ih => simp [Interrupt.after, ih, Interrupt.observe, h]

/-- A stack with more room takes what the smaller one takes. -/
theorem LoopStack.push?_resize {s s' : LoopStack} {p k : Nat} (h : s.push? p = some s')
    (hk : s.capacity ≤ k) : (s.resize k).push? p = some (s'.resize k) := by
  obtain ⟨hlt, rfl⟩ := push?_eq_some_iff.mp h
  exact push?_eq_some_iff.mpr ⟨Nat.lt_of_lt_of_le hlt hk, rfl⟩

/-! ### One instruction -/

namespace Interpreter

variable {code : Array UInt8} {found : Fetch} {host host' : Interpreter} {calls : List Call}
  {k : Nat}

/-- An instruction that completes does the same whatever the switch, and with more room. -/
theorem Does.refit {action : Action} {next : Nat} {event? : Option LoopEvent}
    (h : Does code found host action next calls event? host')
    (hk : host.machine.loops.capacity ≤ k) (s : Interrupt) :
    Does code found (host.refit s k) action next calls event? (host'.refit s k) := by
  cases h with
  | nothing hb => exact .nothing hb
  | right hb => exact .right hb
  | left hb => exact .left hb
  | increment hb => exact .increment hb
  | decrement hb => exact .decrement hb
  | wrote hb hput => exact .wrote hb hput
  | read hb hflush hpull => exact .read hb hflush hpull
  | readEnd hb hflush hpull => exact .readEnd hb hflush hpull
  | skipped hb hcell hclose => exact .skipped hb hcell hclose
  | @entered loops hb hcell hpush =>
    have hdoes : Does code found (host.refit s k) (.entered (loops.resize k).depth)
        (found.ip + 1) [] (some (.entered found.ip (loops.resize k).depth))
        ((host.refit s k).mapLoops fun _ => loops.resize k) :=
      .entered hb hcell (LoopStack.push?_resize hpush hk)
    exact hdoes
  | repeated hb hcell htop => exact .repeated hb hcell htop
  | exited hb hcell htop => exact .exited hb hcell htop

/-- An instruction that fails does so whatever the switch, and with more room too unless the stack
is full. -/
theorem Fails.refit {e : RunError} (h : Fails code found host e calls host')
    (hk : (∃ ip capacity, e = .stackOverflow ip capacity) → k = host.machine.loops.capacity)
    (s : Interrupt) : Fails code found (host.refit s k) e calls (host'.refit s k) := by
  cases h with
  | write hb hput => exact .write hb hput
  | flush hb hflush => exact .flush hb hflush
  | read hb hflush hpull => exact .read hb hflush hpull
  | opening hb hcell hclose => exact .opening hb hcell hclose
  | overflow hb hcell hpush =>
    obtain rfl := hk ⟨_, _, rfl⟩
    exact .overflow hb hcell hpush
  | closing hb htop => exact .closing hb htop

/-- An instruction that fails leaves the switch alone. -/
theorem Fails.interrupt_eq {code : Array UInt8} {found : Fetch}
    {host host' : Interpreter} {e : RunError} {calls : List Call}
    (h : Fails code found host e calls host') : host'.interrupt = host.interrupt := by
  cases h <;> rfl

end Interpreter

/-! ### Steps and paths -/

namespace Config

variable {code : Array UInt8} {c d last : Config} {k : Nat} {s : Interrupt}

theorem refit_advanced {t : Turn} (h : c.step code = .advanced t d)
    (hk : c.host.machine.loops.capacity ≤ k) (hs : ¬ (s.after c.count).Stops) :
    (c.refit s k).step code = .advanced t (d.refit s k) := by
  obtain ⟨b, host, hget, -, hfetch, hdoes, hcount, hhost⟩ := step_eq_advanced_iff.mp h
  refine step_eq_advanced_iff.mpr
    ⟨b, _, hget, hs, hfetch, hdoes.refit hk (s.after c.count), hcount, ?_⟩
  show d.host.refit (s.after d.count) k = _
  rw [hhost, hcount]
  rfl

theorem refit_halts {halt : Halt} (h : c.Halts code halt last)
    (hk : ∀ ip capacity calls, halt = .failed (.stackOverflow ip capacity) calls →
      k = c.host.machine.loops.capacity)
    (hs : c.ip < code.size → ((s.after c.count).Stops ↔ c.host.interrupt.Stops)) :
    (c.refit s k).Halts code halt (last.refit s k) := by
  cases halt with
  | completed =>
    obtain ⟨hnone, rfl⟩ := step_eq_finished_iff.mp h
    exact step_eq_finished_iff.mpr ⟨hnone, rfl⟩
  | failed e calls =>
    obtain ⟨b, hget, hfailed⟩ := step_eq_failed_iff.mp h
    have hstops := hs (Array.getElem?_eq_some_iff.mp hget).1
    refine step_eq_failed_iff.mpr ⟨b, hget, ?_⟩
    rcases hfailed with ⟨hstop, rfl, rfl, rfl⟩ | ⟨hgo, host, hfails, rfl⟩
    · exact .inl ⟨hstops.mpr hstop, rfl, rfl, rfl⟩
    · refine .inr ⟨fun hstop => hgo (hstops.mp hstop), _, hfails.refit ?_ (s.after c.count), rfl⟩
      rintro ⟨ip, capacity, rfl⟩
      exact hk ip capacity calls rfl

/-- The end of an execution leaves the switch alone. -/
theorem Halts.interrupt_eq {halt : Halt} (h : c.Halts code halt last) :
    last.host.interrupt = c.host.interrupt := by
  cases halt with
  | completed =>
    obtain ⟨-, rfl⟩ := step_eq_finished_iff.mp h
    rfl
  | failed e calls =>
    obtain ⟨b, -, ⟨-, -, -, rfl⟩ | ⟨-, host, hfails, rfl⟩⟩ := step_eq_failed_iff.mp h
    · rfl
    · exact hfails.interrupt_eq

end Config

namespace Reaches

variable {code : Array UInt8} {c d : Config} {ts : List Turn} {k : Nat} {s : Interrupt}

/-- The switch of a configuration is what the one at the start has become. -/
theorem interrupt_eq {i : Interpreter} (h : Reaches code i.start ts c) :
    c.host.interrupt = i.interrupt.after c.count := by
  refine h.invariant (I := fun c => c.host.interrupt = i.interrupt.after c.count) ?_ rfl
  intro c t d hs hc
  obtain ⟨b, host, -, -, -, hdoes, hcount, hhost⟩ := Config.step_eq_advanced_iff.mp hs
  rw [hhost, hcount]
  show host.interrupt.observe c.count = (i.interrupt.after c.count).observe c.count
  rw [hdoes.frame.interrupt, hc]

/-- Where a step was made, nothing stopped it. -/
theorem exists_idle {i : Interpreter} (h : Reaches code i.start ts c) {n : Nat} (hn : n < c.count) :
    ∃ us d, Reaches code i.start us d ∧ d.count = n ∧ d.ip < code.size ∧
      ¬ d.host.interrupt.Stops := by
  rw [h.count_eq_length] at hn
  obtain ⟨us, d, t, d', hd, rfl, hs⟩ := h.exists_step hn
  obtain ⟨b, -, hget, hgo, -⟩ := Config.step_eq_advanced_iff.mp hs
  exact ⟨us, d, hd, hd.count_eq_length, (Array.getElem?_eq_some_iff.mp hget).1, hgo⟩

/-- A path is one with more room and another switch, if that does not stop it on the way. -/
theorem refit (h : Reaches code c ts d) (hk : c.host.machine.loops.capacity ≤ k)
    (hs : ∀ n, n < d.count → ¬ (s.after n).Stops) :
    Reaches code (c.refit s k) ts (d.refit s k) := by
  induction h with
  | refl c => exact .refl _
  | @step c d e t ts hstep hrest ih =>
    obtain ⟨-, hcapacity, -, -, hcount⟩ := Config.frame_of_step_advanced hstep
    have hlt : c.count < e.count := by
      rw [hrest.count_eq, hcount]
      omega
    exact .step (Config.refit_advanced hstep hk (hs _ hlt)) (ih (hcapacity ▸ hk) hs)

/-- A path is one with another switch, if that does not stop it on the way. -/
theorem switched (h : Reaches code c ts d) (hs : ∀ n, n < d.count → ¬ (s.after n).Stops) :
    Reaches code (c.switched s) ts (d.switched s) := by
  have hpath := h.refit (Nat.le_refl _) hs
  have hd : d.refit s c.host.machine.loops.capacity = d.switched s := by
    rw [← h.capacity_eq]
    rfl
  rw [hd] at hpath
  exact hpath

end Reaches

/-! ### Runs -/

namespace Interpreter

variable {p : Program} {i : Interpreter} {k : Nat} {s : Interrupt}

/-- A run leaves the switch that its steps have made of it. -/
theorem interrupt_of_run? {fuel : Nat} {r : Run} (h : i.run? fuel p = some r) :
    r.after.interrupt = i.interrupt.after r.turns.size := by
  obtain ⟨c, last, hr, -, hh, heq⟩ := run?_eq_some_iff.mp h
  have hcount : c.count = r.turns.size := by
    rw [hr.count_eq_length, Array.length_toList]
  rw [← hcount, ← hr.interrupt_eq, ← hh.interrupt_eq, heq]
  rfl

/-- **A run does not depend on the switch and the room on the stack**, unless these stop it: a run
with another switch and more room is the same run, if the switches agree wherever there is an
instruction, and no loop that is to be entered finds the stack full. -/
theorem run?_refit (hk : i.machine.loops.capacity ≤ k)
    (hs : ∀ ts c, Reaches p.code i.start ts c → c.ip < p.code.size →
      ((s.after c.count).Stops ↔ c.host.interrupt.Stops))
    (hfull : k = i.machine.loops.capacity ∨ ∀ ts c d ip capacity calls,
      Reaches p.code i.start ts c → c.step p.code ≠ .failed (.stackOverflow ip capacity) calls d)
    (fuel : Nat) : (i.refit s k).run? fuel p = (i.run? fuel p).map (Run.refit s k) := by
  have hpath : ∀ {ts c}, Reaches p.code i.start ts c →
      Reaches p.code (i.refit s k).start ts (c.refit s k) := by
    intro ts c hr
    refine hr.refit (s := s) hk fun n hn => ?_
    obtain ⟨us, e, he, rfl, hip, hgo⟩ := hr.exists_idle hn
    rw [hs us e he hip]
    exact hgo
  cases hrun : i.run? fuel p with
  | none =>
    obtain ⟨ts, c, hr, hlen⟩ := run?_eq_none_iff.mp hrun
    exact run?_eq_none_iff.mpr ⟨ts, _, hpath hr, hlen⟩
  | some r =>
    obtain ⟨c, last, hr, hlt, hh, heq⟩ := run?_eq_some_iff.mp hrun
    have hhalts : (c.refit s k).Halts p.code r.halt (last.refit s k) := by
      refine Config.refit_halts hh (fun ip capacity calls hhalt => ?_) (hs _ _ hr)
      rcases hfull with rfl | hfull
      · exact hr.capacity_eq.symm
      · rw [hhalt] at hh
        exact absurd hh (hfull _ _ _ _ _ _ hr)
    have hlast : last.count = r.turns.size := by
      rw [hh.count_eq, hr.count_eq_length, Array.length_toList]
    refine run?_eq_some_iff.mpr ⟨_, _, hpath hr, hlt, hhalts, ?_⟩
    rw [heq]
    show Run.mk _ _ _ _ _ (Interpreter.refit (s.after r.turns.size) k last.host.afterFlush) = _
    rw [← hlast]
    rfl

/-- A run with another switch is the same run, if the switches agree wherever there is an
instruction. -/
theorem run?_switched
    (hs : ∀ ts c, Reaches p.code i.start ts c → c.ip < p.code.size →
      ((s.after c.count).Stops ↔ c.host.interrupt.Stops)) (fuel : Nat) :
    (i.switched s).run? fuel p = (i.run? fuel p).map (Run.switched s) := by
  refine (run?_refit (Nat.le_refl _) hs (.inl rfl) fuel).trans ?_
  refine Option.map_congr fun r hr => ?_
  obtain ⟨c, -, hreach, -, hafter, -⟩ := exists_halts hr
  have hcapacity : i.machine.loops.capacity = r.after.machine.loops.capacity := by
    rw [hafter, hreach.capacity_eq]
    rfl
  rw [hcapacity]
  rfl

end Interpreter

end Brainfuck
