import Brainfuck.Proofs.Interpreter.Lockstep
import Brainfuck.Proofs.Interpreter.StaticLoops

/-!
# The capacity of the loop stack

How many loops the stack may hold decides one thing: whether an `[` that is to enter a loop does so
or fails. So a run with a smaller stack is the run with a larger one, up to the first loop that does
not fit, and all of it if there is none (`capacity_decides_overflow`).

Whether a loop fits can be told from the text. Wherever a run stands, the stack holds the `[` before
that have no partner before, at most as many as it may (`Reaches.loops_wellFormed`). So it is full
where the code before has as many unclosed `[`, and the loop that does not fit is one more. A loop
that is skipped is never on the stack, and neither is what stands in it: nothing is pushed, and
the unclosed `[` before the loop are those behind it.
-/

namespace Brainfuck

/-- The same interpreter with room for `k` loops. -/
def Interpreter.withCapacity (k : Nat) (i : Interpreter) : Interpreter := i.mapLoops (.resize k)

/-- The same configuration with room for `k` loops. -/
def Config.withCapacity (k : Nat) (c : Config) : Config := { c with host := c.host.withCapacity k }

/-- The same run, where the interpreter has room for `k` loops. -/
def Run.withCapacity (k : Nat) (r : Run) : Run := { r with after := r.after.withCapacity k }

/-- The run `r` of `p` from `i` ends at a loop that does not fit on the stack, and that is entered
where there is room for `k` loops. -/
structure Run.Overflows (r : Run) (p : Program) (i : Interpreter) (k ip : Nat) : Prop where
  /-- The loop at `ip` is not entered. -/
  outcome : r.outcome = .error (.stackOverflow ip i.machine.loops.capacity)
  /-- The code before it has as many unclosed `[` as the stack may hold. -/
  full : ∃ ps, Unclosed (p.code.toList.take ip) ps ∧ ps.length = i.machine.loops.capacity
  /-- With more room, the same steps are made, and the next one enters the loop. -/
  next : ∃ t, t.step.ip = ip ∧ t.step.action = .entered (i.machine.loops.capacity + 1) ∧
    (∃ c, Reaches p.code (i.withCapacity k).start (r.turns.toList ++ [t]) c) ∧
    ∀ fuel r', (i.withCapacity k).run? fuel p = some r' → r.turns.toList ++ [t] <+: r'.turns.toList

/-- At no position of the program are more than `k` of the `[` before it unclosed. -/
def Program.NestsWithin (p : Program) (k : Nat) : Prop :=
  ∀ n ps, Unclosed (p.code.toList.take n) ps → ps.length ≤ k

/-- At no position that a run of the program from `i` gets to are more than `k` of the `[` up to
there unclosed. -/
def Program.VisitsWithin (p : Program) (i : Interpreter) (k : Nat) : Prop :=
  ∀ ts c ps, Reaches p.code i.start ts c → Unclosed (p.code.toList.take (c.ip + 1)) ps →
    ps.length ≤ k

/-- The step `t` from `c` to `d` skips a loop, and what stands in the loop does not count. -/
structure Turn.SkipsUncounted (code : Array UInt8) (c d : Config) (t : Turn) : Prop where
  /-- The stack is left as it is. -/
  loops : d.host.machine.loops = c.host.machine.loops
  /-- The unclosed `[` behind the loop are those before it. -/
  unclosed : ∀ ps, Unclosed (code.toList.take d.ip) ps ↔ Unclosed (code.toList.take c.ip) ps
  /-- The same step is made however much room there is. -/
  anyRoom : ∀ k, (c.withCapacity k).step code = .advanced t (d.withCapacity k)

/-! ### Full stacks -/

section

variable {code : Array UInt8} {c d : Config} {t : Turn} {ts : List Turn} {i : Interpreter} {k : Nat}

/-- No move puts more on the stack than it may hold. -/
theorem LoopMove.wellFormed {found : Fetch} {loops loops' : LoopStack} {action : Action}
    {next : Nat} {event? : Option LoopEvent}
    (h : LoopMove code found loops action next event? loops') (hl : loops.WellFormed) :
    loops'.WellFormed := by
  cases h with
  | plain _ _ => exact hl
  | skipped _ _ _ => exact hl
  | entered _ _ hpush => exact LoopStack.wellFormed_of_push? hpush
  | repeated _ _ _ => exact hl
  | exited _ _ _ => exact hl.pop

/-- Wherever a run gets, the stack holds no more than it may. -/
theorem Reaches.loops_wellFormed (h : Reaches code i.start ts c) :
    c.host.machine.loops.WellFormed := by
  refine h.invariant (I := fun c => c.host.machine.loops.WellFormed) ?_ ?_
  · intro c t d hs hc
    obtain ⟨b, host, -, -, -, hdoes, -, hhost⟩ := Config.step_eq_advanced_iff.mp hs
    rw [hhost]
    exact hdoes.loopMove.wellFormed hc
  · exact Nat.zero_le _

/-- A step that fails for want of room stands at a `[` that is to be entered, with a full stack. -/
theorem Config.full_of_step {ip capacity : Nat} {calls : List Call}
    (h : c.step code = .failed (.stackOverflow ip capacity) calls d) :
    ip = c.ip ∧ capacity = c.host.machine.loops.capacity ∧
      code[c.ip]? = some Bracket.opening.byte ∧ ¬ c.host.interrupt.Stops ∧
      c.host.machine.tape.cell ≠ 0 ∧ capacity ≤ c.host.machine.loops.depth := by
  obtain ⟨b, hget, ⟨-, he, -⟩ | ⟨hgo, host, hfails, -⟩⟩ := step_eq_failed_iff.mp h
  · cases he
  · cases hfails with
    | overflow hb hcell hpush =>
      obtain rfl : b = Bracket.opening.byte := hb
      exact ⟨rfl, rfl, hget, hgo, hcell, LoopStack.push?_eq_none_iff.mp hpush⟩

/-- At an `[` that is to be entered, the step is made if there is room. -/
theorem Config.step_entered (hget : code[c.ip]? = some Bracket.opening.byte)
    (hgo : ¬ c.host.interrupt.Stops) (hcell : c.host.machine.tape.cell ≠ 0)
    (hroom : c.host.machine.loops.depth < c.host.machine.loops.capacity) :
    ∃ t d, c.step code = .advanced t d ∧ t.step.ip = c.ip ∧
      t.step.action = .entered (c.host.machine.loops.depth + 1) := by
  obtain ⟨loops, hpush⟩ : ∃ loops, c.host.machine.loops.push? c.ip = some loops :=
    ⟨_, LoopStack.push?_eq_some_iff.mpr ⟨hroom, rfl⟩⟩
  have hdepth : loops.depth = c.host.machine.loops.depth + 1 := by
    rw [← LoopStack.length_opened, LoopStack.opened_of_push? hpush]
    simp
  have hdoes : Interpreter.Does code (c.fetch Bracket.opening.byte) c.host (.entered loops.depth)
      (c.ip + 1) [] (some (.entered c.ip loops.depth)) (c.host.mapLoops fun _ => loops) :=
    .entered rfl hcell hpush
  refine ⟨⟨⟨c.fetch Bracket.opening.byte, .entered loops.depth⟩, [], _⟩, ⟨_, _, _⟩,
    step_eq_advanced_iff.mpr ⟨_, _, hget, hgo, rfl, hdoes, rfl, rfl⟩, rfl, ?_⟩
  simp [hdepth]

/-- A loop is skipped in the same way however much room there is. -/
theorem Interpreter.Does.skipped_withCapacity {found : Fetch} {host host' : Interpreter}
    {close next : Nat} {calls : List Call} {event? : Option LoopEvent}
    (h : Does code found host (.skipped close) next calls event? host') (k : Nat) :
    host'.machine.loops = host.machine.loops ∧
      Does code found (host.withCapacity k) (.skipped close) next calls event?
        (host'.withCapacity k) := by
  cases h with
  | skipped hb hcell hclose => exact ⟨rfl, .skipped hb hcell hclose⟩

/-- What stands in a loop that is skipped does not count. -/
theorem Config.Tracks.skipsUncounted (hc : c.Tracks code) (h : c.step code = .advanced t d)
    {close : Nat} (ht : t.step.action = .skipped close) : t.SkipsUncounted code c d := by
  obtain ⟨b, host, hget, hgo, hfetch, hdoes, hcount, hhost⟩ := step_eq_advanced_iff.mp h
  rw [ht] at hdoes
  have hloops : d.host.machine.loops = c.host.machine.loops := by
    rw [hhost]
    exact (hdoes.skipped_withCapacity 0).1
  refine ⟨hloops, fun ps => ?_, fun k => ?_⟩
  · -- the same positions are open behind the loop, and there is one list of them
    have hafter := (hc.step h).opened
    rw [hloops] at hafter
    constructor
    · intro hps
      rw [hps.unique hafter.unclosed]
      exact hc.opened.unclosed
    · intro hps
      rw [hps.unique hc.opened.unclosed]
      exact hafter.unclosed
  · obtain ⟨-, hdoes'⟩ := hdoes.skipped_withCapacity k
    rw [← ht] at hdoes'
    refine step_eq_advanced_iff.mpr ⟨b, _, hget, hgo, hfetch, hdoes', hcount, ?_⟩
    show d.host.withCapacity k = _
    rw [hhost]
    rfl

end

/-! ### Two capacities -/

section

variable {p : Program} {i : Interpreter} {c : Config} {ts : List Turn} {k : Nat}

/-- A path is one with more room. -/
theorem Reaches.withCapacity (h : Reaches p.code i.start ts c)
    (hk : i.machine.loops.capacity ≤ k) :
    Reaches p.code (i.withCapacity k).start ts (c.withCapacity k) := by
  have hpath := h.refit (s := i.interrupt) hk fun n hn => ?_
  · have hc : c.refit i.interrupt k = c.withCapacity k := by
      rw [Config.refit, ← h.interrupt_eq]
      rfl
    rw [hc] at hpath
    exact hpath
  · obtain ⟨us, d, hd, rfl, -, hgo⟩ := h.exists_idle hn
    rw [← hd.interrupt_eq]
    exact hgo

/-- With more room a run is the same, if no loop that is to be entered finds the stack full. -/
theorem Interpreter.run?_withCapacity (hk : i.machine.loops.capacity ≤ k)
    (hroom : ∀ ts c d ip capacity calls, Reaches p.code i.start ts c →
      c.step p.code ≠ .failed (.stackOverflow ip capacity) calls d) (fuel : Nat) :
    (i.withCapacity k).run? fuel p = (i.run? fuel p).map (Run.withCapacity k) := by
  refine (run?_refit hk (s := i.interrupt) (fun ts c hr _ => ?_) (.inr hroom) fuel).trans ?_
  · rw [hr.interrupt_eq]
  · refine Option.map_congr fun r hr => ?_
    rw [Run.refit, ← interrupt_of_run? hr]
    rfl

/-- Where a run overflows, it goes on with more room. -/
theorem Reaches.overflows {d : Config} {ip capacity : Nat} {calls : List Call}
    (h : Reaches p.code i.start ts c)
    (hs : c.step p.code = .failed (.stackOverflow ip capacity) calls d)
    (hk : i.machine.loops.capacity < k) :
    ∃ fuel r, i.run? fuel p = some r ∧ r.Overflows p i k ip := by
  obtain ⟨rfl, rfl, hget, hgo, hcell, hfull⟩ := Config.full_of_step hs
  have hcapacity : c.host.machine.loops.capacity = i.machine.loops.capacity := h.capacity_eq
  have hdepth : c.host.machine.loops.depth = i.machine.loops.capacity := by
    rw [← hcapacity]
    exact Nat.le_antisymm h.loops_wellFormed hfull
  obtain ⟨t, e, hstep, hip, haction⟩ :=
    Config.step_entered (c := c.withCapacity k) hget hgo hcell (by rw [← hdepth] at hk; exact hk)
  have hpath := (h.withCapacity hk.le).snoc hstep
  have hhalts : c.Halts p.code (.failed _ calls) d := hs
  refine ⟨_, _, Interpreter.run?_of_halts h hhalts, ⟨?_, ?_, t, hip, ?_, ⟨e, hpath⟩,
    fun _ _ hr' => Interpreter.isPrefix_of_run? hpath hr'⟩⟩
  · rw [← hcapacity]
    rfl
  · refine ⟨_, h.tracks.static.unclosed, ?_⟩
    rw [Array.length_toList]
    exact hdepth
  · rw [haction, ← hdepth]
    rfl

/-- Where a loop does not fit, more `[` are unclosed than the stack may hold. -/
theorem Program.VisitsWithin.not_overflow {d : Config} {ip capacity : Nat} {calls : List Call}
    (hp : p.VisitsWithin i i.machine.loops.capacity) (h : Reaches p.code i.start ts c) :
    c.step p.code ≠ .failed (.stackOverflow ip capacity) calls d := by
  intro hs
  obtain ⟨rfl, rfl, hget, -, -, hfull⟩ := Config.full_of_step hs
  have hopened := h.tracks.opened.snoc_opening
  rw [← take_succ_of_getElem? hget] at hopened
  have hle := hp _ _ _ h hopened.unclosed
  have hcapacity : c.host.machine.loops.capacity = i.machine.loops.capacity := h.capacity_eq
  rw [hcapacity] at hfull
  rw [List.length_reverse, List.length_cons, LoopStack.length_opened] at hle
  omega

/-- A run that does not get to a loop that does not fit does not overflow. -/
theorem Program.VisitsWithin.outcome_ne {fuel ip capacity : Nat} {r : Run}
    (hp : p.VisitsWithin i i.machine.loops.capacity) (h : i.run? fuel p = some r) :
    r.outcome ≠ .error (.stackOverflow ip capacity) := by
  intro he
  obtain ⟨c, last, hr, hh, -⟩ := Interpreter.exists_halts h
  rcases Halt.outcome_eq_error_iff.mp he with ⟨calls, hfailed⟩ | ⟨-, cause, -, hcause⟩
  · rw [hfailed] at hh
    exact hp.not_overflow hr hh
  · cases hcause

/-- **The capacity of the stack only decides whether a run overflows.** For every program and every
interpreter, and a larger capacity `k`:

* The run with room for `k` loops is the same run, or the run ends at a loop that does not fit. Then
  the code before has exactly as many unclosed `[` as the stack may hold, and with more room the run
  makes the same steps and enters the loop.
* A program in which no more `[` are ever unclosed than the stack may hold does not overflow. Only
  the positions that the run gets to matter for that.
* A loop that is skipped does not count, however deeply nested it is. -/
theorem capacity_decides_overflow {i : Interpreter} {k : Nat} (hk : i.machine.loops.capacity < k)
    (p : Program) :
    ((∀ fuel, (i.withCapacity k).run? fuel p = (i.run? fuel p).map (Run.withCapacity k)) ∨
        ∃ fuel r ip, i.run? fuel p = some r ∧ r.Overflows p i k ip) ∧
      (p.NestsWithin i.machine.loops.capacity ∨ p.VisitsWithin i i.machine.loops.capacity →
        ∀ fuel r ip capacity, i.run? fuel p = some r →
          r.outcome ≠ .error (.stackOverflow ip capacity)) ∧
      (∀ ts c t d close, Reaches p.code i.start ts c → c.step p.code = .advanced t d →
        t.step.action = .skipped close → t.SkipsUncounted p.code c d) := by
  refine ⟨?_, fun hp fuel r ip capacity hr => ?_,
    fun ts c t d close hr hs ht => hr.tracks.skipsUncounted hs ht⟩
  · by_cases hfull : ∃ ts c d ip capacity calls, Reaches p.code i.start ts c ∧
        c.step p.code = .failed (.stackOverflow ip capacity) calls d
    · obtain ⟨ts, c, d, ip, capacity, calls, hr, hs⟩ := hfull
      obtain ⟨fuel, r, hrun, hoverflows⟩ := hr.overflows hs hk
      exact .inr ⟨fuel, r, ip, hrun, hoverflows⟩
    · refine .inl (Interpreter.run?_withCapacity hk.le fun ts c d ip capacity calls hr hs => ?_)
      exact hfull ⟨ts, c, d, ip, capacity, calls, hr, hs⟩
  · rcases hp with hnests | hvisits
    · have hvisits : p.VisitsWithin i i.machine.loops.capacity :=
        fun _ c ps _ hps => hnests (c.ip + 1) ps hps
      exact hvisits.outcome_ne hr
    · exact hvisits.outcome_ne hr

/-- The program `[[]]+[[` on a fresh tape, with room for one loop: the two nested loops are skipped,
and the `[` at 6 does not fit. -/
theorem capacity_decides_overflow_second_loop :
    ∃ (p : Program) (i : Interpreter) (r : Run), i.machine.loops.capacity = 1 ∧
      i.run? 5 p = some r ∧ r.Overflows p i 2 6 := by
  let p : Program := ⟨#[91, 91, 93, 93, 43, 91, 91], by decide⟩
  let i : Interpreter := .ofMachine ⟨.ofLength 1, .ofCapacity 1⟩ [] .reliable
  have hrun : (i.run? 5 p).map Run.outcome = some (.error (.stackOverflow 6 1)) := by
    decide +kernel
  have hrun' : ((i.withCapacity 2).run? 5 p).map Run.outcome = some (.ok ()) := by decide +kernel
  obtain ⟨r, hr, he⟩ := Option.map_eq_some_iff.mp hrun
  obtain ⟨hsame | ⟨fuel, r', ip, hr', hoverflows⟩, -⟩ :=
    capacity_decides_overflow (i := i) (k := 2) (by decide) p
  · rw [hsame, hr] at hrun'
    have hok : r.outcome = .ok () := Option.some.inj hrun'
    rw [he] at hok
    cases hok
  · obtain rfl := Interpreter.run?_unique hr hr'
    have hip := hoverflows.outcome
    rw [he] at hip
    cases hip
    exact ⟨p, i, r, rfl, hr, hoverflows⟩

end

end Brainfuck
