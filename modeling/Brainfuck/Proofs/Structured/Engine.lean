import Brainfuck.Proofs.Brackets.Partner
import Brainfuck.Proofs.Structured.Semantics

/-!
# The engine does what a program means

The engine knows no trees. It has the text, a position in it and a stack of positions, and
it jumps. This file shows that, as long as nothing disturbs a run, it nevertheless does to
the tape and the streams what the program means (`Exec`), and only that: a run of a program
that passes the check succeeds with what `Exec` gives, and it goes on forever exactly when
`Exec` gives nothing (**`run_iff_exec`**).

Both directions are about a piece of the text in its place: `Spells code ip xs` says that
the bytes `xs` stand at `ip`, whatever is before and after them, and the stack may hold any
loops around them. A loop is met in two ways, at its `[` with the stack as it is, and, after
the body was run, at its `]` with the loop pushed. The engine decides the same in both
(`Meets.leave`, `Meets.again`), so the two are taken together in `Meets`.

* Forward, the induction is on `Exec`.
* For the converse, a run that ends makes a number of steps that none of its positions
  exceeds. The induction is on the steps that are left: every byte and every decision at a
  loop makes one.
-/

namespace Brainfuck

/-- **A byte that is no bracket does what it means.** -/
theorem Interpreter.Holds.does_act {eof : EofPolicy} {loops : LoopStack} {s : Store}
    {host : Interpreter} {code : Array UInt8} {found : Fetch} (h : host.Holds eof loops s)
    (hb : Bracket.ofByte? found.byte = none) (hcell : found.cell = s.tape.cell) :
    ∃ action calls event? host', Does code found host action (found.ip + 1) calls event? host' ∧
      host'.Holds eof loops (s.act eof found.byte) ∧
      (s.act eof found.byte).output = s.output ++ Call.written calls := by
  cases hi : Instruction.ofByte? found.byte with
  | none =>
    refine ⟨_, _, _, _, .nothing hi, ?_⟩
    simp only [Store.act, hi]
    exact ⟨h, (List.append_nil _).symm⟩
  | some instruction =>
    cases instruction with
    | right =>
      refine ⟨_, _, _, _, .right hi, ?_⟩
      simp only [Store.act, hi]
      exact ⟨h.mapTape .moveRight, (List.append_nil _).symm⟩
    | left =>
      refine ⟨_, _, _, _, .left hi, ?_⟩
      simp only [Store.act, hi]
      exact ⟨h.mapTape .moveLeft, (List.append_nil _).symm⟩
    | increment =>
      refine ⟨_, _, _, _, .increment hi, ?_⟩
      simp only [Store.act, hi]
      exact ⟨h.mapTape .increment, (List.append_nil _).symm⟩
    | decrement =>
      refine ⟨_, _, _, _, .decrement hi, ?_⟩
      simp only [Store.act, hi]
      exact ⟨h.mapTape .decrement, (List.append_nil _).symm⟩
    | output =>
      obtain ⟨hput, hafter⟩ := h.afterPut found.cell
      refine ⟨_, _, _, _, .wrote hi hput, ?_⟩
      simp only [Store.act, hi]
      rw [Sink.written_put_of_ok hput, hcell]
      rw [hcell] at hafter
      exact ⟨⟨hafter.undisturbed, hafter.eof, hafter.loops, hafter.tape, hafter.input⟩, rfl⟩
    | input =>
      obtain ⟨hflush, -⟩ := h.afterFlush
      obtain ⟨hresult, hafter⟩ := h.afterPull
      have hwritten : Call.written host.readCalls = [] := by
        rw [readCalls, ← List.singleton_append, Call.written_append, Sink.written_flush,
          Source.written_pull]
        rfl
      cases hanswer : s.input.headD none with
      | some b =>
        rw [hanswer] at hresult
        refine ⟨_, _, _, _, .read hi hflush hresult, ?_⟩
        simp only [Store.act, hi, Store.read_eq, hanswer, hwritten]
        exact ⟨hafter.mapTape (.write b), (List.append_nil _).symm⟩
      | none =>
        rw [hanswer] at hresult
        refine ⟨_, _, _, _, .readEnd hi hflush hresult, ?_⟩
        simp only [Store.act, hi, Store.read_eq, hanswer, hwritten, h.eof]
        exact ⟨hafter.mapTape eof.onEnd, (List.append_nil _).symm⟩
    | bracket k =>
      rw [Bracket.ofByte?_eq_some_iff.mpr (byte_of_ofByte?_bracket hi)] at hb
      cases hb

/-! ### Text in its place -/

/-- The bytes `xs` stand at `ip`. -/
def Spells (code : Array UInt8) (ip : Nat) (xs : List UInt8) : Prop := xs <+: code.toList.drop ip

namespace Spells

variable {code : Array UInt8} {ip : Nat} {xs ys : List UInt8}

theorem append_left (h : Spells code ip (xs ++ ys)) : Spells code ip xs :=
  (List.prefix_append xs ys).trans h

theorem append_right (h : Spells code ip (xs ++ ys)) : Spells code (ip + xs.length) ys := by
  obtain ⟨rest, hrest⟩ := h
  refine ⟨rest, ?_⟩
  rw [← List.drop_drop, ← hrest, List.append_assoc, List.drop_left]

theorem tail {b : UInt8} (h : Spells code ip (b :: xs)) : Spells code (ip + 1) xs := by
  have h' : Spells code ip ([b] ++ xs) := h
  exact h'.append_right

theorem getElem? {b : UInt8} (h : Spells code ip (b :: xs)) : code[ip]? = some b := by
  obtain ⟨rest, hrest⟩ := h
  rw [← Array.getElem?_toList, ← Nat.add_zero ip, ← List.getElem?_drop, ← hrest]
  rfl

/-- From the `[` of a loop, the search finds the `]` behind its body. -/
theorem closeOf? {body rest : Tree} (h : Spells code ip (Tree.loop body rest).bytes) :
    Brackets.closeOf? code ip = some (ip + 1 + body.bytes.length) := by
  obtain ⟨ws, hws⟩ := h.tail
  have hdrop : code.toList.drop (ip + 1) =
      body.bytes ++ Bracket.closing.byte :: (rest.bytes ++ ws) := by
    rw [← hws, List.append_assoc, List.cons_append]
  exact Brackets.closeOf?_of_drop body.balanced hdrop

/-- Behind the `[` of a loop stands its body. -/
theorem body {body rest : Tree} (h : Spells code ip (Tree.loop body rest).bytes) :
    Spells code (ip + 1) body.bytes := h.tail.append_left

/-- Behind the body stands the `]`. -/
theorem closing {body rest : Tree} (h : Spells code ip (Tree.loop body rest).bytes) :
    code[ip + 1 + body.bytes.length]? = some Bracket.closing.byte := h.tail.append_right.getElem?

/-- Behind the `]` stands what comes after the loop. -/
theorem rest {body rest : Tree} (h : Spells code ip (Tree.loop body rest).bytes) :
    Spells code (ip + 1 + body.bytes.length + 1) rest.bytes := h.tail.append_right.tail

end Spells

/-- Where a loop is entered, its body finds what room it needs. -/
theorem LoopStack.exists_push? {loops : LoopStack} {body rest : Tree} (ip : Nat)
    (h : loops.depth + (Tree.loop body rest).depth ≤ loops.capacity) :
    ∃ inner, loops.push? ip = some inner ∧ inner.depth + body.depth ≤ inner.capacity := by
  have hle : body.depth + 1 ≤ (Tree.loop body rest).depth := Nat.le_max_left ..
  refine ⟨_, push?_eq_some_iff.mpr ⟨by omega, rfl⟩, ?_⟩
  show (loops.entries.push ip).size + body.depth ≤ loops.capacity
  rw [Array.size_push]
  unfold depth at h
  omega

/-- What comes after a loop has the room that the loop has. -/
theorem LoopStack.room_rest {loops : LoopStack} {body rest : Tree}
    (h : loops.depth + (Tree.loop body rest).depth ≤ loops.capacity) :
    loops.depth + rest.depth ≤ loops.capacity := by
  have hle : rest.depth ≤ (Tree.loop body rest).depth := Nat.le_max_right ..
  omega

/-! ### The steps of a run -/

/-- After `n` steps a run stands at `ip`, with these loops entered, and with this store. -/
def Visits (code : Array UInt8) (i : Interpreter) (n ip : Nat) (loops : LoopStack) (s : Store) :
    Prop :=
  ∃ ts c, Reaches code i.start ts c ∧ ts.length = n ∧ c.ip = ip ∧ c.host.Holds i.eof loops s ∧
    Call.written (ts.flatMap (·.calls)) = s.output

namespace Visits

variable {code : Array UInt8} {i : Interpreter} {n ip : Nat} {loops : LoopStack} {s : Store}

/-- A run starts at the first byte, with no loop entered. -/
theorem start (h : i.Undisturbed) : Visits code i 0 0 i.machine.loops.clear i.store :=
  ⟨[], i.start, .refl _, rfl, rfl, ⟨⟨h.input, h.output, h.interrupt⟩, rfl, rfl, rfl, rfl⟩, rfl⟩

/-- A step, from what its instruction does. -/
theorem step {b : UInt8} {next : Nat} {loops' : LoopStack} {s' : Store}
    (h : Visits code i n ip loops s) (hget : code[ip]? = some b)
    (hdo : ∀ (found : Fetch) host, found.ip = ip → found.byte = b → found.cell = s.tape.cell →
      host.Holds i.eof loops s →
        ∃ action calls event? host',
          Interpreter.Does code found host action next calls event? host' ∧
          host'.Holds i.eof loops' s' ∧ s'.output = s.output ++ Call.written calls) :
    Visits code i (n + 1) next loops' s' := by
  obtain ⟨ts, c, hr, rfl, rfl, hc, hwritten⟩ := h
  have hcell : (c.fetch b).cell = s.tape.cell := by rw [← hc.tape]; rfl
  obtain ⟨action, calls, event?, host', hdoes, hholds, houtput⟩ :=
    hdo (c.fetch b) c.host rfl rfl hcell hc
  have hstep : c.step code = .advanced ⟨⟨c.fetch b, action⟩, calls, event?⟩
      ⟨next, c.count + 1, { host' with interrupt := host'.interrupt.observe c.count }⟩ :=
    Config.step_eq_advanced_iff.mpr ⟨b, host', hget, hc.not_stops, rfl, hdoes, rfl, rfl⟩
  refine ⟨_, _, hr.snoc hstep, List.length_append, rfl, hholds.observe c.count, ?_⟩
  rw [List.flatMap_append, Call.written_append, hwritten, houtput]
  simp only [List.flatMap_cons, List.flatMap_nil, List.append_nil]

/-- A byte that is no bracket acts, and execution goes on behind it. -/
theorem plain {b : UInt8} (h : Visits code i n ip loops s) (hget : code[ip]? = some b)
    (hb : Bracket.ofByte? b = none) : Visits code i (n + 1) (ip + 1) loops (s.act i.eof b) := by
  refine h.step hget ?_
  intro found host hip hbyte hcell hhost
  subst hip hbyte
  exact hhost.does_act hb hcell

/-- A run that comes behind the last byte ends there, with success. -/
theorem exists_run? {p : Program} (h : Visits p.code i n p.code.size loops s) :
    ∃ r, i.run? (n + 1) p = some r ∧ r.turns.size = n ∧ r.outcome = .ok () ∧ r.store = s ∧
      r.after.machine.loops = loops := by
  obtain ⟨ts, c, hr, rfl, hip, hc, hwritten⟩ := h
  have hend : c.Halts p.code .completed c := by
    refine Config.step_eq_finished_iff.mpr ⟨?_, rfl⟩
    rw [hip]
    exact Array.getElem?_eq_none (Nat.le_refl _)
  refine ⟨_, Interpreter.run?_of_halts hr hend, List.size_toArray,
    Halt.outcome_eq_ok_iff.mpr ⟨rfl, hc.afterFlush.1⟩, ?_, hc.loops⟩
  -- the flush at the end writes nothing
  have houtput : Call.written (ts.flatMap (·.calls) ++ [] ++
      [(Sink.flush c.host.output.flushes).call]) = s.output := by
    rw [Call.written_append, Sink.written_flush, List.append_nil, List.append_nil, hwritten]
  obtain ⟨tape, input, output⟩ := s
  simp only [Run.store, Run.output, Run.calls, Halt.calls, houtput, Interpreter.afterFlush,
    hc.tape, hc.input]

end Visits

/-- A run is about to do what `t` says, where `t` stands at `ip` with these loops around it. It
stands at the first byte, or else `t` starts with a loop whose body was just run. -/
inductive Meets (code : Array UInt8) (i : Interpreter) (n ip : Nat) (loops : LoopStack) :
    Tree → Store → Prop where
  /-- The run stands at the first byte. -/
  | first {t : Tree} {s : Store} : Visits code i n ip loops s → Meets code i n ip loops t s
  /-- The run stands at the `]` of a loop that it entered at its `[`. -/
  | back {body rest : Tree} {s : Store} {inner : LoopStack} : loops.push? ip = some inner →
      Visits code i n (ip + 1 + body.bytes.length) inner s →
      Meets code i n ip loops (.loop body rest) s

namespace Meets

variable {code : Array UInt8} {i : Interpreter} {n ip : Nat} {loops : LoopStack} {s : Store}
  {body rest : Tree}

/-- On a zero cell, the run goes on behind the loop, wherever it met it. -/
theorem leave (h : Meets code i n ip loops (.loop body rest) s)
    (hspells : Spells code ip (Tree.loop body rest).bytes) (hzero : s.tape.cell = 0) :
    Visits code i (n + 1) (ip + 1 + body.bytes.length + 1) loops s := by
  cases h with
  | first h =>
    refine h.step hspells.getElem? ?_
    intro found host hip hbyte hcell hhost
    subst hip
    exact ⟨_, _, _, _, .skipped hbyte (hcell.trans hzero) hspells.closeOf?, hhost,
      (List.append_nil _).symm⟩
  | back hpush h =>
    refine h.step hspells.closing ?_
    intro found host hip hbyte hcell hhost
    have htop : host.machine.loops.top? = some ip := by
      rw [hhost.loops, LoopStack.top?_of_push? hpush]
    have hpop := hhost.mapLoops .pop
    rw [LoopStack.pop_of_push? hpush] at hpop
    rw [← hip]
    exact ⟨_, _, _, _, .exited hbyte (hcell.trans hzero) htop, hpop, (List.append_nil _).symm⟩

/-- On a cell that is not zero, the run goes on with the body, wherever it met the loop. -/
theorem again {inner : LoopStack} (h : Meets code i n ip loops (.loop body rest) s)
    (hspells : Spells code ip (Tree.loop body rest).bytes) (hpush : loops.push? ip = some inner)
    (hne : s.tape.cell ≠ 0) : Visits code i (n + 1) (ip + 1) inner s := by
  cases h with
  | first h =>
    refine h.step hspells.getElem? ?_
    intro found host hip hbyte hcell hhost
    subst hip
    have hpush' : host.machine.loops.push? found.ip = some inner := by rw [hhost.loops, hpush]
    exact ⟨_, _, _, _, .entered hbyte (hcell ▸ hne) hpush', hhost.mapLoops fun _ => inner,
      (List.append_nil _).symm⟩
  | back hpush' h =>
    obtain rfl : _ = inner := Option.some.inj (hpush'.symm.trans hpush)
    refine h.step hspells.closing ?_
    intro found host hip hbyte hcell hhost
    have htop : host.machine.loops.top? = some ip := by
      rw [hhost.loops, LoopStack.top?_of_push? hpush]
    exact ⟨_, _, _, _, .repeated hbyte (hcell ▸ hne) htop, hhost, (List.append_nil _).symm⟩

end Meets

/-! ### Forward -/

/-- **What a program means, a run does.** -/
theorem Exec.visits {code : Array UInt8} {i : Interpreter} {t : Tree} {s s' : Store} {n ip : Nat}
    {loops : LoopStack} (h : Exec i.eof t s s') (hspells : Spells code ip t.bytes)
    (hroom : loops.depth + t.depth ≤ loops.capacity) (hmeets : Meets code i n ip loops t s) :
    ∃ m, n ≤ m ∧ Visits code i m (ip + t.bytes.length) loops s' := by
  induction h generalizing n ip loops with
  | done =>
    cases hmeets with
    | first hv => exact ⟨n, Nat.le_refl n, hv⟩
  | @plain b hb rest s s' _ ih =>
    cases hmeets with
    | first hv =>
      obtain ⟨m, hle, hm⟩ := ih hspells.tail hroom (.first (hv.plain hspells.getElem? hb))
      refine ⟨m, by omega, ?_⟩
      rwa [Nat.add_right_comm] at hm
  | @leave body rest s s' hzero _ ih =>
    obtain ⟨m, hle, hm⟩ :=
      ih hspells.rest (LoopStack.room_rest hroom) (.first (hmeets.leave hspells hzero))
    have hend : ip + 1 + body.bytes.length + 1 + rest.bytes.length =
        ip + (Tree.loop body rest).bytes.length := by
      rw [Tree.length_bytes_loop]
      omega
    exact ⟨m, by omega, hend ▸ hm⟩
  | @again body rest s s₁ s' hne _ _ ihBody ihLoop =>
    obtain ⟨inner, hpush, hinner⟩ := LoopStack.exists_push? ip hroom
    obtain ⟨m, hle, hm⟩ := ihBody hspells.body hinner (.first (hmeets.again hspells hpush hne))
    obtain ⟨m', hle', hm'⟩ := ihLoop hspells hroom (.back hpush hm)
    exact ⟨m', by omega, hm'⟩

/-! ### The converse -/

/-- **A run that never gets further than `N` steps does only what the program means.** The
induction is on the steps left, so the parts of a program are met in the order in which the
run gets to them, and a loop is met again after each run of its body. -/
theorem Meets.exists_exec {code : Array UInt8} {i : Interpreter} {N : Nat}
    (hN : ∀ {n ip loops s}, Visits code i n ip loops s → n ≤ N) {t : Tree} {s : Store} {n ip : Nat}
    {loops : LoopStack} (hspells : Spells code ip t.bytes)
    (hroom : loops.depth + t.depth ≤ loops.capacity) (hmeets : Meets code i n ip loops t s) :
    ∃ s', Exec i.eof t s s' := by
  generalize hk : N - n = k
  induction k using Nat.strongRecOn generalizing t s n ip loops with
  | ind k ih =>
    cases t with
    | done => exact ⟨s, .done⟩
    | plain b hb rest =>
      cases hmeets with
      | first hv =>
        have hnext := hv.plain hspells.getElem? hb
        have hle := hN hnext
        obtain ⟨s', hs'⟩ := ih (N - (n + 1)) (by omega) hspells.tail hroom (.first hnext) rfl
        exact ⟨s', .plain hs'⟩
    | loop body rest =>
      by_cases hcell : s.tape.cell = 0
      · have hnext := hmeets.leave hspells hcell
        have hle := hN hnext
        have hrest := LoopStack.room_rest hroom
        obtain ⟨s', hs'⟩ := ih (N - (n + 1)) (by omega) hspells.rest hrest (.first hnext) rfl
        exact ⟨s', .leave hcell hs'⟩
      · obtain ⟨inner, hpush, hinner⟩ := LoopStack.exists_push? ip hroom
        have hnext := hmeets.again hspells hpush hcell
        have hle := hN hnext
        obtain ⟨s₁, hbody⟩ := ih (N - (n + 1)) (by omega) hspells.body hinner (.first hnext) rfl
        -- the run comes to the `]`, and meets the loop again with fewer steps left
        obtain ⟨m, hle', hm⟩ := hbody.visits hspells.body hinner (.first hnext)
        obtain ⟨s', hs'⟩ := ih (N - m) (by omega) hspells hroom (.back hpush hm) rfl
        exact ⟨s', .again hcell hbody hs'⟩

/-! ### Whole runs -/

namespace Interpreter

variable {p : Program} {i : Interpreter} {t : Tree} {s : Store}

/-- Text that is all of a program stands at its first byte. -/
theorem spells_of_bytes_eq (ht : t.bytes = p.code.toList) : Spells p.code 0 t.bytes := by
  rw [ht]
  exact List.prefix_refl _

/-- The loop stack a run starts with has room for a program nested as deep as its capacity. -/
theorem room_of_le (hdepth : t.depth ≤ i.machine.loops.capacity) :
    i.machine.loops.clear.depth + t.depth ≤ i.machine.loops.clear.capacity := by
  rw [LoopStack.depth_clear, LoopStack.capacity_clear]
  omega

/-- What a program means, a run ends in, with success and with no loop entered. -/
theorem exists_run?_of_exec (hi : i.Undisturbed) (ht : t.bytes = p.code.toList)
    (hdepth : t.depth ≤ i.machine.loops.capacity) (h : Exec i.eof t i.store s) :
    ∃ fuel r, i.run? fuel p = some r ∧ r.outcome = .ok () ∧ r.store = s ∧
      r.after.machine.loops.entries = #[] := by
  obtain ⟨m, -, hm⟩ := h.visits (spells_of_bytes_eq ht) (room_of_le hdepth) (.first (.start hi))
  rw [Nat.zero_add, ht, Array.length_toList] at hm
  obtain ⟨r, hr, -, hok, hstore, hloops⟩ := hm.exists_run?
  refine ⟨_, r, hr, hok, hstore, ?_⟩
  rw [hloops]
  rfl

/-- A run that ends ends in what the program means. -/
theorem exec_of_run? (hi : i.Undisturbed) (ht : t.bytes = p.code.toList)
    (hdepth : t.depth ≤ i.machine.loops.capacity) {fuel : Nat} {r : Run}
    (h : i.run? fuel p = some r) :
    Exec i.eof t i.store r.store ∧ r.outcome = .ok () ∧ r.after.machine.loops.entries = #[] := by
  obtain ⟨c, last, hr, -, hh, -⟩ := run?_eq_some_iff.mp h
  have hN : ∀ {n ip loops s}, Visits p.code i n ip loops s → n ≤ r.turns.toList.length := by
    rintro _ _ _ _ ⟨ts, d, hd, rfl, -⟩
    exact hd.length_le_of_halts hr hh
  obtain ⟨s, hs⟩ :=
    Meets.exists_exec hN (spells_of_bytes_eq ht) (room_of_le hdepth) (.first (.start hi))
  obtain ⟨fuel', r', h', hok, hstore, hloops⟩ := exists_run?_of_exec hi ht hdepth hs
  obtain rfl := run?_unique h h'
  exact ⟨hstore ▸ hs, hok, hloops⟩

end Interpreter

/-- **The engine implements the language.** For a program that passes the check there is one
tree with its text, and for every interpreter that nothing disturbs and whose loop stack has
room for the nesting of the tree: a run succeeds with a tape, what is left of the input and an
output exactly if the tree means these; every run that ends succeeds, with no loop entered; and
no run ends exactly if the tree means nothing. -/
theorem run_iff_exec {p : Program} (h : p.checkBrackets = .ok ()) :
    ∃ t : Tree, (∀ u : Tree, u.bytes = p.code.toList ↔ u = t) ∧
      ∀ i : Interpreter, i.Undisturbed → t.depth ≤ i.machine.loops.capacity →
        (∀ s, (∃ fuel r, i.run? fuel p = some r ∧ r.outcome = .ok () ∧ r.store = s) ↔
          Exec i.eof t i.store s) ∧
        (∀ fuel r, i.run? fuel p = some r →
          r.outcome = .ok () ∧ r.after.machine.loops.entries = #[]) ∧
        ((∀ fuel, i.run? fuel p = none) ↔ ¬ ∃ s, Exec i.eof t i.store s) := by
  obtain ⟨t, ht⟩ := exists_tree_of_check (Program.checkBrackets_eq_ok_iff.mp h)
  have hbytes : t.bytes = p.code.toList := (ht t).mpr rfl
  refine ⟨t, ht, ?_⟩
  intro i hi hdepth
  refine ⟨?_, ?_, ?_⟩
  · intro s
    constructor
    · rintro ⟨fuel, r, hr, -, rfl⟩
      exact (Interpreter.exec_of_run? hi hbytes hdepth hr).1
    · intro hs
      obtain ⟨fuel, r, hr, hok, hstore, -⟩ := Interpreter.exists_run?_of_exec hi hbytes hdepth hs
      exact ⟨fuel, r, hr, hok, hstore⟩
  · intro fuel r hr
    exact (Interpreter.exec_of_run? hi hbytes hdepth hr).2
  · constructor
    · rintro hnone ⟨s, hs⟩
      obtain ⟨fuel, r, hr, -⟩ := Interpreter.exists_run?_of_exec hi hbytes hdepth hs
      rw [hnone fuel] at hr
      cases hr
    · intro hno fuel
      cases hr : i.run? fuel p with
      | none => rfl
      | some r => exact absurd ⟨_, (Interpreter.exec_of_run? hi hbytes hdepth hr).1⟩ hno

/-- The program `,[.-]`, given a 2, writes 2 and 1 and leaves a zero. -/
theorem run_iff_exec_countdown :
    ∃ (p : Program) (t : Tree) (i : Interpreter), p.checkBrackets = .ok () ∧
      t.bytes = p.code.toList ∧ i.Undisturbed ∧ t.depth ≤ i.machine.loops.capacity ∧
      Exec i.eof t i.store ⟨⟨#[0], 0⟩, [], [2, 1]⟩ := by
  let p : Program := ⟨#[44, 91, 46, 45, 93], by decide⟩
  let u : Tree := .plain 44 rfl (.loop (.plain 46 rfl (.plain 45 rfl .done)) .done)
  let i : Interpreter := .ofMachine ⟨.ofLength 1, .ofCapacity 1⟩ (.ofBytes [2]) .reliable
  have hcheck : p.checkBrackets = .ok () := by decide +kernel
  have hu : u.bytes = p.code.toList := by decide +kernel
  have hi : i.Undisturbed := by
    refine ⟨fun e he => ?_, rfl, rfl⟩
    simp [i, Interpreter.ofMachine, Source.ofBytes] at he
  have hrun : (i.run? 10 p).map (fun r => (r.outcome, r.store)) =
      some (.ok (), ⟨⟨#[0], 0⟩, [], [2, 1]⟩) := by decide +kernel
  obtain ⟨r, hr, hend⟩ := Option.map_eq_some_iff.mp hrun
  obtain ⟨hok, hstore⟩ := Prod.mk.inj hend
  obtain ⟨t, ht, hall⟩ := run_iff_exec hcheck
  obtain rfl : u = t := (ht u).mp hu
  have hexec := ((hall i hi (Nat.le_refl 1)).1 _).mp ⟨10, r, hr, hok, hstore⟩
  exact ⟨p, u, i, hcheck, hu, hi, Nat.le_refl 1, hexec⟩

end Brainfuck
