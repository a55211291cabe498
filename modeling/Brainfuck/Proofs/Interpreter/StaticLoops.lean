import Brainfuck.Proofs.Brackets.Partner
import Brainfuck.Proofs.Interpreter.Ending

/-!
# The loop stack is what the text says

The loop stack is changed as a run goes along: a `[` is pushed when its loop is entered,
nothing is popped when a loop is repeated, nothing is pushed when a loop is skipped. Yet
what it holds can be read off the text alone. Whenever execution stands at a position, the
code before it has no stray `]`, and the stack holds the positions of the `[` before it
that have no partner before it.

* `Config.Tracks` is the invariant: the code before the instruction pointer is opened code,
  with the stack as its open positions. Every completed step keeps it
  (`Config.Tracks.step`), whichever program and whatever streams.
* `loops_eq_unclosed` says what follows in terms of partners alone.
-/

namespace Brainfuck

namespace Config

/-- The code before the instruction pointer has no stray `]`, and its open loops are those
on the stack. -/
structure Tracks (code : Array UInt8) (c : Config) : Prop where
  /-- The instruction pointer is in the code, or behind its end. -/
  ip_le : c.ip ≤ code.size
  /-- The open loops are those on the stack. -/
  opened : Opened (code.toList.take c.ip) c.host.machine.loops.opened

/-- The stack of a configuration is the one the text gives: the code before the instruction
pointer has no stray `]`, and the stack holds, in ascending order, its `[` without a
partner. -/
structure Static (code : Array UInt8) (c : Config) : Prop where
  /-- The instruction pointer is in the code, or behind its end. -/
  ip_le : c.ip ≤ code.size
  /-- There is no stray `]` before it. -/
  noStray : NoStray (code.toList.take c.ip)
  /-- The stack holds the `[` before it that have no partner before it. -/
  unclosed : Unclosed (code.toList.take c.ip) c.host.machine.loops.entries.toList

theorem Tracks.static {code : Array UInt8} {c : Config} (h : c.Tracks code) : c.Static code := by
  refine ⟨h.ip_le, h.opened.noStray, ?_⟩
  rw [← LoopStack.reverse_opened]
  exact h.opened.unclosed

end Config

/-- The jump made at `t` on the way from `c` to `d` joins a `[` and its partner, which is also
the one that a search from the `[` finds. -/
structure Turn.JoinsPartners (code : Array UInt8) (c d : Config) (t : Turn) : Prop where
  /-- A skip goes behind the partner of the `[`. -/
  skipped : ∀ close, t.step.action = .skipped close →
    Partner code.toList c.ip close ∧ Brackets.closeOf? code c.ip = some close ∧ d.ip = close + 1
  /-- A jump back goes behind the partner of the `]`, which stays on the stack. -/
  repeated : ∀ start, t.step.action = .repeated start →
    Partner code.toList start c.ip ∧ Brackets.closeOf? code start = some c.ip ∧ d.ip = start + 1 ∧
      c.host.machine.loops.top? = some start ∧ d.host.machine.loops = c.host.machine.loops
  /-- Leaving a loop takes the partner of the `]` off the stack, and logs it. -/
  left : ∀ depth, t.step.action = .left depth →
    ∃ start, Partner code.toList start c.ip ∧ Brackets.closeOf? code start = some c.ip ∧
      c.host.machine.loops.entries.toList = d.host.machine.loops.entries.toList ++ [start] ∧
      t.event? = some (.exited c.ip start (depth + 1)) ∧ d.ip = c.ip + 1

/-! ### One step -/

section

variable {code : Array UInt8} {c d : Config} {t : Turn}

/-- The code before the next position. -/
theorem take_succ_of_getElem? {n : Nat} {b : UInt8} (h : code[n]? = some b) :
    code.toList.take (n + 1) = code.toList.take n ++ [b] := by
  rw [List.take_add_one, Array.getElem?_toList, h]
  rfl

theorem lt_size_of_getElem? {n : Nat} {b : UInt8} (h : code[n]? = some b) : n < code.size :=
  (Array.getElem?_eq_some_iff.mp h).1

theorem length_take_of_le {n : Nat} (h : n ≤ code.size) : (code.toList.take n).length = n := by
  rw [List.length_take, Array.length_toList, Nat.min_eq_left h]

/-- At a `]`, the innermost entered loop is the one that the text closes there. -/
theorem Opened.partner_of_top {loops : LoopStack} {ip start : Nat}
    (ho : Opened (code.toList.take ip) loops.opened)
    (hget : code[ip]? = some Bracket.closing.byte) (htop : loops.top? = some start) :
    Partner code.toList start ip := by
  obtain ⟨ps, hps⟩ := LoopStack.exists_opened_of_top? htop
  rw [hps] at ho
  exact ho.partner_of_closing (by rw [Array.getElem?_toList, hget])

/-- A move of the loop stack keeps it in step with the text. -/
theorem LoopMove.opened {found : Fetch} {loops loops' : LoopStack} {action : Action} {next : Nat}
    {event? : Option LoopEvent} (hmove : LoopMove code found loops action next event? loops')
    (hget : code[found.ip]? = some found.byte)
    (ho : Opened (code.toList.take found.ip) loops.opened) :
    next ≤ code.size ∧ Opened (code.toList.take next) loops'.opened := by
  have hlt := lt_size_of_getElem? hget
  cases hmove with
  | plain hb _ =>
    refine ⟨hlt, ?_⟩
    rw [take_succ_of_getElem? hget]
    exact ho.snoc_plain hb
  | @skipped close hb _ hclose =>
    rw [hb] at hget
    have hpart := (Brackets.closeOf?_eq_some_iff hget).mp hclose
    exact ⟨hpart.lt_length, hpart.opened_take ho⟩
  | entered hb _ hpush =>
    refine ⟨hlt, ?_⟩
    rw [take_succ_of_getElem? hget, hb, LoopStack.opened_of_push? hpush]
    have := ho.snoc_opening
    rwa [length_take_of_le hlt.le] at this
  | @repeated start hb _ htop =>
    rw [hb] at hget
    have hle : start + 1 ≤ found.ip := (ho.partner_of_top hget htop).lt
    obtain ⟨ps, hps⟩ := LoopStack.exists_opened_of_top? htop
    refine ⟨hle.trans hlt.le, ?_⟩
    rw [hps] at ho ⊢
    have := ho.take_succ
    rwa [List.take_take, Nat.min_eq_left hle] at this
  | exited hb _ htop =>
    obtain ⟨ps, hps⟩ := LoopStack.exists_opened_of_top? htop
    refine ⟨hlt, ?_⟩
    rw [take_succ_of_getElem? hget, hb, LoopStack.opened_pop, hps]
    rw [hps] at ho
    exact ho.snoc_closing

/-- **Every completed step keeps the invariant.** -/
theorem Config.Tracks.step (h : c.step code = .advanced t d) (hc : c.Tracks code) :
    d.Tracks code := by
  obtain ⟨b, host, hget, -, -, hdoes, -, hhost⟩ := Config.step_eq_advanced_iff.mp h
  obtain ⟨hle, ho⟩ := hdoes.loopMove.opened hget hc.opened
  refine ⟨hle, ?_⟩
  rw [hhost]
  exact ho

/-- Every jump joins partners. -/
theorem Config.Tracks.joinsPartners (h : c.step code = .advanced t d) (hc : c.Tracks code) :
    t.JoinsPartners code c d := by
  obtain ⟨b, host, hget, -, -, hdoes, -, hhost⟩ := Config.step_eq_advanced_iff.mp h
  have hmove := hdoes.loopMove
  have hloops : d.host.machine.loops = host.machine.loops := by rw [hhost]
  have ho := hc.opened
  constructor
  · intro close haction
    rw [haction] at hmove
    obtain ⟨hb, hclose, hnext⟩ := hmove.of_skipped
    obtain rfl : b = Bracket.opening.byte := hb
    exact ⟨(Brackets.closeOf?_eq_some_iff hget).mp hclose, hclose, hnext⟩
  · intro start haction
    rw [haction] at hmove
    obtain ⟨hb, htop, hnext, hsame⟩ := hmove.of_repeated
    obtain rfl : b = Bracket.closing.byte := hb
    have hpart := ho.partner_of_top hget htop
    exact ⟨hpart, Brackets.closeOf?_of_partner hpart, hnext, htop, hloops.trans hsame⟩
  · intro depth haction
    rw [haction] at hmove
    obtain ⟨start, hb, htop, hnext, hpop, hdepth, hevent⟩ := hmove.of_left
    obtain rfl : b = Bracket.closing.byte := hb
    have hpart := ho.partner_of_top hget htop
    obtain ⟨ps, hps⟩ := LoopStack.exists_opened_of_top? htop
    refine ⟨start, hpart, Brackets.closeOf?_of_partner hpart, ?_, ?_, hnext⟩
    · rw [hloops, hpop, ← LoopStack.reverse_opened, ← LoopStack.reverse_opened,
        LoopStack.opened_pop, hps]
      exact List.reverse_cons ..
    · have hpos : c.host.machine.loops.depth = ps.length + 1 := by
        rw [← LoopStack.length_opened, hps, List.length_cons]
      rw [hevent, hdepth, hpos]
      rfl

end

/-! ### A whole run -/

section

variable {code : Array UInt8} {p : Program} {i : Interpreter} {c d : Config} {ts us : List Turn}

theorem Interpreter.start_tracks (i : Interpreter) : i.start.Tracks code :=
  ⟨Nat.zero_le _, .balanced .nil⟩

/-- The invariant holds wherever a run gets. -/
theorem Reaches.tracks (h : Reaches code i.start ts c) : c.Tracks code :=
  h.invariant Config.Tracks.step i.start_tracks

/-- A run that succeeds stands, at the end of its path, at the end of the program. -/
theorem Interpreter.exists_completed {fuel : Nat} {r : Run} (h : i.run? fuel p = some r)
    (hok : r.outcome = .ok ()) :
    ∃ c, Reaches p.code i.start r.turns.toList c ∧ r.after.machine = c.host.machine ∧
      c.ip = p.code.size := by
  obtain ⟨c, last, hr, hh, hafter, -⟩ := exists_halts h
  obtain ⟨hcompleted, -⟩ := Halt.outcome_eq_ok_iff.mp hok
  rw [hcompleted] at hh
  exact ⟨c, hr, hafter, hh.ip_eq_size hr.tracks.ip_le⟩

/-- At one position, the stack is the same on every visit. -/
theorem Reaches.loops_eq (hc : Reaches code i.start ts c) (hd : Reaches code i.start us d)
    (hip : c.ip = d.ip) : c.host.machine.loops = d.host.machine.loops := by
  have h := hc.tracks.static.unclosed
  rw [hip] at h
  have hentries := h.unique hd.tracks.static.unclosed
  apply LoopStack.eq_of_opened_eq
  · rw [LoopStack.opened, LoopStack.opened, hentries]
  · rw [hc.capacity_eq, hd.capacity_eq]

/-- **The loop stack is what the text says.** For every program and every interpreter that
runs it: wherever execution stands, the code before has no stray `]` and the stack holds the
`[` before that have no partner before; so two visits to one position have the same stack,
every jump joins partners, and after a successful run the stack holds the `[` of the program
that have no partner at all. -/
theorem loops_eq_unclosed (p : Program) (i : Interpreter) :
    (∀ ts c, Reaches p.code i.start ts c → c.Static p.code) ∧
      (∀ ts us c d, Reaches p.code i.start ts c → Reaches p.code i.start us d → c.ip = d.ip →
        c.host.machine.loops = d.host.machine.loops) ∧
      (∀ ts t c d, Reaches p.code i.start ts c → c.step p.code = .advanced t d →
        t.JoinsPartners p.code c d) ∧
      (∀ fuel r, i.run? fuel p = some r → r.outcome = .ok () →
        NoStray p.code.toList ∧
          Unclosed p.code.toList r.after.machine.loops.entries.toList) := by
  refine ⟨fun _ _ h => h.tracks.static, fun _ _ _ _ hc hd hip => hc.loops_eq hd hip,
    fun _ _ _ _ h hs => h.tracks.joinsPartners hs, ?_⟩
  intro fuel r h hok
  obtain ⟨c, hc, hmachine, hip⟩ := Interpreter.exists_completed h hok
  have hs := hc.tracks.static
  have htake : p.code.toList.take c.ip = p.code.toList := by
    rw [hip, ← Array.length_toList, List.take_length]
  rw [hmachine, ← htake]
  exact ⟨hs.noStray, hs.unclosed⟩

end

end Brainfuck
