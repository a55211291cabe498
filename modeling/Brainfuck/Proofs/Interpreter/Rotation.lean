import Brainfuck.Proofs.Interpreter.Control
import Brainfuck.Proofs.Interpreter.Frame
import Brainfuck.Proofs.Interpreter.Simulation
import Mathlib.Data.Nat.ModEq

/-!
# Rotated tapes

No position of a tape is special. `Tape.rotate k` moves every cell `k` positions to the right
around the tape, and the pointer with it (`Tape.getElem?_rotate`). What an edit does to the
rotated tape is what it does to the tape, rotated (`Tape.edit_rotate`): a move to the right adds
one to the pointer around the tape, a move to the left undoes that
(`Tape.pointer_moveLeft_eq_iff`), and the pointer is on the same cell.

So a run on the rotated tape is the run on the tape, with every position moved on
(`run?_rotate`).
-/

namespace Brainfuck

namespace Tape

/-- The position `p` moved on by `k` around a tape of `n` cells. -/
def shift (n k p : Nat) : Nat := (p + k) % n

/-- The tape whose cells are moved on by `k` around the tape, and the pointer with them: what
stands at a position `j` comes from `k` positions before. -/
def rotate (k : Nat) (t : Tape) : Tape where
  cells := Array.ofFn fun j : Fin t.length =>
    t.cells.getD (shift t.length (t.length - k % t.length) j) 0
  pointer := shift t.length k t.pointer

end Tape

/-- The same action, with the positions of a tape of `n` cells moved on by `k`. -/
def Action.rotate (n k : Nat) : Action → Action
  | .moved pointer => .moved (Tape.shift n k pointer)
  | action => action

/-- The same instruction found, with the pointer moved on by `k` around a tape of `n` cells. -/
def Fetch.rotate (n k : Nat) (found : Fetch) : Fetch :=
  { found with pointer := Tape.shift n k found.pointer }

/-- The same step, with the positions of a tape of `n` cells moved on by `k`. -/
def Turn.rotate (n k : Nat) (t : Turn) : Turn :=
  { t with step := ⟨t.step.toFetch.rotate n k, t.step.action.rotate n k⟩ }

/-- The same configuration, on the tape moved on by `k`. -/
def Config.rotate (k : Nat) (c : Config) : Config := { c with host := c.host.mapTape (.rotate k) }

/-- The same run, on a tape of `n` cells moved on by `k`. -/
def Run.rotate (n k : Nat) (r : Run) : Run :=
  { r with turns := r.turns.map (.rotate n k), after := r.after.mapTape (.rotate k) }

/-- The stream calls do not depend on positions. -/
@[simp] theorem Run.calls_rotate (n k : Nat) (r : Run) : (r.rotate n k).calls = r.calls := by
  unfold Run.calls
  rw [Run.rotate, Array.toList_map, List.flatMap_map]
  rfl

/-- Nor does the outcome. -/
@[simp] theorem Run.outcome_rotate (n k : Nat) (r : Run) : (r.rotate n k).outcome = r.outcome := rfl

/-! ### Tapes -/

namespace Tape

variable {n k i p : Nat} {t : Tape}

theorem shift_lt (hn : 0 < n) (k p : Nat) : shift n k p < n := Nat.mod_lt _ hn

/-- To move on by what is left of a whole turn is to move back. -/
theorem shift_eq_iff (hi : i < n) (hp : p < n) :
    shift n (n - k % n) i = p ↔ i = shift n k p := by
  have hk : k % n < n := Nat.mod_lt k (Nat.zero_lt_of_lt hi)
  unfold shift
  rw [← Nat.add_mod_mod p k n]
  generalize k % n = m at hk
  have hback : (i + (n - m)) % n = if i < m then i + n - m else i - m := by
    split
    · rw [Nat.mod_eq_of_lt (by omega)]
      omega
    · rw [show i + (n - m) = i - m + n by omega, Nat.add_mod_right, Nat.mod_eq_of_lt (by omega)]
  have hon : (p + m) % n = if p + m < n then p + m else p + m - n := by
    split
    · rw [Nat.mod_eq_of_lt (by omega)]
    · rw [Nat.mod_eq_sub_mod (by omega), Nat.mod_eq_of_lt (by omega)]
  rw [hback, hon]
  split <;> split <;> omega

@[simp] theorem length_rotate (k : Nat) (t : Tape) : (t.rotate k).length = t.length := by
  simp [rotate, length]

/-- **The cell at `j` is moved to `j + k` around the tape.** -/
theorem getElem?_rotate {j : Nat} (hj : j < t.length) (k : Nat) :
    (t.rotate k).cells[(j + k) % t.length]? = t.cells[j]? := by
  have hlt := shift_lt (Nat.zero_lt_of_lt hj) k j
  have hback : shift t.length (t.length - k % t.length) (shift t.length k j) = j :=
    (shift_eq_iff hlt hj).mpr rfl
  show (t.rotate k).cells[shift t.length k j]? = _
  simp only [rotate]
  rw [Array.getElem?_ofFn, dif_pos hlt]
  simp only [hback]
  rw [Array.getD_eq_getD_getElem?, Array.getElem?_eq_getElem hj, Option.getD_some]

theorem WellFormed.rotate (h : t.WellFormed) (k : Nat) : (t.rotate k).WellFormed := by
  unfold WellFormed
  rw [length_rotate]
  exact shift_lt h.length_pos k t.pointer

/-- The pointer is moved on with the cell that it is on. -/
theorem cell_rotate (h : t.WellFormed) (k : Nat) : (t.rotate k).cell = t.cell := by
  have hcell := getElem?_rotate h k
  unfold cell
  rw [Array.getD_eq_getD_getElem?, Array.getD_eq_getD_getElem?, ← hcell]
  rfl

/-- The rotated tape is the only one with its cells and its pointer there. -/
theorem eq_rotate {t' : Tape} (hlength : t'.length = t.length)
    (hpointer : t'.pointer = shift t.length k t.pointer)
    (hcells : ∀ j, j < t.length → t'.cells[shift t.length k j]? = t.cells[j]?) :
    t' = t.rotate k := by
  have hsize : t'.cells.size = (t.rotate k).cells.size := hlength.trans (length_rotate k t).symm
  have heq : t'.cells = (t.rotate k).cells := by
    refine Array.ext hsize fun i hi hi' => Option.some.inj ?_
    rw [← Array.getElem?_eq_getElem hi, ← Array.getElem?_eq_getElem hi']
    -- every position is one that a cell is moved to
    have hlt : i < t.length := hlength ▸ hi
    have hsource : shift t.length (t.length - k % t.length) i < t.length :=
      shift_lt (Nat.zero_lt_of_lt hlt) _ _
    rw [(shift_eq_iff hlt hsource).mp rfl, hcells _ hsource]
    exact (getElem?_rotate hsource k).symm
  obtain ⟨cells, pointer⟩ := t'
  cases heq
  cases hpointer
  rfl

theorem rotate_write (h : t.WellFormed) (k : Nat) (v : UInt8) :
    (t.rotate k).write v = (t.write v).rotate k := by
  have hlength : (t.write v).length = t.length := length_write t v
  refine eq_rotate ?_ ?_ fun j hj => ?_
  · rw [length_write, length_rotate, length_write]
  · rw [pointer_write, pointer_write, hlength]
    rfl
  · rw [hlength] at hj ⊢
    have hcell := getElem?_rotate hj k
    have hlt := shift_lt h.length_pos k t.pointer
    -- the cell that is written is moved to where the pointer is moved to
    have hiff : shift t.length k t.pointer = shift t.length k j ↔ t.pointer = j := by
      rw [← shift_eq_iff hlt hj, (shift_eq_iff hlt h).mpr rfl]
    have hlt' : shift t.length k t.pointer < (t.rotate k).cells.size :=
      Nat.lt_of_lt_of_eq hlt (length_rotate k t).symm
    show ((t.rotate k).cells.setIfInBounds (shift t.length k t.pointer) v)[shift t.length k j]? =
      (t.cells.setIfInBounds t.pointer v)[j]?
    have hpointer : t.pointer < t.cells.size := h
    rw [Array.getElem?_setIfInBounds, Array.getElem?_setIfInBounds, if_pos hlt', if_pos hpointer]
    by_cases hj' : t.pointer = j
    · rw [if_pos hj', if_pos (hiff.mpr hj')]
    · rw [if_neg hj', if_neg (mt hiff.mp hj')]
      exact hcell

/-- To move on by one and by `k` is the same in either order. -/
theorem shift_succ (n k p : Nat) : shift n k ((p + 1) % n) = (shift n k p + 1) % n := by
  unfold shift
  rw [Nat.mod_add_mod, Nat.mod_add_mod, Nat.add_right_comm]

theorem rotate_moveRight (k : Nat) (t : Tape) : (t.rotate k).moveRight = t.moveRight.rotate k := by
  have hsize : (t.rotate k).cells.size = t.length := length_rotate k t
  refine eq_rotate ?_ ?_ fun j hj => getElem?_rotate hj k
  · rw [length_moveRight, length_rotate, length_moveRight]
  · show (shift t.length k t.pointer + 1) % (t.rotate k).cells.size = _
    rw [hsize]
    exact (shift_succ t.length k t.pointer).symm

theorem rotate_moveLeft (h : t.WellFormed) (k : Nat) :
    (t.rotate k).moveLeft = t.moveLeft.rotate k := by
  refine eq_rotate ?_ ?_ fun j hj => getElem?_rotate hj k
  · rw [length_moveLeft, length_rotate, length_moveLeft]
  · have hlt : shift t.length k t.moveLeft.pointer < (t.rotate k).length := by
      rw [length_rotate]
      exact shift_lt h.length_pos k _
    refine (pointer_moveLeft_eq_iff (h.rotate k) hlt).mpr ?_
    rw [length_rotate, ← shift_succ, (pointer_moveLeft_eq_iff h h.moveLeft).mp rfl]
    rfl

/-- **An edit does the same to the rotated tape.** -/
theorem edit_rotate (h : t.WellFormed) (k : Nat) (e : Edit) :
    (t.rotate k).edit e = (t.edit e).rotate k := by
  cases e with
  | keep => rfl
  | right => exact rotate_moveRight k t
  | left => exact rotate_moveLeft h k
  | write v => exact rotate_write h k v

end Tape

/-! ### Steps -/

section

variable {code : Array UInt8} {c d last : Config} {k : Nat}

/-- What a deed reads off the rotated tape. -/
theorem Deed.onTape_rotate {t : Tape} (h : t.WellFormed) (k : Nat) (deed : Deed) :
    deed.onTape (t.rotate k) = (deed.onTape t).rotate t.length k := by
  cases deed with
  | moved => rfl
  | incremented => exact congrArg Action.incremented (Tape.cell_rotate h k)
  | decremented => exact congrArg Action.decremented (Tape.cell_rotate h k)
  | other action still =>
    cases action with
    | moved p => exact absurd rfl (still p)
    | _ => rfl

namespace Config

variable (h : c.host.machine.tape.WellFormed)

include h

/-- The control finds the same cell on the rotated tape. -/
theorem react_rotate (k : Nat) (b : UInt8) : (c.rotate k).react code b = c.react code b :=
  congrArg (Control.react code c.ip b · c.host.control) (Tape.cell_rotate h k)

/-- A completed step is made on the rotated tape too. -/
theorem rotate_advanced {t : Turn} (hs : c.step code = .advanced t d) :
    (c.rotate k).step code =
      .advanced (t.rotate c.host.machine.tape.length k) (d.rotate k) := by
  obtain ⟨b, r, hget, hgo, hreact, rfl, rfl⟩ := step_eq_advanced_iff_react.mp hs
  have hedit : (c.rotate k).host.machine.tape.edit r.edit =
      (c.host.machine.tape.edit r.edit).rotate k := Tape.edit_rotate h k r.edit
  have hfetch : (c.rotate k).fetch b = (c.fetch b).rotate c.host.machine.tape.length k :=
    congrArg (Fetch.mk c.count c.ip b _) (Tape.cell_rotate h k)
  refine step_eq_advanced_iff_react.mpr ⟨b, r, hget, hgo, (react_rotate h k b).trans hreact, ?_, ?_⟩
  · rw [hedit, hfetch, Response.turn, Response.turn, Deed.onTape_rotate (h.edit r.edit),
      Tape.length_edit]
    rfl
  · rw [hedit]
    rfl

/-- Where execution ends, it ends on the rotated tape too. -/
theorem rotate_halts {halt : Halt} (hh : c.Halts code halt last) :
    (c.rotate k).Halts code halt (last.rotate k) := by
  cases halt with
  | completed =>
    obtain ⟨hnone, rfl⟩ := step_eq_finished_iff.mp hh
    exact step_eq_finished_iff.mpr ⟨hnone, rfl⟩
  | failed e calls =>
    obtain ⟨b, hget, hfailed⟩ := step_eq_failed_iff_react.mp hh
    refine step_eq_failed_iff_react.mpr ⟨b, hget, ?_⟩
    rcases hfailed with ⟨hstop, rfl, rfl, rfl⟩ | ⟨hgo, control, hreact, rfl⟩
    · exact .inl ⟨hstop, rfl, rfl, rfl⟩
    · exact .inr ⟨hgo, control, (react_rotate h k b).trans hreact, rfl⟩

end Config

end

/-- The execution on a tape of `n` cells, and the one on the tape moved on by `k`. -/
def rotation (code : Array UInt8) (n k : Nat) : Simulation code where
  config c d :=
    c.host.machine.tape.WellFormed ∧ c.host.machine.tape.length = n ∧ d = c.rotate k
  turn t u := u = t.rotate n k
  halt h h' := h' = h
  advanced := by
    rintro c c' _ t ⟨hw, rfl, rfl⟩ hs
    refine ⟨_, _, Config.rotate_advanced hw hs, rfl, ?_, ?_, rfl⟩
    · obtain ⟨b, r, -, -, -, -, rfl⟩ := Config.step_eq_advanced_iff_react.mp hs
      exact hw.edit r.edit
    · exact (Config.frame_of_step_advanced hs).1
  halts := by
    rintro c last _ halt ⟨hw, rfl, rfl⟩ hh
    have hmachine := hh.machine_eq.1
    refine ⟨halt, _, Config.rotate_halts hw hh, rfl, ?_, ?_, rfl⟩
    · rw [hmachine]
      exact hw
    · rw [hmachine]

/-- Steps that are matched are the same steps, with the positions moved on. -/
theorem eq_map_rotate {n k : Nat} {ts us : List Turn}
    (h : List.Forall₂ (fun t u => u = Turn.rotate n k t) ts us) : us = ts.map (.rotate n k) := by
  induction h with
  | nil => rfl
  | cons hu _ ih => rw [hu, ih, List.map_cons]

/-- A run that is matched by `rotation` is matched by itself, with the positions moved on. -/
theorem eq_rotate_of_matches {p : Program} {i : Interpreter} {n k : Nat} {r r' : Run}
    (h : (rotation p.code n k).Matches i (i.mapTape (.rotate k)) r r') : r' = r.rotate n k := by
  obtain ⟨hlength, heof, heof', hturns, hhalt, c, _, ⟨-, -, rfl⟩, hclosing, hafter, hclosing',
    hafter'⟩ := h
  have hturns' : r'.turns = r.turns.map (.rotate n k) := by
    apply Array.toList_inj.mp
    rw [eq_map_rotate hturns, Array.toList_map]
  have heofs : r'.eof = r.eof := heof'.trans heof.symm
  have hhalts : r'.halt = r.halt := hhalt
  have hclosings : r'.closing = r.closing := hclosing'.trans hclosing.symm
  have hafters : r'.after = r.after.mapTape (.rotate k) := by
    rw [hafter, hafter']
    rfl
  show Run.mk r'.length r'.eof r'.turns r'.halt r'.closing r'.after = _
  rw [hlength, heofs, hturns', hhalts, hclosings, hafters]
  rfl

/-- **No position of the tape is special.** For every program, every interpreter whose tape is
well-formed, and every `k`, compare the run with the one that starts on the tape moved on by `k`.

* The runs are the same, but that every position on the tape is moved on by `k`, and so is the tape
  that is left: they end in the same way after the same stream calls, or neither ends.
* That is so all along the way, whether the runs end or not. -/
theorem run?_rotate {i : Interpreter} (hw : i.machine.tape.WellFormed) (k : Nat) (p : Program) :
    (∀ fuel, (i.mapTape (.rotate k)).run? fuel p =
        (i.run? fuel p).map (.rotate i.machine.tape.length k)) ∧
      ∀ ts c, Reaches p.code i.start ts c →
        Reaches p.code (i.mapTape (.rotate k)).start (ts.map (.rotate i.machine.tape.length k))
          (c.rotate k) := by
  let S := rotation p.code i.machine.tape.length k
  have hstart : S.config i.start (i.mapTape (.rotate k)).start := ⟨hw, rfl, rfl⟩
  refine ⟨fun fuel => ?_, fun ts c hr => ?_⟩
  · have hrel := S.rel_run? hstart fuel
    generalize i.run? fuel p = r?, (i.mapTape (.rotate k)).run? fuel p = r?' at hrel ⊢
    cases hrel with
    | none => rfl
    | some hmatches => exact congrArg some (eq_rotate_of_matches hmatches)
  · obtain ⟨us, _, hr', hus, -, -, rfl⟩ := S.reaches hr hstart
    rw [← eq_map_rotate hus]
    exact hr'

/-- The program `+>+.<<-` from the last of the cells 7, 0, 9, and moved on by 2: the first run goes
around the right end and back around the left one, the second around neither. -/
theorem run?_rotate_around_the_ends :
    ∃ (p : Program) (i : Interpreter) (r r' : Run),
      i.machine.tape = ⟨#[7, 0, 9], 2⟩ ∧ i.run? 8 p = some r ∧
      (i.mapTape (.rotate 2)).run? 8 p = some r' ∧ r' = r.rotate 3 2 ∧
      r.steps.toList.map (·.pointer) = [2, 2, 0, 0, 0, 2, 1] ∧
      r'.steps.toList.map (·.pointer) = [1, 1, 2, 2, 2, 1, 0] ∧
      r'.calls = [.wrote 8, .flushed] ∧ r'.outcome = .ok () ∧
      r.after.machine.tape = ⟨#[8, 255, 10], 1⟩ ∧
      r'.after.machine.tape = ⟨#[255, 10, 8], 0⟩ := by
  let p : Program := ⟨#[43, 62, 43, 46, 60, 60, 45], by decide⟩
  let i : Interpreter := .ofMachine ⟨⟨#[7, 0, 9], 2⟩, .ofCapacity 1⟩ [] .reliable
  let facts (r : Run) :=
    (r.steps.toList.map (·.pointer), r.calls, r.outcome, r.after.machine.tape)
  have hrun : (i.run? 8 p).map facts =
      some ([2, 2, 0, 0, 0, 2, 1], [.wrote 8, .flushed], .ok (), ⟨#[8, 255, 10], 1⟩) := by
    decide +kernel
  obtain ⟨r, hr, hfacts⟩ := Option.map_eq_some_iff.mp hrun
  obtain ⟨hpointers, hcalls, houtcome, htape⟩ :
      r.steps.toList.map (·.pointer) = [2, 2, 0, 0, 0, 2, 1] ∧ r.calls = [.wrote 8, .flushed] ∧
        r.outcome = .ok () ∧ r.after.machine.tape = ⟨#[8, 255, 10], 1⟩ := by
    simpa [facts] using hfacts
  have hw : i.machine.tape.WellFormed := show 2 < 3 by decide
  have hr' : (i.mapTape (.rotate 2)).run? 8 p = some (r.rotate 3 2) := by
    rw [(run?_rotate hw 2 p).1 8, hr]
    rfl
  refine ⟨p, i, r, r.rotate 3 2, rfl, hr, hr', rfl, hpointers, ?_, ?_, ?_, htape, ?_⟩
  · have hshift : (r.rotate 3 2).steps.toList.map (·.pointer) =
        (r.steps.toList.map (·.pointer)).map (Tape.shift 3 2) := by
      simp [Run.rotate, Turn.rotate, Fetch.rotate]
    rw [hshift, hpointers]
    decide
  · rw [Run.calls_rotate, hcalls]
  · rw [Run.outcome_rotate, houtcome]
  · show r.after.machine.tape.rotate 2 = _
    rw [htape]
    decide

end Brainfuck
