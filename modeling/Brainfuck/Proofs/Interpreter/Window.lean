import Brainfuck.Proofs.Interpreter.Band
import Brainfuck.Proofs.Interpreter.Ending
import Mathlib.Data.Int.ModEq
import Mathlib.Data.Set.Function

/-!
# A tape is a window on a band

A tape of `n` cells is a band rolled up. The cell that is `j` away from the pointer is
`Tape.place j`, and positions that are a multiple of `n` apart are on one cell. As long as a run on
the band stays in a window of at most `n` cells, no two of its positions are on one cell
(`Tape.place_injOn`), so the tape shows the window of the band at every step (`Tape.Shows.edit`),
and the run on the tape is the run on the band with the positions put in their places
(`shows_band`). The window may lie across the end of the tape.
-/

namespace Brainfuck

/-! ### The band rolled up -/

/-- The position on the tape that is `j` away from the pointer, to the right or to the left. -/
def Tape.place (t : Tape) (j : Int) : Nat := ((t.pointer + j) % t.length).toNat

/-- The action on a tape, with the positions of the band in their places. -/
def Band.Action.onTape (place : Int → Nat) : Band.Action → Brainfuck.Action
  | .moved position => .moved (place position)
  | .other action => action

/-- The step on a tape, with the positions of the band in their places. -/
def Band.Turn.onTape (place : Int → Nat) (t : Band.Turn) : Brainfuck.Turn :=
  ⟨⟨⟨t.number, t.ip, t.byte, place t.position, t.cell⟩, t.action.onTape place⟩, t.calls, t.event?⟩

/-- The tape shows the window of the band, where `t₀` is the tape at the start. -/
structure Tape.Shows (t₀ : Tape) (window : Set Int) (t : Tape) (b : Band) : Prop where
  /-- There are as many cells as at the start. -/
  length : t.length = t₀.length
  /-- The pointer is in its place. -/
  pointer : t.pointer = t₀.place b.position
  /-- The cells of the window are in their places. -/
  cells : ∀ j ∈ window, t.cells[t₀.place j]? = some (b.cells j)

/-- The same is next on the tape and on the band, and the tape shows the window of the band. -/
structure Config.Shows (t₀ : Tape) (window : Set Int) (c : Config) (w : Band.Config) : Prop where
  /-- The position of the next instruction. -/
  ip : c.ip = w.ip
  /-- The number of steps made. -/
  count : c.count = w.count
  /-- The loops entered, the streams, and the settings. -/
  control : c.host.control = w.control
  /-- The tape. -/
  tape : Tape.Shows t₀ window c.host.machine.tape w.band

/-- The run on the tape is the run on the band, with the positions in their places. -/
structure Run.Shows (t₀ : Tape) (window : Set Int) (r : Run) (s : Band.Run) : Prop where
  /-- The steps. -/
  turns : r.turns.toList = s.turns.map (Band.Turn.onTape t₀.place)
  /-- The stream calls, and so the bytes written and read. -/
  calls : r.calls = s.calls
  /-- The outcome. -/
  outcome : r.outcome = s.outcome
  /-- The loops that are left entered. -/
  loops : r.after.machine.loops = s.last.control.loops
  /-- What is left of the input. -/
  input : r.after.input = s.last.control.input
  /-- The tape that is left. -/
  tape : Tape.Shows t₀ window r.after.machine.tape s.last.band

namespace Tape

variable {t t₀ : Tape} {i j : Int} {window : Set Int} {b : Band}

theorem place_lt (h : t.WellFormed) (j : Int) : t.place j < t.length := by
  have hpos : (0 : Int) < t.length := Int.natCast_pos.mpr h.length_pos
  have hlt := Int.emod_lt_of_pos (t.pointer + j) hpos
  have hnonneg := Int.emod_nonneg (t.pointer + j) (Int.ne_of_gt hpos)
  unfold place
  omega

/-- The place of a position, as an integer. -/
theorem cast_place (h : t.WellFormed) (j : Int) :
    (t.place j : Int) = (t.pointer + j) % t.length := by
  have hpos : (0 : Int) < t.length := Int.natCast_pos.mpr h.length_pos
  exact Int.toNat_of_nonneg (Int.emod_nonneg _ (Int.ne_of_gt hpos))

/-- The pointer is in the place from which positions are counted. -/
theorem place_zero (h : t.WellFormed) : t.place 0 = t.pointer := by
  have hcast := cast_place h 0
  rw [Int.add_zero, ← Int.natCast_emod, Nat.mod_eq_of_lt h] at hcast
  exact Int.ofNat_inj.mp hcast

/-- One position on is one cell on around the tape. -/
theorem place_succ (h : t.WellFormed) (j : Int) : t.place (j + 1) = (t.place j + 1) % t.length := by
  apply Int.ofNat_inj.mp
  rw [cast_place h, Int.natCast_emod, Int.natCast_succ, cast_place h, Int.emod_add_emod,
    Int.add_assoc]

/-- **In a window no longer than the tape, no two positions are on one cell.** -/
theorem place_injOn (h : t.WellFormed) {n : Nat} (hn : n ≤ t.length) (a : Int) :
    Set.InjOn t.place (Band.segment a n) := by
  rintro i ⟨hai, hia⟩ j ⟨haj, hja⟩ hplace
  have hmod : (t.pointer + i) % t.length = (t.pointer + j) % t.length := by
    rw [← cast_place h, ← cast_place h, hplace]
  have hdvd : (t.length : Int) ∣ (t.pointer + i) - (t.pointer + j) :=
    Int.dvd_of_emod_eq_zero (Int.emod_eq_emod_iff_emod_sub_eq_zero.mp hmod)
  -- they are less than a whole turn apart
  have hzero := Int.eq_zero_of_abs_lt_dvd hdvd (abs_lt.mpr ⟨by omega, by omega⟩)
  omega

section

variable (h₀ : t₀.WellFormed) (hlength : t.length = t₀.length) (hpointer : t.pointer = t₀.place j)

include h₀ hlength hpointer

theorem wellFormed_of_place : t.WellFormed := by
  unfold WellFormed
  rw [hpointer, hlength]
  exact place_lt h₀ j

/-- A move to the right is one position on. -/
theorem pointer_moveRight : t.moveRight.pointer = t₀.place (j + 1) := by
  show (t.pointer + 1) % t.length = t₀.place (j + 1)
  rw [hpointer, hlength, place_succ h₀]

/-- A move to the left is one position back. -/
theorem pointer_moveLeft : t.moveLeft.pointer = t₀.place (j - 1) := by
  have hlt : t₀.place (j - 1) < t.length := by
    rw [hlength]
    exact place_lt h₀ _
  refine (pointer_moveLeft_eq_iff (wellFormed_of_place h₀ hlength hpointer) hlt).mpr ?_
  rw [hpointer, hlength, ← place_succ h₀, Int.sub_add_cancel]

end

namespace Shows

/-- The tape shows the current cell. -/
theorem cell_eq (h : t₀.Shows window t b) (hb : b.position ∈ window) : t.cell = b.cell := by
  unfold cell
  rw [Array.getD_eq_getD_getElem?, h.pointer, h.cells _ hb]
  rfl

/-- **An edit in the window is shown**, as its positions are on different cells. -/
theorem edit (h : t₀.Shows window t b) (h₀ : t₀.WellFormed) (hinj : Set.InjOn t₀.place window)
    (hb : b.position ∈ window) (e : Edit) : t₀.Shows window (t.edit e) (b.edit e) := by
  obtain ⟨hlength, hpointer, hcells⟩ := h
  cases e with
  | keep => exact ⟨hlength, hpointer, hcells⟩
  | right => exact ⟨hlength, pointer_moveRight h₀ hlength hpointer, hcells⟩
  | left => exact ⟨hlength, pointer_moveLeft h₀ hlength hpointer, hcells⟩
  | write v =>
    refine ⟨(length_write t v).trans hlength, hpointer, fun j hj => ?_⟩
    show (t.cells.setIfInBounds t.pointer v)[t₀.place j]? =
      some (Function.update b.cells b.position v j)
    rw [Array.getElem?_setIfInBounds, hpointer]
    by_cases hjb : b.position = j
    · have hlt : t₀.place j < t.cells.size := Nat.lt_of_lt_of_eq (place_lt h₀ j) hlength.symm
      rw [hjb, if_pos rfl, if_pos hlt, Function.update_self]
    · rw [if_neg fun hplace => hjb (hinj hb hj hplace), Function.update_of_ne (Ne.symm hjb),
        hcells j hj]

end Shows

end Tape

/-! ### Steps -/

/-- What a deed reads off a tape that shows the band is what it reads off the band. -/
theorem Deed.onTape_of_shows {t t₀ : Tape} {window : Set Int} {b : Band}
    (h : t₀.Shows window t b) (hb : b.position ∈ window) (deed : Deed) :
    deed.onTape t = (deed.onBand b).onTape t₀.place := by
  cases deed with
  | moved => exact congrArg Action.moved h.pointer
  | incremented => exact congrArg Action.incremented (h.cell_eq hb)
  | decremented => exact congrArg Action.decremented (h.cell_eq hb)
  | other action still => rfl

namespace Config.Shows

variable {code : Array UInt8} {t₀ : Tape} {window : Set Int} {c : Config} {w w' : Band.Config}

/-- The control finds on the tape the cell that it finds on the band. -/
theorem react_eq (h : c.Shows t₀ window w) (hw : w.band.position ∈ window) (b : UInt8) :
    c.react code b = w.control.react code w.ip b w.band.cell := by
  rw [react, h.control, h.ip, h.tape.cell_eq hw]

theorem stops_iff (h : c.Shows t₀ window w) :
    c.host.interrupt.Stops ↔ w.control.interrupt.Stops := by
  rw [← h.control]
  rfl

/-- **A step on the band in the window is a step on the tape.** -/
theorem advanced {t : Band.Turn} (h : c.Shows t₀ window w) (h₀ : t₀.WellFormed)
    (hinj : Set.InjOn t₀.place window) (hs : w.step code = .advanced t w')
    (hw : w.band.position ∈ window) (hw' : w'.band.position ∈ window) :
    ∃ c', c.step code = .advanced (t.onTape t₀.place) c' ∧ c'.Shows t₀ window w' := by
  obtain ⟨b, r, hget, hgo, hreact, rfl, rfl⟩ := Band.Config.exists_of_step_advanced hs
  have hedit := h.tape.edit h₀ hinj hw r.edit
  have hfetch : c.fetch b = ⟨w.count, w.ip, b, t₀.place w.band.position, w.band.cell⟩ := by
    rw [fetch, h.count, h.ip, h.tape.pointer, h.tape.cell_eq hw]
  refine ⟨_, step_eq_advanced_iff_react.mpr ⟨b, r, h.ip ▸ hget, mt h.stops_iff.mp hgo,
    (h.react_eq hw b).trans hreact, ?_, rfl⟩, rfl, congrArg (· + 1) h.count, ?_, hedit⟩
  · rw [Response.turn, hfetch, Deed.onTape_of_shows hedit hw']
    rfl
  · show r.control.observe c.count = r.control.observe w.count
    rw [h.count]

/-- **Where execution on the band ends in the window, it ends on the tape.** -/
theorem halts {halt : Halt} {last : Band.Config} (h : c.Shows t₀ window w)
    (hh : w.Halts code halt last) (hw : w.band.position ∈ window) :
    ∃ last', c.Halts code halt last' ∧ last'.Shows t₀ window last := by
  cases halt with
  | completed =>
    obtain ⟨hnone, rfl⟩ := Band.Config.of_step_finished hh
    exact ⟨c, step_eq_finished_iff.mpr ⟨h.ip ▸ hnone, rfl⟩, h⟩
  | failed e calls =>
    obtain ⟨b, hget, ⟨hstop, rfl, rfl, rfl⟩ | ⟨hgo, k, hreact, rfl⟩⟩ :=
      Band.Config.exists_of_step_failed hh
    · exact ⟨c, step_eq_failed_iff_react.mpr ⟨b, h.ip ▸ hget,
        .inl ⟨h.stops_iff.mpr hstop, by rw [h.ip], rfl, rfl⟩⟩, h⟩
    · exact ⟨_, step_eq_failed_iff_react.mpr ⟨b, h.ip ▸ hget,
        .inr ⟨mt h.stops_iff.mp hgo, k, (h.react_eq hw b).trans hreact, rfl⟩⟩,
        h.ip, h.count, rfl, h.tape⟩

end Config.Shows

/-! ### Runs -/

namespace Band

variable {code : Array UInt8} {t₀ : Tape} {window : Set Int} {w w' : Config} {ts : List Turn}

/-- **A path on the band in the window is a path on the tape.** -/
theorem Reaches.exists_shows (h : Reaches code w ts w') {c : Brainfuck.Config}
    (hm : c.Shows t₀ window w) (h₀ : t₀.WellFormed) (hinj : Set.InjOn t₀.place window)
    (hin : Within window ts w') :
    ∃ c', Brainfuck.Reaches code c (ts.map (Turn.onTape t₀.place)) c' ∧
      c'.Shows t₀ window w' := by
  induction h generalizing c with
  | refl => exact ⟨c, .refl c, hm⟩
  | step hs hr ih =>
    have hrest : Within window _ _ := ⟨fun t ht => hin.1 t (List.mem_cons_of_mem _ ht), hin.2⟩
    obtain ⟨c₁, hs', hm₁⟩ :=
      hm.advanced h₀ hinj hs (hin.start_mem (.step hs hr)) (hrest.start_mem hr)
    obtain ⟨c', hr', hm'⟩ := ih hm₁ hrest
    exact ⟨c', .step hs' hr', hm'⟩

variable {p : Program} {i : Interpreter} {cells : Int → UInt8}

/-- The tape at the start shows the band at the start. -/
theorem start_shows (hw : i.machine.tape.WellFormed)
    (hcells : ∀ j ∈ window, i.machine.tape.cells[i.machine.tape.place j]? = some (cells j)) :
    i.start.Shows i.machine.tape window (start cells i) :=
  ⟨rfl, rfl, rfl, rfl, (Tape.place_zero hw).symm, hcells⟩

/-- **A run on the band in the window is a run on the tape.** -/
theorem Config.Ends.exists_shows {s : Run} (h : (start cells i).Ends p s)
    (hw : i.machine.tape.WellFormed) (hinj : Set.InjOn i.machine.tape.place window)
    (hcells : ∀ j ∈ window, i.machine.tape.cells[i.machine.tape.place j]? = some (cells j))
    (hin : Within window s.turns s.last) :
    ∃ fuel r, i.run? fuel p = some r ∧ r.Shows i.machine.tape window s := by
  obtain ⟨w', hr, hh⟩ := h.path
  have hin' : Within window s.turns w' := ⟨hin.1, hh.band_eq ▸ hin.2⟩
  obtain ⟨c, hr', hm⟩ := hr.exists_shows (start_shows hw hcells) hw hinj hin'
  obtain ⟨last, hh', hlast⟩ := hm.halts hh hin'.2
  have hflushes : Sink.flush last.host.output.flushes = s.closing :=
    congrArg (Sink.flush ·.output.flushes) hlast.control
  have hcalls : (s.turns.map (Turn.onTape i.machine.tape.place)).flatMap (·.calls) =
      s.turns.flatMap (·.calls) := List.flatMap_map ..
  refine ⟨_, _, Interpreter.run?_of_halts hr' hh', rfl, ?_, ?_, congrArg (·.loops) hlast.control,
    congrArg (·.input) hlast.control, hlast.tape⟩
  · rw [Brainfuck.Run.calls, Run.calls, hflushes, List.toList_toArray, hcalls]
  · rw [Brainfuck.Run.outcome, Run.outcome, hflushes, h.length]

end Band

/-- Two runs from tapes `t` and `t'` that no observer can tell apart but by the positions on the
tape: each step is the same step of a run on a band. -/
structure Run.Alike (t t' : Tape) (window : Set Int) (r r' : Run) : Prop where
  /-- The steps. -/
  turns : ∃ ts : List Band.Turn, r.turns.toList = ts.map (Band.Turn.onTape t.place) ∧
    r'.turns.toList = ts.map (Band.Turn.onTape t'.place)
  /-- The stream calls. -/
  calls : r'.calls = r.calls
  /-- The outcome. -/
  outcome : r'.outcome = r.outcome
  /-- The loops that are left entered. -/
  loops : r'.after.machine.loops = r.after.machine.loops
  /-- What is left of the input. -/
  input : r'.after.input = r.after.input
  /-- The cells of the window that are left. -/
  cells : ∀ j ∈ window, r'.after.machine.tape.cells[t'.place j]? =
    r.after.machine.tape.cells[t.place j]?

theorem Run.Shows.alike {t t' : Tape} {window : Set Int} {r r' : Run} {s : Band.Run}
    (h : r.Shows t window s) (h' : r'.Shows t' window s) : r.Alike t t' window r' where
  turns := ⟨s.turns, h.turns, h'.turns⟩
  calls := h'.calls.trans h.calls.symm
  outcome := h'.outcome.trans h.outcome.symm
  loops := h'.loops.trans h.loops.symm
  input := h'.input.trans h.input.symm
  cells j hj := (h'.tape.cells j hj).trans (h.tape.cells j hj).symm

/-- **A tape is a faithful window on a band.** For every program and every interpreter with a
well-formed tape, compare its run with the run on a band that holds the cells of the tape in a
window of at most as many positions, wherever that window lies. What is true as long as the run on
the band stays in the window:

* Every step on the band is the same step on the tape, with positions in their places. The loops,
  the streams and the settings are the same behind it, and the tape shows the window of the band.
* If the run on the band ends, so does the run on the tape, in the same way, after the same stream
  calls. If the run on the band does not end, neither does the run on the tape.
* So the run is alike on all tapes with these cells that are long enough. -/
theorem shows_band {i : Interpreter} (hw : i.machine.tape.WellFormed) {a : Int} {n : Nat}
    (hn : n ≤ i.machine.tape.length) {cells : Int → UInt8}
    (hcells : ∀ j ∈ Band.segment a n,
      i.machine.tape.cells[i.machine.tape.place j]? = some (cells j)) (p : Program) :
    (∀ ts w, Band.Reaches p.code (Band.start cells i) ts w → Band.Within (Band.segment a n) ts w →
        ∃ c, Reaches p.code i.start (ts.map (Band.Turn.onTape i.machine.tape.place)) c ∧
          c.Shows i.machine.tape (Band.segment a n) w) ∧
      (∀ s, (Band.start cells i).Ends p s → Band.Within (Band.segment a n) s.turns s.last →
        ∃ fuel r, i.run? fuel p = some r ∧ r.Shows i.machine.tape (Band.segment a n) s) ∧
      ((∀ m, ∃ ts w, Band.Reaches p.code (Band.start cells i) ts w ∧
          Band.Within (Band.segment a n) ts w ∧ m ≤ ts.length) →
        ∀ fuel, i.run? fuel p = none) ∧
      ∀ t' : Tape, t'.WellFormed → n ≤ t'.length →
        (∀ j ∈ Band.segment a n, t'.cells[t'.place j]? = some (cells j)) →
        ∀ s, (Band.start cells i).Ends p s → Band.Within (Band.segment a n) s.turns s.last →
          ∃ fuel r fuel' r', i.run? fuel p = some r ∧
            (i.mapTape fun _ => t').run? fuel' p = some r' ∧
            r.Alike i.machine.tape t' (Band.segment a n) r' := by
  have hinj := Tape.place_injOn hw hn a
  refine ⟨fun ts w hr hin => hr.exists_shows (Band.start_shows hw hcells) hw hinj hin,
    fun s hs hin => hs.exists_shows hw hinj hcells hin, fun hlong => ?_,
    fun t' hw' hn' hcells' s hs hin => ?_⟩
  · refine Interpreter.forall_run?_eq_none_iff.mpr fun m => ?_
    obtain ⟨ts, w, hr, hin, hle⟩ := hlong m
    obtain ⟨c, hr', -⟩ := hr.exists_shows (Band.start_shows hw hcells) hw hinj hin
    exact ⟨_, c, hr', by rwa [List.length_map]⟩
  · obtain ⟨fuel, r, hrun, hshows⟩ := hs.exists_shows hw hinj hcells hin
    have hs' : (Band.start cells (i.mapTape fun _ => t')).Ends p s := hs
    obtain ⟨fuel', r', hrun', hshows'⟩ :=
      hs'.exists_shows hw' (Tape.place_injOn hw' hn' a) hcells' hin
    exact ⟨fuel, r, fuel', r', hrun, hrun', hshows.alike hshows'⟩

/-- The program `+>.<` on the tape 5, 9 with the pointer at 1, where the window of the two positions
lies across the end, and on the tape 9, 5, 7 with the pointer at 0, where it does not. -/
theorem shows_band_across_the_end :
    ∃ (p : Program) (i : Interpreter) (t' : Tape) (s : Band.Run) (fuel fuel' : Nat) (r r' : Run),
      i.machine.tape = ⟨#[5, 9], 1⟩ ∧ t' = ⟨#[9, 5, 7], 0⟩ ∧
      s.turns.map (·.position) = [0, 0, 1, 1] ∧ s.calls = [.wrote 5, .flushed] ∧
      i.run? fuel p = some r ∧ r.Shows i.machine.tape (Band.segment 0 2) s ∧
      (i.mapTape fun _ => t').run? fuel' p = some r' ∧
      r.Alike i.machine.tape t' (Band.segment 0 2) r' := by
  let p : Program := ⟨#[43, 62, 46, 60], by decide⟩
  let t : Tape := ⟨#[5, 9], 1⟩
  let t' : Tape := ⟨#[9, 5, 7], 0⟩
  let i : Interpreter := .ofMachine ⟨t, .ofCapacity 1⟩ [] .reliable
  let cells : Int → UInt8 := fun j => if j = 0 then 9 else 5
  let turns : List Band.Turn :=
    [⟨0, 0, 43, 0, 9, .other (.incremented 10), [], none⟩,
      ⟨1, 1, 62, 0, 10, .moved 1, [], none⟩,
      ⟨2, 2, 46, 1, 5, .other (.wrote 5), [.wrote 5], none⟩,
      ⟨3, 3, 60, 1, 5, .moved 0, [], none⟩]
  have hcode : p.code = #[43, 62, 46, 60] := by decide +kernel
  obtain ⟨last, hpath, hend, hposition, houtput⟩ : ∃ last,
      Band.Reaches p.code (Band.start cells i) turns last ∧ last.Halts p.code .completed last ∧
        last.band.position = 0 ∧ last.control.output = .reliable := by
    rw [hcode]
    exact ⟨_, .step rfl (.step rfl (.step rfl (.step rfl (.refl _)))), rfl, rfl, rfl⟩
  let s : Band.Run := ⟨p.code.size, turns, .completed, last⟩
  have hends : (Band.start cells i).Ends p s := ⟨rfl, last, hpath, hend⟩
  have hin : Band.Within (Band.segment 0 2) s.turns s.last := by
    refine ⟨fun u hu => ?_, ?_⟩
    · have hpositions : ∀ u ∈ turns, 0 ≤ u.position ∧ u.position < 2 := by simp [turns]
      exact hpositions u hu
    · rw [hposition]
      exact ⟨by decide, by decide⟩
  have hcells (t : Tape) (h₀ : t.cells[t.place 0]? = some 9) (h₁ : t.cells[t.place 1]? = some 5) :
      ∀ j ∈ Band.segment 0 2, t.cells[t.place j]? = some (cells j) := by
    rintro j ⟨hj₀, hj₂⟩
    obtain rfl | rfl : j = 0 ∨ j = 1 := by omega
    · exact h₀
    · exact h₁
  have hw : t.WellFormed := show 1 < 2 by decide
  have hw' : t'.WellFormed := show 0 < 3 by decide
  obtain ⟨-, hruns, -, halike⟩ :=
    shows_band (i := i) (a := 0) (n := 2) hw (by decide) (hcells t (by decide) (by decide)) p
  obtain ⟨fuel, r, hr, hshows⟩ := hruns s hends hin
  obtain ⟨fuel₁, r₁, fuel', r', hr₁, hr', hruns'⟩ :=
    halike t' hw' (by decide) (hcells t' (by decide) (by decide)) s hends hin
  obtain rfl := Interpreter.run?_unique hr₁ hr
  have hcalls : s.calls = [.wrote 5, .flushed] := by
    rw [Band.Run.calls, Band.Run.closing, houtput]
    rfl
  exact ⟨p, i, t', s, fuel, fuel', r₁, r', rfl, rfl, rfl, hcalls, hr, hshows, hr', hruns'⟩

end Brainfuck
