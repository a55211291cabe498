import Brainfuck.Interpreter.Run
import Brainfuck.Proofs.Interpreter.Control
import Mathlib.Data.Set.Defs
import Mathlib.Logic.Function.Basic

/-!
# Execution on a band

A band is a tape without ends: there is a cell for each integer, and a move always gets to another
cell. An interpreter runs on a band as it does on a tape, with the same control
(`Band.Config.step`); positions are counted from where it starts.

That is what a program means where there is no end of the tape to run into. A tape is compared with
it in `Brainfuck.Proofs.Interpreter.Window`.
-/

namespace Brainfuck

/-- A row of byte cells without ends, and the position of the current one. -/
structure Band where
  /-- The cells, one for each position. -/
  cells : Int → UInt8
  /-- The position of the current cell. -/
  position : Int

namespace Band

/-- The current cell. -/
def cell (b : Band) : UInt8 := b.cells b.position

/-- The band after an edit. -/
def edit : Edit → Band → Band
  | .keep, b => b
  | .right, b => { b with position := b.position + 1 }
  | .left, b => { b with position := b.position - 1 }
  | .write v, b => { b with cells := Function.update b.cells b.position v }

/-- What an executed instruction did on a band. -/
inductive Action where
  /-- The pointer moved to a position. -/
  | moved (position : Int)
  /-- Anything that holds no position. -/
  | other (action : Brainfuck.Action)

/-- A completed step on a band. -/
structure Turn where
  /-- The number of the step in its run, from 0 on. -/
  number : Nat
  /-- The position of the instruction. -/
  ip : Nat
  /-- The byte of the instruction. -/
  byte : UInt8
  /-- The position on the band. -/
  position : Int
  /-- The current cell. -/
  cell : UInt8
  /-- What the instruction did. -/
  action : Action
  /-- The stream calls made. -/
  calls : List Call
  /-- The loop event logged. -/
  event? : Option LoopEvent

/-- An interpreter in the middle of a run on a band. -/
structure Config where
  /-- The position of the next instruction. -/
  ip : Nat
  /-- The number of steps made. -/
  count : Nat
  /-- The band. -/
  band : Band
  /-- The interpreter without its tape. -/
  control : Control

/-- What one attempt at a step on a band came to. -/
inductive Progress where
  /-- The end of the program was reached before. -/
  | finished (w : Config)
  /-- The step failed, after some stream calls. -/
  | failed (e : RunError) (calls : List Call) (w : Config)
  /-- The step completed. -/
  | advanced (turn : Turn) (w : Config)

end Band

/-- The action that a deed was, with `b` behind it. -/
def Deed.onBand (b : Band) : Deed → Band.Action
  | .moved => .moved b.position
  | .incremented => .other (.incremented b.cell)
  | .decremented => .other (.decremented b.cell)
  | .other action _ => .other action

namespace Band

/-- Execute the next instruction, if there is one and nothing stops it. -/
def Config.step (code : Array UInt8) (w : Config) : Progress :=
  match code[w.ip]? with
  | none => .finished w
  | some byte =>
    if w.control.interrupt.Stops then .failed (.interrupted w.ip) [] w
    else
      match w.control.react code w.ip byte w.band.cell with
      | .failed e calls k => .failed e calls { w with control := k }
      | .done r =>
        let b := w.band.edit r.edit
        .advanced
          ⟨w.count, w.ip, byte, w.band.position, w.band.cell, r.deed.onBand b, r.calls, r.event?⟩
          ⟨r.next, w.count + 1, b, r.control.observe w.count⟩

/-- Execution on a band leads from the first configuration to the second by the given steps. -/
inductive Reaches (code : Array UInt8) : Config → List Turn → Config → Prop where
  /-- No step is made. -/
  | refl (w : Config) : Reaches code w [] w
  /-- A step is made, and then others. -/
  | step {w w' w'' : Config} {t : Turn} {ts : List Turn} :
      w.step code = .advanced t w' → Reaches code w' ts w'' → Reaches code w (t :: ts) w''

/-- No step completes from `w`: execution ends there in the way `halt`, at `last`. -/
def Config.Halts (code : Array UInt8) (w : Config) (halt : Halt) (last : Config) : Prop :=
  match halt with
  | .completed => w.step code = .finished last
  | .failed e calls => w.step code = .failed e calls last

/-- A run on a band that ended. -/
structure Run where
  /-- The number of executable bytes. -/
  length : Nat
  /-- The completed steps, in order. -/
  turns : List Turn
  /-- How execution ended. -/
  halt : Halt
  /-- Where it stood. -/
  last : Config

namespace Run

/-- The flush at the end. -/
def closing (s : Run) : Sink.Flushed := Sink.flush s.last.control.output.flushes

/-- Every stream call, in order. -/
def calls (s : Run) : List Call := s.turns.flatMap (·.calls) ++ s.halt.calls ++ [s.closing.call]

/-- The outcome. -/
def outcome (s : Run) : Except RunError Unit := s.halt.outcome s.length s.closing.failure?

end Run

/-- `s` is the run of `p` from `w` on. -/
structure Config.Ends (p : Program) (w : Config) (s : Run) : Prop where
  /-- The length is that of the program. -/
  length : s.length = p.code.size
  /-- The steps lead to where execution ends. -/
  path : ∃ w', Reaches p.code w s.turns w' ∧ w'.Halts p.code s.halt s.last

/-- A run of an interpreter starts on a band: at the first byte, at position 0, with no loop
entered. -/
def start (cells : Int → UInt8) (i : Interpreter) : Config :=
  ⟨0, 0, ⟨cells, 0⟩, i.start.host.control⟩

/-- The `n` positions from `a` on. -/
def segment (a : Int) (n : Nat) : Set Int := {j | a ≤ j ∧ j < a + n}

/-- Each position from which a step is made, and the last one, is in the window. -/
def Within (window : Set Int) (ts : List Turn) (w : Config) : Prop :=
  (∀ t ∈ ts, t.position ∈ window) ∧ w.band.position ∈ window

end Band

/-! ### Steps on a band -/

namespace Band.Config

variable {code : Array UInt8} {w w' : Band.Config}

/-- What a completed step on a band is. -/
theorem exists_of_step_advanced {t : Band.Turn} (h : w.step code = .advanced t w') :
    ∃ b r, code[w.ip]? = some b ∧ ¬ w.control.interrupt.Stops ∧
      w.control.react code w.ip b w.band.cell = .done r ∧
      t = ⟨w.count, w.ip, b, w.band.position, w.band.cell, r.deed.onBand (w.band.edit r.edit),
        r.calls, r.event?⟩ ∧
      w' = ⟨r.next, w.count + 1, w.band.edit r.edit, r.control.observe w.count⟩ := by
  unfold step at h
  cases hget : code[w.ip]? with
  | none => simp [hget] at h
  | some b =>
    by_cases hs : w.control.interrupt.Stops
    · simp [hget, hs] at h
    · cases hreact : w.control.react code w.ip b w.band.cell with
      | failed e calls k => simp [hget, hs, hreact] at h
      | done r =>
        simp only [hget, if_neg hs, hreact] at h
        cases h
        exact ⟨b, r, rfl, hs, hreact, rfl, rfl⟩

/-- What a failed step on a band is. -/
theorem exists_of_step_failed {e : RunError} {calls : List Call}
    (h : w.step code = .failed e calls w') :
    ∃ b, code[w.ip]? = some b ∧
      ((w.control.interrupt.Stops ∧ e = .interrupted w.ip ∧ calls = [] ∧ w' = w) ∨
        (¬ w.control.interrupt.Stops ∧
          ∃ k, w.control.react code w.ip b w.band.cell = .failed e calls k ∧
            w' = { w with control := k })) := by
  unfold step at h
  cases hget : code[w.ip]? with
  | none => simp [hget] at h
  | some b =>
    by_cases hs : w.control.interrupt.Stops
    · simp only [hget, if_pos hs] at h
      cases h
      exact ⟨b, rfl, .inl ⟨hs, rfl, rfl, rfl⟩⟩
    · cases hreact : w.control.react code w.ip b w.band.cell with
      | done r => simp [hget, hs, hreact] at h
      | failed e' calls' k =>
        simp only [hget, if_neg hs, hreact] at h
        cases h
        exact ⟨b, rfl, .inr ⟨hs, k, hreact, rfl⟩⟩

/-- Execution on a band is finished behind the last instruction. -/
theorem of_step_finished (h : w.step code = .finished w') : code[w.ip]? = none ∧ w' = w := by
  unfold step at h
  cases hget : code[w.ip]? with
  | none =>
    simp only [hget] at h
    cases h
    exact ⟨rfl, rfl⟩
  | some b =>
    simp only [hget] at h
    split at h
    · cases h
    · split at h <;> cases h

/-- The end of an execution leaves the band alone. -/
theorem Halts.band_eq {halt : Halt} (h : w.Halts code halt w') : w'.band = w.band := by
  cases halt with
  | completed =>
    obtain ⟨-, rfl⟩ := of_step_finished h
    rfl
  | failed e calls =>
    obtain ⟨b, -, ⟨-, -, -, rfl⟩ | ⟨-, k, -, rfl⟩⟩ := exists_of_step_failed h
    · rfl
    · rfl

end Band.Config

/-- A path in the window starts in the window. -/
theorem Band.Within.start_mem {code : Array UInt8} {window : Set Int} {w w' : Band.Config}
    {ts : List Band.Turn} (hin : Band.Within window ts w') (h : Band.Reaches code w ts w') :
    w.band.position ∈ window := by
  cases h with
  | refl => exact hin.2
  | step hs _ =>
    obtain ⟨b, r, -, -, -, rfl, -⟩ := Band.Config.exists_of_step_advanced hs
    exact hin.1 _ List.mem_cons_self

end Brainfuck
