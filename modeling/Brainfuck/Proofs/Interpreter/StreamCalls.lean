import Brainfuck.Proofs.Interpreter.StaticLoops
import Brainfuck.Proofs.Stream.Transfer

/-!
# The stream calls of a run

A run calls its streams for the `.` and the `,` that it executes, and once more at its end. Each
completed `.` or `,` is a transfer (`Reaches.transfers`), no other instruction calls a stream,
and execution ends with at most one transfer that is broken off (`Run.EndsAt`). Then the output
is flushed once, in any case.

`stream_discipline` is what this comes to for a whole run, whichever calls fail: the form of the
sequence of its calls, and what decides the outcome. In particular no read is made while a byte
is written and not flushed.
-/

namespace Brainfuck

/-- The transfer that an instruction asks for, if it is a `.` or a `,`. -/
def Fetch.transfer? (found : Fetch) : Option Instruction :=
  match Instruction.ofByte? found.byte with
  | some .output => some .output
  | some .input => some .input
  | _ => none

/-- How a run ends that executed all it could and stands at `c`: the transfer that is broken off
there, if one is, with its calls, and the outcome. The flush at the end counts only if all of the
program was executed. -/
inductive Run.EndsAt (code : Array UInt8) (r : Run) (c : Config) :
    List Instruction → List Call → Prop where
  /-- A transfer fails. -/
  | broken {k : Instruction} {calls : List Call} {cause : IoError} {d : Config} :
      code[c.ip]? = some k.byte → c.step code = .failed (.stream c.ip cause) calls d →
      BrokenTransfer k calls cause → r.outcome = .error (.stream c.ip cause) →
      EndsAt code r c [k] calls
  /-- Execution stops for a reason that is not a stream's. -/
  | stopped {e : RunError} {d : Config} :
      c.step code = .failed e [] d → (∀ ip cause, e ≠ .stream ip cause) → r.outcome = .error e →
      EndsAt code r c [] []
  /-- The program was executed, and the flush at the end fails. -/
  | unflushed {cause : IoError} :
      c.ip = code.size → r.closing.failure? = some cause →
      r.outcome = .error (.stream code.size cause) → EndsAt code r c [] []
  /-- The program was executed, and the flush at the end succeeds. -/
  | completed : c.ip = code.size → r.closing.failure? = none → r.outcome = .ok () →
      EndsAt code r c [] []

/-! ### One instruction -/

namespace Interpreter

variable {code : Array UInt8} {found : Fetch} {host host' : Interpreter} {calls : List Call}

/-- The calls of a `,` that is answered. -/
theorem transfer_of_readCalls {b? : Option UInt8}
    (hflush : (Sink.flush host.output.flushes).failure? = none)
    (hpull : host.input.pull.result = .ok b?) : Transfer .input host.readCalls := by
  obtain ⟨n, hn⟩ := Source.calls_of_pull_ok hpull
  rw [readCalls, Sink.call_of_flush_ok hflush, hn]
  exact .take n b?

/-- The calls of a `,` that is flushed and not answered. -/
theorem brokenTransfer_of_readCalls {e : IoError}
    (hflush : (Sink.flush host.output.flushes).failure? = none)
    (hpull : host.input.pull.result = .error e) : BrokenTransfer .input host.readCalls e := by
  obtain ⟨hfatal, n, hn⟩ := Source.calls_of_pull_error hpull
  rw [readCalls, Sink.call_of_flush_ok hflush, hn]
  exact .take n hfatal

/-- An instruction that completes is a transfer, or calls no stream. -/
theorem Does.transfers {action : Action} {next : Nat} {event? : Option LoopEvent}
    (h : Does code found host action next calls event? host') :
    Transfers found.transfer?.toList calls := by
  unfold Fetch.transfer?
  cases h with
  | nothing hb | right hb | left hb | increment hb | decrement hb =>
    rw [hb]
    exact .nil
  | wrote hb hput =>
    rw [hb]
    exact .single (Sink.transfer_of_put_ok hput)
  | read hb hflush hpull | readEnd hb hflush hpull =>
    rw [hb]
    exact .single (transfer_of_readCalls hflush hpull)
  | skipped hb _ _ | entered hb _ _ | repeated hb _ _ | exited hb _ _ =>
    rw [ofByte?_bracket hb]
    exact .nil

/-- An instruction that fails is a transfer broken off, or calls no stream. -/
theorem Fails.brokenTransfer {e : RunError} (h : Fails code found host e calls host') :
    (∃ k cause, Instruction.ofByte? found.byte = some k ∧ e = .stream found.ip cause ∧
        BrokenTransfer k calls cause) ∨
      calls = [] ∧ ∀ ip cause, e ≠ .stream ip cause := by
  cases h with
  | write hb hput => exact .inl ⟨_, _, hb, rfl, Sink.brokenTransfer_of_put_error hput⟩
  | flush hb hflush =>
    rw [Sink.call_of_flush_failed hflush]
    exact .inl ⟨_, _, hb, rfl, .flush _⟩
  | read hb hflush hpull => exact .inl ⟨_, _, hb, rfl, brokenTransfer_of_readCalls hflush hpull⟩
  | opening _ _ _ | overflow _ _ _ | closing _ _ => exact .inr ⟨rfl, nofun⟩

end Interpreter

/-! ### A path of steps -/

/-- The completed steps of a path made one transfer for each `.` and each `,` among them. -/
theorem Reaches.transfers {code : Array UInt8} {c d : Config} {ts : List Turn}
    (h : Reaches code c ts d) :
    Transfers (ts.filterMap (·.step.transfer?)) (ts.flatMap (·.calls)) := by
  rw [List.filterMap_eq_flatMap_toList]
  induction h with
  | refl => exact .nil
  | @step c _ _ t ts hs _ ih =>
    obtain ⟨b, host, -, -, hfetch, hdoes, -⟩ := Config.step_eq_advanced_iff.mp hs
    have ht := hdoes.transfers
    rw [← hfetch] at ht
    exact ht.append ih

/-! ### The end of a run -/

namespace Run.EndsAt

variable {code : Array UInt8} {r : Run} {c : Config} {ks : List Instruction} {calls : List Call}

theorem readsFlushed (h : r.EndsAt code c ks calls) : Call.ReadsFlushed calls := by
  cases h with
  | broken _ _ hbroken _ => exact hbroken.readsFlushed
  | stopped _ _ _ | unflushed _ _ _ | completed _ _ _ => exact Transfers.nil.readsFlushed

theorem countP_isFlush (h : r.EndsAt code c ks calls) :
    calls.countP Call.isFlush = ks.count .input := by
  cases h with
  | broken _ _ hbroken _ => exact hbroken.countP_isFlush
  | stopped _ _ _ | unflushed _ _ _ | completed _ _ _ => rfl

/-- Where execution ends in the way the run says, the run ends. -/
theorem of_halts {last : Config} (hh : c.Halts code r.halt last) (hip : c.ip ≤ code.size)
    (hlength : r.length = code.size) : ∃ ks, r.EndsAt code c ks r.halt.calls := by
  have houtcome : r.outcome = r.halt.outcome code.size r.closing.failure? := by
    rw [← hlength]
    rfl
  generalize r.halt = halt at hh houtcome
  cases halt with
  | failed e calls =>
    obtain ⟨b, hget, ⟨-, rfl, rfl, -⟩ | ⟨-, host, hfails, -⟩⟩ := Config.step_eq_failed_iff.mp hh
    · exact ⟨[], .stopped hh nofun houtcome⟩
    · rcases hfails.brokenTransfer with ⟨k, cause, hk, rfl, hbroken⟩ | ⟨rfl, hno⟩
      · have hbyte : b = k.byte := Instruction.ofByte?_eq_some_iff.mp hk
        rw [hbyte] at hget
        exact ⟨[k], .broken hget hh hbroken houtcome⟩
      · exact ⟨[], .stopped hh hno houtcome⟩
  | completed =>
    have heq := hh.ip_eq_size hip
    cases hflush : r.closing.failure? with
    | some cause =>
      rw [hflush] at houtcome
      exact ⟨[], .unflushed heq hflush houtcome⟩
    | none =>
      rw [hflush] at houtcome
      exact ⟨[], .completed heq hflush houtcome⟩

end Run.EndsAt

/-- **How a run uses its streams.** For every program and every interpreter, whichever calls of
the streams fail: the calls of a run are those of a transfer for each completed `.` and `,`, then
those of at most one transfer broken off, then one flush. No read is made while a byte is written
and not flushed, and there is one flush for each `,` that was tried and one more. The error of
the transfer broken off, or whatever else stopped execution, is the outcome, and if there is none
a failure of the last flush. -/
theorem stream_discipline {p : Program} {i : Interpreter} {fuel : Nat} {r : Run}
    (h : i.run? fuel p = some r) :
    ∃ c tried done broken, Reaches p.code i.start r.turns.toList c ∧
      r.calls = done ++ broken ++ [r.closing.call] ∧
      Transfers (r.steps.toList.filterMap (·.transfer?)) done ∧
      r.EndsAt p.code c tried broken ∧ r.closing.call.isFlush = true ∧
      (∀ us b ms d vs, r.calls = us ++ .wrote b :: (ms ++ d :: vs) → d.IsRead →
        .flushed ∈ ms) ∧
      r.calls.countP Call.isFlush =
        (r.steps.toList.filterMap (·.transfer?) ++ tried).count .input + 1 := by
  obtain ⟨c, last, hr, hh, -, hlength⟩ := Interpreter.exists_halts h
  obtain ⟨tried, hends⟩ := Run.EndsAt.of_halts hh hr.tracks.ip_le hlength
  have hdone : Transfers (r.steps.toList.filterMap (·.transfer?))
      (r.turns.toList.flatMap (·.calls)) := by
    rw [r.toList_steps, List.filterMap_map]
    exact hr.transfers
  have hclosing := Sink.isFlush_call r.closing
  have hflushed : Call.ReadsFlushed r.calls := by
    refine (hdone.readsFlushed.append hends.readsFlushed).append (.of_forall_not fun d hd => ?_)
    rw [List.mem_singleton.mp hd, Sink.Flushed.call]
    cases r.closing.failure? <;> exact id
  refine ⟨c, tried, _, _, hr, rfl, hdone, hends, hclosing, ?_, ?_⟩
  · intro us b ms d vs hcalls hd
    exact hflushed.flushed_mem hcalls hd
  · rw [Run.calls, List.countP_append, List.countP_append, hdone.countP_isFlush,
      hends.countP_isFlush, List.count_append, List.countP_singleton, hclosing]
    rfl

/-- The program `.,` where the write is broken off once, a read is broken off and the next one
fails, and the last flush fails too: the failed read is the outcome. -/
theorem stream_discipline_broken_read :
    ∃ (p : Program) (i : Interpreter) (r : Run) (gone : IoError),
      i.run? 2 p = some r ∧ r.outcome = .error (.stream 1 gone) ∧
      r.calls = [.writeFailed .interrupted, .wrote 0, .flushed, .readFailed .interrupted,
        .readFailed .brokenPipe, .flushFailed .other] ∧
      (∃ c tried done broken, Transfers (r.steps.toList.filterMap (·.transfer?)) done ∧
        r.calls = done ++ broken ++ [r.closing.call] ∧ r.EndsAt p.code c tried broken) ∧
      r.calls.countP Call.isFlush = 2 := by
  let p : Program := ⟨#[46, 44], by decide⟩
  let again : IoError := ⟨.interrupted, "interrupted"⟩
  let gone : IoError := ⟨.brokenPipe, "broken pipe"⟩
  let i : Interpreter := .ofMachine ⟨.ofLength 1, .ofCapacity 1⟩ [.failure again, .failure gone]
    ⟨[(0, .failure again)], [(1, ⟨.other, "full"⟩)]⟩
  have hrun : (i.run? 2 p).map (fun r => (r.outcome, r.calls)) =
      some (.error (.stream 1 gone), [.writeFailed .interrupted, .wrote 0, .flushed,
        .readFailed .interrupted, .readFailed .brokenPipe, .flushFailed .other]) := by
    decide +kernel
  obtain ⟨r, hr, hend⟩ := Option.map_eq_some_iff.mp hrun
  obtain ⟨he, hcalls⟩ := Prod.mk.inj hend
  obtain ⟨c, tried, done, broken, -, hsplit, hdone, hends, -⟩ := stream_discipline hr
  exact ⟨p, i, r, gone, hr, he, hcalls, ⟨c, tried, done, broken, hdone, hsplit, hends⟩,
    by rw [hcalls]; rfl⟩

end Brainfuck
