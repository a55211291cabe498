import Brainfuck.Interpreter.Command
import Brainfuck.Proofs.Interpreter.StreamCalls
import Brainfuck.Proofs.Stream.Accounts

/-!
# No byte is lost

What an observer is told of the streams is what happens on them. The bytes that the output took
are those of the steps that say they wrote one, and the answers that the input gave are those of
the steps that say they read one or met the end; a `.` or a `,` that fails, or that has to try
again, adds nothing to either side. What the steps do not report is still to come, for the
instructions and the runs that follow.

One instruction accounts for what it does on the streams (`Interpreter.Does.accounts`,
`Interpreter.Fails.accounts`), so a path of steps does, and a run.
`session_conserves` says it of all that may be done with one interpreter: any runs, of any
programs and with any outcomes, and whatever is done to the machine in between (`Session`).
-/

namespace Brainfuck

/-- The byte that an action wrote, if it wrote one. -/
def Action.written? : Action → Option UInt8
  | .wrote b => some b
  | _ => none

/-- The answer that an action got, if it read a byte or met the end. -/
def Action.answer? : Action → Option (Option UInt8)
  | .read b => some (some b)
  | .readEnd => some none
  | _ => none

/-- The bytes that steps say they wrote. -/
def Step.written (steps : List Step) : List UInt8 := steps.filterMap (·.action.written?)

/-- The answers that steps say they got. -/
def Step.answers (steps : List Step) : List (Option UInt8) := steps.filterMap (·.action.answer?)

theorem Step.written_cons (s : Step) (steps : List Step) :
    written (s :: steps) = s.action.written?.toList ++ written steps := by
  unfold written
  cases h : s.action.written? <;> simp [h]

theorem Step.answers_cons (s : Step) (steps : List Step) :
    answers (s :: steps) = s.action.answer?.toList ++ answers steps := by
  unfold answers
  cases h : s.action.answer? <;> simp [h]

/-- The answers that the input gave in a run. -/
def Run.answers (r : Run) : List (Option UInt8) := Call.answers r.calls

/-- The run that a reply tells of, if it is one. -/
def Reply.run? : Reply → Option Run
  | .ran r => some r
  | _ => none

/-- A life of an interpreter, from the first to the second: it answers requests, and the runs
among these are `rs`. -/
inductive Session : Interpreter → List Run → Interpreter → Prop where
  /-- Nothing is asked. -/
  | idle (i : Interpreter) : Session i [] i
  /-- A request is answered, and then others. -/
  | answer {i i' i'' : Interpreter} {fuel : Nat} {c : Command} {reply : Reply} {rs : List Run} :
      i.answer? fuel c = some (reply, i') → Session i' rs i'' →
      Session i (reply.run?.toList ++ rs) i''

/-! ### One instruction -/

namespace Interpreter

variable {code : Array UInt8} {found : Fetch} {host host' : Interpreter} {calls : List Call}

/-- The calls of a `,` that is answered. -/
theorem accounts_readCalls {b? : Option UInt8}
    (hflush : (Sink.flush host.output.flushes).failure? = none)
    (hpull : host.input.pull.result = .ok b?) :
    Accounts host.readCalls [] [b?] host.input host.input.pull.rest := by
  refine ⟨(transfer_of_readCalls hflush hpull).written_input, ?_, .of_pull_ok hpull⟩
  obtain ⟨n, hn⟩ := Source.calls_of_pull_ok hpull
  rw [readCalls, ← List.singleton_append, Call.answers_append, hn, Call.answers_append,
    Call.answers_replicate rfl, Call.answers_ofAnswer, Sink.call_of_flush_ok hflush]
  rfl

/-- An instruction that completes did on the streams what its action says. -/
theorem Does.accounts {action : Action} {next : Nat} {event? : Option LoopEvent}
    (h : Does code found host action next calls event? host') :
    Accounts calls action.written?.toList action.answer?.toList host.input host'.input := by
  cases h with
  | nothing _ | right _ | left _ | increment _ | decrement _ => exact .nil _
  | wrote _ hput =>
    exact ⟨Sink.written_put_of_ok hput, (Sink.transfer_of_put_ok hput).answers_output,
      .of_answers_eq rfl⟩
  | read _ hflush hpull => exact accounts_readCalls hflush hpull
  | readEnd _ hflush hpull => exact accounts_readCalls hflush hpull
  | skipped _ _ _ | entered _ _ _ | repeated _ _ _ | exited _ _ _ => exact .nil _

/-- An instruction that fails wrote nothing and got no answer. -/
theorem Fails.accounts {e : RunError} (h : Fails code found host e calls host') :
    Accounts calls [] [] host.input host'.input := by
  have hgives : host.input.Gives [] host'.input := by
    cases h with
    | read _ _ hpull => exact .of_pull_error hpull
    | write _ _ | flush _ _ | opening _ _ _ | overflow _ _ _ | closing _ _ =>
      exact .of_answers_eq rfl
  rcases h.brokenTransfer with ⟨k, cause, -, -, hbroken⟩ | ⟨rfl, -⟩
  · exact ⟨hbroken.written_eq_nil, hbroken.answers_eq_nil, hgives⟩
  · exact ⟨rfl, rfl, hgives⟩

end Interpreter

/-! ### Paths and runs -/

/-- A path of steps did on the streams what its steps say. -/
theorem Reaches.accounts {code : Array UInt8} {c d : Config} {ts : List Turn}
    (h : Reaches code c ts d) :
    Accounts (ts.flatMap (·.calls)) (Step.written (ts.map (·.step)))
      (Step.answers (ts.map (·.step))) c.host.input d.host.input := by
  induction h with
  | refl c => exact .nil _
  | step hs _ ih =>
    obtain ⟨b, host, -, -, -, hdoes, -, hhost⟩ := Config.step_eq_advanced_iff.mp hs
    have hstep := hdoes.accounts
    rw [hhost] at ih
    rw [List.flatMap_cons, List.map_cons, Step.written_cons, Step.answers_cons]
    exact hstep.append ih

/-- Where execution ends, nothing more is written, and no answer got. -/
theorem Config.Halts.accounts {code : Array UInt8} {c last : Config} {halt : Halt}
    (h : c.Halts code halt last) :
    Accounts halt.calls [] [] c.host.input last.host.input := by
  cases halt with
  | completed =>
    obtain ⟨-, rfl⟩ := Config.step_eq_finished_iff.mp h
    exact .nil _
  | failed e calls =>
    obtain ⟨b, -, ⟨-, -, rfl, rfl⟩ | ⟨-, host, hfails, rfl⟩⟩ := Config.step_eq_failed_iff.mp h
    · exact .nil _
    · exact hfails.accounts

/-- A run did on the streams what its steps say. -/
theorem Interpreter.accounts_of_run? {p : Program} {i : Interpreter} {fuel : Nat} {r : Run}
    (h : i.run? fuel p = some r) :
    Accounts r.calls (Step.written r.steps.toList) (Step.answers r.steps.toList) i.input
      r.after.input := by
  obtain ⟨c, last, hr, -, hh, heq⟩ := run?_eq_some_iff.mp h
  have hafter : r.after.input = last.host.input := by rw [heq]; rfl
  have hclosing : Accounts [r.closing.call] [] [] last.host.input r.after.input := by
    have hanswer : r.closing.call.answer? = none := by
      unfold Sink.Flushed.call
      split <;> rfl
    refine ⟨?_, ?_, .of_answers_eq (congrArg _ hafter)⟩
    · rw [heq]
      exact Sink.written_flush _
    · rw [Call.answers, List.filterMap_cons, hanswer]
      rfl
  have hall := (hr.accounts.append hh.accounts).append hclosing
  rwa [List.append_nil, List.append_nil, List.append_nil, List.append_nil, ← r.toList_steps]
    at hall

/-- A request does on the streams what the steps of its run say, if it is to run a program, and
else nothing. -/
theorem Interpreter.accounts_of_answer? {i i' : Interpreter} {fuel : Nat} {c : Command}
    {reply : Reply} (h : i.answer? fuel c = some (reply, i')) :
    Accounts (reply.run?.toList.flatMap Run.calls)
      (reply.run?.toList.flatMap fun r => Step.written r.steps.toList)
      (reply.run?.toList.flatMap fun r => Step.answers r.steps.toList) i.input i'.input := by
  cases c with
  | run p =>
    obtain ⟨r, hr, heq⟩ := Option.map_eq_some_iff.mp h
    obtain ⟨rfl, rfl⟩ := Prod.mk.inj heq
    have hrun := accounts_of_run? hr
    simpa only [Reply.run?, Option.toList_some, List.flatMap_singleton] using hrun
  | push p =>
    simp only [answer?] at h
    split at h <;>
    · cases h
      exact .nil _
  | _ =>
    simp only [answer?, Option.some.injEq, Prod.mk.injEq] at h
    obtain ⟨rfl, rfl⟩ := h
    exact .nil _

/-- A whole session does on the streams what the steps of its runs say. -/
theorem Session.accounts {i i' : Interpreter} {rs : List Run} (h : Session i rs i') :
    Accounts (rs.flatMap Run.calls) (rs.flatMap fun r => Step.written r.steps.toList)
      (rs.flatMap fun r => Step.answers r.steps.toList) i.input i'.input := by
  induction h with
  | idle i => exact .nil _
  | answer hanswer _ ih =>
    rw [List.flatMap_append, List.flatMap_append, List.flatMap_append]
    exact (Interpreter.accounts_of_answer? hanswer).append ih

/-- **No byte is lost, made twice or read ahead.** For every interpreter, and all that is asked
of it, whichever calls of its streams fail: the bytes that the output took in its runs are, in
order, those of the steps that wrote one, and the answers that the input gave are those of the
steps that read a byte or met the end. These are the first answers of the input, the bytes among
them and the bytes left are all its bytes, and the same goes for what a further run takes from
what is left, at every point, whether that run ends or not. -/
theorem session_conserves {i i' : Interpreter} {rs : List Run} (h : Session i rs i') :
    rs.flatMap Run.output = rs.flatMap (fun r => Step.written r.steps.toList) ∧
      rs.flatMap Run.answers = rs.flatMap (fun r => Step.answers r.steps.toList) ∧
      i.input.Gives (rs.flatMap Run.answers) i'.input ∧
      (rs.flatMap Run.answers).filterMap id ++ i'.input.bytes = i.input.bytes ∧
      ∀ (p : Program) ts c, Reaches p.code i'.start ts c →
        Accounts (ts.flatMap (·.calls)) (Step.written (ts.map (·.step)))
          (Step.answers (ts.map (·.step))) i'.input c.host.input := by
  obtain ⟨hwritten, hanswers, hgives⟩ := h.accounts
  rw [Call.written, List.filterMap_flatMap] at hwritten
  rw [Call.answers, List.filterMap_flatMap] at hanswers
  have hsteps : rs.flatMap Run.answers = rs.flatMap (fun r => Step.answers r.steps.toList) :=
    hanswers
  rw [hsteps]
  exact ⟨hwritten, rfl, hgives, hgives.bytes_append, fun p ts c hr => hr.accounts⟩

/-- Two runs of `,.,.` on one interpreter. The first one's write is broken off once and its second
read fails; the second run reads on behind the failure. -/
theorem session_conserves_broken_read :
    ∃ (i i' : Interpreter) (r₁ r₂ : Run) (gone : IoError), Session i [r₁, r₂] i' ∧
      r₁.outcome = .error (.stream 2 gone) ∧ r₂.outcome = .ok () ∧
      [r₁, r₂].flatMap Run.output = [7, 8, 0] ∧
      [r₁, r₂].flatMap Run.answers = [some 7, some 8, none] ∧
      [r₁, r₂].flatMap Run.output = [r₁, r₂].flatMap (fun r => Step.written r.steps.toList) ∧
      [r₁, r₂].flatMap Run.answers = [r₁, r₂].flatMap (fun r => Step.answers r.steps.toList) ∧
      i.input.Gives ([r₁, r₂].flatMap Run.answers) i'.input := by
  let p : Program := ⟨#[44, 46, 44, 46], by decide⟩
  let again : IoError := ⟨.interrupted, "interrupted"⟩
  let gone : IoError := ⟨.brokenPipe, "broken pipe"⟩
  let i : Interpreter := .ofMachine ⟨.ofLength 1, .ofCapacity 1⟩
    [.data [7], .failure gone, .data [8]] ⟨[(0, .failure again)], []⟩
  have hrun : ((i.run? 5 p).bind fun r₁ => (r₁.after.run? 5 p).map fun r₂ =>
      (r₁.outcome, r₂.outcome, [r₁, r₂].flatMap Run.output, [r₁, r₂].flatMap Run.answers)) =
      some (.error (.stream 2 gone), .ok (), [7, 8, 0], [some 7, some 8, none]) := by
    decide +kernel
  obtain ⟨r₁, hr₁, hrun⟩ := Option.bind_eq_some_iff.mp hrun
  obtain ⟨r₂, hr₂, hend⟩ := Option.map_eq_some_iff.mp hrun
  simp only [Prod.mk.injEq] at hend
  obtain ⟨he₁, he₂, houtput, hanswers⟩ := hend
  have h₁ : i.answer? 5 (.run p) = some (.ran r₁, r₁.after) := by rw [Interpreter.answer?, hr₁]; rfl
  have h₂ : r₁.after.answer? 5 (.run p) = some (.ran r₂, r₂.after) := by
    rw [Interpreter.answer?, hr₂]
    rfl
  have hsession : Session i [r₁, r₂] r₂.after := .answer h₁ (.answer h₂ (.idle _))
  obtain ⟨hwritten, hsteps, hgives, -⟩ := session_conserves hsession
  exact ⟨i, _, r₁, r₂, gone, hsession, he₁, he₂, houtput, hanswers, hwritten, hsteps, hgives⟩

end Brainfuck
