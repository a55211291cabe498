import Brainfuck.CommandLine.Run
import Brainfuck.Proofs.Interpreter.CheckAgreement
import Brainfuck.Proofs.Interpreter.Conservation
import Brainfuck.Proofs.Interpreter.Lockstep
import Brainfuck.Proofs.Program.Loading

/-!
# The phases of the command

A command that is to run a file goes through three phases: the file is loaded, its brackets are
checked if the settings are strict, and the program is run. The first phase that fails decides the
exit code. `Invocation.Phases` says so in terms of what the file delivers, of the check and of a run
of the engine alone, and `ends_iff_phases` that this is how a command ends.

Nothing else is looked at. The debug flag is not, and a check that passes leaves no trace. As the
check passes only what no run can find unbalanced, a file that passes it is never reported so.
-/

namespace Brainfuck

namespace CommandLine

/-- What is seen of a command that ended, but for its error output. -/
structure Ending where
  /-- The exit code. -/
  code : Nat
  /-- What it wrote to its output. -/
  output : List UInt8
  /-- What is left of its input. -/
  input : Source

/-- What is seen of it. -/
def Ended.ending (e : Ended) : Ending := ⟨e.status.code, e.output, e.input⟩

namespace Invocation

/-- The command ends so. -/
def Ends (i : Invocation) (x : Ending) : Prop := ∃ fuel, (run? fuel i).map Ended.ending = some x

/-- The arguments are understood as `a`, and ask for a run of `file`. -/
structure AsksFor (i : Invocation) (a : Arguments) (file : Path) : Prop where
  /-- The arguments are understood. -/
  read : Arguments.read i.arguments = .ok a
  /-- They do not ask for the usage text. -/
  noHelp : Flag.help ∉ a.flags
  /-- They name the file. -/
  file : a.file = some file

/-- The settings that arguments, environment and document come to. -/
def settings (i : Invocation) (a : Arguments) : Settings :=
  (Settings.resolve a.overrides i.environment (i.openAt i.environment.documentPath)).1

/-- The file is opened and read, and holds the program `p`. -/
def Holds (i : Invocation) (file : Path) (p : Program) : Prop :=
  ∃ s, i.openAt file = .ok s ∧ s.contents = .ok p.buffer.toList

/-- The engine: a fresh machine with the policy that the settings ask for, and nothing to stop
it. -/
def engine (i : Invocation) (a : Arguments) : Interpreter :=
  { Interpreter.ofMachine default i.input .reliable with eof := (i.settings a).eof }

/-- How a command ends that is to run `file`, by the first phase that fails. -/
inductive Phases (i : Invocation) (a : Arguments) (file : Path) : Ending → Prop where
  /-- The file is not opened. -/
  | unopened {e : IoError} : i.openAt file = .error e → Phases i a file ⟨1, [], i.input⟩
  /-- The file is not read to its end. -/
  | unread {s : Source} {e : IoError} : i.openAt file = .ok s → s.contents = .error e →
      Phases i a file ⟨1, [], i.input⟩
  /-- The file is longer than the limit. -/
  | tooLarge {s : Source} {bytes : List UInt8} : i.openAt file = .ok s → s.contents = .ok bytes →
      Program.limit < bytes.length → Phases i a file ⟨3, [], i.input⟩
  /-- The settings are strict, and the check fails. -/
  | rejected {p : Program} {e : RunError} : i.Holds file p → (i.settings a).strict = true →
      p.checkBrackets = .error e → Phases i a file ⟨5, [], i.input⟩
  /-- The program is run. What is written is what the steps of the run wrote. -/
  | ran {p : Program} {fuel : Nat} {r : Run} : i.Holds file p →
      ((i.settings a).strict = true → p.checkBrackets = .ok ()) →
      (i.engine a).run? fuel p = some r →
      Phases i a file ⟨r.status.code, Step.written r.steps.toList, r.after.input⟩

end Invocation

/-! ### More steps allowed -/

/-- More steps allowed do not change how a command ends. -/
theorem run?_mono {i : Invocation} {fuel fuel' : Nat} {e : Ended} (hf : fuel ≤ fuel')
    (h : run? fuel i = some e) : run? fuel' i = some e := by
  unfold run? at h ⊢
  dsimp only at h ⊢
  split at h
  · rename_i hjob
    simpa [hjob] using h
  · rename_i hjob
    obtain ⟨r, hr, rfl⟩ := Option.map_eq_some_iff.mp h
    simp [Interpreter.run?_mono hf hr]

/-- A command ends in one way only. -/
theorem Invocation.Ends.unique {i : Invocation} {x y : Ending} (hx : i.Ends x) (hy : i.Ends y) :
    x = y := by
  obtain ⟨fuel, hx⟩ := hx
  obtain ⟨fuel', hy⟩ := hy
  obtain ⟨e, he, rfl⟩ := Option.map_eq_some_iff.mp hx
  obtain ⟨e', he', rfl⟩ := Option.map_eq_some_iff.mp hy
  have hmax := run?_mono (Nat.le_max_left fuel fuel') he
  have hmax' := run?_mono (Nat.le_max_right fuel fuel') he'
  rw [Option.some.inj (hmax.symm.trans hmax')]

/-! ### Before the run -/

section

variable {name : String} {a : Arguments} {file : Path} {settings : Settings}
  {opened : Except IoError Source} {p : Program}

theorem prepare_of_not_loaded {e : LoadError}
    (h : Program.ofFile (Utf8.toStringLossy file) opened = .error e) :
    prepare name a file settings opened = .error (.ofFailure name #[] (.load e)) := by
  simp [prepare, h]

theorem prepare_of_rejected {e : RunError}
    (h : Program.ofFile (Utf8.toStringLossy file) opened = .ok p) (hs : settings.strict = true)
    (hc : p.checkBrackets = .error e) :
    prepare name a file settings opened = .error (.ofFailure name p.code (.run e)) := by
  simp [prepare, h, hs, hc]

theorem prepare_of_accepted (h : Program.ofFile (Utf8.toStringLossy file) opened = .ok p)
    (hc : settings.strict = true → p.checkBrackets = .ok ()) :
    prepare name a file settings opened = .ok ⟨p, settings.eof, Flag.debug ∈ a.flags⟩ := by
  cases hs : settings.strict with
  | true => simp [prepare, h, hs, hc hs]
  | false => simp [prepare, h, hs]

/-- The check fails for want of a partner. -/
theorem status_of_checkBrackets {e : RunError} (h : p.checkBrackets = .error e) :
    e.status = .unbalanced := by
  unfold Program.checkBrackets at h
  cases hc : Brackets.check p.code.toList with
  | ok _ => simp [hc, Except.mapError] at h
  | error u =>
    rw [hc] at h
    cases h
    rfl

end

namespace Invocation

variable {i : Invocation} {a : Arguments} {file : Path} {x : Ending}

theorem AsksFor.request_eq (h : i.AsksFor a file) :
    request i.name i.arguments = .ok (a, file) := by
  simp [request, h.read, h.noHelp, h.file]

/-- What a command comes to, behind its arguments and settings. -/
theorem AsksFor.run?_eq (h : i.AsksFor a file) (fuel : Nat) :
    run? fuel i =
      match prepare i.name a file (i.settings a) (i.openAt file) with
      | .error r => some ⟨r.status, [], r.text, i.input⟩
      | .ok job => ((job.interpreter i.input).run? fuel job.program).map fun r =>
          ⟨r.status, r.output, job.table r.steps.toList ++ job.report i.name r.outcome,
            r.after.input⟩ := by
  unfold run?
  rw [h.request_eq]
  rfl

/-- A command that does not get to a run ends at once. -/
theorem AsksFor.ends_of_refused (h : i.AsksFor a file) {r : Refusal}
    (hr : prepare i.name a file (i.settings a) (i.openAt file) = .error r) :
    i.Ends x ↔ x = ⟨r.status.code, [], i.input⟩ := by
  simp [Ends, h.run?_eq, hr, Ended.ending, eq_comm]

/-- A switch that nothing turns on makes no difference. -/
theorem run?_engine (i : Invocation) (a : Arguments) (fuel : Nat) (p : Program) :
    ((i.engine a).switched ⟨false, true, none⟩).run? fuel p =
      ((i.engine a).run? fuel p).map (Run.switched ⟨false, true, none⟩) := by
  refine Interpreter.run?_switched (fun ts c hr _ => ?_) fuel
  rw [hr.interrupt_eq, Interrupt.after_of_raiseAt_none rfl, Interrupt.after_of_raiseAt_none rfl]
  simp [engine, Interpreter.ofMachine, Interrupt.off, Interrupt.Stops]

/-- A command that gets to a run ends as the engine does. -/
theorem AsksFor.ends_of_prepared (h : i.AsksFor a file) {p : Program} {debug : Bool}
    (hr : prepare i.name a file (i.settings a) (i.openAt file) =
      .ok ⟨p, (i.settings a).eof, debug⟩) :
    i.Ends x ↔ ∃ fuel r, (i.engine a).run? fuel p = some r ∧
      x = ⟨r.status.code, Step.written r.steps.toList, r.after.input⟩ := by
  have hending : ∀ fuel, (run? fuel i).map Ended.ending = ((i.engine a).run? fuel p).map fun r =>
      ⟨r.status.code, Step.written r.steps.toList, r.after.input⟩ := by
    intro fuel
    have hengine : ((Job.mk p (i.settings a).eof debug).interpreter i.input).run? fuel p = _ :=
      i.run?_engine a fuel p
    rw [h.run?_eq, hr]
    simp only [hengine, Option.map_map]
    refine Option.map_congr fun r hrun => ?_
    rw [← (Interpreter.accounts_of_run? hrun).written]
    rfl
  simp only [Ends, hending, Option.map_eq_some_iff, @eq_comm _ x]

/-! ### All phases -/

/-- A command whose file is not loaded ends at once. -/
theorem AsksFor.ends_of_not_loaded (h : i.AsksFor a file) {e : LoadError}
    (hload : Program.ofFile (Utf8.toStringLossy file) (i.openAt file) = .error e) :
    i.Ends x ↔ x = ⟨e.status.code, [], i.input⟩ :=
  h.ends_of_refused (prepare_of_not_loaded hload)

/-- A command whose file fails the check ends at once, if the settings are strict. -/
theorem AsksFor.ends_of_rejected (h : i.AsksFor a file) {p : Program} {e : RunError}
    (hp : i.Holds file p) (hs : (i.settings a).strict = true)
    (hcheck : p.checkBrackets = .error e) : i.Ends x ↔ x = ⟨5, [], i.input⟩ := by
  have hload := (Program.ofFile_eq_ok_iff (Utf8.toStringLossy file)).mpr hp
  rw [h.ends_of_refused (prepare_of_rejected hload hs hcheck), Refusal.ofFailure, Failure.status,
    status_of_checkBrackets hcheck]
  rfl

/-- Any other command ends as the engine does. -/
theorem AsksFor.ends_of_accepted (h : i.AsksFor a file) {p : Program} (hp : i.Holds file p)
    (hc : (i.settings a).strict = true → p.checkBrackets = .ok ()) :
    i.Ends x ↔ ∃ fuel r, (i.engine a).run? fuel p = some r ∧
      x = ⟨r.status.code, Step.written r.steps.toList, r.after.input⟩ :=
  h.ends_of_prepared (prepare_of_accepted ((Program.ofFile_eq_ok_iff _).mpr hp) hc)

/-- A command ends by the first phase that fails. -/
theorem AsksFor.phases_of_ends (h : i.AsksFor a file) (hx : i.Ends x) : i.Phases a file x := by
  cases hload : Program.ofFile (Utf8.toStringLossy file) (i.openAt file) with
  | error e =>
    rw [h.ends_of_not_loaded hload] at hx
    subst hx
    rcases (Program.ofFile_eq_error_iff _).mp hload with ⟨cause, hopen, rfl⟩ |
      ⟨s, hopen, ⟨cause, hread, rfl⟩ | ⟨bytes, hread, hsize, rfl⟩⟩
    · exact .unopened hopen
    · exact .unread hopen hread
    · exact .tooLarge hopen hread hsize
  | ok p =>
    have hp : i.Holds file p := (Program.ofFile_eq_ok_iff _).mp hload
    by_cases hc : (i.settings a).strict = true → p.checkBrackets = .ok ()
    · rw [h.ends_of_accepted hp hc] at hx
      obtain ⟨fuel, r, hr, rfl⟩ := hx
      exact .ran hp hc hr
    · obtain ⟨hs, hc⟩ := Classical.not_imp.mp hc
      cases hcheck : p.checkBrackets with
      | ok _ => exact absurd hcheck hc
      | error e =>
        rw [h.ends_of_rejected hp hs hcheck] at hx
        subst hx
        exact .rejected hp hs hcheck

/-- Where a phase fails, or none does, the command ends so. -/
theorem AsksFor.ends_of_phases (h : i.AsksFor a file) (hx : i.Phases a file x) : i.Ends x := by
  cases hx with
  | unopened hopen =>
    have hload := (Program.ofFile_eq_error_iff (Utf8.toStringLossy file)).mpr
      (.inl ⟨_, hopen, rfl⟩)
    exact (h.ends_of_not_loaded hload).mpr rfl
  | unread hopen hread =>
    have hload := (Program.ofFile_eq_error_iff (Utf8.toStringLossy file)).mpr
      (.inr ⟨_, hopen, .inl ⟨_, hread, rfl⟩⟩)
    exact (h.ends_of_not_loaded hload).mpr rfl
  | tooLarge hopen hread hsize =>
    have hload := (Program.ofFile_eq_error_iff (Utf8.toStringLossy file)).mpr
      (.inr ⟨_, hopen, .inr ⟨_, hread, hsize, rfl⟩⟩)
    exact (h.ends_of_not_loaded hload).mpr rfl
  | rejected hp hs hcheck => exact (h.ends_of_rejected hp hs hcheck).mpr rfl
  | ran hp hc hr => exact (h.ends_of_accepted hp hc).mpr ⟨_, _, hr, rfl⟩

theorem AsksFor.ends_iff (h : i.AsksFor a file) : i.Ends x ↔ i.Phases a file x :=
  ⟨h.phases_of_ends, h.ends_of_phases⟩

/-- A file that passes the check is not reported unbalanced. -/
theorem Phases.code_ne_unbalanced (hx : i.Phases a file x)
    (hc : ∀ p, i.Holds file p → p.checkBrackets = .ok ()) :
    x.code ≠ ExitStatus.unbalanced.code := by
  cases hx with
  | unopened _ => simp [ExitStatus.code]
  | unread _ _ => simp [ExitStatus.code]
  | tooLarge _ _ _ => simp [ExitStatus.code]
  | rejected hp _ hcheck =>
    rw [hc _ hp] at hcheck
    cases hcheck
  | @ran p fuel r hp _ hr =>
    intro hcode
    have hstatus : RunError.statusOf r.outcome = .unbalanced := ExitStatus.code_inj.mp hcode
    obtain ⟨u, he⟩ := RunError.statusOf_eq_unbalanced_iff.mp hstatus
    exact Interpreter.check_ne_ok_of_unmatched hr he (Program.checkBrackets_eq_ok_iff.mp (hc p hp))

/-- What decides the end of a command: what is found at the file, the input, the policy for its end,
and whether the check is made, if the file would fail it. -/
theorem Phases.congr {j : Invocation} {a' : Arguments} {file' : Path} (hx : i.Phases a file x)
    (hopen : j.openAt file' = i.openAt file) (hinput : j.input = i.input)
    (heof : (j.settings a').eof = (i.settings a).eof)
    (hstrict : (j.settings a').strict = (i.settings a).strict ∨
      ∀ p, i.Holds file p → p.checkBrackets = .ok ()) : j.Phases a' file' x := by
  have hengine : j.engine a' = i.engine a := by rw [engine, engine, hinput, heof]
  have hholds : ∀ {p}, i.Holds file p → j.Holds file' p := by
    rintro p ⟨s, hs, hread⟩
    exact ⟨s, hopen.trans hs, hread⟩
  cases hx with
  | unopened h =>
    rw [← hinput]
    exact .unopened (hopen.trans h)
  | unread h hread =>
    rw [← hinput]
    exact .unread (hopen.trans h) hread
  | tooLarge h hread hsize =>
    rw [← hinput]
    exact .tooLarge (hopen.trans h) hread hsize
  | rejected hp hs hcheck =>
    rcases hstrict with hsame | hc
    · rw [← hinput]
      exact .rejected (hholds hp) (hsame.trans hs) hcheck
    · rw [hc _ hp] at hcheck
      cases hcheck
  | ran hp hc hr =>
    rw [← hengine] at hr
    refine .ran (hholds hp) (fun hs => ?_) hr
    rcases hstrict with hsame | hc'
    · exact hc (hsame.symm.trans hs)
    · exact hc' _ hp

end Invocation

/-- **How the command ends.** For every command that is to run a file, in every environment,
whatever is found at its paths and whatever its input is:

* It ends in one way at most, by the first phase that fails. With 1 or 3 if the file cannot be
  opened or read, or is too long; else with 5 if the settings are strict and the check fails; else
  as the engine does on a fresh machine. Only in the last case there is output, which is what the
  steps of the run wrote, and is any input read.
* If the file passes the check, all commands that find it end alike, be their settings strict or
  not, and none ends with 5.
* The debug flag makes no difference. -/
theorem ends_iff_phases {i : Invocation} {a : Arguments} {file : Path} (h : i.AsksFor a file) :
    (∀ x, i.Ends x ↔ i.Phases a file x) ∧ (∀ x y, i.Ends x → i.Ends y → x = y) ∧
      ((∀ p, i.Holds file p → p.checkBrackets = .ok ()) →
        (∀ x, i.Ends x → x.code ≠ ExitStatus.unbalanced.code) ∧
          ∀ (j : Invocation) a' file', j.AsksFor a' file' → j.openAt file' = i.openAt file →
            j.input = i.input → (j.settings a').eof = (i.settings a).eof →
            ∀ x, i.Ends x ↔ j.Ends x) ∧
      ∀ arguments a', { i with arguments := arguments }.AsksFor a' file → a'.eof = a.eof →
        (Flag.strict ∈ a'.flags ↔ Flag.strict ∈ a.flags) →
        ∀ x, i.Ends x ↔ { i with arguments := arguments }.Ends x := by
  refine ⟨fun x => h.ends_iff, fun _ _ hx hy => hx.unique hy, fun hc => ⟨fun x hx => ?_, ?_⟩, ?_⟩
  · exact (h.ends_iff.mp hx).code_ne_unbalanced hc
  · intro j a' file' h' hopen hinput heof x
    have hc' : ∀ p, j.Holds file' p → p.checkBrackets = .ok () := by
      rintro p ⟨s, hs, hread⟩
      exact hc p ⟨s, hopen.symm.trans hs, hread⟩
    rw [h.ends_iff, h'.ends_iff]
    exact ⟨fun hx => hx.congr hopen hinput heof (.inr hc),
      fun hx => hx.congr hopen.symm hinput.symm heof.symm (.inr hc')⟩
  · intro arguments a' h' heof hstrict x
    have hoverrides : a'.overrides = a.overrides := by simp [Arguments.overrides, heof, hstrict]
    have hsettings : { i with arguments := arguments }.settings a' = i.settings a := by
      rw [Invocation.settings, hoverrides]
      rfl
    rw [h.ends_iff, h'.ends_iff]
    exact ⟨fun hx => hx.congr rfl rfl (congrArg _ hsettings) (.inl (congrArg _ hsettings)),
      fun hx => hx.congr rfl rfl (congrArg _ hsettings.symm) (.inl (congrArg _ hsettings.symm))⟩

/-- A file with the program `.]`, run as it is and with `--strict`: both end with 5, but only the
first writes a byte. -/
theorem ends_iff_phases_stray_closing :
    ∃ (i : Invocation) (a a' : Arguments) (file : Path) (b : UInt8), i.AsksFor a file ∧
      { i with arguments := [Utf8.ofString "--strict", file] }.AsksFor a' file ∧
      i.Ends ⟨5, [b], []⟩ ∧
      { i with arguments := [Utf8.ofString "--strict", file] }.Ends ⟨5, [], []⟩ := by
  let p : Program := ⟨#[46, 93], by decide⟩
  let file : Path := [112]
  let i : Invocation :=
    { name := "bf"
      arguments := [file]
      environment := ⟨none, none, none, [47]⟩
      openAt := fun path => if path = file then .ok (.ofBytes [46, 93]) else .error .notFound
      input := [] }
  let j : Invocation := { i with arguments := [Utf8.ofString "--strict", file] }
  let a : Arguments := ⟨none, [], some file⟩
  let a' : Arguments := ⟨none, [.strict], some file⟩
  have h : i.AsksFor a file := ⟨by decide +kernel, by decide, rfl⟩
  have h' : j.AsksFor a' file := ⟨by decide +kernel, by decide, rfl⟩
  have hp : i.Holds file p := ⟨_, rfl, rfl⟩
  have hlenient : (i.settings a).strict = false := by decide +kernel
  have hstrict : (j.settings a').strict = true := by decide +kernel
  have hcheck : p.checkBrackets = .error (.unmatched ⟨1, .closing⟩) := by decide +kernel
  -- which byte is written is left open, as evaluating it would count all cells of the tape
  have hrun : ((i.engine a).run? 2 p).map (fun r =>
      (r.status.code, (Step.written r.steps.toList).length, r.after.input)) = some (5, 1, []) := by
    decide +kernel
  obtain ⟨r, hr, hend⟩ := Option.map_eq_some_iff.mp hrun
  obtain ⟨hcode, hstreams⟩ := Prod.mk.inj hend
  obtain ⟨hlength, hinput⟩ := Prod.mk.inj hstreams
  obtain ⟨b, hwritten⟩ := List.length_eq_one_iff.mp hlength
  have hran := Invocation.Phases.ran hp (by simp [hlenient]) hr
  rw [hcode, hwritten, hinput] at hran
  exact ⟨i, a, a', file, b, h, h', ((ends_iff_phases h).1 _).mpr hran,
    ((ends_iff_phases h').1 _).mpr (.rejected hp hstrict hcheck)⟩

end CommandLine

end Brainfuck
