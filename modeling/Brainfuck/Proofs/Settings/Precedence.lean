import Brainfuck.Proofs.Settings.LastValues
import Brainfuck.Settings.Resolution

/-!
# Precedence of settings

A setting may come from an option, from a variable of the environment and from the last assignment
to its key in the document. The first of these that gives something decides, and if none does, the
setting is as by default (`Settings.ComesTo`). An option gives nothing if it is left out; a variable,
if it is unset, not UTF-8 or not understood; the document, if it has no assignment to the key or the
last one is not understood. A document that is missing, cannot be read or is not UTF-8 has no lines
at all (`Document.HasLines`).

Nothing is shared between the two settings: each depends on its own option, variable and key. The
warnings are those of the variables (`Environment.Warns`) and those of the document, and do not
depend on what decides.
-/

namespace Brainfuck

namespace Environment

/-- The variable is set to this text. -/
def IsText (value? : Option (List UInt8)) (word : List Char) : Prop :=
  ∃ bytes, value? = some bytes ∧ Utf8.toString? bytes = some (String.ofList word)

/-- What variables are to be warned about: a text that is no word for the setting. -/
inductive Warns (env : Environment) : Warning → Prop where
  /-- The variable is that for the end of the input. -/
  | eof {word : List Char} : IsText env.eof word → EofPolicy.ofWord? word = none →
      Warns env (.environmentEof (String.ofList word))
  /-- The variable is that for the check. -/
  | strict {word : List Char} : IsText env.strict word → Settings.truthOfWord? word = none →
      Warns env (.environmentStrict (String.ofList word))

section

variable {α : Type} {value? : Option (List UInt8)} {word : List Char}
  {ofWord? : List Char → Option α}

theorem text?_eq_some_iff : text? value? = some word ↔ IsText value? word := by
  simp only [text?, IsText, Option.map_eq_some_iff, Option.bind_eq_some_iff]
  constructor
  · rintro ⟨text, ⟨bytes, hbytes, htext⟩, rfl⟩
    exact ⟨bytes, hbytes, by rw [htext, String.ofList_toList]⟩
  · rintro ⟨bytes, hbytes, htext⟩
    exact ⟨_, ⟨bytes, hbytes, htext⟩, String.toList_ofList⟩

/-- A variable sets nothing if it is unset or not UTF-8, or a text that is not understood. -/
theorem bind_text?_eq_none_iff :
    (text? value?).bind ofWord? = none ↔ ∀ word, IsText value? word → ofWord? word = none := by
  simp only [Option.bind_eq_none_iff, text?_eq_some_iff]

theorem bind_text?_eq_some_iff {a : α} :
    (text? value?).bind ofWord? = some a ↔ ∃ word, IsText value? word ∧ ofWord? word = some a := by
  simp only [Option.bind_eq_some_iff, text?_eq_some_iff]

theorem warning?_eq_some_iff {warn : String → Warning} {w : Warning} :
    warning? value? ofWord? warn = some w ↔
      ∃ word, IsText value? word ∧ ofWord? word = none ∧ w = warn (String.ofList word) := by
  simp only [← text?_eq_some_iff, warning?]
  cases text? value? with
  | none => simp
  | some word =>
    cases h : ofWord? word <;> simp [h, eq_comm]

end

variable {env : Environment} {w : Warning}

theorem mem_warnings_iff : w ∈ env.warnings ↔ env.Warns w := by
  rw [warnings, List.mem_append, Option.mem_toList, Option.mem_toList, warning?_eq_some_iff,
    warning?_eq_some_iff]
  constructor
  · rintro (⟨word, htext, hno, rfl⟩ | ⟨word, htext, hno, rfl⟩)
    · exact .eof htext hno
    · exact .strict htext hno
  · rintro (⟨htext, hno⟩ | ⟨htext, hno⟩)
    · exact .inl ⟨_, htext, hno, rfl⟩
    · exact .inr ⟨_, htext, hno, rfl⟩

theorem nodup_warnings (env : Environment) : env.warnings.Nodup := by
  refine List.nodup_append.mpr ⟨Option.toList_nodup _, Option.toList_nodup _, ?_⟩
  intro v hv w hw
  obtain ⟨_, _, _, rfl⟩ := warning?_eq_some_iff.mp (Option.mem_toList.mp hv)
  obtain ⟨_, _, _, rfl⟩ := warning?_eq_some_iff.mp (Option.mem_toList.mp hw)
  exact nofun

theorem Warns.key?_eq_none (h : env.Warns w) : w.key? = none := by
  cases h <;> rfl

end Environment

namespace Document

/-- What the lines are of a document that is opened like this. -/
inductive HasLines : Except IoError Source → List (List Char) → Prop where
  /-- It can be read and is UTF-8. -/
  | text {source : Source} {bytes : List UInt8} {text : String} : source.contents? = some bytes →
      Utf8.toString? bytes = some text → HasLines (.ok source) (lines text.toList)
  /-- It cannot be opened. -/
  | missing (e : IoError) : HasLines (.error e) []
  /-- A read fails for good. -/
  | unreadable {source : Source} : source.contents? = none → HasLines (.ok source) []
  /-- It is not UTF-8. -/
  | notText {source : Source} {bytes : List UInt8} : source.contents? = some bytes →
      Utf8.toString? bytes = none → HasLines (.ok source) []

theorem exists_hasLines (opened : Except IoError Source) : ∃ ls, HasLines opened ls := by
  cases opened with
  | error e => exact ⟨_, .missing e⟩
  | ok source =>
    cases hbytes : source.contents? with
    | none => exact ⟨_, .unreadable hbytes⟩
    | some bytes =>
      cases htext : Utf8.toString? bytes with
      | none => exact ⟨_, .notText hbytes htext⟩
      | some text => exact ⟨_, .text hbytes htext⟩

theorem HasLines.unique {opened : Except IoError Source} {ls ls' : List (List Char)}
    (h : HasLines opened ls) (h' : HasLines opened ls') : ls = ls' := by
  cases h <;> cases h' <;> simp_all

theorem ofDocument_ok (source : Source) :
    Settings.ofDocument (.ok source) =
      match source.contents?.bind Utf8.toString? with
      | some text => read text.toList
      | none => (default, []) := rfl

/-- A document is read as if its lines were those of a text, no lines being those of the empty
text. -/
theorem HasLines.exists_read {opened : Except IoError Source} {ls : List (List Char)}
    (h : HasLines opened ls) :
    ∃ text, lines text = ls ∧ Settings.ofDocument opened = read text := by
  cases h with
  | text hbytes htext =>
    exact ⟨_, rfl, by rw [ofDocument_ok, hbytes, Option.bind_some, htext]⟩
  | missing e => exact ⟨[], rfl, rfl⟩
  | unreadable hbytes =>
    refine ⟨[], rfl, ?_⟩
    rw [ofDocument_ok, hbytes]
    rfl
  | notText hbytes htext =>
    refine ⟨[], rfl, ?_⟩
    rw [ofDocument_ok, hbytes, Option.bind_some, htext]
    rfl

end Document

namespace Settings

open Document (HasLines LastAssigns Gives Sets)

/-- What a setting comes to that has this option and this variable, this key in a document with
these lines, and this default. -/
inductive ComesTo {α : Type} (option? : Option α) (value? : Option (List UInt8))
    (ls : List (List Char)) (key : String) (ofWord? : List Char → Option α) (otherwise : α) :
    α → Prop where
  /-- The option is there. -/
  | option {a : α} : option? = some a → ComesTo option? value? ls key ofWord? otherwise a
  /-- There is no option, and the variable is understood. -/
  | environment {a : α} {word : List Char} : option? = none → Environment.IsText value? word →
      ofWord? word = some a → ComesTo option? value? ls key ofWord? otherwise a
  /-- There is no option and no variable that is understood, and the last assignment is. -/
  | document {a : α} {value : List Char} : option? = none →
      (∀ word, Environment.IsText value? word → ofWord? word = none) →
      LastAssigns ls ⟨key.toList, value⟩ → ofWord? value = some a →
      ComesTo option? value? ls key ofWord? otherwise a
  /-- There is nothing that is understood. -/
  | otherwise : option? = none →
      (∀ word, Environment.IsText value? word → ofWord? word = none) →
      (∀ value, LastAssigns ls ⟨key.toList, value⟩ → ofWord? value = none) →
      ComesTo option? value? ls key ofWord? otherwise otherwise

section

variable {α : Type} {option? : Option α} {value? : Option (List UInt8)} {ls ls' : List (List Char)}
  {key : String} {ofWord? : List Char → Option α} {get : Settings → α}
  {opened opened' : Except IoError Source}

/-- The first of option, variable and last assignment that gives something decides. -/
theorem comesTo_getD {x? : Option α} (hx : Gives ls key ofWord? x?) (otherwise : α) :
    ComesTo option? value? ls key ofWord? otherwise
      ((option? <|> (Environment.text? value?).bind ofWord?).getD (x?.getD otherwise)) := by
  cases hoption : option? with
  | some a => exact .option rfl
  | none =>
    cases hvariable : (Environment.text? value?).bind ofWord? with
    | some a =>
      obtain ⟨word, htext, hword⟩ := Environment.bind_text?_eq_some_iff.mp hvariable
      exact .environment rfl htext hword
    | none =>
      have hvariable := Environment.bind_text?_eq_none_iff.mp hvariable
      cases hx with
      | never hnever => exact .otherwise rfl hvariable fun value h => absurd h (hnever value)
      | @last value hlast =>
        cases hvalue : ofWord? value with
        | some a => exact .document rfl hvariable hlast hvalue
        | none =>
          refine .otherwise rfl hvariable fun other hother => ?_
          obtain ⟨⟩ := hother.unique hlast rfl
          exact hvalue

/-- The first of option, variable and document decides, for a document with these lines. -/
theorem comesTo_ofDocument (h : Sets key ofWord? get) (hls : HasLines opened ls) :
    ComesTo option? value? ls key ofWord? (get default)
      ((option? <|> (Environment.text? value?).bind ofWord?).getD (get (ofDocument opened).1)) := by
  obtain ⟨text, rfl, hread⟩ := hls.exists_read
  obtain ⟨x?, hx, hget⟩ := h.exists_gives (Document.readAs_read text)
  rw [hread, hget]
  exact comesTo_getD hx _

/-- Documents with the same last assignment to a key set its setting alike. -/
theorem get_ofDocument_eq (h : Sets key ofWord? get) (hls : HasLines opened ls)
    (hls' : HasLines opened' ls')
    (hiff : ∀ value, LastAssigns ls' ⟨key.toList, value⟩ ↔ LastAssigns ls ⟨key.toList, value⟩) :
    get (ofDocument opened').1 = get (ofDocument opened).1 := by
  obtain ⟨text, rfl, hread⟩ := hls.exists_read
  obtain ⟨text', rfl, hread'⟩ := hls'.exists_read
  rw [hread, hread']
  exact h.get_eq_of_forall_iff hiff

theorem resolve_eof (options : Overrides) (env : Environment) (opened : Except IoError Source) :
    (resolve options env opened).1.eof =
      (options.eof <|> (Environment.text? env.eof).bind EofPolicy.ofWord?).getD
        (ofDocument opened).1.eof := rfl

theorem resolve_strict (options : Overrides) (env : Environment) (opened : Except IoError Source) :
    (resolve options env opened).1.strict =
      (options.strict <|> (Environment.text? env.strict).bind truthOfWord?).getD
        (ofDocument opened).1.strict := rfl

theorem resolve_snd (options : Overrides) (env : Environment) (opened : Except IoError Source) :
    (resolve options env opened).2 = Warning.sorted (env.warnings ++ (ofDocument opened).2) := rfl

theorem mem_resolve_snd_iff {options : Overrides} {env : Environment} (hls : HasLines opened ls)
    {w : Warning} : w ∈ (resolve options env opened).2 ↔ env.Warns w ∨ Document.Warns ls w := by
  obtain ⟨text, rfl, hread⟩ := hls.exists_read
  rw [resolve_snd, Warning.sorted, List.mem_mergeSort, List.mem_append,
    Environment.mem_warnings_iff, hread, (Document.readAs_read text).mem_snd_iff]

theorem nodup_resolve_snd (options : Overrides) (env : Environment) (hls : HasLines opened ls) :
    (resolve options env opened).2.Nodup := by
  obtain ⟨text, rfl, hread⟩ := hls.exists_read
  have hdocument := Document.readAs_read text
  rw [resolve_snd, Warning.sorted, (List.mergeSort_perm _ _).nodup_iff, hread]
  refine List.nodup_append.mpr ⟨env.nodup_warnings, hdocument.nodup_snd, fun v hv w hw heq => ?_⟩
  -- only warnings of the document are about a key
  have hnone := (Environment.mem_warnings_iff.mp hv).key?_eq_none
  have hsome := (hdocument.mem_snd_iff.mp hw).isSome_key?
  rw [← heq, hnone] at hsome
  cases hsome

end

/-- **The first word that is understood decides, for each setting on its own.** For every options,
environment and document:

* each setting is what the first of its option, its variable and the last assignment to its key
  gives that gives something, or else as by default;
* a variable that is not understood counts as unset;
* whatever changes, a setting stays as it is if its own option, variable and last assignment stay;
* there is one warning for each variable that is a text and not understood, the warnings of the
  document, and no other, whatever the options are. -/
theorem first_understood_decides (options : Overrides) (env : Environment)
    (opened : Except IoError Source) :
    ∃ ls, HasLines opened ls ∧
      ComesTo options.eof env.eof ls "eof" EofPolicy.ofWord? .zero
        (resolve options env opened).1.eof ∧
      ComesTo options.strict env.strict ls "strict" truthOfWord? false
        (resolve options env opened).1.strict ∧
      ((∀ word, Environment.IsText env.eof word → EofPolicy.ofWord? word = none) →
        (resolve options { env with eof := none } opened).1 = (resolve options env opened).1) ∧
      ((∀ word, Environment.IsText env.strict word → truthOfWord? word = none) →
        (resolve options { env with strict := none } opened).1 = (resolve options env opened).1) ∧
      (∀ options' env' opened' ls', HasLines opened' ls' →
        (options'.eof = options.eof → env'.eof = env.eof →
          (∀ value, LastAssigns ls' ⟨"eof".toList, value⟩ ↔ LastAssigns ls ⟨"eof".toList, value⟩) →
          (resolve options' env' opened').1.eof = (resolve options env opened).1.eof) ∧
        (options'.strict = options.strict → env'.strict = env.strict →
          (∀ value,
            LastAssigns ls' ⟨"strict".toList, value⟩ ↔ LastAssigns ls ⟨"strict".toList, value⟩) →
          (resolve options' env' opened').1.strict = (resolve options env opened).1.strict)) ∧
      (resolve options env opened).2.Nodup ∧
      (∀ w, w ∈ (resolve options env opened).2 ↔ env.Warns w ∨ Document.Warns ls w) ∧
      ∀ options', (resolve options' env opened).2 = (resolve options env opened).2 := by
  obtain ⟨ls, hls⟩ := Document.exists_hasLines opened
  refine ⟨ls, hls, comesTo_ofDocument Document.sets_eof hls,
    comesTo_ofDocument Document.sets_strict hls, fun hno => ?_, fun hno => ?_,
    fun options' env' opened' ls' hls' => ⟨fun hoption hvariable hiff => ?_,
      fun hoption hvariable hiff => ?_⟩, nodup_resolve_snd options env hls,
    fun w => mem_resolve_snd_iff hls, fun options' => rfl⟩
  · rw [Settings.ext_iff, resolve_eof, resolve_eof, Environment.bind_text?_eq_none_iff.mpr hno]
    exact ⟨rfl, rfl⟩
  · rw [Settings.ext_iff, resolve_strict, resolve_strict,
      Environment.bind_text?_eq_none_iff.mpr hno]
    exact ⟨rfl, rfl⟩
  · rw [resolve_eof, resolve_eof, hoption, hvariable,
      get_ofDocument_eq Document.sets_eof hls hls' hiff]
  · rw [resolve_strict, resolve_strict, hoption, hvariable,
      get_ofDocument_eq Document.sets_strict hls hls' hiff]

/-- The variable `BF_EOF` is not understood and the document sets `eof`; an option overrides what
variable and document say about `strict`. Another option and another document differ in `eof`. -/
theorem first_understood_decides_not_understood :
    ∃ (options options' : Overrides) (env : Environment) (opened opened' : Except IoError Source),
      options = ⟨none, some false⟩ ∧ options' = ⟨some .zero, some false⟩ ∧
      env = ⟨some (Utf8.ofString "never"), some (Utf8.ofString "1"), none, []⟩ ∧
      opened = .ok [.data (Utf8.ofString "[interpreter]\neof = keep\nstrict = on")] ∧
      opened' = .ok [.data (Utf8.ofString "[interpreter]\nstrict = on")] ∧
      Environment.IsText env.eof "never".toList ∧ EofPolicy.ofWord? "never".toList = none ∧
      ComesTo options.eof env.eof
        (Document.lines "[interpreter]\neof = keep\nstrict = on".toList) "eof" EofPolicy.ofWord?
        .zero .unchanged ∧
      (resolve options env opened).1 = ⟨.unchanged, false⟩ ∧
      (resolve options { env with eof := none } opened).1 = (resolve options env opened).1 ∧
      (resolve options' env opened').1.strict = (resolve options env opened).1.strict ∧
      .environmentEof "never" ∈ (resolve options env opened).2 ∧
      (resolve options' env opened).2 = (resolve options env opened).2 := by
  let text := "[interpreter]\neof = keep\nstrict = on"
  let text' := "[interpreter]\nstrict = on"
  let options : Overrides := ⟨none, some false⟩
  let options' : Overrides := ⟨some .zero, some false⟩
  let env : Environment := ⟨some (Utf8.ofString "never"), some (Utf8.ofString "1"), none, []⟩
  let opened : Except IoError Source := .ok [.data (Utf8.ofString text)]
  let opened' : Except IoError Source := .ok [.data (Utf8.ofString text')]
  have hls : HasLines opened (Document.lines text.toList) := .text rfl (by decide +kernel)
  have hls' : HasLines opened' (Document.lines text'.toList) := .text rfl (by decide +kernel)
  have htext : Environment.text? env.eof = some "never".toList := by decide +kernel
  have hno : EofPolicy.ofWord? "never".toList = none := by decide +kernel
  obtain ⟨ls, hlines, heof, -, hunset, -, hothers, -, hwarnings, hoverridden⟩ :=
    first_understood_decides options env opened
  obtain rfl := hlines.unique hls
  have hsame (value : List Char) :
      LastAssigns (Document.lines text'.toList) ⟨"strict".toList, value⟩ ↔
        LastAssigns (Document.lines text.toList) ⟨"strict".toList, value⟩ := by
    have hvalues : (Document.values text.toList).entries =
        [⟨"strict".toList, "on".toList⟩, ⟨"eof".toList, "keep".toList⟩] := by decide +kernel
    have hvalues' : (Document.values text'.toList).entries =
        [⟨"strict".toList, "on".toList⟩] := by decide +kernel
    rw [← Document.mem_values_iff, ← Document.mem_values_iff, hvalues, hvalues']
    simp
  have hset : (resolve options env opened).1 = ⟨.unchanged, false⟩ := by decide +kernel
  have hword : Environment.IsText env.eof "never".toList := Environment.text?_eq_some_iff.mp htext
  refine ⟨options, options', env, opened, opened', rfl, rfl, rfl, rfl, rfl, hword, hno, ?_, hset,
    hunset ?_, ?_, ?_, hoverridden options'⟩
  · rw [hset] at heof
    exact heof
  · rintro word hother
    rw [← Environment.text?_eq_some_iff, htext] at hother
    cases hother
    exact hno
  · exact (hothers options' env opened' _ hls').2 rfl rfl hsame
  · exact (hwarnings _).mpr (.inl (.eof hword hno))

end Settings

end Brainfuck
