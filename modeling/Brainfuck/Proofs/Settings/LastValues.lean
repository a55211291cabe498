import Brainfuck.Proofs.Settings.Assignments
import Mathlib.Data.List.Nodup

/-!
# What a document sets

The values of a document are looked at in no particular order. Whatever the order
(`Document.ReadAs`), each setting is what the last assignment to its key gives, if that is a word
that is understood, and else as by default, also if there was a better value before
(`Document.Gives`). There is one warning for each key whose last value is not understood and for
each key that does not exist, and no other (`Document.Warns`).

So only the assignments in the section that is read matter. Documents that differ only in blank
lines and comments, and in lines outside that section that are no headers (`Document.SaysSame`), are
read alike.
-/

namespace Brainfuck

/-- The key that a warning on a document is about. -/
def Warning.key? : Warning → Option (List Char)
  | .documentEof _ => some "eof".toList
  | .documentStrict _ => some "strict".toList
  | .documentKey key => some key.toList
  | .environmentEof _ => none
  | .environmentStrict _ => none

namespace Document

/-- The document is read as `x`, its values being looked at in some order. -/
def ReadAs (text : List Char) (x : Settings × List Warning) : Prop :=
  ∃ entries : List Assignment, entries.Perm (values text).entries ∧ settle entries = x

/-- What lines give for a setting with this key: what its last value stands for, if it stands for
anything. -/
inductive Gives {α : Type} (ls : List (List Char)) (key : String) (ofWord? : List Char → Option α) :
    Option α → Prop where
  /-- There is a last value. -/
  | last {value : List Char} : LastAssigns ls ⟨key.toList, value⟩ →
      Gives ls key ofWord? (ofWord? value)
  /-- The key is not assigned a value. -/
  | never : (∀ value, ¬ LastAssigns ls ⟨key.toList, value⟩) → Gives ls key ofWord? none

/-- What lines are to be warned about. -/
inductive Warns (ls : List (List Char)) : Warning → Prop where
  /-- The last value for the end of the input is no word for it. -/
  | eof {value : List Char} : LastAssigns ls ⟨"eof".toList, value⟩ →
      EofPolicy.ofWord? value = none → Warns ls (.documentEof (String.ofList value))
  /-- The last value for the check is no word for it. -/
  | strict {value : List Char} : LastAssigns ls ⟨"strict".toList, value⟩ →
      Settings.truthOfWord? value = none → Warns ls (.documentStrict (String.ofList value))
  /-- A key is assigned a value that is no key of a setting. -/
  | unknown {key value : List Char} : LastAssigns ls ⟨key, value⟩ → key ≠ "eof".toList →
      key ≠ "strict".toList → Warns ls (.documentKey (String.ofList key))

/-- The line says nothing where it stands, `inside` telling whether that is in the section that is
read: it is blank or a comment, or it stands outside and is no header. -/
def SaysNothing (inside : Bool) (l : List Char) : Prop :=
  Silent l ∨ (inside = false ∧ ∀ name, ¬ IsHeader l name)

/-- Two documents differ only in lines that say nothing, where `inside` tells whether the lines
before are in the section that is read. A line is replaced if the first has one and the second
another. -/
inductive SaysSame : Bool → List (List Char) → List (List Char) → Prop where
  /-- There are no more lines. -/
  | nil {inside : Bool} : SaysSame inside [] []
  /-- Both have a header, and go on in its section. -/
  | header {inside : Bool} {l name : List Char} {ls ls' : List (List Char)} : IsHeader l name →
      SaysSame (name = sectionName) ls ls' → SaysSame inside (l :: ls) (l :: ls')
  /-- Both have a line that is no header. -/
  | same {inside : Bool} {l : List Char} {ls ls' : List (List Char)} : (∀ name, ¬ IsHeader l name) →
      SaysSame inside ls ls' → SaysSame inside (l :: ls) (l :: ls')
  /-- Only the first has a line, which says nothing. -/
  | first {inside : Bool} {l : List Char} {ls ls' : List (List Char)} : SaysNothing inside l →
      SaysSame inside ls ls' → SaysSame inside (l :: ls) ls'
  /-- Only the second has a line, which says nothing. -/
  | second {inside : Bool} {l : List Char} {ls ls' : List (List Char)} : SaysNothing inside l →
      SaysSame inside ls ls' → SaysSame inside ls (l :: ls')

theorem readAs_read (text : List Char) : ReadAs text (read text) := ⟨_, .refl _, rfl⟩

theorem Gives.unique {α : Type} {ls : List (List Char)} {key : String}
    {ofWord? : List Char → Option α} {x? y? : Option α} (hx : Gives ls key ofWord? x?)
    (hy : Gives ls key ofWord? y?) : x? = y? := by
  cases hx with
  | last hlast =>
    cases hy with
    | last hlast' => exact congrArg (ofWord? ·.value) (hlast.unique hlast' rfl)
    | never hnever => exact absurd hlast (hnever _)
  | never hnever =>
    cases hy with
    | last hlast => exact absurd hlast (hnever _)
    | never _ => rfl

/-- What lines give for a key depends on the assignment to it that holds alone. -/
theorem Gives.of_forall_iff {α : Type} {ls ls' : List (List Char)} {key : String}
    {ofWord? : List Char → Option α} {x? : Option α} (h : Gives ls key ofWord? x?)
    (hiff : ∀ value, LastAssigns ls' ⟨key.toList, value⟩ ↔ LastAssigns ls ⟨key.toList, value⟩) :
    Gives ls' key ofWord? x? := by
  cases h with
  | last hlast => exact .last ((hiff _).mpr hlast)
  | never hnever => exact .never fun value => mt (hiff value).mp (hnever value)

/-! ### Settings -/

/-- Values of the key `key` set the setting `get`, in the words that `ofWord?` understands, and
values of other keys leave it alone. -/
structure Sets {α : Type} (key : String) (ofWord? : List Char → Option α) (get : Settings → α) :
    Prop where
  /-- What a value of the key does. -/
  own : ∀ found a, a.key = key.toList →
    get (consider found a).1 = (ofWord? a.value).getD (get found.1)
  /-- What a value of another key does. -/
  other : ∀ found a, a.key ≠ key.toList → get (consider found a).1 = get found.1

theorem sets_eof : Sets "eof" EofPolicy.ofWord? Settings.eof where
  own := by
    intro found a hkey
    simp only [consider, if_pos hkey]
    cases EofPolicy.ofWord? a.value <;> rfl
  other := by
    intro found a hkey
    simp only [consider, if_neg hkey]
    split
    · cases Settings.truthOfWord? a.value <;> rfl
    · rfl

theorem sets_strict : Sets "strict" Settings.truthOfWord? Settings.strict where
  own := by
    intro found a hkey
    have hne : a.key ≠ "eof".toList := by
      rw [hkey]
      decide
    simp only [consider, if_neg hne, if_pos hkey]
    cases Settings.truthOfWord? a.value <;> rfl
  other := by
    intro found a hkey
    simp only [consider, if_neg hkey]
    split
    · cases EofPolicy.ofWord? a.value <;> rfl
    · rfl

namespace Sets

variable {α : Type} {key : String} {ofWord? : List Char → Option α} {get : Settings → α}
  {entries : List Assignment} {a : Assignment}

theorem foldl_of_forall_ne (h : Sets key ofWord? get) (hno : ∀ a ∈ entries, a.key ≠ key.toList)
    (found : Settings × List Warning) : get (entries.foldl consider found).1 = get found.1 := by
  induction entries generalizing found with
  | nil => rfl
  | cons b rest ih =>
    rw [List.foldl_cons, ih (fun c hc => hno c (List.mem_cons_of_mem b hc)),
      h.other found b (hno b List.mem_cons_self)]

/-- Among values of different keys, the one of this key decides, wherever it stands. -/
theorem foldl_of_mem (h : Sets key ofWord? get) (hnodup : (entries.map (·.key)).Nodup)
    (ha : a ∈ entries) (hkey : a.key = key.toList) (found : Settings × List Warning) :
    get (entries.foldl consider found).1 = (ofWord? a.value).getD (get found.1) := by
  induction entries generalizing found with
  | nil => cases ha
  | cons b rest ih =>
    obtain ⟨hnew, hrest⟩ := List.nodup_cons.mp hnodup
    have hdiffers : ∀ c ∈ rest, c.key ≠ b.key :=
      fun c hc heq => hnew (List.mem_map.mpr ⟨c, hc, heq⟩)
    rw [List.foldl_cons]
    rcases List.mem_cons.mp ha with rfl | hmem
    · rw [h.foldl_of_forall_ne (fun c hc => hkey ▸ hdiffers c hc), h.own found a hkey]
    · rw [ih hrest hmem, h.other found b fun hb => hdiffers a hmem (hkey.trans hb.symm)]

/-- **A setting is what the last value of its key gives, in whatever order the values are looked
at.** -/
theorem exists_gives (h : Sets key ofWord? get) {text : List Char} {x : Settings × List Warning}
    (hx : ReadAs text x) :
    ∃ x?, Gives (lines text) key ofWord? x? ∧ get x.1 = x?.getD (get default) := by
  obtain ⟨entries, hperm, rfl⟩ := hx
  have hmem (a : Assignment) : a ∈ entries ↔ LastAssigns (lines text) a :=
    hperm.mem_iff.trans mem_values_iff
  have hnodup : (entries.map (·.key)).Nodup :=
    (hperm.map _).nodup_iff.mpr (values text).nodup
  by_cases hlast : ∃ value, LastAssigns (lines text) ⟨key.toList, value⟩
  · obtain ⟨value, hlast⟩ := hlast
    exact ⟨_, .last hlast, h.foldl_of_mem hnodup ((hmem _).mpr hlast) rfl (default, [])⟩
  · have hnever := not_exists.mp hlast
    refine ⟨none, .never hnever, h.foldl_of_forall_ne ?_ (default, [])⟩
    rintro ⟨_, value⟩ ha rfl
    exact hnever value ((hmem _).mp ha)

/-- A setting is the same in two documents if the same assignment to its key holds in both. -/
theorem get_eq_of_forall_iff (h : Sets key ofWord? get) {text text' : List Char}
    (hiff : ∀ value, LastAssigns (lines text') ⟨key.toList, value⟩ ↔
      LastAssigns (lines text) ⟨key.toList, value⟩) :
    get (read text').1 = get (read text).1 := by
  obtain ⟨x?, hx, hget⟩ := h.exists_gives (readAs_read text)
  obtain ⟨y?, hy, hget'⟩ := h.exists_gives (readAs_read text')
  rw [hget, hget', hy.unique (hx.of_forall_iff hiff)]

end Sets

/-! ### Warnings -/

/-- The warning that a value calls for. -/
def warning? (a : Assignment) : Option Warning :=
  if a.key = "eof".toList then
    if (EofPolicy.ofWord? a.value).isSome then none else some (.documentEof (String.ofList a.value))
  else if a.key = "strict".toList then
    if (Settings.truthOfWord? a.value).isSome then none
    else some (.documentStrict (String.ofList a.value))
  else some (.documentKey (String.ofList a.key))

theorem consider_snd (found : Settings × List Warning) (a : Assignment) :
    (consider found a).2 = found.2 ++ (warning? a).toList := by
  by_cases heof : a.key = "eof".toList
  · simp only [consider, warning?, if_pos heof]
    cases EofPolicy.ofWord? a.value <;> simp
  by_cases hstrict : a.key = "strict".toList
  · simp only [consider, warning?, if_neg heof, if_pos hstrict]
    cases Settings.truthOfWord? a.value <;> simp
  · simp only [consider, warning?, if_neg heof, if_neg hstrict, Option.toList_some]

theorem settle_snd (entries : List Assignment) : (settle entries).2 = entries.filterMap warning? := by
  suffices ∀ found, (entries.foldl consider found).2 = found.2 ++ entries.filterMap warning? from
    this (default, [])
  induction entries with
  | nil => exact fun found => (List.append_nil _).symm
  | cons a rest ih =>
    intro found
    rw [List.foldl_cons, ih, consider_snd, List.append_assoc]
    cases h : warning? a with
    | none => rw [List.filterMap_cons_none h]; rfl
    | some w => rw [List.filterMap_cons_some h]; rfl

/-- The warnings that a document calls for are those of the values that hold. -/
theorem warns_iff {ls : List (List Char)} {w : Warning} :
    Warns ls w ↔ ∃ a, LastAssigns ls a ∧ warning? a = some w := by
  constructor
  · intro h
    cases h with
    | eof hlast hno => exact ⟨_, hlast, by simp [warning?, hno]⟩
    | strict hlast hno => exact ⟨_, hlast, by simp [warning?, hno]⟩
    | unknown hlast heof hstrict => exact ⟨_, hlast, by simp only [warning?, if_neg heof, if_neg hstrict]⟩
  · rintro ⟨⟨key, value⟩, hlast, hw⟩
    unfold warning? at hw
    split at hw
    · rename_i hkey
      obtain rfl : key = _ := hkey
      split at hw
      · cases hw
      · rename_i hno
        cases hw
        exact .eof hlast (by simpa using hno)
    · rename_i heof
      split at hw
      · rename_i hkey
        obtain rfl : key = _ := hkey
        split at hw
        · cases hw
        · rename_i hno
          cases hw
          exact .strict hlast (by simpa using hno)
      · rename_i hstrict
        cases hw
        exact .unknown hlast heof hstrict

/-- A warning of a value is about the key of the value. -/
theorem key?_of_warning? {a : Assignment} {w : Warning} (h : warning? a = some w) :
    w.key? = some a.key := by
  unfold warning? at h
  split at h
  · rename_i hkey
    split at h
    · cases h
    · cases h
      exact congrArg some hkey.symm
  · split at h
    · rename_i hkey
      split at h
      · cases h
      · cases h
        exact congrArg some hkey.symm
    · cases h
      exact congrArg some String.toList_ofList

theorem Warns.isSome_key? {ls : List (List Char)} {w : Warning} (h : Warns ls w) :
    w.key?.isSome := by
  cases h <;> rfl

/-- Values of different keys call for different warnings. -/
theorem nodup_warnings {entries : List Assignment} (h : (entries.map (·.key)).Nodup) :
    (entries.filterMap warning?).Nodup := by
  rw [List.Nodup, List.pairwise_filterMap]
  refine (List.pairwise_map.mp h).imp fun hne w hw v hv heq => ?_
  subst heq
  exact hne (Option.some.inj ((key?_of_warning? hw).symm.trans (key?_of_warning? hv)))

/-! ### Documents that say the same -/

theorem Reading.inside_line {r : Reading} {l : List Char} (hno : ∀ name, ¬ IsHeader l name) :
    (r.line l).inside = r.inside := by
  by_cases hassigns : r.inside = true ∧ ∃ a, Counts l a
  · obtain ⟨hin, a, hcounts⟩ := hassigns
    rw [line_of_counts hin hcounts]
  · rw [line_of_not_counts hno fun hin a hcounts => hassigns ⟨hin, a, hcounts⟩]

theorem Reading.line_of_saysNothing {r : Reading} {l : List Char} (h : SaysNothing r.inside l) :
    r.line l = r := by
  rcases h with hsilent | ⟨hout, hno⟩
  · exact line_of_silent hsilent
  · refine line_of_not_counts hno fun hin => ?_
    rw [hout] at hin
    cases hin

theorem SaysSame.foldl_values_eq {inside : Bool} {ls ls' : List (List Char)}
    (h : SaysSame inside ls ls') {r : Reading} (hr : r.inside = inside) :
    (ls'.foldl Reading.line r).values = (ls.foldl Reading.line r).values := by
  induction h generalizing r with
  | nil => rfl
  | header hl _ ih =>
    rw [List.foldl_cons, List.foldl_cons]
    exact ih (by rw [Reading.line_of_header hl])
  | same hno _ ih =>
    rw [List.foldl_cons, List.foldl_cons]
    exact ih (by rw [Reading.inside_line hno, hr])
  | first hnothing _ ih =>
    rw [List.foldl_cons, Reading.line_of_saysNothing (hr ▸ hnothing)]
    exact ih hr
  | second hnothing _ ih =>
    rw [List.foldl_cons, Reading.line_of_saysNothing (hr ▸ hnothing)]
    exact ih hr

/-! ### Whole documents -/

section

variable {text text' : List Char} {x y : Settings × List Warning}

/-- Documents that say the same are read as the same. -/
theorem SaysSame.readAs (h : SaysSame false (lines text) (lines text')) (hx : ReadAs text' x) :
    ReadAs text x := by
  have hvalues : values text' = values text := h.foldl_values_eq rfl
  rwa [ReadAs, hvalues] at hx

namespace ReadAs

theorem nodup_snd (h : ReadAs text x) : x.2.Nodup := by
  obtain ⟨entries, hperm, rfl⟩ := h
  rw [settle_snd]
  exact nodup_warnings ((hperm.map _).nodup_iff.mpr (values text).nodup)

theorem mem_snd_iff (h : ReadAs text x) {w : Warning} : w ∈ x.2 ↔ Warns (lines text) w := by
  obtain ⟨entries, hperm, rfl⟩ := h
  rw [settle_snd, List.mem_filterMap, warns_iff]
  refine exists_congr fun a => and_congr_left' ?_
  rw [hperm.mem_iff, mem_values_iff]

/-- **The order in which the values are looked at does not matter**, but for the order of the
warnings. -/
theorem unique (hx : ReadAs text x) (hy : ReadAs text y) : y.1 = x.1 ∧ y.2.Perm x.2 := by
  constructor
  · obtain ⟨eof?, heof, hxe⟩ := sets_eof.exists_gives hx
    obtain ⟨eof', heof', hye⟩ := sets_eof.exists_gives hy
    obtain ⟨strict?, hstrict, hxs⟩ := sets_strict.exists_gives hx
    obtain ⟨strict', hstrict', hys⟩ := sets_strict.exists_gives hy
    rw [← heof.unique heof'] at hye
    rw [← hstrict.unique hstrict'] at hys
    exact Settings.ext (hye.trans hxe.symm) (hys.trans hxs.symm)
  · refine (List.perm_ext_iff_of_nodup hy.nodup_snd hx.nodup_snd).mpr fun w => ?_
    rw [hy.mem_snd_iff, hx.mem_snd_iff]

end ReadAs

end

/-- **The last assignment holds, understood or not.** For every document, in whatever order its
values are looked at:

* each setting is what the last assignment to its key in the section gives, or as by default;
* there is one warning for each key whose last value is not understood and for each key that does
  not exist, and no other;
* a document that differs only in lines that say nothing is read alike. -/
theorem last_assignments_hold (text : List Char) :
    ReadAs text (read text) ∧
      ∀ x, ReadAs text x →
        (∃ eof?, Gives (lines text) "eof" EofPolicy.ofWord? eof? ∧ x.1.eof = eof?.getD .zero) ∧
        (∃ strict?, Gives (lines text) "strict" Settings.truthOfWord? strict? ∧
          x.1.strict = strict?.getD false) ∧
        x.2.Nodup ∧ (∀ w, w ∈ x.2 ↔ Warns (lines text) w) ∧
        ∀ text' x', SaysSame false (lines text) (lines text') → ReadAs text' x' →
          x'.1 = x.1 ∧ x'.2.Perm x.2 := by
  refine ⟨readAs_read text, fun x hx => ⟨sets_eof.exists_gives hx, sets_strict.exists_gives hx,
    hx.nodup_snd, fun w => hx.mem_snd_iff, fun text' x' hsame hx' => ?_⟩⟩
  exact hx.unique (hsame.readAs hx')

/-- An `eof` that is not understood comes behind one that is, and in another section there is a
third, which another document does not have. The values are looked at in the opposite order. -/
theorem last_assignments_hold_shadowed :
    ∃ (text text' : List Char) (x x' : Settings × List Warning),
      text = "[interpreter]\neof = keep\neof=\"never\"\nstrict=on\n[hue]\neof=keep".toList ∧
      text' = "[interpreter]\neof = keep\n #\neof=\"never\"\nstrict=on\n[hue]\n=]".toList ∧
      ReadAs text x ∧ ReadAs text' x' ∧ SaysSame false (lines text) (lines text') ∧
      (∃ eof?, Gives (lines text) "eof" EofPolicy.ofWord? eof? ∧ x.1.eof = eof?.getD .zero) ∧
      x.1 = ⟨.zero, true⟩ ∧ Warns (lines text) (.documentEof "never") ∧
      x'.1 = x.1 ∧ x'.2.Perm x.2 := by
  let text := "[interpreter]\neof = keep\neof=\"never\"\nstrict=on\n[hue]\neof=keep".toList
  let text' := "[interpreter]\neof = keep\n #\neof=\"never\"\nstrict=on\n[hue]\n=]".toList
  let x := settle (values text).entries.reverse
  have hx : ReadAs text x := ⟨_, List.reverse_perm _, rfl⟩
  have hlines : lines text = ["[interpreter]".toList, "eof = keep".toList,
    "eof=\"never\"".toList, "strict=on".toList, "[hue]".toList, "eof=keep".toList] := by
    decide +kernel
  have hlines' : lines text' = ["[interpreter]".toList, "eof = keep".toList, ['#'],
    "eof=\"never\"".toList, "strict=on".toList, "[hue]".toList, "=]".toList] := by
    decide +kernel
  have hno {l : List Char} (h : header? l = none) : ∀ name, ¬ IsHeader l name :=
    header?_eq_none_iff.mp h
  have hsame : SaysSame false (lines text) (lines text') := by
    rw [hlines, hlines']
    refine .header (header?_eq_some_iff.mp rfl) (.same (hno rfl) (.second (.inl (.inr rfl)) ?_))
    refine .same (hno rfl) (.same (hno rfl) (.header (header?_eq_some_iff.mp rfl) ?_))
    exact .first (.inr ⟨rfl, hno rfl⟩) (.second (.inr ⟨rfl, hno rfl⟩) .nil)
  obtain ⟨hread', -⟩ := last_assignments_hold text'
  obtain ⟨heof, -, -, hwarns, halike⟩ := (last_assignments_hold text).2 x hx
  obtain ⟨hsettings, hwarnings⟩ := halike text' _ hsame hread'
  have hset : x.1 = ⟨.zero, true⟩ := by decide +kernel
  have hwarned : .documentEof "never" ∈ x.2 := by decide +kernel
  exact ⟨text, text', x, read text', rfl, rfl, hx, hread', hsame, heof, hset, (hwarns _).mp hwarned,
    hsettings, hwarnings⟩

end Document

end Brainfuck
