import Brainfuck.Settings.Document
import Mathlib.Data.List.Basic
import Mathlib.Data.List.Induction
import Mathlib.Data.List.TakeWhile

/-!
# Assignments in a document

Which assignments of a settings document count is said here line by line, with no state: a line
counts if the nearest header before it is that of the section that is read and the line itself is
neither blank nor a comment nor a header (`Document.Effective`). Of the assignments that count, the
last one to a key holds (`Document.LastAssigns`).

The reader goes through the lines once and keeps whether it is in the section and the values so
far. After any lines it is in the section if the nearest header says so, and it has the last value
of each key (`Document.Reads`). One more line keeps this (`Document.Reads.line`), and so the values
of a document are the assignments that hold in it (`Document.mem_values_iff`).
-/

namespace Brainfuck

namespace Document

/-! ### Single lines -/

/-- The line is blank or a comment. -/
def Silent (line : List Char) : Prop := line = [] ∨ line.head? = some '#'

instance (line : List Char) : Decidable (Silent line) := inferInstanceAs (Decidable (_ ∨ _))

/-- The line is the header of the section `name`. -/
def IsHeader (line name : List Char) : Prop := line = '[' :: (name ++ [']'])

/-- What a value stands for: the text inside a pair of double quotes, or else the text itself. -/
inductive Quotes : List Char → List Char → Prop where
  /-- There is a pair of double quotes around the value. -/
  | pair (value : List Char) : Quotes ('"' :: (value ++ ['"'])) value
  /-- There is none. -/
  | bare {value : List Char} : (∀ inner, value ≠ '"' :: (inner ++ ['"'])) → Quotes value value

/-- The line assigns a value to a key: they stand on the two sides of the first equals sign, with
blanks around them. -/
inductive Assigns : List Char → Assignment → Prop where
  /-- The first equals sign is behind `left`. -/
  | mk {left right value : List Char} : '=' ∉ left → Quotes (Text.trim right) value →
      Assigns (left ++ '=' :: right) ⟨Text.trim left, value⟩

/-- Text with a pair of delimiters around it. -/
theorem eq_enclosed {a b : Char} {cs : List Char} (ha : cs.head? = some a)
    (hb : cs.getLast? = some b) (hlen : 2 ≤ cs.length) : cs = a :: (cs.tail.dropLast ++ [b]) := by
  cases cs with
  | nil => cases ha
  | cons c rest =>
    obtain rfl : c = a := Option.some.inj ha
    cases rest with
    | nil => simp at hlen
    | cons d rest =>
      rw [List.getLast?_cons_cons] at hb
      rw [List.tail_cons, List.dropLast_append_getLast? b hb]

theorem tail_dropLast_enclosed (a b : Char) (inner : List Char) :
    (a :: (inner ++ [b])).tail.dropLast = inner := by
  rw [List.tail_cons, List.dropLast_concat]

theorem getLast?_enclosed (a b : Char) (inner : List Char) :
    (a :: (inner ++ [b])).getLast? = some b := by
  rw [← List.cons_append, List.getLast?_concat]

theorem header?_eq_some_iff {line name : List Char} :
    header? line = some name ↔ IsHeader line name := by
  unfold header?
  constructor
  · intro h
    split at h
    · rename_i hends
      have hlen : 2 ≤ line.length := by
        -- a single bracket is not the first and the last of a pair
        match line, hends with
        | [c], ⟨hfirst, hlast⟩ =>
          obtain rfl := Option.some.inj hfirst
          cases hlast
        | _ :: _ :: _, _ => simp
      cases h
      exact eq_enclosed hends.1 hends.2 hlen
    · cases h
  · rintro rfl
    rw [tail_dropLast_enclosed, if_pos ⟨rfl, getLast?_enclosed ..⟩]

theorem header?_eq_none_iff {line : List Char} :
    header? line = none ↔ ∀ name, ¬ IsHeader line name := by
  simp only [Option.eq_none_iff_forall_ne_some, ← header?_eq_some_iff, ne_eq]

theorem quotes_unquoted (value : List Char) : Quotes value (unquoted value) := by
  unfold unquoted
  split
  · rename_i hends
    have heq := eq_enclosed hends.2.1 hends.2.2 hends.1
    generalize value.tail.dropLast = inner at heq ⊢
    subst heq
    exact .pair inner
  · rename_i hno
    refine .bare fun inner heq => hno ?_
    rw [heq]
    exact ⟨by simp, rfl, getLast?_enclosed ..⟩

theorem Quotes.unquoted_eq {text value : List Char} (h : Quotes text value) :
    unquoted text = value := by
  unfold unquoted
  cases h with
  | pair =>
    rw [if_pos ⟨by simp, rfl, getLast?_enclosed ..⟩, tail_dropLast_enclosed]
  | bare hno =>
    rw [if_neg]
    rintro ⟨hlen, hfirst, hlast⟩
    exact hno _ (eq_enclosed hfirst hlast hlen)

theorem assignment?_eq_some_iff {line : List Char} {a : Assignment} :
    assignment? line = some a ↔ Assigns line a := by
  constructor
  · intro h
    have hsplit := List.takeWhile_append_dropWhile (p := fun c => decide (c ≠ '=')) (l := line)
    unfold assignment? at h
    split at h
    · cases h
    · rename_i c right hdrop
      have hc : c = '=' := by
        have hhead := List.head?_dropWhile_not (fun c => decide (c ≠ '=')) line
        rw [hdrop] at hhead
        simpa using hhead
      cases h
      rw [hdrop, hc] at hsplit
      have hleft : '=' ∉ line.takeWhile fun c => decide (c ≠ '=') := by
        intro hmem
        simpa using List.mem_takeWhile_imp hmem
      generalize line.takeWhile (fun c => decide (c ≠ '=')) = left at hsplit hleft ⊢
      subst hsplit
      exact .mk hleft (quotes_unquoted _)
  · rintro ⟨hleft, hquotes⟩
    rename_i left right value
    have hall : ∀ c ∈ left, decide (c ≠ '=') = true := by
      intro c hc
      exact decide_eq_true fun heq => hleft (heq ▸ hc)
    unfold assignment?
    rw [List.dropWhile_append_of_pos hall, List.takeWhile_append_of_pos hall]
    simp [hquotes.unquoted_eq]

/-- A blank line or a comment is no header. -/
theorem Silent.not_isHeader {line : List Char} (h : Silent line) (name : List Char) :
    ¬ IsHeader line name := by
  rintro rfl
  rcases h with h | h
  · cases h
  · cases h

/-- The line assigns `a`, and is not left out for another reason. -/
structure Counts (line : List Char) (a : Assignment) : Prop where
  /-- It is neither blank nor a comment. -/
  notSilent : ¬ Silent line
  /-- It is no header. -/
  notHeader : ∀ name, ¬ IsHeader line name
  /-- It assigns `a`. -/
  assigns : Assigns line a

theorem counts_iff {line : List Char} {a : Assignment} :
    Counts line a ↔ ¬ Silent line ∧ header? line = none ∧ assignment? line = some a := by
  rw [header?_eq_none_iff, assignment?_eq_some_iff]
  exact ⟨fun h => ⟨h.notSilent, h.notHeader, h.assigns⟩, fun ⟨hs, hh, ha⟩ => ⟨hs, hh, ha⟩⟩

instance (line : List Char) (a : Assignment) : Decidable (Counts line a) :=
  decidable_of_iff _ counts_iff.symm

theorem IsHeader.iff {line name other : List Char} (h : IsHeader line name) :
    IsHeader line other ↔ name = other := by
  rw [← header?_eq_some_iff, header?_eq_some_iff.mpr h, Option.some.injEq]

/-! ### One line for the reader -/

namespace Reading

variable {r : Reading} {l : List Char}

theorem line_of_silent (h : Silent l) : r.line l = r :=
  if_pos (by simpa [Silent] using h)

theorem line_of_header {name : List Char} (h : IsHeader l name) :
    r.line l = { r with inside := name = sectionName } := by
  have hloud : ¬ Silent l := fun hsilent => hsilent.not_isHeader name h
  unfold line
  rw [if_neg (by simpa [Silent] using hloud), header?_eq_some_iff.mpr h]

theorem line_of_counts {a : Assignment} (hin : r.inside = true) (h : Counts l a) :
    r.line l = { r with values := r.values.assign a } := by
  unfold line
  rw [if_neg (by simpa [Silent] using h.notSilent), header?_eq_none_iff.mpr h.notHeader]
  simp only [if_pos hin, assignment?_eq_some_iff.mpr h.assigns]

theorem line_of_not_counts (hno : ∀ name, ¬ IsHeader l name)
    (h : r.inside = true → ∀ a, ¬ Counts l a) : r.line l = r := by
  by_cases hsilent : Silent l
  · exact line_of_silent hsilent
  unfold line
  rw [if_neg (by simpa [Silent] using hsilent), header?_eq_none_iff.mpr hno]
  dsimp only
  split
  · rename_i hin
    cases hassign : assignment? l with
    | none => rfl
    | some a => exact absurd ⟨hsilent, hno, assignment?_eq_some_iff.mp hassign⟩ (h hin a)
  · rfl

end Reading

/-! ### Lines of a document -/

/-- The nearest header before line `n` is that of the section that is read. -/
def InSection (ls : List (List Char)) (n : Nat) : Prop :=
  ∃ m < n, (∃ line, ls[m]? = some line ∧ IsHeader line sectionName) ∧
    ∀ k line, m < k → k < n → ls[k]? = some line → ∀ name, ¬ IsHeader line name

/-- Line `n` assigns `a` in the section that is read. -/
structure Effective (ls : List (List Char)) (n : Nat) (a : Assignment) : Prop where
  /-- It stands in the section that is read. -/
  inside : InSection ls n
  /-- The line assigns `a`. -/
  counts : ∃ line, ls[n]? = some line ∧ Counts line a

/-- Of the assignments in the section that is read, `a` is the last one to its key. -/
def LastAssigns (ls : List (List Char)) (a : Assignment) : Prop :=
  ∃ n, Effective ls n a ∧ ∀ m b, n < m → Effective ls m b → b.key ≠ a.key

section

variable {ls : List (List Char)} {l : List Char} {n : Nat} {a b : Assignment}

theorem Assigns.unique (ha : Assigns l a) (hb : Assigns l b) : a = b :=
  Option.some.inj ((assignment?_eq_some_iff.mpr ha).symm.trans (assignment?_eq_some_iff.mpr hb))

theorem Effective.lt (h : Effective ls n a) : n < ls.length := by
  obtain ⟨line, hget, -⟩ := h.counts
  exact (List.getElem?_eq_some_iff.mp hget).1

/-- A line assigns one value only. -/
theorem Effective.unique (ha : Effective ls n a) (hb : Effective ls n b) : a = b := by
  obtain ⟨line, hget, ha⟩ := ha.counts
  obtain ⟨line', hget', hb⟩ := hb.counts
  obtain rfl : line = line' := Option.some.inj (hget.symm.trans hget')
  exact ha.assigns.unique hb.assigns

/-- A key has one last value. -/
theorem LastAssigns.unique (ha : LastAssigns ls a) (hb : LastAssigns ls b) (hkey : a.key = b.key) :
    a = b := by
  obtain ⟨n, hn, hlater⟩ := ha
  obtain ⟨m, hm, hlater'⟩ := hb
  rcases Nat.lt_trichotomy n m with hlt | rfl | hlt
  · exact absurd hkey.symm (hlater m b hlt hm)
  · exact hn.unique hm
  · exact absurd hkey (hlater' n a hlt hn)

/-! ### One more line -/

/-- Lines behind it do not change in which section a line stands. -/
theorem inSection_append (h : n ≤ ls.length) (xs : List (List Char)) :
    InSection (ls ++ xs) n ↔ InSection ls n := by
  unfold InSection
  refine exists_congr fun m => and_congr_right fun hm => and_congr ?_ ?_
  · rw [List.getElem?_append_left (by omega)]
  · refine forall₄_congr fun k line _ hk => ?_
    rw [List.getElem?_append_left (by omega)]

theorem not_inSection_zero (ls : List (List Char)) : ¬ InSection ls 0 := by
  rintro ⟨m, hm, -⟩
  exact Nat.not_lt_zero m hm

/-- Behind a line one is in the section that is read if the line is its header, or if it is none
and one was there before. -/
theorem inSection_snoc : InSection (ls ++ [l]) (ls.length + 1) ↔
    IsHeader l sectionName ∨ (∀ name, ¬ IsHeader l name) ∧ InSection ls ls.length := by
  have hlast : (ls ++ [l])[ls.length]? = some l := by simp
  constructor
  · rintro ⟨m, hm, ⟨line, hget, hheader⟩, hbetween⟩
    rcases Nat.lt_or_eq_of_le (Nat.lt_succ_iff.mp hm) with hlt | rfl
    · refine .inr ⟨hbetween _ l hlt (Nat.lt_succ_self _) hlast, ?_⟩
      rw [← inSection_append (Nat.le_refl _) [l]]
      exact ⟨m, hlt, ⟨line, hget, hheader⟩, fun k line hk hk' => hbetween k line hk (by omega)⟩
    · rw [hlast] at hget
      exact .inl (Option.some.inj hget ▸ hheader)
  · rintro (hheader | ⟨hno, hin⟩)
    · exact ⟨ls.length, Nat.lt_succ_self _, ⟨l, hlast, hheader⟩, fun k line hk hk' => by omega⟩
    · rw [← inSection_append (Nat.le_refl _) [l]] at hin
      obtain ⟨m, hm, hheader, hbetween⟩ := hin
      refine ⟨m, Nat.lt_succ_of_lt hm, hheader, fun k line hk hk' hget => ?_⟩
      rcases Nat.lt_or_eq_of_le (Nat.lt_succ_iff.mp hk') with hlt | rfl
      · exact hbetween k line hk hlt hget
      · rw [hlast] at hget
        exact Option.some.inj hget ▸ hno

/-- Lines behind it do not change what a line assigns. -/
theorem effective_append (h : n < ls.length) (xs : List (List Char)) :
    Effective (ls ++ xs) n a ↔ Effective ls n a := by
  have hget : (ls ++ xs)[n]? = ls[n]? := List.getElem?_append_left h
  constructor
  · rintro ⟨hin, line, hline, hcounts⟩
    exact ⟨(inSection_append (Nat.le_of_lt h) xs).mp hin, line, hget ▸ hline, hcounts⟩
  · rintro ⟨hin, line, hline, hcounts⟩
    exact ⟨(inSection_append (Nat.le_of_lt h) xs).mpr hin, line, hget.trans hline, hcounts⟩

theorem effective_snoc : Effective (ls ++ [l]) n a ↔
    Effective ls n a ∨ (n = ls.length ∧ InSection ls ls.length ∧ Counts l a) := by
  constructor
  · intro h
    have hlt := h.lt
    rw [List.length_append, List.length_singleton] at hlt
    rcases Nat.lt_or_eq_of_le (Nat.lt_succ_iff.mp hlt) with hlt | rfl
    · exact .inl ((effective_append hlt [l]).mp h)
    · obtain ⟨hin, line, hget, hcounts⟩ := h
      rw [inSection_append (Nat.le_refl _)] at hin
      rw [List.getElem?_concat_length] at hget
      exact .inr ⟨rfl, hin, Option.some.inj hget ▸ hcounts⟩
  · rintro (h | ⟨rfl, hin, hcounts⟩)
    · exact (effective_append h.lt [l]).mpr h
    · exact ⟨(inSection_append (Nat.le_refl _) [l]).mpr hin, l, List.getElem?_concat_length, hcounts⟩

/-- A line that assigns takes the place of the assignments to its key, and keeps the others. -/
theorem lastAssigns_snoc_of_counts (hin : InSection ls ls.length) (hl : Counts l a) :
    LastAssigns (ls ++ [l]) b ↔ b = a ∨ (LastAssigns ls b ∧ b.key ≠ a.key) := by
  have hnew : Effective (ls ++ [l]) ls.length a := effective_snoc.mpr (.inr ⟨rfl, hin, hl⟩)
  constructor
  · rintro ⟨n, hn, hlater⟩
    rcases effective_snoc.mp hn with hold | ⟨rfl, -, hcounts⟩
    · refine .inr ⟨⟨n, hold, fun m c hm hc => ?_⟩, fun hkey => ?_⟩
      · exact hlater m c hm (effective_snoc.mpr (.inl hc))
      · exact hlater _ a hold.lt hnew hkey.symm
    · exact .inl (hcounts.assigns.unique hl.assigns)
  · rintro (rfl | ⟨⟨n, hn, hlater⟩, hkey⟩)
    · refine ⟨ls.length, hnew, fun m c hm hc => ?_⟩
      have hlt := hc.lt
      rw [List.length_append, List.length_singleton] at hlt
      omega
    · refine ⟨n, effective_snoc.mpr (.inl hn), fun m c hm hc => ?_⟩
      rcases effective_snoc.mp hc with hc | ⟨rfl, -, hcounts⟩
      · exact hlater m c hm hc
      · rw [hcounts.assigns.unique hl.assigns]
        exact hkey.symm

/-- A line that does not assign, or not in the section, changes nothing. -/
theorem lastAssigns_snoc_of_not_counts (h : InSection ls ls.length → ∀ a, ¬ Counts l a) :
    LastAssigns (ls ++ [l]) b ↔ LastAssigns ls b := by
  have heff (n : Nat) (c : Assignment) : Effective (ls ++ [l]) n c ↔ Effective ls n c := by
    rw [effective_snoc, or_iff_left]
    rintro ⟨-, hin, hcounts⟩
    exact h hin c hcounts
  simp only [LastAssigns, heff]

/-! ### The reader -/

theorem Values.mem_entries_assign {vs : Values} :
    b ∈ (vs.assign a).entries ↔ b = a ∨ (b ∈ vs.entries ∧ b.key ≠ a.key) := by
  simp [Values.assign]

/-- The reader has read these lines: it knows whether it is in the section that is read, and it
has the last value of each key. -/
structure Reads (ls : List (List Char)) (r : Reading) : Prop where
  /-- It is in the section if the nearest header says so. -/
  inside : r.inside = true ↔ InSection ls ls.length
  /-- It has the assignments that hold. -/
  values : ∀ a, a ∈ r.values.entries ↔ LastAssigns ls a

theorem reads_start : Reads [] .start where
  inside := by
    refine ⟨nofun, fun h => ?_⟩
    exact absurd h (not_inSection_zero [])
  values a := by
    refine ⟨nofun, ?_⟩
    rintro ⟨n, hn, -⟩
    exact absurd hn.lt (Nat.not_lt_zero n)

/-- **What one more line does.** -/
theorem Reads.line {r : Reading} (h : Reads ls r) (l : List Char) : Reads (ls ++ [l]) (r.line l) := by
  have hinside : InSection (ls ++ [l]) (ls ++ [l]).length ↔
      IsHeader l sectionName ∨ (∀ name, ¬ IsHeader l name) ∧ r.inside = true := by
    rw [List.length_append, List.length_singleton, inSection_snoc, h.inside]
  by_cases hheader : ∃ name, IsHeader l name
  · obtain ⟨name, hheader⟩ := hheader
    rw [Reading.line_of_header hheader]
    refine ⟨?_, fun b => ?_⟩
    · rw [hinside, or_iff_left fun hno => hno.1 name hheader, hheader.iff, decide_eq_true_iff]
    · rw [lastAssigns_snoc_of_not_counts fun _ a hcounts => hcounts.notHeader name hheader]
      exact h.values b
  have hno : ∀ name, ¬ IsHeader l name := not_exists.mp hheader
  have hstays : r.inside = true ↔ InSection (ls ++ [l]) (ls ++ [l]).length := by
    rw [hinside, or_iff_right (hno _), and_iff_right hno]
  by_cases hassigns : r.inside = true ∧ ∃ a, Counts l a
  · obtain ⟨hin, a, hcounts⟩ := hassigns
    rw [Reading.line_of_counts hin hcounts]
    refine ⟨hstays, fun b => ?_⟩
    rw [lastAssigns_snoc_of_counts (h.inside.mp hin) hcounts, ← h.values, Values.mem_entries_assign]
  · have hnot : r.inside = true → ∀ a, ¬ Counts l a := by
      intro hin a hcounts
      exact hassigns ⟨hin, a, hcounts⟩
    rw [Reading.line_of_not_counts hno hnot]
    refine ⟨hstays, fun b => ?_⟩
    rw [h.values, lastAssigns_snoc_of_not_counts fun hin => hnot (h.inside.mpr hin)]

theorem reads_foldl (ls : List (List Char)) : Reads ls (ls.foldl Reading.line .start) := by
  induction ls using List.reverseRecOn with
  | nil => exact reads_start
  | append_singleton ls l ih =>
    rw [List.foldl_append]
    exact ih.line l

/-- Whether a line is in the section that is read, the reader knows when it comes to it. -/
theorem inSection_iff (h : n ≤ ls.length) :
    InSection ls n ↔ ((ls.take n).foldl Reading.line .start).inside = true := by
  have hlength : (ls.take n).length = n := List.length_take_of_le h
  rw [(reads_foldl (ls.take n)).inside, hlength, ← inSection_append hlength.ge (ls.drop n),
    List.take_append_drop]

/-- What a line assigns can be found out by reading up to it. -/
theorem effective_iff : Effective ls n a ↔
    ((ls.take n).foldl Reading.line .start).inside = true ∧
      (ls[n]?.any fun line => decide (Counts line a)) = true := by
  simp only [Option.any_eq_true, decide_eq_true_eq]
  constructor
  · intro h
    exact ⟨(inSection_iff (Nat.le_of_lt h.lt)).mp h.inside, h.counts⟩
  · rintro ⟨hin, line, hget, hcounts⟩
    have hlt := (List.getElem?_eq_some_iff.mp hget).1
    exact ⟨(inSection_iff (Nat.le_of_lt hlt)).mpr hin, line, hget, hcounts⟩

instance (ls : List (List Char)) (n : Nat) (a : Assignment) : Decidable (Effective ls n a) :=
  decidable_of_iff _ effective_iff.symm

/-- **The values of a document are the assignments that hold in it.** -/
theorem mem_values_iff {text : List Char} :
    a ∈ (values text).entries ↔ LastAssigns (lines text) a :=
  (reads_foldl (lines text)).values a

end

end Document

end Brainfuck
