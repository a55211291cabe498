import Brainfuck.Proofs.Settings.LastValues
import Brainfuck.Proofs.Text.Lines
import Mathlib.Data.List.InsertIdx

/-!
# Taking a line out of a document

A value that is not understood is ignored: the setting stays as by default. But it is still the
last assignment to its key, so it also hides the values before it. Taking its line out of the
document brings back what it hid. That makes a difference exactly if no later line assigns to the
key and the last one before gives anything but the default (`Document.read_eraseIdx_eq_iff`).

Behind the line that is taken out, lines have other numbers; `Document.skip` gives the number that a
line had before.
-/

namespace Brainfuck

namespace Document

/-- The value is for a setting, and is not understood. -/
inductive Misread : Assignment → Prop where
  /-- It is no word for the end of the input. -/
  | eof {value : List Char} : EofPolicy.ofWord? value = none → Misread ⟨"eof".toList, value⟩
  /-- It is no word for the check. -/
  | strict {value : List Char} : Settings.truthOfWord? value = none →
      Misread ⟨"strict".toList, value⟩

/-- The value sets a setting to something else than it is by default. -/
inductive Departs : Assignment → Prop where
  /-- At the end of the input, the cell stays as it is. -/
  | eof {value : List Char} : EofPolicy.ofWord? value = some .unchanged →
      Departs ⟨"eof".toList, value⟩
  /-- Brackets are checked. -/
  | strict {value : List Char} : Settings.truthOfWord? value = some true →
      Departs ⟨"strict".toList, value⟩

/-- The number that line `m` had before line `n` was taken out. -/
def skip (n m : Nat) : Nat := if m < n then m else m + 1

/-- **A value that is not understood may hide one that is.** With the line `eof = ?` taken out, the
`eof = keep` before it holds, and the settings are others. -/
theorem exists_misread_hides :
    ∃ (text text' : List Char) (n : Nat) (a : Assignment),
      text = "[interpreter]\neof = keep\neof = ?".toList ∧
      text' = "[interpreter]\neof = keep".toList ∧ Effective (lines text) n a ∧ Misread a ∧
      lines text' = (lines text).eraseIdx n ∧ (read text').1 ≠ (read text).1 := by
  let text := "[interpreter]\neof = keep\neof = ?".toList
  let text' := "[interpreter]\neof = keep".toList
  let a : Assignment := ⟨"eof".toList, "?".toList⟩
  have ha : Effective (lines text) 2 a := by decide +kernel
  have hbad : Misread a := .eof (by decide +kernel)
  have ht : lines text' = (lines text).eraseIdx 2 := by decide +kernel
  have hne : (read text').1 ≠ (read text).1 := by decide +kernel
  exact ⟨text, text', 2, a, rfl, rfl, ha, hbad, ht, hne⟩

/-- From every document each line can be taken out. -/
theorem exists_lines_eq_eraseIdx (text : List Char) (n : Nat) :
    ∃ text', lines text' = (lines text).eraseIdx n := by
  refine ⟨Text.joined ((Text.lines text).eraseIdx n), ?_⟩
  have hlines : ∀ l ∈ (Text.lines text).eraseIdx n, '\n' ∉ l :=
    fun l hl => Text.newline_not_mem_lines (List.mem_of_mem_eraseIdx hl)
  have htrim : Text.trim ∘ Text.dropReturn = Text.trim := funext Text.trim_dropReturn
  rw [lines, Text.lines_joined hlines, List.map_map, htrim, lines, List.eraseIdx_map]

/-! ### The lines that are left -/

theorem skip_lt_skip_iff {n k m : Nat} : skip n k < skip n m ↔ k < m := by
  unfold skip
  split <;> split <;> omega

theorem skip_ne (n m : Nat) : skip n m ≠ n := by
  unfold skip
  split <;> omega

theorem exists_skip_eq {n m : Nat} (h : m ≠ n) : ∃ k, skip n k = m := by
  unfold skip
  rcases Nat.lt_or_gt_of_ne h with hlt | hlt
  · exact ⟨m, if_pos hlt⟩
  · refine ⟨m - 1, ?_⟩
    rw [if_neg (by omega)]
    omega

theorem getElem?_skip {α : Type} (xs : List α) (n m : Nat) :
    (xs.eraseIdx n)[m]? = xs[skip n m]? := by
  rw [List.getElem?_eraseIdx, skip]
  split <;> rfl

section

variable {ls : List (List Char)} {n m : Nat} {a b : Assignment}

/-- Taking out a line that is no header leaves each other line in its section. -/
theorem inSection_eraseIdx (hn : ∀ line, ls[n]? = some line → ∀ name, ¬ IsHeader line name) :
    InSection (ls.eraseIdx n) m ↔ InSection ls (skip n m) := by
  constructor
  · rintro ⟨k, hk, ⟨line, hget, hheader⟩, hbetween⟩
    rw [getElem?_skip] at hget
    refine ⟨skip n k, skip_lt_skip_iff.mpr hk, ⟨line, hget, hheader⟩, fun j line' hj hj' hget' => ?_⟩
    by_cases hjn : j = n
    · exact hn line' (hjn ▸ hget')
    · obtain ⟨i, rfl⟩ := exists_skip_eq hjn
      rw [← getElem?_skip] at hget'
      exact hbetween i line' (skip_lt_skip_iff.mp hj) (skip_lt_skip_iff.mp hj') hget'
  · rintro ⟨k, hk, ⟨line, hget, hheader⟩, hbetween⟩
    have hkn : k ≠ n := by
      rintro rfl
      exact hn line hget _ hheader
    obtain ⟨i, rfl⟩ := exists_skip_eq hkn
    refine ⟨i, skip_lt_skip_iff.mp hk, ⟨line, (getElem?_skip ..).trans hget, hheader⟩,
      fun j line' hj hj' hget' => ?_⟩
    rw [getElem?_skip] at hget'
    exact hbetween _ line' (skip_lt_skip_iff.mpr hj) (skip_lt_skip_iff.mpr hj') hget'

theorem effective_eraseIdx (hn : ∀ line, ls[n]? = some line → ∀ name, ¬ IsHeader line name) :
    Effective (ls.eraseIdx n) m a ↔ Effective ls (skip n m) a := by
  constructor
  · rintro ⟨hin, hcounts⟩
    exact ⟨(inSection_eraseIdx hn).mp hin, getElem?_skip ls n m ▸ hcounts⟩
  · rintro ⟨hin, hcounts⟩
    exact ⟨(inSection_eraseIdx hn).mpr hin, (getElem?_skip ls n m).symm ▸ hcounts⟩

/-- An assignment holds without line `n` if among the other lines it is the last one to its key. -/
theorem lastAssigns_eraseIdx (hn : ∀ line, ls[n]? = some line → ∀ name, ¬ IsHeader line name) :
    LastAssigns (ls.eraseIdx n) b ↔
      ∃ m ≠ n, Effective ls m b ∧ ∀ k c, m < k → k ≠ n → Effective ls k c → c.key ≠ b.key := by
  constructor
  · rintro ⟨m, hm, hlater⟩
    refine ⟨skip n m, skip_ne n m, (effective_eraseIdx hn).mp hm, fun k c hk hkn hc => ?_⟩
    obtain ⟨k, rfl⟩ := exists_skip_eq hkn
    exact hlater k c (skip_lt_skip_iff.mp hk) ((effective_eraseIdx hn).mpr hc)
  · rintro ⟨m, hmn, hm, hlater⟩
    obtain ⟨m, rfl⟩ := exists_skip_eq hmn
    refine ⟨m, (effective_eraseIdx hn).mpr hm, fun k c hk hc => ?_⟩
    exact hlater _ c (skip_lt_skip_iff.mpr hk) (skip_ne n k) ((effective_eraseIdx hn).mp hc)

theorem Effective.notHeader (h : Effective ls n a) :
    ∀ line, ls[n]? = some line → ∀ name, ¬ IsHeader line name := by
  obtain ⟨line, hget, hcounts⟩ := h.counts
  intro line' hget'
  obtain rfl : line = line' := Option.some.inj (hget.symm.trans hget')
  exact hcounts.notHeader

/-- Taking out an assignment leaves those to other keys as they are. -/
theorem lastAssigns_eraseIdx_of_key_ne (h : Effective ls n a) (hkey : b.key ≠ a.key) :
    LastAssigns (ls.eraseIdx n) b ↔ LastAssigns ls b := by
  rw [lastAssigns_eraseIdx h.notHeader]
  constructor
  · rintro ⟨m, -, hm, hlater⟩
    refine ⟨m, hm, fun k c hk hc => ?_⟩
    by_cases hkn : k = n
    · subst hkn
      rw [hc.unique h]
      exact hkey.symm
    · exact hlater k c hk hkn hc
  · rintro ⟨m, hm, hlater⟩
    refine ⟨m, ?_, hm, fun k c hk _ hc => hlater k c hk hc⟩
    rintro rfl
    exact hkey (congrArg Assignment.key (hm.unique h))

/-- Taking out an assignment does not matter if there is another one to its key behind it. -/
theorem lastAssigns_eraseIdx_of_later (h : Effective ls n a)
    (hlater : ∃ m c, n < m ∧ Effective ls m c ∧ c.key = a.key) :
    LastAssigns (ls.eraseIdx n) b ↔ LastAssigns ls b := by
  by_cases hkey : b.key = a.key
  · obtain ⟨m, c, hnm, hc, hckey⟩ := hlater
    rw [lastAssigns_eraseIdx h.notHeader]
    constructor
    · rintro ⟨k, -, hk, hlast⟩
      refine ⟨k, hk, fun j d hj hd => ?_⟩
      by_cases hjn : j = n
      · -- line `n` would be followed by one that is not the last either
        exact absurd (hckey.trans hkey.symm) (hlast m c (by omega) (by omega) hc)
      · exact hlast j d hj hjn hd
    · rintro ⟨k, hk, hlast⟩
      refine ⟨k, ?_, hk, fun j d hj _ hd => hlast j d hj hd⟩
      rintro rfl
      exact hlast m c hnm hc (hckey.trans hkey.symm)
  · exact lastAssigns_eraseIdx_of_key_ne h hkey

theorem effective_take : Effective (ls.take n) m b ↔ m < n ∧ Effective ls m b := by
  by_cases hlt : m < (ls.take n).length
  · rw [← effective_append hlt (ls.drop n), List.take_append_drop, and_iff_right]
    rw [List.length_take] at hlt
    omega
  · refine ⟨fun h => absurd h.lt hlt, fun ⟨hmn, h⟩ => absurd ?_ hlt⟩
    rw [List.length_take]
    exact Nat.lt_min.mpr ⟨hmn, h.lt⟩

/-- Taking out the last assignment to a key brings back the one before. -/
theorem lastAssigns_eraseIdx_of_last (h : Effective ls n a)
    (hlast : ¬ ∃ m c, n < m ∧ Effective ls m c ∧ c.key = a.key) (hkey : b.key = a.key) :
    LastAssigns (ls.eraseIdx n) b ↔ LastAssigns (ls.take n) b := by
  rw [lastAssigns_eraseIdx h.notHeader]
  constructor
  · rintro ⟨m, hmn, hm, hlater⟩
    have hlt : m < n := by
      by_contra hge
      exact hlast ⟨m, b, by omega, hm, hkey⟩
    refine ⟨m, effective_take.mpr ⟨hlt, hm⟩, fun k c hk hc => ?_⟩
    obtain ⟨hkn, hc⟩ := effective_take.mp hc
    exact hlater k c hk (by omega) hc
  · rintro ⟨m, hm, hlater⟩
    obtain ⟨hlt, hm⟩ := effective_take.mp hm
    refine ⟨m, by omega, hm, fun k c hk hkn hc hckey => ?_⟩
    by_cases hkn' : k < n
    · exact hlater k c hk (effective_take.mpr ⟨hkn', hc⟩) hckey
    · exact hlast ⟨k, c, by omega, hc, hckey.trans hkey⟩

end

/-! ### The settings that are left -/

namespace Sets

variable {α : Type} {key : String} {ofWord? : List Char → Option α} {get : Settings → α}
  {text text' : List Char} {n : Nat} {a : Assignment}

/-- Taking out a value that is not understood leaves its setting alone if a later line assigns to
the key, or if the line before that did gives no more than the default. -/
theorem get_eraseIdx_eq_iff (h : Sets key ofWord? get) (ha : Effective (lines text) n a)
    (hkey : a.key = key.toList) (hbad : ofWord? a.value = none)
    (ht : lines text' = (lines text).eraseIdx n) :
    get (read text').1 = get (read text).1 ↔
      (∃ m b, n < m ∧ Effective (lines text) m b ∧ b.key = a.key) ∨
        ∀ b, LastAssigns ((lines text).take n) b → b.key = a.key →
          (ofWord? b.value).getD (get default) = get default := by
  by_cases hlater : ∃ m b, n < m ∧ Effective (lines text) m b ∧ b.key = a.key
  · refine ⟨fun _ => .inl hlater, fun _ => h.get_eq_of_forall_iff fun value => ?_⟩
    rw [ht, lastAssigns_eraseIdx_of_later ha hlater]
  rw [or_iff_right hlater]
  -- the value that is not understood is the last one, so the setting is as by default
  have hlast : LastAssigns (lines text) ⟨key.toList, a.value⟩ := by
    rw [← hkey]
    exact ⟨n, ha, fun m b hm hb hbkey => hlater ⟨m, b, hm, hb, hbkey⟩⟩
  obtain ⟨x?, hx, hget⟩ := h.exists_gives (readAs_read text)
  obtain ⟨y?, hy, hget'⟩ := h.exists_gives (readAs_read text')
  have hleft (value : List Char) : LastAssigns (lines text') ⟨key.toList, value⟩ ↔
      LastAssigns ((lines text).take n) ⟨key.toList, value⟩ := by
    rw [ht, lastAssigns_eraseIdx_of_last ha hlater hkey.symm]
  rw [hget, hget', hx.unique (.last hlast), hbad, Option.getD_none]
  constructor
  · rintro hdefault ⟨_, value⟩ hb hbkey
    obtain rfl := hbkey.trans hkey
    rw [← hy.unique (.last ((hleft value).mpr hb))]
    exact hdefault
  · intro hall
    cases hy with
    | last hb => exact hall _ ((hleft _).mp hb) hkey.symm
    | never _ => rfl

end Sets

theorem departs_iff_of_eof {b : Assignment} (hkey : b.key = "eof".toList) :
    Departs b ↔ (EofPolicy.ofWord? b.value).getD .zero ≠ .zero := by
  obtain ⟨_, value⟩ := b
  subst hkey
  constructor
  · rintro (h | -)
    simp [h]
  · intro h
    refine .eof ?_
    match EofPolicy.ofWord? value, h with
    | some .unchanged, _ => rfl

theorem departs_iff_of_strict {b : Assignment} (hkey : b.key = "strict".toList) :
    Departs b ↔ (Settings.truthOfWord? b.value).getD false ≠ false := by
  obtain ⟨_, value⟩ := b
  subst hkey
  constructor
  · rintro (- | h)
    simp [h]
  · intro h
    refine .strict ?_
    match Settings.truthOfWord? value, h with
    | some true, _ => rfl

/-- **What taking out a line does whose value is not understood.** The settings stay as they are if
and only if a later line assigns to the same key, or no line before it does, or the last one that
does gives no more than the default. -/
theorem read_eraseIdx_eq_iff {text : List Char} {n : Nat} {a : Assignment}
    (ha : Effective (lines text) n a) (hbad : Misread a) :
    (∃ text', lines text' = (lines text).eraseIdx n) ∧
      ∀ text', lines text' = (lines text).eraseIdx n →
        ((read text').1 = (read text).1 ↔
          (∃ m b, n < m ∧ Effective (lines text) m b ∧ b.key = a.key) ∨
            ¬ ∃ b, LastAssigns ((lines text).take n) b ∧ b.key = a.key ∧ Departs b) := by
  refine ⟨exists_lines_eq_eraseIdx text n, fun text' ht => ?_⟩
  have hother {key : String} (hne : key.toList ≠ a.key) (value : List Char) :
      LastAssigns (lines text') ⟨key.toList, value⟩ ↔
        LastAssigns (lines text) ⟨key.toList, value⟩ := by
    rw [ht, lastAssigns_eraseIdx_of_key_ne ha hne]
  rw [Settings.ext_iff]
  simp only [not_exists, not_and]
  cases hbad with
  | eof hno =>
    have hstrict : "strict".toList ≠ "eof".toList := by decide
    rw [and_iff_left (sets_strict.get_eq_of_forall_iff (hother hstrict)),
      sets_eof.get_eraseIdx_eq_iff ha rfl hno ht]
    refine or_congr_right (forall₃_congr fun b _ hkey => ?_)
    rw [departs_iff_of_eof hkey, ne_eq, not_not]
    rfl
  | strict hno =>
    have heof : "eof".toList ≠ "strict".toList := by decide
    rw [and_iff_right (sets_eof.get_eq_of_forall_iff (hother heof)),
      sets_strict.get_eraseIdx_eq_iff ha rfl hno ht]
    refine or_congr_right (forall₃_congr fun b _ hkey => ?_)
    rw [departs_iff_of_strict hkey, ne_eq, not_not]
    rfl

/-- Taking out `strict = maybe` changes nothing, as a later line assigns to `strict`. -/
theorem read_eraseIdx_eq_iff_later :
    ∃ (text text' : List Char) (a b : Assignment),
      text = "[interpreter]\nstrict = maybe\nstrict = on".toList ∧
      text' = "[interpreter]\nstrict = on".toList ∧ Effective (lines text) 1 a ∧ Misread a ∧
      lines text' = (lines text).eraseIdx 1 ∧ Effective (lines text) 2 b ∧ b.key = a.key ∧
      (read text').1 = (read text).1 := by
  let text := "[interpreter]\nstrict = maybe\nstrict = on".toList
  let text' := "[interpreter]\nstrict = on".toList
  let a : Assignment := ⟨"strict".toList, "maybe".toList⟩
  let b : Assignment := ⟨"strict".toList, "on".toList⟩
  have ha : Effective (lines text) 1 a := by decide +kernel
  have hb : Effective (lines text) 2 b := by decide +kernel
  have hbad : Misread a := .strict (by decide +kernel)
  have ht : lines text' = (lines text).eraseIdx 1 := by decide +kernel
  obtain ⟨-, hleft⟩ := read_eraseIdx_eq_iff ha hbad
  have hsame := (hleft text' ht).mpr (.inl ⟨2, b, by decide, hb, rfl⟩)
  exact ⟨text, text', a, b, rfl, rfl, ha, hbad, ht, hb, rfl, hsame⟩

end Document

end Brainfuck
