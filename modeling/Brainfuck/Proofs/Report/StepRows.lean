import Brainfuck.Report.StepTable
import Mathlib.Data.List.Nodup

/-!
# What a row of the step table tells

A row is made to be read by eye: its numbers are padded to columns, but a large one is wider than
its column, the byte of the instruction may itself look like a part of the table, and the words for
the action may repeat the numbers of other columns. Still no two steps that differ in what is shown
have the same row (`Report.stepRow_unambiguous`).

* A number in a column ends where its digits end, as a blank follows, padding or not
  (`Report.padded_append_inj`). So a row can be taken apart column by column, from the left.
* What the words for an action say besides numbers tells the kind of the action
  (`Action.Kind.letters_injective`), and between two texts fixed by the kind and by the columns
  stands the value that comes with it.
-/

namespace Brainfuck

/-- What an action is, without the value that comes with it. -/
inductive Action.Kind where
  /-- The pointer moved. -/
  | moved
  /-- The current cell went up. -/
  | incremented
  /-- The current cell went down. -/
  | decremented
  /-- A byte was written. -/
  | wrote
  /-- A byte was read. -/
  | read
  /-- The end of the input was met. -/
  | readEnd
  /-- A loop was skipped. -/
  | skipped
  /-- A loop was entered. -/
  | entered
  /-- A loop was repeated. -/
  | repeated
  /-- A loop was left. -/
  | left
  /-- A comment byte was passed. -/
  | nothing
  deriving DecidableEq

namespace Action

/-- The kind of an action. -/
def kind : Action → Kind
  | .moved _ => .moved
  | .incremented _ => .incremented
  | .decremented _ => .decremented
  | .wrote _ => .wrote
  | .read _ => .read
  | .readEnd => .readEnd
  | .skipped _ => .skipped
  | .entered _ => .entered
  | .repeated _ => .repeated
  | .left _ => .left
  | .nothing => .nothing

/-- The value that comes with an action. -/
def value? : Action → Option Nat
  | .moved n | .skipped n | .entered n | .repeated n | .left n => some n
  | .incremented v | .decremented v | .wrote v | .read v => some v.toNat
  | .readEnd | .nothing => none

/-- An action is its kind and its value. -/
theorem eq_of_kind_eq {a b : Action} (hk : a.kind = b.kind) (hv : a.value? = b.value?) :
    a = b := by
  cases a <;> cases b <;> cases hk <;> simp_all [value?, UInt8.toNat_inj]

end Action

namespace Report

/-! ### Printable text -/

/-- All characters are printable ASCII. A line break is none of these. -/
def Printable (s : String) : Prop := ∀ c ∈ s.toList, 0x20 ≤ c.toNat ∧ c.toNat ≤ 0x7e

-- the list is gone through, not all characters
instance (s : String) : Decidable (Printable s) :=
  List.decidableBAll (fun c : Char => 0x20 ≤ c.toNat ∧ c.toNat ≤ 0x7e) s.toList

@[simp] theorem printable_append {s t : String} :
    Printable (s ++ t) ↔ Printable s ∧ Printable t := by
  unfold Printable
  rw [String.toList_append]
  exact List.forall_mem_append

theorem isDigit_of_mem_repr {n : Nat} {c : Char} (h : c ∈ (Nat.repr n).toList) :
    c.isDigit = true := by
  rw [Nat.toList_repr] at h
  exact Nat.isDigit_of_mem_toDigits (by decide) (by decide) h

@[simp] theorem printable_repr (n : Nat) : Printable (Nat.repr n) := by
  intro c hc
  have hdigit := isDigit_of_mem_repr hc
  simp only [Char.isDigit, Bool.and_eq_true, decide_eq_true_eq] at hdigit
  have hlow : 48 ≤ c.toNat := UInt32.le_iff_toNat_le.mp hdigit.1
  have hhigh : c.toNat ≤ 57 := UInt32.le_iff_toNat_le.mp hdigit.2
  omega

theorem printable_replicate_blank (n : Nat) : Printable (String.ofList (List.replicate n ' ')) := by
  intro c hc
  rw [String.toList_ofList] at hc
  rw [List.eq_of_mem_replicate hc]
  decide

/-! ### Columns of numbers -/

/-- A number can be read back from its digits. -/
theorem eq_of_repr_eq {n m : Nat} (h : Nat.repr n = Nat.repr m) : n = m := by
  have hread := congrArg (fun s => Nat.ofDigitChars 10 s.toList 0) h
  simpa only [Nat.toList_repr, Nat.ofDigitChars_ten_toDigits] using hread

/-- A number ends where its digits end. -/
theorem repr_append_inj {n m : Nat} {xs ys : List Char} (hx : xs.head? = some ' ')
    (hy : ys.head? = some ' ') (h : (Nat.repr n).toList ++ xs = (Nat.repr m).toList ++ ys) :
    n = m := by
  have front : ∀ {k : Nat} {zs : List Char}, zs.head? = some ' ' →
      ((Nat.repr k).toList ++ zs).takeWhile Char.isDigit = (Nat.repr k).toList := by
    intro k zs hz
    rw [List.takeWhile_append_of_pos fun c hc => isDigit_of_mem_repr hc]
    obtain ⟨zs, rfl⟩ := List.head?_eq_some_iff.mp hz
    rw [List.takeWhile_cons_of_neg (by decide), List.append_nil]
  have hdigits := congrArg (List.takeWhile Char.isDigit) h
  rw [front hx, front hy] at hdigits
  exact eq_of_repr_eq (String.toList_inj.mp hdigits)

/-- **A number in a column can be told from what follows**, also where it is wider than the
column. -/
theorem padded_append_inj {w n m : Nat} {gap s t : String} (hgap : gap.toList.head? = some ' ') :
    padded w n ++ (gap ++ s) = padded w m ++ (gap ++ t) ↔ n = m ∧ s = t := by
  constructor
  · intro h
    -- behind the digits comes a blank, one of the padding or the first of the gap
    have hblank : ∀ (k : Nat) (u : String),
        (List.replicate k ' ' ++ (gap ++ u).toList).head? = some ' ' := by
      intro k u
      cases k with
      | zero => simp [hgap]
      | succ k => rfl
    have hn : n = m := by
      have hlist := congrArg String.toList h
      simp only [padded, String.toList_append, String.toList_ofList, List.append_assoc] at hlist
      rw [← String.toList_append, ← String.toList_append] at hlist
      exact repr_append_inj (hblank _ _) (hblank _ _) hlist
    subst hn
    exact ⟨rfl, (String.append_right_inj _).mp ((String.append_right_inj _).mp h)⟩
  · rintro ⟨rfl, rfl⟩
    rfl

theorem printable_padded (w n : Nat) : Printable (padded w n) :=
  printable_append.mpr ⟨printable_repr n, printable_replicate_blank _⟩

/-! ### The byte of the instruction -/

/-- A byte with a shape of its own is shown as itself. -/
theorem toNat_instructionColumn {b : UInt8} (h : 0x21 ≤ b ∧ b ≤ 0x7e) :
    (instructionColumn b).toNat = b.toNat := by
  have hhigh : b.toNat ≤ 0x7e := UInt8.le_iff_toNat_le.mp h.2
  have hvalid : b.toNat.isValidChar := .inl (by omega)
  rw [instructionColumn, if_pos h, Char.ofNat, dif_pos hvalid]
  rfl

/-- Any other is shown as a question mark. -/
theorem instructionColumn_of_not {b : UInt8} (h : ¬ (0x21 ≤ b ∧ b ≤ 0x7e)) :
    instructionColumn b = '?' :=
  if_neg h

/-- Two bytes shown alike are equal, or both shown as question marks. -/
theorem instructionColumn_inj {a b : UInt8} :
    instructionColumn a = instructionColumn b ↔
      a = b ∨ instructionColumn a = '?' ∧ instructionColumn b = '?' := by
  constructor
  · intro h
    by_cases ha : 0x21 ≤ a ∧ a ≤ 0x7e
    · by_cases hb : 0x21 ≤ b ∧ b ≤ 0x7e
      · have hnat := congrArg Char.toNat h
        rw [toNat_instructionColumn ha, toNat_instructionColumn hb] at hnat
        exact .inl (UInt8.toNat_inj.mp hnat)
      · have hmark := instructionColumn_of_not hb
        exact .inr ⟨h.trans hmark, hmark⟩
    · have hmark := instructionColumn_of_not ha
      exact .inr ⟨hmark, h.symm.trans hmark⟩
  · rintro (rfl | ⟨ha, hb⟩)
    · rfl
    · rw [ha, hb]

theorem printable_instructionColumn (b : UInt8) :
    Printable (String.singleton (instructionColumn b)) := by
  intro c hc
  obtain rfl : c = instructionColumn b := by simpa using hc
  by_cases hb : 0x21 ≤ b ∧ b ≤ 0x7e
  · rw [toNat_instructionColumn hb]
    have hlow : 0x21 ≤ b.toNat := UInt8.le_iff_toNat_le.mp hb.1
    have hhigh : b.toNat ≤ 0x7e := UInt8.le_iff_toNat_le.mp hb.2
    omega
  · rw [instructionColumn_of_not hb]
    decide

/-! ### The words for an action -/

/-- The words for a change of the current cell, before the value that it changes to. -/
def change (start : String) (pointer : Nat) (cell : UInt8) : String :=
  s!"{start}{pointer}] from {cell} to "

/-- What stands before the value of an action. -/
def before (pointer : Nat) (cell : UInt8) : Action.Kind → String
  | .moved => "Moved pointer head to index "
  | .incremented => change "Increment cell[" pointer cell
  | .decremented => change "Decrement cell[" pointer cell
  | .wrote => "Output byte "
  | .read => "Read byte from input -> "
  | .readEnd => "Read byte from input -> EOF"
  | .skipped => "Cell is 0; jump forward to matching ']' at IP "
  | .entered => "Enter loop (cell != 0, depth "
  | .repeated => "Cell != 0; jump back to '[' at IP "
  | .left => "Exit loop (cell is 0, depth "
  | .nothing => "No-op"

/-- What stands behind it. -/
def behind : Action.Kind → String
  | .entered | .left => ")"
  | _ => ""

/-- A value as it is shown, if there is one. -/
def shownValue (v? : Option Nat) : String := (v?.map Nat.repr).getD ""

/-- The words are the value, between two texts that do not depend on it. -/
theorem describe_eq (s : Step) :
    describe s = before s.pointer s.cell s.action.kind ++ shownValue s.action.value? ++
      behind s.action.kind := by
  obtain ⟨found, action⟩ := s
  cases action with
  | entered _ | left _ => rfl
  | readEnd | nothing => rfl
  | moved _ | incremented _ | decremented _ | wrote _ | read _ | skipped _ | repeated _ =>
    exact String.append_empty.symm

/-- The characters of a text that are no digits. -/
def letters (s : String) : List Char := s.toList.filter (! ·.isDigit)

theorem letters_append (s t : String) : letters (s ++ t) = letters s ++ letters t := by
  rw [letters, String.toList_append, List.filter_append]
  rfl

theorem letters_repr (n : Nat) : letters (Nat.repr n) = [] := by
  rw [letters, List.filter_eq_nil_iff]
  intro c hc
  simp [isDigit_of_mem_repr hc]

theorem letters_shownValue (v? : Option Nat) : letters (shownValue v?) = [] := by
  cases v? with
  | none => rfl
  | some n => exact letters_repr n

theorem letters_change (start : String) (pointer : Nat) (cell : UInt8) :
    letters (change start pointer cell) =
      letters start ++ letters "] from " ++ letters " to " := by
  show letters (start ++ Nat.repr pointer ++ "] from " ++ Nat.repr cell.toNat ++ " to ") = _
  simp only [letters_append, letters_repr, List.append_nil]

/-- The text before a value has the same letters whatever numbers it repeats. -/
theorem letters_before (pointer : Nat) (cell : UInt8) (k : Action.Kind) :
    letters (before pointer cell k) = letters (before 0 0 k) := by
  cases k with
  | incremented | decremented => exact (letters_change _ _ _).trans (letters_change _ _ _).symm
  | _ => rfl

end Report

namespace Action.Kind

/-- Every kind of action. -/
def all : List Kind :=
  [.moved, .incremented, .decremented, .wrote, .read, .readEnd, .skipped, .entered, .repeated,
    .left, .nothing]

theorem mem_all (k : Kind) : k ∈ all := by
  cases k <;> decide

/-- What the words for an action of a kind say besides numbers. -/
def letters (k : Kind) : List Char := Report.letters (Report.before 0 0 k ++ Report.behind k)

/-- **The letters tell the kind.** -/
theorem letters_injective {k l : Kind} (h : k.letters = l.letters) : k = l := by
  have hnodup : (all.map letters).Nodup := by decide +kernel
  exact List.inj_on_of_nodup_map hnodup (mem_all k) (mem_all l) h

end Action.Kind

namespace Report

theorem letters_describe (s : Step) : letters (describe s) = s.action.kind.letters := by
  rw [describe_eq, Action.Kind.letters]
  simp only [letters_append, letters_shownValue, List.append_nil]
  rw [letters_before]

theorem shownValue_inj {v? w? : Option Nat} (h : shownValue v? = shownValue w?) : v? = w? := by
  have hdigits (n : Nat) : Nat.repr n ≠ "" := by
    intro hempty
    have hlist := congrArg String.toList hempty
    rw [Nat.toList_repr] at hlist
    exact Nat.toDigits_ne_nil hlist
  cases v? with
  | none =>
    cases w? with
    | none => rfl
    | some m => exact absurd h.symm (hdigits m)
  | some n =>
    cases w? with
    | none => exact absurd h (hdigits n)
    | some m => exact congrArg some (eq_of_repr_eq h)

/-- **The words tell the action**, to one who knows the pointer and the cell. -/
theorem describe_inj {s t : Step} (hp : s.pointer = t.pointer) (hc : s.cell = t.cell) :
    describe s = describe t ↔ s.action = t.action := by
  constructor
  · intro h
    have hkind : s.action.kind = t.action.kind := by
      apply Action.Kind.letters_injective
      rw [← letters_describe, ← letters_describe, h]
    rw [describe_eq s, describe_eq t, hp, hc, hkind] at h
    have hvalue := (String.append_right_inj _).mp ((String.append_left_inj _).mp h)
    exact Action.eq_of_kind_eq hkind (shownValue_inj hvalue)
  · intro h
    rw [describe_eq s, describe_eq t, hp, hc, h]

theorem printable_change {start : String} (h : Printable start) (pointer : Nat) (cell : UInt8) :
    Printable (change start pointer cell) := by
  have hfrom : Printable "] from " := by decide
  have hto : Printable " to " := by decide
  show Printable (start ++ Nat.repr pointer ++ "] from " ++ Nat.repr cell.toNat ++ " to ")
  simp only [printable_append, printable_repr, h, hfrom, hto, and_self]

theorem printable_before (pointer : Nat) (cell : UInt8) (k : Action.Kind) :
    Printable (before pointer cell k) := by
  cases k with
  | incremented | decremented => exact printable_change (by decide) _ _
  | _ =>
    rw [before]
    decide

theorem printable_shownValue (v? : Option Nat) : Printable (shownValue v?) := by
  cases v? with
  | none => decide
  | some n => exact printable_repr n

theorem printable_describe (s : Step) : Printable (describe s) := by
  have hbehind (k : Action.Kind) : Printable (behind k) := by cases k <;> decide
  rw [describe_eq, printable_append, printable_append]
  exact ⟨⟨printable_before _ _ _, printable_shownValue _⟩, hbehind _⟩

/-! ### Rows -/

/-- A character can be told from what follows. -/
theorem singleton_append_inj {a b : Char} {x y : String} :
    String.singleton a ++ x = String.singleton b ++ y ↔ a = b ∧ x = y := by
  rw [← String.toList_inj, String.toList_append, String.toList_append, String.toList_singleton,
    String.toList_singleton, List.singleton_append, List.singleton_append, List.cons.injEq,
    String.toList_inj]

/-- A row is taken apart column by column. -/
theorem stepRow_eq_iff {s t : Step} :
    stepRow s = stepRow t ↔
      s.number = t.number ∧ s.ip = t.ip ∧ s.pointer = t.pointer ∧ s.cell = t.cell ∧
        instructionColumn s.byte = instructionColumn t.byte ∧ describe s = describe t := by
  unfold stepRow
  simp only [String.append_assoc]
  rw [padded_append_inj rfl, padded_append_inj rfl, padded_append_inj rfl, padded_append_inj rfl,
    singleton_append_inj, String.append_right_inj, UInt8.toNat_inj]

theorem printable_stepRow (s : Step) : Printable (stepRow s) := by
  have hgap : Printable " | " ∧ Printable " |  " ∧ Printable "    | " := by decide
  unfold stepRow
  simp only [printable_append, printable_padded, printable_instructionColumn, printable_describe,
    hgap, and_self]

/-- **Two steps have the same row only if they agree in all that is shown.** For every two steps,
whatever their numbers, bytes and actions:

* their rows are equal if and only if they agree in the number of the step, the position, the
  pointer, the cell and the action, and their bytes are equal or both shown as question marks;
* a byte from 0x21 to 0x7e is shown as itself, and any other as a question mark;
* a row is one line of printable ASCII. -/
theorem stepRow_unambiguous (s t : Step) :
    (stepRow s = stepRow t ↔
      s.number = t.number ∧ s.ip = t.ip ∧ s.pointer = t.pointer ∧ s.cell = t.cell ∧
        s.action = t.action ∧
        (s.byte = t.byte ∨ instructionColumn s.byte = '?' ∧ instructionColumn t.byte = '?')) ∧
      (∀ b, (0x21 ≤ b ∧ b ≤ 0x7e → (instructionColumn b).toNat = b.toNat) ∧
        (¬ (0x21 ≤ b ∧ b ≤ 0x7e) → instructionColumn b = '?')) ∧
      Printable (stepRow s) ∧ '\n' ∉ (stepRow s).toList := by
  refine ⟨?_, fun b => ⟨toNat_instructionColumn, instructionColumn_of_not⟩, printable_stepRow s, ?_⟩
  · rw [stepRow_eq_iff, instructionColumn_inj]
    constructor
    · rintro ⟨hnumber, hip, hpointer, hcell, hbyte, hwords⟩
      exact ⟨hnumber, hip, hpointer, hcell, (describe_inj hpointer hcell).mp hwords, hbyte⟩
    · rintro ⟨hnumber, hip, hpointer, hcell, haction, hbyte⟩
      exact ⟨hnumber, hip, hpointer, hcell, hbyte, (describe_inj hpointer hcell).mpr haction⟩
  · intro hbreak
    have hlow := (printable_stepRow s _ hbreak).1
    exact absurd hlow (by decide)

/-- A number wider than its column, and a byte that looks like the end of a column: the rows of two
steps that differ in the position alone differ. -/
example :
    stepRow ⟨⟨10 ^ 19, 123456, 124, 0, 0⟩, .nothing⟩ ≠
      stepRow ⟨⟨10 ^ 19, 123457, 124, 0, 0⟩, .nothing⟩ := by
  decide +kernel

end Report

end Brainfuck
