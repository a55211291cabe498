import Brainfuck.Proofs.Brackets.Surplus
import Brainfuck.Proofs.Guarded.Report
import Brainfuck.Proofs.Interpreter.FailedRuns

/-!
# The column of the caret

A report on a failed run ends in two lines, one with the bytes around the position of the failure
and one with the caret. Whether the caret stands under the right byte is a matter of columns: both
lines are indented by two, the window starts `reach` bytes before the position or at the first
byte, and every byte of it takes one column.

* The picture is there if and only if the window is not empty, that is, if it starts before the
  end of the code (`Report.context_eq`).
* Nothing outside the code is looked at: with its checks, the report is the same one
  (`Guarded.failure_eq`).
* Under the caret is the byte at the position, or nothing if the position is behind the last byte
  (`Report.aligned`).
* Every error of a run, and every error of the check of the brackets, gives the position of a byte
  that can fail so, or else the end of the program (`caret_marks_failure`).
-/

namespace Brainfuck

/-- The character of a bracket. -/
def Bracket.char : Bracket → Char
  | .opening => '['
  | .closing => ']'

namespace Report

variable {code : Array UInt8} {ip : Nat}

/-! ### The two lines -/

/-- The line with the bytes around position `ip`. -/
def windowLine (code : Array UInt8) (ip : Nat) : List Char :=
  ' ' :: ' ' :: (window code ip).map column

/-- The column of the caret. -/
def caretColumn (ip : Nat) : Nat := 2 + (ip - windowStart ip)

/-- The line with the caret. -/
def caretLine (ip : Nat) : List Char := List.replicate (caretColumn ip) ' ' ++ ['^']

/-- Both lines, each with its line break. -/
def picture (code : Array UInt8) (ip : Nat) : String :=
  String.ofList (windowLine code ip) ++ "\n" ++ (String.ofList (caretLine ip) ++ "\n")

/-- The character above the caret. -/
def above (code : Array UInt8) (ip : Nat) : Option Char := (windowLine code ip)[caretColumn ip]?

/-- The window line and the caret line for position `ip` line up with the code. -/
structure Aligned (code : Array UInt8) (ip : Nat) : Prop where
  /-- The window line is indented by two. -/
  indent : (windowLine code ip).take 2 = [' ', ' ']
  /-- It has one column for each byte of the window. -/
  length : (windowLine code ip).length =
    2 + (min (ip + reach + 1) code.size - windowStart ip)
  /-- In this column is that byte, which is one of the code. -/
  shown : ∀ k < min (ip + reach + 1) code.size - windowStart ip,
    ∃ h : windowStart ip + k < code.size,
      (windowLine code ip)[2 + k]? = some (column code[windowStart ip + k])
  /-- All characters of the line are printable. -/
  printable : ∀ c ∈ windowLine code ip, 0x20 ≤ c.toNat ∧ c.toNat ≤ 0x7e
  /-- Above the caret is the byte at the position. -/
  under : ∀ h : ip < code.size, above code ip = some (column code[ip])
  /-- If there is none, the caret is as far behind the last byte shown as the position is
  behind the last byte. -/
  behind : code.size ≤ ip → windowStart ip < code.size →
    caretColumn ip = (windowLine code ip).length - 1 + (ip - code.size + 1)

/-! ### The window -/

/-- A byte is shown as a printable character. -/
theorem column_printable (b : UInt8) : 0x20 ≤ (column b).toNat ∧ (column b).toNat ≤ 0x7e := by
  unfold column
  split
  · rename_i h
    have hlow : 0x20 ≤ b.toNat := UInt8.le_iff_toNat_le.mp h.1
    have hhigh : b.toNat ≤ 0x7e := UInt8.le_iff_toNat_le.mp h.2
    have hvalid : b.toNat.isValidChar := .inl (by omega)
    rw [Char.ofNat, dif_pos hvalid]
    exact ⟨hlow, hhigh⟩
  · decide

theorem length_window (code : Array UInt8) (ip : Nat) :
    (window code ip).length = min (ip + reach + 1) code.size - windowStart ip := by
  rw [window, windowStop, Array.length_toList, Array.size_extract, Nat.min_assoc, Nat.min_self]

theorem length_windowLine (code : Array UInt8) (ip : Nat) :
    (windowLine code ip).length = 2 + (min (ip + reach + 1) code.size - windowStart ip) := by
  simp only [windowLine, List.length_cons, List.length_map, length_window]
  omega

/-- Behind the indent, the window line shows the bytes of the window. -/
theorem getElem?_windowLine {k : Nat} (hk : k < min (ip + reach + 1) code.size - windowStart ip) :
    (windowLine code ip)[2 + k]? = code[windowStart ip + k]?.map column := by
  have hget : (window code ip)[k]? = code[windowStart ip + k]? := by
    rw [window, windowStop, Array.getElem?_toList, Array.getElem?_extract, Nat.min_assoc,
      Nat.min_self, if_pos hk]
  simp [windowLine, Nat.add_comm 2, hget]

theorem windowStop_le_windowStart_iff :
    windowStop code ip ≤ windowStart ip ↔ code.size ≤ windowStart ip := by
  unfold windowStop windowStart
  omega

/-- **The picture is there if and only if there is a byte to show.** -/
theorem context_eq (code : Array UInt8) (ip : Nat) :
    context code ip = if windowStart ip < code.size then picture code ip else "" := by
  unfold context
  split
  · rename_i hempty
    rw [if_neg (Nat.not_lt.mpr (windowStop_le_windowStart_iff.mp hempty))]
  · rename_i hsome
    rw [if_pos (Nat.not_le.mp (mt windowStop_le_windowStart_iff.mpr hsome))]
    simp [withCaret, picture, windowLine, caretLine, caretColumn, List.replicate_succ,
      Nat.add_comm 2, String.ext_iff]

/-- The line feed is shown as a dot, and the caret stands under the `]`. -/
example : context #[43, 10, 93] 2 = "  +.]\n    ^\n" := by decide +kernel

/-! ### The byte above the caret -/

/-- The caret stands under the byte at the position. -/
theorem above_eq (h : ip < code.size) : above code ip = some (column code[ip]) := by
  have hstart : windowStart ip + (ip - windowStart ip) = ip := by
    unfold windowStart
    omega
  have hin : ip - windowStart ip < min (ip + reach + 1) code.size - windowStart ip := by omega
  have hget := getElem?_windowLine hin
  rw [hstart, Array.getElem?_eq_getElem h] at hget
  exact hget

theorem above_of_getElem? {b : UInt8} (h : code[ip]? = some b) :
    above code ip = some (column b) := by
  obtain ⟨hlt, rfl⟩ := Array.getElem?_eq_some_iff.mp h
  exact above_eq hlt

theorem caretColumn_of_size_le (h : code.size ≤ ip) (hs : windowStart ip < code.size) :
    caretColumn ip = (windowLine code ip).length - 1 + (ip - code.size + 1) := by
  rw [length_windowLine]
  unfold caretColumn
  omega

/-- **The lines line up with the code.** -/
theorem aligned (code : Array UInt8) (ip : Nat) : Aligned code ip where
  indent := rfl
  length := length_windowLine code ip
  shown := by
    intro k hk
    have hin : windowStart ip + k < code.size := by omega
    refine ⟨hin, ?_⟩
    rw [getElem?_windowLine hk, Array.getElem?_eq_getElem hin]
    rfl
  printable := by
    intro c hc
    simp only [windowLine, List.mem_cons, List.mem_map] at hc
    rcases hc with rfl | rfl | ⟨b, -, rfl⟩
    · decide
    · decide
    · exact column_printable b
  under := above_eq
  behind := caretColumn_of_size_le

/-! ### The report -/

theorem signed_append (name : Option String) (text rest : String) :
    signed name (text ++ rest) = signed name text ++ rest := by
  cases name with
  | none => rfl
  | some n => exact String.append_assoc.symm

/-- The report on a failed run is a reason, the position, and the picture. -/
theorem failure_eq {e : RunError} (he : ∀ ip, e ≠ .interrupted ip) (name : Option String)
    (code : Array UInt8) :
    failure name code (.run e) =
      signed name (reason e) ++ s!" at instruction {e.position}\n" ++ context code e.position := by
  have hlocated (text : String) (ip : Nat) : signed name (located text code ip) =
      signed name text ++ s!" at instruction {ip}\n" ++ context code ip := by
    rw [located, ← signed_append, ← signed_append]
    simp only [String.append_assoc]
    rfl
  cases e with
  | stackOverflow ip capacity => exact hlocated _ ip
  | unmatched u => exact hlocated _ u.position
  | stream ip cause => exact hlocated _ ip
  | interrupted ip => exact absurd rfl (he ip)

end Report

/-! ### Errors of a program -/

open Report

/-- What stands above the caret of the report on an error of the run `r` of `code`. An interruption
is reported without a caret. -/
def RunError.Marked (code : Array UInt8) (r : Run) : RunError → Prop
  | .stackOverflow ip _ => above code ip = some '['
  | .unmatched u => above code u.position = some u.bracket.char
  | .stream ip _ =>
    (r.halt ≠ .completed → above code ip = some '.' ∨ above code ip = some ',') ∧
      (r.halt = .completed → 0 < code.size → caretColumn ip = (windowLine code ip).length)
  | .interrupted _ => False

theorem Bracket.column_byte (k : Bracket) : column k.byte = k.char := by
  cases k <;> decide

theorem Report.above_of_bracket {code : Array UInt8} {ip : Nat} {k : Bracket}
    (h : code[ip]? = some k.byte) : above code ip = some k.char := by
  rw [above_of_getElem? h, k.column_byte]

/-- If there is any code, there is a byte to show around each of its positions and its end. -/
theorem Report.windowStart_lt {code : Array UInt8} {ip : Nat} (h : ip ≤ code.size)
    (hpos : 0 < code.size) : windowStart ip < code.size := by
  have hreach : 0 < reach := by decide
  unfold windowStart
  omega

/-- The check fails with a bracket that has no partner. -/
theorem Program.exists_unmatched {p : Program} {e : RunError} (h : p.checkBrackets = .error e) :
    ∃ u, e = .unmatched u := by
  unfold checkBrackets at h
  cases hcheck : Brackets.check p.code.toList with
  | ok _ =>
    rw [hcheck] at h
    cases h
  | error u =>
    rw [hcheck] at h
    cases h
    exact ⟨u, rfl⟩

/-- The position of a bracket at fault is one of the program. -/
theorem Program.getElem?_of_checkBrackets {p : Program} {e : RunError}
    (h : p.checkBrackets = .error e) :
    ∃ u, e = .unmatched u ∧ p.code[u.position]? = some u.bracket.byte := by
  obtain ⟨u, rfl⟩ := exists_unmatched h
  have hget := Brackets.getElem?_of_check (checkBrackets_eq_error_iff.mp h)
  rw [Array.getElem?_toList] at hget
  exact ⟨u, rfl, hget⟩

/-- An error at a position of a program, or at its end, can be reported without a fault. -/
theorem Program.report_eq {p : Program} {e : RunError} (hne : ∀ ip, e ≠ .interrupted ip)
    (h : e.position ≤ p.code.size) (name : Option String) :
    Guarded.failure name p.code (.run e) = .ok (failure name p.code (.run e)) := by
  have hposition : e.position ≤ limit := h.trans p.size_code_le
  have hwords : limit + reach + 1 < Guarded.words := by decide
  rw [Guarded.failure_eq hne, if_pos (by omega)]

namespace Interpreter

variable {p : Program} {i : Interpreter} {fuel : Nat} {r : Run} {e : RunError}

/-- If only the flush at the end failed, the error gives the end of the program. -/
theorem position_eq_size (h : i.run? fuel p = some r) (he : r.outcome = .error e)
    (hcompleted : r.halt = .completed) : e.position = p.code.size := by
  obtain ⟨c, last, -, -, -, hlength⟩ := exists_halts h
  rcases Halt.outcome_eq_error_iff.mp he with ⟨calls, hfailed⟩ | ⟨-, cause, -, rfl⟩
  · rw [hcompleted] at hfailed
    cases hfailed
  · exact hlength

/-- The position that an error gives is one of the program, or its end. -/
theorem position_le_size (h : i.run? fuel p = some r) (he : r.outcome = .error e) :
    e.position ≤ p.code.size := by
  obtain ⟨c, hr, -, hposition, -⟩ := exists_failed h he
  rw [hposition]
  exact hr.tracks.ip_le

/-- An error of a run is about the byte that stands above the caret. -/
theorem marked (h : i.run? fuel p = some r) (he : r.outcome = .error e)
    (hne : ∀ ip, e ≠ .interrupted ip) : e.Marked p.code r := by
  obtain ⟨-, -, -, -, hlocated⟩ := exists_failed h he
  cases e with
  | stackOverflow ip capacity => exact above_of_bracket hlocated.2
  | unmatched u => exact above_of_bracket hlocated.2
  | stream ip cause =>
    refine ⟨fun hexecuting => ?_, fun hcompleted hpos => ?_⟩
    · rcases hlocated with ⟨-, k, hk, hget⟩ | ⟨-, hcompleted, -⟩
      · rw [above_of_getElem? hget]
        rcases hk with rfl | rfl
        · exact .inl (by decide)
        · exact .inr (by decide)
      · exact absurd hcompleted hexecuting
    · -- the position is the end, which is one column behind the last byte
      have hip : ip = p.code.size := position_eq_size h he hcompleted
      have hlength := length_windowLine p.code ip
      have hstart := windowStart_lt hip.le hpos
      rw [caretColumn_of_size_le hip.ge hstart]
      omega
  | interrupted ip => exact absurd rfl (hne ip)

end Interpreter

/-- **The caret stands under the instruction that failed.** For every error but an interruption:

* the report is a reason, the position, and two lines below them, which are there if and only if the
  window starts before the end of the code;
* with every sum, difference and cut of the code checked it is the same report, and no check fails,
  unless the position behind the window does not fit in a word;
* those lines line up with the code;
* if the error is one of the check of a program, the bracket that it names stands above the caret,
  and no check of the report fails;
* if it is one of a run, a bracket, `.` or `,` does, the one that failed; and if just the last
  flush failed, the caret is right behind the last byte shown. No check of the report fails. -/
theorem caret_marks_failure {e : RunError} (hne : ∀ ip, e ≠ .interrupted ip) :
    (∀ name code, failure name code (.run e) =
        signed name (reason e) ++ s!" at instruction {e.position}\n" ++
          if windowStart e.position < code.size then picture code e.position else "") ∧
      (∀ name code, Guarded.failure name code (.run e) =
        if e.position + reach + 1 < Guarded.words then .ok (failure name code (.run e))
        else .error .overflow) ∧
      (∀ code, Aligned code e.position) ∧
      (∀ p : Program, p.checkBrackets = .error e →
        windowStart e.position < p.code.size ∧
          (∃ u, e = .unmatched u ∧ above p.code u.position = some u.bracket.char) ∧
          ∀ name, Guarded.failure name p.code (.run e) = .ok (failure name p.code (.run e))) ∧
      ∀ (p : Program) (i : Interpreter) (fuel : Nat) (r : Run),
        i.run? fuel p = some r → r.outcome = .error e →
          (0 < p.code.size → windowStart e.position < p.code.size) ∧ e.Marked p.code r ∧
            ∀ name, Guarded.failure name p.code (.run e) = .ok (failure name p.code (.run e)) := by
  refine ⟨fun name code => ?_, Guarded.failure_eq hne, fun code => aligned code e.position, ?_, ?_⟩
  · rw [failure_eq hne, context_eq]
  · intro p h
    obtain ⟨u, rfl, hget⟩ := p.getElem?_of_checkBrackets h
    have hlt : u.position < p.code.size := lt_size_of_getElem? hget
    exact ⟨windowStart_lt hlt.le (by omega), ⟨u, rfl, above_of_bracket hget⟩,
      p.report_eq hne hlt.le⟩
  · intro p i fuel r h he
    have hle := i.position_le_size h he
    exact ⟨windowStart_lt hle, i.marked h he hne, p.report_eq hne hle⟩

/-- The program `+[-]]` fails at the last `]`, and so does the check of its brackets. The caret of
the report stands under this `]`. -/
theorem caret_marks_failure_stray :
    ∃ (p : Program) (i : Interpreter) (r : Run) (e : RunError),
      p.code = #[43, 91, 45, 93, 93] ∧ i.run? 6 p = some r ∧ r.outcome = .error e ∧
        p.checkBrackets = .error e ∧ e = .unmatched ⟨4, .closing⟩ ∧ e.Marked p.code r ∧
        (∃ u, e = .unmatched u ∧ above p.code u.position = some u.bracket.char) ∧
        failure (some "bf") p.code (.run e) =
          signed (some "bf") (reason e) ++ s!" at instruction {e.position}\n" ++
            picture p.code 4 ∧
        Guarded.failure (some "bf") p.code (.run e) = .ok (failure (some "bf") p.code (.run e)) ∧
        Aligned p.code 4 := by
  let p : Program := ⟨#[43, 91, 45, 93, 93], by decide⟩
  let i : Interpreter := .ofMachine ⟨.ofLength 1, .ofCapacity 1⟩ [] .reliable
  let e : RunError := .unmatched ⟨4, .closing⟩
  have hcode : p.code = #[43, 91, 45, 93, 93] := by decide +kernel
  have hcheck : p.checkBrackets = .error e := by decide +kernel
  have hrun : (i.run? 6 p).map (·.outcome) = some (.error e) := by decide +kernel
  obtain ⟨r, hr, he⟩ := Option.map_eq_some_iff.mp hrun
  obtain ⟨htext, hguarded, haligned, hbrackets, hruns⟩ := caret_marks_failure (e := e) nofun
  refine ⟨p, i, r, e, hcode, hr, he, hcheck, rfl, (hruns p i 6 r hr he).2.1,
    (hbrackets p hcheck).2.1, ?_, ?_, haligned p.code⟩
  · rw [htext, if_pos (hbrackets p hcheck).1]
    rfl
  · rw [hguarded, if_pos (by decide)]

end Brainfuck
