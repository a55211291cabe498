import Brainfuck.Program.Loading

/-!
# Loading reads everything

A program is loaded in two parts: bytes are kept until there is one more than the limit, and from
then on they are only counted. In the end that is to read all that the source delivers up to its end
(`Source.contents`), and to make a program of it (`Program.load_fst`). In which pieces the bytes
come, where the second part starts, and which reads fail transiently makes no difference.

A file is opened before (`Program.ofFile_eq_ok_iff`, `Program.ofFile_eq_error_iff`).
-/

namespace Brainfuck

namespace Source

/-! ### The two parts -/

/-- What reading `s` may come to when the bytes `before` were kept already: the bytes kept, why
reading stopped, and what is left of the source. -/
inductive Filled (room : Nat) (before : List UInt8) (s : Source) :
    Array UInt8 × Stop × Source → Prop where
  /-- There is no more room, and the rest may deliver more. -/
  | full {kept : Array UInt8} {bytes : List UInt8} {rest : Source} :
      kept.toList = before ++ bytes → room ≤ kept.size →
      s.contents = rest.contents.map (bytes ++ ·) → Filled room before s (kept, .full, rest)
  /-- The source ended while there was room. -/
  | finished {kept : Array UInt8} {bytes : List UInt8} {rest : Source} :
      kept.toList = before ++ bytes → kept.size < room → s.contents = .ok bytes →
      Filled room before s (kept, .finished, rest)
  /-- A read failed. -/
  | failed {kept : Array UInt8} {e : IoError} {rest : Source} : s.contents = .error e →
      Filled room before s (kept, .failed e, rest)

section

variable {room : Nat} {before : List UInt8} {s : Source} {out : Array UInt8 × Stop × Source}

/-- With no more read, what is left is all of the source. -/
theorem contents_eq_map_nil (s : Source) : s.contents = s.contents.map ([] ++ ·) := by
  cases s.contents <;> rfl

/-- Bytes for which there is room are kept. -/
theorem Filled.data {bytes : List UInt8} (h : Filled room (before ++ bytes) s out) :
    Filled room before (.data bytes :: s) out := by
  cases h with
  | full hkept hsize hs =>
    rw [List.append_assoc] at hkept
    refine .full hkept hsize ?_
    rw [contents, hs]
    cases contents _ <;> simp [Except.map]
  | finished hkept hsize hs =>
    rw [List.append_assoc] at hkept
    refine .finished hkept hsize ?_
    rw [contents, hs]
    rfl
  | failed hs =>
    refine .failed ?_
    rw [contents, hs]
    rfl

/-- A transient failure is passed over. -/
theorem Filled.transient {e : IoError} (he : e.IsTransient) (h : Filled room before s out) :
    Filled room before (.failure e :: s) out := by
  have hcontents : contents (.failure e :: s) = contents s := if_pos he
  cases h with
  | full hkept hsize hs => exact .full hkept hsize (hcontents.trans hs)
  | finished hkept hsize hs => exact .finished hkept hsize (hcontents.trans hs)
  | failed hs => exact .failed (hcontents.trans hs)

/-- **What filling a buffer comes to.** -/
theorem filled_fill (room : Nat) (buffer : Array UInt8) (s : Source) :
    Filled room buffer.toList s (s.fill room buffer) := by
  fun_induction fill room buffer s with
  | case1 buffer =>
    split
    · exact .full (List.append_nil _).symm ‹_› rfl
    · exact .finished (List.append_nil _).symm (Nat.lt_of_not_le ‹_›) rfl
  | case2 buffer d rest hfull => exact .full (List.append_nil _).symm hfull (contents_eq_map_nil _)
  | case3 buffer rest hroom bytes free _ ih =>
    rw [Array.toList_appendList] at ih
    exact ih.data
  | case4 buffer rest hroom bytes free hmore =>
    -- the piece is cut where the room ends
    refine .full (Array.toList_appendList ..) ?_ ?_
    · have hne : bytes.drop free ≠ [] := hmore
      rw [Ne, List.drop_eq_nil_iff] at hne
      rw [← Array.length_toList, Array.toList_appendList, List.length_append, List.length_take,
        Array.length_toList]
      omega
    · rw [contents, contents]
      cases contents rest with
      | error e => rfl
      | ok more => simp [Except.map, ← List.append_assoc]
  | case5 buffer rest hroom =>
    exact .finished (List.append_nil _).symm (Nat.lt_of_not_le hroom) rfl
  | case6 buffer rest hroom e he ih => exact ih.transient he
  | case7 buffer rest hroom e he => exact .failed (if_neg he)

end

/-- Draining a source counts all that it delivers. -/
theorem drain_fst (s : Source) (count : Nat) :
    (s.drain count).1 = s.contents.map (count + ·.length) := by
  fun_induction drain count s with
  | case1 count => rfl
  | case2 count bytes rest ih =>
    rw [ih, contents]
    cases contents rest with
    | error e => rfl
    | ok more => simp [Except.map, Nat.add_assoc]
  | case3 count rest => rfl
  | case4 count e rest he ih => rw [ih, contents, if_pos he]
  | case5 count e rest he =>
    rw [contents, if_neg he]
    rfl

end Source

namespace Program

/-- **Loading a program reads all of its source**, and makes a program of what it delivers. -/
theorem load_fst (s : Source) :
    (load s).1 =
      match s.contents with
      | .error e => .error (.cannotRead e)
      | .ok bytes => ofBytes bytes.toArray := by
  have hfill := Source.filled_fill (limit + 1) #[] s
  unfold load
  cases hout : s.fill (limit + 1) #[] with
  | mk kept out =>
    obtain ⟨stop, rest⟩ := out
    rw [hout] at hfill
    cases hfill with
    | @full _ bytes _ hkept hsize hs =>
      -- the bytes that are counted and not kept make the program too large
      have hdrain := rest.drain_fst kept.size
      cases hd : rest.drain kept.size with
      | mk result left =>
        rw [hd] at hdrain
        obtain rfl : result = _ := hdrain
        rw [hs]
        cases hrest : rest.contents with
        | error e =>
          rw [hrest] at hd
          simp only [hd, Except.map]
        | ok more =>
          rw [hrest] at hd
          have hlength : (bytes ++ more).toArray.size = kept.size + more.length := by
            rw [List.size_toArray, List.length_append, ← Array.length_toList, hkept]
            rfl
          simp only [hd, Except.map]
          rw [ofBytes_of_limit_lt (by omega), hlength]
    | finished hkept hsize hs =>
      obtain rfl : kept = _ := Array.toList_inj.mp hkept
      simp only [hs]
      rfl
    | failed hs => simp only [hs]

section

variable (path : String) {opened : Except IoError Source}

/-- A program is loaded if its file is opened and read, and no longer than the limit. -/
theorem ofFile_eq_ok_iff {p : Program} :
    ofFile path opened = .ok p ↔
      ∃ s, opened = .ok s ∧ s.contents = .ok p.buffer.toList := by
  cases opened with
  | error cause => simp [ofFile]
  | ok s =>
    rw [ofFile, load_fst]
    cases hs : s.contents with
    | error cause => simp [hs]
    | ok bytes =>
      simp only [ofBytes_eq_ok_iff, Except.ok.injEq, exists_eq_left', hs]
      rw [← Array.toList_inj, eq_comm]

/-- A program is not loaded if its file is not opened, or not read, or longer than the limit. -/
theorem ofFile_eq_error_iff {e : LoadError} :
    ofFile path opened = .error e ↔
      (∃ cause, opened = .error cause ∧ e = .cannotOpen path cause) ∨
        ∃ s, opened = .ok s ∧
          ((∃ cause, s.contents = .error cause ∧ e = .cannotRead cause) ∨
            ∃ bytes, s.contents = .ok bytes ∧ limit < bytes.length ∧
              e = .tooLarge bytes.length limit) := by
  cases opened with
  | error cause => simp [ofFile, eq_comm]
  | ok s =>
    rw [ofFile, load_fst]
    cases hs : s.contents with
    | error cause => simp [hs, @eq_comm _ e]
    | ok bytes => simp [hs, ofBytes_eq_error_iff]

end

end Program

end Brainfuck
