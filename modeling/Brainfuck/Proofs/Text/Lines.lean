import Brainfuck.Text.Blank
import Mathlib.Data.List.Basic

/-!
# Lines put together

The lines of a text hold no line feed, and lines without line feeds are, each ended by one, a text
with just these lines, but for a carriage return at the end of a line (`Text.lines_joined`). Where
blanks at the ends of lines do not matter, that one does not either (`Text.trim_dropReturn`).
-/

namespace Brainfuck

namespace Text

/-- The text of which these are the lines, each ended by a line feed. -/
def joined (ls : List (List Char)) : List Char := ls.flatMap (· ++ ['\n'])

variable {done l cs : List Char} {ls : List (List Char)}

theorem splitLines_append (hl : '\n' ∉ l) (rest : List Char) :
    splitLines done (l ++ '\n' :: rest) = (done.reverse ++ l) :: splitLines [] rest := by
  induction l generalizing done with
  | nil => rw [List.nil_append, splitLines, if_pos rfl, List.append_nil]
  | cons c l ih =>
    have hc : c ≠ '\n' := fun heq => hl (heq ▸ List.mem_cons_self)
    have hrest : '\n' ∉ l := fun hmem => hl (List.mem_cons_of_mem c hmem)
    rw [List.cons_append, splitLines, if_neg hc, ih hrest, List.reverse_cons, List.append_assoc,
      List.singleton_append]

theorem splitLines_joined (hls : ∀ l ∈ ls, '\n' ∉ l) : splitLines [] (joined ls) = ls ++ [[]] := by
  induction ls with
  | nil => rfl
  | cons l ls ih =>
    have hjoined : joined (l :: ls) = l ++ '\n' :: joined ls := by simp [joined]
    rw [hjoined, splitLines_append (hls l List.mem_cons_self),
      ih fun m hm => hls m (List.mem_cons_of_mem l hm)]
    rfl

/-- **Lines put together are the lines of the text.** -/
theorem lines_joined (hls : ∀ l ∈ ls, '\n' ∉ l) : lines (joined ls) = ls.map dropReturn := by
  rw [lines, splitLines_joined hls, List.reverse_append]
  simp

theorem newline_not_mem_splitLines (hdone : '\n' ∉ done) (hl : l ∈ splitLines done cs) :
    '\n' ∉ l := by
  induction cs generalizing done with
  | nil =>
    obtain rfl := List.mem_singleton.mp hl
    rwa [List.mem_reverse]
  | cons c cs ih =>
    rw [splitLines] at hl
    split at hl
    · rcases List.mem_cons.mp hl with rfl | hl
      · rwa [List.mem_reverse]
      · exact ih List.not_mem_nil hl
    · rename_i hc
      refine ih (fun hmem => ?_) hl
      rcases List.mem_cons.mp hmem with heq | hmem
      · exact hc heq.symm
      · exact hdone hmem

theorem prefix_dropReturn (l : List Char) : dropReturn l <+: l := by
  unfold dropReturn
  split
  · rename_i rest hrev
    rw [List.reverse_eq_iff] at hrev
    rw [hrev, List.reverse_cons]
    exact List.prefix_append ..
  · exact List.prefix_refl l

/-- A line holds no line feed. -/
theorem newline_not_mem_lines (hl : l ∈ lines cs) : '\n' ∉ l := by
  have hpieces : ∀ piece ∈ splitLines [] cs, '\n' ∉ piece :=
    fun piece => newline_not_mem_splitLines List.not_mem_nil
  unfold lines at hl
  split at hl
  · cases hl
  · rename_i last ended hrev
    have hmem (piece : List Char) (h : piece ∈ last :: ended) : '\n' ∉ piece := by
      rw [← hrev, List.mem_reverse] at h
      exact hpieces piece h
    rcases List.mem_append.mp hl with hl | hl
    · obtain ⟨piece, hpiece, rfl⟩ := List.mem_map.mp (List.mem_reverse.mp hl)
      exact fun h => hmem piece (List.mem_cons_of_mem last hpiece)
        ((prefix_dropReturn piece).subset h)
    · split at hl
      · cases hl
      · obtain rfl := List.mem_singleton.mp hl
        exact hmem _ List.mem_cons_self

/-- A carriage return at the end is a blank at the end. -/
theorem trim_dropReturn (l : List Char) : trim (dropReturn l) = trim l := by
  unfold dropReturn
  split
  · rename_i rest hrev
    rw [List.reverse_eq_iff, List.reverse_cons] at hrev
    rw [hrev]
    have hreturn : trimStart ['\r'] = [] := by decide
    have hend (cs : List Char) : trimEnd (cs ++ ['\r']) = trimEnd cs := by
      rw [trimEnd, trimEnd, List.reverse_append]
      rfl
    have hstart : trimStart (rest.reverse ++ ['\r']) =
        if (trimStart rest.reverse).isEmpty then [] else trimStart rest.reverse ++ ['\r'] := by
      rw [trimStart, List.dropWhile_append]
      rfl
    rw [trim, trim, hstart]
    split
    · rename_i hempty
      rw [List.isEmpty_iff.mp hempty]
    · rw [hend]
  · rfl

end Text

end Brainfuck
