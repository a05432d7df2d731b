import Stanzas.Text.Blank

/-!
# Lines of a text

`cutLines` cuts a text at its newlines and tells whether the last line is ended by one; a text
without a character has no line. `joinLines` writes lines back:

    joinLines (cutLines t).1 (cutLines t).2 = t                                  (joinLines_cutLines)

A byte-order mark at the front of a file is not part of its first line: `dropMark` takes one off.
-/

namespace Stanzas

/-- The character that some programs write in front of a text. -/
def byteOrderMark : Char := '\uFEFF'

/-- A text without one leading byte-order mark. -/
def dropMark : Text → Text
  | [] => []
  | c :: t => if c = byteOrderMark then t else c :: t

/-- The lines of a text without their newlines, and whether a newline ends the last one. -/
def cutLines (t : Text) : List Text × Bool :=
  let pieces := t.splitOn '\n'
  if pieces.getLast? = some [] then (pieces.dropLast, decide (1 < pieces.length))
  else (pieces, false)

/-- Lines with a newline between them, and one after the last if the text is ended. -/
def joinLines (lines : List Text) (ended : Bool) : Text :=
  ['\n'].intercalate lines ++ if ended then ['\n'] else []

/-- An empty piece at the end stands for the newline that ends the text. -/
theorem intercalate_append_nil {lines : List Text} (h : lines ≠ []) :
    ['\n'].intercalate (lines ++ [[]]) = joinLines lines true := by
  induction lines with
  | nil => exact absurd rfl h
  | cons l ls ih =>
    cases ls with
    | nil => simp [joinLines, List.intercalate]
    | cons m ms =>
      have := ih (List.cons_ne_nil m ms)
      simp only [joinLines, List.cons_append, List.intercalate_cons_cons] at this ⊢
      simp [this]

/-- Cutting a text into lines loses nothing. -/
theorem joinLines_cutLines (t : Text) : joinLines (cutLines t).1 (cutLines t).2 = t := by
  have hj : ['\n'].intercalate (t.splitOn '\n') = t := List.intercalate_splitOn '\n'
  simp only [cutLines]
  split
  · next h =>
    obtain ⟨ls, hls⟩ := List.getLast?_eq_some_iff.1 h
    rw [hls] at hj ⊢
    cases ls with
    | nil => simpa [joinLines] using hj
    | cons l ls =>
      rw [intercalate_append_nil (List.cons_ne_nil l ls)] at hj
      rw [List.dropLast_concat]
      simpa using hj
  · simp [joinLines, hj]

example : cutLines ['a', '\n', '\n'] = ([['a'], []], true) := by decide

end Stanzas
