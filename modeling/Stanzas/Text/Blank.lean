/-!
# Texts and their blanks

A text is the list of its characters. A character is *blank* when it has Unicode's `White_Space`
property, and `trim` takes the blanks off both ends. For every text `t`, with blanks `a` and `b`,

    t = a ++ trim t ++ b                                                        (exists_trim)
-/

namespace Stanzas

/-- A text, character by character. -/
abbrev Text := List Char

/-- The code points with Unicode's `White_Space` property, as closed ranges. -/
def blankRanges : List (Nat × Nat) :=
  [(0x09, 0x0D), (0x20, 0x20), (0x85, 0x85), (0xA0, 0xA0), (0x1680, 0x1680), (0x2000, 0x200A),
    (0x2028, 0x2029), (0x202F, 0x202F), (0x205F, 0x205F), (0x3000, 0x3000)]

/-- Whether a character is blank. -/
def isBlank (c : Char) : Bool :=
  blankRanges.any fun r => r.1 ≤ c.toNat && c.toNat ≤ r.2

/-! ## Trimming -/

/-- A text without the blanks it starts with. -/
def trimStart (t : Text) : Text := t.dropWhile isBlank

/-- A text without the blanks it ends with. -/
def trimEnd (t : Text) : Text := (t.reverse.dropWhile isBlank).reverse

/-- A text without the blanks around it. -/
def trim (t : Text) : Text := trimEnd (trimStart t)

theorem exists_trimStart (t : Text) : ∃ a, (∀ c ∈ a, isBlank c = true) ∧ t = a ++ trimStart t :=
  ⟨t.takeWhile isBlank, fun _ h => List.all_eq_true.1 List.all_takeWhile _ h,
    List.takeWhile_append_dropWhile.symm⟩

theorem exists_trimEnd (t : Text) : ∃ b, (∀ c ∈ b, isBlank c = true) ∧ t = trimEnd t ++ b := by
  obtain ⟨a, ha, h⟩ := exists_trimStart t.reverse
  refine ⟨a.reverse, fun c hc => ha c (List.mem_reverse.1 hc), ?_⟩
  calc t = t.reverse.reverse := t.reverse_reverse.symm
    _ = trimEnd t ++ a.reverse := by rw [h, List.reverse_append]; simp [trimEnd, trimStart]

/-- Trimming takes blanks only, and only from the ends. -/
theorem exists_trim (t : Text) :
    ∃ a b, (∀ c ∈ a, isBlank c = true) ∧ (∀ c ∈ b, isBlank c = true) ∧ t = a ++ trim t ++ b := by
  obtain ⟨a, ha, hs⟩ := exists_trimStart t
  obtain ⟨b, hb, he⟩ := exists_trimEnd (trimStart t)
  exact ⟨a, b, ha, hb, by rw [List.append_assoc, trim, ← he, ← hs]⟩

end Stanzas
