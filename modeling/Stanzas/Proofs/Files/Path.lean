import Stanzas.Files.Path
import Stanzas.Proofs.Text.Lines

/-!
# Names of paths

The directory of a path has the same names but the last one, and a name in a directory comes after
those of the directory. A path to a name on the way has the names up to that one:

    p.directory.names = p.names.dropLast                                         (names_directory)
    (p.child name).names = p.names ++ [name]                                         (names_child)
    way ∈ p.ways → way.names <+: p.names                                       (names_of_mem_ways)
-/

namespace Stanzas

namespace Path

/-- Whether a text is the name of an entry. -/
def Plain (name : Text) : Prop := isName name = true ∧ '/' ∉ name

theorem names_intercalate (parts : List Text) (hne : parts ≠ []) (hslash : ∀ n ∈ parts, '/' ∉ n) :
    (Path.mk (['/'].intercalate parts)).names = parts.filter isName := by
  unfold names pieces
  rw [List.splitOn_intercalate '/' hslash hne]

/-! ## A name in a directory -/

section
variable (p : Path) {name : Text} (hname : Plain name)

include hname

theorem pieces_child : (p.child name).pieces = p.pieces ++ [name] := by
  unfold pieces child
  rw [List.splitOn_append_cons_self, List.splitOn_eq_singleton hname.2]

theorem names_child : (p.child name).names = p.names ++ [name] := by
  unfold names
  rw [pieces_child p hname, List.filter_append, List.filter_cons_of_pos hname.1]
  rfl

end

/-! ## The ways to the names -/

theorem waysOf_cons (n : Text) (above : List Text) : waysOf (n :: above) =
    if isName n = true then ⟨['/'].intercalate (n :: above).reverse⟩ :: waysOf above
    else waysOf above := rfl

theorem slash_notMem_of_mem_pieces (p : Path) : ∀ n ∈ p.pieces.reverse, '/' ∉ n := fun n hn =>
  notMem_of_mem_splitOn '/' p.text n (List.mem_reverse.1 hn)

theorem names_eq_reverse (p : Path) : p.names = (p.pieces.reverse.filter isName).reverse := by
  unfold names
  rw [List.filter_reverse, List.reverse_reverse]

theorem names_of_mem_waysOf (parts : List Text) (hslash : ∀ n ∈ parts, '/' ∉ n) (way : Path)
    (hway : way ∈ waysOf parts) : way.names <+: (parts.filter isName).reverse := by
  induction parts with
  | nil => cases hway
  | cons n above ih =>
    have habove : ∀ n ∈ above, '/' ∉ n := fun n hn => hslash n (List.mem_cons_of_mem _ hn)
    rw [waysOf_cons] at hway
    by_cases hn : isName n = true
    · rw [if_pos hn] at hway
      rcases List.mem_cons.1 hway with rfl | hway
      · have hne : (n :: above).reverse ≠ [] := by simp
        have hnames := names_intercalate _ hne fun m hm => hslash m (List.mem_reverse.1 hm)
        rw [List.filter_reverse] at hnames
        rw [List.filter_cons_of_pos hn] at hnames ⊢
        exact hnames ▸ List.prefix_refl _
      · rw [List.filter_cons_of_pos hn, List.reverse_cons]
        exact (ih habove hway).trans (List.prefix_append _ _)
    · rw [if_neg hn] at hway
      rw [List.filter_cons_of_neg hn]
      exact ih habove hway

theorem names_of_mem_ways (p way : Path) (hway : way ∈ p.ways) : way.names <+: p.names := by
  rw [p.names_eq_reverse]
  exact names_of_mem_waysOf _ (slash_notMem_of_mem_pieces p) way hway

/-! ## The directory of a path -/

/-- The ways to the names on the way are those to the last one and to the names before it. -/
theorem waysOf_cases (parts : List Text) (hslash : ∀ n ∈ parts, '/' ∉ n) :
    waysOf parts = [] ∧ parts.filter isName = [] ∨
      ∃ way name above, waysOf parts = way :: waysOf above ∧ (∀ n ∈ above, '/' ∉ n) ∧
        parts.filter isName = name :: above.filter isName ∧
        way.names = (parts.filter isName).reverse := by
  induction parts with
  | nil => exact Or.inl ⟨rfl, rfl⟩
  | cons n above ih =>
    have habove : ∀ n ∈ above, '/' ∉ n := fun n hn => hslash n (List.mem_cons_of_mem _ hn)
    rw [waysOf_cons]
    by_cases hn : isName n = true
    · rw [if_pos hn, List.filter_cons_of_pos hn]
      refine Or.inr ⟨_, n, above, rfl, habove, rfl, ?_⟩
      rw [names_intercalate, List.filter_reverse, List.filter_cons_of_pos hn]
      · simp
      · exact fun m hm => hslash m (List.mem_reverse.1 hm)
    · rw [if_neg hn, List.filter_cons_of_neg hn]
      exact ih habove

theorem names_directory (p : Path) : p.directory.names = p.names.dropLast := by
  have htop : (if p.isAbsolute then Path.mk ['/'] else ⟨['.']⟩).names = [] := by
    split <;> decide
  rw [p.names_eq_reverse]
  unfold directory ways
  rcases waysOf_cases _ (slash_notMem_of_mem_pieces p) with ⟨hways, hnone⟩ | ⟨way, name, above, hways, habove, hsome, -⟩
  · rw [hways, hnone]
    exact htop
  rw [hways, hsome, List.reverse_cons, List.dropLast_concat]
  rcases waysOf_cases above habove with ⟨hways', hnone⟩ | ⟨way', _, _, hways', -, -, hway'⟩
  · rw [hways', hnone]
    exact htop
  · rw [hways']
    exact hway'

end Path

end Stanzas
