import Stanzas.Destination
import Stanzas.Proofs.Files.Path
import Stanzas.Proofs.Files.Place

/-!
# Backup copies

The copy of a file stands in the same directory, under the name of the file with more characters
behind it, and so it is another file (`key_ne_of_find_backup`). Making it keeps all directories and
leaves the file as it is.
-/

namespace Stanzas

namespace Path

/-- A path that ends with a name has it for its last piece, with whatever is put behind it. -/
theorem exists_names_append (p : Path) (hne : p.text ≠ []) (hend : p.ending = .name) :
    ∃ front name, isName name = true ∧ ∀ s, '/' ∉ s →
      (Path.mk (p.text ++ s)).names = front ++ [name ++ s].filter isName := by
  obtain ⟨init, name, hsplit, hnil⟩ := exists_splitOn_append '/' p.text
  have hpieces : p.pieces = init ++ [name] := by
    have h := hsplit [] List.not_mem_nil
    rwa [List.append_nil, List.append_nil] at h
  refine ⟨init.filter isName, name, ?_, fun s hs => ?_⟩
  · unfold ending at hend
    have hempty : name ≠ [] := by
      intro hname
      rw [if_pos ((hnil hname).resolve_left hne)] at hend
      split at hend <;> cases hend
    have hdot : name ≠ ['.'] := by
      rintro rfl
      rw [hpieces, List.filter_append, List.filter_cons_of_pos (by decide), List.filter_nil,
        List.getLast?_concat, if_pos rfl] at hend
      cases hend
    simp [isName, hempty, hdot]
  · unfold names pieces
    rw [hsplit s hs, List.filter_append]

theorem exists_names_backup (p : Path) (hne : p.text ≠ []) (hend : p.ending = .name) (tag : Text)
    (htag : '/' ∉ tag) : ∃ front name, p.names = front ++ [name] ∧
      (p.backup tag).names = front ++ [name ++ ('.' :: tag ++ ['~'])] := by
  obtain ⟨front, name, hname, hnames⟩ := p.exists_names_append hne hend
  refine ⟨front, name, ?_, ?_⟩
  · have h := hnames [] List.not_mem_nil
    rwa [List.append_nil, List.append_nil, List.filter_cons_of_pos hname] at h
  · unfold backup
    rw [List.append_assoc, hnames _ (by simp [htag]), List.filter_cons_of_pos]
    · rfl
    · simp [isName, List.append_eq_singleton_iff]

end Path

namespace FileTree

variable {t t' : FileTree} {p : Path}

theorem copy_eq_ok (q : Path) (h : t.copy p q = .ok t') : ∃ k bytes mode spot,
    t.find p = .ok (.found k (.file bytes mode)) ∧ t.find q = .ok spot ∧ ¬ spot.IsDir ∧
      t' = t.insert spot.key (.file bytes (copyMode bytes mode)) := by
  unfold copy at h
  split at h
  · cases h
  · cases h
  · next k bytes mode hp =>
    rw [lookup_eq_ok_iff] at hp
    split at h
    · next l hq => exact ⟨k, bytes, mode, _, hp, hq, id, (Except.ok.inj h).symm⟩
    · next l _ _ hq => exact ⟨k, bytes, mode, _, hp, hq, id, (Except.ok.inj h).symm⟩
    · cases h
    · cases h

/-- The copy of a file is another file. -/
theorem key_ne_of_find_backup (ht : t.Sound) (tag : Text) (htag : '/' ∉ tag) (k : Key)
    (bytes : ByteArray) (mode : Mode) (hp : t.find p = .ok (.found k (.file bytes mode)))
    (spot : Spot) (hq : t.find (p.backup tag) = .ok spot) (hspot : ¬ spot.IsDir) :
    k ≠ spot.key := by
  obtain ⟨hread, hend, -⟩ := (t.find_eq_ok_iff p _ id).1 hp
  obtain ⟨front, name, hnames, hbackup⟩ := p.exists_names_backup hread.1 hend tag htag
  obtain ⟨front₁, name₁, above₁, m₁, hnames₁, -, hwalk₁, -, hspot₁⟩ := t.exists_of_find ht p _ hp id
  obtain ⟨front₂, name₂, above₂, m₂, hnames₂, -, hwalk₂, -, rfl⟩ := t.exists_of_find ht _ _ hq hspot
  rw [hnames] at hnames₁
  rw [hbackup] at hnames₂
  obtain ⟨rfl, hname₁⟩ := List.append_inj' hnames₁ rfl
  obtain ⟨rfl, hname₂⟩ := List.append_inj' hnames₂ rfl
  rw [← List.singleton_inj.1 hname₁] at hspot₁
  -- both names stand in the directory that the names before them lead to
  rw [hwalk₁] at hwalk₂
  obtain ⟨rfl, -⟩ := Spot.found.inj (Except.ok.inj hwalk₂)
  rw [key_spotAt, ((t.spotAt_eq_found_iff _ _ _).1 hspot₁.symm).1, ← List.singleton_inj.1 hname₂]
  simp

end FileTree

end Stanzas
