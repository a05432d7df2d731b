import Mathlib.Data.Prod.Basic
import Stanzas.Proofs.Request

/-!
# What a request spares

A request that fails leaves every entry as it was, but that it may have made directories on the way
to its file, and a copy of the file (`run_error_spares`). The staged file is never left behind.
-/

namespace Stanzas

namespace FileTree

/-- Whether an entry is as it was, or is a new directory that a path passes through. -/
def GrownAt (t t' : FileTree) (p : Path) (k : Key) : Prop :=
  t'.node? k = t.node? k ∨ t.node? k = none ∧ t'.OnWay p.names.dropLast k

theorem GrowsAlong.grownAt {t t' : FileTree} {p : Path} (h : t.GrowsAlong t' p.names.dropLast)
    (k : Key) : t.GrownAt t' p k :=
  h.node?_cases k

end FileTree

namespace Request

variable (r : Request) (tag : Text) (t : FileTree)

/-- Whether a key is that of a full copy of the file as it was, under the name for the copy. -/
def CopyAt (t' : FileTree) (k : Key) : Prop :=
  r.backup = true ∧ ∃ bytes mode, t.file? r.path = some (bytes, mode) ∧
    t'.find (r.path.backup tag) = .ok (.found k (.file bytes (FileTree.copyMode bytes mode)))

/-- Whether a request has done nothing to an entry, but that it may be a new directory on the way to
the file, or the copy of the file where there was no directory. -/
def Spares (t' : FileTree) (k : Key) : Prop :=
  t.GrownAt t' r.path k ∨ ¬ t.IsDir k ∧ r.CopyAt tag t t' k

variable {r tag t} {backup : Option Path} {kept : FileTree} (ht : t.Sound)
  (h : r.Keeps tag t backup kept)

include ht h

/-- Whatever is not the copy is as it was. -/
theorem Keeps.node?_cases (k : Key) :
    kept.node? k = t.node? k ∨ ¬ t.IsDir k ∧ r.CopyAt tag t kept k := by
  cases h with
  | nothing => exact Or.inl rfl
  | @copy l bytes mode spot hbackup hfile hplace hspot =>
    obtain ⟨hne, -, hdir⟩ := FileTree.not_isDir_of_find ht _ hplace hspot
    rw [FileTree.node?_insert hne]
    by_cases hk : k = spot.key
    · subst hk
      refine Or.inr ⟨hdir, hbackup, bytes, mode, t.file?_of_find _ l _ _ hfile, ?_⟩
      exact FileTree.find_insert_self ht _ hplace hspot _ _
    · exact Or.inl (if_neg hk)

/-- The file is as it was. -/
theorem Keeps.find_path (htag : '/' ∉ tag) (k : Key) (bytes : ByteArray) (mode : Mode)
    (hfile : t.find r.path = .ok (.found k (.file bytes mode))) :
    kept.find r.path = .ok (.found k (.file bytes mode)) := by
  cases h with
  | nothing => exact hfile
  | copy _ _ hplace hspot =>
    have hne := FileTree.key_ne_of_find_backup ht tag htag k bytes mode hfile _ hplace hspot
    exact FileTree.find_insert_of_ne ht _ hplace hspot _ _ r.path k bytes mode hfile hne

theorem Keeps.file?_of_file? (htag : '/' ∉ tag) (file : ByteArray × Mode)
    (hfile : t.file? r.path = some file) : kept.file? r.path = some file := by
  obtain ⟨k, hk⟩ := (t.file?_eq_some_iff _ file.1 file.2).1 hfile
  exact kept.file?_of_find _ k _ _ (h.find_path ht htag k _ _ hk)

/-- All is spared where nothing but directories on the way is made after the copy. -/
theorem Keeps.spares_of_growsAlong {t' : FileTree}
    (hgrows : kept.GrowsAlong t' r.path.names.dropLast) (k : Key) : r.Spares tag t t' k := by
  rcases h.node?_cases ht k with hsame | ⟨hdir, hbackup, bytes, mode, hfile, hcopy⟩
  · unfold Spares FileTree.GrownAt
    rw [← hsame]
    exact Or.inl (hgrows.grownAt k)
  · exact Or.inr ⟨hdir, hbackup, bytes, mode, hfile,
      hgrows.find_eq (h.keepsDirs ht).sound _ k _ _ hcopy⟩

end Request

/-- Nothing is lost when a request fails, whichever operations on files have failed: entries stay, but
that there may be new directories and a copy, and the file that was asked for stays. If its text cannot
be read, or if it is only checked, nothing at all has been done. Where a text cannot be replaced there
may be new directories. -/
theorem run_error_spares {σ : Type} [Files (StateM σ)] (tree : σ → FileTree)
    (hfiles : Files.Fallible tree) (s : σ) (hs : (tree s).Sound) :
    (∀ (r : Request) (tag : Text) (failure : Failure) (s' : σ), '/' ∉ tag →
      (r.run tag : ExceptT Failure (StateM σ) Report).run.run s = (.error failure, s') →
        (∀ k, r.Spares tag (tree s) (tree s') k) ∧
        (∀ file, (tree s).file? r.path = some file → (tree s').file? r.path = some file) ∧
        (((r.path.readText r.create : ExceptT Failure (StateM σ) Text).run.run s).1 =
          .error failure ∨ r.check = true → tree s' = tree s)) ∧
    ∀ (p : Path) (text : Text) (base : Digest) (mode : Option Mode) (failure : Failure) (s' : σ),
      (p.replaceText text base mode : ExceptT Failure (StateM σ) Unit).run.run s =
        (.error failure, s') → ∀ k, (tree s).GrownAt (tree s') p k := by
  refine ⟨fun r tag failure s' htag h => ?_, fun p text base mode failure s' h k => ?_⟩
  · rcases Request.fails_of_run hfiles hs h with
      hsame | ⟨hcheck, ⟨before, hread⟩, backup, kept, hkept, hgrows⟩
    · rw [hsame]
      exact ⟨fun _ => Or.inl (Or.inl rfl), fun _ hfile => hfile, fun _ => rfl⟩
    · refine ⟨hkept.spares_of_growsAlong hs hgrows, fun file hfile => ?_, fun hearly => ?_⟩
      · have hsound := (hkept.keepsDirs hs).sound
        exact hgrows.file?_of_file? hsound _ file (hkept.file?_of_file? hs htag file hfile)
      · rw [hread, hcheck] at hearly
        exact hearly.elim (fun h => nomatch h) (fun h => nomatch h)
  · exact (growsAlong_of_replaceText_eq_error hfiles hs h).grownAt k

/-- The file is copied, and then the bits of the staged file cannot be set. -/
theorem run_error_spares_of_setMode :
    ∃ s', ((Request.addStanza ⟨['f']⟩ ['b']).keeping.run ['1'] :
        ExceptT Failure (StateM FaultyTree) Report).run.run
          (.failing (.ofFile ['f'] (utf8 ['z', '\n']) 0o640) 6 (.other ['!'])) =
        (.error (.write ⟨['f']⟩ (.other ['!'])), s') ∧
      s'.tree.file? ⟨['f']⟩ = some (utf8 ['z', '\n'], 0o640) ∧
      s'.tree.entries.map Prod.fst = [["f.1~".toList], [['f']]] := by
  have hsound := FileTree.sound_ofFile ['f'] (utf8 ['z', '\n']) 0o640
  have hfile : (FileTree.ofFile ['f'] (utf8 ['z', '\n']) 0o640).file? ⟨['f']⟩ =
      some (utf8 ['z', '\n'], 0o640) := by decide +kernel
  have hkeys : (((Request.addStanza ⟨['f']⟩ ['b']).keeping.run ['1'] :
      ExceptT Failure (StateM FaultyTree) Report).run.run
        (.failing (.ofFile ['f'] (utf8 ['z', '\n']) 0o640) 6 (.other ['!']))).2.tree.entries.map
          Prod.fst = [["f.1~".toList], [['f']]] := by decide +kernel
  obtain ⟨s', hrun⟩ : ∃ s', ((Request.addStanza ⟨['f']⟩ ['b']).keeping.run ['1'] :
      ExceptT Failure (StateM FaultyTree) Report).run.run
        (.failing (.ofFile ['f'] (utf8 ['z', '\n']) 0o640) 6 (.other ['!'])) =
      (.error (.write ⟨['f']⟩ (.other ['!'])), s') := ⟨_, Prod.fst_eq_iff.1 (by decide +kernel)⟩
  obtain ⟨hruns, -⟩ := run_error_spares FaultyTree.tree FaultyTree.fallible
    (.failing (.ofFile ['f'] (utf8 ['z', '\n']) 0o640) 6 (.other ['!'])) hsound
  obtain ⟨-, hstays, -⟩ := hruns _ _ _ s' (by decide) hrun
  rw [hrun] at hkeys
  exact ⟨s', hrun, hstays _ hfile, hkeys⟩

end Stanzas
