import Stanzas.Proofs.Files.Grow

/-!
# A file in its place

A file can be put where a path leads if there is no directory. All directories stay where they are,
the path leads to the new file (`find_insert_self`), and paths to other files lead to these still
(`find_insert_of_ne`). The same directories stay where a file is removed.
-/

namespace Stanzas

namespace FileTree

variable (t t' : FileTree)

/-- Whether a sound tree has all directories of another one. -/
structure KeepsDirs : Prop where
  isDir : ∀ k, t.IsDir k → t'.IsDir k
  sound : t'.Sound

variable {t t'}

theorem KeepsDirs.trans {t'' : FileTree} (h : t.KeepsDirs t') (h' : t'.KeepsDirs t'') :
    t.KeepsDirs t'' :=
  ⟨fun k hk => h'.isDir k (h.isDir k hk), h'.sound⟩

theorem KeepsDirs.settled (h : t.KeepsDirs t') (ht : t.Sound) (p : Path) (hp : t.Settled p) :
    t'.Settled p :=
  hp.mono ht h.isDir

theorem Grows.keepsDirs (h : t.Grows t') : t.KeepsDirs t' := ⟨h.isDir_of_isDir, h.sound⟩

section
variable (ht : t.Sound) (p : Path)

include ht

/-! ## Putting a file in its place -/

section
variable {spot : Spot} (h : t.find p = .ok spot) (hspot : ¬ spot.IsDir) (bytes : ByteArray)
  (mode : Mode)

include h hspot

theorem not_isDir_of_find : spot.key ≠ [] ∧ t.IsDir spot.key.dropLast ∧ ¬ t.IsDir spot.key := by
  obtain ⟨-, name, above, -, -, -, -, habove, rfl⟩ := t.exists_of_find ht p spot h hspot
  rw [isDir_spotAt_iff] at hspot
  rw [key_spotAt, List.dropLast_concat]
  exact ⟨List.concat_ne_nil name above, habove, hspot⟩

theorem keepsDirs_insert : t.KeepsDirs (t.insert spot.key (.file bytes mode)) := by
  obtain ⟨hne, habove, hdir⟩ := not_isDir_of_find ht p h hspot
  exact ⟨t.isDir_insert spot.key hne hdir _, ht.insert spot.key _ habove hne hdir⟩

theorem find_insert_self : (t.insert spot.key (.file bytes mode)).find p =
    .ok (.found spot.key (.file bytes mode)) := by
  obtain ⟨hne, -, -⟩ := not_isDir_of_find ht p h hspot
  have hkeeps := keepsDirs_insert ht p h hspot bytes mode
  rw [t.find_mono _ hkeeps.isDir ht p spot h hspot]
  refine congrArg _ ((spotAt_eq_found_iff _ _ _ _).2 ⟨rfl, ?_⟩)
  rw [node?_insert hne, if_pos rfl]

/-- The path of another file leads to it still. -/
theorem find_insert_of_ne (q : Path) (k : Key) (bytes' : ByteArray) (mode' : Mode)
    (hq : t.find q = .ok (.found k (.file bytes' mode'))) (hk : k ≠ spot.key) :
    (t.insert spot.key (.file bytes mode)).find q = .ok (.found k (.file bytes' mode')) := by
  obtain ⟨hne, -, -⟩ := not_isDir_of_find ht p h hspot
  have hkeeps := keepsDirs_insert ht p h hspot bytes mode
  rw [t.find_mono _ hkeeps.isDir ht q _ hq id]
  refine congrArg _ ((spotAt_eq_found_iff _ _ _ _).2 ⟨rfl, ?_⟩)
  rw [node?_insert hne]
  exact (if_neg hk).trans (t.node?_of_find ht q k _ hq)

end

section
variable (l : Key) (h : t.target p = .ok l) (bytes : ByteArray) (mode : Mode)

include h

omit ht in
/-- A file can be moved to where there is no directory. -/
theorem exists_of_target : ∃ spot, t.find p = .ok spot ∧ ¬ spot.IsDir ∧ spot.key = l := by
  unfold target at h
  split at h
  · next k hk => exact ⟨_, hk, id, Except.ok.inj h⟩
  · next k bytes mode hk => exact ⟨_, hk, id, Except.ok.inj h⟩
  · cases h
  · split at h <;> cases h
  · cases h

theorem keepsDirs_insert_of_target : t.KeepsDirs (t.insert l (.file bytes mode)) := by
  obtain ⟨spot, hfind, hspot, rfl⟩ := exists_of_target p l h
  exact keepsDirs_insert ht p hfind hspot bytes mode

end

/-! ## Removing a file -/

theorem keepsDirs_remove : t.KeepsDirs (t.remove p) := by
  unfold remove
  split
  · next k bytes mode hk =>
    have hnode := t.node?_of_find ht p k _ ((t.lookup_eq_ok_iff p k _).1 hk)
    have hdir := t.not_isDir_of_file k bytes mode hnode
    have hne : k ≠ [] := fun hnil => hdir (hnil ▸ t.isDir_nil)
    exact ⟨t.isDir_erase k hne hdir, ht.erase k hne hdir⟩
  · exact ⟨fun _ hk => hk, ht⟩

end

end FileTree

end Stanzas
