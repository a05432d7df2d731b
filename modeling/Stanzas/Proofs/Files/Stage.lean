import Mathlib.Data.List.Dedup
import Stanzas.Proofs.Files.Find
import Stanzas.Proofs.Files.Path

/-!
# Staged files

A staged file has a name that nothing else has, neither an entry nor a name of the path that it is
staged for, and so the path cannot tell whether it is there (`unseen_of_stage`). Once it is gone, the
tree is what it was (`erase_insert`).
-/

namespace Stanzas

namespace FileTree

/-! ## Names for new files -/

theorem stagedName_injective : Function.Injective stagedName := by
  intro m n h
  have hdigits : Nat.toDigits 10 m = Nat.toDigits 10 n := List.append_cancel_left h
  rw [← Nat.ofDigitChars_ten_toDigits (n := m), hdigits, Nat.ofDigitChars_ten_toDigits]

theorem plain_stagedName (n : Nat) : Path.Plain (stagedName n) := by
  constructor
  · simp [Path.isName, stagedName]
  · intro h
    rcases List.mem_append.1 h with h | h
    · exact absurd h (by decide)
    · exact absurd (Nat.isDigit_of_mem_toDigits (by omega) (by omega) h) (by decide)

variable (t : FileTree) (p : Path)

/-- There are more names for new files than names that are used. -/
theorem exists_freshName : ∃ n, t.freshName p = stagedName n ∧ stagedName n ∉ t.usedNames p := by
  unfold freshName
  generalize t.usedNames p = used
  cases hfind : ((List.range (used.length + 1)).map stagedName).find? (!used.contains ·) with
  | some name =>
    obtain ⟨n, -, rfl⟩ := List.mem_map.1 (List.mem_of_find?_eq_some hfind)
    exact ⟨n, by simp only [hfind]; rfl, by simpa using List.find?_some hfind⟩
  | none =>
    have hsub : (List.range (used.length + 1)).map stagedName ⊆ used := by
      intro name hname
      simpa using List.find?_eq_none.1 hfind name hname
    have hle := (List.nodup_range.map stagedName_injective).length_le_of_subset hsub
    rw [List.length_map, List.length_range] at hle
    omega

/-! ## A file that is made and goes again -/

section
variable {t} {k : Key} (hne : k ≠ []) (hfree : t.node? k = none)

theorem insert_insert (n n' : Node) : (t.insert k n).insert k n' = t.insert k n' := by
  simp [insert, List.filter_filter]

include hne hfree

theorem erase_insert (n : Node) : (t.insert k n).erase k = t := by
  have hnone : ∀ e ∈ t.entries, e.1 ≠ k := by
    unfold node? at hfree
    rw [if_neg hne, Option.map_eq_none_iff, List.find?_eq_none] at hfree
    exact fun e he => by simpa using hfree e he
  have hself : t.entries.filter (·.1 ≠ k) = t.entries :=
    List.filter_eq_self.2 fun e he => decide_eq_true (hnone e he)
  unfold insert erase
  rw [List.filter_cons_of_neg (by simp), List.filter_filter]
  simp only [Bool.and_self, hself]

end

theorem Agree.target_eq {t t' : FileTree} {p : Path} (h : t.Agree t' p.names) :
    t.target p = t'.target p := by
  have hdir : t.Agree t' p.directory.names := by
    rw [Path.names_directory]
    exact fun k hk => h k (List.Subset.trans hk (List.dropLast_subset p.names))
  unfold target isDir
  rw [h.find_eq, hdir.lookup_eq]

theorem agree_insert {k : Key} (hne : k ≠ []) (n : Node) (names : List Text) (hk : ¬ k ⊆ names) :
    t.Agree (t.insert k n) names := by
  intro l hl
  rw [node?_insert hne, if_neg]
  rintro rfl
  exact hk hl

/-- Whether a file can be made at a key by its path, unseen from another path. -/
structure Unseen (staged : Path) (k : Key) : Prop where
  find : t.find staged = .ok (.free k)
  ne_nil : k ≠ []
  free : t.node? k = none
  not_subset : ¬ k ⊆ p.names

theorem unseen_of_stage (ht : t.Sound) (bytes : ByteArray) (staged : Path) (t' : FileTree)
    (h : t.stage p bytes = .ok (staged, t')) :
    ∃ k, t.Unseen p staged k ∧ t' = t.insert k (.file bytes stagedMode) := by
  unfold stage at h
  split at h
  · next k hk =>
    cases h
    obtain ⟨front, name, above, m, hnames, -, -, -, hspot⟩ := t.exists_of_find ht _ _ hk id
    obtain ⟨rfl, hnone⟩ := (t.spotAt_eq_free_iff _ _).1 hspot.symm
    obtain ⟨n, hfresh, hunused⟩ := t.exists_freshName p
    rw [hfresh, Path.names_child _ (plain_stagedName n)] at hnames
    obtain rfl := List.singleton_inj.1 (List.append_inj' hnames rfl).2
    refine ⟨_, ⟨hk, List.concat_ne_nil _ _, hnone, fun hsub => hunused ?_⟩, rfl⟩
    exact List.mem_append_left _ (hsub List.mem_concat_self)
  · cases h
  · cases h

/-! ## What the path of a staged file is for -/

section
variable {t p} {staged : Path} {k : Key} (h : t.Unseen p staged k) (ht : t.Sound)
  (bytes : ByteArray) (mode : Mode)

include h

theorem Unseen.agree (n : Node) : t.Agree (t.insert k n) p.names :=
  t.agree_insert h.ne_nil n p.names h.not_subset

include ht

theorem Unseen.lookup_insert :
    (t.insert k (.file bytes mode)).lookup staged = .ok (k, .file bytes mode) := by
  have hfind := t.find_mono (t.insert k (.file bytes mode)) (t.isDir_insert k h.ne_nil (t.not_isDir_of_free k h.free) _) ht
    staged _ h.find id
  refine (lookup_eq_ok_iff _ staged k _).2 (hfind.trans (congrArg _ ?_))
  rw [spotAt_eq_found_iff, node?_insert h.ne_nil]
  exact ⟨rfl, if_pos rfl⟩

theorem Unseen.setMode (m : Mode) : (t.insert k (.file bytes mode)).setMode staged m =
    .ok (t.insert k (.file bytes (Mode.mask m))) := by
  unfold FileTree.setMode
  rw [h.lookup_insert ht]
  simp only [insert_insert]

theorem Unseen.rename : (t.insert k (.file bytes mode)).rename staged p =
    (t.target p).map (t.insert · (.file bytes mode)) := by
  unfold FileTree.rename
  rw [h.lookup_insert ht, ← (h.agree _).target_eq]
  cases t.target p with
  | error fault => rfl
  | ok l => simp only [erase_insert h.ne_nil h.free, Except.map]

theorem Unseen.remove : (t.insert k (.file bytes mode)).remove staged = t := by
  unfold FileTree.remove
  rw [h.lookup_insert ht]
  exact erase_insert h.ne_nil h.free _

end

end FileTree

end Stanzas
