import Stanzas.Proofs.Files.Walk

/-!
# Following paths

A path leads to a file, or to the place for one, only with its last name (`exists_of_find`), and to a
directory however it ends (`find_eq_dir_iff`). As long as the directories stay where they are it
leads to the same key (`find_mono`, `find_dir_mono`). `FileTree.file?` is the file that a path leads
to.
-/

namespace Stanzas

namespace FileTree

variable (t : FileTree)

/-! ## Paths -/

/-- Whether a text can be followed as a path. -/
def Readable (p : Path) : Prop :=
  p.text ≠ [] ∧ '\x00' ∉ p.text ∧ (utf8 p.text).size ≤ maxPath

theorem find_eq_walk (p : Path) (hread : Readable p) (hend : p.ending = .name) :
    t.find p = t.walk [] p.names := by
  obtain ⟨hempty, hnul, hlong⟩ := hread
  unfold find
  rw [if_neg hempty, if_neg hnul, if_neg (Nat.not_lt.2 hlong), hend]
  cases t.walk [] p.names with
  | error fault => rfl
  | ok spot =>
    cases spot with
    | free k => rfl
    | found k n => cases n <;> rfl

theorem readable_of_find (p : Path) (spot : Spot) (h : t.find p = .ok spot) : Readable p := by
  unfold find at h
  split at h
  · cases h
  split at h
  · cases h
  split at h
  · cases h
  next hempty hnul hlong => exact ⟨hempty, hnul, Nat.not_lt.1 hlong⟩

/-- A path leads to something that is no directory only with its last name. -/
theorem find_eq_ok_iff (p : Path) (spot : Spot) (hspot : ¬ spot.IsDir) :
    t.find p = .ok spot ↔ Readable p ∧ p.ending = .name ∧ t.walk [] p.names = .ok spot := by
  constructor
  · intro h
    obtain ⟨hempty, hnul, hlong⟩ := t.readable_of_find p spot h
    refine ⟨⟨hempty, hnul, hlong⟩, ?_⟩
    unfold find at h
    rw [if_neg hempty, if_neg hnul, if_neg (Nat.not_lt.2 hlong)] at h
    cases hw : t.walk [] p.names with
    | error fault =>
      rw [hw] at h
      cases h
    | ok found =>
      rw [hw] at h
      cases found with
      | free k => cases hend : p.ending <;> simp_all
      | found k n =>
        cases n with
        | file bytes mode => cases hend : p.ending <;> simp_all
        | dir mode => exact absurd (Except.ok.inj h ▸ trivial) hspot
  · rintro ⟨hread, hend, hw⟩
    rw [t.find_eq_walk p hread hend, hw]

/-- A path leads to a directory however it ends. -/
theorem find_eq_dir_iff (p : Path) (k : Key) (m : Mode) : t.find p = .ok (.found k (.dir m)) ↔
    Readable p ∧ t.walk [] p.names = .ok (.found k (.dir m)) := by
  constructor
  · intro h
    obtain ⟨hempty, hnul, hlong⟩ := t.readable_of_find p _ h
    refine ⟨⟨hempty, hnul, hlong⟩, ?_⟩
    unfold find at h
    rw [if_neg hempty, if_neg hnul, if_neg (Nat.not_lt.2 hlong)] at h
    split at h <;> first | exact h | cases h
  · rintro ⟨⟨hempty, hnul, hlong⟩, hw⟩
    unfold find
    rw [if_neg hempty, if_neg hnul, if_neg (Nat.not_lt.2 hlong), hw]

theorem lookup_eq_ok_iff (p : Path) (k : Key) (n : Node) :
    t.lookup p = .ok (k, n) ↔ t.find p = .ok (.found k n) := by
  unfold lookup
  cases t.find p with
  | error fault => simp
  | ok spot => cases spot <;> simp

/-- What is no directory stands in a directory, under the last name of its path. -/
theorem exists_of_find (ht : t.Sound) (p : Path) (spot : Spot) (h : t.find p = .ok spot)
    (hspot : ¬ spot.IsDir) :
    ∃ front name k m, p.names = front ++ [name] ∧ name ≠ up ∧
      t.walk [] front = .ok (.found k (.dir m)) ∧ t.IsDir k ∧ spot = t.spotAt (k ++ [name]) := by
  obtain ⟨-, -, hw⟩ := (t.find_eq_ok_iff p spot hspot).1 h
  obtain ⟨front, name, k, m, hnames, hup, -, hfront, rfl⟩ :=
    t.exists_of_walk [] p.names spot t.isDir_nil ht hw hspot
  exact ⟨front, name, k, m, hnames, hup, hfront,
    ⟨m, t.node?_of_walk_dir [] front k m ht t.isDir_nil hfront⟩, rfl⟩

/-- What a path leads to is what is under the key. -/
theorem node?_of_find (ht : t.Sound) (p : Path) (k : Key) (n : Node)
    (h : t.find p = .ok (.found k n)) : t.node? k = some n := by
  cases n with
  | dir m =>
    obtain ⟨-, hw⟩ := (t.find_eq_dir_iff p k m).1 h
    exact t.node?_of_walk_dir [] p.names k m ht t.isDir_nil hw
  | file bytes mode =>
    obtain ⟨_, _, _, _, _, _, _, _, hspot⟩ := t.exists_of_find ht p _ h id
    obtain ⟨rfl, hnode⟩ := (t.spotAt_eq_found_iff _ _ _).1 hspot.symm
    exact hnode

/-- With the same directories a path leads to the same key. -/
theorem find_mono (t' : FileTree) (hdirs : ∀ k, t.IsDir k → t'.IsDir k) (ht : t.Sound) (p : Path)
    (spot : Spot) (h : t.find p = .ok spot) (hspot : ¬ spot.IsDir) :
    t'.find p = .ok (t'.spotAt spot.key) := by
  obtain ⟨hread, hend, hw⟩ := (t.find_eq_ok_iff p spot hspot).1 h
  rw [t'.find_eq_walk p hread hend]
  exact t.walk_mono t' hdirs [] t.isDir_nil ht p.names spot hw hspot

theorem find_dir_mono (t' : FileTree) (hdirs : ∀ k, t.IsDir k → t'.IsDir k) (ht : t.Sound) (p : Path)
    (k : Key) (m : Mode) (h : t.find p = .ok (.found k (.dir m))) :
    ∃ m', t'.find p = .ok (.found k (.dir m')) := by
  obtain ⟨hread, hw⟩ := (t.find_eq_dir_iff p k m).1 h
  obtain ⟨m', hm'⟩ := t.walk_dir_mono t' hdirs [] t.isDir_nil ht p.names k m hw
  exact ⟨m', (t'.find_eq_dir_iff p k m').2 ⟨hread, hm'⟩⟩

section
variable {t} {t' : FileTree} {p : Path} (h : t.Agree t' p.names)

include h

theorem Agree.find_eq : t.find p = t'.find p := by
  unfold find
  rw [h.walk_eq [] p.names (List.nil_subset p.names) (List.Subset.refl p.names)]

theorem Agree.lookup_eq : t.lookup p = t'.lookup p := by
  unfold lookup
  rw [h.find_eq]

end

/-! ## The file at a path -/

/-- The bytes and the permission bits of the file that a path leads to. -/
def file? (p : Path) : Option (ByteArray × Mode) :=
  match t.find p with
  | .ok (.found _ (.file bytes mode)) => some (bytes, mode)
  | _ => none

theorem file?_eq_some_iff (p : Path) (bytes : ByteArray) (mode : Mode) :
    t.file? p = some (bytes, mode) ↔ ∃ k, t.find p = .ok (.found k (.file bytes mode)) := by
  unfold file?
  split
  · next k b m hfound => simp [hfound]
  · next hnone => simpa using fun k hk => hnone k bytes mode hk

theorem file?_of_find (p : Path) (k : Key) (bytes : ByteArray) (mode : Mode)
    (h : t.find p = .ok (.found k (.file bytes mode))) : t.file? p = some (bytes, mode) :=
  (t.file?_eq_some_iff p bytes mode).2 ⟨k, h⟩

end FileTree

end Stanzas
