import Mathlib.Data.List.Induction
import Stanzas.Files.Tree

/-!
# Following names

A tree is sound if every entry of it stands in a directory. Names that do not lead to a directory
lead to the last of them, in the directory that the others lead to (`exists_of_walk`), and so they
depend on two things only, the directories on the way and the entry at its end:

    t.walk here names = .ok spot → ¬ spot.IsDir → (∀ k, t.IsDir k → t'.IsDir k) →
      t'.walk here names = .ok (t'.spotAt spot.key)                                    (walk_mono)

Whatever is at other keys than those that the names make up is not seen at all (`Agree.walk_eq`).
-/

namespace Stanzas

/-- The key that a spot is at. -/
def FileTree.Spot.key : FileTree.Spot → Key
  | .found k _ => k
  | .free k => k

/-- Whether a spot is that of a directory. -/
def FileTree.Spot.IsDir : FileTree.Spot → Prop
  | .found _ (.dir _) => True
  | _ => False

namespace FileTree

/-- The name that leads one directory up. -/
def up : Text := ['.', '.']

/-- Whether a name is short enough to be looked up. -/
def Short (name : Text) : Prop := (utf8 name).size ≤ maxName

variable (t : FileTree)

/-- Whether a key is that of a directory. -/
def IsDir (k : Key) : Prop := ∃ m, t.node? k = some (.dir m)

/-- Whether every entry stands in a directory. -/
def Sound : Prop := ∀ k n, t.node? k = some n → t.IsDir k.dropLast

/-- What is found at a key. -/
def spotAt (k : Key) : Spot :=
  match t.node? k with
  | some n => .found k n
  | none => .free k

theorem isDir_nil : t.IsDir [] := ⟨t.top, if_pos rfl⟩

theorem isDir_spotAt_iff (k : Key) : (t.spotAt k).IsDir ↔ t.IsDir k := by
  unfold spotAt IsDir
  cases t.node? k with
  | none => simp [Spot.IsDir]
  | some n => cases n <;> simp [Spot.IsDir]

theorem spotAt_eq_free_iff (k l : Key) : t.spotAt k = .free l ↔ l = k ∧ t.node? k = none := by
  unfold spotAt
  cases t.node? k <;> simp [eq_comm]

theorem spotAt_eq_found_iff (k l : Key) (n : Node) :
    t.spotAt k = .found l n ↔ l = k ∧ t.node? k = some n := by
  unfold spotAt
  cases t.node? k <;> simp [eq_comm]

@[simp] theorem key_spotAt (k : Key) : (t.spotAt k).key = k := by
  unfold spotAt
  cases t.node? k <;> rfl

/-- Directories stay where an entry is made elsewhere. -/
theorem isDir_insert (k : Key) (hne : k ≠ []) (hk : ¬ t.IsDir k) (n : Node) (l : Key)
    (hl : t.IsDir l) : (t.insert k n).IsDir l := by
  obtain ⟨m, hm⟩ := hl
  refine ⟨m, ?_⟩
  rw [node?_insert hne, if_neg, hm]
  rintro rfl
  exact hk ⟨m, hm⟩

/-- Directories stay where an entry goes elsewhere. -/
theorem isDir_erase (k : Key) (hne : k ≠ []) (hk : ¬ t.IsDir k) (l : Key) (hl : t.IsDir l) :
    (t.erase k).IsDir l := by
  obtain ⟨m, hm⟩ := hl
  refine ⟨m, ?_⟩
  rw [node?_erase hne, if_neg, hm]
  rintro rfl
  exact hk ⟨m, hm⟩

theorem not_isDir_of_free (k : Key) (h : t.node? k = none) : ¬ t.IsDir k := by
  rintro ⟨m, hm⟩
  rw [h] at hm
  cases hm

theorem not_isDir_of_file (k : Key) (bytes : ByteArray) (mode : Mode)
    (h : t.node? k = some (.file bytes mode)) : ¬ t.IsDir k := by
  rintro ⟨m, hm⟩
  rw [h] at hm
  cases hm

/-! ## Sound trees -/

theorem sound_empty : ({} : FileTree).Sound := by
  intro k n hk
  unfold node? at hk
  split at hk
  · next hnil => exact hnil ▸ isDir_nil _
  · cases hk

/-- A tree with one file in it. -/
def ofFile (name : Text) (bytes : ByteArray) (mode : Mode) : FileTree :=
  insert {} [name] (.file bytes mode)

section
variable {t} (ht : t.Sound)

include ht

/-- Whatever leads to an entry is a directory. -/
theorem Sound.isDir_of_append (k rest : Key) (n : Node) (h : t.node? (k ++ rest) = some n)
    (hne : rest ≠ []) : t.IsDir k := by
  induction rest using List.reverseRecOn generalizing n with
  | nil => exact absurd rfl hne
  | append_singleton rest name ih =>
    have hdir := ht _ n h
    rw [← List.append_assoc, List.dropLast_concat] at hdir
    by_cases hrest : rest = []
    · rwa [hrest, List.append_nil] at hdir
    · obtain ⟨m, hm⟩ := hdir
      exact ih _ hm hrest

theorem Sound.isDir_dropLast (k : Key) (h : t.IsDir k) : t.IsDir k.dropLast := by
  obtain ⟨m, hm⟩ := h
  exact ht k _ hm

/-- An entry may be made in a directory, where there is no directory yet. -/
theorem Sound.insert (k : Key) (n : Node) (hparent : t.IsDir k.dropLast) (hne : k ≠ [])
    (hk : ¬ t.IsDir k) : (t.insert k n).Sound := by
  intro l n' hl
  rw [node?_insert hne] at hl
  split at hl
  · next heq => exact heq ▸ t.isDir_insert k hne hk n _ hparent
  · exact t.isDir_insert k hne hk n _ (ht l n' hl)

theorem Sound.erase (k : Key) (hne : k ≠ []) (hk : ¬ t.IsDir k) : (t.erase k).Sound := by
  intro l n hl
  rw [node?_erase hne] at hl
  split at hl
  · cases hl
  · exact t.isDir_erase k hne hk _ (ht l n hl)

end

theorem sound_ofFile (name : Text) (bytes : ByteArray) (mode : Mode) :
    (ofFile name bytes mode).Sound :=
  sound_empty.insert [name] _ (isDir_nil _) (List.cons_ne_nil name [])
    (not_isDir_of_free _ [name] rfl)

/-! ## Walks -/

theorem walk_up (here : Key) (rest : List Text) :
    t.walk here (up :: rest) = t.walk here.dropLast rest := by
  conv_lhs => unfold walk
  exact if_pos rfl

theorem walk_cons_of_isDir (here : Key) (name : Text) (rest : List Text) (hup : name ≠ up)
    (hshort : Short name) (hdir : t.IsDir (here ++ [name])) :
    t.walk here (name :: rest) = t.walk (here ++ [name]) rest := by
  obtain ⟨m, hm⟩ := hdir
  conv_lhs => unfold walk
  rw [if_neg (show name ≠ ['.', '.'] from hup), if_neg (Nat.not_lt.2 hshort), hm]

theorem walk_singleton (here : Key) (name : Text) (hup : name ≠ up) (hshort : Short name) :
    t.walk here [name] = .ok (t.spotAt (here ++ [name])) := by
  unfold walk spotAt
  rw [if_neg (show name ≠ ['.', '.'] from hup), if_neg (Nat.not_lt.2 hshort)]
  cases hn : t.node? (here ++ [name]) with
  | none => rfl
  | some n =>
    cases n with
    | file bytes mode => rfl
    | dir mode =>
      show t.walk _ [] = _
      rw [walk, hn]
      rfl

/-- One step of a walk that does not fail: up, or to the end, or into a directory. -/
theorem walk_cons_eq_ok (here : Key) (name : Text) (rest : List Text) (spot : Spot)
    (h : t.walk here (name :: rest) = .ok spot) :
    (name = up ∧ t.walk here.dropLast rest = .ok spot) ∨
      (name ≠ up ∧ Short name ∧
        (rest = [] ∧ ¬ t.IsDir (here ++ [name]) ∧ spot = t.spotAt (here ++ [name]) ∨
          t.IsDir (here ++ [name]) ∧ t.walk (here ++ [name]) rest = .ok spot)) := by
  by_cases hup : name = up
  · rw [hup, walk_up] at h
    exact Or.inl ⟨hup, h⟩
  by_cases hshort : Short name
  · refine Or.inr ⟨hup, hshort, ?_⟩
    by_cases hdir : t.IsDir (here ++ [name])
    · rw [t.walk_cons_of_isDir here name rest hup hshort hdir] at h
      exact Or.inr ⟨hdir, h⟩
    · cases rest with
      | nil =>
        rw [t.walk_singleton here name hup hshort] at h
        exact Or.inl ⟨rfl, hdir, (Except.ok.inj h).symm⟩
      | cons next rest =>
        unfold walk at h
        rw [if_neg (show name ≠ ['.', '.'] from hup), if_neg (Nat.not_lt.2 hshort)] at h
        cases hn : t.node? (here ++ [name]) with
        | none =>
          rw [hn] at h
          cases h
        | some n =>
          cases n with
          | dir m => exact absurd ⟨m, hn⟩ hdir
          | file bytes m =>
            rw [hn] at h
            cases h
  · unfold walk at h
    rw [if_neg (show name ≠ ['.', '.'] from hup), if_pos (Nat.lt_of_not_le hshort)] at h
    cases h

/-- One step of a walk to a directory: up, or into a directory. -/
theorem walk_cons_eq_dir (here : Key) (name : Text) (rest : List Text) (k : Key) (m : Mode)
    (h : t.walk here (name :: rest) = .ok (.found k (.dir m))) :
    (name = up ∧ t.walk here.dropLast rest = .ok (.found k (.dir m))) ∨
      (name ≠ up ∧ Short name ∧ t.IsDir (here ++ [name]) ∧
        t.walk (here ++ [name]) rest = .ok (.found k (.dir m))) := by
  rcases t.walk_cons_eq_ok here name rest _ h with
    hw | ⟨hup, hshort, ⟨-, hdir, hspot⟩ | ⟨hdir, hw⟩⟩
  · exact Or.inl hw
  · rw [← t.isDir_spotAt_iff, ← hspot] at hdir
    exact absurd trivial hdir
  · exact Or.inr ⟨hup, hshort, hdir, hw⟩

/-- A walk goes on from the directory that its first names lead to. -/
theorem walk_append (here : Key) (front rest : List Text) (k : Key) (m : Mode)
    (h : t.walk here front = .ok (.found k (.dir m))) :
    t.walk here (front ++ rest) = t.walk k rest := by
  induction front generalizing here with
  | nil =>
    rw [walk] at h
    obtain ⟨rfl, -⟩ := Spot.found.inj (Except.ok.inj h)
    rfl
  | cons name front ih =>
    rw [List.cons_append]
    rcases t.walk_cons_eq_dir here name front k m h with ⟨rfl, hw⟩ | ⟨hup, hshort, hdir, hw⟩
    · rw [walk_up, ih _ hw]
    · rw [t.walk_cons_of_isDir here name _ hup hshort hdir, ih _ hw]

/-- What is no directory stands under its last name in the directory that the others lead to. -/
theorem exists_of_walk (here : Key) (names : List Text) (spot : Spot) (hhere : t.IsDir here)
    (ht : t.Sound) (h : t.walk here names = .ok spot) (hspot : ¬ spot.IsDir) :
    ∃ front name k m, names = front ++ [name] ∧ name ≠ up ∧ Short name ∧
      t.walk here front = .ok (.found k (.dir m)) ∧ spot = t.spotAt (k ++ [name]) := by
  induction names generalizing here with
  | nil =>
    rw [walk] at h
    obtain ⟨m, hm⟩ := hhere
    rw [hm] at h
    cases h
    exact absurd trivial hspot
  | cons name names ih =>
    rcases t.walk_cons_eq_ok here name names _ h with
      ⟨rfl, hw⟩ | ⟨hup, hshort, ⟨rfl, hdir, hspot'⟩ | ⟨hdir, hw⟩⟩
    · obtain ⟨front, last, k, m, rfl, hup, hshort, hfront, hspot'⟩ :=
        ih _ (ht.isDir_dropLast _ hhere) hw
      exact ⟨up :: front, last, k, m, rfl, hup, hshort, by rw [walk_up, hfront], hspot'⟩
    · obtain ⟨m, hm⟩ := hhere
      exact ⟨[], name, here, m, rfl, hup, hshort, by rw [walk, hm]; rfl, hspot'⟩
    · obtain ⟨front, last, k, m, rfl, hup', hshort', hfront, hspot'⟩ := ih _ hdir hw
      refine ⟨name :: front, last, k, m, rfl, hup', hshort', ?_, hspot'⟩
      rw [t.walk_cons_of_isDir here name front hup hshort hdir, hfront]

/-- The directory that a walk ends in is found with its bits. -/
theorem node?_of_walk_dir (here : Key) (names : List Text) (k : Key) (m : Mode) (ht : t.Sound)
    (hhere : t.IsDir here) (h : t.walk here names = .ok (.found k (.dir m))) :
    t.node? k = some (.dir m) := by
  induction names generalizing here with
  | nil =>
    obtain ⟨m', hm'⟩ := hhere
    rw [walk, hm'] at h
    cases h
    exact hm'
  | cons name names ih =>
    rcases t.walk_cons_eq_dir here name names k m h with ⟨-, hw⟩ | ⟨-, -, hdir, hw⟩
    · exact ih _ (ht.isDir_dropLast _ hhere) hw
    · exact ih _ hdir hw

/-! ## Walks in another tree -/

section
variable (t' : FileTree) (hdirs : ∀ k, t.IsDir k → t'.IsDir k) (here : Key) (hhere : t.IsDir here)
  (ht : t.Sound) (names : List Text)

include hdirs hhere ht

theorem walk_dir_mono (k : Key) (m : Mode) (h : t.walk here names = .ok (.found k (.dir m))) :
    ∃ m', t'.walk here names = .ok (.found k (.dir m')) := by
  induction names generalizing here with
  | nil =>
    rw [walk] at h
    obtain ⟨rfl, -⟩ := Spot.found.inj (Except.ok.inj h)
    obtain ⟨m', hm'⟩ := hdirs here hhere
    exact ⟨m', by rw [walk, hm']; rfl⟩
  | cons name names ih =>
    rcases t.walk_cons_eq_dir here name names k m h with ⟨rfl, hw⟩ | ⟨hup, hshort, hdir, hw⟩
    · obtain ⟨m', hm'⟩ := ih _ (ht.isDir_dropLast _ hhere) hw
      exact ⟨m', by rw [walk_up, hm']⟩
    · obtain ⟨m', hm'⟩ := ih _ hdir hw
      exact ⟨m', by rw [t'.walk_cons_of_isDir here name names hup hshort (hdirs _ hdir), hm']⟩

/-- With the same directories a walk ends at the same key. -/
theorem walk_mono (spot : Spot) (h : t.walk here names = .ok spot) (hspot : ¬ spot.IsDir) :
    t'.walk here names = .ok (t'.spotAt spot.key) := by
  obtain ⟨front, name, k, m, rfl, hup, hshort, hfront, rfl⟩ :=
    t.exists_of_walk here names spot hhere ht h hspot
  obtain ⟨m', hm'⟩ := t.walk_dir_mono t' hdirs here hhere ht front k m hfront
  rw [t'.walk_append here front [name] k m' hm', t'.walk_singleton k name hup hshort, key_spotAt]

end

/-! ## Names without a way up -/

/-- Such names are the way itself. -/
theorem key_of_walk (here : Key) (names : List Text) (k : Key) (n : Node) (hup : up ∉ names)
    (h : t.walk here names = .ok (.found k n)) : k = here ++ names ∧ ∀ name ∈ names, Short name := by
  induction names generalizing here with
  | nil =>
    rw [walk] at h
    obtain ⟨rfl, -⟩ := Spot.found.inj (Except.ok.inj h)
    exact ⟨(List.append_nil _).symm, fun name hname => absurd hname List.not_mem_nil⟩
  | cons name names ih =>
    have hnames : up ∉ names := fun hm => hup (List.mem_cons_of_mem _ hm)
    rcases t.walk_cons_eq_ok here name names _ h with
      ⟨rfl, -⟩ | ⟨-, hshort, ⟨rfl, -, hspot⟩ | ⟨-, hw⟩⟩
    · exact absurd List.mem_cons_self hup
    · unfold spotAt at hspot
      split at hspot
      · cases hspot
        exact ⟨rfl, by simpa using hshort⟩
      · cases hspot
    · obtain ⟨rfl, hall⟩ := ih _ hnames hw
      refine ⟨by simp, ?_⟩
      intro other hother
      rcases List.mem_cons.1 hother with rfl | hother
      · exact hshort
      · exact hall other hother

theorem walk_of_node? (here : Key) (names : List Text) (n : Node) (ht : t.Sound) (hup : up ∉ names)
    (hshort : ∀ name ∈ names, Short name) (h : t.node? (here ++ names) = some n) :
    t.walk here names = .ok (.found (here ++ names) n) := by
  induction names generalizing here with
  | nil =>
    rw [List.append_nil] at h ⊢
    rw [walk, h]
    rfl
  | cons name names ih =>
    have hname : name ≠ up := fun he => hup (he ▸ List.mem_cons_self)
    have hlast := hshort name List.mem_cons_self
    rw [List.append_cons] at h ⊢
    cases names with
    | nil =>
      rw [List.append_nil] at h ⊢
      rw [t.walk_singleton here name hname hlast]
      unfold spotAt
      rw [h]
    | cons next names =>
      have hdir := ht.isDir_of_append _ _ n h (List.cons_ne_nil _ _)
      rw [t.walk_cons_of_isDir here name _ hname hlast hdir]
      exact ih _ (fun hm => hup (List.mem_cons_of_mem _ hm))
        (fun other hother => hshort other (List.mem_cons_of_mem _ hother)) h

/-! ## What a walk depends on -/

/-- Whether two trees have the same at all keys that are made of some names. -/
def Agree (t' : FileTree) (names : List Text) : Prop := ∀ k : Key, k ⊆ names → t.node? k = t'.node? k

/-- A walk sees nothing but the keys that its names make up. -/
theorem Agree.walk_eq {t t' : FileTree} {used : List Text} (h : t.Agree t' used) (here : Key)
    (names : List Text) (hhere : here ⊆ used) (hnames : names ⊆ used) :
    t.walk here names = t'.walk here names := by
  induction names generalizing here with
  | nil => rw [walk, walk, h here hhere]
  | cons name names ih =>
    obtain ⟨hname, hrest⟩ := List.cons_subset.1 hnames
    have hnext : here ++ [name] ⊆ used :=
      List.append_subset.2 ⟨hhere, List.cons_subset.2 ⟨hname, List.nil_subset used⟩⟩
    unfold walk
    rw [← h _ hnext, ih _ (List.Subset.trans (List.dropLast_subset here) hhere) hrest]
    cases t.node? (here ++ [name]) with
    | none => cases names <;> rfl
    | some n =>
      cases n with
      | file bytes mode => cases names <;> rfl
      | dir mode => simp only [ih _ hnext hrest]

end FileTree

end Stanzas
