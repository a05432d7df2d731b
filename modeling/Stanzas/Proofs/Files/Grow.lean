import Stanzas.Proofs.Files.Fallible
import Stanzas.Proofs.Files.Find
import Stanzas.Proofs.Files.Path

/-!
# Making directories

Making the directories of a path adds directories to a tree and does nothing else, whether it comes
to an end or not, and the path passes through each of them (`growing_makeDirs`). A path that goes
up only from directories that are there leads to the same file before and after:

    t.Grows t' → t.Settled p → t'.file? p = t.file? p                               (file?_eq)

Where a path goes up from a directory that is missing, it may lead to a file only afterwards.
-/

namespace Stanzas

namespace FileTree

variable (t t' : FileTree)

/-- Whether a sound tree is another one with more directories. -/
structure Grows : Prop where
  keeps : ∀ k n, t.node? k = some n → t'.node? k = some n
  isDir : ∀ k n, t.node? k = none → t'.node? k = some n → ∃ m, n = .dir m
  sound : t'.Sound

/-- Whether a path goes up only from directories that are there. -/
def Settled (p : Path) : Prop :=
  ∃ front rest k m, p.names = front ++ rest ∧ up ∉ rest ∧ t.walk [] front = .ok (.found k (.dir m))

variable {t t'}

theorem Grows.refl (ht : t.Sound) : t.Grows t where
  keeps _ _ h := h
  isDir k n h h' := by
    rw [h] at h'
    cases h'
  sound := ht

theorem Grows.trans {t'' : FileTree} (h : t.Grows t') (h' : t'.Grows t'') : t.Grows t'' where
  keeps k n hk := h'.keeps k n (h.keeps k n hk)
  isDir k n hk hn := by
    cases hk' : t'.node? k with
    | none => exact h'.isDir k n hk' hn
    | some n' =>
      obtain ⟨m, rfl⟩ := h.isDir k n' hk hk'
      rw [h'.keeps k _ hk'] at hn
      exact ⟨m, (Option.some.inj hn).symm⟩
  sound := h'.sound

theorem Grows.isDir_of_isDir (h : t.Grows t') (k : Key) (hk : t.IsDir k) : t'.IsDir k := by
  obtain ⟨m, hm⟩ := hk
  exact ⟨m, h.keeps k _ hm⟩

theorem Grows.node?_eq_file_iff (h : t.Grows t') (k : Key) (bytes : ByteArray) (mode : Mode) :
    t'.node? k = some (.file bytes mode) ↔ t.node? k = some (.file bytes mode) := by
  refine ⟨fun hk => ?_, h.keeps k _⟩
  cases hn : t.node? k with
  | none =>
    obtain ⟨m, hm⟩ := h.isDir k _ hn hk
    cases hm
  | some n => rw [← h.keeps k n hn, hk]

/-! ## The file at a settled path -/

theorem settled_of_notMem (p : Path) (h : up ∉ p.names) : t.Settled p :=
  ⟨[], p.names, [], _, rfl, h, rfl⟩

theorem Settled.mono (ht : t.Sound) (hdirs : ∀ k, t.IsDir k → t'.IsDir k) (p : Path)
    (h : t.Settled p) : t'.Settled p := by
  obtain ⟨front, rest, k, m, hnames, hup, hfront⟩ := h
  obtain ⟨m', hm'⟩ := t.walk_dir_mono t' hdirs [] t.isDir_nil ht front k m hfront
  exact ⟨front, rest, k, m', hnames, hup, hm'⟩

/-- A path that leads to a file is settled. -/
theorem settled_of_file? (ht : t.Sound) (p : Path) (file : ByteArray × Mode)
    (h : t.file? p = some file) : t.Settled p := by
  obtain ⟨k, hk⟩ := (t.file?_eq_some_iff p file.1 file.2).1 h
  obtain ⟨front, name, k, m, hnames, hup, hfront, -, -⟩ := t.exists_of_find ht p _ hk id
  exact ⟨front, [name], k, m, hnames, by simpa using hup.symm, hfront⟩

/-- A path that leads to a file leads to it still. -/
theorem Grows.find_eq (h : t.Grows t') (ht : t.Sound) (p : Path) (k : Key) (bytes : ByteArray)
    (mode : Mode) (hk : t.find p = .ok (.found k (.file bytes mode))) :
    t'.find p = .ok (.found k (.file bytes mode)) := by
  have hnode := h.keeps k _ (t.node?_of_find ht p k _ hk)
  rw [t.find_mono t' h.isDir_of_isDir ht p _ hk id]
  exact congrArg _ ((t'.spotAt_eq_found_iff k k _).2 ⟨rfl, hnode⟩)

theorem Grows.file?_eq (h : t.Grows t') (ht : t.Sound) (p : Path) (hp : t.Settled p) :
    t'.file? p = t.file? p := by
  refine Option.ext fun ⟨bytes, mode⟩ => ?_
  rw [t'.file?_eq_some_iff, t.file?_eq_some_iff]
  constructor
  · rintro ⟨k, hk⟩
    obtain ⟨hread, hend, hw⟩ := (t'.find_eq_ok_iff p _ id).1 hk
    have hnode := (h.node?_eq_file_iff k bytes mode).1 (t'.node?_of_find h.sound p k _ hk)
    -- the way behind the settled front is one of names only, and so it is there already
    obtain ⟨front, rest, here, m, hnames, hup, hfront⟩ := hp
    obtain ⟨m', hm'⟩ := t.walk_dir_mono t' h.isDir_of_isDir [] t.isDir_nil ht front here m hfront
    rw [hnames, t'.walk_append [] front rest here m' hm'] at hw
    obtain ⟨hkey, hshort⟩ := t'.key_of_walk here rest _ _ hup hw
    rw [hkey] at hnode
    refine ⟨here ++ rest, (t.find_eq_ok_iff p _ id).2 ⟨hread, hend, ?_⟩⟩
    rw [hnames, t.walk_append [] front rest here m hfront]
    exact t.walk_of_node? here rest _ ht hup hshort hnode
  · rintro ⟨k, hk⟩
    exact ⟨k, h.find_eq ht p k bytes mode hk⟩

theorem Grows.file?_of_file? (h : t.Grows t') (ht : t.Sound) (p : Path) (file : ByteArray × Mode)
    (hfile : t.file? p = some file) : t'.file? p = some file :=
  (h.file?_eq ht p (settled_of_file? ht p file hfile)).trans hfile

/-! ## Making directories -/

/-- Whether the first of some names, any number of them, lead to the directory under a key. -/
def OnWay (t : FileTree) (names : List Text) (k : Key) : Prop :=
  ∃ front m, front <+: names ∧ t.walk [] front = .ok (.found k (.dir m))

theorem OnWay.mono (ht : t.Sound) (hdirs : ∀ k, t.IsDir k → t'.IsDir k) {names : List Text} {k : Key}
    (h : t.OnWay names k) : t'.OnWay names k := by
  obtain ⟨front, m, hfront, hwalk⟩ := h
  obtain ⟨m', hm'⟩ := t.walk_dir_mono t' hdirs [] t.isDir_nil ht front k m hwalk
  exact ⟨front, m', hfront, hm'⟩

/-- Whether a sound tree is another one with more directories, all of them on the way of names. -/
structure GrowsAlong (t t' : FileTree) (names : List Text) : Prop extends t.Grows t' where
  onWay : ∀ k n, t.node? k = none → t'.node? k = some n → t'.OnWay names k

section
variable {names : List Text}

theorem GrowsAlong.refl (ht : t.Sound) : t.GrowsAlong t names where
  toGrows := .refl ht
  onWay k n h h' := by
    rw [h] at h'
    cases h'

theorem GrowsAlong.trans {t'' : FileTree} (h : t.GrowsAlong t' names)
    (h' : t'.GrowsAlong t'' names) : t.GrowsAlong t'' names where
  toGrows := h.toGrows.trans h'.toGrows
  onWay k n hk hn := by
    cases hk' : t'.node? k with
    | none => exact h'.onWay k n hk' hn
    | some n' => exact (h.onWay k n' hk hk').mono h.sound h'.isDir_of_isDir

/-- An entry is as it was, or it is a new directory. -/
theorem GrowsAlong.node?_cases (h : t.GrowsAlong t' names) (k : Key) :
    t'.node? k = t.node? k ∨ t.node? k = none ∧ t'.OnWay names k := by
  cases hk : t.node? k with
  | some n => exact Or.inl (h.keeps k n hk)
  | none =>
    cases hk' : t'.node? k with
    | none => exact Or.inl rfl
    | some n => exact Or.inr ⟨rfl, h.onWay k n hk hk'⟩

end

theorem makeDir_eq_ok (p : Path) (h : t.makeDir p = .ok t') :
    ∃ k m, t.find p = .ok (.free k) ∧ t' = t.insert k (.dir m) := by
  unfold makeDir at h
  split at h
  · next k hk => exact ⟨k, _, hk, (Except.ok.inj h).symm⟩
  · cases h
  · cases h

theorem growsAlong_makeDir (ht : t.Sound) (p : Path) (names : List Text) (hp : p.names <+: names)
    (h : t.makeDir p = .ok t') : t.GrowsAlong t' names := by
  obtain ⟨k, m, hfind, rfl⟩ := makeDir_eq_ok p h
  obtain ⟨-, name, above, -, -, -, -, habove, hspot⟩ := t.exists_of_find ht p _ hfind id
  obtain ⟨rfl, hnone⟩ := (t.spotAt_eq_free_iff _ _).1 hspot.symm
  have hne : above ++ [name] ≠ [] := List.concat_ne_nil name above
  have hdir := t.not_isDir_of_free _ hnone
  have hkeeps := t.isDir_insert _ hne hdir (.dir m)
  refine ⟨⟨fun l n hl => ?_, fun l n hl hn => ?_, ht.insert _ _ ?_ hne hdir⟩, fun l n hl hn => ?_⟩
  · rw [node?_insert hne, if_neg, hl]
    rintro rfl
    rw [hnone] at hl
    cases hl
  · rw [node?_insert hne] at hn
    split at hn
    · exact ⟨_, (Option.some.inj hn).symm⟩
    · rw [hl] at hn
      cases hn
  · rwa [List.dropLast_concat]
  · rw [node?_insert hne] at hn
    split at hn
    · next heq =>
      subst heq
      -- the path of the new directory leads to it now
      obtain ⟨-, -, hwalk⟩ := (t.find_eq_ok_iff p _ id).1 hfind
      refine ⟨p.names, m, hp, ?_⟩
      rw [t.walk_mono _ hkeeps [] t.isDir_nil ht p.names _ hwalk id]
      refine congrArg _ ((spotAt_eq_found_iff _ _ _ _).2 ⟨rfl, ?_⟩)
      exact (node?_insert hne).trans (if_pos rfl)
    · rw [hl] at hn
      cases hn

section
variable {σ : Type} {tree : σ → FileTree} {names : List Text}

/-- Whether an action does nothing but add directories to a sound tree, on the way of names. -/
def Growing {α : Type} (tree : σ → FileTree) (names : List Text) (x : StateM σ α) : Prop :=
  ∀ s, (tree s).Sound → (tree s).GrowsAlong (tree (x.run s).2) names

theorem growing_pure {α : Type} (a : α) : Growing tree names (pure a) := fun _ hs => .refl hs

theorem Growing.bind {α β : Type} {x : StateM σ α} {f : α → StateM σ β}
    (hx : Growing tree names x) (hf : ∀ a, Growing tree names (f a)) :
    Growing tree names (x >>= f) := by
  intro s hs
  have h := hx s hs
  exact h.trans (hf _ _ h.sound)

variable [Files (StateM σ)] (hfiles : Files.Fallible tree)

include hfiles

theorem growing_isDir (p : Path) : Growing tree names (Files.isDir p) := by
  intro s hs
  rw [hfiles.isDir]
  exact .refl hs

theorem growing_makeDir (p : Path) (hp : p.names <+: names) :
    Growing tree names (Files.makeDir p) := by
  intro s hs
  cases hmake : (Files.makeDir p : StateM σ (Except Fault Unit)).run s with
  | mk made s' =>
    cases made with
    | error fault =>
      rw [(hfiles.makeDir p).tree_of_error hmake]
      exact .refl hs
    | ok _ =>
      obtain ⟨t', ht', heq⟩ := exists_of_map_eq_ok ((hfiles.makeDir p).tree_of_ok hmake)
      obtain rfl := (Prod.mk.inj heq).2
      exact growsAlong_makeDir hs p names hp ht'

theorem growing_makeWays (ways : List Path) (hways : ∀ way ∈ ways, way.names <+: names) :
    Growing tree names (makeWays ways) := by
  induction ways with
  | nil => exact growing_pure _
  | cons path above ih =>
    have hpath := growing_makeDir hfiles path (hways path List.mem_cons_self)
    -- a directory that cannot be made may be there already
    have hthere : ∀ fault, Growing tree names (do
        if ← Files.isDir path then return .ok () else return .error fault :
          StateM σ (Except Fault Unit)) := by
      refine fun fault => (growing_isDir hfiles path).bind fun there => ?_
      cases there <;> exact growing_pure _
    unfold makeWays
    refine hpath.bind fun made => ?_
    split
    · refine (ih fun way hway => hways way (List.mem_cons_of_mem _ hway)).bind fun made => ?_
      cases made with
      | error fault => exact growing_pure _
      | ok _ =>
        refine hpath.bind fun made => ?_
        cases made with
        | error fault => exact hthere fault
        | ok _ => exact growing_pure _
    · cases made with
      | error fault => exact hthere fault
      | ok _ => exact growing_pure _

/-- Making the directories of a path does so whether it comes to an end or not. -/
theorem growing_makeDirs (p : Path) : Growing tree p.names.dropLast (makeDirs p.directory) := by
  refine growing_makeWays hfiles _ fun way hway => ?_
  rw [← p.names_directory]
  exact p.directory.names_of_mem_ways way hway

end

/-- The tree once the directories that a path needs are made, as far as they can be. -/
def withDirs (t : FileTree) (p : Path) : FileTree :=
  ((makeDirs p.directory : StateM FileTree (Except Fault Unit)).run t).2

theorem growsAlong_withDirs (ht : t.Sound) (p : Path) :
    t.GrowsAlong (t.withDirs p) p.names.dropLast :=
  growing_makeDirs fallible p t ht

theorem grows_withDirs (ht : t.Sound) (p : Path) : t.Grows (t.withDirs p) :=
  (growsAlong_withDirs ht p).toGrows

end FileTree

end Stanzas
