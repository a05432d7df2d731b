import Stanzas.Files.Tree

/-!
# Operations that may fail

On a tree an operation fails only where the tree does not allow it. Elsewhere any operation may fail,
and the tree does not tell why. What counts is that it has had no effect then:

    Acts tree f x → x.run s = (.error fault, s') → tree s' = tree s                (Acts.tree_of_error)

A file system whose operations are of this kind (`Files.Fallible`) goes through states, each of which
has a tree. One is the tree itself, and another one is a tree with the faults that are to come
(`FaultyTree`).
-/

namespace Stanzas

theorem exists_of_map_eq_ok {ε α β : Type} {g : α → β} {x : Except ε α} {b : β}
    (h : x.map g = .ok b) : ∃ a, x = .ok a ∧ g a = b := by
  cases x with
  | error e => cases h
  | ok a => exact ⟨a, rfl, Except.ok.inj h⟩

section
variable {σ α : Type}

/-- Whether an operation does to the tree of a state what `f` does, or fails without any effect. -/
def Acts (tree : σ → FileTree) (f : FileTree → Except Fault (α × FileTree))
    (x : StateM σ (Except Fault α)) : Prop :=
  ∀ s result s', x.run s = (result, s') →
    (∃ a, result = .ok a ∧ f (tree s) = .ok (a, tree s')) ∨
      (∃ fault, result = .error fault) ∧ tree s' = tree s

variable {tree : σ → FileTree} {f : FileTree → Except Fault (α × FileTree)}
  {x : StateM σ (Except Fault α)} {s s' : σ}

theorem Acts.tree_of_ok (h : Acts tree f x) {a : α} (hx : x.run s = (.ok a, s')) :
    f (tree s) = .ok (a, tree s') := by
  rcases h s _ s' hx with ⟨b, hb, hf⟩ | ⟨⟨fault, hfault⟩, -⟩
  · rwa [Except.ok.inj hb]
  · cases hfault

theorem Acts.tree_of_error (h : Acts tree f x) {fault : Fault} (hx : x.run s = (.error fault, s')) :
    tree s' = tree s := by
  rcases h s _ s' hx with ⟨a, ha, -⟩ | ⟨-, hsame⟩
  · cases ha
  · exact hsame

/-- To look at a tree leaves it as it is. -/
theorem Acts.tree_of_look {g : FileTree → Except Fault α}
    (h : Acts tree (fun t => (g t).map (·, t)) x) (s : σ) : tree (x.run s).2 = tree s := by
  rcases h s _ _ rfl with ⟨a, -, hg⟩ | ⟨-, hsame⟩
  · obtain ⟨b, -, hb⟩ := exists_of_map_eq_ok hg
    exact (Prod.mk.inj hb).2.symm
  · exact hsame

end

/-- Whether the operations on files act on the trees of the states, each of them so that it may fail
without any effect. A staged file is always removed. -/
structure Files.Fallible {σ : Type} [Files (StateM σ)] (tree : σ → FileTree) : Prop where
  read : ∀ p, Acts tree (fun t => (t.read p).map (·, t)) (Files.read p)
  mode : ∀ p, Acts tree (fun t => ((t.mode p).map some).map (·, t)) (Files.mode p)
  /-- The look at a directory may come to nothing too, and then there seems to be none. -/
  isDir : ∀ (p : Path) (s : σ), tree ((Files.isDir p : StateM σ Bool).run s).2 = tree s
  makeDir : ∀ p, Acts tree (fun t => (t.makeDir p).map ((), ·)) (Files.makeDir p)
  stage : ∀ p bytes, Acts tree (fun t => t.stage p bytes) (Files.stage p bytes)
  setMode : ∀ p m, Acts tree (fun t => (t.setMode p m).map ((), ·)) (Files.setMode p m)
  rename : ∀ src dst, Acts tree (fun t => (t.rename src dst).map ((), ·)) (Files.rename src dst)
  remove : ∀ (p : Path) (s : σ),
    tree ((Files.remove p : StateM σ Unit).run s).2 = (tree s).remove p
  copy : ∀ src dst, Acts tree (fun t => (t.copy src dst).map ((), ·)) (Files.copy src dst)

/-! ## Trees -/

section
variable {α : Type}

theorem acts_onTree (f : FileTree → Except Fault (α × FileTree)) :
    Acts (fun t : FileTree => t) f (onTree f) := by
  intro t result t' h
  change onTree f t = (result, t') at h
  unfold onTree at h
  split at h
  · next a t₁ ha =>
    cases h
    exact Or.inl ⟨a, rfl, ha⟩
  · next fault _ =>
    cases h
    exact Or.inr ⟨⟨fault, rfl⟩, rfl⟩

theorem acts_look (g : FileTree → Except Fault α) :
    Acts (fun t : FileTree => t) (fun t => (g t).map (·, t)) (fun t => (g t, t)) := by
  intro t result t' h
  cases h
  dsimp only
  cases g t with
  | error fault => exact Or.inr ⟨⟨fault, rfl⟩, rfl⟩
  | ok a => exact Or.inl ⟨a, rfl, rfl⟩

end

theorem FileTree.fallible : Files.Fallible fun t : FileTree => t where
  read _ := acts_look _
  mode _ := acts_look _
  isDir _ _ := rfl
  makeDir _ := acts_onTree _
  stage _ _ := acts_onTree _
  setMode _ _ := acts_onTree _
  rename _ _ := acts_onTree _
  remove _ _ := rfl
  copy _ _ := acts_onTree _

/-! ## Trees with faults -/

/-- A tree, and for each of the next operations the fault that it is to fail with, if it is to. -/
structure FaultyTree where
  tree : FileTree
  faults : List (Option Fault)

namespace FaultyTree

/-- A tree on which one operation fails, after `n` others. -/
def failing (t : FileTree) (n : Nat) (fault : Fault) : FaultyTree :=
  ⟨t, List.replicate n none ++ [some fault]⟩

/-- Carries out the next operation, unless it is to fail. -/
def attempt {α : Type} (x : StateM FileTree (Except Fault α)) :
    StateM FaultyTree (Except Fault α) := fun s =>
  match s.faults.head?.join with
  | some fault => (.error fault, { s with faults := s.faults.tail })
  | none => ((x.run s.tree).1, ⟨(x.run s.tree).2, s.faults.tail⟩)

instance : Files (StateM FaultyTree) where
  read p := attempt (Files.read p)
  mode p := attempt (Files.mode p)
  isDir p := fun s => (s.tree.isDir p, s)
  makeDir p := attempt (Files.makeDir p)
  stage p bytes := attempt (Files.stage p bytes)
  setMode p m := attempt (Files.setMode p m)
  rename src dst := attempt (Files.rename src dst)
  remove p := fun s => ((), { s with tree := s.tree.remove p })
  copy src dst := attempt (Files.copy src dst)

theorem acts_attempt {α : Type} {f : FileTree → Except Fault (α × FileTree)}
    {x : StateM FileTree (Except Fault α)} (h : Acts (fun t => t) f x) : Acts tree f (attempt x) := by
  intro s result s' hx
  change attempt x s = (result, s') at hx
  unfold attempt at hx
  split at hx
  · next fault _ =>
    cases hx
    exact Or.inr ⟨⟨fault, rfl⟩, rfl⟩
  · cases hx
    exact h s.tree _ _ rfl

theorem fallible : Files.Fallible tree where
  read p := acts_attempt (FileTree.fallible.read p)
  mode p := acts_attempt (FileTree.fallible.mode p)
  isDir _ _ := rfl
  makeDir p := acts_attempt (FileTree.fallible.makeDir p)
  stage p bytes := acts_attempt (FileTree.fallible.stage p bytes)
  setMode p m := acts_attempt (FileTree.fallible.setMode p m)
  rename src dst := acts_attempt (FileTree.fallible.rename src dst)
  remove _ _ := rfl
  copy src dst := acts_attempt (FileTree.fallible.copy src dst)

end FaultyTree

end Stanzas
