import Stanzas.Proofs.Destination

/-!
# Texts that cannot be replaced

Replacing a text can fail at each of its steps, on a tree because of what is there and elsewhere for
any reason (`Files.Fallible`). Until the staged file is moved nothing but this file has changed, and
it goes again. So all that is left are the directories that have been made:

    (p.replaceText text base mode).run.run s = (.error failure, s') →
      (tree s).GrowsAlong (tree s') p.names.dropLast           (growsAlong_of_replaceText_eq_error)
-/

namespace Stanzas

variable {σ : Type} [Files (StateM σ)] {tree : σ → FileTree} (hfiles : Files.Fallible tree)

/-! ## Looking at files -/

section
include hfiles

theorem tree_run_readText (p : Path) (create : Bool) (s : σ) :
    tree ((p.readText create : ExceptT Failure (StateM σ) Text).run.run s).2 = tree s := by
  refine Eq.trans ?_ ((hfiles.read p).tree_of_look s)
  unfold Path.readText
  rw [run_run_lift_bind]
  cases ((Files.read p : StateM σ (Except Fault ByteArray)).run s).1 with
  | error fault => cases fault <;> cases create <;> rfl
  | ok bytes =>
    dsimp only
    cases ofUTF8? bytes <;> rfl

theorem tree_run_isThere (p : Path) (s : σ) :
    tree ((p.isThere : StateM σ Bool).run s).2 = tree s := by
  refine Eq.trans ?_ ((hfiles.mode p).tree_of_look s)
  unfold Path.isThere
  rw [StateT.run_bind]
  cases (Files.mode p : StateM σ (Except Fault (Option Mode))).run s with
  | mk bits s' => cases bits <;> rfl

theorem tree_run_modeDiffers (p : Path) (mode : Mode) (s : σ) :
    tree ((p.modeDiffers mode : ExceptT Failure (StateM σ) Bool).run.run s).2 = tree s := by
  refine Eq.trans ?_ ((hfiles.mode p).tree_of_look s)
  unfold Path.modeDiffers
  rw [run_run_bind, run_run_orFail]
  cases (Files.mode p : StateM σ (Except Fault (Option Mode))).run s with
  | mk bits s' => cases bits <;> rfl

theorem tree_run_bitsFor (p : Path) (mode : Option Mode) (s : σ) :
    tree ((p.bitsFor mode : StateM σ (Option Mode)).run s).2 = tree s := by
  unfold Path.bitsFor
  cases mode with
  | some mode => rfl
  | none =>
    refine Eq.trans ?_ ((hfiles.mode p).tree_of_look s)
    dsimp only
    rw [StateT.run_bind]
    cases (Files.mode p : StateM σ (Except Fault (Option Mode))).run s with
    | mk bits s' => cases bits <;> rfl

end

/-! ## The staged file -/

section
variable {p staged : Path} {t : FileTree} {k : Key} (hk : t.Unseen p staged k) (ht : t.Sound)
  {bytes : ByteArray} {base : Digest} {mode : Option Mode} {s s' : σ} {failure : Failure}

include hfiles hk ht

theorem exists_of_setMode_staged {m m' : Mode} {result : Except Failure Unit}
    (hs : tree s = t.insert k (.file bytes m))
    (h : (orFail (.write p) (Files.setMode staged m') : ExceptT Failure (StateM σ) Unit).run.run s =
      (result, s')) : ∃ m, tree s' = t.insert k (.file bytes m) := by
  cases result with
  | error failure =>
    obtain ⟨fault, hset⟩ := error_of_run_orFail _ h
    exact ⟨m, ((hfiles.setMode staged m').tree_of_error hset).trans hs⟩
  | ok _ =>
    have hset := (hfiles.setMode staged m').tree_of_ok (ok_of_run_orFail _ h)
    obtain ⟨t', ht', heq⟩ := exists_of_map_eq_ok hset
    rw [hs, hk.setMode ht] at ht'
    obtain rfl := Except.ok.inj ht'
    exact ⟨_, (Prod.mk.inj heq).2.symm⟩

/-- A staged file that does not come to its place is all there is, perhaps with other bits. -/
theorem exists_of_settle_eq_error {m : Mode} (hs : tree s = t.insert k (.file bytes m))
    (h : (p.settle staged base mode : ExceptT Failure (StateM σ) Unit).run.run s =
      (.error failure, s')) : ∃ m, tree s' = t.insert k (.file bytes m) := by
  unfold Path.settle at h
  have hread := tree_run_readText hfiles p true s
  rcases error_of_run_bind _ _ _ h with herror | ⟨now, s₁, hnow, h⟩
  · rw [herror] at hread
    exact ⟨m, hread.trans hs⟩
  rw [hnow] at hread
  have hs₁ : tree s₁ = t.insert k (.file bytes m) := hread.trans hs
  by_cases hbase : Digest.ofText now = base
  · rw [if_neg (not_not.2 hbase), run_run_lift_bind] at h
    have hs₂ := (tree_run_bitsFor hfiles p mode s₁).trans hs₁
    generalize ((p.bitsFor mode : StateM σ (Option Mode)).run s₁).2 = s₂ at h hs₂
    -- up to the move the staged file may have got other bits, and a move that fails has no effect
    have hmove : ∀ s₃, (∃ m, tree s₃ = t.insert k (.file bytes m)) →
        (orFail (.write p) (Files.rename staged p) : ExceptT Failure (StateM σ) Unit).run.run s₃ =
          (.error failure, s') → ∃ m, tree s' = t.insert k (.file bytes m) := by
      rintro s₃ ⟨m₃, hs₃⟩ hrename
      obtain ⟨fault, hrename⟩ := error_of_run_orFail _ hrename
      exact ⟨m₃, ((hfiles.rename staged p).tree_of_error hrename).trans hs₃⟩
    cases hbits : ((p.bitsFor mode : StateM σ (Option Mode)).run s₁).1 with
    | none =>
      rw [hbits] at h
      exact hmove s₂ ⟨m, hs₂⟩ h
    | some m' =>
      rw [hbits] at h
      rcases error_of_run_bind _ _ _ h with herror | ⟨_, s₃, hset, h⟩
      · exact exists_of_setMode_staged hfiles hk ht hs₂ herror
      · exact hmove s₃ (exists_of_setMode_staged hfiles hk ht hs₂ hset) h
  · rw [if_pos hbase] at h
    cases h
    exact ⟨m, hs₁⟩

end

/-! ## The whole -/

section
include hfiles

theorem growsAlong_of_replaceText_eq_error {p : Path} {text : Text} {base : Digest}
    {mode : Option Mode} {s s' : σ} {failure : Failure} (hs : (tree s).Sound)
    (h : (p.replaceText text base mode : ExceptT Failure (StateM σ) Unit).run.run s =
      (.error failure, s')) : (tree s).GrowsAlong (tree s') p.names.dropLast := by
  unfold Path.replaceText at h
  have hgrows := FileTree.growing_makeDirs hfiles p s hs
  rcases error_of_run_bind _ _ _ h with herror | ⟨_, s₁, hmade, h⟩
  · obtain ⟨fault, herror⟩ := error_of_run_orFail _ herror
    rwa [herror] at hgrows
  rw [ok_of_run_orFail _ hmade] at hgrows
  rcases error_of_run_bind _ _ _ h with herror | ⟨staged, s₂, hstage, h⟩
  · obtain ⟨fault, herror⟩ := error_of_run_orFail _ herror
    rwa [(hfiles.stage p (utf8 text)).tree_of_error herror]
  obtain ⟨k, hk, hs₂⟩ := (tree s₁).unseen_of_stage p hgrows.sound (utf8 text) staged (tree s₂)
    ((hfiles.stage p (utf8 text)).tree_of_ok (ok_of_run_orFail _ hstage))
  rw [run_run_tryCatch] at h
  cases hsettle : (p.settle staged base mode : ExceptT Failure (StateM σ) Unit).run.run s₂ with
  | mk result s₃ =>
    rw [hsettle] at h
    cases result with
    | ok _ => cases h
    | error _ =>
      obtain ⟨m, hs₃⟩ := exists_of_settle_eq_error hfiles hk hgrows.sound hs₂ hsettle
      dsimp only at h
      rw [run_run_lift_bind] at h
      have hs' := (Prod.mk.inj h).2
      rw [← hs']
      -- the staged file goes, and with it the last trace
      show (tree s).GrowsAlong (tree ((Files.remove staged : StateM σ Unit).run s₃).2) _
      rwa [hfiles.remove, hs₃, hk.remove hgrows.sound]

end

end Stanzas
