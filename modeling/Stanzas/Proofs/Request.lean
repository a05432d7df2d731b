import Stanzas.Proofs.Destination.Failed
import Stanzas.Proofs.Edit
import Stanzas.Proofs.Files.Copy
import Stanzas.Proofs.Request.Quiet

/-!
# How requests end

A request on a tree succeeds in one of four ways, and each of them says what is reported and what has
become of the tree (`Request.Succeeds`):

    carryOut (r.run tag) t = (.ok report, t') → r.Succeeds tag t report t'       (succeeds_of_run)

A request that fails has done nothing, or all that is left to do is to write the new text
(`fails_of_run`). This is so wherever operations on files may fail. What else is said about requests
comes from a look at these two.
-/

namespace Stanzas

/-- What an edit of a text comes to. -/
def Request.outcome (r : Request) (before : Text) : Outcome := r.intent.apply r.style before

/-- A request that a stanza is in a file. -/
def Request.addStanza (p : Path) (name : Text) : Request where
  path := p
  intent :=
    { scope := .stanza name, attr := none, values := [], presence := .present, exclusive := true,
      allowNoValue := false }

/-- The request with a copy of the file kept. -/
def Request.keeping (r : Request) : Request := { r with backup := true }

namespace Request

variable (r : Request) (tag : Text) (t : FileTree)

/-- The copy that is made of a file, if one is made, and the tree with it. -/
inductive Keeps : Option Path → FileTree → Prop
  | nothing : Keeps none t
  | copy {k : Key} {bytes : ByteArray} {mode : Mode} {spot : FileTree.Spot}
      (hbackup : r.backup = true) (hfile : t.find r.path = .ok (.found k (.file bytes mode)))
      (hplace : t.find (r.path.backup tag) = .ok spot) (hspot : ¬ spot.IsDir) :
      Keeps (some (r.path.backup tag))
        (t.insert spot.key (.file bytes (FileTree.copyMode bytes mode)))

/-- The ways in which a request can succeed: the report, and the tree then. -/
inductive Succeeds : Report → FileTree → Prop
  /-- The text stays, and so do the bits. -/
  | held {before : Text} (hread : t.textAt r.path r.create = .ok before)
      (hsame : (r.outcome before).changed = false)
      (hbits : ∀ mode bits, r.mode = some mode → t.mode r.path = .ok bits → bits = mode) :
      Succeeds { r.report before (r.outcome before) with changed := false } t
  /-- The text stays, and the bits are not those that are asked for. -/
  | adjusted {before : Text} {k : Key} {bytes : ByteArray} {bits mode : Mode}
      (hread : t.textAt r.path r.create = .ok before) (hsame : (r.outcome before).changed = false)
      (hmode : r.mode = some mode) (hfile : t.find r.path = .ok (.found k (.file bytes bits)))
      (hbits : Mode.mask bits ≠ mode) :
      Succeeds { r.report before (r.outcome before) with changed := true }
        (if r.check then t else t.insert k (.file bytes (Mode.mask mode)))
  /-- The text would be another one. -/
  | checked {before : Text} (hread : t.textAt r.path r.create = .ok before)
      (hchanged : (r.outcome before).changed = true) (hcheck : r.check = true) :
      Succeeds (r.report before (r.outcome before)) t
  /-- The new text is written. -/
  | written {before : Text} {backup : Option Path} {kept t' : FileTree}
      (hread : t.textAt r.path r.create = .ok before)
      (hchanged : (r.outcome before).changed = true) (hcheck : r.check = false)
      (hkept : r.Keeps tag t backup kept)
      (hnone : backup = none → r.backup = true → t.file? r.path = none)
      (hwrite : carryOut (r.path.replaceText (r.outcome before).text (r.outcome before).base r.mode)
        kept = (.ok (), t')) :
      Succeeds { r.report before (r.outcome before) with backup } t'

variable {r tag t} in
/-- All directories stay when a copy is kept. -/
theorem Keeps.keepsDirs (ht : t.Sound) {backup : Option Path} {kept : FileTree}
    (h : r.Keeps tag t backup kept) : t.KeepsDirs kept := by
  cases h with
  | nothing => exact ⟨fun _ hk => hk, ht⟩
  | copy _ _ hplace hspot => exact FileTree.keepsDirs_insert ht _ hplace hspot _ _

/-! ## The parts of a run -/

section
variable {σ : Type} [Files (StateM σ)] {tree : σ → FileTree} (hfiles : Files.Fallible tree)
  {s s' : σ}

include hfiles

theorem tree_of_adjustMode_eq_error {failure : Failure}
    (h : (r.adjustMode : ExceptT Failure (StateM σ) Bool).run.run s = (.error failure, s')) :
    tree s' = tree s := by
  unfold adjustMode at h
  cases hmode : r.mode with
  | none =>
    rw [hmode] at h
    cases h
  | some mode =>
    rw [hmode] at h
    dsimp only at h
    rw [run_run_lift_bind] at h
    have hthere := tree_run_isThere hfiles r.path s
    generalize (r.path.isThere : StateM σ Bool).run s = found at h hthere
    obtain ⟨there, s₁⟩ := found
    cases there with
    | false => cases h
    | true =>
      have hdiffers := tree_run_modeDiffers hfiles r.path mode s₁
      rcases error_of_run_bind _ _ _ h with herror | ⟨differs, s₂, hlook, h⟩
      · rw [herror] at hdiffers
        exact hdiffers.trans hthere
      rw [hlook] at hdiffers
      cases differs with
      | false => cases h
      | true =>
        cases hcheck : r.check with
        | true =>
          rw [hcheck] at h
          cases h
        | false =>
          rw [hcheck] at h
          rcases error_of_run_bind _ _ _ h with herror | ⟨_, _, -, h⟩
          · obtain ⟨fault, hset⟩ := error_of_run_orFail _ herror
            exact ((hfiles.setMode _ _).tree_of_error hset).trans (hdiffers.trans hthere)
          · cases h

/-- Where keeping a copy comes to an end, there may be one. -/
theorem keeps_of_keepCopy {backup : Option Path}
    (h : (r.keepCopy tag : ExceptT Failure (StateM σ) (Option Path)).run.run s =
      (.ok backup, s')) : r.Keeps tag (tree s) backup (tree s') := by
  unfold keepCopy at h
  by_cases hbackup : r.backup = true
  · rw [if_pos hbackup, run_run_lift_bind] at h
    have hthere := tree_run_isThere hfiles r.path s
    generalize (r.path.isThere : StateM σ Bool).run s = found at h hthere
    obtain ⟨there, s₁⟩ := found
    cases there with
    | false =>
      cases h
      rw [show tree s₁ = tree s from hthere]
      exact .nothing
    | true =>
      obtain ⟨q, s₂, hcopy, h⟩ := ok_of_run_bind _ _ _ h
      obtain ⟨_, s₃, hcopy, hq⟩ := ok_of_run_bind _ _ _ hcopy
      cases h
      cases hq
      have hcopy := (hfiles.copy _ _).tree_of_ok (ok_of_run_orFail _ hcopy)
      obtain ⟨t', ht', heq⟩ := exists_of_map_eq_ok hcopy
      rw [show tree s₁ = tree s from hthere] at ht'
      obtain ⟨k, bytes, mode, spot, hfile, hplace, hspot, rfl⟩ := FileTree.copy_eq_ok _ ht'
      rw [← (Prod.mk.inj heq).2]
      exact .copy hbackup hfile hplace hspot
  · rw [if_neg hbackup] at h
    cases h
    exact .nothing

theorem tree_of_keepCopy_eq_error {failure : Failure}
    (h : (r.keepCopy tag : ExceptT Failure (StateM σ) (Option Path)).run.run s =
      (.error failure, s')) : tree s' = tree s := by
  unfold keepCopy at h
  by_cases hbackup : r.backup = true
  · rw [if_pos hbackup, run_run_lift_bind] at h
    have hthere := tree_run_isThere hfiles r.path s
    generalize (r.path.isThere : StateM σ Bool).run s = found at h hthere
    obtain ⟨there, s₁⟩ := found
    cases there with
    | false => cases h
    | true =>
      rcases error_of_run_bind _ _ _ h with h | ⟨_, _, -, h⟩
      · rcases error_of_run_bind _ _ _ h with h | ⟨_, _, -, h⟩
        · obtain ⟨fault, hcopy⟩ := error_of_run_orFail _ h
          exact ((hfiles.copy _ _).tree_of_error hcopy).trans hthere
        · cases h
      · cases h
  · rw [if_neg hbackup] at h
    cases h

end

/-! ## The parts of a run on a tree -/

theorem bitsNow_of_find (k : Key) (n : Node) (hfile : t.find r.path = .ok (.found k n)) :
    r.bitsNow t = .ok (some (Mode.mask n.mode)) :=
  congrArg (Except.map some) (t.mode_of_find r.path k n hfile)

theorem bitsNow_of_lookup (fault : Fault) (hlookup : t.lookup r.path = .error fault) :
    r.bitsNow t = .error fault := by
  show ((t.lookup r.path).map fun found => Mode.mask found.2.mode).map some = _
  rw [hlookup]
  rfl

theorem carryOut_setMode (p : Path) (k : Key) (bytes : ByteArray) (bits mode : Mode)
    (hfile : t.find p = .ok (.found k (.file bytes bits))) :
    carryOut (p.setMode mode) t = (.ok (), t.insert k (.file bytes (Mode.mask mode))) := by
  refine FileTree.carryOut_path_setMode_eq_ok_iff.2 ?_
  unfold FileTree.setMode
  rw [(t.lookup_eq_ok_iff p k _).2 hfile]

section
variable {t} {before : Text} (hread : t.textAt r.path r.create = .ok before)

include hread

/-- If a copy is asked for and none is made, then there is no file. -/
theorem file?_of_keepCopy_eq_none {kept : FileTree}
    (h : carryOut (r.keepCopy tag) t = (.ok none, kept)) (hbackup : r.backup = true) :
    t.file? r.path = none := by
  unfold keepCopy at h
  rw [if_pos hbackup, carryOut_lift_bind, run_isThere FileTree.quiet] at h
  rcases t.exists_of_textAt r.path r.create before hread with
    ⟨k, bytes, mode, hfile, -⟩ | ⟨-, hnone, -⟩
  · rw [r.bitsNow_of_find t k _ hfile] at h
    obtain ⟨_, _, -, hsome⟩ := ok_of_run_bind _ _ _ h
    cases hsome
  · exact hnone

theorem exists_of_wantsMode (hwants : r.wantsMode t = true) : ∃ k bytes bits mode,
    r.mode = some mode ∧ t.find r.path = .ok (.found k (.file bytes bits)) ∧
      Mode.mask bits ≠ mode := by
  obtain ⟨mode, bits, hmode, hnow, hne⟩ := (r.wantsMode_eq_true_iff t).1 hwants
  rcases t.exists_of_textAt r.path r.create before hread with
    ⟨k, bytes, bits', hfile, -⟩ | ⟨hlookup, -, -⟩
  · have hbits := (r.bitsNow_of_find t k _ hfile).symm.trans hnow
    obtain rfl := Option.some.inj (Except.ok.inj hbits)
    rw [Mode.mask_mask] at hne
    exact ⟨k, bytes, bits', mode, hmode, hfile, hne⟩
  · cases (r.bitsNow_of_lookup t _ hlookup).symm.trans hnow

/-- The bits are those that are asked for, or the file gets these. -/
theorem carryOut_adjustMode_cases :
    (carryOut r.adjustMode t = (.ok false, t) ∧
        ∀ mode bits, r.mode = some mode → t.mode r.path = .ok bits → bits = mode) ∨
      ∃ k bytes bits mode, r.mode = some mode ∧
        t.find r.path = .ok (.found k (.file bytes bits)) ∧ Mode.mask bits ≠ mode ∧
        carryOut r.adjustMode t =
          (.ok true, if r.check then t else t.insert k (.file bytes (Mode.mask mode))) := by
  rcases run_adjustMode_cases FileTree.quiet r t with
    ⟨hwants, hrun⟩ | ⟨hwants, hcheck, hrun⟩ | ⟨hwants, hcheck, mode', hmode', hrun⟩
  · refine Or.inl ⟨hrun, fun mode bits hmode hbits => ?_⟩
    by_contra hne
    have hnow : r.bitsNow t = .ok (some bits) := congrArg (Except.map some) hbits
    rw [← t.mask_of_mode r.path bits hbits] at hne
    rw [(r.wantsMode_eq_true_iff t).2 ⟨mode, bits, hmode, hnow, hne⟩] at hwants
    cases hwants
  · obtain ⟨k, bytes, bits, mode, hmode, hfile, hne⟩ := r.exists_of_wantsMode hread hwants
    refine Or.inr ⟨k, bytes, bits, mode, hmode, hfile, hne, ?_⟩
    rw [if_pos hcheck]
    exact hrun
  · obtain ⟨k, bytes, bits, mode, hmode, hfile, hne⟩ := r.exists_of_wantsMode hread hwants
    refine Or.inr ⟨k, bytes, bits, mode, hmode, hfile, hne, ?_⟩
    obtain rfl := Option.some.inj (hmode.symm.trans hmode')
    rw [hcheck, if_neg Bool.false_ne_true]
    refine hrun.trans ?_
    show carryOut (r.path.setMode mode >>= fun _ => pure true) t = _
    rw [carryOut_bind, carryOut_setMode t r.path k bytes bits mode hfile]
    rfl

end

/-! ## The whole run -/

section
variable {r tag t} {t' : FileTree}

theorem succeeds_of_run {report : Report} (h : carryOut (r.run tag) t = (.ok report, t')) :
    r.Succeeds tag t report t' := by
  unfold run at h
  obtain ⟨before, t₁, hread, h⟩ := ok_of_run_bind _ _ _ h
  change carryOut (r.path.readText r.create) t = _ at hread
  rw [FileTree.carryOut_readText, Prod.mk.injEq] at hread
  obtain ⟨hread, rfl⟩ := hread
  change carryOut (if (r.outcome before).changed = true then _ else _) t = _ at h
  cases hchanged : (r.outcome before).changed with
  | false =>
    rw [hchanged, if_neg Bool.false_ne_true, carryOut_bind] at h
    rcases r.carryOut_adjustMode_cases hread with
      ⟨hrun, hbits⟩ | ⟨k, bytes, bits, mode, hmode, hfile, hbits, hrun⟩
    · rw [hrun] at h
      cases h
      exact .held hread hchanged hbits
    · rw [hrun] at h
      cases h
      exact .adjusted hread hchanged hmode hfile hbits
  | true =>
    rw [hchanged, if_pos rfl] at h
    cases hcheck : r.check with
    | true =>
      rw [hcheck] at h
      cases h
      exact .checked hread hchanged hcheck
    | false =>
      rw [hcheck, if_neg Bool.false_ne_true] at h
      obtain ⟨backup, kept, hcopy, h⟩ := ok_of_run_bind _ _ _ h
      obtain ⟨_, _, hwrite, h⟩ := ok_of_run_bind _ _ _ h
      cases h
      refine .written hread hchanged hcheck (keeps_of_keepCopy r tag FileTree.fallible hcopy) ?_ hwrite
      rintro rfl
      exact r.file?_of_keepCopy_eq_none tag hread hcopy

end

section
variable {r tag} {σ : Type} [Files (StateM σ)] {tree : σ → FileTree} (hfiles : Files.Fallible tree)
  {s s' : σ} {failure : Failure} (hs : (tree s).Sound)

include hfiles hs

/-- A request that fails has had no effect, or it has come to the new text. Then a copy may have been
made, and directories for the new file. -/
theorem fails_of_run (h : (r.run tag : ExceptT Failure (StateM σ) Report).run.run s =
      (.error failure, s')) :
    tree s' = tree s ∨
      r.check = false ∧
      (∃ before, ((r.path.readText r.create : ExceptT Failure (StateM σ) Text).run.run s).1 =
        .ok before) ∧
      ∃ backup kept, r.Keeps tag (tree s) backup kept ∧
        kept.GrowsAlong (tree s') r.path.names.dropLast := by
  unfold run at h
  have hsame := tree_run_readText hfiles r.path r.create s
  rcases error_of_run_bind _ _ _ h with herror | ⟨before, s₁, hread, h⟩
  · rw [herror] at hsame
    exact Or.inl hsame
  rw [hread] at hsame ⊢
  change (if (r.outcome before).changed = true then _ else _ :
    ExceptT Failure (StateM σ) Report).run.run s₁ = _ at h
  cases hchanged : (r.outcome before).changed with
  | false =>
    rw [hchanged, if_neg Bool.false_ne_true] at h
    rcases error_of_run_bind _ _ _ h with herror | ⟨_, _, -, h⟩
    · exact Or.inl ((tree_of_adjustMode_eq_error r hfiles herror).trans hsame)
    · cases h
  | true =>
    rw [hchanged, if_pos rfl] at h
    cases hcheck : r.check with
    | true =>
      rw [hcheck] at h
      cases h
    | false =>
      rw [hcheck, if_neg Bool.false_ne_true] at h
      rcases error_of_run_bind _ _ _ h with herror | ⟨backup, s₂, hcopy, h⟩
      · exact Or.inl ((tree_of_keepCopy_eq_error r tag hfiles herror).trans hsame)
      have hkept := keeps_of_keepCopy r tag hfiles hcopy
      rw [show tree s₁ = tree s from hsame] at hkept
      rcases error_of_run_bind _ _ _ h with herror | ⟨_, _, -, h⟩
      · exact Or.inr ⟨rfl, ⟨before, rfl⟩, backup, tree s₂, hkept,
          growsAlong_of_replaceText_eq_error hfiles (hkept.keepsDirs hs).sound herror⟩
      · cases h

end

/-- Where the text stays and the bits are right, so does everything else. -/
theorem carryOut_run_of_held (before : Text) (hread : t.textAt r.path r.create = .ok before)
    (hsame : (r.outcome before).changed = false)
    (hbits : ∀ mode bits, r.mode = some mode → t.mode r.path = .ok bits → bits = mode) :
    carryOut (r.run tag) t = (.ok { r.report before (r.outcome before) with changed := false }, t) := by
  unfold run
  rw [carryOut_bind, FileTree.carryOut_readText, hread]
  dsimp only
  rw [show r.intent.apply r.style before = r.outcome before from rfl, hsame,
    if_neg Bool.false_ne_true, carryOut_bind]
  rcases r.carryOut_adjustMode_cases hread with ⟨hrun, -⟩ | ⟨k, bytes, bits, mode, hmode, hfile, hne, -⟩
  · rw [hrun]
    rfl
  · exact absurd (hbits mode _ hmode (t.mode_of_find r.path k _ hfile)) hne

end Request

end Stanzas
