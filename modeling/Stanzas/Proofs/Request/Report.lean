import Stanzas.Proofs.Request.Spared

/-!
# Reports and what they stand for

A report tells what has become of the tree (`Request.Describes`): nothing, or that the file has got
other bits, or that it has a new text, perhaps with a copy of the old file beside it. Every report of
a request that is not only checked is of this kind:

    r.Reports tag t report t' →
      ∃ before, t.text? r.path = some before ∧ r.Describes tag t before report t'
                                                                         (describes_of_reports)

The copy of a file does not always have the bits of the file, and a file that was not found does not
always get the bits of a new one (`not_forall_copy_and_new_bits`).
-/

namespace Stanzas

namespace Request

/-- The bits of a file with a new text: those that are asked for, or else those of the file that was
there, or else those of a staged file. -/
def bitsAfter (r : Request) (file : Option (ByteArray × Mode)) : Mode :=
  (r.mode <|> file.map fun file => Mode.mask file.2).getD FileTree.stagedMode

/-- Whether a report on an edit of the text `before` tells what has become of a tree. -/
structure Describes (r : Request) (tag : Text) (t : FileTree) (before : Text) (report : Report)
    (t' : FileTree) : Prop where
  reason : report.reason = (r.outcome before).reason
  same : report.changed = false → t' = t
  /-- If the text is as it was, a change is one of the bits and nothing else. -/
  bits : report.changed = true → report.reason = .unchanged → ∃ k bytes bits mode,
    r.mode = some mode ∧ bits ≠ mode ∧ t.find r.path = .ok (.found k (.file bytes bits)) ∧
      t'.find r.path = .ok (.found k (.file bytes mode)) ∧ ∀ l, l ≠ k → t'.node? l = t.node? l
  /-- The bits are those of a file that is there once the directories of the path are. -/
  text : report.reason ≠ .unchanged → t'.file? r.path =
    some (utf8 (r.outcome before).text, r.bitsAfter ((t.withDirs r.path).file? r.path))
  text_of_settled : report.reason ≠ .unchanged → t.Settled r.path → t'.file? r.path =
    some (utf8 (r.outcome before).text, r.bitsAfter (t.file? r.path))
  backup : report.backup =
    if report.reason ≠ .unchanged ∧ r.backup = true ∧ (t.file? r.path).isSome then
      some (r.path.backup tag)
    else none
  copied : report.backup ≠ none → ∃ k, r.CopyAt tag t t' k
  spares : ∀ k, r.Spares tag t t' k ∨ ∃ n, t'.find r.path = .ok (.found k n)
  mode : ∀ mode bits, r.mode = some mode → t'.mode r.path = .ok bits → bits = mode

section
variable {r : Request} {tag : Text} {t t' : FileTree}

/-! ## The copy -/

theorem CopyAt.grows (ht : t'.Sound) {k : Key} (h : r.CopyAt tag t t' k) {t'' : FileTree}
    (hgrows : t'.Grows t'') : r.CopyAt tag t t'' k := by
  obtain ⟨hbackup, bytes, mode, hfile, hcopy⟩ := h
  exact ⟨hbackup, bytes, mode, hfile, hgrows.find_eq ht _ k _ _ hcopy⟩

section
variable (ht : t'.Sound) {spot : FileTree.Spot} (hfind : t'.find r.path = .ok spot)
  (hspot : ¬ spot.IsDir) (bytes : ByteArray) (mode : Mode) {k : Key} (hk : k ≠ spot.key)

include ht hfind hspot hk

theorem CopyAt.insert (h : r.CopyAt tag t t' k) :
    r.CopyAt tag t (t'.insert spot.key (.file bytes mode)) k := by
  obtain ⟨hbackup, bytes', mode', hfile, hcopy⟩ := h
  exact ⟨hbackup, bytes', mode', hfile,
    FileTree.find_insert_of_ne ht r.path hfind hspot bytes mode _ k _ _ hcopy hk⟩

/-- What is spared stays so when the file is put in its place. -/
theorem Spares.insert (h : r.Spares tag t t' k) :
    r.Spares tag t (t'.insert spot.key (.file bytes mode)) k := by
  obtain ⟨hne, -, -⟩ := FileTree.not_isDir_of_find ht r.path hfind hspot
  rcases h with (hsame | ⟨hnone, hway⟩) | ⟨hdir, hcopy⟩
  · refine Or.inl (Or.inl ?_)
    rw [FileTree.node?_insert hne, if_neg hk]
    exact hsame
  · have hkeeps := FileTree.keepsDirs_insert ht r.path hfind hspot bytes mode
    exact Or.inl (Or.inr ⟨hnone, hway.mono ht hkeeps.isDir⟩)
  · exact Or.inr ⟨hdir, hcopy.insert ht hfind hspot bytes mode hk⟩

end

section
variable {backup : Option Path} {kept : FileTree} (ht : t.Sound) (htag : '/' ∉ tag)
  (h : r.Keeps tag t backup kept)

include h

/-- A copy is kept if one is asked for and there is a file. -/
theorem Keeps.backup_eq (hnone : backup = none → r.backup = true → t.file? r.path = none) : backup =
    if r.backup = true ∧ (t.file? r.path).isSome then some (r.path.backup tag) else none := by
  cases h with
  | nothing =>
    refine (if_neg ?_).symm
    rintro ⟨hbackup, hfile⟩
    rw [hnone rfl hbackup] at hfile
    cases hfile
  | @copy k bytes mode _ hbackup hfile _ _ =>
    rw [if_pos ⟨hbackup, Option.isSome_of_eq_some (t.file?_of_find _ k _ _ hfile)⟩]

include ht htag

/-- The copy does not hide which file the path leads to. -/
theorem Keeps.file?_withDirs : (kept.withDirs r.path).file? r.path = (t.withDirs r.path).file? r.path := by
  cases h with
  | nothing => rfl
  | @copy k bytes mode _ hbackup hfile hplace hspot =>
    have hkept : r.Keeps tag t _ _ := .copy hbackup hfile hplace hspot
    have hsound := (hkept.keepsDirs ht).sound
    have hfile := t.file?_of_find _ k _ _ hfile
    rw [(FileTree.grows_withDirs ht r.path).file?_of_file? ht _ _ hfile,
      (FileTree.grows_withDirs hsound r.path).file?_of_file? hsound _ _
        (hkept.file?_of_file? ht htag _ hfile)]

/-- The copy is there, and the path does not lead to it. -/
theorem Keeps.exists_copyAt (hbackup : backup ≠ none) :
    ∃ k, r.CopyAt tag t kept k ∧
      ∀ spot, (kept.withDirs r.path).find r.path = .ok spot → k ≠ spot.key := by
  cases h with
  | nothing => exact absurd rfl hbackup
  | @copy k bytes mode spot hasked hfile hplace hspot =>
    have hkept : r.Keeps tag t _ _ := .copy hasked hfile hplace hspot
    have hsound := (hkept.keepsDirs ht).sound
    refine ⟨spot.key, ⟨hasked, bytes, mode, t.file?_of_find _ k _ _ hfile,
      FileTree.find_insert_self ht _ hplace hspot _ _⟩, fun found hfound => ?_⟩
    have hnew := (FileTree.grows_withDirs hsound r.path).find_eq hsound _ k _ _
      (hkept.find_path ht htag k _ _ hfile)
    obtain rfl := Except.ok.inj (hnew.symm.trans hfound)
    exact (FileTree.key_ne_of_find_backup ht tag htag k _ _ hfile _ hplace hspot).symm

end

/-! ## The three kinds of reports -/

section
variable {before : Text}

theorem describes_of_held (hsame : (r.outcome before).reason = .unchanged)
    (hbits : ∀ mode bits, r.mode = some mode → t.mode r.path = .ok bits → bits = mode) :
    r.Describes tag t before { r.report before (r.outcome before) with changed := false } t where
  reason := rfl
  same _ := rfl
  bits h := nomatch h
  text h := absurd hsame h
  text_of_settled h := absurd hsame h
  backup := (if_neg fun h => h.1 hsame).symm
  copied h := absurd rfl h
  spares _ := Or.inl (Or.inl (Or.inl rfl))
  mode := hbits

theorem describes_of_adjusted (ht : t.Sound) (hsame : (r.outcome before).reason = .unchanged) {k : Key}
    {bytes : ByteArray} {bits mode : Mode} (hmode : r.mode = some mode) (hle : mode ≤ Mode.max)
    (hfile : t.find r.path = .ok (.found k (.file bytes bits))) (hbits : Mode.mask bits ≠ mode) :
    r.Describes tag t before { r.report before (r.outcome before) with changed := true }
      (t.insert k (.file bytes mode)) := by
  obtain ⟨hnil, -, -⟩ := FileTree.not_isDir_of_find ht r.path hfile id
  have hfind : (t.insert k (.file bytes mode)).find r.path = .ok (.found k (.file bytes mode)) :=
    FileTree.find_insert_self ht r.path hfile id bytes mode
  have hne : bits ≠ mode := by
    rintro rfl
    exact hbits (bits.mask_eq_self hle)
  have hothers : ∀ l, l ≠ k → (t.insert k (.file bytes mode)).node? l = t.node? l :=
    fun l hl => (FileTree.node?_insert hnil).trans (if_neg hl)
  exact {
    reason := rfl
    same := fun h => nomatch h
    bits := fun _ _ => ⟨k, bytes, bits, mode, hmode, hne, hfile, hfind, hothers⟩
    text := fun h => absurd hsame h
    text_of_settled := fun h => absurd hsame h
    backup := (if_neg fun h => h.1 hsame).symm
    copied := fun h => absurd rfl h
    spares := fun l => by
      by_cases hl : l = k
      · subst hl
        exact Or.inr ⟨_, hfind⟩
      · exact Or.inl (Or.inl (Or.inl (hothers l hl)))
    mode := fun mode' bits' hm hb => by
      obtain rfl := Option.some.inj (hmode.symm.trans hm)
      exact (FileTree.eq_of_mode _ _ k _ hfind bits' hb).trans (mode.mask_eq_self hle) }

theorem bitsAfter_eq (hmode : ∀ mode, r.mode = some mode → mode ≤ Mode.max)
    (file : Option (ByteArray × Mode)) :
    ((r.mode <|> file.map Prod.snd).map Mode.mask).getD FileTree.stagedMode = r.bitsAfter file := by
  unfold bitsAfter
  cases h : r.mode with
  | some mode => exact mode.mask_eq_self (hmode mode h)
  | none => cases file <;> rfl

theorem describes_of_written (ht : t.Sound) (htag : '/' ∉ tag)
    (hmode : ∀ mode, r.mode = some mode → mode ≤ Mode.max)
    (hchanged : (r.outcome before).reason ≠ .unchanged) {backup : Option Path} {kept : FileTree}
    (hkept : r.Keeps tag t backup kept)
    (hnone : backup = none → r.backup = true → t.file? r.path = none)
    (hwrite : carryOut (r.path.replaceText (r.outcome before).text (r.outcome before).base r.mode)
      kept = (.ok (), t')) :
    r.Describes tag t before { r.report before (r.outcome before) with backup } t' := by
  have hsound := (hkept.keepsDirs ht).sound
  have hgrows := FileTree.grows_withDirs hsound r.path
  have htext := FileTree.file?_of_replaceText hsound hwrite
  obtain ⟨spot, hfind, hspot, rfl⟩ := FileTree.exists_of_replaceText hsound hwrite
  rw [hkept.file?_withDirs ht htag, bitsAfter_eq hmode] at htext ⊢
  obtain ⟨k, hk⟩ := (FileTree.file?_eq_some_iff _ _ _ _).1 htext
  exact {
    reason := rfl
    same := fun h => absurd ((Outcome.changed_eq_false_iff _).1 h) hchanged
    bits := fun _ h => absurd h hchanged
    text := fun _ => htext
    text_of_settled := fun _ hsettled => by
      rw [← (FileTree.grows_withDirs ht r.path).file?_eq ht _ hsettled]
      exact htext
    backup := by
      rw [hkept.backup_eq hnone]
      simp only [ne_eq, show (r.report before (r.outcome before)).reason ≠ .unchanged from hchanged,
        not_false_eq_true, true_and]
    copied := fun h => by
      obtain ⟨l, hcopy, hl⟩ := hkept.exists_copyAt ht htag h
      exact ⟨l, (hcopy.grows hsound hgrows).insert hgrows.sound hfind hspot _ _ (hl spot hfind)⟩
    spares := fun l => by
      by_cases hl : l = spot.key
      · subst hl
        exact Or.inr ⟨_, FileTree.find_insert_self hgrows.sound r.path hfind hspot _ _⟩
      · have hspares := hkept.spares_of_growsAlong ht (FileTree.growsAlong_withDirs hsound r.path) l
        exact Or.inl (hspares.insert hgrows.sound hfind hspot _ _ hl)
    mode := fun mode bits hm hb => by
      refine (FileTree.eq_of_mode _ _ k _ hk bits hb).trans ?_
      show Mode.mask (r.bitsAfter _) = mode
      unfold bitsAfter
      rw [hm]
      exact mode.mask_eq_self (hmode mode hm) }

end

end

/-! ## All reports -/

/-- Whether a request that is not only checked has been carried out and has come to a report. -/
structure Reports (r : Request) (tag : Text) (t : FileTree) (report : Report) (t' : FileTree) :
    Prop where
  check : r.check = false
  mode_le : ∀ mode, r.mode = some mode → mode ≤ Mode.max
  slash_notMem : '/' ∉ tag
  sound : t.Sound
  run : carryOut (r.run tag) t = (.ok report, t')

/-- A report tells what has become of the tree. -/
theorem describes_of_reports (r : Request) (tag : Text) (t : FileTree) (report : Report)
    (t' : FileTree) (h : r.Reports tag t report t') :
    ∃ before, t.text? r.path = some before ∧ r.Describes tag t before report t' := by
  cases succeeds_of_run h.run with
  | @held before hread hsame hbits =>
    exact ⟨before, t.text?_of_textAt _ _ _ hread,
      describes_of_held ((Outcome.changed_eq_false_iff _).1 hsame) hbits⟩
  | @adjusted before k bytes bits mode hread hsame hmode hfile hbits =>
    have hle := h.mode_le mode hmode
    rw [h.check, if_neg Bool.false_ne_true, mode.mask_eq_self hle]
    exact ⟨before, t.text?_of_textAt _ _ _ hread, describes_of_adjusted h.sound
      ((Outcome.changed_eq_false_iff _).1 hsame) hmode hle hfile hbits⟩
  | checked _ _ hcheck => exact absurd (h.check.symm.trans hcheck) Bool.false_ne_true
  | @written before backup kept t' hread hchanged _ hkept hnone hwrite =>
    exact ⟨before, t.text?_of_textAt _ _ _ hread, describes_of_written h.sound h.slash_notMem
      h.mode_le ((Outcome.changed_eq_true_iff _).1 hchanged) hkept hnone hwrite⟩

theorem describes_of_reports_of_backup :
    ∃ report t',
      (addStanza ⟨['f']⟩ ['b']).keeping.Reports ['1']
        (.ofFile ['f'] (utf8 ['a', ':', '\n']) 0o640) report t' ∧
      t'.file? ⟨['f']⟩ = some (utf8 "a:\n\nb:\n".toList, 0o640) ∧
      t'.file? ⟨"f.1~".toList⟩ = some (utf8 ['a', ':', '\n'], 0o640) := by
  have hsound := FileTree.sound_ofFile ['f'] (utf8 ['a', ':', '\n']) 0o640
  have hfile : (FileTree.ofFile ['f'] (utf8 ['a', ':', '\n']) 0o640).file? ⟨['f']⟩ =
      some (utf8 ['a', ':', '\n'], 0o640) := by decide +kernel
  have htext : (FileTree.ofFile ['f'] (utf8 ['a', ':', '\n']) 0o640).text? ⟨['f']⟩ =
      some ['a', ':', '\n'] := by decide +kernel
  have hsettled := FileTree.settled_of_file? hsound _ _ hfile
  have hbackup : (carryOut ((addStanza ⟨['f']⟩ ['b']).keeping.run ['1'])
      (.ofFile ['f'] (utf8 ['a', ':', '\n']) 0o640)).1.toOption.bind Report.backup =
        some ⟨"f.1~".toList⟩ := by decide +kernel
  generalize FileTree.ofFile ['f'] (utf8 ['a', ':', '\n']) 0o640 = t at *
  cases hrun : carryOut ((addStanza ⟨['f']⟩ ['b']).keeping.run ['1']) t with
  | mk result t' =>
    rw [hrun] at hbackup
    cases result with
    | error failure => cases hbackup
    | ok report =>
      have hreports : (addStanza ⟨['f']⟩ ['b']).keeping.Reports ['1'] t report t' :=
        ⟨rfl, fun _ hm => (nomatch hm), by decide, hsound, hrun⟩
      obtain ⟨before, hbefore, hdescribes⟩ := describes_of_reports _ _ _ _ _ hreports
      obtain rfl := Option.some.inj (htext.symm.trans hbefore)
      have hkept : report.backup ≠ none := ne_of_eq_of_ne hbackup (Option.some_ne_none _)
      have hreason : report.reason ≠ .unchanged :=
        fun hsame => hkept (hdescribes.backup.trans (if_neg fun h => h.1 hsame))
      obtain ⟨k, -, bytes, mode, hfile', hcopy⟩ := hdescribes.copied hkept
      obtain ⟨rfl, rfl⟩ := Prod.mk.inj (Option.some.inj (hfile.symm.trans hfile'))
      refine ⟨report, t', hreports, ?_, t'.file?_of_find _ k _ _ hcopy⟩
      refine (hdescribes.text_of_settled hreason hsettled).trans ?_
      rw [show t.file? (addStanza ⟨['f']⟩ ['b']).keeping.path = _ from hfile]
      decide +kernel

/-- The copy of a file that runs as its owner does not, and a file that is found only when
directories are made keeps its bits. -/
theorem not_forall_copy_and_new_bits :
    (¬ ∀ (r : Request) (tag : Text) (t : FileTree) (report : Report) (t' : FileTree),
      r.Reports tag t report t' →
        ∀ q, report.backup = some q → t'.file? q = t.file? r.path) ∧
    ¬ ∀ (r : Request) (tag : Text) (t : FileTree) (report : Report) (t' : FileTree),
      r.Reports tag t report t' → report.reason ≠ .unchanged →
        (t'.file? r.path).map Prod.snd = some (r.bitsAfter (t.file? r.path)) := by
  constructor
  · intro h
    let r := (addStanza ⟨['f']⟩ ['b']).keeping
    let t := FileTree.ofFile ['f'] (utf8 ['a', ':', '\n']) 0o6711
    have hbackup : (carryOut (r.run ['1']) t).1.toOption.bind Report.backup = some ⟨"f.1~".toList⟩ := by
      decide +kernel
    have hbits : ((carryOut (r.run ['1']) t).2.file? ⟨"f.1~".toList⟩).map Prod.snd = some 0o711 := by
      decide +kernel
    cases hrun : carryOut (r.run ['1']) t with
    | mk result t' =>
      rw [hrun] at hbackup hbits
      cases result with
      | error failure => cases hbackup
      | ok report =>
        have hsame := h r ['1'] t report t'
          ⟨rfl, fun _ hm => (nomatch hm), by decide, FileTree.sound_ofFile _ _ _, hrun⟩ _ hbackup
        rw [hsame] at hbits
        exact absurd hbits (by decide +kernel)
  · intro h
    let r := addStanza ⟨"new/../f".toList⟩ ['a']
    let t := FileTree.ofFile ['f'] (utf8 []) 0o644
    have hreason : (carryOut (r.run ['1']) t).1.toOption.map Report.reason = some .stanzaAdded := by
      decide +kernel
    have hbits : ((carryOut (r.run ['1']) t).2.file? r.path).map Prod.snd = some 0o644 := by
      decide +kernel
    have hnew : r.bitsAfter (t.file? r.path) = FileTree.stagedMode := by
      decide +kernel
    cases hrun : carryOut (r.run ['1']) t with
    | mk result t' =>
      rw [hrun] at hreason hbits
      cases result with
      | error failure => cases hreason
      | ok report =>
        have hbits' := h r ['1'] t report t'
          ⟨rfl, fun _ hm => (nomatch hm), by decide, FileTree.sound_ofFile _ _ _, hrun⟩
          (fun heq => by
            rw [Option.some.inj hreason] at heq
            cases heq)
        rw [hbits, hnew] at hbits'
        exact absurd hbits' (by decide)

end Request

end Stanzas
