import Stanzas.Proofs.Edit.Changed
import Stanzas.Proofs.Request

/-!
# Requests that are carried out again

A request that has been carried out finds nothing to do a second time (`Request.Done`): it reports
no change and leaves the tree as it is (`run_again`), also if it was only about permission bits, or
if there was no file. The one condition is that the text that has been written does not start with a
byte-order mark, since this is not read back.
-/

namespace Stanzas

namespace Request

variable (r : Request)

/-- The edit of a text that has been edited changes nothing. -/
theorem changed_outcome_text_outcome (hv : r.intent.Valid) (before : Text)
    (hm : (r.outcome before).text.head? ≠ some byteOrderMark) :
    (r.outcome (r.outcome before).text).changed = false := by
  refine (r.intent.changed_apply_eq_false r.style _).2 ?_
  have hholds := r.intent.holds_read_text_apply r.style before hv hm
  exact congrArg Prod.snd (r.intent.plan_of_holds _ hv hholds)

/-- Whether a request has nothing to do: the text stays, and the bits are right. -/
def Done (t : FileTree) : Prop :=
  ∃ before, t.textAt r.path r.create = .ok before ∧ (r.outcome before).changed = false ∧
    ∀ mode bits, r.mode = some mode → t.mode r.path = .ok bits → bits = mode

variable {r} in
theorem Done.exists_run {t : FileTree} (h : r.Done t) (tag : Text) :
    ∃ report, carryOut (r.run tag) t = (.ok report, t) ∧ report.changed = false ∧
      report.reason = .unchanged ∧ report.backup = none := by
  obtain ⟨before, hread, hsame, hbits⟩ := h
  exact ⟨_, r.carryOut_run_of_held tag t before hread hsame hbits, rfl,
    (Outcome.changed_eq_false_iff _).1 hsame, rfl⟩

/-- There is nothing to do for a file whose text stays and that has the bits that are asked for. -/
theorem done_of_find (t : FileTree) (k : Key) (s : Text) (bits : Mode)
    (hfile : t.find r.path = .ok (.found k (.file (utf8 s) bits)))
    (hsame : (r.outcome s).changed = false)
    (hbits : ∀ mode, r.mode = some mode → Mode.mask bits = mode) : r.Done t := by
  refine ⟨s, t.textAt_of_file? _ _ s bits (t.file?_of_find _ k _ _ hfile), hsame,
    fun mode bits' hmode hb => ?_⟩
  exact (t.eq_of_mode _ k _ hfile bits' hb).trans (hbits mode hmode)

/-- A request that has succeeded finds nothing to do, whatever it has done. -/
theorem run_again (w : Draft) (hw : w.check = .ok r.intent) (hcheck : r.check = false)
    (hmode : ∀ mode, r.mode = some mode → mode ≤ Mode.max) (t : FileTree) (ht : t.Sound)
    (tag tag' : Text) (report : Report) (t' : FileTree)
    (h : carryOut (r.run tag) t = (.ok report, t'))
    (hmark : report.reason ≠ .unchanged →
      ∀ s, t'.text? r.path = some s → s.head? ≠ some byteOrderMark) :
    ∃ report', carryOut (r.run tag') t' = (.ok report', t') ∧ report'.changed = false ∧
      report'.reason = .unchanged ∧ report'.backup = none := by
  cases succeeds_of_run h with
  | held hread hsame hbits => exact Done.exists_run ⟨_, hread, hsame, hbits⟩ tag'
  | @adjusted before k bytes bits mode hread hsame hmode' hfile hbits =>
    rw [hcheck, if_neg Bool.false_ne_true, mode.mask_eq_self (hmode mode hmode')]
    obtain rfl := t.bytes_of_textAt r.path r.create before hread k bytes bits hfile
    have hfind := FileTree.find_insert_self ht r.path hfile id (utf8 before) mode
    refine (r.done_of_find _ k before mode hfind hsame fun mode' hm => ?_).exists_run tag'
    exact (mode.mask_eq_self (hmode mode hmode')).trans (Option.some.inj (hmode'.symm.trans hm))
  | checked _ _ hcheck' =>
    rw [hcheck] at hcheck'
    cases hcheck'
  | @written before backup kept t' hread hchanged _ hkept _ hwrite =>
    have hfile := FileTree.file?_of_replaceText (hkept.keepsDirs ht).sound hwrite
    have hm : (r.outcome before).text.head? ≠ some byteOrderMark := by
      refine hmark ((Outcome.changed_eq_true_iff _).1 hchanged) _ ?_
      unfold FileTree.text?
      rw [hfile]
      exact ofUTF8?_utf8 _
    have hsame := r.changed_outcome_text_outcome (w.valid_of_check _ hw) before hm
    obtain ⟨k, hfind⟩ := (t'.file?_eq_some_iff _ _ _).1 hfile
    refine Done.exists_run (r.done_of_find t' k _ _ hfind hsame fun mode hmode' => ?_) tag'
    rw [hmode']
    exact (Mode.mask_mask mode).trans (mode.mask_eq_self (hmode mode hmode'))

/-- The stanza is there already, below a byte-order mark, and the file gets other bits only. -/
theorem run_again_of_mode :
    ∃ report t' report',
      carryOut ({ addStanza ⟨['f']⟩ ['a'] with mode := some 0o600 }.run ['1'])
        (.ofFile ['f'] (utf8 [byteOrderMark, 'a', ':', '\n']) 0o644) = (.ok report, t') ∧
      report.changed = true ∧ report.reason = .unchanged ∧
      t'.file? ⟨['f']⟩ = some (utf8 [byteOrderMark, 'a', ':', '\n'], 0o600) ∧
      carryOut ({ addStanza ⟨['f']⟩ ['a'] with mode := some 0o600 }.run ['2']) t' =
        (.ok report', t') ∧
      report'.changed = false := by
  have hagain := run_again { addStanza ⟨['f']⟩ ['a'] with mode := some 0o600 }
    { scope := .stanza ['a'] } rfl rfl (by rintro mode ⟨⟩; decide) _
    (FileTree.sound_ofFile ['f'] (utf8 [byteOrderMark, 'a', ':', '\n']) 0o644) ['1'] ['2']
  have hreport : (carryOut ({ addStanza ⟨['f']⟩ ['a'] with mode := some 0o600 }.run ['1'])
      (.ofFile ['f'] (utf8 [byteOrderMark, 'a', ':', '\n']) 0o644)).1.toOption.map
        (fun report => (report.changed, report.reason)) = some (true, .unchanged) := by
    decide +kernel
  have hfile : (carryOut ({ addStanza ⟨['f']⟩ ['a'] with mode := some 0o600 }.run ['1'])
      (.ofFile ['f'] (utf8 [byteOrderMark, 'a', ':', '\n']) 0o644)).2.file? ⟨['f']⟩ =
        some (utf8 [byteOrderMark, 'a', ':', '\n'], 0o600) := by decide +kernel
  generalize carryOut ({ addStanza ⟨['f']⟩ ['a'] with mode := some 0o600 }.run ['1']) _ = run
    at hagain hreport hfile ⊢
  obtain ⟨result, t'⟩ := run
  cases result with
  | error failure => cases hreport
  | ok report =>
    obtain ⟨hchanged, hreason⟩ := Prod.mk.inj (Option.some.inj hreport)
    obtain ⟨report', hrun, hsame, -, -⟩ := hagain report t' rfl fun hnew => absurd hreason hnew
    exact ⟨report, t', report', rfl, hchanged, hreason, hfile, hrun, hsame⟩

end Request

end Stanzas
