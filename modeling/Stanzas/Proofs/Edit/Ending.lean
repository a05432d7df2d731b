import Mathlib.Data.List.Basic
import Stanzas.Proofs.Edit
import Stanzas.Proofs.Plan.Describe

/-!
# How an edited text ends

A newline ends an edited text just if one ended the text before, or the last line is a new one, or
the line that was the last one is gone. Otherwise the last line is the old one, character for
character (`Intent.KeepsEnd`). In a document this is a law on its flag:

    (i.edit d).ended = true ↔ d.ended = true ∨
      (∃ l ∈ (i.edit d).lines.getLast?, l.isFresh = true) ∨ (i.plan d).1.DeletesLast d
                                                                          (ended_edit_iff_last)

and the text of a document tells its flag (`getLast?_render_eq_newline_iff`).
-/

namespace Stanzas

/-! ## Patches -/

namespace Patch

/-- Whether a patch takes the last line of a document. -/
def DeletesLast (p : Patch) (d : Document) : Prop := ∃ n, n + 1 = d.lines.length ∧ p.Deletes n

variable (p : Patch) (d : Document)

theorem touchesEnd_iff : p.TouchesEnd d.lines.length ↔
    p.insertedAt d.lines.length ≠ [] ∨ p.DeletesLast d := by
  unfold TouchesEnd DeletesLast
  apply or_congr_right
  constructor
  · rintro ⟨hpos, hdel⟩
    exact ⟨d.lines.length - 1, by omega, hdel⟩
  · rintro ⟨n, hn, hdel⟩
    rw [← hn]
    exact ⟨Nat.succ_pos n, hdel⟩

theorem touchesEnd_iff_last (hkept : ∀ l ∈ d.lines, l.isFresh = false)
    (hfresh : ∀ n, ∀ l ∈ p.insertedAt n, l.isFresh = true) : p.TouchesEnd d.lines.length ↔
      (∃ l ∈ (p.apply d).lines.getLast?, l.isFresh = true) ∨ p.DeletesLast d := by
  constructor
  · intro h
    rcases (p.touchesEnd_iff d).1 h with hins | hdel
    · have hlast := p.getLast?_splice_of_insertedAt 0 d.lines (by rwa [Nat.zero_add])
      rw [Nat.zero_add, List.getLast?_eq_some_getLast hins] at hlast
      refine Or.inl ⟨_, ?_, hfresh _ _ (List.getLast_mem hins)⟩
      rw [p.lines_apply d, hlast]
      rfl
    · exact Or.inr hdel
  · rintro (⟨l, hl, hnew⟩ | hdel)
    · by_contra h
      rw [p.getLast?_lines_apply d h] at hl
      rw [hkept l (List.mem_of_getLast? hl)] at hnew
      cases hnew
    · exact (p.touchesEnd_iff d).2 (Or.inr hdel)

end Patch

/-! ## Texts -/

namespace Document

/-- A text with any character in it has a line. -/
theorem lines_read_ne_nil (t : Text) (hne : dropMark t ≠ []) : (read t).lines ≠ [] := by
  intro hnil
  exact hne (eq_nil_of_cutLines _ (List.map_eq_nil_iff.1 hnil))

variable (style : Style) (d : Document) (hd : d.Fits)

include hd

theorem getLast?_render_eq_newline_iff :
    (d.render style).getLast? = some '\n' ↔ d.ended = true := by
  unfold render
  by_cases hne : d.lines = []
  · rw [hne]
    cases d.ended <;> simp [renderLines, joinLines]
  · exact (d.areLines_renderLines style hd hne).getLast?_joinLines_eq_newline_iff

theorem render_eq_nil_iff : d.render style = [] ↔ d.lines = [] ∧ d.ended = false := by
  constructor
  · intro h
    have hended : d.ended = false := by
      rw [← Bool.not_eq_true, ← d.getLast?_render_eq_newline_iff style hd, h]
      exact fun hlast => nomatch hlast
    refine ⟨?_, hended⟩
    by_contra hne
    have hlines := d.areLines_renderLines style hd hne
    unfold render at h
    rw [hended] at hlines h
    obtain ⟨c, hc, -⟩ := hlines.exists_getLast?_joinLines (renderLines_ne_nil style false _ hne)
    rw [h] at hc
    cases hc
  · rintro ⟨hnil, hended⟩
    unfold render
    rw [hnil, hended]
    rfl

theorem exists_getLast?_cutLines_render (hne : d.lines ≠ []) : ∃ l ∈ d.lines.getLast?, ∃ b,
    (cutLines (d.render style)).1.getLast? = some (l.render style b) := by
  obtain ⟨m, hm⟩ := Option.ne_none_iff_exists'.1
    (mt List.getLast?_eq_none_iff.1 (renderLines_ne_nil style false _ hne))
  obtain ⟨l, hl, b, rfl⟩ := exists_of_getLast?_renderLines style false d.lines m hm
  refine ⟨l, hl, b, ?_⟩
  rw [d.cutLines_render style hd hne, hm]

end Document

/-! ## Edits -/

namespace Intent

variable (i : Intent)

theorem isFresh_of_mem_newLines (d : Document) : ∀ l ∈ i.newLines d, l.isFresh = true := by
  have hattr : ∀ l ∈ i.attrLines d, l.isFresh = true := by
    intro l hl
    unfold attrLines at hl
    split at hl
    · cases hl
    · obtain ⟨v, -, rfl⟩ := List.mem_map.1 hl
      rfl
  intro l hl
  unfold newLines at hl
  split at hl
  · exact hattr l hl
  · rcases List.mem_append.1 hl with hl | hl
    · unfold gap at hl
      split at hl
      · cases hl
      · rw [List.mem_singleton.1 hl]
        rfl
    · rcases List.mem_cons.1 hl with rfl | hl
      · rfl
      · exact hattr l hl
  · cases hl

theorem ended_edit_iff (d : Document) : (i.edit d).ended = true ↔
    d.ended = true ∨ (i.plan d).1.TouchesEnd d.lines.length :=
  (i.plan d).1.ended_apply_iff d (i.lt_length_of_deletes d) (i.le_length_of_insertedAt d)

theorem ended_edit_iff_last (d : Document) (hkept : ∀ l ∈ d.lines, l.isFresh = false) :
    (i.edit d).ended = true ↔ d.ended = true ∨
      (∃ l ∈ (i.edit d).lines.getLast?, l.isFresh = true) ∨ (i.plan d).1.DeletesLast d := by
  have hfresh : ∀ n, ∀ l ∈ (i.plan d).1.insertedAt n, l.isFresh = true := by
    intro n l hl
    rw [i.insertedAt_plan d] at hl
    split at hl
    · exact i.isFresh_of_mem_newLines d l hl
    · cases hl
  rw [i.ended_edit_iff d, (i.plan d).1.touchesEnd_iff_last d hkept hfresh]
  rfl

/-- A document without a newline at its end ends as it did before. -/
theorem eq_of_ended_edit_eq_false (d : Document) (h : (i.edit d).ended = false) :
    d.ended = false ∧ (i.edit d).lines.getLast? = d.lines.getLast? := by
  rw [← Bool.not_eq_true, i.ended_edit_iff d, not_or, Bool.not_eq_true] at h
  exact ⟨h.1, (i.plan d).1.getLast?_lines_apply d h.2⟩

/-- How the text that an edit writes ends. -/
structure KeepsEnd (style : Style) (t : Text) : Prop where
  text_ne_nil : dropMark t ≠ [] → (i.apply style t).text ≠ []
  /-- No newline is lost, and none is put behind an old last line. -/
  getLast?_eq_newline_iff : (i.apply style t).text.getLast? = some '\n' ↔
    (dropMark t).getLast? = some '\n' ∨
      (∃ l ∈ (i.edit (.read t)).lines.getLast?, l.isFresh = true) ∨
        (i.plan (.read t)).1.DeletesLast (.read t)
  /-- A last line without a newline is the old one, which had none. -/
  last_eq : (i.apply style t).text ≠ [] → (i.apply style t).text.getLast? ≠ some '\n' →
    (dropMark t).getLast? ≠ some '\n' ∧
      ∃ l, (cutLines (dropMark t)).1.getLast? = some l ∧
        (cutLines (i.apply style t).text).1.getLast? = some l
  /-- Where all lines go and none comes one newline is left. -/
  text_eq : dropMark t ≠ [] →
    (∀ n < (Document.read t).lines.length, (i.plan (.read t)).1.Deletes n) →
    (∀ n, (i.plan (.read t)).1.insertedAt n = []) → (i.apply style t).text = ['\n']

section
variable (style : Style) (t : Text) (hv : i.Valid)

include hv

theorem getLast?_text_apply_eq_newline_iff : (i.apply style t).text.getLast? = some '\n' ↔
    (dropMark t).getLast? = some '\n' ∨
      (∃ l ∈ (i.edit (.read t)).lines.getLast?, l.isFresh = true) ∨
        (i.plan (.read t)).1.DeletesLast (.read t) := by
  have hread := Document.fits_read t
  have hedit := i.fits_edit hv _ hread
  have hkept : ∀ l ∈ (Document.read t).lines, l.isFresh = false := by
    intro l hl
    obtain ⟨raw, -, rfl⟩ := List.mem_map.1 hl
    rfl
  rw [i.text_apply, Document.getLast?_render_eq_newline_iff style _ hedit,
    i.ended_edit_iff_last _ hkept, ← Document.getLast?_render_eq_newline_iff style _ hread,
    Document.render_read]

theorem text_apply_ne_nil (hne : dropMark t ≠ []) : (i.apply style t).text ≠ [] := by
  have hread := Document.fits_read t
  rw [i.text_apply, Ne, Document.render_eq_nil_iff style _ (i.fits_edit hv _ hread)]
  rintro ⟨hnil, hended⟩
  obtain ⟨hended', hlast⟩ := i.eq_of_ended_edit_eq_false _ hended
  rw [hnil, eq_comm] at hlast
  apply hne
  rw [← Document.render_read style t, Document.render_eq_nil_iff style _ hread]
  exact ⟨List.getLast?_eq_none_iff.1 hlast, hended'⟩

theorem exists_getLast?_cutLines_text_apply (hne : (i.apply style t).text ≠ [])
    (hlast : (i.apply style t).text.getLast? ≠ some '\n') :
    ∃ l, (cutLines (dropMark t)).1.getLast? = some l ∧
      (cutLines (i.apply style t).text).1.getLast? = some l := by
  have hedit := i.fits_edit hv _ (Document.fits_read t)
  rw [i.text_apply] at hne hlast ⊢
  rw [Ne, Document.getLast?_render_eq_newline_iff style _ hedit, Bool.not_eq_true] at hlast
  have hlines : (i.edit (.read t)).lines ≠ [] := fun hnil =>
    hne ((Document.render_eq_nil_iff style _ hedit).2 ⟨hnil, hlast⟩)
  obtain ⟨l, hl, b, hcut⟩ := Document.exists_getLast?_cutLines_render style _ hedit hlines
  rw [(i.eq_of_ended_edit_eq_false _ hlast).2] at hl
  unfold Document.read at hl
  rw [List.getLast?_map] at hl
  obtain ⟨raw, hraw, rfl⟩ := Option.map_eq_some_iff.1 hl
  exact ⟨raw, hraw, hcut⟩

omit hv in
theorem text_apply_of_deletes_all (hne : dropMark t ≠ [])
    (hall : ∀ n < (Document.read t).lines.length, (i.plan (.read t)).1.Deletes n)
    (hnone : ∀ n, (i.plan (.read t)).1.insertedAt n = []) : (i.apply style t).text = ['\n'] := by
  have hlines : (i.edit (.read t)).lines = [] := by
    unfold edit
    rw [Patch.lines_apply, Patch.splice_of_insertedAt_eq_nil _ _ _ fun m _ => hnone m,
      Patch.remaining_eq_nil_iff]
    intro n hn
    rw [Nat.zero_add]
    exact hall n hn
  have hedit := (i.plan (.read t)).1.apply_eq_of_lines_eq_nil _
    (Document.lines_read_ne_nil t hne) hlines
  rw [i.text_apply]
  unfold edit
  rw [hedit]
  rfl

end

theorem keepsEnd_of_check (style : Style) (t : Text) (w : Draft) (hw : w.check = .ok i) :
    i.KeepsEnd style t := by
  have hv := w.valid_of_check i hw
  have hiff := i.getLast?_text_apply_eq_newline_iff style t hv
  constructor
  case text_ne_nil => exact i.text_apply_ne_nil style t hv
  case getLast?_eq_newline_iff => exact hiff
  case last_eq =>
    intro hne hlast
    refine ⟨fun hold => hlast (hiff.2 (Or.inl hold)), ?_⟩
    exact i.exists_getLast?_cutLines_text_apply style t hv hne hlast
  case text_eq => exact i.text_apply_of_deletes_all style t

/-- With the last line its place goes to the newline in front of it, and a line that stays behind
gets none. -/
theorem keepsEnd_of_check_of_last_line :
    let w : Draft := { scope := .top, attr := some ['a'], presence := .absent }
    let i : Intent := ⟨.top, some ['a'], [], .absent, true, false⟩
    w.check = .ok i ∧
      (i.apply .spaced ['#', '\n', 'a', '=', '1']).text.getLast? = some '\n' ∧
      (∃ l, (cutLines ['a', '=', '1', '\n', '#']).1.getLast? = some l ∧
        (cutLines (i.apply .spaced ['a', '=', '1', '\n', '#']).text).1.getLast? = some l) ∧
      (i.apply .spaced ['a', '=', '1', '\n', 'a']).text = ['\n'] := by
  intro w i
  have hcheck : w.check = .ok i := rfl
  have hkeeps := fun t => i.keepsEnd_of_check .spaced t w hcheck
  refine ⟨hcheck, ?_, ?_, ?_⟩
  · exact (hkeeps _).getLast?_eq_newline_iff.2 (Or.inr (Or.inr ⟨1, by decide, by decide⟩))
  · exact ((hkeeps ['a', '=', '1', '\n', '#']).last_eq (by decide) (by decide)).2
  · refine (hkeeps _).text_eq (by decide) (by decide) fun n => ?_
    rw [i.insertedAt_plan]
    exact ite_self _

end Intent

end Stanzas
