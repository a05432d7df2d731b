import Mathlib.Data.List.Basic
import Stanzas.Proofs.Edit
import Stanzas.Report

/-!
# Whether an edit changes anything

An outcome is unchanged just if its text is the one that was read (`changed_apply_eq_false_iff`). In
one direction the reason `unchanged` comes with the empty patch (`fst_plan_of_unchanged`). In the
other one the text tells the scopes and values of the edited document, where the intent holds; so it
held before, and then there was nothing to do (`holds_of_text_apply_eq`).
-/

namespace Stanzas

/-! ## The reason of a plan -/

namespace Span

variable (s : Span) (a : Text) (desired : List (Option Text))

theorem fst_replaceValues_of_unchanged (h : (s.replaceValues a desired).2 = .unchanged) :
    (s.replaceValues a desired).1 = ∅ := by
  unfold replaceValues at h ⊢
  split
  · next hocc =>
    simp only [hocc] at h
    cases h
  · next first rest hocc =>
    simp only [hocc] at h ⊢
    split
    · rfl
    · next hd =>
      rw [if_neg hd] at h
      cases h

theorem fst_addValues_of_unchanged (h : (s.addValues a desired).2 = .unchanged) :
    (s.addValues a desired).1 = ∅ := by
  unfold addValues at h ⊢
  split
  · rfl
  · next hnew =>
    simp only [hnew] at h
    cases h

theorem fst_remove_of_unchanged (d : Document) (h : (s.remove d).2 = .unchanged) :
    (s.remove d).1 = ∅ := by
  unfold remove at h ⊢
  cases hx : s.scope with
  | top =>
    cases hp : s.places with
    | nil => rfl
    | cons p ps =>
      simp only [hx, hp] at h
      cases h
  | stanza name =>
    simp only [hx] at h
    cases h

end Span

namespace Intent

theorem fst_dropPlaces_of_unchanged (places : List Place) (h : (dropPlaces places).2 = .unchanged) :
    (dropPlaces places).1 = ∅ := by
  cases places with
  | nil => rfl
  | cons p ps => cases h

variable (i : Intent)

/-- A plan that is said to change nothing has nothing in it. -/
theorem fst_plan_of_unchanged (d : Document) (h : (i.plan d).2 = .unchanged) :
    (i.plan d).1 = ∅ := by
  unfold plan at h ⊢
  cases hs : d.span? i.scope with
  | none =>
    cases hp : i.presence with
    | absent => rfl
    | present => cases ha : i.attr <;> simp only [hs, hp, ha] at h <;> cases h
  | some s =>
    cases hp : i.presence with
    | present =>
      cases ha : i.attr with
      | none => rfl
      | some a =>
        simp only [hs, hp, ha] at h ⊢
        split
        · next he =>
          rw [if_pos he] at h
          exact s.fst_replaceValues_of_unchanged a _ h
        · next he =>
          rw [if_neg he] at h
          exact s.fst_addValues_of_unchanged a _ h
    | absent =>
      cases ha : i.attr with
      | none =>
        simp only [hs, hp, ha] at h ⊢
        exact s.fst_remove_of_unchanged d h
      | some a =>
        simp only [hs, hp, ha] at h ⊢
        split
        · next he =>
          rw [if_pos he] at h
          exact fst_dropPlaces_of_unchanged _ h
        · next he =>
          rw [if_neg he] at h
          exact fst_dropPlaces_of_unchanged _ h

end Intent

/-! ## What a text tells of its document -/

namespace Document

variable (style : Style) (d : Document) (hd : d.Fits) (t : Text) (h : d.render style = dropMark t)

include h

theorem read_of_render_eq_dropMark (hd : d.Fits) (hne : d.lines ≠ []) :
    read t = ⟨(renderLines style false d.lines).map .kept, d.ended⟩ := by
  unfold read
  rw [← h, cutLines_render style d hd hne]

include hd

/-- A document is read from its text, also if that starts with a mark of its own. -/
theorem scopes_values_of_render_eq_dropMark :
    (read t).scopes = d.scopes ∧ ∀ x a, (read t).values x a = d.values x a := by
  by_cases hne : d.lines = []
  · have hm : (d.render style).head? ≠ some byteOrderMark := by
      rw [Ne, head?_render_eq_mark_iff, hne]
      simp
    have hread : read (d.render style) = read t := by
      unfold read
      rw [dropMark_of_head?_ne _ hm, h]
    rw [← hread]
    exact scopes_values_of_lines_eq_nil style d hne
  · have hkinds : (read t).lines.map Line.kind = d.lines.map Line.kind := by
      rw [read_of_render_eq_dropMark style d t h hd hne, List.map_map]
      exact map_ofText_renderLines style false d.lines hd.lines
    exact ⟨scopes_congr _ _ hkinds, values_congr _ _ hkinds⟩

end Document

/-! ## Outcomes -/

namespace Intent

variable (i : Intent) (style : Style) (t : Text)

theorem changed_apply_eq_false : (i.apply style t).changed = false ↔
    (i.plan (.read t)).2 = .unchanged :=
  (i.apply style t).changed_eq_false_iff

/-- Where the text is not changed the intent holds already. -/
theorem holds_of_text_apply_eq (hv : i.Valid) (h : (i.apply style t).text = dropMark t) :
    i.Holds (.read t) := by
  have hfits := i.fits_edit hv _ (Document.fits_read t)
  obtain ⟨hscopes, hvalues⟩ := Document.scopes_values_of_render_eq_dropMark style _ hfits t h
  exact (i.holds_edit (.read t)).congr _ hscopes hvalues

theorem changed_apply_eq_false_iff (w : Draft) (hw : w.check = .ok i) :
    ((i.apply style t).changed = false ↔ (i.apply style t).text = dropMark t) ∧
      (∀ path, (Diff.between path t (i.apply style t).text).before =
          (Diff.between path t (i.apply style t).text).after ↔
        (i.apply style t).changed = false) ∧
      ((i.apply style t).reason ≠ .unchanged → (i.apply style t).text ≠ dropMark t) := by
  have hv := w.valid_of_check i hw
  have key : (i.apply style t).text = dropMark t ↔ (i.apply style t).reason = .unchanged := by
    constructor
    · intro h
      show (i.plan (.read t)).2 = .unchanged
      rw [i.plan_of_holds _ hv (i.holds_of_text_apply_eq style t hv h)]
    · intro h
      show ((i.plan (.read t)).1.apply _).render style = _
      rw [i.fst_plan_of_unchanged _ h, Patch.apply_of_isEmpty ∅ _ Patch.isEmpty_empty,
        Document.render_read]
  have hchanged : (i.apply style t).changed = false ↔ (i.apply style t).text = dropMark t := by
    rw [i.changed_apply_eq_false, key]
    rfl
  refine ⟨hchanged, ?_, fun hr ht => hr (key.1 ht)⟩
  intro path
  rw [hchanged]
  exact eq_comm

/-- Another value of as many characters is a change. -/
theorem changed_apply_of_other_value :
    Draft.check { scope := .top, attr := some ['a'], values := [['2']] } =
        .ok ⟨.top, some ['a'], [['2']], .present, true, false⟩ ∧
      ((apply ⟨.top, some ['a'], [['2']], .present, true, false⟩ .compact
          [byteOrderMark, 'a', '=', '2']).text = ['a', '=', '2'] ∧
        (apply ⟨.top, some ['a'], [['2']], .present, true, false⟩ .compact
          ['a', '=', '1']).text ≠ ['a', '=', '1']) :=
  ⟨rfl, (changed_apply_eq_false_iff _ .compact [byteOrderMark, 'a', '=', '2']
      { scope := .top, attr := some ['a'], values := [['2']] } rfl).1.1 (by decide),
    (changed_apply_eq_false_iff _ .compact ['a', '=', '1']
      { scope := .top, attr := some ['a'], values := [['2']] } rfl).2.2 (by decide)⟩

end Intent

end Stanzas
