import Mathlib.Data.List.Basic
import Stanzas.Edit
import Stanzas.Proofs.Plan.Fits
import Stanzas.Proofs.Plan.Holds

/-!
# Edits of texts

What `Intent.apply` writes is read back as the edited document. For a checked intent and any text,
in both styles, unless the text that it writes starts with a byte-order mark:

* every line is read as what it is in the edited document (`kinds_read_render_edit`);
* the attribute of the intent has the values that the intent asks for, and all others have those
  that they had (`values_read_apply`);
* to apply the intent once more changes nothing (`apply_apply`).
-/

namespace Stanzas

theorem Outcome.changed_eq_true_iff (o : Outcome) : o.changed = true ↔ o.reason ≠ .unchanged :=
  decide_eq_true_iff

theorem Outcome.changed_eq_false_iff (o : Outcome) : o.changed = false ↔ o.reason = .unchanged :=
  decide_eq_false_iff_not.trans not_not

namespace Intent

variable (i : Intent) (style : Style) (t : Text)

theorem text_apply : (i.apply style t).text = (i.edit (.read t)).render style := rfl

section
variable (hv : i.Valid) (hm : (i.apply style t).text.head? ≠ some byteOrderMark)

include hv hm

theorem scopes_read_text_apply :
    (Document.read (i.apply style t).text).scopes = (i.edit (.read t)).scopes := by
  have hfits := i.fits_edit hv _ (Document.fits_read t)
  exact Document.scopes_read_render style _ hfits hm

theorem values_read_text_apply (x : Scope) (b : Text) :
    (Document.read (i.apply style t).text).values x b = (i.edit (.read t)).values x b := by
  have hfits := i.fits_edit hv _ (Document.fits_read t)
  exact Document.values_read_render style _ hfits hm x b

/-- A reader of the text finds that the intent holds. -/
theorem holds_read_text_apply : i.Holds (.read (i.apply style t).text) :=
  (i.holds_edit (.read t)).congr _ (i.scopes_read_text_apply style t hv hm)
    (i.values_read_text_apply style t hv hm)

end

/-! ## Lines -/

/-- No name and no value makes a line of another kind, or one line more. -/
theorem kinds_read_render_edit (w : Draft) (hw : w.check = .ok i)
    (hne : (i.edit (.read t)).lines ≠ [])
    (hm : ((i.edit (.read t)).render style).head? ≠ some byteOrderMark) :
    (Document.read ((i.edit (.read t)).render style)).lines.length =
        (i.edit (.read t)).lines.length ∧
      (Document.read ((i.edit (.read t)).render style)).lines.map Line.kind =
        (i.edit (.read t)).lines.map Line.kind ∧
      (Document.read ((i.edit (.read t)).render style)).ended = (i.edit (.read t)).ended := by
  have hfits := i.fits_edit (w.valid_of_check i hw) _ (Document.fits_read t)
  have hkinds := Document.map_kind_read_render style _ hfits hne hm
  have hread := Document.read_render style _ hfits hne hm
  refine ⟨?_, hkinds, ?_⟩
  · have hlen := congrArg List.length hkinds
    rwa [List.length_map, List.length_map] at hlen
  · rw [hread]

theorem kinds_read_render_edit_bare :
    Draft.check { scope := .stanza ['s'], attr := some [':', '#'], allowNoValue := true } =
        .ok ⟨.stanza ['s'], some [':', '#'], [], .present, true, true⟩ ∧
      (Document.read ((edit ⟨.stanza ['s'], some [':', '#'], [], .present, true, true⟩
        (.read ['s', ':'])).render .compact)).lines.map Line.kind =
          [.header ['s'], .attribute [':', '#'] none] :=
  ⟨rfl, (kinds_read_render_edit _ .compact ['s', ':']
    { scope := .stanza ['s'], attr := some [':', '#'], allowNoValue := true } rfl (by decide)
    (by decide)).2.1.trans (by decide)⟩

/-! ## Values -/

/-- An edit sets the values of its attribute and of no other one. -/
theorem values_read_apply (w : Draft) (hw : w.check = .ok i)
    (hm : (i.apply style t).text.head? ≠ some byteOrderMark) (a : Text) (ha : i.attr = some a) :
    (Document.read (i.apply style t).text).values i.scope a =
        i.valuesAfter ((Document.read t).values i.scope a) ∧
      ∀ x b, (x, b) ≠ (i.scope, a) →
        (Document.read (i.apply style t).text).values x b = (Document.read t).values x b := by
  have hvalues := i.values_read_text_apply style t (w.valid_of_check i hw) hm
  constructor
  · rw [hvalues, i.values_edit _ a ha, if_pos ⟨rfl, rfl⟩]
  · intro x b hne
    rw [hvalues, i.values_edit _ a ha, if_neg]
    rintro ⟨rfl, rfl⟩
    exact hne rfl

theorem values_read_apply_exclusive :
    Draft.check { scope := .stanza ['s'], attr := some ['a'], values := [['2'], ['3']] } =
        .ok ⟨.stanza ['s'], some ['a'], [['2'], ['3']], .present, true, false⟩ ∧
      (Document.read (apply ⟨.stanza ['s'], some ['a'], [['2'], ['3']], .present, true, false⟩
        .spaced ['s', ':', '\n', 'a', '=', '3', '\n', 'a']).text).values (.stanza ['s']) ['a'] =
          [some ['3'], some ['2']] :=
  ⟨rfl, (values_read_apply _ .spaced ['s', ':', '\n', 'a', '=', '3', '\n', 'a']
    { scope := .stanza ['s'], attr := some ['a'], values := [['2'], ['3']] } rfl (by decide)
    ['a'] rfl).1.trans (by decide)⟩

/-! ## Once more -/

/-- An edit that has been made finds nothing to do, whatever the style of the second one is. -/
theorem apply_apply (w : Draft) (hw : w.check = .ok i)
    (hm : (i.apply style t).text.head? ≠ some byteOrderMark) (style' : Style) :
    (i.apply style' (i.apply style t).text).reason = .unchanged ∧
      (i.apply style' (i.apply style t).text).text = (i.apply style t).text := by
  have hv := w.valid_of_check i hw
  have hplan := i.plan_of_holds _ hv (i.holds_read_text_apply style t hv hm)
  constructor
  · show (i.plan _).2 = .unchanged
    rw [hplan]
  · show ((i.plan _).1.apply _).render style' = _
    rw [hplan, Patch.apply_of_isEmpty ∅ _ Patch.isEmpty_empty, Document.render_read,
      dropMark_of_head?_ne _ hm]

theorem apply_apply_compact :
    Draft.check { scope := .stanza ['s'], attr := some ['a'], values := [['2']] } =
        .ok ⟨.stanza ['s'], some ['a'], [['2']], .present, true, false⟩ ∧
      (apply ⟨.stanza ['s'], some ['a'], [['2']], .present, true, false⟩ .compact (apply
        ⟨.stanza ['s'], some ['a'], [['2']], .present, true, false⟩ .spaced ['b']).text).text =
          ['b', '\n', '\n', 's', ':', '\n', ' ', ' ', 'a', ' ', '=', ' ', '2', '\n'] :=
  ⟨rfl, (apply_apply _ .spaced ['b']
    { scope := .stanza ['s'], attr := some ['a'], values := [['2']] } rfl (by decide)
    .compact).2.trans (by decide)⟩

end Intent

end Stanzas
