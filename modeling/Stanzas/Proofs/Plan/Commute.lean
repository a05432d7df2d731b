import Mathlib.Data.List.Basic
import Stanzas.Proofs.Plan.Reason
import Stanzas.Proofs.Plan.Section
import Stanzas.Proofs.Plan.Values

/-!
# Edits of two scopes

Attributes of two scopes that a document has can be edited in either order: the numbers of the lines
that the second edit sees depend on the first one, but the document is the same in the end, and each
edit does in both orders what it would do alone (`edit_edit_comm`).
-/

namespace Stanzas

namespace Intent

section
variable (i j : Intent) (a b : Text) (ha : i.attr = some a) (hb : j.attr = some b)

include ha hb

/-- Of two scopes one comes first; only the edit of the other one can reach the end. -/
theorem edit_edit_comm_of_sections (d : Document) (front between back : List Section)
    (s t : Section) (hd : d.sections = front ++ s :: (between ++ t :: back))
    (hs : s.scope = i.scope) (ht : t.scope = j.scope) (hfront : ∀ u ∈ front, u.scope ≠ i.scope)
    (hother : ∀ u ∈ front ++ s :: between, u.scope ≠ j.scope) :
    j.edit (i.edit d) = i.edit (j.edit d) := by
  have hassoc : ∀ u v : Section,
      front ++ u :: (between ++ v :: back) = (front ++ u :: between) ++ v :: back := by
    intro u v
    rw [List.append_assoc, List.cons_append]
  have hne : ∀ u : Section, u.scope = s.scope →
      ∀ v ∈ front ++ u :: between, v.scope ≠ j.scope := by
    intro u hu v hv
    rcases List.mem_append.1 hv with hv | hv
    · exact hother v (List.mem_append_left _ hv)
    · rcases List.mem_cons.1 hv with rfl | hv
      · exact hu ▸ hother s (by simp)
      · exact hother v (List.mem_append_right _ (List.mem_cons_of_mem _ hv))
  have hmore : ∀ v : Section, between ++ v :: back ≠ [] := by simp
  -- the edit of the first section, before and after that of the second one
  obtain ⟨hi, hiended⟩ := i.edit_of_sections a ha d front _ s hd hs hfront
  obtain ⟨hj, hjended⟩ := j.edit_of_sections b hb d _ back t (hd.trans (hassoc s t)) ht hother
  obtain ⟨hij, hijended⟩ := j.edit_of_sections b hb (i.edit d) _ back t (hi.trans (hassoc _ t)) ht
    (hne _ rfl)
  obtain ⟨hji, hjiended⟩ := i.edit_of_sections a ha (j.edit d) front _ s
    (hj.trans (hassoc s _).symm) hs hfront
  have hlines : (j.edit (i.edit d)).lines = (i.edit (j.edit d)).lines := by
    rw [← Document.flatMap_lines_sections, ← Document.flatMap_lines_sections, hij, hji, hassoc]
  have hended : (j.edit (i.edit d)).ended = true ↔ (i.edit (j.edit d)).ended = true := by
    rw [hijended, hiended, hjiended, hjended]
    simp only [hmore, false_and, or_false]
  exact congrArg₂ Document.mk hlines (Bool.eq_iff_iff.2 hended)

variable (d : Document) (s t : Span) (hs : d.span? i.scope = some s)
  (ht : d.span? j.scope = some t) (hne : i.scope ≠ j.scope)

include hs ht hne

/-- An edit of another scope changes nothing that the reason depends on. -/
theorem snd_plan_edit_of_scope_ne : (j.plan (i.edit d)).2 = (j.plan d).2 := by
  have hscopes := i.scopes_edit_of_span? d a ha s hs
  obtain ⟨t', ht'⟩ : ∃ t', (i.edit d).span? j.scope = some t' := by
    apply Option.ne_none_iff_exists'.1
    rw [ne_eq, Document.span?_eq_none_iff, hscopes, ← Document.span?_eq_none_iff, ht]
    simp
  have hvalues := i.values_edit d a ha j.scope b
  rw [if_neg fun h => hne h.1.symm, Document.values_of_span? _ _ b t' ht',
    d.values_of_span? _ b t ht] at hvalues
  rw [j.snd_plan_of_attr _ b hb t' ht', j.snd_plan_of_attr d b hb t ht, hvalues]

theorem edit_edit_comm : j.edit (i.edit d) = i.edit (j.edit d) ∧
    (j.plan (i.edit d)).2 = (j.plan d).2 ∧ (i.plan (j.edit d)).2 = (i.plan d).2 := by
  refine ⟨?_, i.snd_plan_edit_of_scope_ne j a b ha hb d s t hs ht hne,
    j.snd_plan_edit_of_scope_ne i b a hb ha d t s ht hs hne.symm⟩
  obtain ⟨front, back, hd, -, hscope, hfront⟩ := d.sections_of_span? _ s hs
  obtain ⟨front', back', hd', -, hscope', hfront'⟩ := d.sections_of_span? _ t ht
  have hst : s.toSection ≠ t.toSection := by
    intro h
    exact hne (hscope ▸ hscope' ▸ congrArg Section.scope h)
  rcases List.append_eq_append_iff.1 (hd.symm.trans hd') with ⟨between, hpre, hpost⟩ |
    ⟨between, hpre, hpost⟩
  · cases between with
    | nil => exact absurd (List.cons.inj hpost).1 hst
    | cons u between =>
      obtain ⟨rfl, rfl⟩ := List.cons.inj hpost
      subst hpre
      exact i.edit_edit_comm_of_sections j a b ha hb d front between back' _ _ hd hscope hscope'
        hfront hfront'
  · cases between with
    | nil => exact absurd (List.cons.inj hpost).1.symm hst
    | cons u between =>
      obtain ⟨rfl, rfl⟩ := List.cons.inj hpost
      subst hpre
      exact (j.edit_edit_comm_of_sections i b a hb ha d front' between back _ _ hd' hscope' hscope
        hfront' hfront).symm

end

/-- What is new in one stanza goes in front of the header of the next one, which loses the last line
of the document. -/
theorem edit_edit_comm_of_neighbours :
    let i : Intent := ⟨.stanza ['s'], some ['a'], [['2']], .present, true, false⟩
    let j : Intent := ⟨.stanza ['t'], some ['b'], [], .absent, true, false⟩
    let d := Document.read ['s', ':', '\n', 't', ':', '\n', 'b', '=', '1']
    i.scope ≠ j.scope ∧ (d.span? i.scope).isSome = true ∧ (d.span? j.scope).isSome = true ∧
      (j.edit (i.edit d)).render .spaced = "s:\n  a = 2\nt:\n".toList ∧
      (i.edit (j.edit d)).render .spaced = "s:\n  a = 2\nt:\n".toList ∧
      (j.plan (i.edit d)).2 = .attrChanged ∧ (i.plan (j.edit d)).2 = .attrAdded := by
  intro i j d
  have hne : i.scope ≠ j.scope := by decide
  have hs : (d.span? i.scope).isSome = true := by decide
  have ht : (d.span? j.scope).isSome = true := by decide
  obtain ⟨s, hs'⟩ := Option.isSome_iff_exists.1 hs
  obtain ⟨t, ht'⟩ := Option.isSome_iff_exists.1 ht
  have htext : (j.edit (i.edit d)).render .spaced = "s:\n  a = 2\nt:\n".toList := by decide +kernel
  have hj : (j.plan d).2 = .attrChanged := by decide +kernel
  have hi : (i.plan d).2 = .attrAdded := by decide +kernel
  obtain ⟨hcomm, hj', hi'⟩ := i.edit_edit_comm j ['a'] ['b'] rfl rfl d s t hs' ht' hne
  exact ⟨hne, hs, ht, htext, hcomm ▸ htext, hj'.trans hj, hi'.trans hi⟩

end Intent

end Stanzas
