import Mathlib.Data.List.Basic
import Stanzas.Proofs.Plan.Attribute
import Stanzas.Proofs.Plan.WholeScope

/-!
# What a document holds after an edit

An intent about an attribute changes the values of that attribute in its scope and of nothing else,
and what they become depends on what they were alone (`Intent.valuesAfter`):

    (i.edit d).values x b =
      if x = i.scope ∧ b = a then i.valuesAfter (d.values x b) else d.values x b      (values_edit)

The scopes after an edit are those before it, those of the intent added or taken (`scopes_edit`).
-/

namespace Stanzas

/-! ## Values by sections -/

namespace Document

variable (d e : Document) (pre post : List Section) (s t : Section)

/-- The first section of a scope has its values. -/
theorem values_of_sections (hd : d.sections = pre ++ s :: post)
    (hpre : ∀ u ∈ pre, u.scope ≠ s.scope) (a : Text) : d.values s.scope a = s.values a := by
  have hnone : pre.find? (·.scope = s.scope) = none := by
    rw [List.find?_eq_none]
    intro u hu
    simpa using hpre u hu
  rw [values_eq, hd, List.find?_append, hnone, Option.none_or, List.find?_cons_of_pos (by simp)]
  rfl

/-- A section has no part in the values of another scope. -/
theorem values_of_replaced (hd : d.sections = pre ++ s :: post) (he : e.sections = pre ++ t :: post)
    (ht : t.scope = s.scope) (x : Scope) (hx : x ≠ s.scope) (a : Text) :
    e.values x a = d.values x a := by
  rw [values_eq, values_eq, hd, he, List.find?_append, List.find?_append,
    List.find?_cons_of_neg (by simpa [ht] using Ne.symm hx),
    List.find?_cons_of_neg (by simpa using Ne.symm hx)]

end Document

theorem Section.values_append (s : Section) (ls : List Line) (a : Text)
    (h : ∀ l ∈ ls, ∀ v, l.kind ≠ .attribute a v) :
    Section.values ⟨s.scope, s.lines ++ ls⟩ a = s.values a := by
  show lineValues a (s.lines ++ ls) = lineValues a s.lines
  rw [lineValues_append, lineValues_eq_nil a ls h, List.append_nil]

namespace Intent

variable (i : Intent) (d : Document)

/-- The values of the attribute after an edit, by those before it. -/
def valuesAfter (old : List (Option Text)) : List (Option Text) :=
  match i.presence, i.exclusive with
  | .present, true => old.filter (· ∈ i.desired) ++ i.desired.filter (· ∉ old)
  | .present, false => old ++ i.desired.filter (· ∉ old)
  | .absent, true => []
  | .absent, false => old.filter (· ∉ i.values.map some)

theorem valuesAfter_eq (old : List (Option Text)) :
    i.valuesAfter old = old.filter (! i.drops ·) ++ i.missing old := by
  unfold valuesAfter drops missing
  cases i.presence with
  | present => cases i.exclusive <;> simp
  | absent =>
    cases i.exclusive with
    | true => simp
    | false =>
      rw [List.append_nil]
      apply List.filter_congr
      intro v _
      exact decide_not

/-! ## Values of an attribute -/

section
variable (a : Text) (ha : i.attr = some a)

include ha

theorem values_edit_of_span? (s : Span) (hs : d.span? i.scope = some s) (x : Scope) (b : Text) :
    (i.edit d).values x b =
      if x = i.scope ∧ b = a then i.valuesAfter (d.values x b) else d.values x b := by
  obtain ⟨pre, post, hd, hpre, he⟩ := i.sections_edit_of_attr a s d ha hs
  obtain ⟨-, -, -, -, hscope, -⟩ := d.sections_of_span? _ s hs
  by_cases hx : x = i.scope
  · subst hx
    have hold := d.values_of_sections pre post s.toSection hd hpre b
    have hnew := (i.edit d).values_of_sections pre post (i.rewrite s a) he hpre b
    rw [hscope] at hold
    rw [show (i.rewrite s a).scope = i.scope from hscope] at hnew
    rw [hold, hnew]
    by_cases hb : b = a
    · rw [hb, if_pos ⟨rfl, rfl⟩, i.values_rewrite_self a s, i.valuesAfter_eq]
    · rw [if_neg fun h => hb h.2, i.values_rewrite_of_ne a s b hb]
  · rw [if_neg fun h => hx h.1]
    exact d.values_of_replaced (i.edit d) pre post s.toSection _ hd he rfl x (hscope ▸ hx) b

omit ha in
/-- A new stanza has the values of the lines that are written into it. -/
theorem values_edit_of_new_stanza (hs : d.span? i.scope = none) (hp : i.presence = .present)
    (b : Text) : (i.edit d).values i.scope b = lineValues b (i.attrLines d) := by
  obtain ⟨name, pre, hname, he, hpre, -⟩ := i.sections_edit_of_missing_eq d hs hp
  have hnew := (i.edit d).values_of_sections pre [] ⟨.stanza name, .header name :: i.attrLines d⟩
    he hpre b
  simp only at hnew
  rw [hname, hnew]
  show lineValues b ([.header name] ++ i.attrLines d) = _
  rw [lineValues_append, lineValues_eq_nil b [.header name] (by simp [Line.kind]), List.nil_append]

/-- A new stanza starts with all the values that are desired. -/
theorem values_edit_of_missing_self (hs : d.span? i.scope = none) (hp : i.presence = .present)
    (b : Text) : (i.edit d).values i.scope b = if b = a then i.desired else [] := by
  rw [i.values_edit_of_new_stanza d hs hp, i.attrLines_of_span?_eq_none d hs hp a ha]
  by_cases hb : b = a
  · rw [if_pos hb, hb, lineValues_map_attribute_self]
  · rw [if_neg hb]
    apply lineValues_eq_nil
    intro l hl v hk
    obtain ⟨w, -, rfl⟩ := List.mem_map.1 hl
    exact hb (Kind.attribute.inj hk).1.symm

omit ha in
theorem values_edit_of_missing_other (hs : d.span? i.scope = none) (hp : i.presence = .present)
    (x : Scope) (hx : x ≠ i.scope) (b : Text) : (i.edit d).values x b = d.values x b := by
  obtain ⟨name, init, last, hname, hd, he⟩ := i.sections_edit_of_missing d hs hp
  have hgap : Section.values ⟨last.scope, last.lines ++ gap d⟩ b = last.values b := by
    apply last.values_append (gap d) b
    intro l hl v
    unfold gap at hl
    split at hl
    · cases hl
    · rw [List.mem_singleton.1 hl]
      simp [Line.kind]
  have hnew : ¬ Scope.stanza name = x := by
    rw [← hname]
    exact Ne.symm hx
  rw [Document.values_eq, Document.values_eq, hd, he, List.find?_append, List.find?_append]
  cases init.find? (·.scope = x) with
  | some u => rfl
  | none =>
    by_cases hl : last.scope = x
    · simpa [hl] using hgap
    · simp [hl, hnew]

theorem values_edit_of_missing (hs : d.span? i.scope = none) (hp : i.presence = .present)
    (x : Scope) (b : Text) : (i.edit d).values x b =
      if x = i.scope ∧ b = a then i.valuesAfter (d.values x b) else d.values x b := by
  have hold : ∀ c, d.values i.scope c = [] :=
    fun c => d.values_of_notMem_scopes _ c ((d.span?_eq_none_iff _).1 hs)
  have hafter : i.valuesAfter [] = i.desired := by
    rw [i.valuesAfter_eq]
    unfold missing
    rw [hp]
    simp
  by_cases hx : x = i.scope
  · subst hx
    rw [i.values_edit_of_missing_self d a ha hs hp, hold, hafter]
    simp only [true_and]
  · rw [if_neg fun h => hx h.1]
    exact i.values_edit_of_missing_other d hs hp x hx b

theorem values_edit (x : Scope) (b : Text) : (i.edit d).values x b =
    if x = i.scope ∧ b = a then i.valuesAfter (d.values x b) else d.values x b := by
  cases hs : d.span? i.scope with
  | some s => exact i.values_edit_of_span? d a ha s hs x b
  | none =>
    cases hp : i.presence with
    | present => exact i.values_edit_of_missing d a ha hs hp x b
    | absent =>
      have hold := d.values_of_notMem_scopes i.scope a ((d.span?_eq_none_iff _).1 hs)
      have hself : i.edit d = d := by
        apply i.edit_eq_self d
        · exact i.not_removes_of_span?_eq_none d hs
        · unfold newLines
          rw [hs, hp]
      rw [hself]
      split
      · next h =>
        rw [h.1, h.2, hold]
        unfold valuesAfter
        rw [hp]
        cases i.exclusive <;> rfl
      · rfl

end

/-! ## Scopes -/

theorem scopes_edit_of_span? (a : Text) (ha : i.attr = some a) (s : Span)
    (hs : d.span? i.scope = some s) : (i.edit d).scopes = d.scopes := by
  obtain ⟨pre, post, hd, -, he⟩ := i.sections_edit_of_attr a s d ha hs
  unfold Document.scopes
  rw [hd, he, List.map_append, List.map_append]
  rfl

theorem scopes_edit_of_missing (hs : d.span? i.scope = none) (hp : i.presence = .present) :
    (i.edit d).scopes = d.scopes ++ [i.scope] := by
  obtain ⟨name, init, last, hname, hd, he⟩ := i.sections_edit_of_missing d hs hp
  unfold Document.scopes
  rw [hd, he, hname]
  simp

theorem scopes_edit_of_absent (ha : i.attr = none) (hp : i.presence = .absent) :
    (i.edit d).scopes = d.scopes.filter fun x => x = .top ∨ x ≠ i.scope := by
  unfold Document.scopes
  cases hx : i.scope with
  | top =>
    obtain ⟨ls, rest, hd, he⟩ := i.sections_edit_of_absent_top d ha hp hx
    rw [hd, he, List.filter_eq_self.2 fun x _ => decide_eq_true (em (x = .top))]
    rfl
  | stanza name =>
    rw [i.sections_edit_of_absent_stanza d ha hp name hx, List.filter_map, hx]
    congr 1
    apply List.filter_congr
    intro s _
    show decide (s.scope ≠ .stanza name) = decide (s.scope = .top ∨ s.scope ≠ .stanza name)
    apply decide_eq_decide.2
    constructor
    · exact Or.inr
    · rintro (h | h)
      · rw [h]
        exact Scope.noConfusion
      · exact h

theorem scopes_edit_of_present (hp : i.presence = .present) : (i.edit d).scopes =
    if i.scope ∈ d.scopes then d.scopes else d.scopes ++ [i.scope] := by
  cases hs : d.span? i.scope with
  | none =>
    rw [if_neg ((d.span?_eq_none_iff _).1 hs)]
    exact i.scopes_edit_of_missing d hs hp
  | some s =>
    have hmem : i.scope ∈ d.scopes := by
      by_contra hmem
      rw [(d.span?_eq_none_iff _).2 hmem] at hs
      cases hs
    rw [if_pos hmem]
    cases ha : i.attr with
    | some a => exact i.scopes_edit_of_span? d a ha s hs
    | none =>
      rw [i.edit_eq_self d]
      · intro n hn
        unfold Removes at hn
        simp only [ha, hp] at hn
      · unfold newLines attrLines
        rw [hs, ha]

theorem scope_mem_scopes_edit (hp : i.presence = .present) : i.scope ∈ (i.edit d).scopes := by
  rw [i.scopes_edit_of_present d hp]
  split
  · next h => exact h
  · exact List.mem_append_right _ (List.mem_singleton_self _)

/-- A scope that shall be gone has no values afterwards. -/
theorem values_edit_of_absent (ha : i.attr = none) (hp : i.presence = .absent) (b : Text) :
    (i.edit d).values i.scope b = [] := by
  cases hx : i.scope with
  | top =>
    obtain ⟨ls, rest, -, he⟩ := i.sections_edit_of_absent_top d ha hp hx
    have hvalues := (i.edit d).values_of_sections [] rest _ he (fun u hu => nomatch hu) b
    simp only at hvalues
    rw [hvalues]
    apply lineValues_eq_nil
    intro l hl v hk
    have hnone := (List.mem_filter.1 hl).2
    rw [(l.attribute?_eq_some_iff (b, v)).2 hk] at hnone
    cases hnone
  | stanza name =>
    apply Document.values_of_notMem_scopes
    rw [i.scopes_edit_of_absent d ha hp, hx, List.mem_filter]
    simp

end Intent

end Stanzas
