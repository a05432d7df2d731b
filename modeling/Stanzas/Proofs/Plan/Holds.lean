import Mathlib.Data.List.Basic
import Stanzas.Proofs.Intent
import Stanzas.Proofs.Plan.Values

/-!
# When an intent holds

`Intent.Holds` says what an intent asks for, in terms of the scopes and values that a reader finds.
An edit makes its intent hold (`holds_edit`), and where an intent holds there is nothing to do:

    i.Valid → (i.plan d = (∅, .unchanged) ↔ i.Holds d)                    (plan_eq_unchanged_iff)
-/

namespace Stanzas

namespace Intent

variable (i : Intent) (d : Document)

/-- What an intent asks of a document. -/
def Holds : Prop :=
  match i.attr, i.presence with
  | none, .present => i.scope ∈ d.scopes
  | none, .absent => (i.scope = .top ∨ i.scope ∉ d.scopes) ∧ ∀ a, d.values i.scope a = []
  | some a, .present => i.scope ∈ d.scopes ∧ (∀ v ∈ i.desired, v ∈ d.values i.scope a) ∧
      (i.exclusive = true → ∀ v ∈ d.values i.scope a, v ∈ i.desired)
  | some a, .absent =>
    if i.exclusive then d.values i.scope a = [] else ∀ v ∈ i.values, some v ∉ d.values i.scope a

/-- Only scopes and values count. -/
theorem Holds.congr {i : Intent} {d : Document} (h : i.Holds d) (e : Document)
    (hscopes : e.scopes = d.scopes) (hvalues : ∀ x a, e.values x a = d.values x a) : i.Holds e := by
  unfold Holds at h ⊢
  simpa only [hscopes, hvalues] using h

/-! ## Edits -/

section
variable (old : List (Option Text)) (v : Option Text)

theorem mem_valuesAfter_of_mem_desired (hp : i.presence = .present) (hv : v ∈ i.desired) :
    v ∈ i.valuesAfter old := by
  unfold valuesAfter
  rw [hp]
  by_cases hold : v ∈ old
  · cases i.exclusive with
    | true => exact List.mem_append_left _ (List.mem_filter.2 ⟨hold, decide_eq_true hv⟩)
    | false => exact List.mem_append_left _ hold
  · have hnew : v ∈ i.desired.filter (· ∉ old) := List.mem_filter.2 ⟨hv, decide_eq_true hold⟩
    cases i.exclusive <;> exact List.mem_append_right _ hnew

theorem mem_desired_of_mem_valuesAfter (hp : i.presence = .present) (he : i.exclusive = true)
    (hv : v ∈ i.valuesAfter old) : v ∈ i.desired := by
  unfold valuesAfter at hv
  rw [hp, he] at hv
  rcases List.mem_append.1 hv with hv | hv
  · exact of_decide_eq_true (List.mem_filter.1 hv).2
  · exact (List.mem_filter.1 hv).1

theorem valuesAfter_of_absent (hp : i.presence = .absent) : i.valuesAfter old =
    if i.exclusive then [] else old.filter (· ∉ i.values.map some) := by
  unfold valuesAfter
  rw [hp]
  cases i.exclusive <;> rfl

end

theorem holds_edit_of_scope (ha : i.attr = none) : i.Holds (i.edit d) := by
  unfold Holds
  rw [ha]
  cases hp : i.presence with
  | present => exact i.scope_mem_scopes_edit d hp
  | absent =>
    refine ⟨?_, i.values_edit_of_absent d ha hp⟩
    rw [i.scopes_edit_of_absent d ha hp, List.mem_filter]
    cases i.scope with
    | top => exact Or.inl rfl
    | stanza name => exact Or.inr (by simp)

theorem holds_edit_of_attr (a : Text) (ha : i.attr = some a) : i.Holds (i.edit d) := by
  have hvalues : (i.edit d).values i.scope a = i.valuesAfter (d.values i.scope a) := by
    rw [i.values_edit d a ha, if_pos ⟨rfl, rfl⟩]
  unfold Holds
  rw [ha]
  cases hp : i.presence with
  | present =>
    simp only [hvalues]
    refine ⟨i.scope_mem_scopes_edit d hp, ?_, ?_⟩
    · intro v hv
      exact i.mem_valuesAfter_of_mem_desired _ v hp hv
    · intro he v hv
      exact i.mem_desired_of_mem_valuesAfter _ v hp he hv
  | absent =>
    simp only [hvalues, i.valuesAfter_of_absent _ hp]
    split
    · rfl
    · intro v hv hmem
      exact of_decide_eq_true (List.mem_filter.1 hmem).2 (List.mem_map_of_mem hv)

theorem holds_edit : i.Holds (i.edit d) := by
  cases ha : i.attr with
  | none => exact i.holds_edit_of_scope d ha
  | some a => exact i.holds_edit_of_attr d a ha

/-! ## Nothing to do -/

/-- Only what shall be absent holds where its scope is missing. -/
theorem presence_of_holds (hs : d.span? i.scope = none) (h : i.Holds d) : i.presence = .absent := by
  have hscopes := (d.span?_eq_none_iff _).1 hs
  unfold Holds at h
  cases hp : i.presence with
  | absent => rfl
  | present =>
    rw [hp] at h
    cases ha : i.attr with
    | none =>
      rw [ha] at h
      exact absurd h hscopes
    | some a =>
      rw [ha] at h
      exact absurd h.1 hscopes

theorem plan_of_holds_scope (ha : i.attr = none) (s : Span) (hs : d.span? i.scope = some s)
    (h : i.Holds d) : i.plan d = (∅, .unchanged) := by
  obtain ⟨-, -, -, -, hscope, -⟩ := d.sections_of_span? _ s hs
  unfold Holds at h
  unfold plan
  rw [ha] at h ⊢
  rw [hs]
  cases hp : i.presence with
  | present => rfl
  | absent =>
    rw [hp] at h
    obtain ⟨hx, hnil⟩ := h
    have htop : i.scope = .top := by
      rcases hx with hx | hx
      · exact hx
      · rw [← d.span?_eq_none_iff, hs] at hx
        cases hx
    apply s.remove_of_values_eq_nil d (hscope.trans htop)
    intro a
    rw [← d.values_of_span? _ a s hs]
    exact hnil a

theorem plan_of_holds_attr (hv : i.Valid) (a : Text) (ha : i.attr = some a) (s : Span)
    (hs : d.span? i.scope = some s) (h : i.Holds d) : i.plan d = (∅, .unchanged) := by
  have hvalues := fun b => d.values_of_span? i.scope b s hs
  unfold Holds at h
  unfold plan
  rw [ha] at h ⊢
  simp only [hvalues] at h
  rw [hs]
  cases hp : i.presence with
  | present =>
    rw [hp] at h
    obtain ⟨-, hget, hkeep⟩ := h
    show (if i.exclusive then _ else _) = _
    split
    · next he =>
      have hne := hv.desired_ne_nil (by rw [ha]; exact Option.some_ne_none a) hp
      exact s.replaceValues_of_subset a _ hne hget (hkeep he)
    · exact s.addValues_of_subset a _ hget
  | absent =>
    rw [hp] at h
    show (if i.exclusive then _ else _) = _
    split
    · next he =>
      simp only [he, if_true] at h
      rw [← s.map_value_occurrences, List.map_eq_nil_iff] at h
      rw [h]
      rfl
    · next he =>
      simp only [he] at h
      apply dropPlaces_of_disjoint
      intro v hmem
      obtain ⟨w, hw, rfl⟩ := List.mem_map.1 hmem
      exact h w hw

theorem plan_of_holds (hv : i.Valid) (h : i.Holds d) : i.plan d = (∅, .unchanged) := by
  cases hs : d.span? i.scope with
  | none =>
    unfold plan
    rw [hs, i.presence_of_holds d hs h]
  | some s =>
    cases ha : i.attr with
    | none => exact i.plan_of_holds_scope d ha s hs h
    | some a => exact i.plan_of_holds_attr d hv a ha s hs h

/-- An intent has nothing to do in just the documents that it holds of. -/
theorem plan_eq_unchanged_iff (hv : i.Valid) : i.plan d = (∅, .unchanged) ↔ i.Holds d := by
  constructor
  · intro h
    have hself : i.edit d = d := by
      unfold edit
      rw [h]
      exact Patch.apply_of_isEmpty ∅ d Patch.isEmpty_empty
    rw [← hself]
    exact i.holds_edit d
  · exact i.plan_of_holds d hv

end Intent

end Stanzas
