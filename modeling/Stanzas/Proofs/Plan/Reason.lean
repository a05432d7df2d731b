import Mathlib.Data.List.Basic
import Stanzas.Proofs.Plan

/-!
# The reason of an edit

Where the scope of an intent is there, the values that the attribute has decide alone what the edit
does to it (`Intent.reasonFor`). Which lines hold them, and where, has no part in it:

    d.span? i.scope = some s → (i.plan d).2 = i.reasonFor (s.values a)          (snd_plan_of_attr)

The reason tells whether values are lost, and whether some are written (`explains_reasonFor`).
-/

namespace Stanzas

namespace Intent

/-- What an edit does to an attribute that has some values. -/
def reasonFor (i : Intent) (old : List (Option Text)) : Reason :=
  match i.presence, i.exclusive with
  | .present, true =>
    if old = [] then .attrAdded
    else if (∀ v ∈ old, v ∈ i.desired) ∧ ∀ v ∈ i.desired, v ∈ old then .unchanged
    else .attrChanged
  | .present, false => if ∀ v ∈ i.desired, v ∈ old then .unchanged else .attrAdded
  | .absent, true => if old = [] then .unchanged else .attrChanged
  | .absent, false => if ∀ v ∈ old, v ∉ i.values.map some then .unchanged else .attrChanged

end Intent

namespace Span

variable (s : Span) (a : Text) (desired : List (Option Text))

theorem snd_replaceValues : (s.replaceValues a desired).2 =
    if s.values a = [] then .attrAdded
    else if (∀ v ∈ s.values a, v ∈ desired) ∧ ∀ v ∈ desired, v ∈ s.values a then .unchanged
    else .attrChanged := by
  unfold replaceValues
  rw [← s.map_value_occurrences]
  cases s.occurrences a with
  | nil => rfl
  | cons first rest =>
    have hdropped : (first :: rest).filter (·.value ∉ desired) = [] ↔
        ∀ v ∈ (first :: rest).map Place.value, v ∈ desired := by
      rw [List.filter_eq_nil_iff, List.forall_mem_map]
      simp only [decide_eq_true_eq, not_not]
    have hmissing : desired.filter (· ∉ (first :: rest).map Place.value) = [] ↔
        ∀ v ∈ desired, v ∈ (first :: rest).map Place.value := by
      rw [List.filter_eq_nil_iff]
      simp only [decide_eq_true_eq, not_not]
    rw [if_neg (mt List.map_eq_nil_iff.1 (List.cons_ne_nil first rest))]
    simp only [hdropped, hmissing]
    split <;> rfl

theorem snd_addValues : (s.addValues a desired).2 =
    if ∀ v ∈ desired, v ∈ s.values a then .unchanged else .attrAdded := by
  have hmissing : desired.filter (· ∉ s.values a) = [] ↔ ∀ v ∈ desired, v ∈ s.values a := by
    rw [List.filter_eq_nil_iff]
    simp only [decide_eq_true_eq, not_not]
  unfold addValues
  rw [s.map_value_occurrences]
  simp only [← hmissing]
  cases desired.filter (· ∉ s.values a) <;> rfl

end Span

namespace Intent

theorem snd_dropPlaces (places : List Place) :
    (dropPlaces places).2 = if places = [] then .unchanged else .attrChanged := by
  cases places <;> rfl

theorem snd_plan_of_attr (i : Intent) (d : Document) (a : Text) (ha : i.attr = some a) (s : Span)
    (hs : d.span? i.scope = some s) : (i.plan d).2 = i.reasonFor (s.values a) := by
  unfold plan reasonFor
  rw [hs, ha]
  cases i.presence with
  | present =>
    cases i.exclusive with
    | true => exact s.snd_replaceValues a i.desired
    | false => exact s.snd_addValues a i.desired
  | absent =>
    cases i.exclusive with
    | true =>
      simp only [if_true, snd_dropPlaces, ← s.map_value_occurrences, List.map_eq_nil_iff]
    | false =>
      have hnone : (s.occurrences a).filter (·.value ∈ i.values.map some) = [] ↔
          ∀ v ∈ s.values a, v ∉ i.values.map some := by
        rw [List.filter_eq_nil_iff, ← s.map_value_occurrences, List.forall_mem_map]
        simp only [decide_eq_true_eq]
      simp only [Bool.false_eq_true, if_false, snd_dropPlaces, hnone]

/-! ## What becomes of the values -/

/-- Which reason stands for what becomes of the values of an attribute. -/
inductive Explains (i : Intent) (old : List (Option Text)) : Reason → Prop
  | unchanged (hkeep : ∀ v ∈ old, i.drops v = false) (hnone : i.missing old = []) :
    Explains i old .unchanged
  | attrAdded (hkeep : ∀ v ∈ old, i.drops v = false) (hsome : i.missing old ≠ []) :
    Explains i old .attrAdded
  | attrChanged (hold : old ≠ [])
    (hchange : (∃ v ∈ old, i.drops v = true) ∨ i.missing old ≠ []) : Explains i old .attrChanged

section
variable (i : Intent) (old : List (Option Text))

theorem missing_eq_nil_iff (hp : i.presence = .present) :
    i.missing old = [] ↔ ∀ v ∈ i.desired, v ∈ old := by
  unfold missing
  rw [hp]
  simp only [List.filter_eq_nil_iff, decide_eq_true_eq, not_not]

theorem explains_reasonFor_of_present (hp : i.presence = .present) (hne : i.desired ≠ []) :
    i.Explains old (i.reasonFor old) := by
  have hmissing := i.missing_eq_nil_iff old hp
  unfold reasonFor
  cases he : i.exclusive with
  | false =>
    have hkeep : ∀ v ∈ old, i.drops v = false := by
      intro v _
      unfold drops
      rw [hp, he]
    simp only [hp]
    split
    · next hget => exact .unchanged hkeep (hmissing.2 hget)
    · next hget => exact .attrAdded hkeep (mt hmissing.1 hget)
  | true =>
    have hdrops : ∀ v, i.drops v = decide (v ∉ i.desired) := by
      intro v
      unfold drops
      rw [hp, he]
    simp only [hp]
    split
    · next hold =>
      obtain ⟨v, hv⟩ := List.exists_mem_of_ne_nil _ hne
      refine .attrAdded (by simp [hold]) fun hnone => ?_
      have hmem := hmissing.1 hnone v hv
      rw [hold] at hmem
      cases hmem
    · next hold =>
      split
      · next hsame =>
        exact .unchanged (by simpa [hdrops] using hsame.1) (hmissing.2 hsame.2)
      · next hdiffer =>
        apply Explains.attrChanged hold
        by_cases hkeep : ∀ v ∈ old, v ∈ i.desired
        · exact Or.inr fun hnone => hdiffer ⟨hkeep, hmissing.1 hnone⟩
        · left
          simpa [hdrops] using hkeep

theorem explains_reasonFor_of_absent (hp : i.presence = .absent) :
    i.Explains old (i.reasonFor old) := by
  have hnone : i.missing old = [] := by
    unfold missing
    rw [hp]
  unfold reasonFor
  cases he : i.exclusive with
  | true =>
    have hdrops : ∀ v, i.drops v = true := by
      intro v
      unfold drops
      rw [hp, he]
    simp only [hp]
    split
    · next hold => exact .unchanged (by simp [hold]) hnone
    · next hold =>
      obtain ⟨v, hv⟩ := List.exists_mem_of_ne_nil old hold
      exact .attrChanged hold (Or.inl ⟨v, hv, hdrops v⟩)
  | false =>
    have hdrops : ∀ v, i.drops v = decide (v ∈ i.values.map some) := by
      intro v
      unfold drops
      rw [hp, he]
    simp only [hp]
    split
    · next hkeep => exact .unchanged (fun v hv => by simpa [hdrops] using hkeep v hv) hnone
    · next hkeep =>
      obtain ⟨v, hv, hmem⟩ : ∃ v ∈ old, v ∈ i.values.map some := by simpa using hkeep
      exact .attrChanged (List.ne_nil_of_mem hv)
        (Or.inl ⟨v, hv, by rwa [hdrops, decide_eq_true_iff]⟩)

theorem explains_reasonFor (hne : i.presence = .present → i.desired ≠ []) :
    i.Explains old (i.reasonFor old) := by
  cases hp : i.presence with
  | present => exact i.explains_reasonFor_of_present old hp (hne hp)
  | absent => exact i.explains_reasonFor_of_absent old hp

end

end Intent

end Stanzas
